import Mathlib.Tactic

/-!
`dict_sync`: the descriptors of a dictionary's keys go to the disk page by page, each pass filling a
page from the cache in the order of the key map. The header of the dictionary is left out.
-/

namespace BaochipXous.DictSync

variable {D : Type}

/-- A cached key: its descriptor as it goes to the disk, and whether its name fits there. -/
structure Key (D : Type) where
  index : Nat
  desc : D
  valid : Bool
  clean : Bool
  nameFits : Bool
  deriving DecidableEq, Repr

def dkPerVpage : Nat := 32

def Key.descriptorVpageNum (k : Key D) : Nat := k.index / dkPerVpage

/-- The key makes the loop go on. -/
def Key.dirty (k : Key D) : Bool := !k.clean && k.valid || !k.valid

/-- A place of the page in memory after the keys were merged in: the last key of the index decides. -/
def element (keys : List (Key D)) (i : Nat) : Option D :=
  keys.foldl (fun e k => if k.index = i then (if k.valid then some k.desc else none) else e) none

/-- The keys after a pass over the page: written ones are clean, removed ones are gone. -/
def written (p : Nat) (keys : List (Key D)) : List (Key D) :=
  (keys.filter fun k => k.valid || k.descriptorVpageNum != p).map fun k =>
    if k.descriptorVpageNum = p then { k with clean := true } else k

/-- The cached keys and the descriptors on the disk, by index; `none` is a place of zeros. -/
structure State (D : Type) where
  keys : List (Key D)
  disk : Nat → Option D

def State.pass (s : State D) (p : Nat) : State D where
  keys := written p s.keys
  disk i := if i / dkPerVpage = p then element s.keys i else s.disk i

inductive Result (D : Type) where
  | running
  | panic
  | err
  | ok (s : State D)

/-- The loop, from the page `p` on. `room` says for which pages there is a physical page. -/
def syncLoop (room : Nat → Bool) : Nat → Nat → State D → Result D
  | 0, _, _ => .running
  | fuel + 1, p, s =>
    if !room p then .panic
    else if s.keys.any fun k => k.valid && k.descriptorVpageNum == p && !k.nameFits then .err
    else
      match (s.pass p).keys.find? Key.dirty with
      | none => .ok (s.pass p)
      | some k => syncLoop room fuel k.descriptorVpageNum (s.pass p)

/-- A dictionary in the cache. No index is given to two valid keys, and what is clean is on the disk. -/
structure Dict (D : Type) extends State D where
  clean : Bool
  nameFits : Bool
  distinct : keys.Pairwise fun a b => a.valid → b.valid → a.index ≠ b.index
  stored : ∀ k ∈ keys, k.valid → k.clean → disk k.index = some k.desc
  settled : clean → ∀ k ∈ keys, k.dirty = false

def dictSync (room : Nat → Bool) (fuel : Nat) (d : Dict D) : Result D :=
  if d.clean then .ok d.toState
  else if !d.nameFits then .err
  else syncLoop room fuel 0 d.toState

variable {keys : List (Key D)} {k : Key D} {i p : Nat} {s s' : State D} {room : Nat → Bool} {fuel : Nat}

theorem element_concat (keys : List (Key D)) (k : Key D) (i : Nat) : element (keys ++ [k]) i =
    if k.index = i then (if k.valid then some k.desc else none) else element keys i := by
  rw [element, List.foldl_concat]
  rfl

/-- No removed key comes behind a valid one of the same index. -/
def Last (keys : List (Key D)) : Prop := keys.Pairwise fun a b => a.valid → a.index ≠ b.index

theorem element_of_last (h : Last keys) (hk : k ∈ keys) (hvalid : k.valid) : element keys k.index = some k.desc := by
  induction keys using List.reverseRecOn with
  | nil => cases hk
  | append_singleton keys x ih =>
    obtain ⟨hkeys, -, hx⟩ := List.pairwise_append.mp h
    rw [element_concat]
    rcases List.mem_append.mp hk with hk | hk
    · rw [if_neg (hx k hk x (by simp) hvalid).symm, ih hkeys hk]
    · obtain rfl := List.mem_singleton.mp hk
      rw [if_pos rfl, if_pos hvalid]

/-- It shows in the page if one does. -/
theorem last_of_element (hdist : keys.Pairwise fun a b => a.valid → b.valid → a.index ≠ b.index)
    (h : ∀ k ∈ keys, k.valid → (∃ x ∈ keys, x.valid = false ∧ x.index = k.index) →
      element keys k.index = some k.desc) : Last keys := by
  induction keys using List.reverseRecOn with
  | nil => exact .nil
  | append_singleton keys x ih =>
    obtain ⟨hkeys, -, hx⟩ := List.pairwise_append.mp hdist
    have hne : ∀ a ∈ keys, a.valid → a.index ≠ x.index := by
      intro a ha hvalid heq
      cases hxv : x.valid with
      | true => exact hx a ha x (by simp) hvalid hxv heq
      | false =>
        have hlast := h a (List.mem_append_left _ ha) hvalid ⟨x, by simp, hxv, heq.symm⟩
        simp [element_concat, heq, hxv] at hlast
    refine List.pairwise_append.mpr ⟨ih hkeys fun k hk hvalid hex => ?_, by simp, fun a ha b hb hvalid => ?_⟩
    · obtain ⟨y, hy, hyk⟩ := hex
      have hlast := h k (List.mem_append_left _ hk) hvalid ⟨y, List.mem_append_left _ hy, hyk⟩
      rwa [element_concat, if_neg (hne k hk hvalid).symm] at hlast
    · obtain rfl := List.mem_singleton.mp hb
      exact hne a ha hvalid

theorem element_none (h : ∀ k ∈ keys, k.valid → k.index ≠ i) : element keys i = none := by
  induction keys using List.reverseRecOn with
  | nil => rfl
  | append_singleton keys x ih =>
    rw [element_concat, ih fun k hk => h k (List.mem_append_left _ hk)]
    split_ifs with hi hvalid
    · exact absurd hi (h x (by simp) hvalid)
    · rfl
    · rfl

/-- A pass leaves the places of the other pages to the same keys. -/
theorem element_written (hi : i / dkPerVpage ≠ p) : element (written p keys) i = element keys i := by
  induction keys using List.reverseRecOn with
  | nil => rfl
  | append_singleton keys x ih =>
    have hwritten : written p (keys ++ [x]) = written p keys ++ written p [x] := by simp [written]
    rw [hwritten, element_concat]
    by_cases hp : x.descriptorVpageNum = p
    · have hx : x.index ≠ i := fun heq => hi (heq ▸ hp)
      rw [if_neg hx]
      by_cases hvalid : x.valid
      · simp only [written, hvalid, Bool.true_or, List.filter_cons_of_pos, List.filter_nil, List.map_cons,
          List.map_nil, if_pos hp]
        rw [← written, element_concat, if_neg hx, ih]
      · simpa [written, hvalid, hp] using ih
    · have hkeep : written p [x] = [x] := by simp [written, hp]
      rw [hkeep, element_concat, ih]

theorem mem_written_dirty : k ∈ written p keys ∧ k.dirty ↔ k ∈ keys ∧ k.dirty ∧ k.descriptorVpageNum ≠ p := by
  simp only [written, List.mem_map, List.mem_filter, Bool.or_eq_true, bne_iff_ne]
  constructor
  · rintro ⟨⟨x, ⟨hx, hkeep⟩, rfl⟩, hdirty⟩
    split_ifs at hdirty ⊢ with hp
    · simp [Key.dirty, hkeep.resolve_right (not_not.mpr hp)] at hdirty
    · exact ⟨hx, hdirty, hp⟩
  · rintro ⟨hk, hdirty, hp⟩
    exact ⟨⟨k, ⟨hk, .inr hp⟩, if_neg hp⟩, hdirty⟩

/-- The page holds a key that is still to be written. -/
def Waits (keys : List (Key D)) (p : Nat) : Prop := ∃ k ∈ keys, k.dirty ∧ k.descriptorVpageNum = p

theorem waits_written {q : Nat} : Waits (written p keys) q ↔ Waits keys q ∧ q ≠ p := by
  constructor
  · rintro ⟨k, hk, hdirty, rfl⟩
    obtain ⟨hmem, -, hp⟩ := mem_written_dirty.mp ⟨hk, hdirty⟩
    exact ⟨⟨k, hmem, hdirty, rfl⟩, hp⟩
  · rintro ⟨⟨k, hk, hdirty, rfl⟩, hp⟩
    exact ⟨k, (mem_written_dirty.mpr ⟨hk, hdirty, hp⟩).1, hdirty, rfl⟩

/-- When the loop ends, the page it began with and those that waited are filled from the cache, the
others as before. -/
theorem syncLoop_ok (h : syncLoop room fuel p s = .ok s') (i : Nat) :
    (i / dkPerVpage = p ∨ Waits s.keys (i / dkPerVpage) → s'.disk i = element s.keys i) ∧
      (i / dkPerVpage ≠ p → ¬ Waits s.keys (i / dkPerVpage) → s'.disk i = s.disk i) := by
  induction fuel generalizing p s with
  | zero => cases h
  | succ fuel ih =>
    rw [syncLoop] at h
    split_ifs at h
    cases hfind : (s.pass p).keys.find? Key.dirty with
    | none =>
      simp only [hfind, Result.ok.injEq] at h
      subst h
      refine ⟨fun hi => if_pos (hi.elim id fun hwaits => ?_), fun hi _ => if_neg hi⟩
      by_contra hne
      obtain ⟨k, hk, hdirty, -⟩ := waits_written.mpr ⟨hwaits, hne⟩
      exact absurd hdirty (List.find?_eq_none.mp hfind k hk)
    | some k =>
      simp only [hfind] at h
      have hk : Waits (s.pass p).keys k.descriptorVpageNum :=
        ⟨k, List.mem_of_find?_eq_some hfind, List.find?_some hfind, rfl⟩
      obtain ⟨hin, hout⟩ := ih h
      by_cases hi : i / dkPerVpage = p
      · have hgone : ¬ Waits (s.pass p).keys (i / dkPerVpage) := fun hw => (waits_written.mp hw).2 hi
        refine ⟨fun _ => ?_, fun hne => absurd hi hne⟩
        rw [hout (fun heq => hgone (heq ▸ hk)) hgone]
        exact if_pos hi
      · refine ⟨fun hw => ?_, fun _ hnot => ?_⟩
        · rw [hin (.inr (waits_written.mpr ⟨hw.resolve_left hi, hi⟩))]
          exact element_written hi
        · have hgone : ¬ Waits (s.pass p).keys (i / dkPerVpage) := fun hw => hnot (waits_written.mp hw).1
          rw [hout (fun heq => hgone (heq ▸ hk)) hgone]
          exact if_neg hi

theorem countP_written : (written p keys).countP Key.dirty =
    ((keys.filter Key.dirty).filter fun k => k.descriptorVpageNum != p).length := by
  rw [written, List.countP_map, List.countP_filter, List.filter_filter, ← List.countP_eq_length_filter]
  congr 1
  funext k
  rw [Bool.eq_iff_iff]
  by_cases hp : k.descriptorVpageNum = p <;> simp [Key.dirty, hp]

/-- Every pass but the first writes a key that was still to be written. -/
theorem syncLoop_returns (hfuel : (written p s.keys).countP Key.dirty ≤ fuel) :
    syncLoop room (fuel + 1) p s ≠ .running := by
  induction fuel generalizing p s with
  | zero =>
    have hnone : (s.pass p).keys.find? Key.dirty = none :=
      List.find?_eq_none.mpr (List.countP_eq_zero.mp (Nat.le_zero.mp hfuel))
    rw [syncLoop, hnone]
    split_ifs <;> simp
  | succ fuel ih =>
    rw [syncLoop]
    cases hfind : (s.pass p).keys.find? Key.dirty with
    | none => split_ifs <;> simp
    | some k =>
      have hless : (written k.descriptorVpageNum (s.pass p).keys).countP Key.dirty <
          (s.pass p).keys.countP Key.dirty := by
        rw [countP_written, List.countP_eq_length_filter, List.length_filter_lt_length_iff_exists]
        exact ⟨k, List.mem_filter.mpr ⟨List.mem_of_find?_eq_some hfind, List.find?_some hfind⟩, by simp⟩
      have hnext := ih (s := s.pass p) (Nat.le_of_lt_succ (hless.trans_le hfuel))
      split_ifs <;> simp [hnext]

/-- What the disk has to hold after the sync of `d`. -/
structure Synced (d : Dict D) (s : State D) : Prop where
  stored : ∀ k ∈ d.keys, k.valid → s.disk k.index = some k.desc
  zeroed : ∀ k ∈ d.keys, k.valid = false → (∀ k' ∈ d.keys, k'.valid → k'.index ≠ k.index) →
    s.disk k.index = none
  kept : ∀ i, i / dkPerVpage ≠ 0 → ¬ Waits d.keys (i / dkPerVpage) → s.disk i = d.disk i

/-- A sync always returns, and leaves what is right just when the iteration comes to no removed key
behind the valid one that has its index now. -/
theorem dictSync_synced_iff (room : Nat → Bool) (d : Dict D) :
    (∀ fuel, d.keys.length < fuel → dictSync room fuel d ≠ .running) ∧
      ∀ fuel s, dictSync room fuel d = .ok s → (Synced d s ↔ Last d.keys) := by
  refine ⟨fun fuel hfuel => ?_, fun fuel s hsync => ?_⟩
  · obtain ⟨fuel, rfl⟩ := Nat.exists_eq_add_one_of_ne_zero (Nat.ne_zero_of_lt hfuel)
    have hcount : (written 0 d.keys).countP Key.dirty ≤ fuel := by
      rw [countP_written, List.filter_filter]
      exact (List.length_filter_le _ _).trans (Nat.le_of_lt_succ hfuel)
    have hloop : syncLoop room (fuel + 1) 0 d.toState ≠ .running := syncLoop_returns hcount
    rw [dictSync]
    split_ifs <;> simp [hloop]
  rw [dictSync] at hsync
  split_ifs at hsync with hclean
  · -- nothing is written, and nothing had to be
    obtain rfl := Result.ok.inj hsync
    have hvalid : ∀ k ∈ d.keys, k.valid ∧ k.clean := by
      intro k hk
      have := d.settled hclean k hk
      simp only [Key.dirty, Bool.or_eq_false_iff, Bool.and_eq_false_iff, Bool.not_eq_false'] at this
      exact ⟨this.2, this.1.resolve_right (by simp [this.2])⟩
    refine ⟨fun _ => d.distinct.imp_of_mem fun ha hb h hav => h hav (hvalid _ hb).1, fun _ => ⟨?_, ?_, ?_⟩⟩
    · exact fun k hk hv => d.stored k hk hv (hvalid k hk).2
    · exact fun k hk hv => absurd (hvalid k hk).1 (by simp [hv])
    · exact fun _ _ _ => rfl
  · have hdisk := fun i => syncLoop_ok hsync i
    have hremoved : ∀ k ∈ d.keys, k.valid = false → s.disk k.index = element d.keys k.index :=
      fun k hk hv => (hdisk k.index).1 (.inr ⟨k, hk, by simp [Key.dirty, hv], rfl⟩)
    constructor
    · rintro ⟨hstored, -, -⟩
      apply last_of_element d.distinct
      rintro k hk hvalid ⟨x, hx, hxv, heq⟩
      rw [← hstored k hk hvalid, ← heq]
      exact (hremoved x hx hxv).symm
    · refine fun hlast => ⟨fun k hk hvalid => ?_, fun k hk hv hnone => ?_, fun i h0 hw => (hdisk i).2 h0 hw⟩
      · by_cases hin : k.index / dkPerVpage = 0 ∨ Waits d.keys (k.index / dkPerVpage)
        · rw [(hdisk _).1 hin, element_of_last hlast hk hvalid]
        · obtain ⟨h0, hw⟩ := not_or.mp hin
          rw [(hdisk _).2 h0 hw]
          refine d.stored k hk hvalid (by_contra fun hclean => hw ⟨k, hk, ?_, rfl⟩)
          simp [Key.dirty, hvalid, hclean]
      · rw [hremoved k hk hv, element_none hnone]

/-- The key `1` was removed and its index given to the key `2` before the sync. -/
def reused : Dict Nat where
  keys := [⟨1, 2, true, false, true⟩, ⟨1, 1, false, false, true⟩]
  disk i := if i = 1 then some 1 else none
  clean := false
  nameFits := true
  distinct := by decide
  stored := by decide
  settled := by decide

/-- Its descriptor is gone from the disk after the sync. -/
theorem reused_index_lost : ∃ s, dictSync (fun _ => true) 3 reused = .ok s ∧ s.disk 1 = none ∧ ¬ Synced reused s := by
  refine ⟨reused.toState.pass 0, rfl, rfl, fun h => ?_⟩
  have hstored := h.stored ⟨1, 2, true, false, true⟩ (by decide) rfl
  exact absurd hstored (by decide)

/-- The removed key comes first. -/
def reusedLast : Dict Nat :=
  { reused with
    keys := reused.keys.reverse
    distinct := by decide
    stored := by decide
    settled := by decide }

theorem reused_index_stored :
    ∃ s, dictSync (fun _ => true) 3 reusedLast = .ok s ∧ s.disk 1 = some 2 ∧ Synced reusedLast s :=
  ⟨_, rfl, rfl, ((dictSync_synced_iff (fun _ => true) reusedLast).2 3 _ rfl).mpr (by unfold Last; decide)⟩

end BaochipXous.DictSync
