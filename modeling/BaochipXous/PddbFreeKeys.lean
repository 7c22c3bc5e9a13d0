import BaochipXous.LibRely

/-!
The free key indices of a dictionary, a heap of ranges in the order they come out. Taking an index
shortens the first range; returning one walks up the ranges and joins it to its neighbours.
-/

namespace BaochipXous.FreeKeys

open Labelled

def keyMaxCount : Nat := 131071

/-- `start` and the `run` indices after it. -/
structure FreeKeyRange where
  start : Nat
  run : Nat

inductive FreeKeyCases where
  | lessThan
  | leftAdjacent
  | within
  | rightAdjacent
  | greaterThan
  deriving DecidableEq, Repr

def FreeKeyRange.argComparedToSelf (r : FreeKeyRange) (index : Nat) : FreeKeyCases :=
  if 1 < r.start ∧ index < r.start - 1 then .lessThan
  else if 0 < r.start ∧ index = r.start - 1 then .leftAdjacent
  else if r.start ≤ index ∧ index ≤ (r.start + r.run) % 2 ^ 32 then .within
  else if index = (r.start + r.run + 1) % 2 ^ 32 then .rightAdjacent
  else .greaterThan

/-- The part of a `DictCacheEntry` that keeps track of the indices. -/
structure Dict where
  freeKeys : List FreeKeyRange
  lastDiskKeyIndex : Nat

/-- A new dictionary, as `dict_add` makes it. -/
def dictAdd : Dict := ⟨[⟨1, keyMaxCount - 1⟩], 1⟩

/-- A dictionary read from the disk, by the `free_key_index` of its header. -/
def load (freeKeyIndex : Nat) : Dict :=
  ⟨[⟨freeKeyIndex, (keyMaxCount - 1 + 2 ^ 32 - freeKeyIndex) % 2 ^ 32⟩], freeKeyIndex⟩

def Dict.getFreeKeyIndex (d : Dict) : Option Nat × Dict :=
  match d.freeKeys with
  | [] => (none, d)
  | r :: rest =>
    (if r.start = 0 then none else some r.start,
      { freeKeys := if 0 < r.run then ⟨r.start + 1, r.run - 1⟩ :: rest else rest
        lastDiskKeyIndex := if d.lastDiskKeyIndex ≤ r.start then r.start + 1 else d.lastDiskKeyIndex })

/-- The loop of `put_free_key_index`; `none` is the panic on a double free. -/
def place (index : Nat) : List FreeKeyRange → Option (List FreeKeyRange)
  -- past the last range nothing is pushed
  | [] => some []
  | r :: rest =>
    match r.argComparedToSelf index with
    | .lessThan => some (⟨index, 0⟩ :: r :: rest)
    | .leftAdjacent => some (⟨index, r.run + 1⟩ :: rest)
    | .within => none
    | .rightAdjacent =>
      match rest with
      | [] => some [⟨r.start, r.run + 1⟩]
      | next :: rest' =>
        if next.argComparedToSelf index = .leftAdjacent then
          some (⟨r.start, r.run + next.run + 2⟩ :: rest')
        else some (⟨r.start, r.run + 1⟩ :: rest)
    | .greaterThan => (place index rest).map (r :: ·)

def Dict.putFreeKeyIndex (d : Dict) (index : Nat) : Option Dict :=
  (place index d.freeKeys).map fun rs => { d with freeKeys := rs }

/-- The index is in one of the ranges. -/
def Free (i : Nat) : List FreeKeyRange → Prop
  | [] => False
  | r :: rest => (r.start ≤ i ∧ i ≤ r.start + r.run) ∨ Free i rest

/-- The ranges lie above `lo`, in order and with an index between each two. -/
def Apart (lo : Nat) : List FreeKeyRange → Prop
  | [] => True
  | r :: rest => lo ≤ r.start ∧ Apart (r.start + r.run + 2) rest

variable {lo i top : Nat} {rs rest : List FreeKeyRange} {r : FreeKeyRange} {d d' : Dict} {A : Set ℕ}

theorem Apart.mono {lo' : Nat} (h : Apart lo rs) (hle : lo' ≤ lo) : Apart lo' rs := by
  cases rs with
  | nil => trivial
  | cons r rest => exact ⟨hle.trans h.1, h.2⟩

theorem Apart.le_of_free (h : Apart lo rs) (hfree : Free i rs) : lo ≤ i := by
  induction rs generalizing lo with
  | nil => exact hfree.elim
  | cons r rest ih =>
    rcases hfree with hin | hrest
    · exact h.1.trans hin.1
    · have hlo := ih h.2 hrest
      have hstart := h.1
      omega

theorem free_last (hr : r ∈ rs) : Free (r.start + r.run) rs := by
  induction rs with
  | nil => cases hr
  | cons r' rest ih =>
    rcases List.mem_cons.mp hr with rfl | hrest
    · exact .inl ⟨by omega, le_rfl⟩
    · exact .inr (ih hrest)

/-- The five places of an index against a range, where nothing wraps. -/
theorem argComparedToSelf_eq (hfit : r.start + r.run + 1 < 2 ^ 32) (hpos : 0 < r.start) :
    r.argComparedToSelf i = if i + 1 < r.start then .lessThan else if i + 1 = r.start then .leftAdjacent
      else if i ≤ r.start + r.run then .within
      else if i = r.start + r.run + 1 then .rightAdjacent else .greaterThan := by
  unfold FreeKeyRange.argComparedToSelf
  rw [Nat.mod_eq_of_lt hfit, Nat.mod_eq_of_lt (Nat.lt_of_succ_lt hfit)]
  split_ifs <;> first | rfl | omega

/-- Returning an index that is not free, below the end of some range, adds just this index. -/
theorem place_spec (h : Apart lo rs) (hpos : 0 < lo) (hlo : lo ≤ i) (hfree : ¬ Free i rs)
    (hfit : ∀ r ∈ rs, r.start + r.run + 1 < 2 ^ 32) (hreach : ∃ r ∈ rs, i ≤ r.start + r.run + 1) :
    ∃ rs', place i rs = some rs' ∧ Apart lo rs' ∧ ∀ j, Free j rs' ↔ j = i ∨ Free j rs := by
  induction rs generalizing lo with
  | nil => obtain ⟨r, hr, -⟩ := hreach; cases hr
  | cons r rest ih =>
    obtain ⟨hstart, hrest⟩ := h
    have hout : ¬ (r.start ≤ i ∧ i ≤ r.start + r.run) := fun hin => hfree (.inl hin)
    rw [place.eq_def]
    dsimp only
    rw [argComparedToSelf_eq (hfit r List.mem_cons_self) (by omega)]
    split_ifs with hless hleft hin hright
    · exact ⟨_, rfl, ⟨hlo, by dsimp only; omega, hrest⟩, fun j => or_congr_left (by dsimp only; omega)⟩
    · refine ⟨_, rfl, ⟨hlo, hrest.mono (by dsimp only; omega)⟩, fun j => ?_⟩
      simp only [Free, ← or_assoc]
      exact or_congr_left (by omega)
    · omega
    · cases rest with
      | nil =>
        refine ⟨_, rfl, ⟨hstart, trivial⟩, fun j => ?_⟩
        simp only [Free, or_false]
        omega
      | cons next rest' =>
        have hnext := hrest.1
        have hcase : next.argComparedToSelf i = .leftAdjacent ↔ i + 1 = next.start := by
          rw [argComparedToSelf_eq (hfit next (by simp)) (by omega)]
          split_ifs <;> simp <;> omega
        dsimp only
        simp only [hcase]
        split_ifs with hjoin
        · refine ⟨_, rfl, ⟨hstart, hrest.2.mono (by dsimp only; omega)⟩, fun j => ?_⟩
          simp only [Free, ← or_assoc]
          exact or_congr_left (by omega)
        · refine ⟨_, rfl, ⟨hstart, by dsimp only; omega, hrest.2⟩, fun j => ?_⟩
          simp only [Free, ← or_assoc]
          exact or_congr_left (or_congr_left (by omega))
    · -- the index lies above this range, and the range that reaches it further up
      obtain ⟨r', hr', hle⟩ := hreach
      have hr'rest : r' ∈ rest := (List.mem_cons.mp hr').resolve_left (by rintro rfl; omega)
      obtain ⟨rs', hplace, hapart, hiff⟩ := ih hrest (by omega) (by omega) (fun hf => hfree (.inr hf))
        (fun r hr => hfit r (List.mem_cons_of_mem _ hr)) ⟨r', hr'rest, hle⟩
      refine ⟨r :: rs', by rw [hplace]; rfl, ⟨hstart, hapart⟩, fun j => ?_⟩
      simp only [Free, hiff]
      tauto

inductive Op where
  | get
  | put (index : Nat)

/-- A call on a dictionary whose indices in `A` are allocated. Only an allocated index is returned. -/
inductive Step : Dict × Set ℕ → Op → Dict × Set ℕ → Prop where
  | get {d d' : Dict} {A : Set ℕ} {i : Nat} :
      d.getFreeKeyIndex = (some i, d') → Step (d, A) .get (d', insert i A)
  | full {d d' : Dict} {A : Set ℕ} : d.getFreeKeyIndex = (none, d') → Step (d, A) .get (d', A)
  | put {d d' : Dict} {A : Set ℕ} {i : Nat} :
      i ∈ A → d.putFreeKeyIndex i = some d' → Step (d, A) (.put i) (d', A \ {i})

/-- The free ranges of a dictionary with indices `1..top` are those not allocated, and a later mount
finds those that are. -/
structure Sound (top : Nat) (s : Dict × Set ℕ) : Prop where
  apart : Apart 1 s.1.freeKeys
  exact_iff : ∀ i, Free i s.1.freeKeys ↔ (1 ≤ i ∧ i ≤ top) ∧ i ∉ s.2
  searched : ∀ i ∈ s.2, 1 ≤ i ∧ i < keyMaxCount
  below : ∀ i ∈ s.2, i < s.1.lastDiskKeyIndex

/-- An index is taken only while one is left that `fill` searches, and returned only where a free range
lies above it or ends right below it. -/
def Careful (d : Dict) : Op → Prop
  | .get => ∀ r ∈ d.freeKeys.head?, r.start < keyMaxCount
  | .put i => ∃ r ∈ d.freeKeys, i ≤ r.start + r.run + 1

/-- An index that is handed out is the least free one, none is refused while one is free, and a
careful return does not panic. -/
structure Served (s : Dict × Set ℕ) : Prop where
  least : ∀ i, s.1.getFreeKeyIndex.1 = some i → IsLeast { j | Free j s.1.freeKeys } i
  full : s.1.getFreeKeyIndex.1 = none → ∀ j, ¬ Free j s.1.freeKeys
  returns : ∀ i ∈ s.2, Careful s.1 (.put i) → s.1.putFreeKeyIndex i ≠ none

/-- The dictionaries to start from: a new one, and one on whose disk no index is free below the first
that was never used. -/
inductive Starts : Nat → Dict × Set ℕ → Prop where
  | new : Starts keyMaxCount (dictAdd, ∅)
  | load {freeKeyIndex : Nat} : 1 ≤ freeKeyIndex → freeKeyIndex < keyMaxCount →
      Starts (keyMaxCount - 1) (load freeKeyIndex, Set.Ico 1 freeKeyIndex)

variable {s : Dict × Set ℕ}

theorem Starts.sound (h : Starts top s) : Sound top s ∧ keyMaxCount - 1 ≤ top ∧ top ≤ keyMaxCount := by
  cases h with
  | new =>
    refine ⟨⟨⟨le_rfl, trivial⟩, fun i => ?_, by simp, by simp⟩, Nat.sub_le _ _, le_rfl⟩
    simp only [dictAdd, Free, keyMaxCount, Set.mem_empty_iff_false, not_false_eq_true, and_true, or_false]
  | load h1 hlt =>
    refine ⟨⟨⟨h1, trivial⟩, fun i => ?_, fun i hi => ⟨hi.1, hi.2.trans hlt⟩, fun i hi => hi.2⟩, le_rfl, Nat.sub_le _ _⟩
    unfold keyMaxCount at hlt
    simp only [FreeKeys.load, Free, keyMaxCount, Set.mem_Ico, or_false]
    omega

/-- Taking an index takes the first of the free ones away and nothing else. -/
theorem get_spec (h : Apart 1 d.freeKeys) (hcons : d.freeKeys = r :: rest) :
    d.getFreeKeyIndex.1 = some r.start ∧ Apart 1 d.getFreeKeyIndex.2.freeKeys ∧
      ∀ j, Free j d.getFreeKeyIndex.2.freeKeys ↔ Free j d.freeKeys ∧ j ≠ r.start := by
  obtain ⟨hstart, hrest⟩ : Apart 1 (r :: rest) := hcons ▸ h
  simp only [Dict.getFreeKeyIndex, hcons]
  refine ⟨if_neg (by omega), ?_, fun j => ?_⟩
  · split_ifs
    · exact ⟨by dsimp only; omega, hrest.mono (by dsimp only; omega)⟩
    · exact hrest.mono (by omega)
  · have hfar : Free j rest → r.start + r.run + 2 ≤ j := hrest.le_of_free
    split_ifs
    all_goals
      simp only [Free]
      by_cases hj : Free j rest
      · simp only [hj, or_true, true_and, true_iff]
        exact fun heq => absurd (hfar hj) (by omega)
      · simp only [hj, or_false, false_iff]
        omega

theorem Sound.put_spec (h : Sound top s) (htop : top ≤ keyMaxCount) (hi : i ∈ s.2)
    (hreach : Careful s.1 (.put i)) : ∃ rs', place i s.1.freeKeys = some rs' ∧ Apart 1 rs' ∧
      ∀ j, Free j rs' ↔ j = i ∨ Free j s.1.freeKeys := by
  refine place_spec h.apart Nat.one_pos (h.searched i hi).1 (fun hf => ((h.exact_iff i).mp hf).2 hi)
    (fun r hr => ?_) hreach
  have hend := ((h.exact_iff _).mp (free_last hr)).1.2
  unfold keyMaxCount at htop
  omega

theorem Sound.served (h : Sound top s) (htop : top ≤ keyMaxCount) : Served s := by
  refine ⟨fun i hi => ?_, fun hnone j hj => ?_, fun i hi hreach hnone => ?_⟩
  · cases hcons : s.1.freeKeys with
    | nil => simp [Dict.getFreeKeyIndex, hcons] at hi
    | cons r rest =>
      obtain rfl := Option.some.inj ((get_spec h.apart hcons).1.symm.trans hi)
      refine ⟨.inl ⟨le_rfl, Nat.le_add_right _ _⟩, fun j hj => ?_⟩
      rcases hj with hin | hj
      · exact hin.1
      · have hfar := (hcons ▸ h.apart : Apart 1 (r :: rest)).2.le_of_free hj
        omega
  · cases hcons : s.1.freeKeys with
    | nil => exact (hcons ▸ hj : Free j [])
    | cons r rest => cases (get_spec h.apart hcons).1.symm.trans hnone
  · obtain ⟨rs', hplace, -⟩ := h.put_spec htop hi hreach
    simp [Dict.putFreeKeyIndex, hplace] at hnone

/-- A careful operation keeps the ranges sound. -/
theorem Sound.step {s' : Dict × Set ℕ} {op : Op} (h : Sound top s)
    (htop : keyMaxCount - 1 ≤ top ∧ top ≤ keyMaxCount) (hcareful : Careful s.1 op) (hstep : Step s op s') : Sound top s' := by
  cases hstep with
  | @get d d' A i hget =>
    cases hcons : d.freeKeys with
    | nil => simp [Dict.getFreeKeyIndex, hcons] at hget
    | cons r rest =>
      obtain ⟨hsome, hapart, hiff⟩ := get_spec h.apart hcons
      rw [hget] at hsome hapart hiff
      obtain rfl := Option.some.inj hsome
      have hfree : Free r.start d.freeKeys := hcons ▸ .inl ⟨le_rfl, Nat.le_add_right _ _⟩
      have hlast : d'.lastDiskKeyIndex = max d.lastDiskKeyIndex (r.start + 1) := by
        have hd' : d.getFreeKeyIndex.2 = d' := by rw [hget]
        rw [← hd']
        simp only [Dict.getFreeKeyIndex, hcons]
        split_ifs <;> omega
      refine ⟨hapart, fun j => ?_, fun j hj => ?_, fun j hj => ?_⟩
      · rw [hiff, h.exact_iff, Set.mem_insert_iff]
        tauto
      · rcases hj with rfl | hj
        · exact ⟨((h.exact_iff _).mp hfree).1.1, hcareful r (by simp [hcons])⟩
        · exact h.searched j hj
      · rw [hlast]
        rcases hj with rfl | hj
        · omega
        · exact lt_max_of_lt_left (h.below j hj)
  | @full d d' A hget =>
    cases hcons : d.freeKeys with
    | nil =>
      simp only [Dict.getFreeKeyIndex, hcons, Prod.mk.injEq, true_and] at hget
      exact hget ▸ h
    | cons r rest =>
      have hsome := (get_spec h.apart hcons).1
      rw [hget] at hsome
      cases hsome
  | @put d d' A i hi hput =>
    obtain ⟨rs', hplace, hapart, hiff⟩ := h.put_spec htop.2 hi hcareful
    simp only [Dict.putFreeKeyIndex, hplace, Option.map_some, Option.some.injEq] at hput
    subst hput
    refine ⟨hapart, fun j => ?_, fun j hj => h.searched j hj.1, fun j hj => h.below j hj.1⟩
    have hspace : 1 ≤ i ∧ i ≤ top :=
      ⟨(h.searched i hi).1, (Nat.le_sub_one_of_lt (h.searched i hi).2).trans htop.1⟩
    rw [hiff, h.exact_iff]
    simp only [Set.mem_sdiff, Set.mem_singleton_iff]
    by_cases hji : j = i
    · simp [hji, hspace]
    · simp [hji]

/-- From a new dictionary, or a loaded one without holes, careful calls keep the free ranges exact:
no index is handed out twice or lost, and a later mount searches them all. -/
theorem careful_runs_sound {start : Dict × Set ℕ} {ops : List Op} (hstart : Starts top start)
    (run : Run (fun s op s' => Careful s.1 op ∧ Step s op s') start ops s) : Sound top s ∧ Served s := by
  obtain ⟨hsound, htop⟩ := hstart.sound
  have hs : Sound top s := run.invariant hsound fun s op s' h hstep => h.step htop hstep.1 hstep.2
  exact ⟨hs, hs.served htop.2⟩

/-- Taking the first two indices and returning the first. -/
theorem first_index_returned :
    Sound keyMaxCount (⟨[⟨1, 0⟩, ⟨3, 131068⟩], 3⟩, (insert 2 (insert 1 ∅) \ {1} : Set ℕ)) :=
  (careful_runs_sound .new (.snoc (.snoc (.snoc .nil ⟨by simp [Careful, dictAdd, keyMaxCount], .get rfl⟩)
    ⟨by simp [Careful, keyMaxCount], .get rfl⟩) ⟨by simp [Careful, keyMaxCount], .put (by simp) rfl⟩)).1

/-- The last index of a full dictionary is lost when it is returned. -/
theorem last_index_lost :
    ∃ s, Run Step (load 131070, Set.Ico 1 131070) [.get, .put 131070] s ∧
      Starts 131070 (load 131070, Set.Ico 1 131070) ∧ 131070 ∉ s.2 ∧ ¬ Free 131070 s.1.freeKeys ∧
      ¬ Sound 131070 s := by
  refine ⟨(⟨[], 131071⟩, insert 131070 (Set.Ico 1 131070) \ {131070}),
    .snoc (.snoc .nil (.get rfl)) (.put (by simp) rfl), .load (by decide) (by decide), by simp, id,
    fun h => ?_⟩
  exact (h.exact_iff 131070).mpr ⟨by decide, by simp⟩

end BaochipXous.FreeKeys
