import BaochipXous.FastSpace

/-!
What a positive answer about free space is worth. The answer looks at a count of log entries that
starts over whenever the pool is read, and not at the number of pages asked for; after a new record
it counts pages that cannot be allocated.
-/

namespace BaochipXous.FastSpace

open Prog Labelled PhysPage Space

/-- The blocks that are left in a page for the log. -/
def FscbPage.room : FscbPage → Nat
  | .log updates => blocksPerPage - updates.length
  | _ => 0

def room (fscb : Nat → FscbPage) : Nat := ∑ page ∈ Finset.range fscbPages, (fscb page).room

variable (s : Space)

structure Space.WellFormed : Prop where
  distinct : Keyed.Distinct number s.cache
  place_ok : ∀ place, s.logNext = some place → PlaceOk s.fscb place
  log_le : ∀ page updates, s.fscb page = .log updates → updates.length ≤ blocksPerPage

section

variable {s s' : Space}

variable {place : Nat × Nat}

theorem PlaceOk.room_pos {fscb : Nat → FscbPage} (h : PlaceOk fscb place) : 0 < (fscb place.1).room := by
  obtain ⟨-, hroom, updates, hpage, hlen⟩ := h
  rw [hpage, FscbPage.room]
  omega

theorem FscbPage.blank_or_started {page : FscbPage} (h : 0 < page.room) :
    page.isBlank = true ∨ page.isPartial = true := by
  cases page with
  | head pool | tail => simp [room] at h
  | log updates =>
    rw [room] at h
    cases updates with
    | nil => exact .inl rfl
    | cons pp rest =>
      right
      simp only [isPartial, ne_eq, reduceCtorEq, not_false_eq_true, decide_true, Bool.true_and, decide_eq_true_eq]
      omega

theorem pickBlank_isSome {fscb : Nat → FscbPage} {page : Nat} (hlt : page < fscbPages)
    (hblank : (fscb page).isBlank = true) (draw : Nat) : (pickBlank fscb draw).isSome = true := by
  have hmem : page ∈ (List.range fscbPages).filter fun page => (fscb page).isBlank :=
    List.mem_filter.mpr ⟨List.mem_range.mpr hlt, hblank⟩
  have hlen := List.length_pos_of_mem hmem
  rw [pickBlank, Option.isSome_map]
  exact Option.isSome_iff_ne_none.mpr fun hnone =>
    absurd (List.getElem?_eq_none_iff.mp hnone) (not_le.mpr (Nat.mod_lt _ hlen))

theorem Space.WellFormed.searchLog_isSome (h : s.WellFormed) (draw : Nat) :
    (s.searchLog draw).isSome = true ↔ 0 < room s.fscb := by
  constructor
  · intro hsome
    obtain ⟨place, hplace⟩ := Option.isSome_iff_exists.mp hsome
    have hok := searchLog_ok hplace h.place_ok
    calc 0 < (s.fscb place.1).room := hok.room_pos
      _ ≤ room s.fscb := Finset.single_le_sum (f := fun page => (s.fscb page).room)
        (fun _ _ => Nat.zero_le _) (Finset.mem_range.mpr hok.1)
  · intro hroom
    obtain ⟨page, hmem, hpos⟩ : ∃ page ∈ Finset.range fscbPages, 0 < (s.fscb page).room := by
      by_contra hnone
      push Not at hnone
      have hzero : room s.fscb = 0 := Finset.sum_eq_zero fun page hpage => by
        have := hnone page hpage
        omega
      omega
    have hlt := Finset.mem_range.mp hmem
    rw [searchLog, Option.isSome_or, Option.isSome_or, Option.isSome_map]
    rcases FscbPage.blank_or_started hpos with hblank | hstarted
    · rw [pickBlank_isSome hlt hblank draw, Bool.or_true, Bool.or_true]
    · have hfilter : page ∈ (List.range fscbPages).filter fun page => (s.fscb page).isPartial :=
        List.mem_filter.mpr ⟨List.mem_range.mpr hlt, hstarted⟩
      have hhead : (((List.range fscbPages).filter fun page => (s.fscb page).isPartial).head?).isSome = true :=
        List.isSome_head?.mpr (List.ne_nil_of_mem hfilter)
      rw [hhead, Bool.true_or, Bool.or_true]

theorem PlaceOk.committed_fscb (h : PlaceOk s.fscb place) (pp : PhysPage) :
    (s.committed place pp).fscb = Function.update s.fscb place.1 (.log ((s.fscb place.1).updates ++ [pp])) := by
  rw [← h.appended_eq]
  rfl

theorem PlaceOk.room_committed (h : PlaceOk s.fscb place) (pp : PhysPage) :
    room (s.committed place pp).fscb + 1 = room s.fscb := by
  obtain ⟨hlt, hroom, updates, hpage, hlen⟩ := id h
  have hmem : place.1 ∈ Finset.range fscbPages := Finset.mem_range.mpr hlt
  have hother : ∀ page ∈ (Finset.range fscbPages).erase place.1,
      ((s.committed place pp).fscb page).room = (s.fscb page).room := by
    intro page hpage
    rw [h.committed_fscb, Function.update_of_ne (Finset.ne_of_mem_erase hpage)]
  have hhere : ((s.committed place pp).fscb place.1).room + 1 = (s.fscb place.1).room := by
    rw [h.committed_fscb, Function.update_self, hpage]
    simp only [FscbPage.room, FscbPage.updates, List.length_append, List.length_singleton]
    omega
  rw [room, room, ← Finset.add_sum_erase _ _ hmem, ← Finset.add_sum_erase _ _ hmem, Finset.sum_congr rfl hother, ← hhere]
  omega

theorem Space.WellFormed.committed (h : s.WellFormed) (hplace : PlaceOk s.fscb place)
    (pp : PhysPage) {cache : List PhysPage} (hcache : Keyed.Distinct number cache) :
    Space.WellFormed { s.committed place pp with cache } where
  distinct := hcache
  place_ok := hplace.committed pp
  log_le page updates hpage := by
    obtain ⟨-, hroom, old, hold, hlen⟩ := id hplace
    simp only [hplace.committed_fscb] at hpage
    by_cases hsame : page = place.1
    · subst hsame
      rw [Function.update_self, FscbPage.log.injEq, hold, FscbPage.updates] at hpage
      rw [← hpage, List.length_append, List.length_singleton]
      omega
    · rw [Function.update_of_ne hsame] at hpage
      exact h.log_le page updates hpage

theorem Space.WellFormed.search (h : s.WellFormed) (draw : Nat) :
    Space.WellFormed { s with logNext := s.searchLog draw } :=
  ⟨h.distinct, fun _ hplace => searchLog_ok (s := s) hplace h.place_ok, h.log_le⟩

theorem Space.fastSpaceRead_wellFormed
    (hlog : ∀ page updates, s.fscb page = .log updates → updates.length ≤ blocksPerPage) (draw : Nat) :
    (s.fastSpaceRead draw).WellFormed where
  distinct := replay_distinct _
  place_ok _ := fastSpaceRead_place_ok draw
  log_le := hlog

theorem Space.fastSpaceWrite_wellFormed (s : Space) (dest : Nat) (pool : List PhysPage) (draw : Nat) :
    ((s.fastSpaceWrite dest pool).fastSpaceRead draw).WellFormed := by
  apply fastSpaceRead_wellFormed
  intro page updates hpage
  simp only [fastSpaceWrite] at hpage
  split_ifs at hpage
  cases hpage
  exact Nat.zero_le _

theorem candidates_remove (s : Space) (n : Nat) :
    (Keyed.remove number s.cache n).filter available = Keyed.remove number s.candidates n :=
  Keyed.remove_filter _ _ _

theorem Space.WellFormed.candidates_distinct (h : s.WellFormed) : Keyed.Distinct number s.candidates :=
  h.distinct.filter _

theorem Space.WellFormed.notMem_candidates (h : s.WellFormed) {n : Nat}
    (hout : s.hasInPool n = false) : ∀ pp ∈ s.candidates, pp.number ≠ n := by
  rintro pp hpp rfl
  obtain ⟨hmem, havailable⟩ := List.mem_filter.mp hpp
  have hnot := hasInPool_eq_false.mp hout pp (h.distinct.get_eq hmem)
  rw [inPool_of_available havailable] at hnot
  contradiction

theorem candidates_free (s : Space) (pp : PhysPage) :
    (Keyed.insert number (Keyed.remove number s.cache pp.number) pp.freed).filter available =
      if pp.freed.available then pp.freed :: Keyed.remove number s.candidates pp.number
      else Keyed.remove number s.candidates pp.number := by
  have hinsert : Keyed.insert number (Keyed.remove number s.cache pp.number) pp.freed =
      pp.freed :: Keyed.remove number s.cache pp.number :=
    Keyed.insert_remove s.cache pp.freed
  rw [hinsert, List.filter_cons, candidates_remove]

theorem Space.WellFormed.length_remove_candidates (h : s.WellFormed) (n : Nat) :
    s.candidates.length ≤ (Keyed.remove number s.candidates n).length + 1 := by
  by_cases hmem : ∃ pp ∈ s.candidates, pp.number = n
  · obtain ⟨pp, hpp, rfl⟩ := hmem
    rw [h.candidates_distinct.length_remove hpp]
  · have hself := Keyed.remove_eq_self fun pp hpp heq => hmem ⟨pp, hpp, heq⟩
    rw [hself]
    exact Nat.le_succ _

end

inductive Call where
  | alloc (drawLog draw : Nat)
  /-- A free, with whether the page is in the pool already. -/
  | free (inPool : Bool) (drawLog : Nat) (pp : PhysPage)

def Call.isAlloc : Call → Bool
  | .alloc _ _ => true
  | .free _ _ _ => false

def Call.isRefree : Call → Bool
  | .alloc _ _ => false
  | .free inPool _ _ => inPool

/-- A call that comes through: an allocation with a page, or a free. -/
def CallStep (call : Call) (s' : Space) : Prop :=
  match call with
  | .alloc drawLog draw => ∃ pp, tryFastSpaceAlloc drawLog draw s = .ok (some pp) s'
  | .free inPool drawLog pp =>
    s.hasInPool pp.number = inPool ∧ ∃ pp', fastSpaceFree drawLog pp s = .ok pp' s'

def allocs (calls : List Call) : Nat := calls.countP Call.isAlloc

def frees (calls : List Call) : Nat := calls.countP fun call => !call.isAlloc

/-- The frees of pages that were in the pool. -/
def refrees (calls : List Call) : Nat := calls.countP Call.isRefree

/-- After any calls that came through, the next one does: an allocation after fewer than `n`, a free
after fewer than `f`, `g` of them for pages of the pool. -/
def Serves (n f g : Nat) : Prop :=
  ∀ calls s', Run CallStep s calls s' → allocs calls ≤ n → frees calls ≤ f → refrees calls ≤ g →
    (allocs calls < n → ∀ drawLog draw, ∃ s'', CallStep s' (.alloc drawLog draw) s'') ∧
    (frees calls < f → ∀ drawLog pp, (s'.hasInPool pp.number = true → refrees calls < g) →
      ∃ s'', CallStep s' (.free (s'.hasInPool pp.number) drawLog pp) s'')

section

variable {s s' : Space}

theorem allocs_append (calls : List Call) (call : Call) :
    allocs (calls ++ [call]) = allocs calls + if call.isAlloc then 1 else 0 := by
  rw [allocs, List.countP_append, List.countP_singleton, allocs]

theorem frees_append (calls : List Call) (call : Call) :
    frees (calls ++ [call]) = frees calls + if call.isAlloc then 0 else 1 := by
  rw [frees, List.countP_append, List.countP_singleton, frees]
  cases call.isAlloc <;> rfl

theorem refrees_append (calls : List Call) (call : Call) :
    refrees (calls ++ [call]) = refrees calls + call.isRefree.toNat := by
  rw [refrees, List.countP_append, List.countP_singleton, refrees]
  cases call.isRefree <;> rfl

variable {drawLog : Nat}

theorem CallStep.alloc_cost (h : s.WellFormed) {draw : Nat} (hstep : CallStep s (.alloc drawLog draw) s') :
    s'.WellFormed ∧ room s'.fscb + 1 = room s.fscb ∧ s'.candidates.length + 1 = s.candidates.length := by
  obtain ⟨pp, hok⟩ := hstep
  rcases tryFastSpaceAlloc_cases s drawLog draw with ⟨-, hnone⟩ | ⟨place, c, hsearch, hc, hsome⟩
  · rw [hnone] at hok
    cases hok
  · rw [hsome] at hok
    cases hok
    have hplace := searchLog_ok hsearch h.place_ok
    refine ⟨h.committed hplace _ (h.distinct.remove _), hplace.room_committed _, ?_⟩
    rw [candidates, candidates_remove, h.candidates_distinct.length_remove hc]

theorem CallStep.free_cost (h : s.WellFormed) {inPool : Bool} {pp : PhysPage}
    (hstep : CallStep s (.free inPool drawLog pp) s') :
    s'.WellFormed ∧ room s'.fscb + 1 = room s.fscb ∧ s'.candidates = if pp.freed.available then
          pp.freed :: Keyed.remove number s.candidates pp.number
        else Keyed.remove number s.candidates pp.number := by
  obtain ⟨-, pp', hok⟩ := hstep
  rcases fastSpaceFree_cases s drawLog pp with ⟨-, hpanic⟩ | ⟨place, hsearch, hsome⟩
  · rw [hpanic] at hok
    cases hok
  · rw [hsome] at hok
    cases hok
    have hplace := searchLog_ok hsearch h.place_ok
    exact ⟨h.committed hplace _ ((h.distinct.remove _).insert _), hplace.room_committed _, candidates_free s pp⟩

theorem CallStep.free_candidates (h : s.WellFormed) {inPool : Bool} {pp : PhysPage}
    (hstep : CallStep s (.free inPool drawLog pp) s') :
    s.candidates.length ≤ s'.candidates.length + inPool.toNat := by
  obtain ⟨-, -, hcandidates⟩ := hstep.free_cost h
  have hkept : (Keyed.remove number s.candidates pp.number).length ≤ s'.candidates.length := by
    rw [hcandidates]
    split
    · exact Nat.le_succ _
    · exact le_rfl
  cases inPool with
  | true => exact (h.length_remove_candidates pp.number).trans (Nat.succ_le_succ hkept)
  | false => rwa [Keyed.remove_eq_self (h.notMem_candidates hstep.1)] at hkept

theorem exists_alloc_iff (h : s.WellFormed) (drawLog draw : Nat) :
    (∃ s', CallStep s (.alloc drawLog draw) s') ↔ 0 < room s.fscb ∧ 0 < s.candidates.length := by
  constructor
  · rintro ⟨s', hstep⟩
    obtain ⟨-, hroom, hcandidates⟩ := hstep.alloc_cost h
    omega
  · rintro ⟨hroom, hcandidates⟩
    rcases tryFastSpaceAlloc_cases s drawLog draw with ⟨hreason, -⟩ | ⟨place, c, -, -, hsome⟩
    · have hfound := (h.searchLog_isSome drawLog).mpr hroom
      rcases hreason with hnone | hempty
      · rw [hnone] at hfound
        exact absurd hfound Bool.false_ne_true
      · rw [hempty] at hcandidates
        exact absurd hcandidates (Nat.lt_irrefl 0)
    · exact ⟨_, c.allocated, hsome⟩

theorem exists_free (h : s.WellFormed) (hroom : 0 < room s.fscb) (drawLog : Nat) (pp : PhysPage) :
    ∃ s', CallStep s (.free (s.hasInPool pp.number) drawLog pp) s' := by
  have hfound := (h.searchLog_isSome drawLog).mpr hroom
  rcases fastSpaceFree_cases s drawLog pp with ⟨hnone, -⟩ | ⟨place, -, hok⟩
  · rw [hnone] at hfound
    exact absurd hfound Bool.false_ne_true
  · exact ⟨_, rfl, _, hok⟩

variable {calls : List Call} {n f g : Nat}

def Counts (calls : List Call) (n f g : Nat) : Prop :=
  allocs calls = n ∧ frees calls = f ∧ refrees calls = g

theorem Counts.alloc (h : Counts calls n f g) (drawLog draw : Nat) :
    Counts (calls ++ [.alloc drawLog draw]) (n + 1) f g := by
  obtain ⟨rfl, rfl, rfl⟩ := h
  exact ⟨allocs_append _ _, frees_append _ _, refrees_append _ _⟩

theorem Counts.free (h : Counts calls n f g) (inPool : Bool) (drawLog : Nat) (pp : PhysPage) :
    Counts (calls ++ [.free inPool drawLog pp]) n (f + 1) (g + inPool.toNat) := by
  obtain ⟨rfl, rfl, rfl⟩ := h
  exact ⟨allocs_append _ _, frees_append _ _, refrees_append _ _⟩

/-- What a run of calls costs. -/
structure Spent (s : Space) (calls : List Call) (s' : Space) : Prop where
  wellFormed : s'.WellFormed
  room_eq : room s'.fscb + allocs calls + frees calls = room s.fscb
  candidates_le : s.candidates.length ≤ s'.candidates.length + allocs calls + refrees calls

theorem Spent.snoc {call : Call} {s1 : Space} (h : Spent s calls s1) (hstep : CallStep s1 call s') :
    Spent s (calls ++ [call]) s' := by
  have hold := h.room_eq
  have hcandidates := h.candidates_le
  have hcounts : Counts calls _ _ _ := ⟨rfl, rfl, rfl⟩
  cases call with
  | alloc drawLog draw =>
    obtain ⟨hwell, hroom, hcost⟩ := hstep.alloc_cost h.wellFormed
    obtain ⟨hallocs, hfrees, hrefrees⟩ := hcounts.alloc drawLog draw
    exact ⟨hwell, by omega, by omega⟩
  | free inPool drawLog pp =>
    obtain ⟨hwell, hroom, -⟩ := hstep.free_cost h.wellFormed
    have hcost := hstep.free_candidates h.wellFormed
    obtain ⟨hallocs, hfrees, hrefrees⟩ := hcounts.free inPool drawLog pp
    exact ⟨hwell, by omega, by omega⟩

theorem Spent.of_run (h : s.WellFormed) (run : Run CallStep s calls s') : Spent s calls s' := by
  have hstart : Spent s [] s := ⟨h, by simp [allocs, frees], by simp [allocs, refrees]⟩
  exact run.history_invariant hstart fun _ _ _ _ hspent hstep => hspent.snoc hstep

theorem exists_out_of_pool (s : Space) : ∃ n, s.hasInPool n = false := by
  refine ⟨(s.cache.map number).sum + 1, ?_⟩
  rw [hasInPool_eq_false]
  intro c hc
  have hle : c.number ≤ (s.cache.map number).sum :=
    List.single_le_sum (fun _ _ => Nat.zero_le _) _ (List.mem_map_of_mem (Keyed.get_mem hc))
  have hkey := Keyed.get_key hc
  omega

theorem exists_refree (h : s.WellFormed) (hcandidates : 0 < s.candidates.length) :
    ∃ pp : PhysPage, s.hasInPool pp.number = true ∧ pp.freed.available = false ∧
      (Keyed.remove number s.candidates pp.number).length + 1 = s.candidates.length := by
  obtain ⟨c, hc⟩ := List.exists_mem_of_length_pos hcandidates
  have hlength := h.candidates_distinct.length_remove hc
  refine ⟨{ c with journal := 14 }, ?_, ?_, hlength⟩
  · by_contra hout
    exact h.notMem_candidates (Bool.not_eq_true _ ▸ hout) c hc rfl
  · rfl

variable {k a b c : Nat}

theorem Serves.exists_refrees (hserves : Serves s n f g) (h : s.WellFormed) (hk : k ≤ min f g)
    (hcandidates : k ≤ s.candidates.length) :
    ∃ calls s', Run CallStep s calls s' ∧ Counts calls 0 k k ∧ s'.candidates.length + k = s.candidates.length := by
  induction k with
  | zero => exact ⟨[], s, .nil, ⟨rfl, rfl, rfl⟩, rfl⟩
  | succ k ih =>
    obtain ⟨calls, s1, run, hcounts, hleft⟩ := ih (by omega) (by omega)
    obtain ⟨hallocs, hfrees, hrefrees⟩ := id hcounts
    have hwell := (Spent.of_run h run).wellFormed
    obtain ⟨pp, hin, hlost, hlength⟩ := exists_refree hwell (by omega)
    obtain ⟨s2, hstep⟩ := (hserves calls s1 run (by omega) (by omega) (by omega)).2 (by omega) 0 pp
      (fun _ => by omega)
    obtain ⟨-, -, hcost⟩ := hstep.free_cost hwell
    rw [hlost, if_neg Bool.false_ne_true] at hcost
    refine ⟨_, s2, run.snoc hstep, hin ▸ hcounts.free _ _ _, ?_⟩
    rw [hcost]
    omega

theorem Serves.exists_allocs (hserves : Serves s n f g) (h : s.WellFormed)
    (run : Run CallStep s calls s') (hcounts : Counts calls 0 b c) (hb : b ≤ f) (hc : c ≤ g) (hk : k ≤ n) :
    ∃ calls' s'', Run CallStep s calls' s'' ∧ Counts calls' k b c ∧
      s''.candidates.length + k = s'.candidates.length := by
  induction k with
  | zero => exact ⟨calls, s', run, hcounts, rfl⟩
  | succ k ih =>
    obtain ⟨calls1, s1, run1, hcounts1, hleft⟩ := ih (by omega)
    obtain ⟨hallocs, hfrees, hrefrees⟩ := id hcounts1
    obtain ⟨s2, hstep⟩ := (hserves calls1 s1 run1 (by omega) (by omega) (by omega)).1 (by omega) 0 0
    obtain ⟨-, -, hcost⟩ := hstep.alloc_cost (Spent.of_run h run1).wellFormed
    exact ⟨_, s2, run1.snoc hstep, hcounts1.alloc _ _, by omega⟩

theorem Serves.exists_frees (hserves : Serves s n f g) (run : Run CallStep s calls s')
    (hcounts : Counts calls a 0 c) (ha : a ≤ n) (hc : c ≤ g) (hk : k ≤ f) :
    ∃ calls' s'', Run CallStep s calls' s'' ∧ Counts calls' a k c := by
  induction k with
  | zero => exact ⟨calls, s', run, hcounts⟩
  | succ k ih =>
    obtain ⟨calls1, s1, run1, hcounts1⟩ := ih (by omega)
    obtain ⟨hallocs, hfrees, hrefrees⟩ := id hcounts1
    obtain ⟨number, hout⟩ := exists_out_of_pool s1
    obtain ⟨s2, hstep⟩ := (hserves calls1 s1 run1 (by omega) (by omega) (by omega)).2 (by omega) 0
      (samplePage number 0 .used) (fun hin => absurd (hout.symm.trans hin) Bool.false_ne_true)
    have hfree : s1.hasInPool (samplePage number 0 .used).number = false := hout
    exact ⟨_, s2, run1.snoc hstep, hfree ▸ hcounts1.free _ _ _⟩

theorem serves_iff (h : s.WellFormed) (n f g : Nat) :
    Serves s n f g ↔ (n = 0 ∨ n + min f g ≤ s.candidates.length) ∧ n + f ≤ room s.fscb := by
  constructor
  · intro hserves
    constructor
    · -- the candidates are given back first, what is left of them is allocated
      obtain ⟨calls, s1, run, hcounts, hleft⟩ := hserves.exists_refrees h
        (Nat.min_le_left (min f g) s.candidates.length) (Nat.min_le_right _ _)
      obtain ⟨-, s2, -, -, hcost⟩ := hserves.exists_allocs h run hcounts (by omega) (by omega)
        (le_refl n)
      omega
    · obtain ⟨calls, s1, run, hcounts, -⟩ := hserves.exists_allocs h .nil ⟨rfl, rfl, rfl⟩
        (Nat.zero_le f) (Nat.zero_le g) (le_refl n)
      obtain ⟨calls', s2, run', hallocs, hfrees, -⟩ :=
        hserves.exists_frees run hcounts le_rfl (Nat.zero_le g) (le_refl f)
      have hspent := (Spent.of_run h run').room_eq
      omega
  · rintro ⟨hcandidates, hroom⟩ calls s1 run hallocs hfrees hrefrees
    obtain ⟨hwell, hspent, hleft⟩ := Spent.of_run h run
    have hle : refrees calls ≤ frees calls := by
      apply List.countP_mono_left
      intro call _ hcall
      cases call with
      | alloc => exact absurd hcall Bool.false_ne_true
      | free => rfl
    constructor
    · intro hmore drawLog draw
      exact (exists_alloc_iff hwell drawLog draw).mpr ⟨by omega, by omega⟩
    · intro hmore drawLog pp _
      exact exists_free hwell (by omega) drawLog pp

end

def logCapacity : Nat := (fscbPages - fastspacePages) * blocksPerPage

/-- The pool of a device that was just formatted. -/
def Space.formatted (dest : Nat) (pool : List PhysPage) (draw : Nat) : Space :=
  (s.fastSpaceWrite (dest % (fscbPages - 1)) pool).fastSpaceRead draw

section

variable (s : Space) (dest : Nat) (pool : List PhysPage) (draw : Nat)

theorem room_fastSpaceWrite : room (s.fastSpaceWrite (dest % (fscbPages - 1)) pool).fscb = logCapacity := by
  have hall : ∀ dest < 15, ∑ page ∈ Finset.range 16,
      (if page = dest then 0 else if dest < page ∧ page < dest + fastspacePages then 0 else 255) = 3570 := by
    decide
  refine Eq.trans ?_ (hall (dest % (fscbPages - 1)) (Nat.mod_lt _ (by decide)))
  apply Finset.sum_congr rfl
  intro page _
  simp only [fastSpaceWrite]
  split
  · rfl
  · split <;> rfl

theorem serves_formatted (hpool : Keyed.Distinct number pool) (n f g : Nat) :
    Serves (s.formatted dest pool draw) n f g ↔
      (n = 0 ∨ n + min f g ≤ ((pool.filter fun pp => pp.valid && pp.state == .free).filter
        available).length) ∧ n + f ≤ logCapacity := by
  have hcandidates : (s.formatted dest pool draw).candidates = (recordCache pool).filter available := by
    rw [candidates, formatted, fastSpaceRead, replay_fastSpaceWrite]
  have hroom : room (s.formatted dest pool draw).fscb = logCapacity := room_fastSpaceWrite s dest pool
  have hwell : (s.formatted dest pool draw).WellFormed := s.fastSpaceWrite_wellFormed _ _ _
  rw [serves_iff hwell, hcandidates, ((recordCache_perm hpool).filter available).length_eq, hroom]

end

/-- The pages that the scan finds: an entry decrypts under the key of one basis at most, so none
twice. -/
structure Scan where
  pages : List Nat
  nodup : pages.Nodup

inductive PoolEvent where
  | alloc (drawLog draw : Nat)
  | free (drawLog : Nat) (pp : PhysPage)
  | ensure (total : Nat) (scan : Scan) (draws : Draws) (pages : Nat)
  | mount (draw : Nat)

def PoolStep (event : PoolEvent) (s' : Space) : Prop :=
  match event with
  | .alloc drawLog draw => ∃ answer, tryFastSpaceAlloc drawLog draw s = .ok answer s'
  | .free drawLog pp => ∃ pp', fastSpaceFree drawLog pp s = .ok pp' s'
  | .ensure total scan draws pages => (s.ensureFastSpaceAlloc total scan.pages draws pages).2 = s'
  | .mount draw => s.fastSpaceRead draw = s'

section

variable {s s' : Space}

theorem Space.WellFormed.step (h : s.WellFormed) {event : PoolEvent} (hstep : PoolStep s event s') : s'.WellFormed := by
  cases event with
  | alloc drawLog draw =>
    obtain ⟨answer, hok⟩ := hstep
    rcases tryFastSpaceAlloc_cases s drawLog draw with ⟨-, hnone⟩ | ⟨place, c, hsearch, -, hsome⟩
    · rw [hnone] at hok
      cases hok
      exact h.search drawLog
    · rw [hsome] at hok
      cases hok
      exact h.committed (searchLog_ok hsearch h.place_ok) _ (h.distinct.remove _)
  | free drawLog pp =>
    obtain ⟨pp', hok⟩ := hstep
    have hcall : CallStep s (.free (s.hasInPool pp.number) drawLog pp) s' := ⟨rfl, pp', hok⟩
    exact (hcall.free_cost h).1
  | ensure total scan draws pages =>
    subst hstep
    rw [ensureFastSpaceAlloc]
    split
    · split
      · exact h
      · exact s.fastSpaceWrite_wellFormed _ _ _
    · simp only
      split
      · exact h
      · exact s.fastSpaceWrite_wellFormed _ _ _
  | mount draw =>
    subst hstep
    exact s.fastSpaceRead_wellFormed h.log_le draw

theorem formatted_run_wellFormed {s₀ : Space} {dest draw : Nat} {pool : List PhysPage}
    {events : List PoolEvent} (run : Run PoolStep (s₀.formatted dest pool draw) events s) : s.WellFormed :=
  run.invariant (s₀.fastSpaceWrite_wellFormed _ _ _) fun _ _ _ h hstep => h.step hstep

end

/-- The pages that can be allocated after a flush: pages that were given back are not kept. -/
def Space.keptCandidates : List PhysPage :=
  ((s.cache.take freePoolLen).filter fun pp => pp.valid && pp.state == .free).filter available

/-- The places of a new record whose page can be allocated. -/
def Draws.newCandidates (draws : Draws) (total : Nat) (used : List Nat) : List Nat :=
  (List.range (min freePoolLen (draws.generated total used))).filter fun i =>
    draws.journals i % journalRandRange ≠ physPageJournalMax

/-- There is enough for `n` allocations and `f` frees, `g` of them of pages in the pool. -/
def Enough (total : Nat) (scan : Scan) (draws : Draws) (n f g : Nat) : Prop :=
  if s.fastSpaceHasPages (n + 1) then
    if s.logLen < logLimit then
      (n = 0 ∨ n + min f g ≤ s.candidates.length) ∧ n + f ≤ room s.fscb
    else (n = 0 ∨ n + min f g ≤ s.keptCandidates.length) ∧ n + f ≤ logCapacity
  else
    (n = 0 ∨ n + min f g ≤ (draws.newCandidates total (s.generateUsedMap scan.pages)).length) ∧
      n + f ≤ logCapacity

section

variable {s s' : Space} {total : Nat} {scan : Scan} {draws : Draws}

theorem length_available_mapIdx (draws : Draws) (pages : List Nat) :
    ((pages.mapIdx draws.page).filter available).length = ((List.range pages.length).filter fun i =>
        draws.journals i % journalRandRange ≠ physPageJournalMax).length := by
  induction pages using List.reverseRecOn with
  | nil => rfl
  | append_singleton pages page ih =>
    rw [List.mapIdx_append, List.filter_append, List.length_append, ih, List.length_append,
      List.length_singleton, List.range_succ, List.filter_append, List.length_append]
    congr 1
    simp only [List.mapIdx_cons, List.mapIdx_nil, Nat.zero_add, List.filter_singleton, draws.available_page]
    cases decide (draws.journals pages.length % journalRandRange ≠ physPageJournalMax) <;> rfl

theorem serves_generated (hused : (s.generateUsedMap scan.pages).Nodup)
    (hsome : (fastSpaceGenerate total (s.generateUsedMap scan.pages) draws).length ≠ 0) (n f g : Nat) :
    Serves (s.formatted draws.dest
        ((fastSpaceGenerate total (s.generateUsedMap scan.pages) draws).take freePoolLen) draws.log) n f g ↔
      (n = 0 ∨ n + min f g ≤ (draws.newCandidates total (s.generateUsedMap scan.pages)).length) ∧
        n + f ≤ logCapacity := by
  have hfree : total ≠ (s.generateUsedMap scan.pages).length := by
    intro heq
    rw [fastSpaceGenerate, if_pos heq] at hsome
    exact hsome rfl
  obtain ⟨pages, heq, hnodup, -, hlength⟩ := fastSpaceGenerate_spec draws hused hfree
  have hdistinct := draws.distinct_mapIdx (hnodup.sublist (List.take_sublist freePoolLen pages))
  have hall : ((pages.take freePoolLen).mapIdx draws.page).filter
      (fun pp => pp.valid && pp.state == .free) = (pages.take freePoolLen).mapIdx draws.page := by
    rw [List.filter_eq_self]
    intro pp hpp
    obtain ⟨i, hi, rfl⟩ := List.mem_mapIdx.mp hpp
    rfl
  rw [heq, draws.take_mapIdx, serves_formatted s _ _ _ hdistinct, hall, length_available_mapIdx,
    List.length_take, hlength, Draws.newCandidates]

/-- In every state reached from a new record by allocations, frees, requests for room and mounts:
after a positive answer for `n` pages the next `n` allocations and `f` frees, `g` of them for pages
in the pool, come through in any order exactly if there is enough room in the log, or pages in the
flash after a flush and a new record. -/
theorem positive_answer_serves_iff {s₀ : Space} {dest draw : Nat} {pool : List PhysPage}
    {events : List PoolEvent} (run : Run PoolStep (s₀.formatted dest pool draw) events s) (n f g : Nat)
    (hanswer : s.ensureFastSpaceAlloc total scan.pages draws n = (true, s')) :
    Serves s' n f g ↔ Enough s total scan draws n f g := by
  have hwell := formatted_run_wellFormed run
  rw [ensureFastSpaceAlloc] at hanswer
  rw [Enough]
  by_cases hpages : s.fastSpaceHasPages (n + 1) = true
  · rw [if_pos hpages] at hanswer ⊢
    by_cases hlog : s.logLen < logLimit
    · rw [if_pos hlog] at hanswer ⊢
      cases hanswer
      exact serves_iff hwell n f g
    · rw [if_neg hlog] at hanswer ⊢
      cases hanswer
      have htake : Keyed.Distinct number (s.cache.take freePoolLen) :=
        hwell.distinct.sublist ((List.take_sublist _ _).map _)
      exact serves_formatted s _ _ _ htake n f g
  · rw [if_neg hpages] at hanswer ⊢
    simp only at hanswer
    split at hanswer
    · cases hanswer
    · rename_i hsome
      have hs' := (Prod.mk.inj hanswer).2
      rw [← hs']
      exact serves_generated (s.generateUsedMap_nodup scan.nodup) hsome n f g

end

/-- Draws that give each page the last journal number. -/
def lastJournals : Draws := halfDraws (fun _ => 0) 15

/-- Of the four pages not in use two come into the new record, with the last journal number. The
answer for one page is positive, and the allocation finds none. -/
theorem answered_page_is_refused :
    (ensureFastSpaceAlloc (emptySpace.formatted 0 [] 0) 993 (List.range 989) lastJournals 1).1 =
        true ∧
      ¬ Serves (ensureFastSpaceAlloc (emptySpace.formatted 0 [] 0) 993 (List.range 989)
        lastJournals 1).2 1 0 0 := by
  refine ⟨by decide +kernel, fun hserves => ?_⟩
  obtain ⟨s', pp, hok⟩ := (hserves [] _ .nil (by decide) (by decide) (by decide)).1 (by decide) 0 0
  have hnone : (tryFastSpaceAlloc 0 0 (ensureFastSpaceAlloc (emptySpace.formatted 0 [] 0) 993
      (List.range 989) lastJournals 1).2).returns (fun answer _ => answer.isNone) = true := by
    decide +kernel
  rw [hok] at hnone
  exact Bool.false_ne_true hnone

def twoPages : Space := emptySpace.formatted 0 [samplePage 1 0 .free, samplePage 2 0 .free] 0

/-- Two pages at the start of their journal numbers serve an allocation and two frees. -/
theorem two_pages_serve_one : Serves twoPages 1 2 1 := by
  have hanswer : ensureFastSpaceAlloc twoPages 993 [] lastJournals 1 = (true, twoPages) := by
    rw [ensureFastSpaceAlloc, if_pos (by decide +kernel), if_pos (by decide +kernel)]
  have hiff : Serves twoPages 1 2 1 ↔ Enough twoPages 993 ⟨[], List.nodup_nil⟩ lastJournals 1 2 1 :=
    positive_answer_serves_iff .nil 1 2 1 hanswer
  rw [hiff, Enough, if_pos (by decide +kernel), if_pos (by decide +kernel)]
  exact ⟨by decide +kernel, by decide +kernel⟩

/-- Some allocation returns the page. -/
def Space.Returns (n : Nat) : Prop :=
  ∃ drawLog draw pp s', tryFastSpaceAlloc drawLog draw s = .ok (some pp) s' ∧ pp.number = n

section

variable {s : Space}

theorem Space.WellFormed.returns_iff (h : s.WellFormed) (n : Nat) :
    s.Returns n ↔ 0 < room s.fscb ∧ ∃ pp ∈ s.candidates, pp.number = n := by
  constructor
  · rintro ⟨drawLog, draw, pp, s', hok, rfl⟩
    rcases tryFastSpaceAlloc_cases s drawLog draw with ⟨-, hnone⟩ | ⟨place, c, hsearch, hc, hsome⟩
    · cases hnone.symm.trans hok
    · cases hsome.symm.trans hok
      exact ⟨(h.searchLog_isSome drawLog).mp (by rw [hsearch]; rfl), c, hc, rfl⟩
  · rintro ⟨hroom, c, hc, rfl⟩
    obtain ⟨draw, s', hok⟩ := exists_alloc_of_mem ((h.searchLog_isSome 0).mpr hroom) hc
    exact ⟨0, draw, c.allocated, s', hok, rfl⟩

theorem Space.WellFormed.flush_returns_iff (h : s.WellFormed) (hlen : s.cache.length ≤ freePoolLen)
    (dest draw n : Nat) : (s.fastSpaceFlush dest draw).Returns n ↔
      ∃ pp ∈ s.candidates, (pp.valid = true ∧ pp.state = .free) ∧ pp.number = n := by
  have hroom : 0 < room (s.fastSpaceFlush dest draw).fscb := by
    rw [show room (s.fastSpaceFlush dest draw).fscb = logCapacity from room_fastSpaceWrite s dest _]
    decide
  have hperm : (s.fastSpaceFlush dest draw).cache.Perm (s.cache.filter fun pp => pp.valid && pp.state == .free) := by
    rw [fastSpaceFlush, List.take_of_length_le hlen, fastSpaceRead, replay_fastSpaceWrite]
    exact recordCache_perm h.distinct
  have hmem : ∀ pp, pp ∈ (s.fastSpaceFlush dest draw).candidates ↔
      pp ∈ s.candidates ∧ pp.valid = true ∧ pp.state = .free := by
    intro pp
    rw [candidates, (hperm.filter _).mem_iff, candidates]
    simp only [List.mem_filter, Bool.and_eq_true, beq_iff_eq]
    exact and_right_comm
  have hwell : (s.fastSpaceFlush dest draw).WellFormed := s.fastSpaceWrite_wellFormed _ _ _
  rw [hwell.returns_iff]
  simp only [hroom, true_and, hmem, and_assoc]

/-- A flush leaves the pages that may be allocated as they are, just when the reading keeps all of
them, or none where the log had no room. -/
theorem flush_keeps_returns_iff {s₀ : Space} {dest draw : Nat} {pool : List PhysPage}
    {events : List PoolEvent} (run : Run PoolStep (s₀.formatted dest pool draw) events s)
    (hlen : s.cache.length ≤ freePoolLen) (dest' draw' : Nat) :
    (∀ n, (s.fastSpaceFlush dest' draw').Returns n ↔ s.Returns n) ↔
      ∀ pp ∈ s.candidates, (pp.valid = true ∧ pp.state = .free ↔ 0 < room s.fscb) := by
  have hwell := formatted_run_wellFormed run
  simp only [hwell.returns_iff, hwell.flush_returns_iff hlen]
  constructor
  · intro hsame pp hpp
    constructor
    · intro hkept
      exact ((hsame pp.number).mp ⟨pp, hpp, hkept, rfl⟩).1
    · intro hroom
      obtain ⟨pp', hpp', hkept, hnumber⟩ := (hsame pp.number).mpr ⟨hroom, pp, hpp, rfl⟩
      have heq := hwell.candidates_distinct.get_eq hpp'
      rw [hnumber, hwell.candidates_distinct.get_eq hpp, Option.some.injEq] at heq
      exact heq ▸ hkept
  · intro hkept n
    constructor
    · rintro ⟨pp, hpp, hpp', rfl⟩
      exact ⟨(hkept pp hpp).mp hpp', pp, hpp, rfl⟩
    · rintro ⟨hroom, pp, hpp, rfl⟩
      exact ⟨pp, hpp, (hkept pp hpp).mpr hroom, rfl⟩

end

/-- Of three pages one is allocated; the flush keeps the two others. -/
theorem flush_keeps_page_seven :
    ∃ s, Run PoolStep (emptySpace.formatted 0 [samplePage 5 0 .free, samplePage 6 9 .free, samplePage 7 3 .free] 0)
        [.alloc 0 1] s ∧ s.candidates = [samplePage 7 3 .free, samplePage 5 0 .free] ∧
      ∀ n, (s.fastSpaceFlush 0 0).Returns n ↔ s.Returns n := by
  have halloc : (tryFastSpaceAlloc 0 1 (emptySpace.formatted 0 [samplePage 5 0 .free, samplePage 6 9 .free,
      samplePage 7 3 .free] 0)).returns (fun _ s => decide (s.candidates = [samplePage 7 3 .free, samplePage 5 0 .free] ∧
        s.cache.length ≤ freePoolLen ∧ 0 < room s.fscb)) = true := by decide +kernel
  obtain ⟨_, s, hs, htest⟩ := Outcome.exists_of_returns halloc
  obtain ⟨hcandidates, hlen, hroom⟩ := of_decide_eq_true htest
  have run : Run PoolStep _ [.alloc 0 1] s := .snoc .nil ⟨_, hs⟩
  refine ⟨s, run, hcandidates, (flush_keeps_returns_iff run hlen 0 0).mpr ?_⟩
  simp [hcandidates, samplePage, hroom]

/-- A page that is allocated and given back can be allocated again, but not after a flush. -/
theorem flush_loses_freed_page :
    ∃ events s, Run PoolStep (emptySpace.formatted 0 [samplePage 7 3 .free] 0) events s ∧
      s.cache.length ≤ freePoolLen ∧ s.Returns 7 ∧ ¬(s.fastSpaceFlush 0 0).Returns 7 := by
  have halloc : (tryFastSpaceAlloc 0 0 (emptySpace.formatted 0 [samplePage 7 3 .free] 0)).returns
      (fun _ s => (fastSpaceFree 0 (samplePage 7 4 .used) s).returns fun _ s =>
        decide (s.cache = [samplePage 7 5 .dirty] ∧ 0 < room s.fscb)) = true := rfl
  obtain ⟨_, s1, hs1, hfree⟩ := Outcome.exists_of_returns halloc
  obtain ⟨_, s, hs, htest⟩ := Outcome.exists_of_returns hfree
  obtain ⟨hcache, hroom⟩ := of_decide_eq_true htest
  have hcandidates : s.candidates = [samplePage 7 5 .dirty] := by rw [candidates, hcache]; rfl
  have hlen : s.cache.length ≤ freePoolLen := by rw [hcache]; decide
  have run : Run PoolStep (emptySpace.formatted 0 [samplePage 7 3 .free] 0)
      [.alloc 0 0, .free 0 (samplePage 7 4 .used)] s :=
    .snoc (.snoc .nil ⟨_, hs1⟩) ⟨_, hs⟩
  have hwell := formatted_run_wellFormed run
  refine ⟨_, s, run, hlen, (hwell.returns_iff 7).mpr ⟨hroom, ?_⟩, ?_⟩
  · simp [hcandidates, samplePage]
  · rw [hwell.flush_returns_iff hlen, hcandidates]
    simp [samplePage]

end BaochipXous.FastSpace
