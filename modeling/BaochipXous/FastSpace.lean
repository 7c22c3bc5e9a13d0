import BaochipXous.LibProg
import BaochipXous.LibKeyed
import BaochipXous.LibRely

/-!
The free-space pool of the PDDB. A record in two pages of the flash lists the pages that were free
when it was written; every allocation and every free since then is an entry in the log after it. Of
two entries for a page the one with the higher journal number counts, four bits that wrap; for a
page in the pool it has at most the number in memory, or says that the page is in use.
-/

namespace BaochipXous.FastSpace

open Prog

section

inductive SpaceState where
  | free
  | maybeUsed
  | used
  | dirty
  deriving DecidableEq

/-- A physical page with its flags. The setter of the journal number keeps four bits. -/
structure PhysPage where
  number : Nat
  clean : Bool
  valid : Bool
  state : SpaceState
  journal : Fin 16
  deriving DecidableEq

def physPageJournalMax : Nat := 15

variable (pp : PhysPage)

def PhysPage.inPool : Bool := pp.state == .free || pp.state == .dirty

/-- The page may be allocated: its next journal number does not wrap. -/
def PhysPage.available : Bool :=
  pp.inPool && decide (pp.journal.val < physPageJournalMax)

def fscbPages : Nat := 16

def fastspacePages : Nat := 2

def freePoolLen : Nat := 2041

def blocksPerPage : Nat := 255

def logLimit : Nat := (fscbPages - fastspacePages - 1) * 256

def journalRandRange : Nat := 24

/-- A page of the region: the first page of the record, another one of it, or a page of the log,
blank if it has no entries. -/
inductive FscbPage where
  | head (pool : List PhysPage)
  | tail
  | log (updates : List PhysPage)

def FscbPage.updates : FscbPage → List PhysPage
  | .log updates => updates
  | _ => []

def FscbPage.isBlank : FscbPage → Bool
  | .log [] => true
  | _ => false

/-- A log page with entries and with room for more. -/
def FscbPage.isPartial : FscbPage → Bool
  | .log updates => decide (updates ≠ []) && decide (updates.length < blocksPerPage)
  | _ => false

structure Space where
  fscb : Nat → FscbPage
  /-- `fspace_cache`. -/
  cache : List PhysPage
  /-- `fspace_log_next_addr`: the page and the block in it. -/
  logNext : Option (Nat × Nat)
  logLen : Nat

abbrev SpaceM := Prog Empty Space

section

variable (fscb : Nat → FscbPage)

/-- The pages of the record that count: only free ones. -/
def recordCache (pool : List PhysPage) : List PhysPage :=
  (pool.filter fun pp => pp.valid && pp.state == .free).foldl (Keyed.insert PhysPage.number) []

def readRecord : List PhysPage :=
  ((List.range fscbPages).findSome? fun page =>
    match fscb page with
    | .head pool => some (recordCache pool)
    | _ => none).getD []

def applyUpdate (cache : List PhysPage) (pp : PhysPage) : List PhysPage :=
  if pp.valid then
    match Keyed.get PhysPage.number cache pp.number with
    | some prev => if prev.journal ≤ pp.journal then Keyed.replace PhysPage.number cache pp else cache
    | none => Keyed.insert PhysPage.number cache pp
  else cache

def logEntries : List PhysPage := (List.range fscbPages).flatMap fun page => (fscb page).updates

def replay : List PhysPage := (logEntries fscb).foldl applyUpdate (readRecord fscb)

def pickBlank (draw : Nat) : Option (Nat × Nat) :=
  let blank := (List.range fscbPages).filter fun page => (fscb page).isBlank
  blank[draw % blank.length]?.map fun page => (page, 0)

def endOf (page : Nat) : Nat × Nat := (page, (fscb page).updates.length)

end

variable (s : Space)

/-- `fast_space_read`. The scan notes the place behind the log in every page it gets to; the count of
the entries starts over. -/
def Space.fastSpaceRead (draw : Nat) : Space where
  fscb := s.fscb
  cache := replay s.fscb
  logNext :=
    (((List.range fscbPages).filter fun page => (s.fscb page).isPartial).getLast?.map (endOf s.fscb)).or
      (pickBlank s.fscb draw)
  logLen := 0

/-- The place for the next entry: the one that is known, the end of the first page with room, or a
blank page. -/
def Space.searchLog (draw : Nat) : Option (Nat × Nat) :=
  s.logNext.or
    ((((List.range fscbPages).filter fun page => (s.fscb page).isPartial).head?.map (endOf s.fscb)).or
      (pickBlank s.fscb draw))

def ensureNextLog (draw : Nat) : SpaceM Bool := do
  let next ← gets (·.searchLog draw)
  modify fun s => { s with logNext := next }
  pure next.isSome

def FscbPage.write (page : FscbPage) (block : Nat) (pp : PhysPage) : FscbPage :=
  match page with
  | .log updates => .log (updates.take block ++ pp :: updates.drop (block + 1))
  | other => other

/-- The space with an entry at the place; the place moves on unless the page is full. -/
def Space.committed (place : Nat × Nat) (pp : PhysPage) : Space :=
  { s with
    fscb := Function.update s.fscb place.1 ((s.fscb place.1).write place.2 pp)
    logNext := if place.2 + 1 < blocksPerPage then some (place.1, place.2 + 1) else none
    logLen := s.logLen + 1 }

/-- Commit an entry to the log at the next place. -/
def commit : SpaceM Unit := do
  match ← gets (·.logNext) with
  | none => halt
  | some place => modify fun s => s.committed place pp

def Space.candidates : List PhysPage := s.cache.filter PhysPage.available

def Space.fastSpaceHasPages (count : Nat) : Bool := decide (count ≤ s.candidates.length)

scoped instance neZero : NeZero 16 := ⟨by decide⟩

def PhysPage.allocated : PhysPage :=
  { pp with state := .used, clean := false, valid := true, journal := pp.journal + 1 }

/-- `try_fast_space_alloc`, with the draws for a log page and for a candidate. -/
def tryFastSpaceAlloc (drawLog draw : Nat) : SpaceM (Option PhysPage) := do
  if ← ensureNextLog drawLog then
    let candidates ← gets Space.candidates
    match candidates[draw % candidates.length]? with
    | none => pure none
    | some candidate => do
      let ppc := candidate.allocated
      commit ppc
      modify fun s => { s with cache := Keyed.remove PhysPage.number s.cache ppc.number }
      pure (some ppc)
  else pure none

def PhysPage.freed : PhysPage := { pp with state := .dirty, journal := pp.journal + 1 }

/-- `fast_space_free`; the result is the page as the caller has it then. -/
def fastSpaceFree (drawLog : Nat) (pp : PhysPage) : SpaceM PhysPage := do
  let _ ← ensureNextLog drawLog
  modify fun s => { s with
    cache := Keyed.insert PhysPage.number (Keyed.remove PhysPage.number s.cache pp.number) pp.freed }
  commit pp.freed
  pure { pp.freed with valid := false }

/-- `fast_space_write`: a record at the place, and every other page blank. -/
def Space.fastSpaceWrite (dest : Nat) (pool : List PhysPage) : Space :=
  { s with fscb := fun page =>
      if page = dest then .head pool
      else if dest < page ∧ page < dest + fastspacePages then .tail
      else .log [] }

/-- `fast_space_flush`. The rest of the record is filled with pages that are not valid. -/
def Space.fastSpaceFlush (dest draw : Nat) : Space :=
  (s.fastSpaceWrite (dest % (fscbPages - 1)) (s.cache.take freePoolLen)).fastSpaceRead draw

/-- The random numbers of a generation. -/
structure Draws where
  reservoir : Nat → Nat
  shuffle : Nat → Nat
  /-- The number of free pages times a random factor of 0.5 ± 0.1, rounded down. -/
  deniable : Nat → Nat
  deniable_bounds : ∀ free, 2 * free / 5 ≤ deniable free ∧ deniable free ≤ 3 * free / 5
  journals : Nat → Nat
  dest : Nat
  log : Nat

/-- How many pages a generation may keep. -/
def Draws.deniableFreePages (draws : Draws) (totalFree : Nat) : Nat :=
  if draws.deniable totalFree = 0 then 1 else draws.deniable totalFree

structure Fill where
  heap : List Nat
  pool : List Nat

def maxEntries : Nat := fastspacePages * 4096 / 4

/-- Consider a page: the smallest used page is taken off the heap when it comes by. -/
def Fill.consider (draws : Draws) (fill : Fill) (candidate : Nat) : Fill :=
  let deposit (heap : List Nat) : Fill :=
    if fill.pool.length < maxEntries then ⟨heap, fill.pool ++ [candidate]⟩
    else ⟨heap, fill.pool.set (draws.reservoir candidate % fill.pool.length) candidate⟩
  match fill.heap with
  | [] => deposit []
  | used :: rest => if candidate = used then ⟨rest, fill.pool⟩ else deposit (used :: rest)

def swap (l : List Nat) (i j : Nat) : List Nat :=
  match l[i]?, l[j]? with
  | some a, some b => (l.set i b).set j a
  | _, _ => l

def shuffle (draws : Draws) (l : List Nat) : List Nat :=
  ((List.range l.length).drop 1).reverse.foldl (fun l i => swap l i (draws.shuffle i % (i + 1))) l

/-- `fast_space_generate` for a device with the given number of data pages. -/
def fastSpaceGenerate (total : Nat) (used : List Nat) (draws : Draws) : List PhysPage :=
  if total = used.length then []
  else
    let heap := used.insertionSort (· ≤ ·)
    let pool := ((List.range total).foldl (Fill.consider draws) ⟨heap, []⟩).pool
    ((shuffle draws pool).take (draws.deniableFreePages (total - used.length))).mapIdx fun i page =>
      { number := page, clean := false, valid := true, state := .free
        journal := Fin.ofNat 16 (draws.journals i % journalRandRange) }

/-- `pddb_generate_used_map`: what the scan of the page tables finds, and the pages in the pool that
are in use. -/
def Space.generateUsedMap (scanned : List Nat) : List Nat :=
  (s.cache.filter fun pp => pp.state == .used || pp.state == .maybeUsed).foldl
    (fun heap pp => if pp.number ∈ heap then heap else pp.number :: heap) scanned

/-- `ensure_fast_space_alloc`; the result is whether there is room, and the pool. -/
def Space.ensureFastSpaceAlloc (total : Nat) (scanned : List Nat) (draws : Draws)
    (pages : Nat) : Bool × Space :=
  if s.fastSpaceHasPages (pages + 1) then
    if s.logLen < logLimit then (true, s) else (true, s.fastSpaceFlush draws.dest draws.log)
  else
    let pool := fastSpaceGenerate total (s.generateUsedMap scanned) draws
    if pool.length = 0 then (false, s)
    else
      let s' := (s.fastSpaceWrite (draws.dest % (fscbPages - 1)) (pool.take freePoolLen)).fastSpaceRead
        draws.log
      (decide (pages < s'.cache.length), s')

end

def freePages (total : Nat) (used : List Nat) : List Nat :=
  (List.range total).filter fun page => page ∉ used

section

variable {used heap : List Nat} {k : Nat}

theorem freePages_succ_of_mem (h : k ∈ used) : freePages (k + 1) used = freePages k used := by
  rw [freePages, freePages, List.range_succ, List.filter_append, List.filter_singleton]
  simp [h]

theorem freePages_succ_of_notMem (h : k ∉ used) : freePages (k + 1) used = freePages k used ++ [k] := by
  rw [freePages, freePages, List.range_succ, List.filter_append, List.filter_singleton]
  simp [h]

theorem filter_le_of_mem (hsorted : heap.Pairwise (· < ·)) (hk : k ∈ heap) :
    heap.filter (k ≤ ·) = k :: heap.filter (k + 1 ≤ ·) := by
  induction heap with
  | nil => contradiction
  | cons page rest ih =>
    obtain ⟨hlt, hrest⟩ := List.pairwise_cons.mp hsorted
    rcases List.mem_cons.mp hk with rfl | hmem
    · have habove : rest.filter (k ≤ ·) = rest.filter (k + 1 ≤ ·) := by
        apply List.filter_congr
        intro other hother
        have := hlt other hother
        simp only [decide_eq_decide]
        omega
      rw [List.filter_cons_of_pos (by simp), List.filter_cons_of_neg (by simp), habove]
    · have hbelow := hlt k hmem
      rw [List.filter_cons_of_neg (by simpa using hbelow),
        List.filter_cons_of_neg (by simpa using Nat.lt_succ_of_lt hbelow), ih hrest hmem]

theorem filter_le_of_notMem (hk : k ∉ heap) : heap.filter (k ≤ ·) = heap.filter (k + 1 ≤ ·) := by
  apply List.filter_congr
  intro page hpage
  have hne : page ≠ k := fun heq => hk (heq ▸ hpage)
  simp only [decide_eq_decide]
  omega

/-- The pool and the heap when the pages below `k` were considered. -/
structure Filled (heap : List Nat) (k : Nat) (fill : Fill) : Prop where
  heap_eq : fill.heap = heap.filter (k ≤ ·)
  nodup : fill.pool.Nodup
  free : ∀ page ∈ fill.pool, page < k ∧ page ∉ heap
  length_eq : fill.pool.length = min maxEntries (freePages k heap).length
  pool_eq : (freePages k heap).length ≤ maxEntries → fill.pool = freePages k heap

theorem Filled.deposit {fill : Fill} (h : Filled heap k fill) (hk : k ∉ heap) (draws : Draws) :
    Filled heap (k + 1) (if fill.pool.length < maxEntries then ⟨fill.heap, fill.pool ++ [k]⟩
        else ⟨fill.heap, fill.pool.set (draws.reservoir k % fill.pool.length) k⟩) := by
  have hnew : k ∉ fill.pool := fun hmem => Nat.lt_irrefl k (h.free k hmem).1
  have hold : ∀ page ∈ fill.pool, page < k + 1 ∧ page ∉ heap := fun page hpage =>
    ⟨Nat.lt_succ_of_lt (h.free page hpage).1, (h.free page hpage).2⟩
  have hheap : fill.heap = heap.filter (k + 1 ≤ ·) := by rw [h.heap_eq, filter_le_of_notMem hk]
  have hlen := h.length_eq
  have hmore : (freePages (k + 1) heap).length = (freePages k heap).length + 1 := by
    rw [freePages_succ_of_notMem hk, List.length_append, List.length_singleton]
  split
  · rename_i hroom
    refine ⟨hheap, ?_, ?_, ?_, ?_⟩
    · exact List.nodup_append.mpr ⟨h.nodup, List.nodup_singleton k, fun a ha b hb heq => by
        rw [List.mem_singleton.mp hb] at heq
        exact hnew (heq ▸ ha)⟩
    · intro page hpage
      rcases List.mem_append.mp hpage with hpage | hpage
      · exact hold page hpage
      · rw [List.mem_singleton.mp hpage]
        exact ⟨Nat.lt_succ_self k, hk⟩
    · simp only [List.length_append, List.length_singleton]
      omega
    · intro hfits
      simp only [h.pool_eq (by omega), freePages_succ_of_notMem hk]
  · refine ⟨hheap, h.nodup.set hnew, ?_, ?_, fun hfits => by omega⟩
    · intro page hpage
      rcases List.mem_or_eq_of_mem_set hpage with hpage | rfl
      · exact hold page hpage
      · exact ⟨Nat.lt_succ_self _, hk⟩
    · simp only [List.length_set]
      omega

theorem Filled.consider {fill : Fill} (h : Filled heap k fill) (hsorted : heap.Pairwise (· < ·))
    (draws : Draws) : Filled heap (k + 1) (fill.consider draws k) := by
  by_cases hk : k ∈ heap
  · -- the page is the smallest one on the heap
    have hheap : fill.heap = k :: heap.filter (k + 1 ≤ ·) := by
      rw [h.heap_eq, filter_le_of_mem hsorted hk]
    have hstep : fill.consider draws k = ⟨heap.filter (k + 1 ≤ ·), fill.pool⟩ := by
      rw [Fill.consider, hheap]
      simp only [if_true]
    rw [hstep]
    exact ⟨rfl, h.nodup, fun page hpage =>
      ⟨Nat.lt_succ_of_lt (h.free page hpage).1, (h.free page hpage).2⟩,
      by rw [freePages_succ_of_mem hk, h.length_eq], by rw [freePages_succ_of_mem hk]; exact h.pool_eq⟩
  · have hstep : fill.consider draws k = if fill.pool.length < maxEntries then ⟨fill.heap, fill.pool ++ [k]⟩
        else ⟨fill.heap, fill.pool.set (draws.reservoir k % fill.pool.length) k⟩ := by
      rw [Fill.consider]
      split
      · rename_i hempty
        simp only [hempty]
      · rename_i page rest hcons
        have hne : k ≠ page := by
          intro heq
          have hmem : page ∈ heap.filter (k ≤ ·) := by
            rw [← h.heap_eq, hcons]
            exact List.mem_cons_self
          exact hk (heq ▸ List.mem_of_mem_filter hmem)
        simp only [hcons, if_neg hne]
    rw [hstep]
    exact h.deposit hk draws

theorem Filled.of_range (hsorted : heap.Pairwise (· < ·)) (draws : Draws) (total : Nat) :
    Filled heap total ((List.range total).foldl (Fill.consider draws) ⟨heap, []⟩) := by
  induction total with
  | zero =>
    have hall : heap.filter (0 ≤ ·) = heap := by simp
    exact ⟨hall.symm, List.nodup_nil, fun page hpage => absurd hpage List.not_mem_nil, rfl, fun _ => rfl⟩
  | succ total ih =>
    rw [List.range_succ, List.foldl_append]
    exact ih.consider hsorted draws

end

theorem swap_perm (l : List Nat) (i j : Nat) : (swap l i j).Perm l := by
  rw [swap]
  split
  · rename_i a b hi hj
    obtain ⟨hlti, rfl⟩ := List.getElem?_eq_some_iff.mp hi
    obtain ⟨hltj, rfl⟩ := List.getElem?_eq_some_iff.mp hj
    exact List.set_set_perm hlti hltj
  · exact .refl _

theorem shuffle_perm (draws : Draws) (l : List Nat) : (shuffle draws l).Perm l := by
  rw [shuffle]
  -- every exchange keeps the pages
  suffices h : ∀ (steps start : List Nat),
      (steps.foldl (fun l i => swap l i (draws.shuffle i % (i + 1))) start).Perm start from h _ l
  intro steps
  induction steps with
  | nil => exact fun start => .refl _
  | cons i steps ih => exact fun start => (ih _).trans (swap_perm _ _ _)

theorem swap_self (l : List Nat) (i : Nat) : swap l i i = l := by
  rw [swap]
  split
  · rename_i a b hi hi'
    obtain ⟨hlt, rfl⟩ := List.getElem?_eq_some_iff.mp hi
    rw [hi] at hi'
    cases hi'
    rw [List.set_getElem_self, List.set_getElem_self]
  · rfl

theorem shuffle_eq_self {draws : Draws} (h : ∀ i, draws.shuffle i = i) (l : List Nat) : shuffle draws l = l := by
  rw [shuffle]
  suffices hfold : ∀ (steps start : List Nat),
      steps.foldl (fun l i => swap l i (draws.shuffle i % (i + 1))) start = start from hfold _ l
  intro steps
  induction steps with
  | nil => exact fun start => rfl
  | cons i steps ih =>
    intro start
    rw [List.foldl_cons, h, Nat.mod_eq_of_lt (Nat.lt_succ_self i), swap_self, ih]

def Draws.page (draws : Draws) (i page : Nat) : PhysPage :=
  { number := page, clean := false, valid := true, state := .free
    journal := Fin.ofNat 16 (draws.journals i % journalRandRange) }

def Draws.generated (draws : Draws) (total : Nat) (used : List Nat) : Nat :=
  min (draws.deniableFreePages (total - used.length)) (min maxEntries (freePages total used).length)

section

variable {total : Nat} {used : List Nat} {draws : Draws}

theorem Draws.available_page (draws : Draws) (i page : Nat) :
    (draws.page i page).available = decide (draws.journals i % journalRandRange ≠ physPageJournalMax) := by
  have hlt : draws.journals i % journalRandRange < 24 := Nat.mod_lt _ (by decide)
  have hsmall : ∀ j < 24, decide ((Fin.ofNat 16 j).val < 15) = decide (j ≠ 15) := by decide
  exact (Bool.true_and _).trans (hsmall _ hlt)

theorem Draws.numbers_mapIdx (draws : Draws) (pages : List Nat) :
    (pages.mapIdx draws.page).map PhysPage.number = pages := by
  apply List.ext_getElem?
  intro i
  rw [List.getElem?_map, List.getElem?_mapIdx, Option.map_map]
  exact Option.map_id'

theorem Draws.distinct_mapIdx (draws : Draws) {pages : List Nat} (hpages : pages.Nodup) :
    Keyed.Distinct PhysPage.number (pages.mapIdx draws.page) := by
  rwa [Keyed.Distinct, draws.numbers_mapIdx]

theorem Draws.take_mapIdx (draws : Draws) (pages : List Nat) (n : Nat) :
    (pages.mapIdx draws.page).take n = (pages.take n).mapIdx draws.page := by
  apply List.ext_getElem?
  intro i
  simp only [List.getElem?_take, List.getElem?_mapIdx]
  split <;> rfl

theorem sorted_used (hused : used.Nodup) : (used.insertionSort (· ≤ ·)).Pairwise (· < ·) := by
  have hle := List.pairwise_insertionSort (· ≤ ·) used
  have hne : (used.insertionSort (· ≤ ·)).Pairwise (· ≠ ·) :=
    (List.perm_insertionSort _ used).nodup_iff.mpr hused
  exact (hle.and hne).imp fun h => Nat.lt_of_le_of_ne h.1 h.2

theorem freePages_insertionSort (total : Nat) (used : List Nat) :
    freePages total (used.insertionSort (· ≤ ·)) = freePages total used := by
  rw [freePages, freePages]
  simp only [(List.perm_insertionSort _ used).mem_iff]

theorem fastSpaceGenerate_spec (draws : Draws) (hused : used.Nodup) (hfree : total ≠ used.length) :
    ∃ pages : List Nat, fastSpaceGenerate total used draws = pages.mapIdx draws.page ∧ pages.Nodup ∧
      (∀ page ∈ pages, page < total ∧ page ∉ used) ∧ pages.length = draws.generated total used := by
  have hperm : (used.insertionSort (· ≤ ·)).Perm used := List.perm_insertionSort _ _
  have hfilled := Filled.of_range (sorted_used hused) draws total
  have hshuffle := shuffle_perm draws
    ((List.range total).foldl (Fill.consider draws) ⟨used.insertionSort (· ≤ ·), []⟩).pool
  refine ⟨(shuffle draws ((List.range total).foldl (Fill.consider draws) ⟨used.insertionSort (· ≤ ·), []⟩).pool).take
      (draws.deniableFreePages (total - used.length)), ?_, ?_, ?_, ?_⟩
  · rw [fastSpaceGenerate, if_neg hfree]
    rfl
  · exact (hshuffle.nodup_iff.mpr hfilled.nodup).sublist (List.take_sublist _ _)
  · intro page hpage
    obtain ⟨hlt, hnot⟩ := hfilled.free page (hshuffle.mem_iff.mp (List.mem_of_mem_take hpage))
    exact ⟨hlt, fun hmem => hnot (hperm.mem_iff.mpr hmem)⟩
  · rw [List.length_take, hshuffle.length_eq, hfilled.length_eq, freePages_insertionSort, Draws.generated]

/-- If the shuffle leaves every page in its place and the free pages fit, they are all in order. -/
theorem fastSpaceGenerate_ordered (hused : used.Nodup) (hfree : total ≠ used.length)
    (hshuffle : ∀ i, draws.shuffle i = i) (hfits : (freePages total used).length ≤ maxEntries) :
    fastSpaceGenerate total used draws = ((freePages total used).take
      (draws.deniableFreePages (total - used.length))).mapIdx draws.page := by
  have hpool := (Filled.of_range (sorted_used hused) draws total).pool_eq
  rw [freePages_insertionSort] at hpool
  rw [fastSpaceGenerate, if_neg hfree]
  simp only [hpool hfits, shuffle_eq_self hshuffle]
  rfl

theorem free_of_mem_generate (hused : used.Nodup) {pp : PhysPage}
    (hpp : pp ∈ fastSpaceGenerate total used draws) : pp.number < total ∧ pp.number ∉ used := by
  by_cases hfree : total = used.length
  · rw [fastSpaceGenerate, if_pos hfree] at hpp
    contradiction
  · obtain ⟨pages, heq, -, hpages, -⟩ := fastSpaceGenerate_spec draws hused hfree
    rw [heq] at hpp
    obtain ⟨i, hi, rfl⟩ := List.mem_mapIdx.mp hpp
    exact hpages _ (List.getElem_mem hi)

theorem Space.generateUsedMap_nodup (s : Space) {scanned : List Nat} (hscanned : scanned.Nodup) :
    (s.generateUsedMap scanned).Nodup := by
  rw [generateUsedMap]
  generalize s.cache.filter _ = entries
  induction entries generalizing scanned with
  | nil => exact hscanned
  | cons pp rest ih =>
    rw [List.foldl_cons]
    split
    · exact ih hscanned
    · rename_i hnew
      exact ih (List.nodup_cons.mpr ⟨hnew, hscanned⟩)

end

theorem recordCache_perm {pool : List PhysPage} (hpool : Keyed.Distinct PhysPage.number pool) :
    (recordCache pool).Perm (pool.filter fun pp => pp.valid && pp.state == .free) := by
  have hdistinct : Keyed.Distinct PhysPage.number ((pool.filter fun pp => pp.valid && pp.state == .free) ++ []) := by
    rw [List.append_nil]
    exact hpool.filter _
  have hall := Keyed.foldl_insert_perm hdistinct
  rwa [List.append_nil] at hall

theorem replay_fastSpaceWrite (s : Space) (dest : Nat) (pool : List PhysPage) :
    replay (s.fastSpaceWrite (dest % (fscbPages - 1)) pool).fscb = recordCache pool := by
  have hlt : dest % (fscbPages - 1) < 15 := Nat.mod_lt _ (by decide)
  have hlog : logEntries (s.fastSpaceWrite (dest % (fscbPages - 1)) pool).fscb = [] := by
    rw [logEntries, List.flatMap_eq_nil_iff]
    intro page _
    simp only [Space.fastSpaceWrite]
    split
    · rfl
    · split <;> rfl
  rw [replay, hlog, List.foldl_nil]
  generalize dest % (fscbPages - 1) = dest at hlt
  interval_cases dest <;> rfl

open Labelled PhysPage FscbPage Function Space

/-- An entry against what there is for its page. -/
def settle (prev : Option PhysPage) (pp : PhysPage) : Option PhysPage :=
  match prev with
  | none => some pp
  | some old => if old.journal ≤ pp.journal then some pp else some old

def entriesFor (n : Nat) (entries : List PhysPage) : List PhysPage :=
  entries.filter fun pp => pp.valid && decide (pp.number = n)

theorem entriesFor_cons (n : Nat) (pp : PhysPage) (entries : List PhysPage) :
    entriesFor n (pp :: entries) =
      if pp.valid = true ∧ pp.number = n then pp :: entriesFor n entries else entriesFor n entries := by
  simp [entriesFor, List.filter_cons]

theorem get_applyUpdate (cache : List PhysPage) (pp : PhysPage) (n : Nat) :
    Keyed.get number (applyUpdate cache pp) n =
      if pp.valid = true ∧ pp.number = n then settle (Keyed.get number cache n) pp
      else Keyed.get number cache n := by
  rw [applyUpdate]
  by_cases hvalid : pp.valid = true
  · rw [if_pos hvalid]
    by_cases hnumber : pp.number = n
    · subst hnumber
      rw [if_pos ⟨hvalid, rfl⟩]
      cases hprev : Keyed.get number cache pp.number with
      | none => simp only [Keyed.get_insert, hprev, Option.none_or, if_true, settle]
      | some prev =>
        simp only [settle]
        split
        · rw [Keyed.get_replace, if_pos rfl]
        · exact hprev
    · rw [if_neg fun h => hnumber h.2]
      split
      · split
        · rw [Keyed.get_replace, if_neg hnumber]
        · rfl
      · rw [Keyed.get_insert, if_neg hnumber, Option.or_none]
  · rw [if_neg hvalid, if_neg fun h => hvalid h.1]

variable (entries : List PhysPage)

theorem get_foldl_applyUpdate (cache : List PhysPage) (n : Nat) :
    Keyed.get number (entries.foldl applyUpdate cache) n =
      (entriesFor n entries).foldl settle (Keyed.get number cache n) := by
  induction entries generalizing cache with
  | nil => rfl
  | cons pp rest ih =>
    rw [List.foldl_cons, ih, get_applyUpdate, entriesFor_cons]
    by_cases hfor : pp.valid = true ∧ pp.number = n
    · rw [if_pos hfor, if_pos hfor, List.foldl_cons]
    · rw [if_neg hfor, if_neg hfor]

theorem settle_settle (prev : Option PhysPage) (x y : PhysPage) :
    settle (settle prev x) y = settle (settle prev y) x ∨ settle (settle prev x) y = settle prev y := by
  cases prev with
  | none =>
    by_cases hxy : x.journal ≤ y.journal
    · right
      simp [settle, hxy]
    · left
      have hyx : y.journal ≤ x.journal := le_of_not_ge hxy
      simp [settle, hxy, hyx]
  | some old =>
    by_cases hox : old.journal ≤ x.journal
    · by_cases hxy : x.journal ≤ y.journal
      · right
        simp [settle, hox, hxy, hox.trans hxy]
      · left
        have hyx : y.journal ≤ x.journal := le_of_not_ge hxy
        by_cases hoy : old.journal ≤ y.journal <;> simp [settle, hox, hxy, hyx, hoy]
    · right
      simp [settle, hox]

theorem foldl_settle_cons (prev : Option PhysPage) (x : PhysPage) :
    entries.foldl settle (settle prev x) = entries.foldl settle prev ∨
      entries.foldl settle (settle prev x) = some x := by
  induction entries generalizing prev with
  | nil =>
    cases prev with
    | none => exact .inr rfl
    | some old =>
      simp only [List.foldl_nil, settle]
      split
      · exact .inr rfl
      · exact .inl rfl
  | cons y rest ih =>
    rw [List.foldl_cons, List.foldl_cons]
    rcases settle_settle prev x y with hswap | hsame
    · rw [hswap]
      exact ih (settle prev y)
    · rw [hsame]
      exact .inl rfl

theorem le_foldl_settle {prev : Option PhysPage} {old : PhysPage}
    (h : prev = some old) : ∃ e, entries.foldl settle prev = some e ∧ old.journal ≤ e.journal := by
  induction entries generalizing prev old with
  | nil => exact ⟨old, h, le_rfl⟩
  | cons y rest ih =>
    subst h
    rw [List.foldl_cons, settle]
    split
    · rename_i hle
      have hy : ∃ e, rest.foldl settle (some y) = some e ∧ y.journal ≤ e.journal := ih rfl
      obtain ⟨e, he, hge⟩ := hy
      exact ⟨e, he, hle.trans hge⟩
    · exact ih rfl

theorem foldl_settle_insert (front back : List PhysPage) (prev : Option PhysPage) (x : PhysPage) :
    ((front ++ x :: back).foldl settle prev = (front ++ back).foldl settle prev ∨
      (front ++ x :: back).foldl settle prev = some x) ∧
    ((∀ e, (front ++ back).foldl settle prev = some e → e.journal < x.journal) →
      (front ++ x :: back).foldl settle prev = some x) := by
  rw [List.foldl_append, List.foldl_append, List.foldl_cons]
  have hcases := foldl_settle_cons back (front.foldl settle prev) x
  refine ⟨hcases, fun hless => hcases.resolve_left fun hsame => ?_⟩
  -- the outcome is at least the entry
  have hle : ∃ e, back.foldl settle (settle (front.foldl settle prev) x) = some e ∧ x.journal ≤ e.journal := by
    cases hprev : front.foldl settle prev with
    | none => exact le_foldl_settle back rfl
    | some old =>
      rw [settle]
      split
      · exact le_foldl_settle back rfl
      · rename_i hgt
        have hold : ∃ e, back.foldl settle (some old) = some e ∧ old.journal ≤ e.journal :=
          le_foldl_settle back rfl
        obtain ⟨e, he, hge⟩ := hold
        exact ⟨e, he, (le_of_not_ge hgt).trans hge⟩
  obtain ⟨e, he, hge⟩ := hle
  exact absurd (hless e (hsame ▸ he)) (not_lt.mpr hge)

/-- The place is right behind the entries of a log page that has room. -/
def PlaceOk (fscb : Nat → FscbPage) (place : Nat × Nat) : Prop :=
  place.1 < fscbPages ∧ place.2 < blocksPerPage ∧
    ∃ updates, fscb place.1 = .log updates ∧ updates.length = place.2

variable {fscb : Nat → FscbPage}

theorem pickBlank_ok {draw : Nat} {place : Nat × Nat} (h : pickBlank fscb draw = some place) : PlaceOk fscb place := by
  obtain ⟨page, hpage, rfl⟩ := Option.map_eq_some_iff.mp h
  have hmem := List.mem_filter.mp (List.mem_of_getElem? hpage)
  refine ⟨List.mem_range.mp hmem.1, Nat.zero_lt_succ 254, [], ?_, rfl⟩
  have hblank := hmem.2
  unfold isBlank at hblank
  split at hblank
  · assumption
  · contradiction

theorem endOf_ok {page : Nat} (hlt : page < fscbPages)
    (hstarted : (fscb page).isPartial = true) : PlaceOk fscb (endOf fscb page) := by
  unfold FscbPage.isPartial at hstarted
  split at hstarted
  · rename_i updates hpage
    rw [Bool.and_eq_true, decide_eq_true_eq, decide_eq_true_eq] at hstarted
    refine ⟨hlt, ?_, updates, hpage, ?_⟩
    · simpa [endOf, hpage, FscbPage.updates] using hstarted.2
    · simp [endOf, hpage, FscbPage.updates]
  · contradiction

theorem scanned_ok {found : Option Nat} {draw : Nat} {place : Nat × Nat}
    (hfound : ∀ page, found = some page → page ∈ (List.range fscbPages).filter fun page => (fscb page).isPartial)
    (h : (found.map (endOf fscb)).or (pickBlank fscb draw) = some place) : PlaceOk fscb place := by
  rcases Option.or_eq_some_iff.mp h with hscan | ⟨-, hblank⟩
  · obtain ⟨page, hpage, rfl⟩ := Option.map_eq_some_iff.mp hscan
    have hmem := List.mem_filter.mp (hfound page hpage)
    exact endOf_ok (List.mem_range.mp hmem.1) hmem.2
  · exact pickBlank_ok hblank

def appended (fscb : Nat → FscbPage) (place : Nat × Nat) (pp : PhysPage) : Nat → FscbPage :=
  update fscb place.1 ((fscb place.1).write place.2 pp)

section

variable {fscb : Nat → FscbPage} {place : Nat × Nat} (pp : PhysPage)

theorem PlaceOk.write_eq (h : PlaceOk fscb place) :
    (fscb place.1).write place.2 pp = .log ((fscb place.1).updates ++ [pp]) := by
  obtain ⟨-, -, updates, hpage, hlen⟩ := h
  rw [hpage, FscbPage.write, FscbPage.updates, ← hlen, List.take_length, List.drop_of_length_le (Nat.le_succ _)]

theorem PlaceOk.appended_eq (h : PlaceOk fscb place) :
    appended fscb place pp = update fscb place.1 (.log ((fscb place.1).updates ++ [pp])) := by
  rw [appended, h.write_eq]

theorem PlaceOk.readRecord_appended (h : PlaceOk fscb place) :
    readRecord (appended fscb place pp) = readRecord fscb := by
  obtain ⟨hlt, -, updates, hpage, -⟩ := id h
  rw [h.appended_eq, readRecord, readRecord]
  congr 2
  funext page
  by_cases hsame : page = place.1
  · subst hsame
    rw [update_self, hpage]
  · rw [update_of_ne hsame]

theorem PlaceOk.logEntries_appended (h : PlaceOk fscb place) :
    ∃ front back, logEntries fscb = front ++ back ∧ logEntries (appended fscb place pp) = front ++ pp :: back := by
  obtain ⟨hlt, -⟩ := id h
  obtain ⟨before, after, hrange, hbefore, hafter⟩ : ∃ before after,
      List.range fscbPages = before ++ place.1 :: after ∧ place.1 ∉ before ∧ place.1 ∉ after := by
    obtain ⟨before, after, hrange⟩ := List.append_of_mem (List.mem_range.mpr hlt)
    have hnodup := List.nodup_range (n := fscbPages)
    rw [hrange, List.nodup_append] at hnodup
    obtain ⟨-, hcons, hdisjoint⟩ := hnodup
    refine ⟨before, after, hrange, fun hmem => ?_, (List.nodup_cons.mp hcons).1⟩
    exact hdisjoint _ hmem _ List.mem_cons_self rfl
  have hother : ∀ pages : List Nat, place.1 ∉ pages → pages.flatMap (fun page => (appended fscb place pp page).updates) =
        pages.flatMap fun page => (fscb page).updates := by
    intro pages hnot
    apply List.flatMap_congr
    intro page hpage
    rw [appended, update_of_ne (ne_of_mem_of_not_mem hpage hnot)]
  refine ⟨before.flatMap (fun page => (fscb page).updates) ++ (fscb place.1).updates,
    after.flatMap fun page => (fscb page).updates, ?_, ?_⟩
  · rw [logEntries, hrange, List.flatMap_append, List.flatMap_cons, List.append_assoc]
  · rw [logEntries, hrange, List.flatMap_append, List.flatMap_cons, hother before hbefore,
      hother after hafter, h.appended_eq, update_self]
    simp [updates]

def onFlash (fscb : Nat → FscbPage) (n : Nat) : Option PhysPage :=
  Keyed.get number (replay fscb) n

/-- An entry more for another page does not matter, and one for the page wins or not. -/
theorem PlaceOk.onFlash_appended (h : PlaceOk fscb place) (n : Nat) :
    (onFlash (appended fscb place pp) n = onFlash fscb n ∨
      pp.number = n ∧ onFlash (appended fscb place pp) n = some pp) ∧
    (pp.valid = true → pp.number = n → (∀ e, onFlash fscb n = some e → e.journal < pp.journal) →
      onFlash (appended fscb place pp) n = some pp) := by
  obtain ⟨front, back, hold, hnew⟩ := h.logEntries_appended pp
  have hold' : onFlash fscb n = (entriesFor n front ++ entriesFor n back).foldl settle
      (Keyed.get number (readRecord fscb) n) := by
    rw [onFlash, replay, get_foldl_applyUpdate, hold, entriesFor, List.filter_append]
    rfl
  have hnew' : onFlash (appended fscb place pp) n = (entriesFor n front ++ entriesFor n (pp :: back)).foldl settle
        (Keyed.get number (readRecord fscb) n) := by
    rw [onFlash, replay, get_foldl_applyUpdate, hnew, h.readRecord_appended, entriesFor, List.filter_append]
    rfl
  by_cases hfor : pp.valid = true ∧ pp.number = n
  · have hcons : entriesFor n (pp :: back) = pp :: entriesFor n back := by
      rw [entriesFor_cons, if_pos hfor]
    rw [hcons] at hnew'
    have hinsert := foldl_settle_insert (entriesFor n front) (entriesFor n back)
      (Keyed.get number (readRecord fscb) n) pp
    rw [← hold', ← hnew'] at hinsert
    exact ⟨hinsert.1.imp id fun hx => ⟨hfor.2, hx⟩, fun _ _ => hinsert.2⟩
  · have hcons : entriesFor n (pp :: back) = entriesFor n back := by
      rw [entriesFor_cons, if_neg hfor]
    rw [hcons, ← hold'] at hnew'
    exact ⟨.inl hnew', fun hvalid hnumber => absurd ⟨hvalid, hnumber⟩ hfor⟩

end

theorem recordCache_distinct (pool : List PhysPage) : Keyed.Distinct number (recordCache pool) := by
  rw [recordCache]
  generalize pool.filter _ = entries
  suffices h : ∀ set, Keyed.Distinct number set → Keyed.Distinct number (entries.foldl (Keyed.insert number) set) from
    h [] List.nodup_nil
  induction entries with
  | nil => exact fun _ hset => hset
  | cons pp rest ih => exact fun set hset => ih _ (hset.insert pp)

theorem applyUpdate_distinct {cache : List PhysPage} (h : Keyed.Distinct number cache)
    (pp : PhysPage) : Keyed.Distinct number (applyUpdate cache pp) := by
  rw [applyUpdate]
  split
  · split
    · split
      · exact h.replace pp
      · exact h
    · exact h.insert pp
  · exact h

theorem readRecord_distinct (fscb : Nat → FscbPage) : Keyed.Distinct number (readRecord fscb) := by
  rw [readRecord]
  cases hfound : (List.range fscbPages).findSome? _ with
  | none => exact List.nodup_nil
  | some cache =>
    obtain ⟨page, -, hpage⟩ := List.exists_of_findSome?_eq_some hfound
    split at hpage
    · cases hpage
      exact recordCache_distinct _
    · contradiction

theorem replay_distinct (fscb : Nat → FscbPage) : Keyed.Distinct number (replay fscb) := by
  rw [replay]
  generalize logEntries fscb = entries
  suffices h : ∀ cache, Keyed.Distinct number cache → Keyed.Distinct number (entries.foldl applyUpdate cache) from
    h _ (readRecord_distinct fscb)
  induction entries with
  | nil => exact fun _ hcache => hcache
  | cons pp rest ih => exact fun cache hcache => ih _ (applyUpdate_distinct hcache pp)

/-- The pool in memory with the flash and everything that was logged. -/
structure Traced where
  space : Space
  history : List PhysPage

def latest (history : List PhysPage) (n : Nat) : Option SpaceState :=
  (history.reverse.find? fun pp => pp.number = n).map (·.state)

theorem latest_append (history : List PhysPage) (pp : PhysPage) (n : Nat) :
    latest (history ++ [pp]) n = if pp.number = n then some pp.state else latest history n := by
  rw [latest, List.reverse_append, List.reverse_singleton, List.singleton_append, List.find?_cons]
  by_cases hn : pp.number = n <;> simp [hn, latest]

inductive Event where
  | alloc (drawLog draw : Nat)
  | free (drawLog : Nat) (pp : PhysPage)
  /-- Power is lost, and the pool is read back. -/
  | reread (draw : Nat)

def Space.hasInPool (s : Space) (n : Nat) : Bool :=
  (Keyed.get number s.cache n).any inPool

def Traced.step (t : Traced) : Event → Option Traced
  | .alloc drawLog draw =>
    match tryFastSpaceAlloc drawLog draw t.space with
    | .ok (some pp) s => some ⟨s, t.history ++ [pp]⟩
    | .ok none s => some ⟨s, t.history⟩
    | .err _ _ => none
    | .panic => none
  | .free drawLog pp =>
    match fastSpaceFree drawLog pp t.space with
    | .ok _ s => some ⟨s, t.history ++ [pp.freed]⟩
    | .err _ _ => none
    | .panic => none
  | .reread draw => some ⟨t.space.fastSpaceRead draw, t.history⟩

/-- A page that is given back is one that somebody holds. -/
def Traced.allows (t : Traced) : Event → Bool
  | .free _ pp => !t.space.hasInPool pp.number
  | _ => true

/-- A record that was just written and read back. -/
def Traced.fresh (s : Space) (dest : Nat) (pool : List PhysPage) (draw : Nat) : Traced where
  space := (s.fastSpaceWrite (dest % (fscbPages - 1)) pool).fastSpaceRead draw
  history := []

/-- How the pool in memory and the flash go together. -/
structure Agree (t : Traced) : Prop where
  distinct : Keyed.Distinct number t.space.cache
  place_ok : ∀ place, t.space.logNext = some place → PlaceOk t.space.fscb place
  out_of_pool : ∀ n w, t.space.hasInPool n = false → onFlash t.space.fscb n = some w → w.inPool = false
  in_pool : ∀ n c w, Keyed.get number t.space.cache n = some c → c.inPool = true →
    onFlash t.space.fscb n = some w → w.inPool = true → w.journal ≤ c.journal
  used : ∀ n, latest t.history n = some .used → t.space.hasInPool n = false

section

variable {t t' : Traced}

variable {s : Space}

theorem hasInPool_eq_false {n : Nat} : s.hasInPool n = false ↔
      ∀ c, Keyed.get number s.cache n = some c → c.inPool = false := by
  rw [hasInPool]
  cases Keyed.get number s.cache n <;> simp

theorem fastSpaceRead_place_ok (draw : Nat) {place : Nat × Nat}
    (hnext : (s.fastSpaceRead draw).logNext = some place) : PlaceOk s.fscb place := by
  apply scanned_ok _ hnext
  exact fun page hpage => List.mem_of_getLast? hpage

theorem Agree.read {history : List PhysPage} (draw : Nat)
    (hused : ∀ n, latest history n = some .used → (s.fastSpaceRead draw).hasInPool n = false) :
    Agree ⟨s.fastSpaceRead draw, history⟩ where
  distinct := replay_distinct _
  place_ok _ := fastSpaceRead_place_ok draw
  out_of_pool n w hout hw := hasInPool_eq_false.mp hout w hw
  in_pool n c w hc _ hw _ := by
    have hsame : c = w := Option.some.inj (hc.symm.trans hw)
    rw [hsame]
  used := hused

theorem Agree.reread (h : Agree t) (draw : Nat) : Agree ⟨t.space.fastSpaceRead draw, t.history⟩ := by
  refine .read draw fun n hlatest => ?_
  rw [hasInPool_eq_false]
  exact fun c hc => h.out_of_pool n c (h.used n hlatest) hc

theorem Agree.fresh (s : Space) (dest : Nat) (pool : List PhysPage) (draw : Nat) :
    Agree (Traced.fresh s dest pool draw) := .read draw nofun

variable {place : Nat × Nat}

theorem searchLog_ok {draw : Nat} (hsearch : s.searchLog draw = some place)
    (h : ∀ place, s.logNext = some place → PlaceOk s.fscb place) : PlaceOk s.fscb place := by
  rcases Option.or_eq_some_iff.mp hsearch with hnext | ⟨-, hscan⟩
  · exact h place hnext
  · exact scanned_ok (fun page hpage => List.mem_of_head? hpage) hscan

theorem tryFastSpaceAlloc_cases (s : Space) (drawLog draw : Nat) :
    ((s.searchLog drawLog = none ∨ s.candidates = []) ∧
      tryFastSpaceAlloc drawLog draw s = .ok none { s with logNext := s.searchLog drawLog }) ∨
    ∃ place c, s.searchLog drawLog = some place ∧ c ∈ s.candidates ∧
      tryFastSpaceAlloc drawLog draw s = .ok (some c.allocated) { s.committed place c.allocated with
          cache := Keyed.remove number s.cache c.number } := by
  cases hsearch : s.searchLog drawLog with
  | none =>
    left
    refine ⟨.inl rfl, ?_⟩
    simp only [tryFastSpaceAlloc, ensureNextLog, bind_apply, gets_apply, modify_apply, pure_apply,
      hsearch, Option.isSome_none, Bool.false_eq_true, if_false]
  | some place =>
    cases hpick : s.candidates[draw % s.candidates.length]? with
    | none =>
      left
      have hempty : s.candidates = [] := by
        by_contra hne
        have hlen := List.getElem?_eq_none_iff.mp hpick
        exact absurd hlen (not_le.mpr (Nat.mod_lt _ (List.length_pos_iff.mpr hne)))
      refine ⟨.inr hempty, ?_⟩
      have hsame : candidates { s with logNext := some place } = s.candidates := rfl
      simp only [tryFastSpaceAlloc, ensureNextLog, bind_apply, gets_apply, modify_apply, pure_apply,
        hsearch, Option.isSome_some, if_true, hsame, hpick]
    | some c =>
      right
      refine ⟨place, c, rfl, List.mem_of_getElem? hpick, ?_⟩
      have hsame : candidates { s with logNext := some place } = s.candidates := rfl
      simp only [tryFastSpaceAlloc, ensureNextLog, commit, bind_apply, gets_apply, modify_apply,
        pure_apply, hsearch, Option.isSome_some, if_true, hsame, hpick]
      rfl

variable {c : PhysPage}

theorem exists_alloc_of_mem {drawLog : Nat} (hsearch : (s.searchLog drawLog).isSome = true) (hc : c ∈ s.candidates) :
    ∃ draw s', tryFastSpaceAlloc drawLog draw s = .ok (some c.allocated) s' := by
  obtain ⟨place, hplace⟩ := Option.isSome_iff_exists.mp hsearch
  obtain ⟨draw, hlt, rfl⟩ := List.getElem_of_mem hc
  have hsame : candidates { s with logNext := some place } = s.candidates := rfl
  refine ⟨draw, { s.committed place s.candidates[draw].allocated with
    cache := Keyed.remove number s.cache s.candidates[draw].number }, ?_⟩
  simp only [tryFastSpaceAlloc, ensureNextLog, commit, bind_apply, gets_apply, modify_apply,
    pure_apply, hplace, Option.isSome_some, if_true, hsame, Nat.mod_eq_of_lt hlt,
    List.getElem?_eq_getElem hlt]
  rfl

theorem fastSpaceFree_cases (s : Space) (drawLog : Nat) (pp : PhysPage) :
    (s.searchLog drawLog = none ∧ fastSpaceFree drawLog pp s = .panic) ∨
    ∃ place, s.searchLog drawLog = some place ∧ fastSpaceFree drawLog pp s = .ok { pp.freed with valid := false }
        { s.committed place pp.freed with
          cache := Keyed.insert number (Keyed.remove number s.cache pp.number) pp.freed } := by
  cases hsearch : s.searchLog drawLog with
  | none =>
    left
    simp only [fastSpaceFree, ensureNextLog, commit, bind_apply, gets_apply, modify_apply, pure_apply,
      hsearch, halt_apply, and_self]
  | some place =>
    right
    refine ⟨place, rfl, ?_⟩
    simp only [fastSpaceFree, ensureNextLog, commit, bind_apply, gets_apply, modify_apply, pure_apply, hsearch]
    rfl

theorem PlaceOk.committed (h : PlaceOk s.fscb place) (pp : PhysPage) :
    ∀ next, (s.committed place pp).logNext = some next → PlaceOk (s.committed place pp).fscb next := by
  intro next hnext
  obtain ⟨hlt, hroom, updates, hpage, hlen⟩ := id h
  simp only [Space.committed] at hnext
  split at hnext
  · rename_i hmore
    cases hnext
    refine ⟨hlt, hmore, updates ++ [pp], ?_, by simp [hlen]⟩
    simp only [Space.committed, Function.update_self, h.write_eq]
    rw [hpage, FscbPage.updates]
  · contradiction

theorem PhysPage.journal_lt_allocated (h : c.available = true) : c.journal < c.allocated.journal := by
  rw [available, Bool.and_eq_true, decide_eq_true_eq, physPageJournalMax] at h
  rw [allocated, Fin.lt_def, Fin.val_add_one_of_lt' (by omega)]
  omega

theorem PhysPage.inPool_of_available (h : c.available = true) : c.inPool = true := by
  rw [available, Bool.and_eq_true] at h
  exact h.1

/-- Only the page of the new entry has to be looked at. -/
theorem Agree.append (h : Agree t) (hplace : PlaceOk t.space.fscb place)
    {p : PhysPage} {cache : List PhysPage} (hdistinct : Keyed.Distinct number cache)
    (hcache : ∀ n, n ≠ p.number → Keyed.get number cache n = Keyed.get number t.space.cache n)
    (hout : hasInPool { t.space with cache } p.number = false → ∀ w,
      onFlash (appended t.space.fscb place p) p.number = some w → w.inPool = false)
    (hin : ∀ c w, Keyed.get number cache p.number = some c → c.inPool = true →
      onFlash (appended t.space.fscb place p) p.number = some w → w.inPool = true → w.journal ≤ c.journal)
    (hused : p.state = .used → hasInPool { t.space with cache } p.number = false) :
    Agree ⟨{ t.space.committed place p with cache }, t.history ++ [p]⟩ := by
  have hother : ∀ n, n ≠ p.number → onFlash (t.space.committed place p).fscb n = onFlash t.space.fscb n :=
    fun n hn => (hplace.onFlash_appended p n).1.resolve_right fun hx => hn hx.1.symm
  refine ⟨hdistinct, hplace.committed p, ?_, ?_, ?_⟩
  · intro n w hpool hw
    by_cases hn : n = p.number
    · subst hn
      exact hout hpool w hw
    · rw [hother n hn] at hw
      rw [hasInPool, hcache n hn] at hpool
      exact h.out_of_pool n w hpool hw
  · intro n c w hc hcPool hw hwPool
    by_cases hn : n = p.number
    · subst hn
      exact hin c w hc hcPool hw hwPool
    · rw [hother n hn] at hw
      rw [hcache n hn] at hc
      exact h.in_pool n c w hc hcPool hw hwPool
  · intro n hlatest
    rw [latest_append] at hlatest
    by_cases hn : n = p.number
    · rw [if_pos hn.symm] at hlatest
      rw [hn]
      exact hused (Option.some.inj hlatest)
    · rw [if_neg fun heq => hn heq.symm] at hlatest
      rw [hasInPool, hcache n hn]
      exact h.used n hlatest

theorem Agree.alloc (h : Agree t) (hplace : PlaceOk t.space.fscb place)
    (hc : c ∈ t.space.candidates) : Agree ⟨{ t.space.committed place c.allocated with
        cache := Keyed.remove number t.space.cache c.number },
      t.history ++ [c.allocated]⟩ := by
  obtain ⟨hmem, havailable⟩ := List.mem_filter.mp hc
  have hget : Keyed.get number t.space.cache c.number = some c := h.distinct.get_eq hmem
  have hgone : Keyed.get number (Keyed.remove number t.space.cache c.number) c.number = none := by
    rw [Keyed.get_remove, if_pos rfl]
  have hflash := hplace.onFlash_appended c.allocated c.number
  refine h.append hplace (h.distinct.remove _) (fun n hn => ?_) (fun _ w hw => ?_) ?_ ?_
  · rw [Keyed.get_remove]
    exact if_neg hn
  · -- the page is in use on the flash, whichever entry wins
    rcases hflash.1 with hkept | ⟨-, hwins⟩
    · cases hpool : w.inPool with
      | false => rfl
      | true =>
        have hold := hkept.symm.trans hw
        have hle := h.in_pool _ c w hget (inPool_of_available havailable) hold hpool
        have hwins := hflash.2 rfl rfl fun e he => by
          cases hold.symm.trans he
          exact lt_of_le_of_lt hle (journal_lt_allocated havailable)
        cases hwins.symm.trans hw
        contradiction
    · cases hwins.symm.trans hw
      rfl
  · intro d w hd
    cases hgone.symm.trans hd
  · intro _
    rw [hasInPool]
    exact congrArg (Option.any inPool) hgone

/-- A free puts the page into the pool in memory; on the flash it is there or still in use. -/
theorem Agree.free (h : Agree t) (hplace : PlaceOk t.space.fscb place)
    (pp : PhysPage) (hout : t.space.hasInPool pp.number = false) :
    Agree ⟨{ t.space.committed place pp.freed with
        cache := Keyed.insert number (Keyed.remove number t.space.cache pp.number) pp.freed },
      t.history ++ [pp.freed]⟩ := by
  have hcache : ∀ n, Keyed.get number (Keyed.insert number (Keyed.remove number t.space.cache pp.number) pp.freed) n =
        if n = pp.number then some pp.freed else Keyed.get number t.space.cache n := by
    intro n
    rw [Keyed.get_insert, Keyed.get_remove]
    by_cases hn : n = pp.number
    · rw [if_pos hn, if_pos hn, Option.none_or]
      exact if_pos hn.symm
    · rw [if_neg hn, if_neg hn, if_neg fun heq => hn heq.symm, Option.or_none]
  have hself := (hcache pp.number).trans (if_pos rfl)
  refine h.append hplace ((h.distinct.remove _).insert _) (fun n hn => ?_) (fun hpool => ?_) ?_ nofun
  · exact (hcache n).trans (if_neg hn)
  · rw [hasInPool] at hpool
    have hpool := (congrArg (Option.any inPool) hself).symm.trans hpool
    contradiction
  · intro c w hc hcPool hw hwPool
    cases hself.symm.trans hc
    rcases (hplace.onFlash_appended pp.freed pp.number).1 with hkept | ⟨-, hwins⟩
    · -- what was there says that the page is in use
      rw [h.out_of_pool _ w hout (hkept.symm.trans hw)] at hwPool
      contradiction
    · cases hwins.symm.trans hw
      exact le_rfl

end

theorem Agree.step {t t' : Traced} {e : Event} (h : Agree t) (hallowed : t.allows e = true)
    (hstep : t.step e = some t') : Agree t' := by
  cases e with
  | alloc drawLog draw =>
    rw [Traced.step] at hstep
    rcases tryFastSpaceAlloc_cases t.space drawLog draw with ⟨-, hnone⟩ | ⟨place, c, hsearch, hc, hsome⟩
    · rw [hnone] at hstep
      cases hstep
      exact ⟨h.distinct, fun _ hplace => searchLog_ok (s := t.space) hplace h.place_ok, h.out_of_pool, h.in_pool, h.used⟩
    · rw [hsome] at hstep
      cases hstep
      exact h.alloc (searchLog_ok hsearch h.place_ok) hc
  | free drawLog pp =>
    rw [Traced.step] at hstep
    rcases fastSpaceFree_cases t.space drawLog pp with ⟨-, hpanic⟩ | ⟨place, hsearch, hok⟩
    · rw [hpanic] at hstep
      contradiction
    · rw [hok] at hstep
      cases hstep
      exact h.free (searchLog_ok hsearch h.place_ok) pp (by simpa [Traced.allows] using hallowed)
  | reread draw =>
    cases hstep
    exact h.reread draw

/-- From a new record, after every sequence of allocations, frees of pages that are not in the pool
and losses of power: no page whose latest logged state is that it is in use can be allocated from
the pool that is read back. -/
theorem used_pages_stay_used_after_reread (s : Space) (dest : Nat) (pool : List PhysPage) (draw : Nat)
    (events : List Event) (t : Traced)
    (run : Run (fun t e t' => t.allows e = true ∧ t.step e = some t') (.fresh s dest pool draw) events t)
    (draw' : Nat) :
    ∀ pp ∈ (t.space.fastSpaceRead draw').candidates, latest t.history pp.number ≠ some .used := by
  have hagree : Agree t := run.invariant (.fresh s dest pool draw) fun _ _ _ h hstep => h.step hstep.1 hstep.2
  intro pp hpp hlatest
  obtain ⟨hmem, havailable⟩ := List.mem_filter.mp hpp
  have hget : onFlash t.space.fscb pp.number = some pp := (replay_distinct _).get_eq hmem
  have hout := hagree.out_of_pool _ pp (hagree.used _ hlatest) hget
  rw [inPool_of_available havailable] at hout
  contradiction

def emptySpace : Space := ⟨fun _ => .log [], [], none, 0⟩

/-- Draws that keep half of the free pages. -/
def halfDraws (shuffle : Nat → Nat) (journal : Nat) : Draws where
  reservoir _ := 0
  shuffle
  deniable free := free / 2
  deniable_bounds free := by omega
  journals _ := journal
  dest := 0
  log := 0

def samplePage (number : Nat) (journal : Fin 16) (state : SpaceState) : PhysPage :=
  { number, clean := false, valid := true, state, journal }

/-- A page is allocated, given back and, after a loss of power that moves the log to a page further up,
allocated again. -/
def sampleEvents : List Event :=
  [.alloc 9 0, .free 9 (samplePage 7 4 .used), .reread 3, .alloc 3 0]

theorem page_seven_stays_used :
    ∃ t, Run (fun t e t' => Traced.allows t e = true ∧ Traced.step t e = some t')
        (Traced.fresh emptySpace 0 [samplePage 7 3 .free] 9) sampleEvents t ∧ latest t.history 7 = some .used ∧
      ∀ pp ∈ (t.space.fastSpaceRead 0).candidates, latest t.history pp.number ≠ some .used := by
  have hrun : ((sampleEvents.foldlM (fun t e => if Traced.allows t e then t.step e else none)
      (Traced.fresh emptySpace 0 [samplePage 7 3 .free] 9)).map fun t => latest t.history 7) = some (some .used) := rfl
  obtain ⟨t, ht, hlatest⟩ := Option.map_eq_some_iff.mp hrun
  have run : Run (fun t e t' => Traced.allows t e = true ∧ Traced.step t e = some t')
      (Traced.fresh emptySpace 0 [samplePage 7 3 .free] 9) sampleEvents t :=
    .of_foldlM (fun t e t' h => by simpa using h) ht
  exact ⟨t, run, hlatest, used_pages_stay_used_after_reread emptySpace 0 [samplePage 7 3 .free] 9 sampleEvents t
    run 0⟩

end BaochipXous.FastSpace
