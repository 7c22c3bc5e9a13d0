import BaochipXous.KernelMemory

/-!
The runtime page tracker of a kernel with swap: for each page of main memory its owner, its virtual
address and the time of its last use, from a 32-bit epoch. When it is used up all times are
renumbered, pass after pass by a strictly increasing map, so the entries stay in their order of use.
-/

namespace BaochipXous.Kernel.Swap

open Prog

section

def renormPassSize : Nat := 64

def u32Max : Nat := 2 ^ 32 - 1

/-- The smallest distinct values seen so far, in order, filled up with `u32::MAX`. -/
structure MinSet where
  set : List Nat

variable (ms : MinSet)

namespace MinSet

def new : MinSet := ⟨List.replicate renormPassSize u32Max⟩

def max : Nat := ms.set.getD (renormPassSize - 1) 0

def insert (item : Nat) : MinSet :=
  if item ∈ ms.set then ms
  else if item < ms.max then
    ⟨(ms.set.set (renormPassSize - 1) item).insertionSort (· ≤ ·)⟩
  else ms

def indexOf (data : Nat) : Option Nat := ms.set.idxOf? data

end MinSet

def swapperPid : PID := ⟨2, by decide, by decide⟩

/-- An entry of the tracker; the parts of the source's word `vpn` stand apart. -/
structure SwapAlloc where
  timestamp : Nat := 0
  /-- The virtual address of the page. -/
  vaddr : Nat := 0
  /-- The page is not to be swapped. -/
  wired : Bool := false
  pid : Option PID := none
  deriving DecidableEq

/-- The tracker, with what the swap state of the kernel counts. -/
structure Tracker where
  ramStart : Nat
  ramSize : Nat
  lastRamPage : Nat
  /-- `MEMORY_ALLOCATIONS`, one entry for each page of main memory. -/
  allocations : Nat → SwapAlloc
  /-- Start and size of the further regions. -/
  extraRegions : List (Nat × Nat) := []
  /-- The owner of each page of the further regions, counted through all of them. -/
  extraAllocations : Nat → Option PID := fun _ => none
  /-- Start and length of the peripheral memory of the platform. -/
  peripheralRam : Nat × Nat := (0, 0)
  epoch : Nat
  usedPages : Nat
  /-- Where the handler of the swapper starts. -/
  pc : Nat
  swapperState : Nat
  /-- The processes whose slot is not free. -/
  processes : List PID

abbrev TM (α : Type) := Prog Error Tracker α

variable (t : Tracker)

namespace Tracker

def pageCount : Nat := t.ramSize / pageSize

def setEntry (i : Nat) (f : SwapAlloc → SwapAlloc) : Tracker :=
  { t with allocations := Function.update t.allocations i (f (t.allocations i)) }

end Tracker

/-- The set of the smallest timestamps from the limit on. -/
def minSetFrom (limit : Nat) (timestamps : List Nat) : MinSet :=
  (timestamps.filter (limit ≤ ·)).foldl MinSet.insert .new

def MinSet.renumber (limit timestamp : Nat) : Nat :=
  match ms.indexOf timestamp with
  | some i => wadd i limit
  | none => timestamp

/-- The loop of `renormalize_allocs`; it ends within the given number of passes or not at all. -/
def renormalizeLoop : Nat → Nat → List Nat → Option (List Nat)
  | 0, _, _ => none
  | fuel + 1, minSearchLimit, timestamps =>
    let ms := minSetFrom minSearchLimit timestamps
    let timestamps := timestamps.map (ms.renumber minSearchLimit)
    if ms.max = u32Max then some timestamps
    else renormalizeLoop fuel (wadd minSearchLimit renormPassSize) timestamps

/-- Renumber the timestamps of all pages, and return the greatest one. -/
def renormalizeAllocs : TM Nat := do
  let t ← get
  match renormalizeLoop (t.pageCount + 1) 0
      ((List.range t.pageCount).map fun i => (t.allocations i).timestamp) with
  | none => halt
  | some timestamps => do
    modify fun t => { t with allocations := fun i =>
      { t.allocations i with timestamp := timestamps.getD i (t.allocations i).timestamp } }
    match timestamps.max? with
    | some last => pure last
    | none => halt

def nextEpoch : TM Nat := do
  let epoch ← gets Tracker.epoch
  if epoch < u32Max - 1 then
    modify fun t => { t with epoch := epoch + 1 }
    pure (epoch + 1)
  else
    let last ← renormalizeAllocs
    modify fun t => { t with epoch := wadd last 1 }
    pure (wadd last 1)

def trackAlloc (isAlloc : Bool) : TM Unit :=
  modify fun t => { t with
    usedPages := if isAlloc then saturatingAdd t.usedPages 1 else t.usedPages - 1 }

def touchEntry (i : Nat) : TM Unit := do
  let epoch ← nextEpoch
  modify (Tracker.setEntry · i fun e => { e with timestamp := epoch })

/-- The owner and the address that an update writes. -/
def SwapAlloc.assign (e : SwapAlloc) : Option PID → Option Nat → SwapAlloc
  -- the pages of the swapper are always wired, and a wired page stays wired
  | some pid, some va =>
    { e with vaddr := va - va % pageSize, pid := some pid,
             wired := e.wired || decide (pid = swapperPid) }
  | some pid, none => { e with vaddr := 0, pid := some pid, wired := true }
  | none, _ => { e with vaddr := 0, pid := none, wired := false }

def updateEntry (i : Nat) (pid : Option PID) (vaddr : Option Nat) : TM Unit := do
  let epoch ← nextEpoch
  modify (Tracker.setEntry · i fun e => { e with timestamp := epoch })
  trackAlloc pid.isSome
  modify (Tracker.setEntry · i fun e => e.assign pid vaddr)

def reparentEntry (i : Nat) (pid : PID) : TM Unit := do
  let epoch ← nextEpoch
  modify (Tracker.setEntry · i fun e => { e with timestamp := epoch, pid := some pid })

def setWired (i : Nat) : TM Unit := modify (Tracker.setEntry · i fun e => { e with wired := true })

namespace Tracker

def isMainMemory (phys : Nat) : Bool :=
  decide (t.ramStart ≤ phys ∧ phys < t.ramStart + t.ramSize)

def offset (phys : Nat) : Nat := (phys - t.ramStart) / pageSize

def address (i : Nat) : Nat := i * pageSize + t.ramStart

def ownerOf (phys : Nat) : Option PID := (t.allocations (t.offset phys)).pid

/-- The action is for a page that another process owns, and is not its move from that process. -/
def foreign (phys : Nat) (pid : PID) (action : ClaimReleaseMove) : Bool :=
  match t.ownerOf phys with
  | none => false
  | some currentPid => decide (currentPid ≠ pid) && decide (action ≠ .move currentPid)

end Tracker

def touch (paddr : Nat) : TM Unit := do
  let t ← get
  if t.isMainMemory paddr then
    assert (t.offset paddr < t.pageCount)
    touchEntry (t.offset paddr)
  else pure ()

variable (pid : PID)

def actionInnerTracking (action : ClaimReleaseMove) (addr : Nat) : TM Unit := do
  let t ← get
  let i := t.offset addr
  assert (i < t.pageCount)
  if t.foreign addr pid action then fail .memoryInUse
  else
    match action with
    | .claim =>
      if (t.ownerOf addr).isNone then updateEntry i (some pid) (some addr)
      -- a page is not claimed twice by one process either
      else fail .memoryInUse
    | .move _ => updateEntry i (some pid) (some addr)
    | .release => updateEntry i none none

def claimReleaseMove (addr : Nat) (pid : PID) (action : ClaimReleaseMove) : TM Unit := do
  if addr % pageSize ≠ 0 then fail .badAlignment
  else
    let t ← get
    if t.isMainMemory addr then actionInnerTracking pid action addr
    else
      match extraOffset addr 0 t.extraRegions with
      | none => fail .badAddress
      | some offset => do
        let owner ← ofExcept (action.newOwner (t.extraAllocations offset) pid
          (!decide (t.peripheralRam.1 ≤ offset ∧ offset < t.peripheralRam.1 + t.peripheralRam.2)))
        modify fun t => { t with
          extraAllocations := Function.update t.extraAllocations offset owner }

/-- `alloc_page_oomable` returns only with a page: without a free one it calls the swapper, whose
evictions are calls of their own. -/
def allocPageOomable (vaddr : Option Nat) : TM Nat := do
  let t ← get
  let endPoint := t.pageCount
  let startingPoint := max t.lastRamPage endPoint
  assert (startingPoint ≤ endPoint)
  match (List.range startingPoint).find? fun i => (t.allocations i).pid.isNone with
  | some i => do
    updateEntry i (some pid) vaddr
    modify fun t => { t with lastRamPage := i + 1 }
    pure (t.address i)
  | none => halt

/-- The pages of a process that ends become free, or go to the kernel while lent, which is asked of
the page tables by the physical address. -/
def releaseAllMemoryForProcess (pageIsLent : Nat → Bool) : TM Unit := do
  let t ← get
  forEach (List.range t.pageCount) fun i => do
    let owner ← gets fun t => (t.allocations i).pid
    if owner = some pid then
      if pageIsLent (t.address i) then reparentEntry i pid1
      else updateEntry i none none
    else pure ()
  forEach (List.range (t.extraRegions.map fun region => region.2 / pageSize).sum) fun i => do
    let owner ← gets fun t => t.extraAllocations i
    if owner = some pid then
      match extraAddress i t.extraRegions with
      | none => halt
      | some phys =>
        modify fun t => { t with
          extraAllocations := Function.update t.extraAllocations i
            (if pageIsLent phys then some pid1 else none) }
    else pure ()

def Tracker.ramUsedBy : Nat :=
  (List.range t.pageCount).countP (fun i => decide ((t.allocations i).pid = some pid)) * pageSize

def registerHandler (handler state : Nat) : TM Unit := do
  modify fun t => { t with
    usedPages := (t.processes.map t.ramUsedBy).sum % 2 ^ 32 / pageSize }
  let t ← get
  if t.pc = 0 ∧ t.swapperState = 0 then
    modify fun t => { t with pc := handler, swapperState := state }
  else fail .accessDenied

/-- The number of free pages and of all pages, as the system call reports them. -/
def Tracker.getFreeMem : Nat × Nat := (wsub t.pageCount t.usedPages, t.pageCount)

end

namespace MinSet

/-- The set holds the smallest of the values seen. -/
structure Holds (ms : MinSet) (seen : List Nat) : Prop where
  length : ms.set.length = renormPassSize
  sorted : ms.set.Pairwise (· ≤ ·)
  distinct : ∀ v < u32Max, ms.set.count v ≤ 1
  sound : ∀ v ∈ ms.set, v = u32Max ∨ v ∈ seen
  complete : ∀ v ∈ seen, v ∈ ms.set ∨ ms.max ≤ v

variable {ms : MinSet} {seen : List Nat} {v w item : Nat}

theorem Holds.new : Holds new [] where
  length := List.length_replicate
  sorted := by
    apply List.pairwise_replicate.mpr
    exact Or.inr le_rfl
  distinct := by
    intro v hv
    simp [MinSet.new, List.count_replicate, hv.ne']
  sound := fun v hv => Or.inl (List.eq_of_mem_replicate hv)
  complete := by simp

section

variable (h : ms.Holds seen)

include h

theorem Holds.eq_append_max : ms.set = ms.set.dropLast ++ [ms.max] := by
  have hne : ms.set ≠ [] := by
    intro hnil
    have hlen := h.length
    simp [hnil, renormPassSize] at hlen
  have hmax : ms.max = ms.set.getLast hne := by
    rw [max, List.getLast_eq_getElem, List.getD_eq_getElem?_getD, List.getElem?_eq_getElem]
    · simp [h.length]
    · rw [h.length]
      decide
  rw [hmax, List.dropLast_append_getLast]

theorem Holds.le_max (hv : v ∈ ms.set) : v ≤ ms.max := by
  have hsorted := h.sorted
  rw [h.eq_append_max] at hsorted hv
  rcases List.mem_append.mp hv with hv | hv
  · exact (List.pairwise_append.mp hsorted).2.2 v hv ms.max (by simp)
  · simp_all

theorem Holds.max_mem : ms.max ∈ ms.set := by
  rw [h.eq_append_max]
  simp

theorem Holds.insert_perm (item : Nat) :
    ((ms.set.set (renormPassSize - 1) item).insertionSort (· ≤ ·)).Perm (item :: ms.set.dropLast) := by
  have hlen : ms.set.dropLast.length = renormPassSize - 1 := by simp [h.length]
  have hset : ms.set.set (renormPassSize - 1) item = ms.set.dropLast ++ [item] := by
    conv_lhs => rw [h.eq_append_max]
    rw [List.set_append_right _ _ hlen.le, hlen, Nat.sub_self]
    rfl
  rw [hset]
  exact (List.perm_insertionSort _ _).trans (List.perm_append_singleton item _)

/-- A value that is there already or too large is passed over. -/
theorem Holds.skip {item : Nat} (hitem : item ∈ ms.set ∨ ms.max ≤ item) : ms.Holds (item :: seen) := by
  refine ⟨h.length, h.sorted, h.distinct, fun v hv => (h.sound v hv).imp_right (.tail _), ?_⟩
  intro v hv
  rcases List.mem_cons.mp hv with rfl | hv
  · exact hitem
  · exact h.complete v hv

theorem Holds.insert (item : Nat) : (ms.insert item).Holds (item :: seen) := by
  unfold MinSet.insert
  split
  case isTrue hmem => exact h.skip (.inl hmem)
  case isFalse hmem =>
    split
    case isFalse hlarge => exact h.skip (.inr (Nat.le_of_not_lt hlarge))
    case isTrue hsmall =>
      have hperm := h.insert_perm item
      generalize hnew : (⟨(ms.set.set (renormPassSize - 1) item).insertionSort (· ≤ ·)⟩ : MinSet) = new
      have hset : new.set = (ms.set.set (renormPassSize - 1) item).insertionSort (· ≤ ·) := by
        rw [← hnew]
      rw [← hset] at hperm
      have hlength : new.set.length = renormPassSize := by
        rw [hperm.length_eq]
        simp [h.length, renormPassSize]
      have hmem' : ∀ v, v ∈ new.set → v = item ∨ v ∈ ms.set := by
        intro v hv
        rcases List.mem_cons.mp (hperm.mem_iff.mp hv) with rfl | hv
        · exact Or.inl rfl
        · exact Or.inr (List.dropLast_subset _ hv)
      -- the greatest value is one of the old ones or the new one, which is smaller
      have hmax : new.max ≤ ms.max := by
        have hlast : new.max ∈ new.set := by
          have hlt : renormPassSize - 1 < new.set.length := by
            rw [hlength]
            decide
          rw [max, List.getD_eq_getElem?_getD, List.getElem?_eq_getElem hlt]
          exact List.getElem_mem hlt
        rcases hmem' _ hlast with heq | hold
        · rw [heq]
          exact hsmall.le
        · exact h.le_max hold
      refine ⟨hlength, ?_, ?_, ?_, ?_⟩
      · rw [hset]
        exact List.pairwise_insertionSort _ _
      · intro v hv
        rw [hperm.count_eq, List.count_cons]
        have hold : ms.set.dropLast.count v ≤ ms.set.count v := (List.dropLast_sublist _).count_le _
        by_cases heq : item = v
        · have hzero : ms.set.count v = 0 := List.count_eq_zero.mpr (heq ▸ hmem)
          simp only [heq, beq_self_eq_true, ↓reduceIte]
          omega
        · have hone := h.distinct v hv
          simp only [beq_iff_eq, heq, ↓reduceIte]
          omega
      · intro v hv
        rcases hmem' v hv with rfl | hv
        · exact Or.inr List.mem_cons_self
        · exact (h.sound v hv).imp_right (.tail _)
      · intro v hv
        rcases List.mem_cons.mp hv with rfl | hv
        · exact Or.inl (hperm.mem_iff.mpr List.mem_cons_self)
        · rcases h.complete v hv with hv | hv
          · rw [h.eq_append_max] at hv
            rcases List.mem_append.mp hv with hv | hv
            · exact Or.inl (hperm.mem_iff.mpr (.tail _ hv))
            · rw [List.mem_singleton] at hv
              exact Or.inr (hv ▸ hmax)
          · exact Or.inr (hmax.trans hv)

theorem Holds.foldl (items : List Nat) : (items.foldl MinSet.insert ms).Holds (items.reverse ++ seen) := by
  induction items generalizing ms seen with
  | nil => exact h
  | cons item items ih =>
    rw [List.foldl_cons, List.reverse_cons, List.append_assoc]
    exact ih (h.insert item)

theorem Holds.idxOf_lt (hv : v ∈ ms.set) : ms.set.idxOf v < renormPassSize :=
  h.length ▸ List.idxOf_lt_length_of_mem hv

theorem Holds.idxOf_lt_idxOf (hv : v ∈ ms.set) (hw : w ∈ ms.set) (hlt : v < w) : ms.set.idxOf v < ms.set.idxOf w := by
  by_contra hle
  rw [Nat.not_lt] at hle
  have hvlen := List.idxOf_lt_length_of_mem hv
  have hwlen := List.idxOf_lt_length_of_mem hw
  have hmono : ms.set[ms.set.idxOf w] ≤ ms.set[ms.set.idxOf v] := by
    rcases hle.lt_or_eq with hlt | heq
    · exact List.pairwise_iff_getElem.mp h.sorted _ _ _ _ hlt
    · simp only [heq, le_refl]
  rw [List.getElem_idxOf, List.getElem_idxOf] at hmono
  omega

theorem Holds.idxOf_getElem {i : Nat} (hi : i < ms.set.length)
    (hlt : ms.set[i] < u32Max) : ms.set.idxOf ms.set[i] = i := by
  have hle : ms.set.idxOf ms.set[i] ≤ i := by
    by_contra hgt
    simpa using List.not_of_lt_findIdx (Nat.not_le.mp hgt)
  by_contra hne
  have hfirst := List.idxOf_lt_length_of_mem (List.getElem_mem hi)
  have htwice : ms.set.Duplicate ms.set[i] := by
    rw [List.duplicate_iff_exists_distinct_get]
    exact ⟨⟨_, hfirst⟩, ⟨i, hi⟩, by simp; omega, by simp, rfl⟩
  have := List.duplicate_iff_two_le_count.mp htwice
  have := h.distinct _ hlt
  omega

theorem Holds.le_max_of_full (limit : Nat) (hfull : ms.max < u32Max)
    (hlow : ∀ v ∈ seen, limit ≤ v) : limit + renormPassSize ≤ ms.max + 1 := by
  have hnodup : ms.set.Nodup := by
    rw [List.nodup_iff_count_le_one]
    intro v
    by_cases hv : v < u32Max
    · exact h.distinct v hv
    · rw [List.count_eq_zero.mpr]
      · exact Nat.zero_le 1
      · intro hmem
        exact hv ((h.le_max hmem).trans_lt hfull)
  have hrange : ms.set.toFinset ⊆ Finset.Icc limit ms.max := by
    intro v hv
    rw [List.mem_toFinset] at hv
    have hle := h.le_max hv
    rcases h.sound v hv with hmax | hseen
    · omega
    · exact Finset.mem_Icc.mpr ⟨hlow v hseen, hle⟩
  have hcard := Finset.card_le_card hrange
  rw [List.toFinset_card_of_nodup hnodup, h.length, Nat.card_Icc] at hcard
  have hpos : 0 < renormPassSize := by decide
  omega

end

end MinSet

theorem countP_lt_countP {α : Type} {p q : α → Bool} {l : List α} (a : α) (ha : a ∈ l)
    (hq : q a = true) (hp : p a = false) (hpq : ∀ x ∈ l, p x = true → q x = true) :
    l.countP p < l.countP q := by
  obtain ⟨front, rest, rfl⟩ := List.append_of_mem ha
  have hfront : front.countP p ≤ front.countP q :=
    List.countP_mono_left fun x hx => hpq x (List.mem_append_left _ hx)
  have hrest : rest.countP p ≤ rest.countP q :=
    List.countP_mono_left fun x hx => hpq x (List.mem_append_right _ (.tail _ hx))
  simp only [List.countP_append, List.countP_cons, hp, hq, Bool.false_eq_true, ↓reduceIte]
  omega

section Pass

theorem minSetFrom_holds (limit : Nat) (timestamps : List Nat) :
    (minSetFrom limit timestamps).Holds (timestamps.filter (limit ≤ ·)).reverse := by
  have h := MinSet.Holds.new.foldl (timestamps.filter (limit ≤ ·))
  rwa [List.append_nil] at h

theorem renumber_of_notMem {ms : MinSet} {limit v : Nat} (hv : v ∉ ms.set) : ms.renumber limit v = v := by
  simp only [MinSet.renumber, MinSet.indexOf, List.idxOf?_eq_none_iff.mpr hv]

variable {limit v w : Nat} {timestamps : List Nat} {ms : MinSet}
  (h : ms.Holds (timestamps.filter (limit ≤ ·)).reverse)

include h

theorem mem_minSetFrom (hv : v ∈ timestamps) (hlimit : limit ≤ v) : v ∈ ms.set ∨ ms.max ≤ v := by
  apply h.complete
  simp [hv, hlimit]

theorem of_mem_minSetFrom (hv : v ∈ ms.set) (hlt : v < u32Max) : v ∈ timestamps ∧ limit ≤ v := by
  rcases h.sound v hv with hmax | hseen
  · omega
  · simpa using hseen

theorem max_minSetFrom_mem (hmore : ms.max ≠ u32Max) : ms.max ∈ timestamps ∧ limit ≤ ms.max := by
  rcases h.sound _ h.max_mem with heq | hseen
  · exact absurd heq hmore
  · simpa using hseen

theorem renumber_of_mem (hroom : limit + renormPassSize ≤ 2 ^ 32) (hv : v ∈ ms.set) :
    ms.renumber limit v = limit + ms.set.idxOf v := by
  have hidx := h.idxOf_lt hv
  have hsome : ms.indexOf v = some (ms.set.idxOf v) := by
    rw [MinSet.indexOf]
    cases hfound : ms.set.idxOf? v with
    | none => exact absurd hv (List.idxOf?_eq_none_iff.mp hfound)
    | some i => rw [List.idxOf_eq_getD_idxOf?, hfound, Option.getD_some]
  simp only [MinSet.renumber, hsome, wadd]
  rw [Nat.mod_eq_of_lt (by omega), Nat.add_comm]

/-- The values of the set become the numbers from the limit on, without a gap. -/
theorem mem_map_renumber (hroom : limit + renormPassSize ≤ 2 ^ 32) {i : Nat} (hi : i < ms.set.length)
    (hlt : ms.set[i] < u32Max) : limit + i ∈ timestamps.map (ms.renumber limit) := by
  refine List.mem_map.mpr ⟨_, (of_mem_minSetFrom h (List.getElem_mem hi) hlt).1, ?_⟩
  rw [renumber_of_mem h hroom (List.getElem_mem hi), h.idxOf_getElem hi hlt]

variable (hbound : ∀ v ∈ timestamps, v < u32Max) (hroom : limit + renormPassSize ≤ 2 ^ 32)

include hbound

theorem le_of_notMem_minSetFrom (hv : v ∈ timestamps) (hlimit : limit ≤ v)
    (hout : v ∉ ms.set) : limit + renormPassSize ≤ v := by
  have hmax : ms.max ≤ v := (mem_minSetFrom h hv hlimit).resolve_left hout
  have hne : ms.max ≠ v := fun heq => hout (heq ▸ h.max_mem)
  have hlt := hbound v hv
  have hfull := h.le_max_of_full limit (by omega) (by simp)
  omega

theorem mem_map_renumber_of_lt (hdense : ∀ n < limit, n ∈ timestamps) {n : Nat} (hn : n < limit) :
    n ∈ timestamps.map (ms.renumber limit) := by
  have hmem := hdense n hn
  refine List.mem_map.mpr ⟨n, hmem, renumber_of_notMem fun hset => ?_⟩
  have := (of_mem_minSetFrom h hset (hbound n hmem)).2
  omega

include hroom

theorem renumber_lt_renumber (hv : v ∈ timestamps) (hw : w ∈ timestamps) (hlt : v < w) :
    ms.renumber limit v < ms.renumber limit w := by
  by_cases hvs : v ∈ ms.set
  · have hlimit := (of_mem_minSetFrom h hvs (hbound v hv)).2
    rw [renumber_of_mem h hroom hvs]
    by_cases hws : w ∈ ms.set
    · rw [renumber_of_mem h hroom hws]
      have := h.idxOf_lt_idxOf hvs hws hlt
      omega
    · rw [renumber_of_notMem hws]
      have := le_of_notMem_minSetFrom h hbound hw (by omega) hws
      have := h.idxOf_lt hvs
      omega
  · rw [renumber_of_notMem hvs]
    by_cases hws : w ∈ ms.set
    · rw [renumber_of_mem h hroom hws]
      -- a value below a member of the set and outside it lies below the limit
      have hbelow : v < limit := by
        by_contra hlimit
        have := (mem_minSetFrom h hv (Nat.not_lt.mp hlimit)).resolve_left hvs
        have := h.le_max hws
        omega
      omega
    · rwa [renumber_of_notMem hws]

theorem renumber_lt_u32Max (hroom' : limit + renormPassSize ≤ u32Max) (hv : v ∈ timestamps) :
    ms.renumber limit v < u32Max := by
  by_cases hvs : v ∈ ms.set
  · rw [renumber_of_mem h hroom hvs]
    have := h.idxOf_lt hvs
    omega
  · rw [renumber_of_notMem hvs]
    exact hbound v hv

/-- The last pass leaves no gap below any timestamp. -/
theorem dense_of_last (hlast : ms.max = u32Max) (hdense : ∀ n < limit, n ∈ timestamps) {n : Nat}
    (hv : v ∈ timestamps.map (ms.renumber limit)) (hn : n < v) :
    n ∈ timestamps.map (ms.renumber limit) := by
  obtain ⟨u, hu, rfl⟩ := List.mem_map.mp hv
  have hlt := hbound u hu
  rcases Nat.lt_or_ge n limit with hbelow | hfrom
  · exact mem_map_renumber_of_lt h hbound hdense hbelow
  · have hset : u ∈ ms.set := by
      by_contra hout
      rw [renumber_of_notMem hout] at hn
      have := (mem_minSetFrom h hu (by omega : limit ≤ u)).resolve_left hout
      omega
    rw [renumber_of_mem h hroom hset] at hn
    have hidx := List.idxOf_lt_length_of_mem hset
    have hle : ms.set[n - limit] ≤ u := by
      have := List.pairwise_iff_getElem.mp h.sorted (n - limit) _ (by omega) hidx (by omega)
      rwa [List.getElem_idxOf] at this
    have := mem_map_renumber h hroom (by omega : n - limit < _) (hle.trans_lt hlt)
    rwa [Nat.add_sub_of_le hfrom] at this

/-- A pass whose set is full leaves no gap below the next limit. -/
theorem dense_of_more (hmore : ms.max ≠ u32Max)
    (hdense : ∀ n < limit, n ∈ timestamps) {n : Nat} (hn : n < limit + renormPassSize) :
    n ∈ timestamps.map (ms.renumber limit) := by
  rcases Nat.lt_or_ge n limit with hbelow | hfrom
  · exact mem_map_renumber_of_lt h hbound hdense hbelow
  · have hidx : n - limit < ms.set.length := by
      rw [h.length]
      omega
    have hlt := (h.le_max (List.getElem_mem hidx)).trans_lt (hbound _ (max_minSetFrom_mem h hmore).1)
    have := mem_map_renumber h hroom hidx hlt
    rwa [Nat.add_sub_of_le hfrom] at this

theorem countP_renumber_lt (hmore : ms.max ≠ u32Max) :
    (timestamps.map (ms.renumber limit)).countP (limit + renormPassSize ≤ ·) < timestamps.countP (limit ≤ ·) := by
  rw [List.countP_map]
  -- the greatest value of the set is a timestamp from the limit on, and goes below the next limit
  have hmem := h.max_mem
  obtain ⟨hmax, hlimit⟩ := max_minSetFrom_mem h hmore
  apply countP_lt_countP _ hmax
  · simpa using hlimit
  · have := h.idxOf_lt hmem
    simp only [Function.comp_apply, renumber_of_mem h hroom hmem, decide_eq_false_iff_not]
    omega
  · intro v hv hnext
    simp only [Function.comp_apply, decide_eq_true_eq] at hnext ⊢
    by_cases hvs : v ∈ ms.set
    · exact (of_mem_minSetFrom h hvs (hbound v hv)).2
    · rw [renumber_of_notMem hvs] at hnext
      omega

end Pass

/-- The second list is the first one, renamed by a strictly increasing map. -/
def Renamed (old new : List Nat) : Prop :=
  ∃ rename : Nat → Nat, (∀ v ∈ old, ∀ w ∈ old, v < w → rename v < rename w) ∧ new = old.map rename

theorem Renamed.trans {a b c : List Nat} (hab : Renamed a b) (hbc : Renamed b c) : Renamed a c := by
  obtain ⟨f, hf, rfl⟩ := hab
  obtain ⟨g, hg, rfl⟩ := hbc
  refine ⟨g ∘ f, ?_, by simp⟩
  intro v hv w hw hlt
  exact hg _ (List.mem_map_of_mem hv) _ (List.mem_map_of_mem hw) (hf v hv w hw hlt)

theorem renormalizeLoop_spec (fuel limit : Nat) (timestamps : List Nat)
    (hbound : ∀ v ∈ timestamps, v < u32Max) (hfuel : timestamps.countP (limit ≤ ·) < fuel)
    (hroom : limit + renormPassSize ≤ 2 ^ 32) (hpasses : renormPassSize ∣ limit)
    (hdense : ∀ n < limit, n ∈ timestamps) :
    ∃ new, renormalizeLoop fuel limit timestamps = some new ∧ Renamed timestamps new ∧ ∀ v ∈ new, ∀ n < v, n ∈ new := by
  induction fuel generalizing limit timestamps with
  | zero => omega
  | succ fuel ih =>
    have hholds := minSetFrom_holds limit timestamps
    have hpass : Renamed timestamps (timestamps.map ((minSetFrom limit timestamps).renumber limit)) :=
      ⟨_, fun v hv w hw => renumber_lt_renumber hholds hbound hroom hv hw, rfl⟩
    unfold renormalizeLoop
    by_cases hlast : (minSetFrom limit timestamps).max = u32Max
    · exact ⟨_, if_pos hlast, hpass, fun v hv n => dense_of_last hholds hbound hroom hlast hdense hv⟩
    · -- a full set holds as many timestamps from the limit on, so the limit stays below the sentinel
      have hfull : limit + renormPassSize ≤ u32Max := by
        have hmax := hbound _ (max_minSetFrom_mem hholds hlast).1
        have := hholds.le_max_of_full limit hmax (by simp)
        omega
      have hnext : wadd limit renormPassSize = limit + renormPassSize :=
        Nat.mod_eq_of_lt (hfull.trans_lt (by decide))
      have hcount := countP_renumber_lt hholds hbound hroom hlast
      obtain ⟨new, hnew, hren, hclosed⟩ := ih (limit + renormPassSize)
        (timestamps.map ((minSetFrom limit timestamps).renumber limit))
        (by
          intro v hv
          obtain ⟨u, hu, rfl⟩ := List.mem_map.mp hv
          exact renumber_lt_u32Max hholds hbound hroom hfull hu)
        (by omega)
        (by
          obtain ⟨k, rfl⟩ := hpasses
          simp only [renormPassSize, u32Max] at hfull ⊢
          omega)
        (Dvd.dvd.add hpasses dvd_rfl)
        (fun n => dense_of_more hholds hbound hroom hlast hdense)
      refine ⟨new, ?_, hpass.trans hren, hclosed⟩
      simp only [if_neg hlast, hnext]
      exact hnew

/-- The number of distinct timestamps below the given one. -/
def rank (timestamps : List Nat) (v : Nat) : Nat := (timestamps.toFinset.filter (· < v)).card

theorem rank_lt_rank {timestamps : List Nat} {v w : Nat} (hv : v ∈ timestamps) :
    rank timestamps v < rank timestamps w ↔ v < w := by
  constructor
  · intro hlt
    by_contra hle
    refine (Finset.card_le_card ?_).not_gt hlt
    exact Finset.monotone_filter_right _ fun u _ hu => lt_of_lt_of_le hu (Nat.not_lt.mp hle)
  · intro hlt
    apply Finset.card_lt_card
    refine Finset.ssubset_iff_of_subset ?_ |>.mpr ⟨v, by simp [hv, hlt], by simp⟩
    exact Finset.monotone_filter_right _ fun u _ hu => lt_trans hu hlt

theorem rank_lt_length {timestamps : List Nat} {v : Nat} (hv : v ∈ timestamps) :
    rank timestamps v < timestamps.length := by
  refine lt_of_lt_of_le (Finset.card_lt_card ?_) (List.toFinset_card_le timestamps)
  exact Finset.filter_ssubset.mpr ⟨v, List.mem_toFinset.mpr hv, lt_irrefl v⟩

/-- An increasing renaming without a gap is the one by ranks. -/
theorem Renamed.eq_map_rank {old new : List Nat} (h : Renamed old new)
    (hclosed : ∀ v ∈ new, ∀ n < v, n ∈ new) : new = old.map (rank old) := by
  obtain ⟨rename, hmono, rfl⟩ := h
  apply List.map_congr_left
  intro v hv
  have himage : (old.toFinset.filter (· < v)).image rename = Finset.range (rename v) := by
    ext n
    simp only [Finset.mem_image, Finset.mem_filter, List.mem_toFinset, Finset.mem_range]
    constructor
    · rintro ⟨u, ⟨hu, hlt⟩, rfl⟩
      exact hmono u hu v hv hlt
    · intro hn
      obtain ⟨u, hu, rfl⟩ := List.mem_map.mp (hclosed _ (List.mem_map_of_mem hv) n hn)
      refine ⟨u, ⟨hu, ?_⟩, rfl⟩
      by_contra hle
      rcases (Nat.not_lt.mp hle).lt_or_eq with hlt | rfl
      · exact lt_asymm hn (hmono v hv u hu hlt)
      · exact lt_irrefl _ hn
  rw [rank, ← Finset.card_range (rename v), ← himage, Finset.card_image_of_injOn]
  intro a ha b hb heq
  simp only [Finset.coe_filter, List.mem_toFinset, Set.mem_ofPred_eq] at ha hb
  rcases Nat.lt_trichotomy a b with hlt | hab | hlt
  · exact absurd heq (hmono a ha.1 b hb.1 hlt).ne
  · exact hab
  · exact absurd heq (hmono b hb.1 a ha.1 hlt).ne'

theorem renormalizeLoop_eq (timestamps : List Nat) (hbound : ∀ v ∈ timestamps, v < u32Max) :
    renormalizeLoop (timestamps.length + 1) 0 timestamps = some (timestamps.map (rank timestamps)) := by
  obtain ⟨new, hloop, hrenamed, hclosed⟩ := renormalizeLoop_spec (timestamps.length + 1) 0 timestamps
    hbound (Nat.lt_succ_of_le List.countP_le_length) (by decide) (dvd_zero _) (by simp)
  rw [hloop, hrenamed.eq_map_rank hclosed]

example : renormalizeLoop 5 0 [7, 5, 4294967294, 7] = some [1, 0, 2, 1] := rfl

variable (t : Tracker)

namespace Tracker

def timestamp (t : Tracker) (i : Nat) : Nat := (t.allocations i).timestamp

/-- The timestamps of all pages. -/
def timestamps : List Nat := (List.range t.pageCount).map t.timestamp

/-- Each page's timestamp by its rank; past the last page nothing changes. -/
def ranks (i : Nat) : Nat :=
  if i < t.pageCount then rank t.timestamps (t.timestamp i) else t.timestamp i

theorem mem_timestamps {t : Tracker} {i : Nat} (hi : i < t.pageCount) :
    t.timestamp i ∈ t.timestamps := List.mem_map_of_mem (List.mem_range.mpr hi)

theorem ranks_lt_ranks {i j : Nat} (hi : i < t.pageCount) (hj : j < t.pageCount) :
    t.ranks i < t.ranks j ↔ t.timestamp i < t.timestamp j := by
  rw [ranks, ranks, if_pos hi, if_pos hj, rank_lt_rank (mem_timestamps hi)]

def retime (epoch : Nat) (timestamps : Nat → Nat) : Tracker :=
  { t with
    epoch := epoch
    allocations := fun i => { t.allocations i with timestamp := timestamps i } }

/-- No timestamp is ahead of the epoch, which stays below the sentinel. -/
structure Bounded : Prop where
  epoch_lt : t.epoch < u32Max
  timestamp_le : ∀ i < t.pageCount, t.timestamp i ≤ t.epoch
  pageCount_le : t.pageCount ≤ 2 ^ 20

end Tracker

/-- What `next_epoch` leaves: a time ahead of all timestamps, whose order is as before. -/
structure NextEpoch (epoch : Nat) (timestamps : Nat → Nat) : Prop where
  epoch_lt : epoch < u32Max
  timestamp_lt : ∀ i < t.pageCount, timestamps i < epoch
  order : ∀ i < t.pageCount, ∀ j < t.pageCount,
    (timestamps i < timestamps j ↔ t.timestamp i < t.timestamp j)

variable {t : Tracker}

theorem renormalizeLoop_timestamps (ht : ∀ i < t.pageCount, t.timestamp i < u32Max) :
    renormalizeLoop (t.pageCount + 1) 0 t.timestamps = some (t.timestamps.map (rank t.timestamps)) := by
  have hlist : ∀ v ∈ t.timestamps, v < u32Max := by
    intro v hv
    obtain ⟨i, hi, rfl⟩ := List.mem_map.mp hv
    exact ht i (List.mem_range.mp hi)
  have hloop := renormalizeLoop_eq t.timestamps hlist
  rwa [Tracker.timestamps, List.length_map, List.length_range] at hloop

theorem renormalizeAllocs_eq (ht : ∀ i < t.pageCount, t.timestamp i < u32Max)
    (hpages : 0 < t.pageCount) : ∃ last, renormalizeAllocs t = .ok last (t.retime t.epoch t.ranks) ∧
      IsGreatest (t.ranks '' Set.Iio t.pageCount) last := by
  have hranks : t.timestamps.map (rank t.timestamps) = (List.range t.pageCount).map t.ranks := by
    rw [Tracker.timestamps, List.map_map]
    exact List.map_congr_left fun i hi => (if_pos (List.mem_range.mp hi)).symm
  have hget : ∀ i, ((List.range t.pageCount).map t.ranks).getD i (t.timestamp i) = t.ranks i := by
    intro i
    by_cases hi : i < t.pageCount <;> simp [hi, Tracker.ranks]
  cases hlast : ((List.range t.pageCount).map t.ranks).max? with
  | none => simp at hlast; omega
  | some last =>
    obtain ⟨hmem, hmax⟩ := List.max?_eq_some_iff.mp hlast
    obtain ⟨i, hi, rfl⟩ := List.mem_map.mp hmem
    refine ⟨t.ranks i, ?_, ⟨i, List.mem_range.mp hi, rfl⟩, ?_⟩
    · have hloop := renormalizeLoop_timestamps ht
      rw [hranks] at hloop
      unfold renormalizeAllocs
      simp only [bind_apply, get_apply]
      rw [show (List.range t.pageCount).map (fun i => (t.allocations i).timestamp) = t.timestamps from rfl, hloop]
      simp only [bind_apply, modify_apply, hlast, pure_apply]
      congr 2
      funext j
      rw [← hget j]
      rfl
    · rintro _ ⟨j, hj, rfl⟩
      exact hmax _ (List.mem_map_of_mem (List.mem_range.mpr hj))

theorem renormalizeAllocs_spec (ht : t.Bounded) (hpages : 0 < t.pageCount) :
    ∃ last timestamps, renormalizeAllocs t = .ok last (t.retime t.epoch timestamps) ∧
      NextEpoch t (last + 1) timestamps := by
  obtain ⟨last, heq, ⟨k, hk, hlast⟩, hmax⟩ := renormalizeAllocs_eq
    (fun i hi => (ht.timestamp_le i hi).trans_lt ht.epoch_lt) hpages
  refine ⟨last, t.ranks, heq, ?_, ?_, fun i hi j hj => t.ranks_lt_ranks hi hj⟩
  · have hcount := ht.pageCount_le
    have hlen := rank_lt_length (Tracker.mem_timestamps hk)
    rw [Tracker.ranks, if_pos (Set.mem_Iio.mp hk)] at hlast
    rw [hlast, Tracker.timestamps, List.length_map, List.length_range] at hlen
    simp only [u32Max]
    omega
  · exact fun i hi => Nat.lt_succ_of_le (hmax ⟨i, hi, rfl⟩)

/-- Renormalization of a table of any length replaces every timestamp by its rank among the distinct
ones, which keeps their order, and returns the greatest rank. -/
theorem renormalizeAllocs_ranks (t : Tracker) (ht : ∀ i < t.pageCount, t.timestamp i < u32Max) :
    renormalizeLoop (t.pageCount + 1) 0 t.timestamps =
        some (t.timestamps.map (rank t.timestamps)) ∧
      (∀ i < t.pageCount, ∀ j < t.pageCount,
        (t.ranks i < t.ranks j ↔ t.timestamp i < t.timestamp j)) ∧
      (0 < t.pageCount → ∃ last, renormalizeAllocs t = .ok last (t.retime t.epoch t.ranks) ∧
        IsGreatest (t.ranks '' Set.Iio t.pageCount) last) :=
  ⟨renormalizeLoop_timestamps ht, fun _ hi _ hj => t.ranks_lt_ranks hi hj, renormalizeAllocs_eq ht⟩

/-- Two pages of main memory that nobody has used. -/
def twoPages : Tracker where
  ramStart := 0x61000000
  ramSize := 0x2000
  lastRamPage := 0
  allocations := fun _ => {}
  epoch := 0
  usedPages := 0
  pc := 0
  swapperState := 0
  processes := [pid1]

theorem sevens_ranks :
    let t := { twoPages with allocations := fun i => { timestamp := 7 * i } }
    t.timestamps = [0, 7] ∧ ∃ last, renormalizeAllocs t = .ok last (t.retime 0 t.ranks) ∧
      IsGreatest (t.ranks '' Set.Iio t.pageCount) last := by
  refine ⟨by decide, (renormalizeAllocs_ranks _ ?_).2.2 (by decide)⟩
  decide

theorem nextEpoch_spec (ht : t.Bounded) (hpages : 0 < t.pageCount) :
    ∃ epoch timestamps, nextEpoch t = .ok epoch (t.retime epoch timestamps) ∧ NextEpoch t epoch timestamps := by
  unfold nextEpoch
  simp only [bind_apply, gets_apply]
  by_cases hroom : t.epoch < u32Max - 1
  · refine ⟨t.epoch + 1, t.timestamp, by rw [if_pos hroom]; rfl, by omega, ?_, fun _ _ _ _ => Iff.rfl⟩
    exact fun i hi => Nat.lt_succ_of_le (ht.timestamp_le i hi)
  · obtain ⟨last, timestamps, hrenorm, hnext⟩ := renormalizeAllocs_spec ht hpages
    have hlast := hnext.epoch_lt
    have hadd : wadd last 1 = last + 1 := Nat.mod_eq_of_lt (by simp only [u32Max] at hlast; omega)
    refine ⟨last + 1, timestamps, ?_, hnext⟩
    simp only [if_neg hroom, bind_apply, hrenorm, modify_apply, pure_apply, hadd]
    rfl

/-- An operation that counts as a use of an entry. -/
inductive EntryOp where
  | touch (i : Nat)
  | update (i : Nat) (pid : Option PID) (vaddr : Option Nat)
  | reparent (i : Nat) (pid : PID)

open EntryOp

variable (ops : List EntryOp)

namespace EntryOp

def index : EntryOp → Nat
  | touch i => i
  | update i _ _ => i
  | reparent i _ => i

def run : EntryOp → TM Unit
  | touch i => touchEntry i
  | update i pid vaddr => updateEntry i pid vaddr
  | reparent i pid => reparentEntry i pid

/-- When an entry was last used, counted from one; zero if it was not. -/
def lastUse (i : Nat) : Nat :=
  ops.length - ops.reverse.findIdx fun op => op.index == i

theorem lastUse_le (i : Nat) : lastUse ops i ≤ ops.length := Nat.sub_le ..

theorem lastUse_append_self (op : EntryOp) :
    lastUse (ops ++ [op]) op.index = ops.length + 1 := by simp [lastUse, List.findIdx_cons]

theorem lastUse_append_of_ne {op : EntryOp} {i : Nat} (hi : i ≠ op.index) :
    lastUse (ops ++ [op]) i = lastUse ops i := by
  have hne : (op.index == i) = false := by simpa using hi.symm
  simp [lastUse, List.findIdx_cons, hne]

/-- What the operation writes into its entry, apart from the time. -/
def entry : EntryOp → SwapAlloc → SwapAlloc
  | touch _, e => e
  | update _ pid vaddr, e => e.assign pid vaddr
  | reparent _ pid, e => { e with pid := some pid }

def used : EntryOp → Nat → Nat
  | update _ pid _, n => if pid.isSome then saturatingAdd n 1 else n - 1
  | touch _, n => n
  | reparent _ _, n => n

def apply (op : EntryOp) (t : Tracker) (epoch : Nat) (timestamps : Nat → Nat) : Tracker :=
  { t with
    epoch := epoch
    usedPages := op.used t.usedPages
    allocations := Function.update (t.retime epoch timestamps).allocations op.index
      { op.entry (t.allocations op.index) with timestamp := epoch } }

variable (op : EntryOp)

@[simp] theorem apply_pageCount (t : Tracker) (epoch : Nat)
    (timestamps : Nat → Nat) : (op.apply t epoch timestamps).pageCount = t.pageCount := rfl

theorem apply_timestamp_self (t : Tracker) (epoch : Nat) (timestamps : Nat → Nat) :
    (op.apply t epoch timestamps).timestamp op.index = epoch := by simp [apply, Tracker.timestamp]

theorem apply_timestamp_of_ne (t : Tracker) (epoch : Nat) (timestamps : Nat → Nat)
    {j : Nat} (hj : j ≠ op.index) : (op.apply t epoch timestamps).timestamp j = timestamps j := by
  simp [apply, Tracker.timestamp, Function.update_of_ne hj, Tracker.retime]

variable {t : Tracker}

theorem run_eq {epoch : Nat} {timestamps : Nat → Nat} (hnext : nextEpoch t = .ok epoch (t.retime epoch timestamps)) :
    op.run t = .ok () (op.apply t epoch timestamps) := by
  cases op with
  | touch i =>
    simp only [run, touchEntry, bind_apply, hnext, modify_apply]
    rfl
  | update i pid vaddr =>
    simp only [run, updateEntry, trackAlloc, bind_apply, hnext, modify_apply]
    cases pid <;> cases vaddr <;> simp [apply, Tracker.setEntry, Tracker.retime, SwapAlloc.assign, entry, used, index]
  | reparent i pid =>
    simp only [run, reparentEntry, bind_apply, hnext, modify_apply]
    rfl

theorem apply_bounded {epoch : Nat} {timestamps : Nat → Nat}
    (ht : t.Bounded) (hnext : NextEpoch t epoch timestamps) : (op.apply t epoch timestamps).Bounded := by
  refine ⟨hnext.epoch_lt, ?_, ht.pageCount_le⟩
  intro i hi
  by_cases heq : i = op.index
  · rw [heq, apply_timestamp_self]
    exact le_rfl
  · rw [apply_timestamp_of_ne _ _ _ _ heq]
    exact (hnext.timestamp_lt i hi).le

end EntryOp

/-- The entries are in the order in which they were last used. -/
def Tracker.InOrderOf (t : Tracker) (ops : List EntryOp) : Prop :=
  ∀ i < t.pageCount, ∀ j < t.pageCount,
    (t.timestamp i < t.timestamp j ↔ lastUse ops i < lastUse ops j)

theorem inOrderOf_apply {ops : List EntryOp} {op : EntryOp} {epoch : Nat}
    {timestamps : Nat → Nat} (horder : t.InOrderOf ops) (hnext : NextEpoch t epoch timestamps) :
    (op.apply t epoch timestamps).InOrderOf (ops ++ [op]) := by
  intro i hi j hj
  rw [apply_pageCount] at hi hj
  by_cases hio : i = op.index
  · by_cases hjo : j = op.index
    · rw [hio, hjo]
      simp
    · have := hnext.timestamp_lt j hj
      have := lastUse_le ops j
      rw [hio, apply_timestamp_self, apply_timestamp_of_ne _ _ _ _ hjo, lastUse_append_self, lastUse_append_of_ne _ hjo]
      omega
  · rw [apply_timestamp_of_ne _ _ _ _ hio, lastUse_append_of_ne _ hio]
    by_cases hjo : j = op.index
    · have := hnext.timestamp_lt i hi
      have := lastUse_le ops i
      rw [hjo, apply_timestamp_self, lastUse_append_self]
      omega
    · rw [apply_timestamp_of_ne _ _ _ _ hjo, lastUse_append_of_ne _ hjo, hnext.order i hi j hj]
      exact horder i hi j hj

theorem run_inOrderOf (done rest : List EntryOp) (ht : t.Bounded)
    (horder : t.InOrderOf done) (hrange : ∀ op ∈ rest, op.index < t.pageCount) :
    ∃ t', forEach rest run t = .ok () t' ∧ t'.pageCount = t.pageCount ∧ t'.InOrderOf (done ++ rest) := by
  induction rest generalizing t done with
  | nil =>
    rw [List.append_nil]
    exact ⟨t, rfl, rfl, horder⟩
  | cons op rest ih =>
    have hi := hrange op List.mem_cons_self
    obtain ⟨epoch, timestamps, hepoch, hnext⟩ := nextEpoch_spec ht (by omega)
    obtain ⟨t', hrest, hcount, horder'⟩ := ih (done ++ [op]) (op.apply_bounded ht hnext)
      (inOrderOf_apply horder hnext) fun op' hop' => hrange op' (.tail _ hop')
    refine ⟨t', ?_, hcount, ?_⟩
    · rwa [forEach, bind_apply, op.run_eq hepoch]
    · rwa [List.append_cons]

/-- The tracker as the loader leaves it: no entry was used, and the size is that of a 32-bit
memory. -/
structure Tracker.Booted (t : Tracker) : Prop where
  epoch : t.epoch = 0
  timestamp : ∀ i, t.timestamp i = 0
  ramSize : t.ramSize < 2 ^ 32

theorem Tracker.Booted.bounded (ht : t.Booted) : t.Bounded := by
  refine ⟨?_, ?_, ?_⟩
  · rw [ht.epoch]
    decide
  · intro i _
    rw [ht.timestamp i]
    exact Nat.zero_le _
  · have := ht.ramSize
    simp only [pageCount, pageSize]
    omega

theorem Tracker.Booted.inOrderOf (ht : t.Booted) : t.InOrderOf [] := by
  intro i _ j _
  rw [ht.timestamp i, ht.timestamp j]
  simp [lastUse]

/-- After any touches, updates and reparentings, with any renormalizations between, the entries are
in the order of their last use, the last one used strictly ahead. -/
theorem timestamps_are_in_order_of_use (t : Tracker) (ht : t.Booted) (ops : List EntryOp)
    (hrange : ∀ op ∈ ops, op.index < t.pageCount) :
    ∃ t', forEach ops run t = .ok () t' ∧
      (∀ i < t.pageCount, ∀ j < t.pageCount,
        (t'.timestamp i < t'.timestamp j ↔ lastUse ops i < lastUse ops j)) ∧
      ∀ op, ops.getLast? = some op → ∀ j < t.pageCount, j ≠ op.index →
        t'.timestamp j < t'.timestamp op.index := by
  obtain ⟨t', hrun, hcount, horder⟩ := run_inOrderOf [] ops ht.bounded ht.inOrderOf hrange
  rw [Tracker.InOrderOf, hcount, List.nil_append] at horder
  refine ⟨t', hrun, horder, ?_⟩
  intro op hlast j hj hne
  obtain ⟨front, rfl⟩ := List.getLast?_eq_some_iff.mp hlast
  have hop := hrange op (by simp)
  rw [horder j hj op.index hop, lastUse_append_self, lastUse_append_of_ne _ hne]
  exact Nat.lt_succ_of_le (lastUse_le front j)

theorem page_touched_again_is_ahead :
    ∃ t', forEach [.touch 0, .update 1 (some pid1) none, .touch 0] run twoPages = .ok () t' ∧
      t'.timestamp 1 < t'.timestamp 0 := by
  have hbooted : twoPages.Booted := ⟨rfl, fun _ => rfl, by decide⟩
  obtain ⟨t', hrun, -, hlast⟩ := timestamps_are_in_order_of_use twoPages hbooted
    [.touch 0, .update 1 (some pid1) none, .touch 0] (by simp [index, Tracker.pageCount,
      twoPages, pageSize])
  exact ⟨t', hrun, hlast (.touch 0) rfl 1 (by decide) (by decide)⟩

end BaochipXous.Kernel.Swap
