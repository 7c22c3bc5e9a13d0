import BaochipXous.KernelSwapUsage
import BaochipXous.KernelPageRights

/-!
The memory manager of a kernel with swap, over page tables and page tracker: where the tracker says
a page is, and where its owner maps it. A claim by physical address and a move write the physical
address into the entry, other allocations the virtual one. Contents are the matter of the swapper.
-/

namespace BaochipXous.Kernel.Swap

open Prog Machine

/-- Page tables and tracker. The owners of pages are those of the tracker; the allocations of
`machine` are not used. -/
structure SwapMachine where
  machine : Machine
  tracker : Tracker

abbrev SM (α : Type) := Prog Error SwapMachine α

def inTables {α : Type} (m : MM α) : SM α :=
  zoom SwapMachine.machine (fun s machine => { s with machine := machine }) m

def inTracker {α : Type} (m : TM α) : SM α :=
  zoom SwapMachine.tracker (fun s tracker => { s with tracker := tracker }) m

/-- `map_page_inner`, which calls itself to map a new leaf table into the window of page tables. -/
def mapPageWith (fuel : Nat) (pid : PID) (phys virt : Nat) (reqFlags : MemoryFlags)
    (mapUser : Bool) : SM Unit :=
  match fuel with
  | 0 => halt
  | fuel + 1 => do
    assert (virt % pageSize = 0)
    let rootValid ← gets (rootValid ·.machine virt)
    when (!rootValid) do
      -- the table is wired, since it has no address of its own in the tracker
      let l0PtPhys ← inTracker (allocPageOomable pid none)
      inTables (modify (setRoot · virt))
      mapPageWith fuel pid l0PtPhys (pageTableOffset + vpn1 virt * pageSize)
        { r := true, w := true } false
      inTables (modify (clearTable · virt))
    let e ← gets (entry ·.machine virt)
    if e.valid then fail .memoryInUse
    else
      inTables (modify (setEntry · virt
        { translateFlags reqFlags with
          ppn := phys / pageSize % 2 ^ 20, user := mapUser, valid := true, d := true, a := true }))

/-- The window lies under one root entry, so that two nested calls are enough. -/
def mapPageInner (pid : PID) (phys virt : Nat) (reqFlags : MemoryFlags) (mapUser : Bool) : SM Unit :=
  mapPageWith 3 pid phys virt reqFlags mapUser

def movePageInner (srcSpace : PID) (srcAddr : Nat) (destPid destSpace : PID) (destAddr : Nat) :
    SM Unit := do
  let previous ← inTables (pagetableEntry srcAddr)
  if !previous.valid then fail .badAddress
  else
    inTables (modify (setEntry · srcAddr .zero))
    inTables (activateMapping destSpace)
    let result ← attempt (mapPageInner destPid previous.phys destAddr (untranslateFlags previous)
      (destPid.get ≠ 1))
    inTables (activateMapping srcSpace)
    ofExcept result

def movePage (srcPid : PID) (srcAddr : Nat) (destPid : PID) (destAddr : Nat) : SM Unit := do
  match ← gets (virtToPhys ·.machine srcAddr) with
  | .error e => fail e
  | .ok phys => do
    movePageInner srcPid srcAddr destPid destPid destAddr
    inTracker (claimReleaseMove phys destPid (.move srcPid))

def unmapPage (virt : Nat) : SM Nat := do
  let pid ← gets (current ·.machine)
  match ← gets (virtToPhys ·.machine virt) with
  | .ok phys => do
    let _ ← attempt (inTracker (claimReleaseMove phys pid .release))
    pure ()
  | .error _ => pure ()
  inTables (unmapPageInner virt)

def reserveAddress (addr : Nat) (flags : MemoryFlags) : SM Unit := do
  let rootValid ← gets (rootValid ·.machine addr)
  when (!rootValid) do
    let pid ← gets (satp ·.machine)
    let l0ptPhys ← inTracker (allocPageOomable pid none)
    inTables (modify (setRoot · addr))
    mapPageInner pid l0ptPhys (pageTableOffset + vpn1 addr * pageSize) { r := true, w := true } false
    inTables (modify (clearTable · addr))
  let e ← gets (entry ·.machine addr)
  if e.valid then fail .shareViolation
  else inTables (modify (setEntry · addr (translateFlags flags)))

/-- `map_memory` for one page at a given physical address. The claim stays if the page cannot be
mapped. -/
def mapPhysical (phys virt : Nat) (pid : PID) (flags : MemoryFlags) : SM Unit := do
  inTracker (claimReleaseMove phys pid .claim)
  mapPageInner pid phys virt flags false
  unwrap (inTables (handPageToUser virt))

/-- `map_memory` for one page of device memory, which is taken where a page is free and is wired. -/
def mapDevice (virt : Nat) (pid : PID) (flags : MemoryFlags) : SM Unit := do
  let t ← gets SwapMachine.tracker
  match (List.range t.pageCount).find? fun i => (t.allocations i).pid.isNone with
  | none => fail .outOfMemory
  | some i => do
    let phys := t.address i
    inTracker (claimReleaseMove phys pid .claim)
    inTracker (setWired i)
    mapPageInner pid phys virt flags false
    unwrap (inTables (handPageToUser virt))

/-- Map a page into the swapper, whose address space stays active, at an address for messages. -/
def mapPageToSwapper (paddr : Nat) : SM Nat := do
  inTables (activateMapping swapperPid)
  let payloadVirt ← unwrap (inTables (findVirtualAddress 0 pageSize .messages))
  -- a failure to map is ignored
  let _ ← attempt (mapPageInner swapperPid paddr payloadVirt { r := true, w := true } true)
  pure payloadVirt

def refuseEviction {α : Type} (e : Error) : SM α := do
  inTables (activateMapping swapperPid)
  fail e

def evictPageInner (targetPid : PID) (vaddr : Nat) : SM Nat := do
  inTables (activateMapping targetPid)
  match ← attempt (inTables (pagetableEntry vaddr)) with
  | .error e => refuseEviction e
  | .ok targetPte => do
    inTracker (touch targetPte.phys)
    if !targetPte.valid || targetPte.p then refuseEviction .badAddress
    else if !targetPte.user then refuseEviction .accessDenied
    else if targetPte.s then refuseEviction .shareViolation
    else
      inTables (modify (setEntry · vaddr
        { targetPte with ppn := 0, valid := false, p := true }))
      mapPageToSwapper targetPte.phys

def stealPage (targetPid : PID) (vaddr : Nat) : SM Nat := do
  match ← attempt (evictPageInner targetPid vaddr) with
  | .ok ptr => pure ptr
  | .error _ => fail .badAddress

def releaseMemory (vaddrToRelease : Nat) (originalPid : PID) : SM Unit := do
  match ← gets (virtToPhys ·.machine vaddrToRelease) with
  | .error _ => halt
  | .ok paddr => do
    let s ← get
    if s.tracker.isMainMemory paddr || s.machine.mem.isPeripheralRam paddr then
      let _ ← unwrap (inTables (unmapPageInner vaddrToRelease))
      unwrap (inTracker (claimReleaseMove paddr originalPid .release))
    else fail .invalidArgument

/-- The swapper steals a page and, having stored its contents, releases it. -/
def evictPage (targetPid : PID) (vaddr : Nat) : SM Unit := do
  let vaddrInSwap ← stealPage targetPid vaddr
  unwrap (releaseMemory vaddrInSwap targetPid)

/-- The page is filled by the swapper, in whose address space it is mapped for that time. -/
def retrievePage (newPage : Nat) : SM Unit := do
  let pid ← gets (current ·.machine)
  let vaddrInSwap ← mapPageToSwapper newPage
  let _ ← unwrap (inTables (unmapPageInner vaddrInSwap))
  inTables (activateMapping pid)

def ensurePageExistsInner (address : Nat) : SM Unit := do
  let satp ← gets (satp ·.machine)
  if satp ≠ pid1 ∧ userAreaEnd ≤ address then fail .outOfMemory
  else
    let virt := address - address % pageSize
    let rootValid ← gets (rootValid ·.machine virt)
    if !rootValid then fail .badAddress
    else
      let e ← gets (entry ·.machine virt)
      if e.valid && !e.p then pure ()
      else if e.flagsZero || e.s then fail .badAddress
      else
        let current ← gets (current ·.machine)
        let newPage ← inTracker (allocPageOomable current (some virt))
        if e.p then
          retrievePage newPage
          inTables (modify (setEntry · virt
            { e with ppn := newPage / pageSize % 2 ^ 20, valid := true, p := false }))
        else
          inTables (modify (setEntry · virt
            { e with ppn := newPage / pageSize % 2 ^ 20, valid := true, user := true, d := true,
                     a := true }))

def terminateProcess (pid : PID) : SM Unit := do
  let s ← get
  inTracker (releaseAllMemoryForProcess pid s.machine.pageIsLent)
  inTracker (modify fun t => { t with processes := t.processes.filter (· ≠ pid) })

open Tracker EntryOp SwapMachine

namespace Tracker

variable {t : Tracker} {i j : Nat}

theorem offset_address (t : Tracker) (i : Nat) : t.offset (t.address i) = i := by
  simp only [offset, address, pageSize]
  omega

theorem isMainMemory_address (hi : i < t.pageCount) : t.isMainMemory (t.address i) = true := by
  apply decide_eq_true
  simp only [address, pageCount, pageSize] at *
  omega

theorem address_offset {phys : Nat} (halign : t.ramStart % pageSize = 0)
    (hphys : phys % pageSize = 0) (hmain : t.isMainMemory phys = true) :
    t.address (t.offset phys) = phys := by
  simp only [isMainMemory, address, offset, pageSize, decide_eq_true_eq] at *
  omega

/-- Entries stay as they are, but for free pages that get an owner and are wired. -/
structure Grows (t t' : Tracker) : Prop where
  ramStart : t'.ramStart = t.ramStart
  ramSize : t'.ramSize = t.ramSize
  entries : ∀ i, ((t'.allocations i).pid = (t.allocations i).pid ∧
      (t'.allocations i).vaddr = (t.allocations i).vaddr ∧
      (t'.allocations i).wired = (t.allocations i).wired) ∨
    (t.owner i = none ∧ (t'.allocations i).wired = true)

theorem Grows.refl (t : Tracker) : t.Grows t := ⟨rfl, rfl, fun _ => Or.inl ⟨rfl, rfl, rfl⟩⟩

theorem Grows.trans {t1 t2 t3 : Tracker} (h : t1.Grows t2) (h' : t2.Grows t3) : t1.Grows t3 := by
  refine ⟨h'.ramStart.trans h.ramStart, h'.ramSize.trans h.ramSize, fun i => ?_⟩
  rcases h.entries i with ⟨hpid, hvaddr, hwired⟩ | ⟨hfree, hwired⟩
  · rcases h'.entries i with ⟨hpid', hvaddr', hwired'⟩ | ⟨hfree', hwired'⟩
    · exact Or.inl ⟨hpid'.trans hpid, hvaddr'.trans hvaddr, hwired'.trans hwired⟩
    · exact Or.inr ⟨hpid.symm.trans hfree', hwired'⟩
  · rcases h'.entries i with ⟨-, -, hwired'⟩ | ⟨-, hwired'⟩
    · exact Or.inr ⟨hfree, hwired'.trans hwired⟩
    · exact Or.inr ⟨hfree, hwired'⟩

variable {t t' : Tracker}

theorem Grows.kept (h : t.Grows t') {i : Nat} (hi : t.owner i ≠ none) :
    (t'.allocations i).pid = (t.allocations i).pid ∧ (t'.allocations i).vaddr = (t.allocations i).vaddr ∧
      (t'.allocations i).wired = (t.allocations i).wired := by
  rcases h.entries i with hsame | ⟨hfree, -⟩
  · exact hsame
  · exact absurd hfree hi

theorem Grows.pageCount (h : t.Grows t') : t'.pageCount = t.pageCount :=
  congrArg (· / pageSize) h.ramSize

theorem Grows.address (h : t.Grows t') (i : Nat) : t'.address i = t.address i := by
  rw [Tracker.address, Tracker.address, h.ramStart]

end Tracker

theorem EntryOp.apply_entry_of_ne (op : EntryOp) (t : Tracker) (epoch : Nat) (timestamps : Nat → Nat)
    {j : Nat} (hj : j ≠ op.index) :
    (op.apply t epoch timestamps).allocations j = { t.allocations j with timestamp := timestamps j } := by
  simp [apply, Function.update_of_ne hj, retime]

theorem EntryOp.apply_entry_self (op : EntryOp) (t : Tracker) (epoch : Nat) (timestamps : Nat → Nat) :
    (op.apply t epoch timestamps).allocations op.index =
      { op.entry (t.allocations op.index) with timestamp := epoch } := by simp [apply]

theorem Effect.grows {t t' : Tracker} {i : Nat} {pid : PID} (hfree : t.owner i = none)
    (h : Effect t (some (.update i (some pid) none)) t') : t.Grows t' := by
  obtain ⟨-, epoch, timestamps, hagrees⟩ := h
  refine ⟨hagrees.ramStart, hagrees.ramSize, fun j => ?_⟩
  rw [hagrees.allocations]
  by_cases heq : j = i
  · subst heq
    right
    exact ⟨hfree, congrArg SwapAlloc.wired (apply_entry_self (.update j (some pid) none) t _ _)⟩
  · left
    rw [apply_entry_of_ne (.update i (some pid) none) _ _ _ heq]
    exact ⟨rfl, rfl, rfl⟩

namespace SwapMachine

/-- The process maps the page at the address, which is that of a page. -/
structure Maps (s : SwapMachine) (p : PID) (v i : Nat) : Prop where
  aligned : v % pageSize = 0
  root : s.machine.mem.l1 p (vpn1 v) = true
  valid : (s.machine.mem.pt p (vpn v)).valid = true
  phys : (s.machine.mem.pt p (vpn v)).phys = s.tracker.address i

/-- No page is lent, no entry is without a leaf table, and the addresses for messages in the swapper
end below the window. -/
structure Tables (s : SwapMachine) : Prop where
  lent : ∀ q v, (s.machine.mem.pt q v).s = false
  unrooted : ∀ q v, s.machine.mem.l1 q (v / 1024) = false → s.machine.mem.pt q v = .zero
  messageBase : (s.machine.arch swapperPid).memMessageBase + 0x401000 ≤ pageTableOffset
  messageLast : (s.machine.arch swapperPid).memMessageLast ≤
    (s.machine.arch swapperPid).memMessageBase + 0x400000

/-- The entry of every owned page that is not wired, one page apart, has the address at which the
owner maps it; the pages of the swapper are wired. -/
structure Tracks (hole : Option Nat) (s : SwapMachine) : Prop where
  aligned : s.tracker.ramStart % pageSize = 0
  bound : s.tracker.ramStart + s.tracker.ramSize ≤ 2 ^ 32
  tables : s.Tables
  swapper : ∀ i, s.tracker.owner i = some swapperPid → (s.tracker.allocations i).wired = true
  recorded : ∀ i < s.tracker.pageCount, hole ≠ some i → ∀ p, s.tracker.owner i = some p →
    (s.tracker.allocations i).wired = false → s.Maps p (s.tracker.allocations i).vaddr i

variable {s s' : SwapMachine} {hole : Option Nat}

theorem Tracks.close {k : Nat} (h : s.Tracks (some k))
    (hk : k < s.tracker.pageCount → ∀ p, s.tracker.owner k = some p →
      (s.tracker.allocations k).wired = false → s.Maps p (s.tracker.allocations k).vaddr k) :
    s.Tracks none := by
  refine { h with recorded := ?_ }
  intro i hi _ p hp hwired
  by_cases heq : i = k
  · subst heq
    exact hk hi p hp hwired
  · exact h.recorded i hi (by simpa using Ne.symm heq) p hp hwired

/-- What a step does that takes no page from a process: valid entries stay, and pages are allocated
as wired ones. -/
structure Frame (s s' : SwapMachine) : Prop where
  current : s'.machine.current = s.machine.current
  grows : s.tracker.Grows s'.tracker
  tables : s.Tables → s'.Tables
  roots : ∀ q r, s.machine.mem.l1 q r = true → s'.machine.mem.l1 q r = true
  keeps : ∀ q v, s.machine.mem.l1 q (v / 1024) = true → (s.machine.mem.pt q v).valid = true →
    s'.machine.mem.pt q v = s.machine.mem.pt q v

theorem Frame.refl (s : SwapMachine) : s.Frame s :=
  ⟨rfl, .refl _, id, fun _ _ h => h, fun _ _ _ _ => rfl⟩

theorem Frame.trans {s1 s2 s3 : SwapMachine} (h : s1.Frame s2) (h' : s2.Frame s3) : s1.Frame s3 := by
  refine ⟨h'.current.trans h.current, h.grows.trans h'.grows, h'.tables ∘ h.tables,
    fun q r hr => h'.roots q r (h.roots q r hr), ?_⟩
  intro q v hroot hvalid
  have hpt2 := h.keeps q v hroot hvalid
  exact (h'.keeps q v (h.roots _ _ hroot) (by rw [hpt2]; exact hvalid)).trans hpt2

theorem Frame.maps (h : s.Frame s') {p : PID} {v i : Nat} (hmaps : s.Maps p v i) : s'.Maps p v i := by
  have hpt := h.keeps p (vpn v) hmaps.root hmaps.valid
  refine ⟨hmaps.aligned, h.roots _ _ hmaps.root, by rw [hpt]; exact hmaps.valid, ?_⟩
  rw [hpt, h.grows.address]
  exact hmaps.phys

theorem Frame.tracks (h : s.Frame s') (ht : s.Tracks hole) : s'.Tracks hole := by
  refine ⟨h.grows.ramStart ▸ ht.aligned, ?_, h.tables ht.tables, ?_, ?_⟩
  · rw [h.grows.ramStart, h.grows.ramSize]
    exact ht.bound
  · intro i hi
    rcases h.grows.entries i with ⟨hpid, -, hwired⟩ | ⟨-, hwired⟩
    · rw [owner, hpid] at hi
      exact hwired.trans (ht.swapper i hi)
    · exact hwired
  · intro i hi hne p hp hwired
    rw [h.grows.pageCount] at hi
    rcases h.grows.entries i with ⟨hpid, hvaddr, hwired'⟩ | ⟨-, hwired'⟩
    · rw [owner, hpid] at hp
      rw [hvaddr]
      exact h.maps (ht.recorded i hi hne p hp (hwired' ▸ hwired))
    · rw [hwired'] at hwired
      cases hwired

def write (s : SwapMachine) (virt : Nat) (e : PTE) : SwapMachine :=
  { s with machine := s.machine.setEntry virt e }

section

variable (s) (virt : Nat) (e : PTE)

@[simp] theorem write_tracker : (s.write virt e).tracker = s.tracker := rfl

@[simp] theorem write_l1 : (s.write virt e).machine.mem.l1 = s.machine.mem.l1 := rfl

theorem write_pt (q : PID) (v : Nat) :
    (s.write virt e).machine.mem.pt q v = if q = s.machine.satp ∧ v = vpn virt then e else s.machine.mem.pt q v :=
  s.machine.setEntry_pt ..

theorem write_entry : (s.write virt e).machine.entry virt = e := by simp [Machine.entry, write, Machine.setEntry]

end

variable {virt : Nat} {e : PTE}

/-- The page that an entry maps, if it is one of main memory. -/
def pageOf (s : SwapMachine) (e : PTE) : Option Nat :=
  if e.valid && s.tracker.isMainMemory e.phys then some (s.tracker.offset e.phys) else none

theorem Maps.write {p : PID} {v i : Nat} (h : s.Maps p v i) (e : PTE)
    (hother : ¬(p = s.machine.satp ∧ vpn v = vpn virt)) : (s.write virt e).Maps p v i := by
  refine ⟨h.aligned, h.root, ?_, ?_⟩ <;> rw [write_pt, if_neg hother]
  · exact h.valid
  · exact h.phys

section

variable (hroot : s.machine.rootValid virt = true) (hlent : e.s = false)

include hroot hlent

theorem Tables.write (h : s.Tables) : (s.write virt e).Tables := by
  refine ⟨?_, ?_, h.messageBase, h.messageLast⟩
  · intro q v
    rw [write_pt]
    split
    · exact hlent
    · exact h.lent q v
  · intro q v hunrooted
    rw [write_pt]
    split
    next heq =>
      rw [heq.1, heq.2] at hunrooted
      exact absurd hunrooted (by simpa [rootValid, vpn1] using hroot)
    next => exact h.unrooted q v hunrooted

theorem frame_write (hinvalid : (s.machine.entry virt).valid = false) : s.Frame (s.write virt e) := by
  refine ⟨rfl, .refl _, fun h => h.write hroot hlent, fun _ _ h => h, ?_⟩
  intro q v _ hv
  rw [write_pt, if_neg]
  rintro ⟨rfl, rfl⟩
  exact absurd hv (by simpa [Machine.entry] using hinvalid)

theorem Tracks.write (h : s.Tracks none) : (s.write virt e).Tracks (s.pageOf (s.machine.entry virt)) := by
  refine ⟨h.aligned, h.bound, h.tables.write hroot hlent, h.swapper, ?_⟩
  intro i hi hne p hp hwired
  rw [write_tracker] at hi hp hwired ⊢
  have hmaps := h.recorded i hi nofun p hp hwired
  apply hmaps.write
  rintro ⟨rfl, heq⟩
  have hentry : s.machine.entry virt = s.machine.mem.pt s.machine.satp (vpn (s.tracker.allocations i).vaddr) := by
    rw [heq]
    rfl
  apply hne
  rw [pageOf, hentry, hmaps.phys, hmaps.valid, isMainMemory_address hi, offset_address]
  rfl

/-- Every page is still mapped where it was, if the one of the entry is not a page of the process that
the tracker follows. -/
theorem Tracks.write_unowned (h : s.Tracks none)
    (hpage : ∀ k, s.pageOf (s.machine.entry virt) = some k →
      s.tracker.owner k = some s.machine.satp → (s.tracker.allocations k).wired = true) :
    (s.write virt e).Tracks none := by
  have hwritten := h.write (e := e) hroot hlent
  cases hentry : s.pageOf (s.machine.entry virt) with
  | none => exact hentry ▸ hwritten
  | some k =>
    rw [hentry] at hwritten
    apply hwritten.close
    intro hk p hp hwired
    apply (h.recorded k hk nofun p hp hwired).write
    rintro ⟨rfl, -⟩
    rw [write_tracker, hpage k hentry hp] at hwired
    nomatch hwired

theorem Tracks.write_swapper (h : s.Tracks hole) (hswapper : s.machine.satp = swapperPid) :
    (s.write virt e).Tracks hole := by
  refine ⟨h.aligned, h.bound, h.tables.write hroot hlent, h.swapper, ?_⟩
  intro i hi hne p hp hwired
  rw [write_tracker] at hi hp hwired ⊢
  apply (h.recorded i hi hne p hp hwired).write
  -- a page of the swapper is wired
  rintro ⟨rfl, -⟩
  rw [hswapper] at hp
  rw [h.swapper i hp] at hwired
  nomatch hwired

end

def activate (s : SwapMachine) (p : PID) : SwapMachine :=
  { s with machine := { s.machine with satp := p } }

theorem frame_activate (s : SwapMachine) (p : PID) : s.Frame (s.activate p) :=
  ⟨rfl, .refl _, fun h => { h with }, fun _ _ h => h, fun _ _ _ _ => rfl⟩

theorem frame_tracker {t' : Tracker} (h : s.tracker.Grows t') : s.Frame { s with tracker := t' } :=
  ⟨rfl, h, fun h => { h with }, fun _ _ h => h, fun _ _ _ _ => rfl⟩

theorem setRoot_l1 (m : Machine) (virt : Nat) (q : PID) (r : Nat) :
    (m.setRoot virt).mem.l1 q r = if q = m.satp ∧ r = vpn1 virt then true else m.mem.l1 q r := by
  by_cases hq : q = m.satp
  · subst hq
    by_cases hr : r = vpn1 virt
    · simp [setRoot, hr]
    · simp [setRoot, hr]
  · simp [setRoot, hq]

theorem frame_setRoot (s : SwapMachine) (virt : Nat) : s.Frame { s with machine := s.machine.setRoot virt } := by
  have hroots : ∀ q r, s.machine.mem.l1 q r = true → (s.machine.setRoot virt).mem.l1 q r = true := by
    intro q r hr
    rw [setRoot_l1]
    split
    · rfl
    · exact hr
  refine ⟨rfl, .refl _, fun h => ⟨h.lent, ?_, h.messageBase, h.messageLast⟩, hroots, fun _ _ _ _ => rfl⟩
  intro q v hunrooted
  apply h.unrooted q v
  by_contra hroot
  rw [hroots q _ (by simpa using hroot)] at hunrooted
  nomatch hunrooted

theorem clearTable_pt (m : Machine) (virt : Nat) (q : PID) (v : Nat) :
    (m.clearTable virt).mem.pt q v = if q = m.satp ∧ v / 1024 = vpn1 virt then .zero else m.mem.pt q v := by
  by_cases hq : q = m.satp
  · subst hq
    by_cases hv : v / 1024 = vpn1 virt
    · simp [clearTable, hv]
    · simp [clearTable, hv]
  · simp [clearTable, hq]

theorem Frame.clearTable (h : s.Frame s') (hsatp : s'.machine.satp = s.machine.satp)
    (hunrooted : s.machine.rootValid virt = false) :
    s.Frame { s' with machine := s'.machine.clearTable virt } := by
  refine ⟨h.current, h.grows, fun ht => ⟨?_, ?_, (h.tables ht).messageBase, (h.tables ht).messageLast⟩, h.roots, ?_⟩
  · intro q v
    rw [clearTable_pt]
    split
    · rfl
    · exact (h.tables ht).lent q v
  · intro q v hv
    rw [clearTable_pt]
    split
    · rfl
    · exact (h.tables ht).unrooted q v hv
  · intro q v hroot hvalid
    rw [clearTable_pt, if_neg]
    · exact h.keeps q v hroot hvalid
    · rintro ⟨rfl, heq⟩
      rw [hsatp, heq] at hroot
      rw [rootValid, hroot] at hunrooted
      cases hunrooted

end SwapMachine

section Map

variable {s : SwapMachine}

@[simp] theorem post_inTables {α : Type} (m : MM α) {Q : α → SwapMachine → Prop} {E : Error → SwapMachine → Prop} :
    Post (inTables m) Q E s ↔ Post m (fun a machine => Q a { s with machine := machine })
        (fun e machine => E e { s with machine := machine }) s.machine := post_zoom ..

@[simp] theorem post_inTracker {α : Type} (m : TM α) {Q : α → SwapMachine → Prop} {E : Error → SwapMachine → Prop} :
    Post (inTracker m) Q E s ↔ Post m (fun a tracker => Q a { s with tracker := tracker })
        (fun e tracker => E e { s with tracker := tracker }) s.tracker := post_zoom ..

/-- What a mapping does, whether or not it succeeds: it stays in the active address space. -/
structure Inside (s s' : SwapMachine) : Prop where
  frame : s.Frame s'
  satp : s'.machine.satp = s.machine.satp
  others : ∀ q, q ≠ s.machine.satp → s'.machine.mem.l1 q = s.machine.mem.l1 q ∧
    s'.machine.mem.pt q = s.machine.mem.pt q

theorem Inside.refl (s : SwapMachine) : Inside s s := ⟨.refl s, rfl, fun _ _ => ⟨rfl, rfl⟩⟩

structure Mapped (s : SwapMachine) (virt : Nat) (e : PTE) (s' : SwapMachine) : Prop
    extends Inside s s' where
  root : s'.machine.rootValid virt = true
  entry : s'.machine.entry virt = e

theorem allocTable_post (pid : PID) {Q : Nat → SwapMachine → Prop}
    (h : ∀ phys t', s.tracker.Grows t' → Q phys { s with tracker := t' }) :
    Post (inTracker (allocPageOomable pid none)) Q (fun _ _ => False) s := by
  rw [post_inTracker]
  apply (allocPageOomable_effect s.tracker pid none).imp
  rintro phys t' ⟨i, -, hfree, heffect⟩
  exact h phys t' (heffect.grows hfree)

/-- The address in the window at which the leaf table of an address is mapped. -/
def window (virt : Nat) : Nat := pageTableOffset + vpn1 virt * pageSize

variable {virt : Nat}

/-- A page can be mapped at the address: it is free, or its leaf table can be added. -/
def canMap (m : Machine) (virt : Nat) : Bool :=
  if m.rootValid virt then !(m.entry virt).valid
  else !(m.entry (window virt)).valid &&
    (m.rootValid (window virt) || decide (vpn1 (window virt) = vpn1 virt))

/-- Where the leaf table can be added, it can be mapped in the window. -/
theorem canMap_window {m : Machine} (hunrooted : m.rootValid virt = false)
    (h : canMap m virt = true) : canMap (m.setRoot virt) (window virt) = true := by
  rw [canMap, hunrooted, if_neg nofun, Bool.and_eq_true, Bool.or_eq_true, decide_eq_true_eq] at h
  have hrooted : (m.setRoot virt).rootValid (window virt) = true := by
    rw [Machine.rootValid, SwapMachine.setRoot_l1]
    split
    · rfl
    next hne => exact h.2.resolve_right fun heq => hne ⟨rfl, heq⟩
  rw [canMap, if_pos hrooted]
  exact h.1

def SameBelow (s s' : SwapMachine) : Prop :=
  ∀ v < pageTableOffset / pageSize,
    s'.machine.mem.pt s.machine.satp v = s.machine.mem.pt s.machine.satp v

/-- A mapping that fails writes in the window only. -/
structure Refused (s : SwapMachine) (virt : Nat) (s' : SwapMachine) : Prop
    extends Inside s s' where
  below : SameBelow s s'
  refused : canMap s.machine virt = false

theorem mapPageWith_post (fuel : Nat) (pid : PID) (phys virt : Nat) (reqFlags : MemoryFlags)
    (mapUser : Bool) (s : SwapMachine) :
    Post (mapPageWith fuel pid phys virt reqFlags mapUser)
      (fun _ s' => Mapped s virt (mappedEntry phys reqFlags mapUser) s' ∧
        (pageTableOffset / pageSize ≤ vpn virt → SameBelow s s'))
      (fun _ => Refused s virt) s := by
  induction fuel generalizing phys virt reqFlags mapUser s with
  | zero => trivial
  | succ fuel ih =>
    rw [mapPageWith, post_bind, post_assert]
    intro _
    rw [post_bind, post_gets, post_bind, post_when]
    -- with a leaf table in place the entry is written unless it is valid
    have hwrite : ∀ s1, Inside s s1 → s1.machine.rootValid virt = true →
        (pageTableOffset / pageSize ≤ vpn virt → SameBelow s s1) →
        ((s1.machine.entry virt).valid = true → Refused s virt s1) →
        Post (do
          let e ← gets (entry ·.machine virt)
          if e.valid then fail .memoryInUse
          else inTables (modify (setEntry · virt (mappedEntry phys reqFlags mapUser))))
        (fun _ s' => Mapped s virt (mappedEntry phys reqFlags mapUser) s' ∧
          (pageTableOffset / pageSize ≤ vpn virt → SameBelow s s'))
        (fun _ => Refused s virt) s1 := by
      intro s1 hinside hroot hbelow hrefused
      rw [post_bind, post_gets, post_ite]
      refine ⟨hrefused, fun hvalid => ?_⟩
      rw [post_inTables, post_modify]
      have hinvalid : (s1.machine.entry virt).valid = false := by simpa using hvalid
      refine ⟨⟨⟨hinside.frame.trans (frame_write hroot rfl hinvalid), hinside.satp, ?_⟩,
        hroot, s1.write_entry virt _⟩, ?_⟩
      · intro q hq
        refine ⟨(hinside.others q hq).1, ?_⟩
        rw [← (hinside.others q hq).2]
        exact Function.update_of_ne (hinside.satp ▸ hq) ..
      · intro hwindow v hv
        exact ((s1.write_pt ..).trans (if_neg fun heq => by omega)).trans (hbelow hwindow v hv)
    refine ⟨fun hunrooted => ?_, fun hroot => ?_⟩
    swap
    · have hroot : s.machine.rootValid virt = true := by simpa using hroot
      apply hwrite s (.refl s) hroot fun _ _ _ => rfl
      intro hvalid
      exact ⟨.refl s, fun _ _ => rfl, by simp [canMap, hroot, hvalid]⟩
    have hunrooted : s.machine.rootValid virt = false := by simpa using hunrooted
    rw [post_bind]
    refine (allocTable_post pid fun l0PtPhys t1 hgrows => ?_).never
    rw [post_bind, post_inTables, post_modify, post_bind]
    have hframe1 := (frame_tracker hgrows).trans (frame_setRoot { s with tracker := t1 } virt)
    have hroots : ∀ q, q ≠ s.machine.satp → (s.machine.setRoot virt).mem.l1 q = s.machine.mem.l1 q := by
      intro q hq
      exact Function.update_of_ne hq ..
    apply (ih l0PtPhys (window virt) _ false _).mono
    · rintro _ s2 ⟨hmapped, hbelow⟩
      rw [post_inTables, post_modify]
      have hsatp : s2.machine.satp = s.machine.satp := hmapped.satp
      refine hwrite _ ⟨(hframe1.trans hmapped.frame).clearTable hsatp hunrooted, hsatp, ?_⟩ ?_ ?_ ?_
      · intro q hq
        refine ⟨(hmapped.others q hq).1.trans (hroots q hq), ?_⟩
        refine Eq.trans ?_ (hmapped.others q hq).2
        exact Function.update_of_ne (hsatp ▸ hq) ..
      · apply hmapped.frame.roots
        show (s.machine.setRoot virt).mem.l1 s2.machine.satp (vpn1 virt) = true
        rw [hsatp, setRoot_l1, if_pos ⟨rfl, rfl⟩]
      · intro hwindow v hv
        rw [clearTable_pt, if_neg]
        · refine hbelow ?_ v hv
          simp only [window, vpn1, vpn, pageTableOffset, pageSize]
          omega
        · rintro ⟨-, heq⟩
          simp only [vpn1, pageTableOffset, pageSize] at *
          omega
      · -- the new table is empty
        intro hvalid
        rw [Machine.entry, clearTable_pt, if_pos ⟨rfl, rfl⟩] at hvalid
        cases hvalid
    · intro _ s2 hrefused
      refine ⟨⟨hframe1.trans hrefused.frame, hrefused.satp, fun q hq =>
        ⟨(hrefused.others q hq).1.trans (hroots q hq), (hrefused.others q hq).2⟩⟩,
        hrefused.below, ?_⟩
      rw [Bool.eq_false_iff]
      intro hcan
      cases (canMap_window hunrooted hcan).symm.trans hrefused.refused

end Map

namespace SwapMachine

variable {s : SwapMachine} {hole : Option Nat} {t' : Tracker}

theorem Tracks.agrees (h : s.Tracks hole) (hagrees : s.tracker.Agrees t') :
    ({ s with tracker := t' } : SwapMachine).Tracks hole := by
  have hcount := hagrees.pageCount
  refine ⟨hagrees.ramStart ▸ h.aligned, ?_, { h.tables with }, ?_, ?_⟩
  · rw [hagrees.ramStart, hagrees.ramSize]
    exact h.bound
  · rw [hagrees.owner, hagrees.allocations]
    exact h.swapper
  · rw [hagrees.owner, hagrees.allocations, hcount]
    intro i hi hne p hp hwired
    have hmaps := h.recorded i hi hne p hp hwired
    refine ⟨hmaps.aligned, hmaps.root, hmaps.valid, hmaps.phys.trans ?_⟩
    rw [address, address, hagrees.ramStart]

theorem Tracks.apply (h : s.Tracks hole) (op : EntryOp) (epoch : Nat) (timestamps : Nat → Nat)
    (hhole : ∀ i, hole = some i → i = op.index)
    (hswapper : (op.entry (s.tracker.allocations op.index)).pid = some swapperPid →
      (op.entry (s.tracker.allocations op.index)).wired = true) :
    ({ s with tracker := op.apply s.tracker epoch timestamps } : SwapMachine).Tracks (some op.index) := by
  refine ⟨h.aligned, h.bound, { h.tables with }, ?_, ?_⟩
  · intro i hi
    by_cases heq : i = op.index
    · subst heq
      rw [op.apply_owner_self] at hi
      rw [op.apply_entry_self]
      exact hswapper hi
    · rw [op.apply_owner_of_ne heq] at hi
      rw [op.apply_entry_of_ne _ _ _ heq]
      exact h.swapper i hi
  · intro i hi hne p hp hwired
    have heq : i ≠ op.index := fun heq => hne (heq ▸ rfl)
    rw [op.apply_owner_of_ne heq] at hp
    rw [op.apply_entry_of_ne _ _ _ heq] at hwired ⊢
    have hmaps := h.recorded i hi (fun hi => heq (hhole i hi)) p hp hwired
    exact { hmaps with }

variable {pid : Option PID} {vaddr : Option Nat}

theorem assign_swapper {e : SwapAlloc} (h : (e.assign pid vaddr).pid = some swapperPid) : (e.assign pid vaddr).wired = true := by
  cases pid with
  | none => nomatch h
  | some pid =>
    cases vaddr with
    | none => rfl
    | some va =>
      obtain rfl : pid = swapperPid := Option.some.inj h
      simp [SwapAlloc.assign]

variable {i : Nat}

theorem Tracks.update (h : s.Tracks hole) (heffect : Effect s.tracker (some (.update i pid vaddr)) t')
    (hhole : ∀ j, hole = some j → j = i) : ({ s with tracker := t' } : SwapMachine).Tracks (some i) := by
  obtain ⟨-, epoch, timestamps, hagrees⟩ := heffect
  exact (h.apply (.update i pid vaddr) epoch timestamps hhole assign_swapper).agrees hagrees

theorem entry_of_effect {t : Tracker} (heffect : Effect t (some (.update i pid vaddr)) t') :
    t'.ramStart = t.ramStart ∧ t'.ramSize = t.ramSize ∧
      (t'.allocations i).pid = ((t.allocations i).assign pid vaddr).pid ∧
      (t'.allocations i).vaddr = ((t.allocations i).assign pid vaddr).vaddr ∧
      (t'.allocations i).wired = ((t.allocations i).assign pid vaddr).wired := by
  obtain ⟨-, epoch, timestamps, hagrees⟩ := heffect
  have hentry := EntryOp.apply_entry_self (.update i pid vaddr) t epoch timestamps
  simp only [EntryOp.index, EntryOp.entry] at hentry
  rw [hagrees.allocations, hentry]
  exact ⟨hagrees.ramStart, hagrees.ramSize, rfl, rfl, rfl⟩

theorem Tracks.free (h : s.Tracks hole) (heffect : Effect s.tracker (some (.update i none none)) t')
    (hhole : ∀ j, hole = some j → j = i) : ({ s with tracker := t' } : SwapMachine).Tracks none := by
  apply (h.update heffect hhole).close
  intro _ p hp
  rw [owner, (entry_of_effect heffect).2.2.1] at hp
  cases hp

theorem Tracks.touch (h : s.Tracks none) (heffect : Effect s.tracker (some (.touch i)) t') :
    ({ s with tracker := t' } : SwapMachine).Tracks none := by
  obtain ⟨hi, epoch, timestamps, hagrees⟩ := heffect
  have hopen := h.apply (.touch i) epoch timestamps (by simp) fun hp => h.swapper i hp
  have hentry := EntryOp.apply_entry_self (.touch i) s.tracker epoch timestamps
  refine (hopen.close ?_).agrees hagrees
  intro _ p hp hwired
  simp only [EntryOp.index, EntryOp.entry, Tracker.owner] at hentry hp hwired ⊢
  rw [hentry] at hp hwired ⊢
  have hmaps := h.recorded i hi (by simp) p hp hwired
  exact { hmaps with }

end SwapMachine

section Release

variable {s : SwapMachine} {hole : Option Nat}

theorem touch_post (h : s.Tracks none) (paddr : Nat) :
    Post (inTracker (touch paddr)) (fun _ s' => s'.Tracks none ∧ s'.machine = s.machine ∧
        s'.tracker.ramStart = s.tracker.ramStart ∧ s'.tracker.ramSize = s.tracker.ramSize)
      (fun _ _ => False) s := by
  rw [post_inTracker]
  apply (touch_effect s.tracker paddr).imp
  intro _ t' heffect
  split at heffect
  · have htracks := h.touch heffect
    obtain ⟨-, epoch, timestamps, hagrees⟩ := heffect
    exact ⟨htracks, rfl, hagrees.ramStart, hagrees.ramSize⟩
  · have hagrees : s.tracker.Agrees t' := heffect
    exact ⟨h.agrees hagrees, rfl, hagrees.ramStart, hagrees.ramSize⟩

variable {phys : Nat}

theorem actionOp_release {t : Tracker} {pid : PID} (halign : phys % pageSize = 0)
    (hmain : t.isMainMemory phys = true) (hforeign : t.foreign phys pid .release = false) :
    actionOp t phys pid .release = some (.update (t.offset phys) none none) := by
  unfold actionOp
  rw [if_neg (by simp [halign, hmain, hforeign])]

/-- After the release of a page by a process the page does not belong to the process. -/
theorem release_post (h : s.Tracks none) (pid : PID) (halign : phys % pageSize = 0) :
    Post (attempt (inTracker (claimReleaseMove phys pid .release)))
      (fun _ s' => s'.Tracks none ∧ s'.machine = s.machine ∧
        s'.tracker.ramStart = s.tracker.ramStart ∧ s'.tracker.ramSize = s.tracker.ramSize ∧
        (s.tracker.isMainMemory phys = true → s'.tracker.owner (s.tracker.offset phys) ≠ some pid))
      (fun _ _ => False) s := by
  rw [post_attempt, post_inTracker]
  have hpost : ∀ t', Effect s.tracker (actionOp s.tracker phys pid .release) t' →
      ({ s with tracker := t' } : SwapMachine).Tracks none ∧
        t'.ramStart = s.tracker.ramStart ∧ t'.ramSize = s.tracker.ramSize ∧
        (s.tracker.isMainMemory phys = true → t'.owner (s.tracker.offset phys) ≠ some pid) := by
    intro t' heffect
    by_cases hmain : s.tracker.isMainMemory phys
    · cases hforeign : s.tracker.foreign phys pid .release with
      | false =>
        rw [actionOp_release halign hmain hforeign] at heffect
        obtain ⟨hstart, hsize, hpid, -, -⟩ := entry_of_effect heffect
        refine ⟨h.free heffect (by simp), hstart, hsize, fun _ howner => ?_⟩
        rw [owner, hpid] at howner
        cases howner
      | true =>
        have hnone : actionOp s.tracker phys pid .release = none := by
          unfold actionOp
          rw [if_pos (Or.inr (Or.inr hforeign))]
        rw [hnone] at heffect
        have hagrees : s.tracker.Agrees t' := heffect
        refine ⟨h.agrees hagrees, hagrees.ramStart, hagrees.ramSize, fun _ hown => ?_⟩
        rw [hagrees.owner] at hown
        have hown' : s.tracker.ownerOf phys = some pid := hown
        simp [foreign, hown'] at hforeign
    · have hnone : actionOp s.tracker phys pid .release = none := by
        unfold actionOp
        rw [if_pos (Or.inr (Or.inl (by simpa using hmain)))]
      rw [hnone] at heffect
      have hagrees : s.tracker.Agrees t' := heffect
      exact ⟨h.agrees hagrees, hagrees.ramStart, hagrees.ramSize, fun h => absurd h hmain⟩
  apply (claimReleaseMove_effect s.tracker phys pid .release).mono
  all_goals
    intro _ t' h
    obtain ⟨htracks, hstart, hsize, howner⟩ := hpost t' h.1
    exact ⟨htracks, rfl, hstart, hsize, howner⟩

theorem pagetableEntry_post (s : SwapMachine) (addr : Nat) :
    Post (inTables (pagetableEntry addr))
      (fun e s' => s' = s ∧ s.machine.rootValid addr = true ∧ e = s.machine.entry addr)
      (fun _ s' => s' = s ∧ (addr % 4 = 0 → s.machine.rootValid addr = false)) s := by
  rw [post_inTables, pagetableEntry, post_ite]
  refine ⟨fun hword => ⟨rfl, fun h => absurd h hword⟩, fun _ => ?_⟩
  rw [post_bind, post_gets, post_ite]
  exact ⟨fun hroot => ⟨rfl, hroot, rfl⟩, fun hroot => ⟨rfl, fun _ => Bool.eq_false_iff.mpr hroot⟩⟩

theorem unmapPageInner_post (s : SwapMachine) (virt : Nat) :
    Post (inTables (unmapPageInner virt))
      (fun _ s' => s.machine.rootValid virt = true ∧ s' = s.write virt .zero) (fun _ s' => s' = s) s := by
  rw [post_inTables, unmapPageInner, post_bind, pagetableEntry, post_ite]
  refine ⟨fun _ => rfl, fun _ => ?_⟩
  rw [post_bind, post_gets, post_ite]
  exact ⟨fun hroot => ⟨hroot, rfl⟩, fun _ => rfl⟩

theorem unmapPage_post (h : s.Tracks none) (hactive : s.machine.current = s.machine.satp) (virt : Nat) :
    Leaves (unmapPage virt) (·.Tracks none) s := by
  -- the entry is cleared; the page that it maps is not the process's any more
  have hclear : ∀ s1 : SwapMachine, s1.Tracks none →
      (∀ k, s1.pageOf (s1.machine.entry virt) = some k → s1.tracker.owner k ≠ some s1.machine.satp) →
      Leaves (inTables (unmapPageInner virt)) (·.Tracks none) s1 := by
    intro s1 h1 howner
    apply (unmapPageInner_post s1 virt).mono _ fun _ _ h => h ▸ h1
    rintro _ s2 ⟨hroot, rfl⟩
    exact h1.write_unowned hroot rfl fun k hk hown => absurd hown (howner k hk)
  unfold Leaves unmapPage
  rw [post_bind, post_gets, post_bind, post_gets]
  cases hphys : s.machine.virtToPhys virt with
  | error e =>
    apply hclear s h
    intro k hk
    by_cases hroot : s.machine.rootValid virt
    · have hlent : (s.machine.entry virt).s = false := h.tables.lent _ _
      cases hvalid : (s.machine.entry virt).valid with
      | true => simp [virtToPhys, hroot, hlent, hvalid] at hphys
      | false =>
        rw [SwapMachine.pageOf, hvalid] at hk
        cases hk
    · have hzero := h.tables.unrooted s.machine.satp (vpn virt) (Bool.eq_false_iff.mpr hroot)
      rw [SwapMachine.pageOf, Machine.entry, hzero] at hk
      cases hk
  | ok phys =>
    obtain ⟨-, -, -, rfl⟩ := virtToPhys_ok hphys
    dsimp only
    apply (release_post h _ (PTE.phys_aligned _)).never.bind
    rintro _ s1 ⟨h1, hmachine, hstart, hsize, howner⟩
    apply hclear s1 h1
    intro k hk
    rw [SwapMachine.pageOf, hmachine, Tracker.isMainMemory, Tracker.offset, hstart, hsize] at hk
    split at hk
    next hmain =>
      obtain rfl := Option.some.inj hk
      rw [hmachine, ← hactive]
      exact howner (Bool.and_eq_true_iff.mp hmain).2
    next => cases hk

end Release

section Swapper

variable {s : SwapMachine} {hole : Option Nat}

theorem findMessages_post (h : s.Tables) (hswapper : s.machine.satp = swapperPid) :
    Post (inTables (findVirtualAddress 0 pageSize .messages))
      (fun found s' => s.Frame s' ∧ s'.machine.satp = swapperPid ∧ s'.machine.mem = s.machine.mem ∧
        s.machine.addressAvailable found = true ∧ found < pageTableOffset) (fun _ s' => s' = s) s := by
  rw [post_inTables]
  unfold findVirtualAddress
  rw [post_ite]
  refine ⟨fun hne => absurd rfl hne, fun _ => ?_⟩
  rw [post_bind, post_get]
  dsimp only
  rw [post_bind, post_ofOption]
  refine ⟨fun found hfound => ?_, fun _ => rfl⟩
  rw [post_bind, post_modify, post_pure]
  rw [hswapper] at hfound
  have hbase : (s.machine.arch swapperPid).memMessageBase + 0x401000 ≤ 0xff400000 := h.messageBase
  have hlast := h.messageLast
  obtain ⟨hfree, hbounds⟩ := Machine.findFree_finds hfound
  have hlimit : wadd (s.machine.arch swapperPid).memMessageBase 0x400000 =
      (s.machine.arch swapperPid).memMessageBase + 0x400000 := Nat.mod_eq_of_lt (by omega)
  have hsub : wsub ((s.machine.arch swapperPid).memMessageBase + 0x400000) pageSize =
      (s.machine.arch swapperPid).memMessageBase + 0x400000 - pageSize := by
    simp only [wsub, pageSize]
    omega
  have hroom : found ≤ (s.machine.arch swapperPid).memMessageBase + 0x400000 := by
    rw [hlimit, hsub, mem_pages, mem_pages] at hbounds
    omega
  refine ⟨⟨rfl, .refl _, fun h => ⟨h.lent, h.unrooted, ?_, ?_⟩, fun _ _ h => h,
    fun _ _ _ _ => rfl⟩, hswapper, rfl, ?_, ?_⟩
  · simpa [Machine.updateArch, hswapper] using h.messageBase
  · simpa [Machine.updateArch, hswapper] using hroom
  · -- the address itself is among those that were looked at
    rw [Machine.allFree, List.all_eq_true] at hfree
    apply hfree
    have hend : wadd found pageSize = found + pageSize :=
      Nat.mod_eq_of_lt (by simp only [pageSize]; omega)
    rw [mem_pages, hend]
    simp [pageSize]
  · simp only [pageTableOffset]
    omega

theorem invalid_of_available {m : Machine} {virt : Nat} (h : m.addressAvailable virt = true)
    (hroot : m.rootValid virt = true) : (m.entry virt).valid = false := by
  by_contra hvalid
  rw [Bool.not_eq_false] at hvalid
  unfold addressAvailable virtToPhys at h
  by_cases hlent : (m.entry virt).s <;> simp [hroot, hvalid, hlent] at h

/-- A page that is mapped into the swapper is there, or nothing is. -/
structure Lodged (s : SwapMachine) (paddr payload : Nat) (s' : SwapMachine) : Prop where
  frame : s.Frame s'
  satp : s'.machine.satp = swapperPid
  others : ∀ q, q ≠ swapperPid → s'.machine.mem.l1 q = s.machine.mem.l1 q ∧
    s'.machine.mem.pt q = s.machine.mem.pt q
  payload : s'.machine.rootValid payload = true → (s'.machine.entry payload).valid = true →
    (s'.machine.entry payload).ppn = paddr / pageSize % 2 ^ 20

theorem mapPageToSwapper_post (h : s.Tables) (paddr : Nat) :
    Post (mapPageToSwapper paddr) (fun payload s' => Lodged s paddr payload s') (fun _ _ => False) s := by
  unfold mapPageToSwapper
  rw [post_bind, activateMapping, post_inTables, post_modify, post_bind, post_unwrap]
  have hactive := s.frame_activate swapperPid
  apply (findMessages_post (hactive.tables h) rfl).mono _ fun _ _ _ => trivial
  rintro payload s1 ⟨hframe1, hsatp1, hmem1, havailable, hbelow⟩
  rw [post_bind, post_attempt]
  have hmem : s1.machine.mem = s.machine.mem := hmem1
  have hlodged : ∀ s2, Inside s1 s2 → (s2.machine.rootValid payload = true → (s2.machine.entry payload).valid = true →
      (s2.machine.entry payload).ppn = paddr / pageSize % 2 ^ 20) → Lodged s paddr payload s2 := by
    intro s2 hinside hpayload
    refine ⟨(hactive.trans hframe1).trans hinside.frame, hinside.satp.trans hsatp1, ?_, hpayload⟩
    intro q hq
    rw [← hmem]
    exact hinside.others q (hsatp1 ▸ hq)
  apply (mapPageWith_post 3 swapperPid paddr payload { r := true, w := true } true s1).mono
  · rintro _ s2 ⟨hmapped, -⟩
    apply hlodged s2 hmapped.toInside
    intro _ _
    rw [hmapped.entry]
    rfl
  · intro _ s2 hrefused
    -- a failure leaves the entry as it was, and it was not valid
    apply hlodged s2 hrefused.toInside
    intro _ hvalid
    have hentry : s2.machine.entry payload = s.machine.mem.pt swapperPid (vpn payload) := by
      have hlow : vpn payload < pageTableOffset / pageSize := by
        simp only [vpn, pageTableOffset, pageSize] at hbelow ⊢
        omega
      rw [Machine.entry, hrefused.satp, hrefused.below (vpn payload) hlow, hsatp1, hmem]
    have hinvalid : (s.machine.mem.pt swapperPid (vpn payload)).valid = false := by
      by_cases hroot : s.machine.mem.l1 swapperPid (vpn1 payload)
      · exact invalid_of_available (m := (s.activate swapperPid).machine) havailable hroot
      · rw [h.unrooted swapperPid (vpn payload) (Bool.eq_false_iff.mpr hroot)]
        rfl
    rw [hentry, hinvalid] at hvalid
    cases hvalid

end Swapper

end BaochipXous.Kernel.Swap
