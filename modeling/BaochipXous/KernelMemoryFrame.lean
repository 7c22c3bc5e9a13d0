import BaochipXous.KernelScheduler

/-!
What the memory manager leaves alone. Its programs change the machine by a few operations only; a
predicate that these keep is kept by every program.
-/

namespace BaochipXous.Kernel

open Prog

/-- The predicate is kept by every operation on the active address space, and by a switch to one of
the given address spaces. -/
structure Machine.Stable (I : Machine → Prop) (spaces : PID → Prop) : Prop where
  entry : ∀ m virt e, I m → I (m.setEntry virt e)
  root : ∀ m virt, I m → I (m.setRoot virt)
  table : ∀ m virt, I m → I (m.clearTable virt)
  owners : ∀ m allocations extraAllocations lastRamPage, I m →
    I { m with mem := { m.mem with allocations, extraAllocations, lastRamPage } }
  arch : ∀ m f, I m → I (m.updateArch f)
  lends : ∀ m lends, I m → I { m with lends }
  space : ∀ m pid, spaces pid → I m → I { m with satp := pid }

theorem keeps_claimReleaseMove {I : Machine → Prop}
    (howners : ∀ m allocations extraAllocations lastRamPage, I m →
      I { m with mem := { m.mem with allocations, extraAllocations, lastRamPage } })
    (addr : Nat) (pid : PID) (action : ClaimReleaseMove) :
    Keeps I (claimReleaseMove addr pid action) := by
  refine .ite _ (.fail _) (.bind (.gets _) fun m => .ite _ ?_ ?_)
  · exact .bind (.ofExcept _) fun _ => .modify fun m => howners m _ _ _
  · split
    · exact .fail _
    · exact .bind (.ofExcept _) fun _ => .modify fun m => howners m _ _ _

theorem Machine.stable_satp (p : PID) : Machine.Stable (fun m => m.satp = p) (· = p) where
  entry _ _ _ h := h
  root _ _ h := h
  table _ _ h := h
  owners _ _ _ _ h := h
  arch _ _ h := h
  lends _ _ h := h
  space _ _ hpid _ := hpid

theorem Machine.stable_current (p : PID) : Machine.Stable (fun m => m.current = p) fun _ => True where
  entry _ _ _ h := h
  root _ _ h := h
  table _ _ h := h
  owners _ _ _ _ h := h
  arch _ _ h := h
  lends _ _ h := h
  space _ _ _ h := h

variable (pid : PID)

namespace Machine.Stable

variable {I : Machine → Prop} {spaces : PID → Prop} (h : Machine.Stable I spaces)

include h

theorem allocPage : Keeps I (allocPage pid) := by
  refine .bind (.gets _) fun m => .bind (.assert _) fun _ => ?_
  split
  · exact .bind (.modify fun m => h.owners m _ _ _) fun _ => .pure _
  · exact .fail _

theorem claimReleaseMove (addr : Nat) (pid : PID) (action : ClaimReleaseMove) :
    Keeps I (claimReleaseMove addr pid action) := keeps_claimReleaseMove h.owners addr pid action

theorem activateMapping {pid : PID} (hpid : spaces pid) : Keeps I (activateMapping pid) :=
  .modify fun m => h.space m pid hpid

theorem mapPageWith (fuel : Nat) (pid : PID) (phys virt : Nat) (flags : MemoryFlags)
    (mapUser : Bool) : Keeps I (mapPageWith fuel pid phys virt flags mapUser) := by
  induction fuel generalizing phys virt flags mapUser with
  | zero => exact .halt
  | succ fuel ih =>
    refine .bind (.assert _) fun _ => .bind (.gets _) fun _ => .bind (.when _ ?_) fun _ =>
      .bind (.gets _) fun _ => .ite _ (.fail _) (.modify fun m => h.entry m _ _)
    exact .bind (h.allocPage pid) fun _ => .bind (.modify fun m => h.root m _) fun _ =>
      .bind (ih _ _ _ _) fun _ => .modify fun m => h.table m _

theorem mapPageInner (phys virt : Nat) (flags : MemoryFlags) (mapUser : Bool) :
    Keeps I (mapPageInner pid phys virt flags mapUser) := h.mapPageWith 3 pid phys virt flags mapUser

omit h in
theorem pagetableEntry (addr : Nat) : Keeps I (pagetableEntry addr) :=
  .ite _ (.fail _) (.bind (.gets _) fun _ => .ite _ (.gets _) (.fail _))

theorem unmapPageInner (virt : Nat) : Keeps I (unmapPageInner virt) :=
  .bind (pagetableEntry virt) fun _ => .bind (.modify fun m => h.entry m _ _) fun _ => .pure _

variable {srcSpace destSpace : PID}

section

variable (hsrc : spaces srcSpace) (hdest : spaces destSpace)

include hsrc hdest

theorem movePageInner (srcAddr : Nat) (destPid : PID) (destAddr : Nat) :
    Keeps I (movePageInner srcSpace srcAddr destPid destSpace destAddr) :=
  .bind (pagetableEntry _) fun _ => .ite _ (.fail _) <|
    .bind (.modify fun m => h.entry m _ _) fun _ => .bind (h.activateMapping hdest) fun _ =>
    .bind (.attempt (h.mapPageInner _ _ _ _ _)) fun _ => .bind (h.activateMapping hsrc) fun _ =>
    .ofExcept _

theorem lendPageInner (srcAddr : Nat) (destPid : PID) (destAddr : Nat) (isMutable : Bool) :
    Keeps I (lendPageInner srcSpace srcAddr destPid destSpace destAddr isMutable) :=
  .bind (pagetableEntry _) fun _ => .ite _ (.fail _) <| .ite _ (.fail _) <|
    .bind (.modify fun m hm => h.lends _ _ (h.entry m _ _ hm)) fun _ =>
    .bind (h.activateMapping hdest) fun _ =>
    .bind (.attempt (h.mapPageInner _ _ _ _ _)) fun _ => .bind (h.activateMapping hsrc) fun _ =>
    .ofExcept _

theorem returnPageInner (srcAddr destAddr : Nat) : Keeps I (returnPageInner srcSpace srcAddr destSpace destAddr) :=
  .bind (pagetableEntry _) fun _ => .ite _ (.fail _) <|
    .bind (.modify fun m => h.entry m _ _) fun _ => .bind (h.activateMapping hdest) fun _ =>
    .bind (.unwrap (pagetableEntry _)) fun _ => .bind (.assert _) fun _ =>
    .bind (.modify fun m hm => h.lends _ _ (h.entry m _ _ hm)) fun _ =>
    .bind (h.activateMapping hsrc) fun _ => .pure _

end

theorem ensurePageExistsInner (address : Nat) : Keeps I (ensurePageExistsInner address) :=
  .bind (.gets _) fun _ => .ite _ (.fail _) <| .bind (.gets _) fun _ => .ite _ (.fail _) <|
    .bind (.gets _) fun _ => .ite _ (.pure _) <| .ite _ (.fail _) <| .bind (.gets _) fun _ =>
    .bind (.unwrap (h.allocPage _)) fun _ => .modify fun m => h.entry m _ _

theorem handPageToUser (virt : Nat) : Keeps I (handPageToUser virt) :=
  .bind (.gets _) fun _ => .bind (.gets _) fun _ => .ite _ (.fail _) <| .ite _ (.fail _) <|
    .modify fun m => h.entry m _ _

theorem findVirtualAddress (virtPtr size : Nat) (kind : MemoryType) :
    Keeps I (findVirtualAddress virtPtr size kind) := by
  refine .ite _ (.pure _) (.bind .get fun m => ?_)
  cases kind with
  | stack => exact .fail _
  | heap => exact .ite _ (.fail _) (.pure _)
  | default | messages =>
    exact .bind (.ofOption _ _) fun _ => .bind (.modify fun m => h.arch m _) fun _ => .pure _

theorem mapZeroedPage (isUser : Bool) : Keeps I (mapZeroedPage pid isUser) := by
  refine .bind (h.findVirtualAddress _ _ _) fun _ => .bind (h.allocPage _) fun _ =>
    .bind (.attempt (h.mapPageInner _ _ _ _ _)) fun result => ?_
  cases result with
  | error _ => exact .bind (.attempt (h.claimReleaseMove _ _ _)) fun _ => .fail _
  | ok _ => exact .bind (.when _ (h.handPageToUser _)) fun _ => .pure _

theorem unmapPage (virt : Nat) : Keeps I (unmapPage virt) := by
  refine .bind (.gets _) fun _ => .bind (.gets _) fun phys => ?_
  split
  · exact .bind (.attempt (h.claimReleaseMove _ _ _)) fun _ => h.unmapPageInner _
  · exact h.unmapPageInner _

theorem movePage (hsrc : spaces srcSpace) (hdest : spaces destSpace) (srcPid : PID) (srcAddr : Nat)
    (destPid : PID) (destAddr : Nat) :
    Keeps I (movePage srcPid srcSpace srcAddr destPid destSpace destAddr) :=
  .bind (.gets _) fun _ => .bind (.ofExcept _) fun _ =>
    .bind (h.movePageInner hsrc hdest _ _ _) fun _ => h.claimReleaseMove _ _ _

theorem movePageRaw (physAddr : Nat) (destPid : PID) : Keeps I (movePageRaw physAddr destPid) :=
  .bind (.gets _) fun _ => h.claimReleaseMove _ _ _

omit h in
theorem keepError {α : Type} (error : Option Error) {m : MM α} (hm : Keeps I m) : Keeps I (keepError error m) := by
  refine .bind (.attempt hm) fun result => ?_
  cases result with
  | ok _ | error _ => exact .pure _

end Machine.Stable

/-- The predicate is kept by every operation of the memory manager. -/
structure Core.Stable (I : Core → Prop) (spaces : PID → Prop) : Prop where
  machine : ∀ s : Core, Machine.Stable (fun machine => I { s with machine }) spaces
  current : ∀ s, I s → spaces s.machine.current

namespace Core.Stable

variable {I : Core → Prop} {spaces : PID → Prop}

theorem withMachine {α : Type} {m : MM α} (hm : ∀ s : Core, Keeps (fun machine => I { s with machine }) m) :
    Keeps I (withMachine m) :=
  .zoom (J := fun s machine => I { s with machine }) (fun s _ => hm s) (fun _ hs => hs) fun _ _ _ h => h

theorem getProcess : Keeps I (getProcess pid) :=
  .bind (.gets _) fun _ => .ite _ (.fail _) (.pure _)

variable (h : Core.Stable I spaces)

include h

variable {destPid : PID}

theorem transferMemory (hdest : spaces destPid) (srcVirt destVirt len : Nat)
    {page : PID → Nat → Nat → MM Unit} (hpage : ∀ (s : Core) src a b, spaces src →
      Keeps (fun machine => I { s with machine }) (page src a b)) :
    Keeps I (transferMemory srcVirt destPid destVirt len page) := by
  refine .bind_gets fun s hs => ?_
  have hcurrent := h.current s hs
  refine Keeps.ite _ ?_ ?_ s hs
  · exact .bind (withMachine fun s => .forEach _ fun _ => (h.machine s).ensurePageExistsInner _) fun _ => .pure _
  · refine .bind (getProcess _) fun _ => .bind (getProcess _) fun _ => withMachine fun s => ?_
    have hs := h.machine s
    refine .bind (hs.activateMapping hdest) fun _ => .bind (.attempt (hs.findVirtualAddress _ _ _)) fun result => ?_
    cases result with
    | error _ => exact .bind (hs.activateMapping hcurrent) fun _ => .fail _
    | ok _ =>
      refine .bind (hs.activateMapping hcurrent) fun _ => .bind (.foldEach _ _ fun _ _ => ?_)
        fun _ => .bind (.assert _) fun _ => .pure _
      exact .bind (.assert _) fun _ => .bind (.assert _) fun _ =>
        .bind (hs.ensurePageExistsInner _) fun _ =>
        Machine.Stable.keepError _ (hpage s _ _ _ hcurrent)

theorem sendMemory (hdest : spaces destPid) (srcVirt destVirt len : Nat) :
    Keeps I (sendMemory srcVirt destPid destVirt len) :=
  .ite _ (.fail _) <| .ite _ (.fail _) <| h.transferMemory hdest _ _ _ fun s _ _ _ hsrc =>
    (h.machine s).movePage hsrc hdest _ _ _ _

theorem returnMemoryTo (hdest : spaces destPid) (srcVirt destVirt len : Nat) :
    Keeps I (returnMemoryTo srcVirt destPid destVirt len) := by
  refine .ite _ (.fail _) (.bind_gets fun s hs => ?_)
  have hcurrent := h.current s hs
  refine Keeps.ite _ (.pure _) ?_ s hs
  refine .bind (getProcess _) fun _ => .bind (getProcess _) fun _ =>
    .bind (withMachine fun s => .foldEach _ _ fun _ _ =>
      Machine.Stable.keepError _ ((h.machine s).returnPageInner hcurrent hdest _ _)) fun error => ?_
  cases error with
  | none => exact .pure _
  | some _ => exact .fail _

end Core.Stable

end BaochipXous.Kernel
