import BaochipXous.KernelActivationErrors
import BaochipXous.KernelTransferSpec

/-!
Freeing the memory of a process, and what a failing transfer leaves behind. A page is to stay
allocated while another process maps it; whether one does is asked of the active page table at the
virtual address with the number of the physical page.
-/

namespace BaochipXous.Kernel

open Prog Memory

/-- A page that has an entry in one of the two ownership tables. -/
inductive PhysPage where
  | main (index : Nat)
  | extra (index : Nat)
  deriving DecidableEq

variable (m : Memory) (pid : PID)

namespace Memory

/-- The physical address of a page; an entry past the end of its table is no page. -/
def address : PhysPage → Option Nat
  | .main i => if i < m.ramSize / pageSize then some (m.ramStart + i * pageSize) else none
  | .extra i => extraAddress i m.extraRegions

def owner : PhysPage → Option PID
  | .main i => m.allocations i
  | .extra i => m.extraAllocations i

def Maps (phys : Nat) : Prop :=
  ∃ virt, m.l1 pid (vpn1 virt) = true ∧ (m.pt pid (vpn virt)).valid = true ∧
    (m.pt pid (vpn virt)).phys = phys

/-- No page without an owner is mapped by one of the live processes. -/
def FreeUnmapped (live : PID → Prop) (m : Memory) : Prop :=
  ∀ page phys, m.address page = some phys → m.owner page = none →
    ∀ pid, live pid → ¬m.Maps pid phys

def OthersKept (m m' : Memory) : Prop :=
  ∀ page other, other ≠ pid → m.owner page = some other → m'.owner page = some other

end Memory

def Machine.released (m : Machine) (pid : PID) : Machine :=
  match releaseAllMemoryForProcess pid m with
  | .ok _ m' => m'
  | _ => m

theorem releaseAllMemoryForProcess_eq (m : Machine) :
    releaseAllMemoryForProcess pid m = .ok () (m.released pid) := rfl

namespace Machine

variable (m : Machine) (pid : PID)

@[simp] theorem released_address (page : PhysPage) : (m.released pid).mem.address page = m.mem.address page := by
  cases page <;> rfl

@[simp] theorem released_maps (q : PID) (phys : Nat) : (m.released pid).mem.Maps q phys ↔ m.mem.Maps q phys := Iff.rfl

variable {page : PhysPage}

theorem released_owner {phys : Nat} (haddr : m.mem.address page = some phys) :
    (m.released pid).mem.owner page = if m.mem.owner page = some pid then (if m.pageIsLent phys then some pid1 else none)
      else m.mem.owner page := by
  cases page with
  | main i =>
    simp only [address, Option.ite_none_right_eq_some, Option.some.injEq] at haddr
    obtain ⟨hindex, rfl⟩ := haddr
    simp only [released, releaseAllMemoryForProcess, Prog.modify, owner, hindex, true_and]
    congr
  | extra i =>
    simp only [address] at haddr
    simp only [released, releaseAllMemoryForProcess, Prog.modify, owner, haddr]
    congr

theorem released_owner_of_address_none (haddr : m.mem.address page = none) :
    (m.released pid).mem.owner page = m.mem.owner page := by
  cases page with
  | main i =>
    simp only [address, ite_eq_right_iff, reduceCtorEq, imp_false] at haddr
    simp only [released, releaseAllMemoryForProcess, Prog.modify, owner, haddr, false_and, if_false]
  | extra i =>
    simp only [address] at haddr
    simp only [released, releaseAllMemoryForProcess, Prog.modify, owner, haddr]

theorem released_othersKept : Memory.OthersKept pid m.mem (m.released pid).mem := by
  intro page other hother howner
  rcases Option.eq_none_or_eq_some (m.mem.address page) with haddr | ⟨phys, haddr⟩
  · rw [m.released_owner_of_address_none pid haddr, howner]
  · have hforeign : m.mem.owner page ≠ some pid := by
      rw [howner]
      exact fun h => hother (Option.some.inj h)
    rw [m.released_owner pid haddr, if_neg hforeign, howner]

/-- A page is free afterwards if it was free before, or if the process owned it and it was not taken
for lent. -/
theorem released_owner_eq_none_iff {phys : Nat} (haddr : m.mem.address page = some phys) :
    (m.released pid).mem.owner page = none ↔
      m.mem.owner page = none ∨ (m.mem.owner page = some pid ∧ m.pageIsLent phys = false) := by
  rw [m.released_owner pid haddr]
  by_cases howner : m.mem.owner page = some pid
  · cases hlent : m.pageIsLent phys <;> simp [howner]
  · simp [howner]

end Machine

/-- After the memory of a process is freed no free page is mapped by a live process, and no other
process has lost a page, just when the first held before, and each page that a live process maps too
is marked as lent in the entry at the virtual address of its number. -/
theorem released_memory_is_isolated_iff (pid : PID) (live : PID → Prop) (m : Machine) :
    (∃ m', releaseAllMemoryForProcess pid m = .ok () m' ∧ Memory.FreeUnmapped live m'.mem ∧
      Memory.OthersKept pid m.mem m'.mem) ↔
    Memory.FreeUnmapped live m.mem ∧
      ∀ page phys, m.mem.address page = some phys → m.mem.owner page = some pid →
        (∃ q, live q ∧ m.mem.Maps q phys) → m.pageIsLent phys = true := by
  constructor
  · rintro ⟨m', hrun, hfree, -⟩
    obtain rfl : m.released pid = m' := by
      rw [releaseAllMemoryForProcess_eq] at hrun
      injection hrun
    refine ⟨fun page phys haddr howner q hq => ?_, fun page phys haddr howner hmapped => ?_⟩
    · have hnone := (m.released_owner_eq_none_iff pid haddr).mpr (.inl howner)
      exact hfree page phys (by rw [m.released_address, haddr]) hnone q hq
    · obtain ⟨q, hq, hmaps⟩ := hmapped
      by_contra hnot
      have hnone := (m.released_owner_eq_none_iff pid haddr).mpr
        (.inr ⟨howner, Bool.eq_false_of_not_eq_true hnot⟩)
      exact hfree page phys (by rw [m.released_address, haddr]) hnone q hq hmaps
  · rintro ⟨hfree, hlent⟩
    refine ⟨m.released pid, releaseAllMemoryForProcess_eq pid m, ?_, m.released_othersKept pid⟩
    intro page phys haddr howner q hq hmaps
    rw [m.released_address] at haddr
    rw [m.released_maps] at hmaps
    rcases (m.released_owner_eq_none_iff pid haddr).mp howner with hnone | ⟨hown, hnot⟩
    · exact hfree page phys haddr hnone q hq hmaps
    · rw [hlent page phys haddr hown ⟨q, hq, hmaps⟩] at hnot
      contradiction

/-- Process 2 owns the fourth page and maps it at 0x20000000; process 3 has a table for the
addresses at which it borrows. -/
def lenderMachine : Machine :=
  { (smallKernel (.ready (threadBit 2)) idleServer).core.machine with
    mem := { smallMemory with
      allocations := fun i => if i = 3 then some pid2 else none
      l1 := fun pid i => (pid = pid2 ∧ i = 0x80) ∨ (pid = pid3 ∧ i = 0x100)
      pt := fun pid v =>
        if pid = pid2 ∧ v = 0x20000 then
          { ppn := 0x61003, valid := true, r := true, w := true, user := true, a := true, d := true }
        else .zero } }

def lentMachine : Machine :=
  let lender := lenderMachine.setEntry 0x20000000
    { ppn := 0x61003, r := true, w := true, user := true, a := true, d := true, s := true }
  let borrower := { lender with satp := pid3 }.setEntry 0x40000000
    { ppn := 0x61003, valid := true, r := true, w := true, user := true, a := true, d := true }
  { borrower with satp := pid2, lends := [⟨0x61003, pid2, 0x20000, pid3, 0x40000⟩] }

theorem lenderMachine_lends :
    lendPageInner pid2 0x20000000 pid3 pid3 0x40000000 true lenderMachine = .ok 0x61003000 lentMachine := by rfl

/-- Besides the borrowed page process 3 maps nothing, and no third process maps anything. -/
theorem lentMachine_pt {pid : PID} (hpid : pid ≠ pid2) {v : Nat}
    (hvalid : (lentMachine.mem.pt pid v).valid = true) : (lentMachine.mem.pt pid v).phys = 0x61003000 := by
  by_cases hborrowed : pid = pid3 ∧ v = vpn 0x40000000
  · rw [hborrowed.1, hborrowed.2]
    decide +kernel
  · have hzero : lentMachine.mem.pt pid v = .zero := by
      refine (Machine.setEntry_of_ne _ _ _ (Decidable.not_and_iff_or_not.mp hborrowed)).trans ?_
      refine (Machine.setEntry_of_ne _ _ _ (.inl hpid)).trans ?_
      exact if_neg fun h => hpid h.1
    rw [hzero] at hvalid
    contradiction

theorem lentMachine_freeUnmapped : lentMachine.mem.FreeUnmapped (· ≠ pid2) := by
  rintro page phys haddr howner pid hpid ⟨virt, -, hvalid, rfl⟩
  rw [lentMachine_pt hpid hvalid] at haddr
  cases page with
  | main i =>
    have hindex : 0x61000000 + i * pageSize = 0x61003000 := by
      simp only [address, Option.ite_none_right_eq_some, Option.some.injEq] at haddr
      exact haddr.2
    obtain rfl : i = 3 := by
      simp only [pageSize] at hindex
      omega
    exact absurd howner (by decide +kernel)
  | extra i => cases haddr

/-- The page is free then, and process 3 still maps it. -/
theorem released_page_is_still_mapped :
    lendPageInner pid2 0x20000000 pid3 pid3 0x40000000 true lenderMachine =
        .ok 0x61003000 lentMachine ∧
      lentMachine.mem.FreeUnmapped (· ≠ pid2) ∧
      ∃ m', releaseAllMemoryForProcess pid2 lentMachine = .ok () m' ∧
        ¬m'.mem.FreeUnmapped (· ≠ pid2) := by
  refine ⟨lenderMachine_lends, lentMachine_freeUnmapped, _, releaseAllMemoryForProcess_eq _ _, ?_⟩
  intro hfree
  refine hfree (.main 3) 0x61003000 (by decide) (by decide +kernel) pid3 (by decide) ?_
  exact ⟨0x40000000, by decide +kernel, by decide +kernel, by decide +kernel⟩

/-- The addresses and the length pass the checks that both transfers make. -/
def WholeRange (srcVirt destVirt len : Nat) : Prop :=
  len ≠ 0 ∧ len % pageSize = 0 ∧ srcVirt % pageSize = 0 ∧ destVirt % pageSize = 0

section

variable {s s' : Core} {srcVirt destVirt len : Nat} {destPid : PID} {e : Error}
  (hsatp : s.machine.satp = s.machine.current) (hlive : s.Live s.machine.current)
  (hlen : len < 2 ^ 32)

include hsatp hlive hlen

theorem sendMemory_err (herr : sendMemory srcVirt destPid destVirt len s = .err e s') :
    s'.machine.mem = s.machine.mem ↔ ¬(WholeRange srcVirt destVirt len ∧
      saturatingAdd destVirt len ≤ userAreaEnd ∧ s.TearsAt srcVirt destPid destVirt len) := by
  unfold sendMemory at herr
  split_ifs at herr with hbad hlarge
  · cases herr
    exact iff_of_true rfl fun h => by simp [h.1.1, h.1.2] at hbad
  · cases herr
    exact iff_of_true rfl fun h => absurd h.2.1 (Nat.not_le.mpr hlarge)
  · push Not at hbad
    rw [transferMemory_err hbad.2.2.1 hlen hsatp hlive givesPage_move destVirt herr]
    simp [WholeRange, hbad, Nat.not_lt.mp hlarge]

theorem lendMemory_err (isMutable : Bool) (herr : lendMemory srcVirt destPid destVirt len isMutable s = .err e s') :
    s'.machine.mem = s.machine.mem ↔ ¬(WholeRange srcVirt destVirt len ∧ s.TearsAt srcVirt destPid destVirt len) := by
  unfold lendMemory at herr
  split_ifs at herr with hzero hbad
  · cases herr
    exact iff_of_true rfl fun h => h.1.1 hzero
  · cases herr
    exact iff_of_true rfl fun h => by simp [h.1.2] at hbad
  · push Not at hbad
    rw [transferMemory_err hbad.2.1 hlen hsatp hlive (fun hne => givesPage_lend hne isMutable) destVirt herr]
    simp [WholeRange, hzero, hbad]

/-- **Failed transfers.** A transfer that returns an error has left all page tables and owners as they
were, just when the checks refuse its range or no missing page tears it. -/
theorem failed_transfer_keeps_memory_iff :
    (sendMemory srcVirt destPid destVirt len s = .err e s' →
      (s'.machine.mem = s.machine.mem ↔ ¬(WholeRange srcVirt destVirt len ∧
        saturatingAdd destVirt len ≤ userAreaEnd ∧ s.TearsAt srcVirt destPid destVirt len))) ∧
      ∀ isMutable, lendMemory srcVirt destPid destVirt len isMutable s = .err e s' →
        (s'.machine.mem = s.machine.mem ↔
          ¬(WholeRange srcVirt destVirt len ∧ s.TearsAt srcVirt destPid destVirt len)) :=
  ⟨sendMemory_err hsatp hlive hlen, lendMemory_err hsatp hlive hlen⟩

end

def lenderCore : Core :=
  { (smallKernel (.ready (threadBit 2)) idleServer).core with machine := lenderMachine }

/-- The first of two pages is missing, and nothing has been moved. -/
theorem missing_first_page_keeps_memory :
    ∃ e s', sendMemory 0x1FFFF000 pid3 0x40000000 0x2000 lenderCore = .err e s' ∧
      s'.machine.mem = lenderCore.machine.mem := by
  have herrs : (sendMemory 0x1FFFF000 pid3 0x40000000 0x2000 lenderCore).errs (fun _ _ => true) = true := rfl
  obtain ⟨e, s', herr, -⟩ := Outcome.exists_of_errs herrs
  refine ⟨e, s', herr, ((failed_transfer_keeps_memory_iff rfl (by decide) (by decide)).1 herr).mpr ?_⟩
  rintro ⟨-, -, htears⟩
  exact absurd htears.2.2 (by decide +kernel)

/-- The first of two pages is moved; the second is missing, and the error finds the first one gone. -/
theorem torn_send_loses_page :
    ∃ e s', sendMemory 0x20000000 pid3 0x40000000 0x2000 lenderCore = .err e s' ∧
      s'.machine.mem ≠ lenderCore.machine.mem := by
  have herr : (sendMemory 0x20000000 pid3 0x40000000 0x2000 lenderCore).errs (fun _ s' =>
      !(s'.machine.mem.pt pid2 0x20000).valid) = true := rfl
  obtain ⟨e, s', hs', hgone⟩ := Outcome.exists_of_errs herr
  refine ⟨e, s', hs', fun hsame => ?_⟩
  rw [hsame] at hgone
  exact absurd hgone (by decide +kernel)

end BaochipXous.Kernel
