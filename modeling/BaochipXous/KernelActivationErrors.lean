import BaochipXous.KernelMailbox
import BaochipXous.KernelRules

/-!
What an activation that fails leaves behind. A message delivered by an activation needs a slot for
its reply token, which is looked for after the new process has been entered.
-/

namespace BaochipXous.Kernel

open Prog PostActivateOp

/-- The process that runs, the address space in use, and the state and the current thread of every
process are the same. -/
structure SameScheduling (s s' : KState) : Prop where
  processes : s'.core.processes = s.core.processes
  current : s'.core.machine.current = s.core.machine.current
  satp : s'.core.machine.satp = s.core.machine.satp

/-- The process can be entered at the thread, where 0 stands for any. -/
def Core.CanEnter (s : Core) (pid : PID) (tid : TID) : Prop :=
  s.Live pid ∧
    match (s.processes pid).state with
    | .setup _ | .allocated | .exception _ => True
    | .ready x => tid = 0 ∨ hasThread x tid = true
    | _ => False

variable (pid newPid : PID) (newTid : TID)

theorem chooseThread_post (s : Core) :
    Post (chooseThread newPid newTid) (fun _ s' => s.CanEnter newPid newTid ∧ s'.Live newPid ∧
        (s'.processes newPid).state = (s.processes newPid).state)
      (fun _ s' => s' = s ∧ ¬s.CanEnter newPid newTid ∧
        (s.Live newPid → ∀ x, (s.processes newPid).state ≠ .running x)) s := by
  unfold chooseThread
  rw [post_bind, post_getProcess]
  refine ⟨fun hlive => ?_, fun hdead => ⟨rfl, fun h => hdead h.1, fun h => absurd h hdead⟩⟩
  cases hstate : (s.processes newPid).state with
  | ready x =>
    simp only [post_bind, post_assert]
    intro _
    apply (givenOrNext_post _ x _ s).never.imp
    rintro tid s' ⟨rfl, hany, hgiven⟩
    -- the thread is in the set just when it was left open or was given and is in the set
    have hset : hasThread x tid = true ↔ newTid = 0 ∨ hasThread x newTid = true := by
      by_cases hzero : newTid = 0
      · simp [hzero, hany (if_pos hzero)]
      · simp [hzero, hgiven newTid (if_neg hzero)]
    simp only [post_ite, post_fail, post_bind, post_setCurrentThread, post_pure,
      Bool.not_eq_true', Core.CanEnter, hstate, ← hset]
    refine ⟨fun hnot => by simp [hnot], fun hset => ⟨⟨hlive, by simpa using hset⟩, ?_⟩⟩
    exact ⟨hlive.setProcess hlive.2.1 (by simp), by simp⟩
  | _ => simp [Core.CanEnter, hstate, hlive]

theorem setupProcess_servers (threadInit : ThreadInit) (s : KState) :
    Leaves (setupProcess pid threadInit) (·.servers = s.servers) s := by
  simp only [setupProcess, post_bind, post_gets, post_assert, post_withCore, post_modify,
    post_updateArch, post_when, post_unwrap, post_withMachine, post_pure]
  intro _ _
  refine ⟨fun _ => ?_, fun _ => trivial⟩
  unfold Post
  split <;> trivial

theorem markRunning_post (state : ProcessState) (s : KState) :
    Post (markRunning newPid newTid state) (fun _ s' => s'.servers = s.servers ∧ ((∀ x, state ≠ .exception x) →
        ∃ x, (s'.core.processes newPid).state = .running x)) (fun _ _ => False) s := by
  cases state with
  | setup threadInit =>
    simp only [markRunning, post_bind, post_unwrap]
    apply (setupProcess_servers newPid threadInit s).mono
    · exact fun _ s' h => ⟨h, fun _ => ⟨0, by simp⟩⟩
    · exact fun _ _ _ => trivial
  | _ => simp [markRunning]

/-- Entering a process that exists does not fail; it runs then, and the servers are as before. -/
theorem enterProcess_post (s : KState) (hlive : s.core.Live newPid) :
    Post (enterProcess newPid newTid) (fun _ s' => s'.core.machine.current = newPid ∧ s'.servers = s.servers ∧
        ((∀ x, (s.core.processes newPid).state ≠ .exception x) →
          ∃ x, (s'.core.processes newPid).state = .running x)) (fun _ _ => False) s := by
  unfold enterProcess
  rw [post_bind, post_withCore, post_getProcess]
  refine ⟨fun _ => ?_, fun hdead => absurd hlive hdead⟩
  rw [post_bind, post_withCore, post_withMachine, post_activateMapping]
  apply (markRunning_post newPid newTid _ _).bind
  intro _ s' hs'
  simp only [post_bind, post_withCore, post_noteTaken, post_activateProcess]
  exact fun _ _ => ⟨trivial, hs'.1, hs'.2⟩

theorem queueResponse_post (tid : TID) (message : Message)
    (address : Option MemoryAddress) (server : Server) (hhead : server.queueHead < server.queue.length) :
    Post (Server.queueResponse pid tid message address) (fun _ _ => .empty ∈ server.queue)
      (fun _ server' => .empty ∉ server.queue ∧ server' = server) server := by
  rcases Server.queueResponse_cases pid tid message address hhead with hfull | ⟨i, hempty, hok⟩
  · rw [Post, hfull]
    refine ⟨fun hmem => ?_, rfl⟩
    obtain ⟨i, hi⟩ := List.mem_iff_getElem?.mp hmem
    have hlt : i < server.queue.length := (List.getElem?_eq_some_iff.mp hi).1
    obtain ⟨j, hj⟩ := Cyclic.exists_scan_eq_some hhead hlt (Server.emptyAt_iff.mpr hi)
    rw [Server.queueResponse, hj] at hfull
    contradiction
  · rw [Post, hok]
    exact List.mem_of_getElem? hempty

theorem leaveProcess_post (previousPid : PID) (previousTid : TID) (canResume : Bool) (s : Core) :
    Post (leaveProcess previousPid previousTid canResume) (fun _ _ => True) (fun _ _ => False) s := by
  unfold leaveProcess
  rw [post_bind, post_unwrap, post_getProcess]
  refine ⟨fun _ => ?_, fun _ => trivial⟩
  simp only [post_bind, post_setCurrentThread]
  cases (s.processes previousPid).state <;> simp [post_ite]

theorem switchWithinProcess_post (canResume : Bool) (s : Core) :
    Post (switchWithinProcess pid newTid canResume) (fun _ _ => True) (fun _ s' => s' = s ∧ (s.Live pid → newTid ≠ 0 ∧
        ∃ x, (s.processes pid).state = .running x ∧ hasThread x newTid = false)) s := by
  unfold switchWithinProcess
  rw [post_bind, post_getProcess]
  refine ⟨fun _ => ?_, fun hdead => ⟨rfl, fun hlive => absurd hlive hdead⟩⟩
  cases hstate : (s.processes pid).state with
  | running x =>
    simp only [post_bind, post_assert]
    intro _
    apply (givenOrNext_post _ _ _ s).never.imp
    rintro tid s' ⟨rfl, hany, hgiven⟩
    simp only [post_ite, post_fail, Bool.not_eq_true', true_and]
    refine ⟨fun hnot _ => ?_, fun _ => by simp⟩
    have hne : newTid ≠ 0 := by
      intro hzero
      rw [hany (if_pos hzero)] at hnot
      contradiction
    refine ⟨hne, x, rfl, ?_⟩
    rw [hgiven newTid (if_neg hne)] at hnot
    cases canResume <;> simp_all
  | _ => simp

section Delivery

variable (previousTid : TID) (newPid : PID) (newTid : TID) (canResume : Bool) (sidx : Nat)
  (pid : PID) (tid : TID) (message : Message) (address : Option MemoryAddress) (s : KState)
  (server : Server)

abbrev deliverByActivation : KM Nat :=
  activateProcessThread previousTid newPid newTid canResume
    (.rememberServerMessage sidx pid tid message address)

section

variable (hserver : s.serverAt sidx = some server) (hhead : server.queueHead < server.queue.length)

include hserver hhead

theorem perform_rememberServerMessage_post :
    Post (perform newTid (.rememberServerMessage sidx pid tid message address))
      (fun _ s' => .empty ∈ server.queue ∧ s'.core = s.core)
      (fun _ s' => .empty ∉ server.queue ∧ s'.core = s.core) s := by
  simp only [perform, post_bind, post_withServer, post_pure, hserver,
    Option.some.injEq, forall_eq', reduceCtorEq, false_implies, and_true]
  apply (queueResponse_post pid tid message address server hhead).mono
  · exact fun _ _ h => ⟨h, rfl⟩
  · exact fun _ _ h => ⟨h.1, rfl⟩

theorem activate_other_post (hother : newPid ≠ s.core.machine.current) :
    Post (deliverByActivation previousTid newPid newTid canResume sidx pid tid message address)
      (fun _ _ => s.core.CanEnter newPid newTid ∧ .empty ∈ server.queue)
      (fun _ s' => (s' = s ∧ ¬s.core.CanEnter newPid newTid ∧
          (s.core.Live newPid → ∀ x, (s.core.processes newPid).state ≠ .running x)) ∨
        (s.core.CanEnter newPid newTid ∧ .empty ∉ server.queue ∧ s'.core.machine.current = newPid ∧
          ((∀ x, (s.core.processes newPid).state ≠ .exception x) →
            ∃ x, (s'.core.processes newPid).state = .running x))) s := by
  unfold deliverByActivation activateProcessThread
  simp only [post_bind, post_withCore, post_currentPid, post_ite, ne_eq, hother, not_false_eq_true,
    true_implies, not_true_eq_false, false_implies, and_true]
  apply (chooseThread_post newPid newTid s.core).mono
  · rintro chosen core ⟨hcan, hlive, hstate⟩
    apply (enterProcess_post newPid chosen { s with core } hlive).never.imp
    rintro _ s1 ⟨hcurrent, hservers, hrunning⟩
    have hserver1 : s1.serverAt sidx = some server := by rwa [KState.serverAt, hservers]
    apply (perform_rememberServerMessage_post chosen sidx pid tid message address s1 server hserver1 hhead).mono
    · rintro _ s2 ⟨hempty, -⟩
      apply (leaveProcess_post _ previousTid canResume s2.core).never.imp
      simp only [post_archProcessCurrent, post_setTid, post_pure]
      exact fun _ _ _ _ _ => ⟨hcan, hempty⟩
    · rintro _ s2 ⟨hfull, hcore⟩
      refine .inr ⟨hcan, hfull, by rw [hcore, hcurrent], fun hcalm => ?_⟩
      rw [hcore]
      exact hrunning (hstate ▸ hcalm)
  · rintro _ core ⟨rfl, hcannot, hidle⟩
    exact .inl ⟨rfl, hcannot, hidle⟩

theorem activate_same_post (hsame : newPid = s.core.machine.current) :
    Post (deliverByActivation previousTid newPid newTid canResume sidx pid tid message address)
      (fun _ _ => .empty ∈ server.queue)
      (fun _ s' => s'.core = s.core ∧ (.empty ∉ server.queue ∨ (s.core.Live newPid → newTid ≠ 0 ∧
        ∃ x, (s.core.processes newPid).state = .running x ∧ hasThread x newTid = false))) s := by
  unfold deliverByActivation activateProcessThread
  simp only [post_bind, post_withCore, post_currentPid, post_ite, hsame, ne_eq, not_true_eq_false,
    not_false_eq_true, true_implies, false_implies, true_and]
  apply (perform_rememberServerMessage_post newTid sidx pid tid message address s server hserver hhead).mono
  · rintro _ s1 ⟨hempty, hcore⟩
    rw [post_getProcess, hcore]
    refine ⟨fun _ => ⟨fun _ => ?_, fun _ => ?_⟩, fun hdead => ⟨rfl, .inr fun h => absurd h hdead⟩⟩
    · simp [hempty]
    · apply (switchWithinProcess_post _ newTid canResume s.core).mono
      · simp [hempty]
      · rintro _ core ⟨rfl, hthread⟩
        exact ⟨rfl, .inr hthread⟩
  · exact fun _ _ h => ⟨h.2, .inl h.1⟩

end

theorem activate_none_post (hlive : s.core.Live s.core.machine.current) :
    Post (activateProcessThread previousTid newPid 0 canResume .none)
      (fun _ s' => (newPid ≠ s.core.machine.current → s.core.CanEnter newPid 0) ∧ s'.servers = s.servers)
      (fun _ s' => newPid ≠ s.core.machine.current ∧ ¬s.core.CanEnter newPid 0 ∧ s' = s) s := by
  unfold activateProcessThread
  rw [post_bind, post_withCore, post_currentPid, post_ite]
  refine ⟨fun hother => ?_, fun hsame => ?_⟩
  · rw [post_bind, post_withCore]
    apply (chooseThread_post newPid 0 s.core).mono
    · rintro chosen core ⟨hcan, hlive', -⟩
      apply (enterProcess_post newPid chosen { s with core } hlive').never.bind
      rintro _ s1 ⟨-, hservers, -⟩
      simp only [perform, post_bind, post_pure, post_withCore]
      apply (leaveProcess_post _ previousTid canResume s1.core).never.imp
      simp only [post_archProcessCurrent, post_setTid]
      exact fun _ _ _ _ _ => ⟨fun _ => hcan, hservers⟩
    · rintro _ core ⟨rfl, hcannot, -⟩
      exact ⟨hother, hcannot, rfl⟩
  · have hsame : newPid = s.core.machine.current := not_not.mp hsame
    simp only [perform, post_bind, post_pure, post_withCore, post_getProcess, hsame,
      hlive, ne_eq, not_true_eq_false, false_implies, true_implies, true_and, and_true, false_and]
    rw [post_ite]
    refine ⟨fun _ => by simp, fun _ => ?_⟩
    rw [post_bind, post_withCore]
    apply (switchWithinProcess_post _ 0 canResume s.core).mono
    · simp
    · exact fun _ _ h => absurd rfl (h.2 hlive).1

/-- **Error of a delivery.** A delivery that fails leaves the scheduling as it was unless it is to
another process that can be entered and whose queue is full. -/
theorem delivery_error_keeps_scheduling_iff (hserver : s.serverAt sidx = some server)
    (hhead : server.queueHead < server.queue.length)
    (hreturns : activateProcessThread previousTid newPid newTid canResume
      (.rememberServerMessage sidx pid tid message address) s ≠ .panic) :
    (∀ e s', activateProcessThread previousTid newPid newTid canResume
        (.rememberServerMessage sidx pid tid message address) s = .err e s' →
      SameScheduling s s') ↔
    ¬(newPid ≠ s.core.machine.current ∧ s.core.CanEnter newPid newTid ∧
      .empty ∉ server.queue) := by
  refine Post.err_iff ?_ hreturns
  by_cases hsame : newPid = s.core.machine.current
  · apply (activate_same_post previousTid newPid newTid canResume sidx pid tid message address s
      server hserver hhead hsame).mono
    · exact fun _ _ _ h => h.1 hsame
    · rintro _ s' ⟨hcore, -⟩
      exact iff_of_true ⟨by rw [hcore], by rw [hcore], by rw [hcore]⟩ fun h => h.1 hsame
  · apply (activate_other_post previousTid newPid newTid canResume sidx pid tid message address s
      server hserver hhead hsame).mono
    · exact fun _ _ hok h => h.2.2 hok.2
    · rintro _ s' (⟨rfl, hcannot, -⟩ | ⟨hcan, hfull, hcurrent, -⟩)
      · exact iff_of_true ⟨rfl, rfl, rfl⟩ fun h => hcannot h.2.1
      · refine iff_of_false (fun h => hsame ?_) (not_not.mpr ⟨hsame, hcan, hfull⟩)
        rw [← hcurrent, h.current]

end Delivery

def smallMemory : Memory where
  ramStart := 0x61000000
  ramSize := 0x10000
  lastRamPage := 0
  allocations := fun _ => none
  extraRegions := []
  extraAllocations := fun _ => none
  peripheralRam := (0, 0)
  l1 := fun _ _ => false
  pt := fun _ _ => .zero

/-- Process 2 runs its thread 2, and process 3, which owns server 0, is in the given state. Process 1
is the parent of both. -/
def smallKernel (state3 : ProcessState) (server : Server) : KState where
  core :=
    { machine :=
        { mem := smallMemory
          satp := pid2
          current := pid2
          arch := fun pid => .fresh pid ⟨0x1000, ⟨⟨0x7000, by decide⟩, ⟨0x1000, by decide⟩⟩, 0, 0, 0, 0⟩ 2
          lends := [] }
      processes := fun pid =>
        { mapped := decide (pid.get ≤ 3)
          state :=
            if pid = pid1 then .ready (threadBit 2)
            else if pid = pid2 then .running 0
            else if pid = pid3 then state3
            else .free
          ppid := pid1
          currentThread := 2
          previousThread := 2 }
      table := fun pid => decide (pid.get ≤ 3)
      woken := fun _ _ => false }
  connections := fun pid i => if pid = pid2 ∧ i = 0 then some 2 else none
  servers := fun sidx => if sidx = 0 then some server else none
  irqHandlers := fun _ => none
  irqEnabled := true
  handlingIrq := false
  previousPair := none
  switchtoCaller := some (pid1, 2)
  originalPid := pid2
  originalTid := 2
  nsTofu := false

def idleServer : Server := Server.init pid3 ⟨1, 2, 3, 4⟩ 0x8000 queueSlots

/-- A queue in which every slot holds the reply token of a blocking message. -/
def answerlessServer : Server :=
  { idleServer with
    queue := List.replicate queueSlots (.waitingReturnScalar pid1 5 0 0) }

/-- Process 2 sends process 3 a blocking message. -/
abbrev sampleDelivery : KM Nat :=
  deliverByActivation 2 pid3 2 false 0 pid2 2 (.blockingScalar ⟨0, 0, 0, 0, 0⟩) none

/-- The delivery fails for want of a slot, and process 3 is the current one then. -/
theorem delivery_to_answerless_server_switches_process :
    ∃ e s', sampleDelivery (smallKernel (.ready (threadBit 2)) answerlessServer) = .err e s' ∧
      ¬SameScheduling (smallKernel (.ready (threadBit 2)) answerlessServer) s' := by
  have herrs : (sampleDelivery (smallKernel (.ready (threadBit 2)) answerlessServer)).errs
      (fun _ s' => decide (s'.core.machine.current = pid3)) = true := by decide +kernel
  obtain ⟨e, s', hrun, hcurrent⟩ := Outcome.exists_of_errs herrs
  refine ⟨e, s', hrun, fun hsame => ?_⟩
  have hsame := hsame.current
  rw [of_decide_eq_true hcurrent] at hsame
  exact absurd hsame (by decide)

/-- A process that sleeps is not entered, and the same delivery loses nothing. -/
theorem delivery_to_sleeping_process_keeps_scheduling :
    ∃ e s', sampleDelivery (smallKernel .sleeping answerlessServer) = .err e s' ∧
      SameScheduling (smallKernel .sleeping answerlessServer) s' := by
  obtain ⟨e, s', hrun⟩ : ∃ e s', sampleDelivery (smallKernel .sleeping answerlessServer) = .err e s' := ⟨_, _, rfl⟩
  refine ⟨e, s', hrun, (delivery_error_keeps_scheduling_iff 2 pid3 2 false 0 pid2 2
    (.blockingScalar ⟨0, 0, 0, 0, 0⟩) none _ answerlessServer rfl (by decide +kernel)
    (by simp [hrun])).mpr ?_ e s' hrun⟩
  exact fun h => h.2.1.2

end BaochipXous.Kernel
