import BaochipXous.KernelActivationErrors
import BaochipXous.KernelServices

/-!
What the end of a process leaves to the others. `terminate_process` takes its servers away with all
that is in their queues; it wakes nobody and gives nothing back.
-/

namespace BaochipXous.Kernel

open Prog

def Process.CanRun (p : Process) (tid : TID) : Prop :=
  match p.state with
  | .running x => hasThread x tid = true ∨ tid % 32 = p.currentThread % 32
  | .ready x => hasThread x tid = true
  | .setup _ => tid % 32 = initialTid % 32
  | .free | .allocated | .sleeping | .exception _ | .blockedException _ => False

instance (p : Process) (tid : TID) : Decidable (p.CanRun tid) := by
  unfold Process.CanRun
  split <;> infer_instance

theorem canRun_of_taken {x : ThreadMask} {newThread tid : TID} (p : Process) (hset : hasThread x newThread = true) :
    { p with currentThread := newThread, state := .running (removeThread x newThread) }.CanRun tid ↔
      hasThread x tid = true := by
  simp only [Process.CanRun, hasThread_removeThread, Bool.and_eq_true, Bool.not_eq_true', decide_eq_false_iff_not]
  constructor
  · rintro (⟨h, -⟩ | h)
    · exact h
    · rwa [hasThread_eq, h, ← hasThread_eq]
  · intro h
    by_cases hsame : tid % 32 = newThread % 32
    · exact .inr hsame
    · exact .inl ⟨h, hsame⟩

/-- What a program leaves as it was: the threads that can run, and the page tables. -/
structure Core.SameThreads (start core : Core) : Prop where
  threads : ∀ pid tid, (core.processes pid).CanRun tid ↔ (start.processes pid).CanRun tid
  pages : core.machine.mem.pt = start.machine.mem.pt

theorem Core.SameThreads.setProcess {start core : Core} (h : start.SameThreads core) {pid : PID}
    {p : Process} (hp : ∀ tid, p.CanRun tid ↔ (core.processes pid).CanRun tid) :
    start.SameThreads (core.setProcess pid p) := by
  refine ⟨fun q tid => ?_, h.pages⟩
  by_cases hq : q = pid
  · subst hq
    rw [setProcess_same, hp, h.threads]
  · rw [setProcess_of_ne hq, h.threads]

theorem Core.SameThreads.setWoken {start core : Core} (h : start.SameThreads core) {pid : PID}
    {tid : TID} {b : Bool} : start.SameThreads (core.setWoken pid tid b) := ⟨h.threads, h.pages⟩

variable (pid : PID)

/-- A switch to a process changes no context unless the process is set up by it. -/
theorem switchToThread_post (core : Core) :
    Post (switchToThread pid none) (fun _ core' => core.SameThreads core' ∧ ∀ x, (core.processes pid).state = .ready x →
        (core'.machine.arch pid).threads = (core.machine.arch pid).threads) (fun _ _ => True) core := by
  rw [switchToThread, post_bind, post_getProcess]
  refine ⟨fun _ => ?_, fun _ => trivial⟩
  cases hstate : (core.processes pid).state with
  | free | sleeping | allocated => trivial
  | blockedException => trivial
  | exception =>
    simp only [post_bind, post_activateProcess, post_archProcessCurrent, post_setTid]
    exact fun _ _ _ _ => ⟨⟨fun _ _ => Iff.rfl, rfl⟩, by simp⟩
  | setup init =>
    simp only [post_bind, post_activateProcess, post_archProcessCurrent, post_setTid, post_assert,
      setupThread, post_ite, post_fail, post_updateThread, post_updateArch, post_setCurrentThread,
      post_setState, post_noteTaken, Core.setProcess_same, Core.setProcess_setProcess]
    intro _ _ _ _ _
    refine ⟨fun _ => trivial, fun _ _ _ => ⟨?_, by simp⟩⟩
    apply Core.SameThreads.setWoken
    apply Core.SameThreads.setProcess
    · exact ⟨fun _ _ => Iff.rfl, rfl⟩
    · intro tid
      simp [Process.CanRun, hstate]
  | ready x =>
    simp only [post_bind, post_assert]
    intro _
    refine (givenOrNext_post none x _ core).never.imp ?_
    rintro newThread _ ⟨rfl, -, -⟩
    simp only [post_activateProcess, post_archProcessCurrent, post_setTid, post_setCurrentThread,
      post_setState, post_noteTaken, Core.setProcess_same, Core.setProcess_setProcess]
    intro hset _ _ _ _
    refine ⟨?_, fun _ _ => by simp [Machine.updateArch, Core.setWoken]⟩
    apply Core.SameThreads.setWoken
    apply Core.SameThreads.setProcess
    · exact ⟨fun _ _ => Iff.rfl, rfl⟩
    · intro tid
      rw [canRun_of_taken _ hset]
      simp [Process.CanRun, hstate]
  | running x =>
    refine (givenOrNext_post none _ _ core).never.bind ?_
    rintro newThread _ ⟨rfl, hset, -⟩
    simp only [post_ite, post_fail, post_bind, post_archProcessCurrent, post_setTid,
      post_setCurrentThread, post_setState, post_noteReady, post_noteTaken, Core.setProcess_same,
      Core.setProcess_setProcess]
    refine ⟨fun _ => trivial, fun _ _ _ => ⟨?_, by simp⟩⟩
    apply Core.SameThreads.setWoken
    apply Core.SameThreads.setWoken
    apply Core.SameThreads.setProcess
    · exact ⟨fun _ _ => Iff.rfl, rfl⟩
    · intro tid
      rw [canRun_of_taken _ (hset rfl)]
      simp [Process.CanRun, hstate]

theorem disownServer_keeps (processes : PID → Process) (mem : Memory) (target : PID) (idx : Nat) :
    Keeps (fun s => s.core.processes = processes ∧ s.core.machine.mem = mem) (disownServer target idx) := by
  let I : KState → Prop := fun s => s.core.processes = processes ∧ s.core.machine.mem = mem
  have hactivate (pid : PID) : Keeps I (withCore (activateProcess pid)) := by
    intro s hs
    rw [post_withCore, post_activateProcess]
    exact fun _ _ => hs
  have hupdate (entry : Option Nat) : Keeps I (updateConnections idx entry) :=
    .forEach _ fun pid => .bind (.gets _) fun _ =>
      .when _ (.bind (hactivate pid) fun _ => .modify fun _ hs => hs)
  refine .bind .get fun s => ?_
  split
  · exact .pure ()
  · exact .bind (.when _ (hupdate _)) fun _ => .bind (hactivate _) fun _ => .modify fun _ hs => hs

/-- The end of a process changes neither what threads of other processes can run nor a page table. -/
theorem terminateProcess_frame (target : PID) (s : KState) :
    Post (terminateProcess target) (fun _ s' => (∀ pid, pid ≠ target → ∀ tid, (s'.core.processes pid).CanRun tid ↔
          (s.core.processes pid).CanRun tid) ∧ s'.core.machine.mem.pt = s.core.machine.mem.pt)
      (fun _ _ => True) s := by
  rw [terminateProcess, post_bind]
  refine (Keeps.forEach _ (fun idx => disownServer_keeps s.core.processes s.core.machine.mem target idx)
    s ⟨rfl, rfl⟩).weaken.imp fun _ s1 ⟨hprocesses, hmem⟩ => ?_
  rw [post_bind, post_modify, post_bind, post_withCore, post_getProcess]
  refine ⟨fun _ => ?_, fun _ => trivial⟩
  rw [post_bind, post_withCore, post_activateProcess]
  intro _ _
  rw [post_bind, terminateEntry, post_bind, post_gets, post_ite]
  refine ⟨fun _ => trivial, fun _ => ?_⟩
  rw [post_bind, post_withCore, post_withMachine, releaseAllMemoryForProcess, post_modify, post_bind,
    post_modify, post_withCore, post_bind, post_modify, post_setState, post_bind, post_withCore,
    post_unwrap]
  refine (switchToThread_post _ _).imp fun _ core h => ⟨fun pid hpid tid => ?_, ?_⟩
  · rw [h.1.threads, Core.setProcess_of_ne hpid]
    exact iff_of_eq (congrArg (fun processes => Process.CanRun (processes pid) tid) hprocesses)
  · have hpt : s1.core.machine.mem.pt = s.core.machine.mem.pt := congrArg Memory.pt hmem
    rwa [h.1.pages]

namespace QueuedMessage

/-- The thread that waits for the answer to a message, received or not. -/
def waiter : QueuedMessage → Option (PID × TID)
  | blockingScalarMessage pid tid .. | memoryMessageROLend pid tid .. | memoryMessageRWLend pid tid ..
  | waitingReturnMemory pid tid .. | waitingReturnScalar pid tid .. => some (pid, tid)
  | empty | scalarMessage .. | memoryMessageSend .. | memoryMessageROLendTerminated ..
  | memoryMessageRWLendTerminated .. | blockingScalarTerminated .. | waitingForget .. => none

def loan : QueuedMessage → Option (PID × Nat × Nat)
  | memoryMessageROLend pid _ _ clientAddr _ _ bufSize ..
  | memoryMessageRWLend pid _ _ clientAddr _ _ bufSize .. => some (pid, clientAddr, bufSize)
  | waitingReturnMemory pid _ _ _ clientAddr len => some (pid, clientAddr, len)
  | empty | scalarMessage .. | blockingScalarMessage .. | memoryMessageSend ..
  | memoryMessageROLendTerminated .. | memoryMessageRWLendTerminated .. | blockingScalarTerminated ..
  | waitingForget .. | waitingReturnScalar .. => none

end QueuedMessage

variable (s : KState)

def KState.Holds (target : PID) (entry : QueuedMessage) : Prop :=
  ∃ idx server, idx < maxServerCount ∧ s.servers idx = some server ∧ server.pid = target ∧
    entry ∈ server.queue

def Core.HasError (core : Core) (pid : PID) (tid : TID) : Prop :=
  ∃ e : Error, ∀ r, 9 ≤ r → r < 17 →
    ((core.machine.arch pid).threads tid).registers r = (KResult.error e).toArgs.getD (r - 9) 0

def Core.Mapped (core : Core) (pid : PID) (addr len : Nat) : Prop :=
  ∀ virt ∈ pages addr (wadd addr len), (core.machine.mem.pt pid (vpn virt)).valid = true

/-- The clients of the servers of `target` have an answer: threads that wait can run, those that
could not were given an error, lent memory is back. -/
def KState.Released (target : PID) (core : Core) : Prop :=
  ∀ entry, s.Holds target entry →
    (∀ pid tid, entry.waiter = some (pid, tid) → pid ≠ target →
      (core.processes pid).CanRun tid ∧
        (¬(s.core.processes pid).CanRun tid → core.HasError pid tid)) ∧
    ∀ pid addr len, entry.loan = some (pid, addr, len) → pid ≠ target → core.Mapped pid addr len

/-- No thread of another process is blocked at the servers of `target`, and nothing lent to them is
away. -/
def KState.NobodyWaits (target : PID) : Prop :=
  ∀ entry, s.Holds target entry →
    (∀ pid tid, entry.waiter = some (pid, tid) → pid ≠ target →
      (s.core.processes pid).CanRun tid) ∧
    ∀ pid addr len, entry.loan = some (pid, addr, len) → pid ≠ target → s.core.Mapped pid addr len

/-- The end of a process releases the clients of its servers only if there is nobody to release. -/
theorem terminated_servers_release_iff {target parent : PID} {s s' : KState}
    (hrun : terminateProcess target s = .ok parent s') :
    s.Released target s'.core ↔ s.NobodyWaits target := by
  obtain ⟨hthreads, hpages⟩ := (terminateProcess_frame target s).ok hrun
  refine forall₂_congr fun entry _ => and_congr (forall₄_congr fun pid tid _ hne => ?_)
    (forall₅_congr fun pid addr len _ _ => ?_)
  · rw [hthreads pid hne tid]
    exact ⟨And.left, fun hruns => ⟨hruns, fun hblocked => absurd hruns hblocked⟩⟩
  · rw [Core.Mapped, Core.Mapped, hpages]

/-- Process 3 runs and owns the server; process 2 sleeps. -/
def serverRuns (server : Server) : KState :=
  let s := smallKernel (.running 0) server
  { s with
    core := { s.core with
      machine := { s.core.machine with satp := pid3, current := pid3 }
      processes := fun pid =>
        if pid = pid2 then { s.core.processes pid with state := .sleeping }
        else s.core.processes pid } }

/-- Process 2 does not wait for its message, and the thread of process 1 with a reply token can run. -/
def quietServer : Server :=
  { idleServer with
    queue := .scalarMessage pid2 2 0 0 1 0 0 0 0 :: .waitingReturnScalar pid1 2 0 0 ::
      List.replicate (queueSlots - 2) .empty }

theorem quiet_server_ends_well :
    ∃ parent s', terminateProcess pid3 (serverRuns quietServer) = .ok parent s' ∧
      (serverRuns quietServer).Released pid3 s'.core := by
  have hreturns : (terminateProcess pid3 (serverRuns quietServer)).returns (fun _ _ => true) = true := by
    decide +kernel
  obtain ⟨parent, s', hrun, -⟩ := Outcome.exists_of_returns hreturns
  refine ⟨parent, s', hrun, (terminated_servers_release_iff hrun).mpr ?_⟩
  rintro entry ⟨idx, server, -, hserver, -, hentry⟩
  simp only [serverRuns, smallKernel] at hserver
  split_ifs at hserver
  obtain rfl := Option.some.inj hserver
  rcases List.mem_cons.mp hentry with rfl | hentry
  · constructor <;> intros <;> contradiction
  rcases List.mem_cons.mp hentry with rfl | hentry
  · constructor
    · rintro _ _ ⟨⟩ -
      decide
    · intros
      contradiction
  · rw [List.eq_of_mem_replicate hentry]
    constructor <;> intros <;> contradiction

/-- Thread 2 of process 2 has sent a blocking message to the server. -/
def awaitedServer : Server :=
  { idleServer with
    queue := .blockingScalarMessage pid2 2 0 0 1 0 0 0 0 :: List.replicate (queueSlots - 1) .empty }

/-- The server goes with the message in its queue, and the sender sleeps on. -/
theorem client_of_terminated_server_sleeps :
    ∃ parent s', terminateProcess pid3 (serverRuns awaitedServer) = .ok parent s' ∧
      ¬(serverRuns awaitedServer).Released pid3 s'.core := by
  have hreturns : (terminateProcess pid3 (serverRuns awaitedServer)).returns
      (fun _ s' => decide (¬(s'.core.processes pid2).CanRun 2)) = true := rfl
  obtain ⟨parent, s', hrun, hblocked⟩ := Outcome.exists_of_returns hreturns
  refine ⟨parent, s', hrun, fun hreleased => of_decide_eq_true hblocked ?_⟩
  have hholds : (serverRuns awaitedServer).Holds pid3 (.blockingScalarMessage pid2 2 0 0 1 0 0 0 0) :=
    ⟨0, awaitedServer, by decide, rfl, rfl, List.mem_cons_self⟩
  exact ((hreleased _ hholds).1 pid2 2 rfl (by decide)).1

/-- The thread is blocked in a call of `JoinThread` for `tid`: it is not ready, and its saved
registers hold the call. -/
structure Core.Joins (s : Core) (pid : PID) (waiting tid : TID) : Prop where
  lt : waiting < maxThread
  other : waiting ≠ fixupIrq tid
  blocked : ∀ x, (s.processes pid).state = .running x → hasThread x waiting = false
  live : ((s.machine.arch pid).threads waiting).sepc ≠ 0
  call : ((s.machine.arch pid).threads waiting).registers 9 = joinThread ∧
    ((s.machine.arch pid).threads waiting).registers 10 = tid

theorem leaveThread_post (x : ThreadMask) (core : Core) :
    Post (leaveThread pid x) (fun _ core' => (∀ tid, (core'.processes pid).CanRun tid ↔ hasThread x tid = true) ∧
        (x ≠ 0 → (core'.machine.arch pid).threads = (core.machine.arch pid).threads))
      (fun _ _ => True) core := by
  rw [leaveThread, post_bind, post_getProcess]
  refine ⟨fun _ => ?_, fun _ => trivial⟩
  rw [post_bind, post_setState]
  refine (switchToThread_post _ _).bind fun _ core' ⟨hsame, hthreads⟩ => ⟨fun tid => ?_, fun hx => ?_⟩
  · rw [hsame.threads, Core.setProcess_same]
    by_cases hx : x = 0
    · simp [Process.CanRun, hx]
    · simp only [Process.CanRun, if_neg hx]
  · simp only [if_neg hx, Core.setProcess_same] at hthreads
    exact hthreads x rfl

section Exit

variable {pid : PID} {tid : TID} {s : Core}

theorem joins_iff {x : ThreadMask} (hstate : (s.processes pid).state = .running x) (waiting : TID) :
    s.Joins pid waiting tid ↔ waiting < maxThread ∧
      let thread := Function.update (s.machine.arch pid).threads (fixupIrq tid) .zero waiting
      (thread.sepc != 0 && (!hasThread x waiting && thread.registers 9 == joinThread &&
        thread.registers 10 == tid)) = true := by
  by_cases hsame : waiting = fixupIrq tid
  · simp [hsame, Thread.zero]
    exact fun h => absurd rfl h.other
  · simp only [Function.update_of_ne hsame, Bool.and_eq_true, bne_iff_ne, beq_iff_eq, Bool.not_eq_true']
    constructor
    · exact fun h => ⟨h.lt, h.live, ⟨h.blocked x hstate, h.call.1⟩, h.call.2⟩
    · rintro ⟨hlt, hlive, ⟨hblocked, hcall⟩, htid⟩
      refine ⟨hlt, hsame, fun y hy => ?_, hlive, hcall, htid⟩
      cases hstate.symm.trans hy
      exact hblocked

theorem destroyThread_post (hthread : ((s.machine.arch pid).threads (fixupIrq tid)).sepc ≠ 0) (hirq : tid ≠ irqTid) :
    Post (destroyThread pid tid) (fun _ s' => ∃ x, (s.processes pid).state = .running x ∧
        ((∀ waiting, ¬s.Joins pid waiting tid) ∧ (∀ v, (s'.processes pid).CanRun v ↔ hasThread x v = true) ∨
          ∃ waiting, s.Joins pid waiting tid ∧
            (∀ v, (s'.processes pid).CanRun v ↔ hasThread (addThread x waiting) v = true) ∧
            (s'.machine.arch pid).threads waiting = ((s.machine.arch pid).threads waiting).setResult
              (.scalar1 (((s.machine.arch pid).threads (fixupIrq tid)).registers 9))))
      (fun _ _ => True) s := by
  unfold destroyThread
  rw [post_bind, post_currentPid, post_bind, post_assert, decide_eq_true_eq]
  rintro rfl
  rw [post_bind, post_getProcess]
  refine ⟨fun _ => ?_, fun _ => trivial⟩
  cases hstate : (s.processes s.machine.current).state with
  | running x =>
    dsimp only
    rw [post_bind, post_archProcessCurrent]
    intro hsatp
    rw [post_bind, post_attempt, archProcessDestroyThread, post_bind, post_assert]
    intro _
    rw [post_bind, post_gets, post_ite]
    refine ⟨fun hnone => ?_, fun _ => ?_⟩
    · rw [← hsatp] at hnone
      exact absurd hnone (by simp [hthread, hirq])
    rw [post_bind, post_updateThread]
    intro _
    rw [post_pure, post_bind, post_noteTaken, post_bind, post_gets]
    generalize hfound : Machine.findThread _ _ = found
    rw [Machine.findThread] at hfound
    simp only [Core.setWoken, Machine.updateArch, ← hsatp, Function.update_self] at hfound
    cases found with
    | none =>
      apply (leaveThread_post _ x _).imp
      rintro _ s' ⟨hrun, -⟩
      refine ⟨x, rfl, .inl ⟨fun waiting hjoins => ?_, hrun⟩⟩
      obtain ⟨hlt, hseen⟩ := (joins_iff hstate waiting).mp hjoins
      exact List.find?_eq_none.mp hfound waiting (List.mem_range.mpr hlt) hseen
    | some waiting =>
      have hseen := List.find?_some hfound
      have hjoins : s.Joins s.machine.current waiting tid := (joins_iff hstate waiting).mpr
        ⟨List.mem_range.mp (List.mem_of_find?_eq_some hfound), hseen⟩
      have hfixup : fixupIrq waiting = waiting :=
        if_neg (Nat.ne_of_lt (hjoins.lt.trans (by decide)))
      simp only [setThreadResult, post_bind, post_currentPid, post_ite, post_archProcessCurrent,
        post_archProcessSetThreadResult, post_updateThread, post_noteReady]
      refine ⟨fun _ _ _ => ?_, fun hother => absurd rfl hother⟩
      apply (leaveThread_post _ (addThread x waiting) _).imp
      rintro _ s' ⟨hrun, hthreads⟩
      refine ⟨x, rfl, .inr ⟨waiting, hjoins, hrun, ?_⟩⟩
      have hne : addThread x waiting ≠ 0 := by
        intro hzero
        have hset := hasThread_addThread x waiting waiting
        simp [hzero] at hset
      rw [hthreads hne]
      simp [Core.setWoken, Machine.updateArch, hfixup, ← hsatp, hjoins.other, Except.toOption]
  | _ => trivial

end Exit

/-- When a thread ends, all threads blocked in `JoinThread` for it can run with its result, and none
that is blocked for another, just when there are no two of them. -/
theorem exit_wakes_joiners_iff {pid : PID} {tid : TID} {s s' : Core} {left : Bool}
    (hthread : ((s.machine.arch pid).threads (fixupIrq tid)).sepc ≠ 0) (hirq : tid ≠ irqTid)
    (hrun : destroyThread pid tid s = .ok left s') :
    ((∀ waiting, s.Joins pid waiting tid → (s'.processes pid).CanRun waiting ∧
        (s'.machine.arch pid).threads waiting = ((s.machine.arch pid).threads waiting).setResult
          (.scalar1 (((s.machine.arch pid).threads (fixupIrq tid)).registers 9))) ∧
      ∀ waiting other, s.Joins pid waiting other → other ≠ tid →
        ¬(s'.processes pid).CanRun waiting) ↔
    ∀ waiting waiting', s.Joins pid waiting tid → s.Joins pid waiting' tid → waiting = waiting' := by
  obtain ⟨x, hstate, hwoken⟩ := (destroyThread_post hthread hirq).ok hrun
  rcases hwoken with ⟨hnone, hcan⟩ | ⟨found, hfound, hcan, hresult⟩
  · refine iff_of_true ⟨fun waiting h => absurd h (hnone waiting), fun waiting other h _ => ?_⟩
      fun waiting _ h => absurd h (hnone waiting)
    rw [hcan, h.blocked x hstate]
    exact Bool.false_ne_true
  -- only the first of them is found
  have honly : ∀ waiting other, s.Joins pid waiting other → (s'.processes pid).CanRun waiting →
      waiting = found := by
    intro waiting other h hcan'
    rw [hcan, hasThread_addThread, h.blocked x hstate, Bool.false_or, decide_eq_true_eq] at hcan'
    rwa [Nat.mod_eq_of_lt (h.lt.trans (by decide)), Nat.mod_eq_of_lt (hfound.lt.trans (by decide))] at hcan'
  constructor
  · intro h waiting waiting' hjoins hjoins'
    rw [honly waiting tid hjoins (h.1 waiting hjoins).1,
      honly waiting' tid hjoins' (h.1 waiting' hjoins').1]
  · refine fun hone => ⟨fun waiting hjoins => ?_, fun waiting other hjoins hne hcan' => ?_⟩
    · obtain rfl := hone waiting found hjoins hfound
      exact ⟨(hcan waiting).mpr (by simp), hresult⟩
    · obtain rfl := honly waiting other hjoins hcan'
      exact hne (hjoins.call.2.symm.trans hfound.call.2)

/-- Process 2 runs its thread 2, for which the given threads wait. -/
def joined (waiting : List TID) : Core :=
  let s := (smallKernel (.ready (threadBit 2)) idleServer).core
  { s with machine := { s.machine with arch := fun pid =>
      { s.machine.arch pid with threads := fun tid =>
          { registers := fun r => if r = 9 ∧ tid ∈ waiting then joinThread else 2, sepc := 1 } } } }

theorem joiner_is_woken : ∃ left s', destroyThread pid2 2 (joined [3]) = .ok left s' ∧
    (s'.processes pid2).CanRun 3 := by
  have hreturns : (destroyThread pid2 2 (joined [3])).returns (fun _ _ => true) = true := by
    decide +kernel
  obtain ⟨left, s', hrun, -⟩ := Outcome.exists_of_returns hreturns
  have honly : ∀ waiting, (joined [3]).Joins pid2 waiting 2 → waiting = 3 := by
    intro waiting h
    by_contra hne
    exact absurd h.call.1 (by simp [joined, hne, joinThread])
  have hwoken := (exit_wakes_joiners_iff (by decide) (by decide) hrun).mpr
    fun waiting waiting' h h' => (honly waiting h).trans (honly waiting' h').symm
  exact ⟨left, s', hrun, (hwoken.1 3 ⟨by decide, by decide, fun x hx => by cases hx; rfl, by decide,
    rfl, rfl⟩).1⟩

/-- Of two threads that wait for the same one the second sleeps on. -/
theorem second_joiner_sleeps : ∃ left s', destroyThread pid2 2 (joined [3, 4]) = .ok left s' ∧
    (joined [3, 4]).Joins pid2 4 2 ∧ ¬(s'.processes pid2).CanRun 4 := by
  have hreturns : (destroyThread pid2 2 (joined [3, 4])).returns
      (fun _ s' => decide (¬(s'.processes pid2).CanRun 4)) = true := rfl
  obtain ⟨left, s', hrun, hsleeps⟩ := Outcome.exists_of_returns hreturns
  exact ⟨left, s', hrun, ⟨by decide, by decide, fun x hx => by cases hx; rfl, by decide, rfl, rfl⟩,
    of_decide_eq_true hsleeps⟩

end BaochipXous.Kernel
