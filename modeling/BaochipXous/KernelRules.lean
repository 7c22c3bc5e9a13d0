import BaochipXous.KernelScheduler

/-!
Sets of threads as words, and rules for the postconditions of the small programs that the kernel's
functions are made of. Each rule says all that the program can do.
-/

namespace BaochipXous.Kernel

open Prog

variable (mask : ThreadMask) (tid tid' : TID)

section

theorem getLsbD_threadBit (tid i : Nat) : (threadBit tid).getLsbD i = decide (i = tid % 32) := by
  have htid : tid % 32 < 32 := Nat.mod_lt _ (by norm_num)
  rw [threadBit, BitVec.getLsbD_shiftLeft, BitVec.getLsbD_one]
  grind

theorem hasThread_eq : hasThread mask tid = mask.getLsbD (tid % 32) := by
  have htid : tid % 32 < 32 := Nat.mod_lt _ (by norm_num)
  rw [hasThread, Bool.eq_iff_iff, decide_eq_true_iff]
  constructor
  · intro hne
    by_contra hbit
    apply hne
    apply BitVec.eq_of_getLsbD_eq
    intro i _
    rw [BitVec.getLsbD_and, getLsbD_threadBit]
    grind
  · intro hbit hzero
    have hget := congrArg (fun v => BitVec.getLsbD v (tid % 32)) hzero
    simp [getLsbD_threadBit, hbit] at hget

@[simp] theorem hasThread_addThread :
    hasThread (addThread mask tid) tid' = (hasThread mask tid' || decide (tid' % 32 = tid % 32)) := by
  rw [hasThread_eq, hasThread_eq, addThread, BitVec.getLsbD_or, getLsbD_threadBit]

@[simp] theorem hasThread_removeThread :
    hasThread (removeThread mask tid) tid' = (hasThread mask tid' && !decide (tid' % 32 = tid % 32)) := by
  have htid : tid' % 32 < 32 := Nat.mod_lt _ (by norm_num)
  rw [hasThread_eq, hasThread_eq, removeThread, BitVec.getLsbD_and, BitVec.getLsbD_not, getLsbD_threadBit]
  simp [htid]

@[simp] theorem hasThread_zero : hasThread 0#32 tid = false := by simp [hasThread_eq]

@[simp] theorem hasThread_threadBit :
    hasThread (threadBit tid) tid' = decide (tid' % 32 = tid % 32) := by
  rw [hasThread_eq, getLsbD_threadBit]

variable {mask : ThreadMask} {tid : TID}

theorem addThread_removeThread (h : hasThread mask tid = true) : addThread (removeThread mask tid) tid = mask := by
  apply BitVec.eq_of_getLsbD_eq
  intro i hi
  have hbit := hasThread_addThread (removeThread mask tid) tid i
  rw [hasThread_removeThread] at hbit
  simp only [hasThread_eq, Nat.mod_eq_of_lt hi] at hbit h
  rw [hbit]
  by_cases heq : i = tid % 32
  · simp [heq, h]
  · simp [heq]

theorem addThread_ne (h : hasThread mask tid = false) : addThread mask tid ≠ mask := by
  intro heq
  have hbit := hasThread_addThread mask tid tid
  rw [heq, h] at hbit
  simp at hbit

theorem ne_zero_of_hasThread (h : hasThread mask tid = true) : mask ≠ 0 := by
  rintro rfl
  simp at h

theorem lowest_bit (v : ThreadMask) (k : Nat) (hk : k < 32) (hbit : v.getLsbD k = true)
    (hlow : ∀ j < k, v.getLsbD j = false) : ~~~(v - 1) &&& v = 1#32 <<< k := by
  have hneg : ~~~(v - 1) = -v := by
    rw [BitVec.not_eq_comm]
    bv_omega
  rw [hneg]
  apply BitVec.eq_of_getLsbD_eq
  intro i hi
  rw [BitVec.getLsbD_and, BitVec.getLsbD_neg, BitVec.getLsbD_shiftLeft, BitVec.getLsbD_one]
  rcases Nat.lt_trichotomy i k with hik | rfl | hik
  · simp [hlow i hik, hik]
  · have hnone : ¬∃ j < i, v.getLsbD j = true := by
      rintro ⟨j, hj, hset⟩
      rw [hlow j hj] at hset
      contradiction
    simp [hbit, hnone, hi]
  · have hsome : ∃ j < i, v.getLsbD j = true := ⟨k, hik, hbit⟩
    have hsub : i - k ≠ 0 := by omega
    cases hv : v.getLsbD i <;> simp [hsome, hi, hsub]

theorem trailingZeros_shift :
    ∀ k < 32, [0, 1, 28, 2, 29, 14, 24, 3, 30, 22, 20, 15, 25, 17, 4, 8, 31, 27, 13, 23, 21, 19, 16,
      7, 26, 12, 18, 6, 11, 5, 10, 9].getD ((1#32 <<< k * 0x077CB531#32) >>> 27).toNat 0 = k := by
  decide

/-- The table gives the lowest bit that is set. -/
theorem trailingZeros_least {v : ThreadMask} (hv : v ≠ 0) : trailingZeros v < 32 ∧
    v.getLsbD (trailingZeros v) = true ∧ (∀ j, v.getLsbD j = true → trailingZeros v ≤ j) ∧
    ~~~(v - 1) &&& v = 1#32 <<< trailingZeros v := by
  have hset := BitVec.getLsbD_true_ctz_of_ne_zero hv
  have hk : v.ctz.toNat < 32 := BitVec.lt_of_getLsbD hset
  have hlow : ∀ j < v.ctz.toNat, v.getLsbD j = false := fun j hj => BitVec.getLsbD_false_of_lt_ctz hj
  have hbit := lowest_bit v _ hk hset hlow
  rw [trailingZeros, hbit, trailingZeros_shift _ hk]
  refine ⟨hk, hset, fun j hj => ?_, rfl⟩
  by_contra hlt
  rw [hlow j (by omega)] at hj
  contradiction

/-- Of a word with no other bit the lowest is the only one. -/
theorem eq_trailingZeros {v : ThreadMask} {j : Nat} (hv : v ≠ 0) (hone : v &&& (v - 1) = 0)
    (hj : v.getLsbD j = true) : j = trailingZeros v := by
  obtain ⟨-, -, hleast, hbit⟩ := trailingZeros_least hv
  have hj' := BitVec.lt_of_getLsbD hj
  have hle := hleast j hj
  have hone := congrArg (BitVec.getLsbD · j) hone
  have hbit := congrArg (BitVec.getLsbD · j) hbit
  rw [BitVec.getLsbD_eq_getElem hj'] at hj
  simp [hj, hj'] at hone
  simp [hj, hj', hone] at hbit
  omega

theorem getLsbD_upper {c : Nat} (hc : c < 32) (mask : ThreadMask) (j : Nat) :
    (mask &&& ~~~((2#32 <<< c) - 1)).getLsbD j = (mask.getLsbD j && decide (c < j)) := by
  have hones : ∀ c < 32, ((2#32 <<< c) - 1).toNat = 2 ^ (c + 1) - 1 := by decide
  rw [BitVec.getLsbD_and, BitVec.getLsbD_not, BitVec.getLsbD, BitVec.getLsbD, hones c hc, Nat.testBit_two_pow_sub_one]
  cases hj : mask.toNat.testBit j with
  | false => simp
  | true => simp [BitVec.lt_of_getLsbD hj, ← decide_not]

/-- How many other threads come before thread `t`; the current one comes last. -/
def turns (currentThread t : Nat) : Nat := (t + 31 - currentThread % 32) % 32

theorem findNextThread_total (hmask : mask ≠ 0) (currentThread : Nat) (s : Core) :
    Total (findNextThread mask currentThread) (fun (t : Nat) s' => s' = s ∧ t < 32 ∧ hasThread mask t = true ∧
      ∀ t' : Nat, t' < 32 → hasThread mask t' = true → turns currentThread t ≤ turns currentThread t')
      (fun _ _ => False) s := by
  have hc : currentThread % 32 < 32 := Nat.mod_lt _ (by norm_num)
  have hmod : ∀ t' < 32, hasThread mask t' = mask.getLsbD t' := by
    intro t' ht'
    rw [hasThread_eq, Nat.mod_eq_of_lt ht']
  obtain ⟨hlt, hset, hleast, -⟩ := trailingZeros_least hmask
  simp only [findNextThread, total_bind, total_assert, hmask, ne_eq, not_false_eq_true, decide_true, true_and]
  split_ifs with hone hnone
  all_goals rw [total_pure]
  · refine ⟨rfl, hlt, (hmod _ hlt).trans hset, fun t' ht' hset' => ?_⟩
    rw [hmod t' ht'] at hset'
    rw [eq_trailingZeros hmask hone hset']
  · refine ⟨rfl, hlt, (hmod _ hlt).trans hset, fun t' ht' hset' => ?_⟩
    rw [hmod t' ht'] at hset'
    have hbelow : ¬currentThread % 32 < t' := by
      intro h
      have hbit := getLsbD_upper hc mask t'
      rw [hnone, hset'] at hbit
      simp [h] at hbit
    have := hleast t' hset'
    unfold turns
    omega
  · obtain ⟨hlt, hset, hleast, -⟩ := trailingZeros_least hnone
    simp only [getLsbD_upper hc, Bool.and_eq_true, decide_eq_true_eq] at hset hleast
    refine ⟨rfl, hlt, (hmod _ hlt).trans hset.1, fun t' ht' hset' => ?_⟩
    rw [hmod t' ht'] at hset'
    have := fun h => hleast t' ⟨hset', h⟩
    unfold turns
    omega

/-- The thread that runs after `n` calls, each made for the thread the call before it chose. -/
def schedule (mask : ThreadMask) : Nat → TID → CM TID
  | 0, tid => pure tid
  | n + 1, tid => do schedule mask n (← findNextThread mask tid)

/-- The next thread is the nearest one in cyclic order, so every ready thread gets its turn. -/
theorem next_thread_is_cyclically_next (mask : ThreadMask) (hmask : mask ≠ 0) (currentThread : Nat) (s : Core) :
    (∃ t : Nat, t < 32 ∧ findNextThread mask currentThread s = .ok t s ∧ hasThread mask t = true ∧
      ∀ t' : Nat, t' < 32 → hasThread mask t' = true → turns currentThread t ≤ turns currentThread t') ∧
    ∀ t : Nat, t < 32 → hasThread mask t = true → ∃ n > 0, schedule mask n currentThread s = .ok t s := by
  have hnext := fun c => (findNextThread_total hmask c s).exists_ok
  constructor
  · obtain ⟨t, s', hrun, rfl, ht⟩ := hnext currentThread
    exact ⟨t, ht.1, hrun, ht.2⟩
  · intro t ht hready
    -- every call brings the thread's turn nearer
    induction hd : turns currentThread t using Nat.strong_induction_on generalizing currentThread with
    | _ d ih =>
      obtain ⟨(t₁ : Nat), s', hrun, rfl, ht₁, -, hleast⟩ := hnext currentThread
      by_cases heq : t₁ = t
      · refine ⟨1, one_pos, ?_⟩
        simp [schedule, bind_apply, hrun, heq]
      · have hle := hleast t ht hready
        have hnearer : turns t₁ t < d := by
          unfold turns at *
          omega
        obtain ⟨n, -, hn⟩ := ih _ hnearer t₁ rfl
        refine ⟨n + 1, n.succ_pos, ?_⟩
        simp [schedule, bind_apply, hrun, hn]

theorem next_thread_after_the_last : (0x80000005#32 : ThreadMask) ≠ 0 ∧ ∀ s : Core,
    ∃ n > 0, schedule 0x80000005#32 n 31 s = .ok (2 : Nat) s :=
  ⟨by decide, fun s => (next_thread_is_cyclically_next _ (by decide) 31 s).2 2 (by decide) (by decide)⟩

theorem givenOrNext_post (tid : Option TID) (mask : ThreadMask) (currentThread : TID) (s : Core) :
    Post (givenOrNext tid mask currentThread)
      (fun t s' => s' = s ∧ (tid = none → hasThread mask t = true) ∧ ∀ t', tid = some t' → t = t')
      (fun _ _ => False) s := by
  cases tid with
  | some t => simp [givenOrNext]
  | none =>
    by_cases hmask : mask = 0
    · simp [givenOrNext, findNextThread, hmask]
    · apply (findNextThread_total hmask currentThread s).post.imp
      rintro t s' ⟨rfl, -, hset, -⟩
      simp [hset]

end

variable {α : Type}

/-- The process table has an entry for the process, which `get_process` finds. -/
def Core.Live (s : Core) (pid : PID) : Prop :=
  pid.get ≤ maxProcessCount ∧ (s.processes pid).mapped = true ∧ (s.processes pid).state ≠ .free

instance (s : Core) (pid : PID) : Decidable (s.Live pid) :=
  inferInstanceAs (Decidable (_ ∧ _))

namespace Core

variable {s : Core} {pid q : PID} {p : Process} {tid : TID} {b : Bool}

@[simp] theorem setProcess_machine : (s.setProcess pid p).machine = s.machine := rfl

@[simp] theorem setProcess_table : (s.setProcess pid p).table = s.table := rfl

@[simp] theorem setProcess_woken : (s.setProcess pid p).woken = s.woken := rfl

@[simp] theorem setProcess_same : (s.setProcess pid p).processes pid = p := by simp [setProcess]

@[simp] theorem setProcess_setProcess {p' : Process} :
    (s.setProcess pid p).setProcess pid p' = s.setProcess pid p' := by simp [setProcess]

theorem setProcess_of_ne (h : q ≠ pid) : (s.setProcess pid p).processes q = s.processes q := by
  simp [setProcess, h]

@[simp] theorem setWoken_processes : (s.setWoken pid tid b).processes = s.processes := rfl

theorem Live.setProcess (h : s.Live q) (hmapped : p.mapped = true) (hstate : p.state ≠ .free) :
    (s.setProcess pid p).Live q := by
  by_cases hq : q = pid
  · subst hq
    exact ⟨h.1, by simpa using hmapped, by simpa using hstate⟩
  · rwa [Live, setProcess_of_ne hq]

end Core

section Core

variable {Q : α → Core → Prop} {U : Unit → Core → Prop} {E : Error → Core → Prop} {s : Core}

@[simp] theorem post_withMachine (m : MM α) : Post (withMachine m) Q E s ↔
      Post m (fun a machine => Q a { s with machine }) (fun e machine => E e { s with machine })
        s.machine := post_zoom _ _ _

variable (pid : PID)

theorem post_getProcess {Q : Process → Core → Prop} : Post (getProcess pid) Q E s ↔
      (s.Live pid → Q (s.processes pid) s) ∧ (¬s.Live pid → E .processNotFound s) := by
  have hlive : (maxProcessCount < pid.get ∨ (!(s.processes pid).mapped) = true ∨
      (s.processes pid).isFree = true) ↔ ¬s.Live pid := by
    simp only [Core.Live, Process.isFree, Bool.not_eq_true', decide_eq_true_eq]
    constructor
    · rintro (h | h | h) ⟨h1, h2, h3⟩
      · omega
      · rw [h] at h2
        contradiction
      · exact h3 h
    · intro h
      by_contra hne
      push Not at hne
      exact h ⟨hne.1, by simpa using hne.2.1, hne.2.2⟩
  simp only [getProcess, post_bind, post_gets, post_ite, post_fail, post_pure, hlive, not_not]
  exact and_comm

variable {tid : TID}

theorem post_runnable {pid : PID} {x : ThreadMask} {Q : Bool → Core → Prop} (hlive : s.Live pid)
    (hstate : (s.processes pid).state = .running x ∨ (s.processes pid).state = .ready x)
    (hset : hasThread x tid = true) : Post (runnable pid (some tid)) Q E s ↔ Q true s := by
  rw [runnable, post_bind, post_getProcess]
  rcases hstate with hstate | hstate <;> simp [hlive, hstate, hset]

@[simp] theorem post_currentPid {Q : PID → Core → Prop} : Post currentPid Q E s ↔ Q s.machine.current s := Iff.rfl

@[simp] theorem post_updateProcess (f : Process → Process) :
    Post (updateProcess pid f) U E s ↔ U () (s.setProcess pid (f (s.processes pid))) := Iff.rfl

@[simp] theorem post_updateArch (f : ArchProcess → ArchProcess) :
    Post (updateArch f) U E s ↔ U () { s with machine := s.machine.updateArch f } := Iff.rfl

@[simp] theorem post_setState (state : ProcessState) : Post (setState pid state) U E s ↔
      U () (s.setProcess pid { s.processes pid with state }) := Iff.rfl

@[simp] theorem post_setCurrentThread (tid : TID) : Post (setCurrentThread pid tid) U E s ↔
      U () (s.setProcess pid { s.processes pid with currentThread := tid }) := Iff.rfl

@[simp] theorem post_noteReady (tid : TID) : Post (noteReady pid tid) U E s ↔ U () (s.setWoken pid tid true) := Iff.rfl

@[simp] theorem post_noteTaken (tid : TID) : Post (noteTaken pid tid) U E s ↔ U () (s.setWoken pid tid false) := Iff.rfl

@[simp] theorem post_archProcessCurrent :
    Post archProcessCurrent U E s ↔ (s.machine.current = s.machine.satp → U () s) := by
  simp [archProcessCurrent]

@[simp] theorem post_setTid (tid : TID) : Post (setTid tid) U E s ↔ (fixupIrq tid < maxThread →
      U () { s with machine := s.machine.updateArch fun a =>
        { a with hardwareThread := fixupIrq tid + 1 } }) := by simp [setTid]

@[simp] theorem post_updateThread (tid : TID) (f : Thread → Thread) :
    Post (updateThread tid f) U E s ↔ (fixupIrq tid < maxThread → U () { s with machine := s.machine.updateArch fun a =>
        { a with
          threads := Function.update a.threads (fixupIrq tid) (f (a.threads (fixupIrq tid))) } }) := by
  simp [updateThread]

@[simp] theorem post_archProcessSetThreadResult (tid : TID) (result : KResult) :
    Post (archProcessSetThreadResult tid result) U E s ↔
      Post (updateThread tid (Thread.setResult result)) U E s := Iff.rfl

@[simp] theorem post_activateProcess :
    Post (activateProcess pid) U E s ↔ (pid.get ≤ maxProcessCount → s.table pid = true →
      U () { s with machine := { s.machine with current := pid, satp := pid } }) := by
  simp [activateProcess]

/-- The state of a process one of whose threads is made ready; there is none if the kernel stops. -/
def ProcessState.withReady (tid : TID) : ProcessState → Option ProcessState
  | .running x => if hasThread x tid then none else some (.running (addThread x tid))
  | .ready x => if hasThread x tid then none else some (.ready (addThread x tid))
  | .sleeping => some (.ready (threadBit tid))
  | .exception x | .blockedException x => some (.exception x)
  | .free | .allocated | .setup _ => none

theorem post_readyThread (tid : TID) : Post (readyThread pid tid) U E s ↔
      (s.Live pid → ∀ state, (s.processes pid).state.withReady tid = some state →
        U () ((s.setProcess pid { s.processes pid with state }).setWoken pid tid true)) ∧
      (¬s.Live pid → E .processNotFound s) := by
  unfold readyThread
  rw [post_bind, post_getProcess]
  refine and_congr (imp_congr_right fun _ => ?_) Iff.rfl
  cases (s.processes pid).state with
  | running x | ready x => by_cases hset : hasThread x tid <;> simp [ProcessState.withReady, hset]
  | _ => simp [ProcessState.withReady]

theorem ProcessState.withReady_ne {state state' : ProcessState}
    (h : state.withReady tid = some state') (hcalm : ∀ x, state ≠ .exception x) : state' ≠ state := by
  rintro rfl
  cases state' with
  | running x | ready x =>
    by_cases hset : hasThread x tid
    · simp [withReady, hset] at h
    · exact addThread_ne (by simpa using hset) (by simpa [withReady, hset] using h)
  | exception x => exact hcalm x rfl
  | _ => simp [withReady] at h

theorem ProcessState.withReady_cases {state state' : ProcessState} (h : state.withReady tid = some state')
    (hcalm : ∀ x, state ≠ .exception x ∧ state ≠ .blockedException x) : ∃ x, hasThread x tid = true ∧
      (state' = .running x ∧ (∃ y, state = .running y) ∨ state' = .ready x ∧ ∀ y, state ≠ .running y) := by
  cases state with
  | running x | ready x =>
    by_cases hset : hasThread x tid
    · simp [withReady, hset] at h
    · refine ⟨addThread x tid, by simp, ?_⟩
      simp_all [withReady]
  | sleeping => exact ⟨threadBit tid, by simp, by simp_all [withReady]⟩
  | exception x => exact absurd rfl (hcalm x).1
  | blockedException x => exact absurd rfl (hcalm x).2
  | _ => simp [withReady] at h

theorem Core.live_congr {s s' : Core} (h : s'.processes = s.processes) (pid : PID) : s'.Live pid ↔ s.Live pid := by
  rw [Core.Live, Core.Live, h]

theorem setThreadResult_post (tid : TID) (result : KResult) (s : Core) :
    Post (setThreadResult pid tid result) (fun _ s' => ∃ a, s' = { s with machine := { s.machine with
        satp := s.machine.current, arch := Function.update s.machine.arch pid a } })
      (fun _ s' => s' = s ∧ pid ≠ s.machine.current ∧ ¬s.Live pid) s := by
  unfold setThreadResult
  rw [post_bind, post_currentPid, post_ite]
  refine ⟨fun hsame => ?_, fun hother => ?_⟩
  · simp only [post_bind, post_archProcessCurrent, post_archProcessSetThreadResult, post_updateThread,
      Machine.updateArch]
    intro hsatp _
    exact ⟨_, by rw [← hsame, ← hsatp]⟩
  · rw [post_bind, post_getProcess]
    refine ⟨fun _ => ?_, fun hdead => ⟨rfl, Ne.symm hother, hdead⟩⟩
    simp only [post_bind, post_activateProcess, post_archProcessCurrent,
      post_archProcessSetThreadResult, post_updateThread, post_unwrap, post_getProcess,
      Machine.updateArch]
    exact fun _ _ _ _ => ⟨fun _ _ _ => ⟨_, rfl⟩, fun _ => trivial⟩

end Core

@[simp] theorem post_activateMapping (asid : PID) {U : Unit → Machine → Prop}
    {E : Error → Machine → Prop} {m : Machine} :
    Post (activateMapping asid) U E m ↔ U () { m with satp := asid } := Iff.rfl

section Kernel

variable {Q : α → KState → Prop} {E : Error → KState → Prop} {s : KState}

@[simp] theorem post_withCore (m : CM α) : Post (withCore m) Q E s ↔
      Post m (fun a core => Q a { s with core }) (fun e core => E e { s with core }) s.core :=
  post_zoom _ _ _

theorem post_withServer (missing : KM α) (sidx : Nat) (m : Prog Error Server α) :
    Post (withServer missing sidx m) Q E s ↔ (∀ server, s.serverAt sidx = some server →
        Post m (fun a server => Q a (s.setServer sidx (some server)))
          (fun e server => E e (s.setServer sidx (some server))) server) ∧
      (s.serverAt sidx = none → Post missing Q E s) := by
  cases hs : s.serverAt sidx with
  | none =>
    rw [post_congr (show withServer missing sidx m s = missing s by simp only [withServer, hs])]
    simp
  | some server =>
    rw [post_congr (show withServer missing sidx m s = zoom (fun _ => server)
      (fun s server => s.setServer sidx (some server)) m s by simp only [withServer, hs]), post_zoom]
    simp

theorem post_withServer_some {missing : KM α} {sidx : Nat} {server : Server} (h : s.serverAt sidx = some server)
    (m : Prog Error Server α) : Post (withServer missing sidx m) Q E s ↔
      Post m (fun a server => Q a (s.setServer sidx (some server)))
        (fun e server => E e (s.setServer sidx (some server))) server := by
  simp [post_withServer, h]

end Kernel

end BaochipXous.Kernel
