import BaochipXous.KernelActivationErrors
import BaochipXous.KernelTransferSpec

/-!
What a send that fails leaves behind. A waiting thread is taken before it is known whether the
message finds a place, and memory is handed over before the message is delivered.
-/

namespace BaochipXous.Kernel

open Prog Server Function KState Message

/-- What holds when a system call of the process starts. No process is in an exception state: no
call installs a handler. -/
structure KState.AtCall (s : KState) (pid : PID) : Prop where
  current : s.core.machine.current = pid
  satp : s.core.machine.satp = pid
  live : s.core.Live pid
  calm : ∀ q x, (s.core.processes q).state ≠ .exception x ∧
    (s.core.processes q).state ≠ .blockedException x
  head : ∀ sidx server, s.serverAt sidx = some server → server.queueHead < server.queue.length
  place : ∀ q, 0 < (s.core.machine.arch q).memMessageBase ∧
    0 < (s.core.machine.arch q).memMessageLast

/-- Servers with queues and waiting threads, page tables and processes are as before, so that the
call can be repeated. -/
structure KState.SameForRetry (s s' : KState) : Prop where
  servers : s'.servers = s.servers
  pages : s.core.machine.SamePages s'.core.machine
  processes : s'.core.processes = s.core.processes

namespace Server

theorem takeAvailableThread_cases (server : Server) :
    (server.readyThreads = 0 ∧ server.takeAvailableThread = (none, server)) ∨
    ∃ t < 32, hasThread server.readyThreads t = true ∧ server.takeAvailableThread =
      (some t, { server with readyThreads := removeThread server.readyThreads t }) := by
  unfold takeAvailableThread
  cases hfind : (List.range 32).find? fun t => server.readyThreads.getLsbD t with
  | none =>
    refine .inl ⟨?_, rfl⟩
    apply BitVec.eq_of_getLsbD_eq
    intro i hi
    simpa using List.find?_eq_none.mp hfind i (List.mem_range.mpr hi)
  | some t =>
    have hlt : t < 32 := List.mem_range.mp (List.mem_of_find?_eq_some hfind)
    have hset := List.find?_some hfind
    refine .inr ⟨t, hlt, ?_, rfl⟩
    rwa [hasThread_eq, Nat.mod_eq_of_lt hlt]

theorem returnAvailableThread_removed {server : Server} {t : TID} (h : hasThread server.readyThreads t = true) :
    returnAvailableThread t { server with readyThreads := removeThread server.readyThreads t } = .ok () server := by
  have hgone : hasThread (removeThread server.readyThreads t) t = false := by simp
  have hzero : ¬removeThread server.readyThreads t &&& threadBit t ≠ 0 := by
    simpa [hasThread] using hgone
  have hback : removeThread server.readyThreads t ||| threadBit t = server.readyThreads :=
    addThread_removeThread h
  unfold returnAvailableThread
  rw [if_neg hzero]
  simp only [hback]

theorem queueMessage_post (pid : PID) (tid : TID) (message : Message)
    (address : Option MemoryAddress) (server : Server) (hhead : server.queueHead < server.queue.length) :
    Post (queueMessage pid tid message address) (fun _ server' => server.hasQueueCapacity = true ∧ server' ≠ server)
      (fun _ server' => server.hasQueueCapacity = false ∧ server' = server) server := by
  unfold Post queueMessage hasQueueCapacity
  cases hfull : server.generationsFull with
  | true => simp
  | false =>
    cases hd : server.discoveredIndex with
    | none =>
      refine ⟨?_, rfl⟩
      rw [discoveredIndex, Option.or_eq_none_iff] at hd
      simp only [findEmpty, List.find?_eq_none, List.mem_range'_1] at hd
      simp only [Bool.not_false, Bool.true_and, List.any_eq_false, decide_eq_true_eq]
      intro e he hempty
      obtain ⟨i, hi⟩ := List.mem_iff_getElem?.mp he
      have hlt : i < server.queue.length := (List.getElem?_eq_some_iff.mp hi).1
      have hat : server.emptyAt i = true := emptyAt_iff.mpr (hempty ▸ hi)
      by_cases hside : i < server.queueHead
      · exact hd.2 i (by omega) hat
      · exact hd.1 i (by omega) hat
    | some i =>
      have hempty := List.mem_of_getElem? (discoveredIndex_eq_some hd)
      simp only [Bool.false_eq_true, if_false]
      refine ⟨by simpa using hempty, fun hsame => ?_⟩
      have hgeneration := congrArg tailGeneration hsame
      have hne : server.tailGeneration + 1 ≠ server.tailGeneration := by grind
      exact hne hgeneration

end Server

theorem returnThread_core (sidx : Nat) (avail : Option TID) (s : KState) :
    Post (returnThread sidx avail) (fun _ s' => s'.core = s.core) (fun _ _ => False) s := by
  cases avail with
  | none => rfl
  | some t =>
    unfold returnThread
    rw [post_withServer]
    refine ⟨fun server _ => ?_, fun _ => trivial⟩
    unfold Post returnAvailableThread
    split_ifs <;> trivial

/-- The message finds a place, by what is asked before any memory is touched. -/
def Server.admits (server : Server) (message : Message) : Bool :=
  !(decide (server.readyThreads = 0) || message.isBlocking) ||
    (if message.hasMemory then server.hasQueueCapacity else server.hasQueueCapacityScalar)

namespace Core

variable (s : Core) (pid : PID) (server : Server) (message : Message)

/-- A thread is taken for a message that finds no place. -/
def LosesThread : Prop :=
  server.readyThreads ≠ 0 ∧ server.admits message = false ∧
    (message.hasMemory = true → s.Live server.pid)

/-- The memory of the message is handed over in part. -/
def LosesPages : Prop := server.admits message = true ∧ s.TearsMessage server.pid message

/-- A thread is woken for a message that has no slot for its reply token. -/
def LosesTurn : Prop :=
  server.readyThreads ≠ 0 ∧ message.isBlocking = true ∧ server.admits message = true ∧
    s.Live server.pid ∧ .empty ∉ server.queue

/-- The message is queued, and its sender cannot wait because its parent cannot be entered. -/
def LosesQueued : Prop :=
  server.readyThreads = 0 ∧ message.isBlocking = true ∧ server.hasQueueCapacity = true ∧
    s.Live server.pid ∧ s.MessageFits server.pid message ∧
    (s.processes pid).ppid ≠ pid ∧ ¬s.CanEnter (s.processes pid).ppid 0

/-- A send to the server that fails leaves something changed. -/
def LosesSend : Prop :=
  s.LosesThread server message ∨ s.LosesPages server message ∨ s.LosesTurn server message ∨
    s.LosesQueued pid server message

end Core

/-- A send over the connection that fails leaves something changed. -/
def KState.LosesSend (s : KState) (pid : PID) (cid : Nat) (message : Message) : Prop :=
  ∃ sidx server, s.resolve pid cid = some sidx ∧ s.serverAt sidx = some server ∧
    s.core.LosesSend pid server message

section Send

variable {s : KState} {pid : PID} {sidx : Nat} {server taken : Server} {avail : Option TID}
  {message : Message}

theorem KState.serverAt_setServer {s : KState} (hserver : s.serverAt sidx = some server)
    (server' : Server) : (s.setServer sidx (some server')).serverAt sidx = some server' := by
  unfold serverAt at hserver ⊢
  split_ifs at hserver with hlt
  simp [setServer, hlt]

theorem KState.setServer_self {s : KState} (hserver : s.serverAt sidx = some server) :
    update s.servers sidx (some server) = s.servers := by
  unfold serverAt at hserver
  split_ifs at hserver
  rw [← hserver, update_eq_self]

theorem taken_eq (htake : server.takeAvailableThread = (avail, taken)) :
    taken = { server with readyThreads := taken.readyThreads } ∧
      (avail = none ↔ server.readyThreads = 0) ∧ (avail = none → taken = server) := by
  rcases server.takeAvailableThread_cases with ⟨hzero, heq⟩ | ⟨t, -, hset, heq⟩
  · rw [heq, Prod.mk.injEq] at htake
    obtain ⟨rfl, rfl⟩ := htake
    exact ⟨rfl, iff_of_true rfl hzero, fun _ => rfl⟩
  · rw [heq, Prod.mk.injEq] at htake
    obtain ⟨rfl, rfl⟩ := htake
    exact ⟨rfl, iff_of_false nofun (ne_zero_of_hasThread hset), nofun⟩

theorem returnThread_restores (s₁ : KState) (hserver : s.serverAt sidx = some server)
    (htake : server.takeAvailableThread = (avail, taken))
    (hs₁ : s₁.servers = (s.setServer sidx (some taken)).servers) :
    Post (returnThread sidx avail) (fun _ s' => s'.servers = s.servers ∧ s'.core = s₁.core) (fun _ _ => False) s₁ := by
  have hself := setServer_self hserver
  rcases server.takeAvailableThread_cases with ⟨-, heq⟩ | ⟨t, -, hset, heq⟩
  · rw [heq, Prod.mk.injEq] at htake
    obtain ⟨rfl, rfl⟩ := htake
    exact ⟨hs₁.trans hself, rfl⟩
  · rw [heq, Prod.mk.injEq] at htake
    obtain ⟨rfl, rfl⟩ := htake
    have hat : s₁.serverAt sidx = some { server with readyThreads := removeThread server.readyThreads t } := by
      rw [serverAt, hs₁]
      exact serverAt_setServer hserver _
    unfold returnThread
    rw [post_withServer_some hat]
    rw [Post, returnAvailableThread_removed hset]
    refine ⟨?_, rfl⟩
    rw [setServer, hs₁, setServer, update_idem, hself]

theorem Core.withSatp_eq {core : Core} {q : PID} (h : core.machine.satp = q) :
    { core with machine := { core.machine with satp := q } } = core := by
  rw [← h]

section Steps

variable {s₁ : KState} (hcall : s.AtCall pid) (hserver : s.serverAt sidx = some server)
  (htake : server.takeAvailableThread = (avail, taken))
  (hs₁ : s₁.servers = (s.setServer sidx (some taken)).servers)

include hserver hs₁ in
theorem serverAt_taken : s₁.serverAt sidx = some taken := by
  rw [serverAt, hs₁]
  exact serverAt_setServer hserver taken

include htake in
theorem admits_iff : server.admits message = true ↔
    ((avail.isNone || message.isBlocking) = true →
      (if message.hasMemory then taken.hasQueueCapacity else taken.hasQueueCapacityScalar) = true) := by
  obtain ⟨htaken, hnone, -⟩ := taken_eq htake
  have hcapacity : taken.hasQueueCapacity = server.hasQueueCapacity := by
    rw [htaken]
    rfl
  have hscalar : taken.hasQueueCapacityScalar = server.hasQueueCapacityScalar := by
    rw [htaken]
    rfl
  have hisNone : avail.isNone = decide (server.readyThreads = 0) := by
    rw [Bool.eq_iff_iff, Option.isNone_iff_eq_none, hnone, decide_eq_true_iff]
  rw [admits, hcapacity, hscalar, hisNone]
  cases decide (server.readyThreads = 0) || message.isBlocking <;> simp

include hcall hserver htake hs₁

/-- The question whether the message finds a place changes nothing but for a server whose process is
gone: the thread is given back. -/
theorem canDeliver_post (hcore : s₁.core = s.core) :
    Post (canDeliver sidx server.pid avail message)
      (fun b s' => (b = true ↔ server.admits message = true) ∧ s'.servers = s₁.servers ∧ s'.core = s.core ∧
        (message.hasMemory = true → server.admits message = false → s.core.Live server.pid))
      (fun _ s' => s'.servers = s.servers ∧ s'.core = s.core ∧ message.hasMemory = true ∧
        ¬s.core.Live server.pid) s₁ := by
  have hat := serverAt_taken hserver hs₁
  have hadmits : server.admits message = true ↔ _ := admits_iff htake
  have hidem : (s₁.setServer sidx (some taken)).servers = s₁.servers := by
    rw [hs₁, setServer, hs₁, setServer, update_idem]
  unfold canDeliver
  rw [post_ite]
  refine ⟨fun hmemory => ?_, fun hscalar => ?_⟩
  · rw [post_ite]
    rw [hmemory, if_pos rfl] at hadmits
    refine ⟨fun hneeds => ?_, fun hfree => ?_⟩
    · have hadmits : server.admits message = true ↔ taken.hasQueueCapacity = true := by
        rw [hadmits]
        exact ⟨fun h => h hneeds, fun h _ => h⟩
      rw [post_bind, post_withCore, post_currentPid, post_bind, post_onError, post_withCore, post_getProcess, hcore]
      refine ⟨fun hlive => ?_, fun hdead => ?_⟩
      · simp only [post_bind, post_withCore, post_withMachine, post_activateMapping, post_unwrap,
          post_getProcess, post_pure]
        refine (post_withServer_some (by exact hat) _).mpr ?_
        refine ⟨fun _ => ⟨hadmits.symm, hidem, ?_, fun _ _ => hlive⟩, fun _ => trivial⟩
        exact Core.withSatp_eq (hcall.satp.trans hcall.current.symm)
      · apply (returnThread_restores { s₁ with core := s.core } hserver htake hs₁).never.imp
        exact fun _ s' h => ⟨h.1, h.2, hmemory, hdead⟩
    · refine ⟨iff_of_true rfl (hadmits.mpr fun h => absurd h hfree), rfl, hcore, fun _ hnot => ?_⟩
      rw [hadmits.mpr fun h => absurd h hfree] at hnot
      contradiction
  · rw [if_neg hscalar] at hadmits
    rw [post_bind, post_withServer_some hat]
    simp only [post_gets, post_pure]
    refine ⟨?_, hidem, hcore, fun hmemory => absurd hmemory hscalar⟩
    rw [hadmits]
    cases avail.isNone || message.isBlocking <;> simp

omit hcall hserver htake hs₁ in
theorem messagePlace_pos (hcall : s.AtCall pid) {dest : PID} {size virt : Nat}
    (h : s.core.machine.messagePlace dest size = some virt) : 0 < virt := by
  have hpages : ∀ lo hi : Nat, 0 < lo → virt ∈ pages lo hi → 0 < virt := by
    intro lo hi hlo hvirt
    exact hlo.trans_le (mem_pages.mp hvirt).1
  have hbases := hcall.place dest
  rw [Machine.messagePlace, Machine.findFree, Option.or_eq_some_iff] at h
  rcases h with h | ⟨-, h⟩
  · exact hpages _ _ hbases.2 (List.mem_of_find?_eq_some h)
  · exact hpages _ _ hbases.1 (List.mem_of_find?_eq_some h)

/-- The message with its memory handed over. A message without memory goes on as it is. -/
theorem transferMessage_post (hcore : s₁.core = s.core) (hlen : ∀ buf, message.memory = some buf → buf.len < 2 ^ 32) :
    Post (transferMessage sidx server.pid avail message) (fun message' s' => s.core.MessageFits server.pid message ∧
        message'.isBlocking = message.isBlocking ∧ s'.servers = s₁.servers ∧
        s'.core.processes = s.core.processes ∧ s'.core.machine.current = pid ∧
        s'.core.machine.satp = pid ∧ (message.hasMemory = false → s'.core = s.core))
      (fun _ s' => ¬s.core.MessageFits server.pid message ∧ s'.servers = s.servers ∧
        s'.core.processes = s.core.processes ∧
        (s.core.machine.SamePages s'.core.machine ↔ ¬s.core.TearsMessage server.pid message)) s₁ := by
  unfold transferMessage
  cases hmemory : message.memory with
  | none =>
    have hwhole : message.WholePages := by cases message <;> simp_all [memory, Message.WholePages]
    exact ⟨⟨hwhole, by simp [hmemory]⟩, rfl, rfl, by rw [hcore], by rw [hcore, hcall.current],
      by rw [hcore, hcall.satp], fun _ => hcore⟩
  | some buf =>
    have hhas : message.hasMemory = true := by cases message <;> simp_all [memory, hasMemory]
    have hhand : Post (message.handOver server.pid) _ _ s.core :=
      handOver_post (hcall.satp.trans hcall.current.symm) (hcall.current ▸ hcall.live) hmemory (hlen buf hmemory)
    simp only [post_bind, post_onError, post_withCore, hcore]
    apply hhand.mono
    · rintro virt core ⟨hfits, htransferred⟩
      have hpos : 0 < virt := by
        rcases htransferred.place with rfl | hplace
        · exact buf.addr.pos
        · exact messagePlace_pos hcall hplace
      have hnew : ∃ buf', MemoryRange.new virt buf.len = .ok buf' := by
        have hlen : 0 < buf.len := buf.size.pos
        simp [MemoryRange.new, NonZero.new, hpos, hlen]
      obtain ⟨buf', hbuf'⟩ := hnew
      rw [post_ofExcept, hbuf']
      refine ⟨fun _ _ => ⟨hfits, ?_, rfl, htransferred.processes, ?_, ?_, ?_⟩, by simp⟩
      · cases message <;> rfl
      · exact htransferred.current.trans hcall.current
      · exact htransferred.satp.trans hcall.satp
      · simp [hhas]
    · rintro _ core ⟨hnot, hprocesses, hpages⟩
      apply (returnThread_restores { s₁ with core } hserver htake hs₁).never.imp
      rintro _ s' ⟨hservers, hcore'⟩
      rw [hcore']
      exact ⟨hnot, hservers, hprocesses, hpages⟩

/-- The message goes to a thread that waits for it. The thread is made ready before the slot for a
reply token is looked for. -/
theorem deliverMessage_post {t : TID} (havail : avail = some t) (tid : TID)
    (address : Option MemoryAddress) (hprocesses : s₁.core.processes = s.core.processes) :
    Post (deliverMessage pid tid sidx server.pid t message address)
      (fun _ _ => message.isBlocking = true → .empty ∈ server.queue)
      (fun _ s' => (s'.servers = s.servers ∧ s'.core = s₁.core ∧ ¬s.core.Live server.pid) ∨
        (s'.core.processes ≠ s.core.processes ∧ message.isBlocking = true ∧
          s.core.Live server.pid ∧ .empty ∉ server.queue)) s₁ := by
  subst havail
  have hqueue : taken.queue = server.queue ∧ taken.queueHead = server.queueHead := by
    rw [(taken_eq htake).1]
    exact ⟨rfl, rfl⟩
  have hhead : taken.queueHead < taken.queue.length := by
    rw [hqueue.1, hqueue.2]
    exact hcall.head sidx server hserver
  unfold deliverMessage
  rw [post_bind, post_onError, post_withCore, post_readyThread, Core.live_congr hprocesses]
  refine ⟨fun hlive state hstate => ?_, fun hdead => ?_⟩
  · rw [hprocesses] at hstate
    have hcalm := fun x => hcall.calm server.pid x
    obtain ⟨x, hset, hcases⟩ := ProcessState.withReady_cases hstate hcalm
    have hne := ProcessState.withReady_ne hstate fun x => (hcalm x).1
    rw [hprocesses]
    set core1 : Core := (s₁.core.setProcess server.pid
      { s.core.processes server.pid with state }).setWoken server.pid t true with hcore1
    have hstate1 : (core1.processes server.pid).state = state := by simp [hcore1]
    have hlive1 : core1.Live server.pid := by
      refine ⟨hlive.1, by simpa [hcore1] using hlive.2.1, ?_⟩
      rw [hstate1]
      rcases hcases with ⟨rfl, -⟩ | ⟨rfl, -⟩ <;> nofun
    have hmask : (core1.processes server.pid).state = .running x ∨ (core1.processes server.pid).state = .ready x := by
      rw [hstate1]
      exact hcases.imp And.left And.left
    rw [post_bind, post_withCore, post_unwrap, post_runnable hlive1 hmask hset]
    rw [post_ite]
    refine ⟨fun hfree => ?_, fun hblocking => ?_⟩
    · have hfree : message.isBlocking = false := by simpa using hfree
      rw [post_bind, post_withCore]
      apply (setThreadResult_post server.pid t _ core1).mono
      · simp [hfree]
      · exact fun _ _ h => absurd hlive1 h.2.2
    · have hblocking : message.isBlocking = true := by simpa using hblocking
      rw [Bool.not_true, if_neg Bool.false_ne_true, post_bind, post_attempt]
      have hat : { s₁ with core := core1 }.serverAt sidx = some taken := serverAt_taken hserver hs₁
      have hactivate : Post (deliverByActivation tid server.pid t false sidx pid tid message address)
          (fun _ _ => .empty ∈ server.queue)
          (fun _ s2 => .empty ∉ server.queue ∧ s2.core.processes ≠ s.core.processes)
          { s₁ with core := core1 } := by
        rw [← hqueue.1]
        by_cases hself : server.pid = s₁.core.machine.current
        · apply (activate_same_post tid server.pid t false sidx pid tid message address _ taken hat
            hhead hself).mono fun _ _ h => h
          rintro _ s2 ⟨hcore, hwhy⟩
          refine ⟨hwhy.resolve_right fun hthread => ?_, fun hsame => hne ?_⟩
          · obtain ⟨-, y, hy, hnot⟩ := hthread hlive1
            have hxy : x = y := by
              rw [hstate1] at hy
              rcases hcases with ⟨rfl, -⟩ | ⟨rfl, -⟩ <;> simp_all
            rw [← hxy, hset] at hnot
            contradiction
          · rw [← hstate1, ← hsame, hcore]
        · apply (activate_other_post tid server.pid t false sidx pid tid message address _ taken hat hhead hself).mono
          · exact fun _ _ hok => hok.2
          · rintro _ s2 (⟨-, hcannot, hidle⟩ | ⟨hcan, hfull, -, hrunning⟩)
            · rcases hcases with ⟨rfl, -⟩ | ⟨rfl, -⟩
              · exact absurd hstate1 (hidle hlive1 x)
              · refine absurd ⟨hlive1, ?_⟩ hcannot
                simp only [hstate1]
                exact .inr hset
            · refine ⟨hfull, fun hsame => ?_⟩
              -- the process was ready, and it runs now
              rcases hcases with ⟨rfl, -⟩ | ⟨rfl, hready⟩
              · simpa only [hstate1] using hcan.2
              · obtain ⟨y, hy⟩ := hrunning (by simp [hstate1])
                rw [hsame] at hy
                exact hready y hy
      apply hactivate.mono
      · exact fun _ _ hempty _ => hempty
      · rintro _ s2 ⟨hfull, hchanged⟩
        apply (returnThread_core sidx (some t) s2).never.bind
        intro _ s' hcore
        rw [post_fail, hcore]
        exact .inr ⟨hchanged, hblocking, hlive, hfull⟩
  · apply (returnThread_restores s₁ hserver htake hs₁).never.imp
    exact fun _ s' h => .inl ⟨h.1, h.2, hdead⟩

theorem queueServerMessage_post (havail : avail = none) (tid : TID) (address : Option MemoryAddress) (message' : Message)
    (hprocesses : s₁.core.processes = s.core.processes)
    (hcurrent : s₁.core.machine.current = pid) (hsatp : s₁.core.machine.satp = pid) :
    Post (queueServerMessage sidx pid tid message' address)
      (fun _ s' => s'.servers ≠ s.servers ∧ s'.core = s₁.core ∧ server.hasQueueCapacity = true ∧ s.core.Live server.pid)
      (fun _ s' => s'.servers = s.servers ∧ s'.core = s₁.core ∧
        (s.core.Live server.pid → server.hasQueueCapacity = false)) s₁ := by
  obtain rfl := (taken_eq htake).2.2 havail
  have hat := serverAt_taken hserver hs₁
  have hself := setServer_self hserver
  have hservers : s₁.servers = s.servers := hs₁.trans hself
  have hback : { s₁.core with machine := { s₁.core.machine with satp := s₁.core.machine.current } } =
      s₁.core := Core.withSatp_eq (hsatp.trans hcurrent.symm)
  unfold queueServerMessage
  simp only [post_bind, post_withCore, post_currentPid, post_gets, post_ofOption, hat,
    Option.some.injEq, forall_eq', reduceCtorEq, false_implies, and_true, post_getProcess,
    Core.live_congr hprocesses, post_withMachine, post_activateMapping, post_attempt, post_unwrap,
    post_ofExcept]
  refine ⟨fun hlive => ?_, fun hdead => ⟨hservers, trivial, fun h => absurd h hdead⟩⟩
  refine (post_withServer_some (by exact hat) _).mpr ?_
  apply (queueMessage_post pid tid message' address taken (hcall.head sidx taken hserver)).mono
  · rintro i server' ⟨hcapacity, hchanged⟩
    refine ⟨fun _ => ⟨fun _ _ => ⟨fun hsame => hchanged ?_, hback, hcapacity, hlive⟩,
      fun _ => trivial⟩, fun _ => trivial⟩
    have hsame : update s₁.servers sidx (some server') = update s.servers sidx (some taken) := hsame.trans hself.symm
    have hat := congrFun hsame sidx
    simpa using hat
  · rintro e server' ⟨hfull, rfl⟩
    refine ⟨fun _ => ⟨fun _ => trivial, fun _ _ => ⟨?_, hback, fun _ => hfull⟩⟩, fun _ => trivial⟩
    show update s₁.servers sidx (some server') = s.servers
    rw [hservers, hself]

omit hcall hserver htake hs₁ in
theorem waitInParent_post (tid : TID) (hcurrent : s.core.machine.current = pid) (hlive : s.core.Live pid) :
    Post (waitInParent pid tid)
      (fun _ _ => (s.core.processes pid).ppid ≠ pid → s.core.CanEnter (s.core.processes pid).ppid 0)
      (fun _ s' => s'.servers = s.servers ∧ (s.core.processes pid).ppid ≠ pid ∧
        ¬s.core.CanEnter (s.core.processes pid).ppid 0) s := by
  unfold waitInParent
  rw [post_bind, post_withCore, post_unwrap, post_getProcess]
  refine ⟨fun _ => ?_, fun _ => trivial⟩
  rw [post_bind, post_modify, post_bind, post_attempt, activateOrProcessNotFound, post_bind, post_attempt]
  have hactivate := activate_none_post tid (s.core.processes pid).ppid false
    { s with switchtoCaller := none } (hcurrent ▸ hlive)
  apply hactivate.mono
  · rintro _ s₁ ⟨hcan, -⟩
    simp only [restoreQuantum, post_bind, post_get, post_attempt, post_withCore, post_ofExcept, post_pure]
    refine .of_forall (fun _ _ => ⟨fun _ _ hne => ?_, by simp⟩) fun _ _ => ⟨fun _ _ hne => ?_, by simp⟩
    all_goals exact hcan (by rwa [hcurrent])
  · rintro _ s₁ ⟨hne, hcannot, rfl⟩
    simp only [restoreQuantum, post_bind, post_get, post_attempt, post_withCore, post_ofExcept, post_pure, post_fail]
    refine .of_forall (fun _ _ => ⟨by simp, fun _ _ => ?_⟩) fun _ _ => ⟨by simp, fun _ _ => ?_⟩
    all_goals exact ⟨trivial, hcurrent ▸ hne, hcannot⟩

/-- The message is queued, and a sender that waits for an answer leaves the processor to its
parent. -/
theorem queueAndWait_post (havail : avail = none) (tid : TID) (address : Option MemoryAddress)
    (message' : Message) (hprocesses : s₁.core.processes = s.core.processes)
    (hcurrent : s₁.core.machine.current = pid) (hsatp : s₁.core.machine.satp = pid) :
    Post (do
        let _ ← queueServerMessage sidx pid tid message' address
        if message'.isBlocking then waitInParent pid tid else pure .ok)
      (fun _ _ => message'.isBlocking = true → (s.core.processes pid).ppid ≠ pid →
        s.core.CanEnter (s.core.processes pid).ppid 0)
      (fun _ s' =>
        (s'.servers = s.servers ∧ s'.core = s₁.core ∧ (s.core.Live server.pid → server.hasQueueCapacity = false)) ∨
        (s'.servers ≠ s.servers ∧ message'.isBlocking = true ∧ server.hasQueueCapacity = true ∧
          s.core.Live server.pid ∧ (s.core.processes pid).ppid ≠ pid ∧
          ¬s.core.CanEnter (s.core.processes pid).ppid 0)) s₁ := by
  have henter : ∀ q, s₁.core.CanEnter q 0 ↔ s.core.CanEnter q 0 := by
    intro q
    rw [Core.CanEnter, Core.CanEnter, Core.live_congr hprocesses, hprocesses]
  rw [post_bind]
  apply (queueServerMessage_post hcall hserver htake hs₁ havail tid address message' hprocesses hcurrent hsatp).mono
  · rintro _ s2 ⟨hchanged, hcore, hcapacity, hlive⟩
    rw [post_ite]
    refine ⟨fun hblocking => ?_, fun hfree h => absurd h hfree⟩
    have hwait := waitInParent_post (s := s2) tid (hcore ▸ hcurrent)
      (hcore ▸ (Core.live_congr hprocesses pid).mpr hcall.live)
    simp only [hcore, hprocesses, henter] at hwait
    apply hwait.mono
    · exact fun _ _ h _ => h
    · rintro _ s' ⟨hservers, hne, hcannot⟩
      exact .inr ⟨hservers ▸ hchanged, hblocking, hcapacity, hlive, hne, hcannot⟩
  · exact fun _ s' h => .inl h

omit hserver hs₁ htake in
theorem live_of_fits (hmemory : message.hasMemory = true)
    (hfits : s.core.MessageFits server.pid message) : s.core.Live server.pid := by
  have hsome : ∃ buf, message.memory = some buf := by cases message <;> simp_all [hasMemory, memory]
  obtain ⟨buf, hbuf⟩ := hsome
  by_cases hself : server.pid = pid
  · rw [hself]
    exact hcall.live
  · exact ((hfits.2 buf hbuf).1 (by rwa [hcall.current])).1

omit hserver hs₁ htake in
theorem live_of_tears (htears : s.core.TearsMessage server.pid message) : s.core.Live server.pid := by
  obtain ⟨-, buf, -, htears⟩ := htears
  unfold Core.TearsTransfer at htears
  split at htears
  · rename_i hself
    rw [hself, hcall.current]
    exact hcall.live
  · exact htears.1

omit hcall hserver htake hs₁ in
theorem empty_mem_of_admits (hadmits : server.admits message = true)
    (hneeds : server.readyThreads = 0 ∨ message.isBlocking = true) (hmemory : message.hasMemory = true) :
    server.hasQueueCapacity = true ∧ .empty ∈ server.queue := by
  have hcapacity : server.hasQueueCapacity = true := by
    rcases hneeds with hneeds | hneeds <;> simpa [admits, hneeds, hmemory] using hadmits
  refine ⟨hcapacity, ?_⟩
  simp only [hasQueueCapacity, Bool.and_eq_true, List.any_eq_true, decide_eq_true_eq] at hcapacity
  obtain ⟨e, he, rfl⟩ := hcapacity.2
  exact he

omit hcall hs₁ in
theorem refused_iff {s' : KState} (hrefused : server.admits message = false)
    (hservers : s'.servers = (s.setServer sidx (some taken)).servers) (hcore : s'.core = s.core)
    (hlive : message.hasMemory = true → s.core.Live server.pid) :
    s.SameForRetry s' ↔ ¬s.core.LosesSend pid server message := by
  obtain ⟨htaken, hnone, hsame⟩ := taken_eq htake
  by_cases hthreads : server.readyThreads = 0
  · have hself : s'.servers = s.servers := by
      rw [hservers, hsame (hnone.mpr hthreads)]
      exact setServer_self hserver
    refine iff_of_true ⟨hself, by rw [hcore]; exact ⟨rfl, rfl⟩, by rw [hcore]⟩ ?_
    rintro (h | h | h | h)
    · exact h.1 hthreads
    · exact Bool.false_ne_true (hrefused.symm.trans h.1)
    · exact h.1 hthreads
    · have hcapacity := h.2.2.1
      simp only [admits, hthreads, decide_true, Bool.true_or, Bool.not_true, Bool.false_or] at hrefused
      split at hrefused
      · rw [hcapacity] at hrefused
        contradiction
      · rw [hasQueueCapacityScalar] at hrefused
        rw [hasQueueCapacity, hrefused, Bool.false_and] at hcapacity
        contradiction
  · refine iff_of_false (fun h => ?_) (not_not.mpr (.inl ⟨hthreads, hrefused, hlive⟩))
    rcases server.takeAvailableThread_cases with ⟨hzero, -⟩ | ⟨t, -, hset, heq⟩
    · exact hthreads hzero
    · have hat := congrFun (hservers.symm.trans (h.servers.trans (setServer_self hserver).symm)) sidx
      simp only [setServer, update_self, Option.some.injEq] at hat
      rw [heq, Prod.mk.injEq, hat] at htake
      have hgone : hasThread server.readyThreads t = false := by
        rw [← htake.2]
        simp
      rw [hset] at hgone
      contradiction

omit hcall hserver htake hs₁ in
theorem torn_iff {s' : KState} (hadmits : server.admits message = true)
    (hnot : ¬s.core.MessageFits server.pid message) (hservers : s'.servers = s.servers)
    (hprocesses : s'.core.processes = s.core.processes)
    (hpages : s.core.machine.SamePages s'.core.machine ↔ ¬s.core.TearsMessage server.pid message) :
    s.SameForRetry s' ↔ ¬s.core.LosesSend pid server message := by
  have hmemory : message.hasMemory = true := by
    cases message <;> simp_all [hasMemory, Core.MessageFits, Message.WholePages, memory]
  constructor
  · rintro hsame (h | h | h | h)
    · exact Bool.false_ne_true (h.2.1.symm.trans hadmits)
    · exact hpages.mp hsame.pages h.2
    · exact h.2.2.2.2 (empty_mem_of_admits hadmits (.inr h.2.1) hmemory).2
    · exact hnot h.2.2.2.2.1
  · intro hkeeps
    exact ⟨hservers, hpages.mpr fun htears => hkeeps (.inr (.inl ⟨hadmits, htears⟩)), hprocesses⟩

theorem admitted_post (hadmits : server.admits message = true) (hcore : s₁.core = s.core)
    (tid : TID) (address : Option MemoryAddress)
    (hlen : ∀ buf, message.memory = some buf → buf.len < 2 ^ 32) :
    Post (do
        let message ← transferMessage sidx server.pid avail message
        match avail with
        | some serverTid => deliverMessage pid tid sidx server.pid serverTid message address
        | none => do
          let _ ← queueServerMessage sidx pid tid message address
          if message.isBlocking then waitInParent pid tid else pure .ok)
      (fun _ _ => ¬s.core.LosesSend pid server message)
      (fun _ s' => s.SameForRetry s' ↔ ¬s.core.LosesSend pid server message) s₁ := by
  have hthread : ¬s.core.LosesThread server message := fun h =>
    Bool.false_ne_true (h.2.1.symm.trans hadmits)
  have hnone := (taken_eq htake).2.1
  rw [post_bind]
  apply (transferMessage_post hcall hserver htake hs₁ hcore hlen).mono
  · rintro message' s2 ⟨hfits, hkind, hservers, hprocesses, hcurrent, hsatp, hscalar⟩
    have hpages : ¬s.core.LosesPages server message := fun h => hfits.not_tears h.2
    have hloses : ¬s.core.LosesSend pid server message ↔
        ¬s.core.LosesTurn server message ∧ ¬s.core.LosesQueued pid server message := by
      simp [Core.LosesSend, hthread, hpages]
    have hs2 := hservers.trans hs₁
    cases havail : avail with
    | some t =>
      have hthreads : server.readyThreads ≠ 0 := fun h => by
        rw [hnone.mpr h] at havail
        contradiction
      have hqueued : ¬s.core.LosesQueued pid server message := fun h => hthreads h.1
      apply (deliverMessage_post hcall hserver htake hs2 havail tid address hprocesses).mono
      · exact fun _ _ hempty =>
          hloses.mpr ⟨fun h => h.2.2.2.2 (hempty (hkind.trans h.2.1)), hqueued⟩
      · rintro _ s' (⟨hsame, hcore', hdead⟩ | ⟨hchanged, hblocking, hlive, hfull⟩)
        · have hmemory : message.hasMemory = false := by
            by_contra hmemory
            exact hdead (live_of_fits hcall (by simpa using hmemory) hfits)
          have hcore' := hcore'.trans (hscalar hmemory)
          exact iff_of_true ⟨hsame, by rw [hcore']; exact ⟨rfl, rfl⟩, by rw [hcore']⟩
            (hloses.mpr ⟨fun h => hdead h.2.2.2.1, hqueued⟩)
        · exact iff_of_false (fun h => hchanged h.processes) (not_not.mpr
            (.inr (.inr (.inl ⟨hthreads, hkind.symm.trans hblocking, hadmits, hlive, hfull⟩))))
    | none =>
      have hthreads : server.readyThreads = 0 := hnone.mp havail
      have hturn : ¬s.core.LosesTurn server message := fun h => h.1 hthreads
      apply (queueAndWait_post hcall hserver htake hs2 havail tid address message' hprocesses hcurrent hsatp).mono
      · exact fun _ _ henter =>
          hloses.mpr ⟨hturn, fun h => h.2.2.2.2.2.2 (henter (hkind.trans h.2.1) h.2.2.2.2.2.1)⟩
      · rintro _ s' (⟨hsame, hcore', hfull⟩ | ⟨hchanged, hblocking, hcapacity, hlive, hparent, hcannot⟩)
        · have hmemory : message.hasMemory = false := by
            by_contra hmemory
            have hmemory : message.hasMemory = true := by simpa using hmemory
            have hcapacity := (empty_mem_of_admits hadmits (.inl hthreads) hmemory).1
            rw [hfull (live_of_fits hcall hmemory hfits)] at hcapacity
            contradiction
          have hcore' := hcore'.trans (hscalar hmemory)
          exact iff_of_true ⟨hsame, by rw [hcore']; exact ⟨rfl, rfl⟩, by rw [hcore']⟩
            (hloses.mpr ⟨hturn, fun h => Bool.false_ne_true ((hfull h.2.2.2.1).symm.trans h.2.2.1)⟩)
        · exact iff_of_false (fun h => hchanged h.servers) (not_not.mpr (.inr (.inr (.inr
            ⟨hthreads, hkind.symm.trans hblocking, hcapacity, hlive, hfits, hparent, hcannot⟩))))
  · rintro _ s' ⟨hnot, hservers, hprocesses, hpages⟩
    exact torn_iff hadmits hnot hservers hprocesses hpages

end Steps

theorem sidxFromCid_post (hcall : s.AtCall pid) (cid : Nat) :
    Post (sidxFromCid cid) (fun found s' => found = s.resolve pid cid ∧ s' = s) (fun _ _ => False) s := by
  unfold sidxFromCid
  rw [post_ite]
  refine ⟨fun hlow => ⟨by simp [resolve, hlow], rfl⟩, fun _ => ?_⟩
  simp only [connectionsCurrent, post_bind, post_gets, post_assert, post_get, post_pure, hcall.satp]
  exact fun _ => ⟨trivial, trivial⟩

/-- A send to a server: if it succeeds, or fails without having changed anything, it is none of those
that lose something. -/
theorem sendTo_post (hcall : s.AtCall pid) (hserver : s.serverAt sidx = some server) (tid : TID)
    (hlen : ∀ buf, message.memory = some buf → buf.len < 2 ^ 32) (cid : Nat)
    (hresolve : s.resolve pid cid = some sidx) :
    Post (sendMessage pid tid cid message) (fun _ _ => ¬s.core.LosesSend pid server message)
      (fun _ s' => s.SameForRetry s' ↔ ¬s.core.LosesSend pid server message) s := by
  obtain ⟨avail, taken, htake⟩ : ∃ avail taken, server.takeAvailableThread = (avail, taken) :=
    ⟨_, _, rfl⟩
  obtain ⟨htaken, hnone, -⟩ := taken_eq htake
  unfold sendMessage
  apply (sidxFromCid_post hcall cid).never.bind
  rintro _ _ ⟨rfl, rfl⟩
  simp only [post_bind, hresolve, post_ofOption, Option.some.injEq, forall_eq', reduceCtorEq,
    false_implies, and_true, post_gets, hserver]
  rw [post_withServer_some hserver]
  rw [Post, takeThread, htake]
  apply (canDeliver_post hcall hserver htake rfl rfl).mono
  · rintro deliverable s₁ ⟨hadmits, hs₁, hcore, hlive⟩
    rw [post_ite]
    refine ⟨fun hrefused => ?_, fun hadmitted => ?_⟩
    · have hrefused : server.admits message = false := by
        rw [← Bool.not_eq_true, ← hadmits]
        simpa using hrefused
      exact refused_iff hserver htake hrefused hs₁ hcore fun h => hlive h hrefused
    · have hadmits : server.admits message = true := hadmits.mp (by simpa using hadmitted)
      exact admitted_post hcall hserver htake hs₁ hadmits hcore tid _ hlen
  · rintro _ s' ⟨hservers, hcore, hmemory, hdead⟩
    refine iff_of_true ⟨hservers, by rw [hcore]; exact ⟨rfl, rfl⟩, by rw [hcore]⟩ ?_
    rintro (h | h | h | h)
    · exact hdead (h.2.2 hmemory)
    · exact hdead (live_of_tears hcall h.2)
    · exact hdead h.2.2.2.1
    · exact hdead h.2.2.2.1

theorem sendMessage_post (hcall : s.AtCall pid) (tid : TID) (cid : Nat)
    (hlen : ∀ buf, message.memory = some buf → buf.len < 2 ^ 32) :
    Post (sendMessage pid tid cid message) (fun _ _ => ¬s.LosesSend pid cid message)
      (fun _ s' => s.SameForRetry s' ↔ ¬s.LosesSend pid cid message) s := by
  by_cases hfound : ∃ sidx server, s.resolve pid cid = some sidx ∧ s.serverAt sidx = some server
  · obtain ⟨sidx, server, hresolve, hserver⟩ := hfound
    have hloses : s.LosesSend pid cid message ↔ s.core.LosesSend pid server message := by
      simp [KState.LosesSend, hresolve, hserver]
    rw [hloses]
    exact sendTo_post hcall hserver tid hlen cid hresolve
  · have hkeeps : ¬s.LosesSend pid cid message := by
      rintro ⟨sidx, server, hresolve, hserver, -⟩
      exact hfound ⟨sidx, server, hresolve, hserver⟩
    unfold sendMessage
    apply (sidxFromCid_post hcall cid).never.bind
    rintro _ s₁ ⟨rfl, hs₁⟩
    subst s₁
    rw [post_bind, post_ofOption]
    refine ⟨fun sidx hresolve => ?_, fun _ => iff_of_true ⟨rfl, ⟨rfl, rfl⟩, rfl⟩ hkeeps⟩
    rw [post_bind, post_gets]
    cases hserver : s.serverAt sidx with
    | none => trivial
    | some server => exact absurd ⟨sidx, server, hresolve, hserver⟩ hfound

end Send

/-- **Failed sends.** A send that returns an error leaves servers, page tables and processes as they
were, just when it is none of the sends that lose something. -/
theorem failed_send_keeps_state_iff (s : KState) (pid : PID) (tid : TID) (cid : Nat)
    (message : Message) (hcall : s.AtCall pid)
    (hlen : ∀ buf, message.memory = some buf → buf.len < 2 ^ 32)
    (hreturns : sendMessage pid tid cid message s ≠ .panic) :
    (∀ e s', sendMessage pid tid cid message s = .err e s' → s.SameForRetry s') ↔
      ¬s.LosesSend pid cid message :=
  (sendMessage_post hcall tid cid hlen).err_iff hreturns

theorem smallKernel_atCall {state3 : ProcessState} {server : Server}
    (hstate : ∀ x, state3 ≠ .exception x ∧ state3 ≠ .blockedException x)
    (hhead : server.queueHead < server.queue.length) : (smallKernel state3 server).AtCall pid2 where
  current := rfl
  satp := rfl
  live := ⟨by decide, rfl, by simp [smallKernel, pid1, pid2]⟩
  calm q x := by
    simp only [smallKernel]
    split_ifs
    · simp
    · simp
    · exact hstate x
    · simp
  head sidx server' h := by
    simp only [serverAt, smallKernel] at h
    split_ifs at h
    obtain rfl := Option.some.inj h
    exact hhead
  place q := by simp [smallKernel, ArchProcess.fresh, defaultMessageBase]

def pageMessage : Message := .borrow ⟨0, ⟨⟨0x1000, Nat.two_pow_pos 12⟩, ⟨0x1000, Nat.two_pow_pos 12⟩⟩, none, none⟩

/-- Thread 2 of process 3 waits for messages, and every slot of the queue holds a reply token. -/
def waitingServer : Server := { answerlessServer with readyThreads := threadBit 2 }

/-- The message finds no place, and the thread that was taken for it waits no longer. -/
theorem send_to_answerless_server_loses_thread :
    ∃ e s', sendMessage pid2 2 2 pageMessage (smallKernel .sleeping waitingServer) = .err e s' ∧
      ¬(smallKernel .sleeping waitingServer).SameForRetry s' := by
  have herrs : (sendMessage pid2 2 2 pageMessage (smallKernel .sleeping waitingServer)).errs
      (fun e s' => decide (e = .serverQueueFull) &&
        decide ((s'.servers 0).map readyThreads = some 0)) = true := rfl
  obtain ⟨e, s', hrun, htest⟩ := Outcome.exists_of_errs herrs
  refine ⟨e, s', hrun, fun hsame => ?_⟩
  rw [hsame.servers, Bool.and_eq_true, decide_eq_true_eq, decide_eq_true_eq] at htest
  exact absurd htest.2 (by decide)

/-- No thread waits for messages, and the queue has no room: the send is refused and loses nothing. -/
theorem refused_send_keeps_state :
    ¬(smallKernel .sleeping answerlessServer).LosesSend pid2 2 (.scalar ⟨0, 0, 0, 0, 0⟩) ∧
    ∃ e s', sendMessage pid2 2 2 (.scalar ⟨0, 0, 0, 0, 0⟩) (smallKernel .sleeping answerlessServer) =
        .err e s' ∧ (smallKernel .sleeping answerlessServer).SameForRetry s' := by
  have hkeeps : ¬(smallKernel .sleeping answerlessServer).LosesSend pid2 2 (.scalar ⟨0, 0, 0, 0, 0⟩) := by
    rintro ⟨sidx, server, -, hserver, h | h | h | h⟩
    · simp only [serverAt, smallKernel] at hserver
      split_ifs at hserver
      obtain rfl := Option.some.inj hserver
      exact h.1 rfl
    · obtain ⟨-, -, buf, hbuf, -⟩ := h
      simp [memory] at hbuf
    · exact Bool.false_ne_true h.2.1
    · exact Bool.false_ne_true h.2.1
  have herrs : (sendMessage pid2 2 2 (.scalar ⟨0, 0, 0, 0, 0⟩) (smallKernel .sleeping answerlessServer)).errs
      (fun _ _ => true) = true := by decide +kernel
  obtain ⟨e, s', hrun, -⟩ := Outcome.exists_of_errs herrs
  exact ⟨hkeeps, e, s', hrun, (failed_send_keeps_state_iff _ pid2 2 2 _
    (smallKernel_atCall (by simp) (by decide +kernel)) (by simp [memory]) (by simp [hrun])).mpr hkeeps e s' hrun⟩

end BaochipXous.Kernel
