import BaochipXous.KernelMemoryFrame
import BaochipXous.KernelRules
import BaochipXous.KernelServices

/-!
What the calls that make and end servers, connections and processes do to connections. A connection
is a position in a table of its process, which holds the position of the server in the table of the
kernel; both are used again.
-/

namespace BaochipXous.Kernel

open Prog Function

theorem ProcessState.withReady_ne_free {state state' : ProcessState} {tid : TID}
    (h : state.withReady tid = some state') : state' ≠ .free := by
  rintro rfl
  cases state with
  | running x | ready x => by_cases hset : hasThread x tid <;> simp [withReady, hset] at h
  | _ => simp [withReady] at h

/-- The processes that the table has set up are those of `set`, and each has an entry in use. -/
structure Core.TableIs (set : PID → Bool) (core : Core) : Prop where
  table : core.table = set
  used : ∀ pid, set pid = true → pid.get ≤ maxProcessCount ∧ (core.processes pid).state ≠ .free

variable (tid : TID)

namespace Core.TableIs

variable {set : PID → Bool} {core : Core}

theorem setProcess (h : core.TableIs set) (pid : PID) {p : Process} (hp : p.state ≠ .free) :
    (core.setProcess pid p).TableIs set := by
  refine ⟨h.table, fun q hq => ⟨(h.used q hq).1, ?_⟩⟩
  by_cases hpid : q = pid
  · subst hpid
    rwa [Core.setProcess_same]
  · rw [Core.setProcess_of_ne hpid]
    exact (h.used q hq).2

theorem withMachine {α : Type} (m : MM α) : Keeps (Core.TableIs set) (withMachine m) := by
  intro core h
  rw [post_withMachine]
  exact .of_forall (fun _ _ => ⟨h.table, h.used⟩) fun _ _ => ⟨h.table, h.used⟩

variable (pid : PID)

theorem getProcess : Keeps (Core.TableIs set) (getProcess pid) := Core.Stable.getProcess pid

theorem activateProcess : Keeps (Core.TableIs set) (activateProcess pid) :=
  .bind (.gets _) fun _ => .bind (.assert _) fun _ => withMachine _

theorem setState {state : ProcessState} (hstate : state ≠ .free) : Keeps (Core.TableIs set) (setState pid state) :=
  .modify fun _ h => h.setProcess pid hstate

theorem archProcessCurrent : Keeps (Core.TableIs set) archProcessCurrent :=
  .bind (.gets _) fun _ => .assert _

theorem setTid : Keeps (Core.TableIs set) (setTid tid) :=
  .bind (.assert _) fun _ => withMachine _

theorem setThreadResult (result : KResult) : Keeps (Core.TableIs set) (setThreadResult pid tid result) := by
  intro core h
  apply (setThreadResult_post pid tid result core).mono
  · rintro _ _ ⟨a, rfl⟩
    exact ⟨h.table, h.used⟩
  · rintro _ _ ⟨rfl, -⟩
    exact h

theorem noteReady : Keeps (Core.TableIs set) (noteReady pid tid) :=
  .modify fun _ h => ⟨h.table, h.used⟩

theorem noteTaken : Keeps (Core.TableIs set) (noteTaken pid tid) :=
  .modify fun _ h => ⟨h.table, h.used⟩

theorem readyThread : Keeps (Core.TableIs set) (readyThread pid tid) := by
  intro core h
  rw [post_readyThread]
  refine ⟨fun _ state hstate => ?_, fun _ => h⟩
  have hused := h.setProcess pid (p := { core.processes pid with state }) (ProcessState.withReady_ne_free hstate)
  exact ⟨hused.table, hused.used⟩

theorem updateProcess {f : Process → Process} (hf : ∀ p, (f p).state = p.state) :
    Keeps (Core.TableIs set) (updateProcess pid f) := by
  refine .modify fun core h => ⟨h.table, fun q hq => ⟨(h.used q hq).1, ?_⟩⟩
  by_cases hpid : q = pid
  · subst hpid
    rw [Core.setProcess_same, hf]
    exact (h.used q hq).2
  · rw [Core.setProcess_of_ne hpid]
    exact (h.used q hq).2

theorem setCurrentThread :
    Keeps (Core.TableIs set) (setCurrentThread pid tid) := updateProcess pid fun _ => rfl

theorem givenOrNext (tid : Option TID) (threadMask : ThreadMask) (currentThread : TID) :
    Keeps (Core.TableIs set) (givenOrNext tid threadMask currentThread) := by
  cases tid with
  | some tid => exact .pure tid
  | none =>
    refine .bind (.assert _) fun _ => .ite _ (.pure _) ?_
    exact .ite _ (.pure _) (.pure _)

theorem setupThread (init : ThreadInit) : Keeps (Core.TableIs set) (setupThread tid init) :=
  .bind (.assert _) fun _ => .ite _ (.fail _) (.bind (.assert _) fun _ => withMachine _)

theorem switchToThread (tid : Option TID) : Keeps (Core.TableIs set) (switchToThread pid tid) := by
  refine .bind (getProcess pid) fun process => ?_
  cases process.state with
  | free | sleeping | allocated => exact .fail _
  | blockedException => exact .halt
  | exception =>
    exact .bind (activateProcess pid) fun _ => .bind archProcessCurrent fun _ => setTid _
  | setup init =>
    exact .bind (activateProcess pid) fun _ => .bind (.assert _) fun _ =>
      .bind archProcessCurrent fun _ => .bind (setupThread _ _) fun _ => .bind (setTid _) fun _ =>
      .bind (withMachine _) fun _ => .bind (setCurrentThread _ _) fun _ =>
      .bind (setState pid nofun) fun _ => noteTaken _ _
  | ready mask =>
    exact .bind (.assert _) fun _ => .bind (givenOrNext _ _ _) fun _ => .bind (.assert _) fun _ =>
      .bind (activateProcess pid) fun _ => .bind archProcessCurrent fun _ => .bind (setTid _) fun _ =>
      .bind (setCurrentThread _ _) fun _ => .bind (setState pid nofun) fun _ => noteTaken _ _
  | running mask =>
    refine .bind (givenOrNext _ _ _) fun newThread => .ite _ (.fail _) ?_
    exact .bind archProcessCurrent fun _ => .bind (setTid _) fun _ =>
      .bind (setCurrentThread _ _) fun _ => .bind (setState pid nofun) fun _ =>
      .bind (noteReady _ _) fun _ => noteTaken _ _

theorem stable : Core.Stable (Core.TableIs set) fun _ => True where
  machine _ :=
    { entry := fun _ _ _ h => ⟨h.table, h.used⟩
      root := fun _ _ h => ⟨h.table, h.used⟩
      table := fun _ _ h => ⟨h.table, h.used⟩
      owners := fun _ _ _ _ h => ⟨h.table, h.used⟩
      arch := fun _ _ h => ⟨h.table, h.used⟩
      lends := fun _ _ h => ⟨h.table, h.used⟩
      space := fun _ _ _ h => ⟨h.table, h.used⟩ }
  current _ _ := trivial

/-- Like the rule for a program that keeps a predicate, for one whose errors stop the kernel. -/
theorem unwrap {α : Type} {m : CM α} (hm : Keeps (Core.TableIs set) m) (h : core.TableIs set) :
    Post (Prog.unwrap m) (fun _ => Core.TableIs set) (fun _ _ => False) core := by
  rw [post_unwrap]
  exact (hm core h).weaken

theorem destroyEntry (entry : QueuedMessage) (h : core.TableIs set) :
    Post (destroyEntry entry) (fun _ => Core.TableIs set) (fun _ _ => False) core := by
  cases entry with
  | waitingForget | waitingReturnMemory | waitingReturnScalar => trivial
  | empty | scalarMessage => exact h
  | memoryMessageSend => exact unwrap (withMachine _) h
  | blockingScalarTerminated | blockingScalarMessage =>
    exact (unwrap (setThreadResult _ _ _) h).bind fun _ _ h => unwrap (readyThread _ _) h
  | memoryMessageROLend | memoryMessageRWLend | memoryMessageROLendTerminated
  | memoryMessageRWLendTerminated =>
    apply (unwrap (stable.returnMemoryTo trivial _ _ _) h).bind
    intro _ core h
    exact (unwrap (readyThread _ _) h).bind fun _ _ h => unwrap (setThreadResult _ _ _) h

theorem destroyQueue (server : Server) (h : core.TableIs set) :
    Post (destroyQueue server) (fun _ => Core.TableIs set) (fun _ _ => False) core := by
  rw [Kernel.destroyQueue]
  refine (post_forEach _ (fun entry _ _ h => destroyEntry entry h) h).bind fun _ core h => ?_
  rw [post_bind, post_currentPid, post_bind]
  refine (post_forEach _ (fun serverTid _ _ h => ?_) h).imp fun _ core h =>
    post_forEach _ (fun addr _ _ h => ?_) h
  · exact (unwrap (readyThread _ _) h).bind fun _ _ h => unwrap (setThreadResult _ _ _) h
  · exact (unwrap (withMachine _) h).bind fun _ _ h => h

theorem allocateMapping : Keeps (Core.TableIs set) (allocateMapping pid) :=
  .bind (.gets _) fun _ => .ite _ (.fail _) <| .bind (withMachine _) fun _ =>
    updateProcess pid fun _ => rfl

end Core.TableIs

variable (s : KState)

namespace KState

/-- Every connection of a process leads to a server that exists, unless it is marked as dead. -/
def LeadsToServers : Prop :=
  ∀ pid i v, s.core.table pid = true → i < connectionCount → s.connections pid i = some v →
    v = 1 ∨ ∃ idx, v = idx + 2 ∧ idx < maxServerCount ∧ (s.servers idx).isSome = true

structure Sound : Prop where
  used : s.core.TableIs s.core.table
  leads : s.LeadsToServers

/-- The process has a connection to a server of this name. -/
def Connected (pid : PID) (sid : SID) : Prop :=
  ∃ i idx server, i < connectionCount ∧ s.connections pid i = some (idx + 2) ∧
    s.serverAt idx = some server ∧ server.sid = sid

def freeSlot (pid : PID) : Option Nat :=
  (List.range connectionCount).find? fun i => (s.connections pid i).isNone

/-- The connection `i` of `pid` is the one that `client` gets when it asks for `sid`. -/
def NewSlot (client : PID) (sid : SID) (pid : PID) (i : Nat) : Prop :=
  pid = client ∧ ¬s.Connected client sid ∧ s.freeSlot client = some i

/-- What a call leaves that began in `start`: no old connection of a process that was there has
changed its server, but for those in `new`. -/
structure Within (start : KState) (new : PID → Nat → Prop) (s : KState) : Prop where
  sound : s.Sound
  old : ∀ pid i idx, start.core.table pid = true → i < connectionCount →
    s.connections pid i = some (idx + 2) →
    start.connections pid i = some (idx + 2) ∨ new pid i

/-- What a call leaves behind before it makes a connection. -/
structure Prepared (start s : KState) : Prop where
  sound : s.Sound
  maps : ∀ pid, start.core.table pid = true → s.connections pid = start.connections pid
  servers : ∀ idx server, start.servers idx = some server → s.servers idx = some server

variable {s : KState}

theorem Sound.prepared (h : s.Sound) : s.Prepared s := ⟨h, fun _ _ => rfl, fun _ _ h => h⟩

theorem Prepared.within {start : KState} (h : start.Prepared s) (new : PID → Nat → Prop) : start.Within new s := by
  refine ⟨h.sound, fun pid i idx hpid _ hentry => .inl ?_⟩
  rwa [← h.maps pid hpid]

theorem Sound.within (h : s.Sound) (new : PID → Nat → Prop) : s.Within new s := h.prepared.within new

theorem Sound.withCore (h : s.Sound) {core : Core} (hcore : core.TableIs s.core.table) : { s with core }.Sound := by
  refine ⟨⟨rfl, ?_⟩, ?_⟩
  · intro pid hpid
    exact hcore.used pid (by rw [← hcore.table]; exact hpid)
  · intro pid i v hpid
    exact h.leads pid i v (by rw [← hcore.table]; exact hpid)

end KState

section CoreCalls

variable {α : Type} {m : CM α}

theorem prepared_withCore {start : KState} (hm : ∀ set, Keeps (Core.TableIs set) m) :
    Keeps start.Prepared (withCore m) := by
  intro s hs
  have hstep (core : Core) (hcore : core.TableIs s.core.table) :
      start.Prepared { s with core } := ⟨hs.sound.withCore hcore, hs.maps, hs.servers⟩
  rw [post_withCore]
  exact (hm _ s.core hs.sound.used).both hstep

theorem within_withCore {start : KState} {new : PID → Nat → Prop}
    (hm : ∀ set, Keeps (Core.TableIs set) m) : Keeps (start.Within new) (withCore m) := by
  intro s hs
  have hstep (core : Core) (hcore : core.TableIs s.core.table) :
      start.Within new { s with core } := ⟨hs.sound.withCore hcore, hs.old⟩
  rw [post_withCore]
  exact (hm _ s.core hs.sound.used).both hstep

end CoreCalls

variable {pid : PID}

theorem entry_updated {connections : PID → Nat → Option Nat} {p : PID} {slot i v : Nat}
    {entry : Option Nat} (h : update connections p (update (connections p) slot entry) pid i = some v) :
    (pid = p ∧ i = slot ∧ entry = some v) ∨ connections pid i = some v := by
  by_cases hp : pid = p
  · subst hp
    rw [update_self, update_apply] at h
    split at h
    · exact .inl ⟨rfl, ‹_›, h⟩
    · exact .inr h
  · rw [update_of_ne hp] at h
    exact .inr h

variable {start s : KState}

theorem KState.Prepared.existingConnection (h : start.Prepared s) {sid : SID}
    (hpid : start.core.table s.core.machine.satp = true)
    (hconnected : start.Connected s.core.machine.satp sid) : s.existingConnection sid ≠ none := by
  obtain ⟨i, idx, server, hi, hentry, hserver, hsid⟩ := hconnected
  intro hnone
  rw [KState.existingConnection, List.find?_eq_none] at hnone
  have hat : s.serverAt idx = some server := by
    rw [KState.serverAt] at hserver ⊢
    split_ifs at hserver ⊢
    exact h.servers idx server hserver
  apply hnone i (List.mem_range.mpr hi)
  rw [h.maps _ hpid, hentry]
  simp [hat, hsid]

theorem connectToServer_within (h : start.Prepared s) (sid : SID) :
    Leaves (connectToServer sid) (start.Within (start.NewSlot s.core.machine.satp sid)) s := by
  have hsame := h.within (start.NewSlot s.core.machine.satp sid)
  simp only [connectToServer, connectionsCurrent, post_bind, post_gets, post_assert, post_get]
  intro _
  split
  · exact hsame
  · rename_i hnone
    rw [post_bind, post_ofOption]
    refine ⟨fun slotIdx hslot => ?_, fun _ => hsame⟩
    split
    · rename_i serverIdx hserver
      have hidx : serverIdx < maxServerCount := List.mem_range.mp (List.mem_of_find?_eq_some hserver)
      have hsome : (s.servers serverIdx).isSome = true := by
        have hany := List.find?_some hserver
        cases hs : s.servers serverIdx with
        | none => rw [hs] at hany; cases hany
        | some server => rfl
      rw [post_bind, updateConnectionMap, post_modify, post_pure]
      refine ⟨⟨h.sound.used, ?_⟩, ?_⟩
      · intro pid i v hpid hi hentry
        rcases entry_updated hentry with ⟨-, -, hv⟩ | hentry
        · exact .inr ⟨serverIdx, (Option.some.inj hv).symm, hidx, hsome⟩
        · exact h.sound.leads pid i v hpid hi hentry
      · intro pid i idx hpid hi hentry
        rcases entry_updated hentry with ⟨rfl, rfl, -⟩ | hentry
        · refine .inr ⟨rfl, fun hconnected => h.existingConnection hpid hconnected hnone, ?_⟩
          rwa [KState.freeSlot, ← h.maps _ hpid]
        · exact hsame.old pid i idx hpid hi hentry
    · exact hsame

theorem connectProcessToServer_within (h : start.Prepared s) (target : PID) (sid : SID) :
    Leaves (connectProcessToServer target sid) (start.Within (start.NewSlot target sid)) s := by
  have hrest (originalPid : PID) (result : Except Error Nat) : Keeps (start.Within (start.NewSlot target sid)) (do
        let _ ← withCore (getProcess originalPid)
        withCore (activateProcess originalPid)
        ofExcept result) :=
    .bind (within_withCore fun _ => Core.TableIs.getProcess _) fun _ =>
      .bind (within_withCore fun _ => Core.TableIs.activateProcess _) fun _ => .ofExcept _
  rw [Leaves, connectProcessToServer, post_bind, post_withCore, post_currentPid, post_bind]
  refine (prepared_withCore (fun _ => Core.TableIs.getProcess target) s h).mono (fun _ s h => ?_) fun _ _ h => h.within _
  rw [post_bind, post_withCore, post_activateProcess]
  intro _ _
  rw [post_bind, post_attempt]
  have hactive : start.Prepared { s with core := { s.core with
      machine := { s.core.machine with current := target, satp := target } } } :=
    ⟨h.sound.withCore ⟨rfl, h.sound.used.used⟩, h.maps, h.servers⟩
  exact (connectToServer_within hactive sid).mono (fun _ s' h => hrest _ _ s' h) fun _ s' h =>
    hrest _ _ s' h

theorem disconnectFromServer_within (h : s.Sound) (cid : Nat) :
    Leaves (disconnectFromServer cid) (s.Within fun _ _ => False) s := by
  have hsame := h.within fun _ _ => False
  simp only [disconnectFromServer, connectionsCurrent, post_ite, post_fail, post_bind, post_gets,
    post_assert, post_get, updateConnectionMap, post_modify]
  refine ⟨fun _ => hsame, fun _ _ => ⟨fun _ => hsame, fun _ => ⟨fun _ => hsame, fun _ => ?_⟩⟩⟩
  have hentry (pid : PID) (i v : Nat) (hv : update s.connections s.core.machine.satp
      (update (s.connections s.core.machine.satp) (cid - 2) none) pid i = some v) :
      s.connections pid i = some v :=
    (entry_updated hv).resolve_left fun h => Option.some_ne_none v h.2.2.symm
  exact ⟨⟨h.used, fun pid i v hpid hi hv => h.leads pid i v hpid hi (hentry pid i v hv)⟩,
    fun pid i idx _ _ hv => .inl (hentry pid i _ hv)⟩

theorem KState.servers_setServer (s : KState) (sidx : Nat) (server : Option Server) :
    (s.setServer sidx server).servers = update s.servers sidx server := rfl

theorem KState.Prepared.setServer (h : start.Prepared s) {entry : Nat}
    (hfree : s.servers entry = none) (server : Server) :
    start.Prepared (s.setServer entry (some server)) := by
  refine ⟨⟨h.sound.used, ?_⟩, h.maps, ?_⟩
  · intro pid i v hpid hi hentry
    refine (h.sound.leads pid i v hpid hi hentry).imp_right fun ⟨idx, hv, hidx, hsome⟩ => ?_
    refine ⟨idx, hv, hidx, ?_⟩
    rw [KState.servers_setServer, update_apply]
    split
    · rfl
    · exact hsome
  · intro idx server' hserver'
    have hkept := h.servers idx server' hserver'
    rw [KState.servers_setServer, update_of_ne]
    · exact hkept
    · rintro rfl
      rw [hfree] at hkept
      cases hkept

theorem createServerWithAddress_within (h : start.Prepared s) (pid : PID) (sid : SID) (connect : Bool) :
    Leaves (createServerWithAddress pid sid connect) (fun s' => start.Within (start.NewSlot s.core.machine.satp sid) s' ∧
        (connect = false → start.Prepared s')) s := by
  have hsame {s' : KState} (h : start.Prepared s') : start.Within (start.NewSlot s.core.machine.satp sid) s' ∧
        (connect = false → start.Prepared s') := ⟨h.within _, fun _ => h⟩
  rw [Leaves, createServerWithAddress, post_bind, post_withCore, post_getProcess]
  refine ⟨fun _ => ?_, fun _ => hsame h⟩
  rw [post_bind, post_assert]
  intro _
  rw [post_bind, post_get]
  split
  · exact hsame h
  · rename_i entry hentry
    have hfree : s.servers entry = none := by
      have hnone := List.find?_some hentry
      rwa [Option.isNone_iff_eq_none] at hnone
    have hprepared (machine : Machine) : start.Prepared { s with core := { s.core with machine } } :=
      ⟨h.sound.withCore ⟨rfl, h.sound.used.used⟩, h.maps, h.servers⟩
    rw [post_bind, post_withCore, post_withMachine]
    refine ((Machine.stable_satp _).mapZeroedPage pid false s.core.machine rfl).mono
      (fun virt machine hsatp => ?_) fun _ machine _ => hsame (hprepared machine)
    rw [post_bind, post_ofExcept]
    refine ⟨fun backing _ => ?_, fun _ _ => hsame (hprepared machine)⟩
    rw [post_bind, post_modify, post_ite]
    have hnew := (hprepared machine).setServer hfree (.init pid sid backing.asPtr queueSlots)
    refine ⟨fun hconnect => ?_, fun _ => hsame hnew⟩
    rw [post_bind]
    refine (connectToServer_within hnew sid).both fun s' hs' => ⟨by rwa [← hsatp], fun hfalse => ?_⟩
    exact absurd (hconnect.symm.trans hfalse) Bool.noConfusion

theorem mem_allPids (h : pid.get ≤ maxProcessCount) : pid ∈ allPids := by
  have hpos := pid.pos
  refine List.mem_filterMap.mpr ⟨pid.get - 1, List.mem_range.mpr (by omega), ?_⟩
  have hget : pid.get - 1 + 1 = pid.get := by omega
  rw [hget]
  exact PID.new_get pid

theorem allPids_nodup : allPids.Nodup := by decide +kernel

/-- The connections to a slot are replaced in every process, and nothing else changes. -/
theorem updateConnections_post (sidx : Nat) (entry : Option Nat) (hused : s.core.TableIs s.core.table) :
    Post (updateConnections sidx entry) (fun _ s' => s'.core.TableIs s.core.table ∧ s'.servers = s.servers ∧
        ∀ pid, s.core.table pid = true → s'.connections pid = replaceConnections sidx entry (s.connections pid))
      (fun _ _ => False) s := by
  refine (post_forEach_done (I := fun done s' => s'.core.TableIs s.core.table ∧ s'.servers = s.servers ∧
      ∀ pid, s.core.table pid = true → s'.connections pid =
        if pid ∈ done then replaceConnections sidx entry (s.connections pid)
        else s.connections pid) allPids [] ?_ ⟨hused, rfl, fun _ _ => by simp⟩).imp ?_
  · rintro front x rest s' hsplit ⟨htable, hservers, hconnections⟩
    have hx : x ∉ front := by
      have hnodup := allPids_nodup
      rw [List.nil_append] at hsplit
      rw [hsplit, List.nodup_append] at hnodup
      exact fun hmem => hnodup.2.2 x hmem x List.mem_cons_self rfl
    rw [post_bind, post_gets, post_when]
    refine ⟨fun _ => ?_, fun hfree => ⟨htable, hservers, fun pid hpid => ?_⟩⟩
    · rw [post_bind, post_withCore, post_activateProcess]
      intro _ _
      rw [updateConnectionMap, post_modify]
      refine ⟨⟨htable.table, htable.used⟩, hservers, fun pid hpid => ?_⟩
      by_cases hp : pid = x
      · subst hp
        simp [hconnections pid hpid, hx]
      · simp [hconnections pid hpid, hp]
    · have hp : pid ≠ x := by
        rintro rfl
        have hstate := (htable.used pid hpid).2
        simp [Process.isFree, hstate] at hfree
      simp [hconnections pid hpid, hp]
  · rintro _ s' ⟨htable, hservers, hconnections⟩
    refine ⟨htable, hservers, fun pid hpid => ?_⟩
    rw [hconnections pid hpid, List.nil_append, if_pos (mem_allPids (hused.used pid hpid).1)]

theorem KState.Sound.replaced {s' : KState} (h : s.Sound) (sidx : Nat) (entry : Option Nat)
    (hentry : ∀ v, entry = some v → v = 1) (htable : s'.core.TableIs s.core.table)
    (hconnections : ∀ pid, s.core.table pid = true →
      s'.connections pid = replaceConnections sidx entry (s.connections pid))
    (hservers : ∀ idx, idx ≠ sidx → (s'.servers idx).isSome = (s.servers idx).isSome) :
    s.Within (fun _ _ => False) s' := by
  have hcases (pid : PID) (i v : Nat) (hpid : s.core.table pid = true) (hi : i < connectionCount)
      (hv : s'.connections pid i = some v) :
      v = 1 ∨ (s.connections pid i = some v ∧ v ≠ sidx + 2) := by
    rw [hconnections pid hpid, replaceConnections] at hv
    split at hv
    · exact .inl (hentry v hv)
    · rename_i hne
      refine .inr ⟨hv, ?_⟩
      rintro rfl
      exact hne ⟨hi, hv⟩
  have hlive {pid : PID} (hpid : s'.core.table pid = true) : s.core.table pid = true := by
    rwa [← htable.table]
  refine ⟨⟨⟨rfl, fun pid hpid => htable.used pid (hlive hpid)⟩, ?_⟩, ?_⟩
  · intro pid i v hpid hi hv
    rcases hcases pid i v (hlive hpid) hi hv with rfl | ⟨hold, hne⟩
    · exact .inl rfl
    · refine (h.leads pid i v (hlive hpid) hi hold).imp_right fun ⟨idx, hidx, hlt, hsome⟩ => ?_
      refine ⟨idx, hidx, hlt, ?_⟩
      rw [hservers idx fun heq => hne (by rw [hidx, heq])]
      exact hsome
  · intro pid i idx hpid hi hv
    rcases hcases pid i _ hpid hi hv with hone | ⟨hold, -⟩
    · omega
    · exact .inl hold

theorem destroyServer_within (h : s.Sound) (pid : PID) (sid : SID) :
    Leaves (destroyServer pid sid) (s.Within fun _ _ => False) s := by
  have hsame := h.within fun _ _ => False
  rw [Leaves, destroyServer, post_bind, post_get, post_bind, post_ofOption]
  refine ⟨fun serverIdx _ => ?_, fun _ => hsame⟩
  split
  · trivial
  · rename_i server hserver
    rw [post_ite]
    refine ⟨fun _ => hsame, fun _ => ?_⟩
    rw [post_bind, post_modify, post_bind, post_withCore]
    refine (Core.TableIs.destroyQueue server h.used).never.imp fun _ core hcore => ?_
    rw [post_bind, post_withCore, post_currentPid, post_bind, post_unwrap]
    refine (updateConnections_post serverIdx none (s := { s.setServer serverIdx none with core })
      ⟨rfl, ?_⟩).never.imp fun _ s' ⟨htable, hservers, hconnections⟩ => ?_
    · rw [hcore.table]
      exact hcore.used
    · have hwithin : s.Within (fun _ _ => False) s' := by
        refine h.replaced serverIdx none nofun ?_ (fun pid hpid => ?_) fun idx hne => ?_
        · rwa [hcore.table] at htable
        · rw [← hcore.table] at hpid
          exact hconnections pid hpid
        · rw [hservers]
          exact congrArg Option.isSome (update_of_ne hne _ _)
      refine within_withCore (fun _ => ?_) s' hwithin
      exact .bind (.unwrap (Core.TableIs.getProcess _)) fun _ =>
        .unwrap (Core.TableIs.activateProcess _)

/-- What the loop of `terminate_process` over the servers keeps, once it is through those in `done`. -/
structure Disowned (start : KState) (target : PID) (done : List Nat) (s : KState) : Prop where
  table : s.core.TableIs start.core.table
  owners : ∀ idx, (s.servers idx).map Server.pid = (start.servers idx).map Server.pid
  entries : ∀ pid i v, start.core.table pid = true → i < connectionCount →
    s.connections pid i = some v →
    (v = 1 ∨ start.connections pid i = some v) ∧
      ∀ idx ∈ done, (start.servers idx).map Server.pid = some target → v ≠ idx + 2

theorem disownServer_post {target : PID} {done : List Nat} (h : Disowned start target done s)
    (idx : Nat) :
    Post (disownServer target idx) (fun _ => Disowned start target (done ++ [idx]))
      (fun _ _ => False) s := by
  rw [disownServer, post_bind, post_get]
  split
  · rename_i hnone
    refine ⟨h.table, h.owners, fun pid i v hpid hi hv => ?_⟩
    obtain ⟨hold, hdone⟩ := h.entries pid i v hpid hi hv
    refine ⟨hold, List.forall_mem_append.mpr ⟨hdone, List.forall_mem_singleton.mpr fun howner => ?_⟩⟩
    rw [← h.owners, hnone] at howner
    cases howner
  · rename_i server hserver
    have howner : (start.servers idx).map Server.pid = some server.pid := by
      rw [← h.owners, hserver]
      rfl
    have hrest (s' : KState) (h' : Disowned start target (done ++ [idx]) s') :
        Post (do
            withCore (activateProcess server.pid)
            modify fun s => s.setServer idx (some (server.discardMessagesForPid target)))
          (fun _ => Disowned start target (done ++ [idx])) (fun _ _ => False) s' := by
      rw [post_bind, post_withCore, post_activateProcess]
      intro _ _
      rw [post_modify]
      refine ⟨⟨h'.table.table, h'.table.used⟩, fun idx' => ?_, h'.entries⟩
      rw [KState.servers_setServer, update_apply]
      split
      · rename_i heq
        rw [heq, howner]
        rfl
      · exact h'.owners idx'
    rw [post_bind, post_when]
    refine ⟨fun _ => ?_, fun hother => hrest s ⟨h.table, h.owners, fun pid i v hpid hi hv => ?_⟩⟩
    · have hused : s.core.TableIs s.core.table := ⟨rfl, by rw [h.table.table]; exact h.table.used⟩
      refine (updateConnections_post idx (some 1) hused).imp fun _ s' ⟨htable, hservers, hconnections⟩ => hrest s' ⟨?_, ?_, ?_⟩
      · rwa [← h.table.table]
      · rw [hservers]
        exact h.owners
      · intro pid i v hpid hi hv
        rw [hconnections pid (by rw [h.table.table]; exact hpid), replaceConnections] at hv
        split at hv
        · obtain rfl := Option.some.inj hv
          exact ⟨.inl rfl, fun _ _ _ => by omega⟩
        · rename_i hne
          obtain ⟨hold, hdone⟩ := h.entries pid i v hpid hi hv
          refine ⟨hold, List.forall_mem_append.mpr ⟨hdone, List.forall_mem_singleton.mpr ?_⟩⟩
          rintro - rfl
          exact hne ⟨hi, hv⟩
    · obtain ⟨hold, hdone⟩ := h.entries pid i v hpid hi hv
      refine ⟨hold, List.forall_mem_append.mpr ⟨hdone, List.forall_mem_singleton.mpr fun howner' => ?_⟩⟩
      exact absurd (Option.some.inj (howner.symm.trans howner')) (of_decide_eq_false hother)

theorem terminateEntry_within (start : KState) (pid : PID) :
    Keeps (start.Within fun _ _ => False) (terminateEntry pid) := by
  intro s h
  rw [terminateEntry, post_bind, post_gets, post_ite]
  refine ⟨fun _ => h, fun _ => ?_⟩
  refine (within_withCore (fun _ => Core.TableIs.withMachine _) s h).bind fun _ s h => ?_
  rw [post_bind, post_modify, post_withCore, post_bind, post_modify, post_setState]
  have hlive {q : PID} (hq : update s.core.table pid false q = true) : q ≠ pid ∧ s.core.table q = true := by
    rw [update_apply] at hq
    split at hq
    · cases hq
    · exact ⟨‹_›, hq⟩
  refine ⟨⟨⟨rfl, fun q hq => ?_⟩, fun q i v hq hi hv => h.sound.leads q i v (hlive hq).2 hi hv⟩, h.old⟩
  rw [Core.setProcess_of_ne (hlive hq).1]
  exact h.sound.used.used q (hlive hq).2

theorem terminateProcess_within (h : s.Sound) (target : PID) :
    Leaves (terminateProcess target) (s.Within fun _ _ => False) s := by
  have hstart : Disowned s target [] s :=
    ⟨h.used, fun _ => rfl, fun _ _ _ _ _ hv => ⟨.inr hv, fun _ hmem => nomatch hmem⟩⟩
  rw [Leaves, terminateProcess]
  refine (post_forEach_done (I := Disowned s target) (List.range maxServerCount) []
    (fun _ idx _ _ _ h => disownServer_post h idx) hstart).never.bind fun _ s' h' => ?_
  rw [List.nil_append] at h'
  rw [post_bind, post_modify]
  have hlive {pid : PID} (hpid : s'.core.table pid = true) : s.core.table pid = true := by
    rwa [← h'.table.table]
  have hwithin : s.Within (fun _ _ => False) { s' with
      servers := fun idx =>
        if idx < maxServerCount ∧ (s'.servers idx).any (·.pid = target) then none
        else s'.servers idx } := by
    refine ⟨⟨⟨rfl, fun pid hpid => h'.table.used pid (hlive hpid)⟩, ?_⟩, ?_⟩
    · intro pid i v hpid hi hv
      obtain ⟨hold, hdone⟩ := h'.entries pid i v (hlive hpid) hi hv
      rcases hold with rfl | hold
      · exact .inl rfl
      · refine (h.leads pid i v (hlive hpid) hi hold).imp_right fun ⟨idx, hidx, hlt, hsome⟩ => ?_
        refine ⟨idx, hidx, hlt, ?_⟩
        have howner := h'.owners idx
        obtain ⟨server, hserver⟩ := Option.isSome_iff_exists.mp hsome
        rw [hserver] at howner
        obtain ⟨server', hserver', hpid'⟩ := Option.map_eq_some_iff.mp howner
        -- a server of the process is gone, but then no connection has led to it
        have hkept : server'.pid ≠ target := by
          intro heq
          refine hdone idx (List.mem_range.mpr hlt) ?_ hidx
          rw [hserver, Option.map_some, ← hpid', heq]
        simp [hserver', hkept]
    · intro pid i idx hpid hi hv
      rcases (h'.entries pid i _ hpid hi hv).1 with hone | hold
      · omega
      · exact .inl hold
  exact Keeps.bind (within_withCore fun _ => Core.TableIs.getProcess _) (fun _ =>
    .bind (within_withCore fun _ => Core.TableIs.activateProcess _) fun _ =>
    .bind (terminateEntry_within s target) fun _ =>
    .bind (within_withCore fun _ => .unwrap (Core.TableIs.switchToThread _ _)) fun _ => .pure _)
    _ hwithin

theorem setupProcess_prepared (h : start.Prepared s) (hnew : start.core.table pid = false)
    (hused : (s.core.processes pid).state ≠ .free) (init : ThreadInit) :
    Post (setupProcess pid init) (fun _ => start.Prepared) (fun _ _ => True) s := by
  rw [setupProcess, post_bind, post_gets, post_bind, post_assert]
  intro _
  rw [post_bind, post_assert]
  intro hpid
  rw [post_bind, post_withCore, post_bind, post_modify, post_updateArch, post_bind, post_modify]
  have hlive {q : PID} (hq : update s.core.table pid true q = true) : q = pid ∨ (q ≠ pid ∧ s.core.table q = true) := by
    rw [update_apply] at hq
    split at hq
    · exact .inl ‹_›
    · exact .inr ⟨‹_›, hq⟩
  apply (Keeps.when (I := start.Prepared) _ (.bind (.unwrap (prepared_withCore fun _ =>
    Core.TableIs.withMachine _)) fun _ => .pure ()) _ _).weaken
  refine ⟨⟨⟨rfl, fun q hq => ?_⟩, fun q i v hq hi hv => ?_⟩, fun q hq => ?_, h.servers⟩
  · rcases hlive hq with rfl | ⟨-, hq⟩
    · exact ⟨by simp_all, hused⟩
    · exact h.sound.used.used q hq
  · rcases hlive hq with rfl | ⟨hne, hq⟩
    · simp at hv
    · simp only [update_of_ne hne] at hv
      exact h.sound.leads q i v hq hi hv
  · have hne : q ≠ pid := by
      rintro rfl
      rw [hnew] at hq
      cases hq
    simp only [update_of_ne hne]
    exact h.maps q hq

theorem archProcessCreate_within (h : start.Prepared s) (hnew : start.core.table pid = false)
    (init : ProcessInit) (sid : SID) :
    Post (archProcessCreate pid init sid)
      (fun _ => start.Within (start.NewSlot s.core.machine.current sid)) (fun _ _ => True) s := by
  rw [archProcessCreate, post_bind, post_withCore, post_currentPid, post_bind, post_withCore, post_getProcess]
  refine ⟨fun hlive => ?_, fun _ => trivial⟩
  rw [post_bind, post_withCore, post_withMachine, post_activateMapping, post_bind, post_unwrap]
  have hactive : start.Prepared { s with core := { s.core with
      machine := { s.core.machine with satp := pid } } } :=
    ⟨h.sound.withCore ⟨rfl, h.sound.used.used⟩, h.maps, h.servers⟩
  refine (setupProcess_prepared hactive hnew hlive.2.2 _).imp fun _ s1 h => ?_
  refine (createServerWithAddress_within h pid sid false).weaken.bind fun _ s2 h => ?_
  refine (prepared_withCore (fun _ => Core.TableIs.getProcess _) s2 (h.2 rfl)).weaken.bind fun _ s3 h => ?_
  refine (prepared_withCore (fun _ => Core.TableIs.withMachine _) s3 h).weaken.bind fun _ s4 h => ?_
  refine (connectProcessToServer_within h _ sid).weaken.bind fun _ s5 h => ?_
  exact (within_withCore (fun _ => Core.TableIs.stable.sendMemory trivial _ _ _) s5 h).weaken.bind fun _ _ h => h

theorem allocateMapping_current (pid p : PID) : Keeps (fun core => core.machine.current = p) (allocateMapping pid) := by
  have hstable := Machine.stable_current p
  refine .bind (.gets _) fun _ => .ite _ (.fail _) (.bind (Core.Stable.withMachine fun _ => ?_)
    fun _ => .modify fun _ h => h)
  refine .bind (.gets _) fun _ => .bind (hstable.mapZeroedPage _ _) fun _ => .bind (.gets _) fun _ =>
    .bind (.unwrap (.ofExcept _)) fun _ => .bind (hstable.mapZeroedPage _ _) fun _ =>
    .bind (.gets _) fun _ => .bind (.ofExcept _) fun _ => .bind (hstable.mapZeroedPage _ _) fun _ =>
    .bind (.gets _) fun _ => .bind (.ofExcept _) fun _ => .bind (hstable.mapZeroedPage _ _) fun _ =>
    .bind (.gets _) fun _ => .bind (.ofExcept _) fun _ => .bind (.modify fun _ h => h) fun _ =>
    .bind (.forEach _ fun _ => hstable.movePageRaw _ _) fun _ => .forEach _ fun _ => ?_
  exact .bind (hstable.unmapPageInner _) fun _ => .pure _

theorem allocateMapping_prepared (h : start.Prepared s) (pid : PID) :
    Post (withCore (allocateMapping pid))
      (fun _ s' => start.Prepared s' ∧ s'.core.machine.current = s.core.machine.current)
      (fun _ => start.Prepared) s := by
  have hcurrent : Post (withCore (allocateMapping pid))
      (fun _ s' => s'.core.machine.current = s.core.machine.current) (fun _ _ => True) s := by
    rw [post_withCore]
    exact (allocateMapping_current pid s.core.machine.current s.core rfl).weaken
  exact ((prepared_withCore (fun _ => Core.TableIs.allocateMapping pid) s h).and hcurrent).mono
    (fun _ _ h => h) fun _ _ h => h.1

theorem createProcess_within (h : s.Sound) (init : ProcessInit) (sid : SID) :
    Leaves (createProcess init sid) (s.Within (s.NewSlot s.core.machine.current sid)) s := by
  rw [Leaves, createProcess, post_bind, post_get, post_bind, post_ofOption]
  refine ⟨fun newPid hfree => ?_, fun _ => h.within _⟩
  have hstate : (s.core.processes newPid).state = .free := by
    have hfound := List.find?_some hfree
    simp only [Process.isFree, Bool.and_eq_true, decide_eq_true_eq] at hfound
    exact hfound.1
  have hnew : s.core.table newPid = false := by
    by_contra htrue
    exact (h.used.used newPid (by simpa using htrue)).2 hstate
  rw [post_bind, post_withCore, post_updateProcess, post_bind, post_attempt]
  have hallocated : s.Prepared { s with
      core := s.core.setProcess newPid { s.core.processes newPid with ppid := pid1, state := .allocated } } :=
    ⟨h.withCore (h.used.setProcess newPid (by simp)), fun _ _ => rfl, fun _ _ h => h⟩
  refine (allocateMapping_prepared hallocated newPid).mono ?_ fun _ s1 h1 => h1.within _
  rintro _ s1 ⟨h1, hcurrent⟩
  replace hcurrent : s1.core.machine.current = s.core.machine.current := hcurrent
  rw [post_bind, post_unwrap, ← hcurrent]
  refine (archProcessCreate_within h1 hnew init sid).imp fun _ s2 h => ?_
  exact Keeps.bind (within_withCore fun _ => Core.TableIs.setState newPid (by simp)) (fun _ =>
    .bind (within_withCore fun _ => Core.TableIs.noteReady _ _) fun _ => .pure _) s2 h

end BaochipXous.Kernel
