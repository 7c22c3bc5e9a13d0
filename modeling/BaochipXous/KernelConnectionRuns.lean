import BaochipXous.KernelActivationErrors
import BaochipXous.KernelConnections

/-!
The connections of the processes over histories of servers and processes that come and go. Every
server ever created gets a number, and the connections of a process are recorded with the number of
their server. No function reads these records.
-/

namespace BaochipXous.Kernel

open Prog Labelled

theorem KState.resolve_eq_some {s : KState} {pid : PID} {cid idx : Nat} :
    s.resolve pid cid = some idx ↔ 2 ≤ cid ∧ cid - 2 < connectionCount ∧
      s.connections pid (cid - 2) = some (idx + 2) ∧ idx < maxServerCount := by
  rw [resolve]
  split
  · rename_i hbad
    constructor
    · nofun
    · omega
  · rename_i hgood
    rw [not_or] at hgood
    cases hentry : s.connections pid (cid - 2) with
    | none => simp
    | some v =>
      simp only [Option.some.injEq]
      split
      · constructor
        · nofun
        · omega
      · simp only [Option.some.injEq]
        omega

/-- The connection that is returned leads to a server of the name that was asked for. -/
theorem connectToServer_resolves (sid : SID) (s : KState) :
    Post (connectToServer sid) (fun cid s' => ∃ idx server, s'.resolve s.core.machine.satp cid = some idx ∧
        s'.servers idx = some server ∧ server.sid = sid) (fun _ _ => True) s := by
  simp only [connectToServer, connectionsCurrent, post_bind, post_gets, post_assert, post_get]
  intro _
  split
  · rename_i connectionIdx hfound
    have hi := List.mem_range.mp (List.mem_of_find?_eq_some hfound)
    have hsid := List.find?_some hfound
    rw [post_pure]
    cases hentry : s.connections s.core.machine.satp connectionIdx with
    | none => simp [hentry] at hsid
    | some v =>
      simp only [hentry, Bool.and_eq_true, decide_eq_true_eq] at hsid
      obtain ⟨hv, hany⟩ := hsid
      obtain ⟨server, hat, hname⟩ := (Option.any_eq_true _ _).mp hany
      have hlt : v - 2 < maxServerCount := by
        by_contra hge
        rw [KState.serverAt, if_neg hge] at hat
        cases hat
      rw [KState.serverAt, if_pos hlt] at hat
      refine ⟨v - 2, server, KState.resolve_eq_some.mpr ⟨by omega, hi, ?_, hlt⟩, hat, of_decide_eq_true hname⟩
      rwa [show v - 2 + 2 = v by omega]
  · rw [post_bind, post_ofOption]
    refine ⟨fun slotIdx hslot => ?_, fun _ => trivial⟩
    split
    · rename_i serverIdx hfound
      have hi := List.mem_range.mp (List.mem_of_find?_eq_some hslot)
      have hidx := List.mem_range.mp (List.mem_of_find?_eq_some hfound)
      have hany := List.find?_some hfound
      obtain ⟨server, hserver, hname⟩ := (Option.any_eq_true _ _).mp hany
      rw [post_bind, updateConnectionMap, post_modify, post_pure]
      refine ⟨serverIdx, server, KState.resolve_eq_some.mpr ⟨by omega, hi, ?_, hidx⟩, hserver, of_decide_eq_true hname⟩
      simp
    · trivial

/-- Asked again the kernel returns the same connection and changes nothing; a new connection given
back, and a refusal, leave the kernel as it was. -/
theorem connection_is_reused (sid : SID) (s : KState) :
    Post (connectToServer sid) (fun cid s' => connectToServer sid s' = .ok cid s' ∧
      (s.existingConnection sid = none → disconnectFromServer cid s' = .ok () s)) (fun _ s' => s' = s) s := by
  have hagain (s : KState) (i : Nat) (hpid : s.core.machine.current = (s.core.machine.arch s.core.machine.satp).pid)
      (hfound : s.existingConnection sid = some i) : connectToServer sid s = .ok (i + 2) s := by
    simp [connectToServer, connectionsCurrent, bind_apply, Prog.assert, hfound, hpid]
  conv => enter [1]; unfold connectToServer
  simp only [connectionsCurrent, post_bind, post_gets, post_assert, post_get, decide_eq_true_eq]
  intro hpid
  split
  · rename_i i hfound
    exact ⟨hagain s i hpid hfound, by simp [hfound]⟩
  · rename_i hnone
    rw [post_bind, post_ofOption]
    refine ⟨fun slotIdx hslot => ?_, fun _ => rfl⟩
    obtain ⟨hfree, hslot, -⟩ := List.find?_range_eq_some.mp hslot
    have hlt := List.mem_range.mp hslot
    split
    · rename_i serverIdx hserver
      obtain ⟨hany, hidx, -⟩ := List.find?_range_eq_some.mp hserver
      rw [post_bind, updateConnectionMap, post_modify, post_pure]
      refine ⟨hagain _ slotIdx hpid (List.find?_range_eq_some.mpr ⟨?_, hslot, fun j hj => ?_⟩), fun _ => ?_⟩
      · simpa [KState.serverAt, List.mem_range.mp hidx] using hany
      · have hold := List.find?_eq_none.mp hnone j (List.mem_range.mpr (hj.trans hlt))
        simpa [KState.serverAt, hj.ne] using hold
      · have hback : Function.update _ slotIdx none = s.connections _ :=
          Function.update_eq_self_iff.mpr (Option.isNone_iff_eq_none.mp hfree).symm
        simp [disconnectFromServer, connectionsCurrent, updateConnectionMap, bind_apply, Prog.assert, hpid,
          hlt.not_ge, hback]
    · rfl

/-- The kernel with a record of its servers and of the connections that the processes hold. -/
structure Traced where
  kernel : KState
  /-- The number of the server in each slot. -/
  instances : Nat → Nat
  /-- The number of the next server. -/
  created : Nat
  /-- The process has got this connection to the server of this number and has not given it back. -/
  held : PID → Nat → Nat → Prop

inductive ServerCall where
  | createServer (pid : PID) (sid : SID) (connect : Bool)
  | destroyServer (pid : PID) (sid : SID)
  | connect (sid : SID)
  | connectForProcess (target : PID) (sid : SID)
  | disconnect (cid : Nat)
  | createProcess (init : ProcessInit) (sid : SID)
  | terminateProcess (target : PID)
  /-- What the kernel does between these calls. -/
  | other

/-- The kernel has done something that concerns neither connections nor the life of servers and
processes. -/
structure KState.Apart (s s' : KState) : Prop where
  connections : s'.connections = s.connections
  table : s'.core.table = s.core.table
  used : ∀ pid, (s'.core.processes pid).isFree = (s.core.processes pid).isFree
  servers : ∀ idx, (s'.servers idx).map (fun server => (server.pid, server.sid)) =
    (s.servers idx).map fun server => (server.pid, server.sid)

namespace Traced

/-- The servers there at the start are numbered by their slots. -/
def start (s : KState) : Traced where
  kernel := s
  instances := fun idx => idx
  created := maxServerCount
  held := fun pid cid number => s.core.table pid = true ∧ s.resolve pid cid = some number

/-- The number of each server after a call that has left the kernel in `s`. -/
def instancesAfter (t : Traced) (s : KState) (idx : Nat) : Nat :=
  if (t.kernel.servers idx).isNone && (s.servers idx).isSome then t.created else t.instances idx

variable {t : Traced} {s : KState}

theorem instancesAfter_eq {idx : Nat}
    (h : (t.kernel.servers idx).isSome = true) : t.instancesAfter s idx = t.instances idx := by
  simp [instancesAfter, Option.isNone_eq_false_iff.mpr h]

/-- The record after a call in which processes have got and given back connections. A process that
is no more holds none. -/
def after (t : Traced) (s : KState) (obtained returned : List (PID × Nat)) : Traced where
  kernel := s
  instances := t.instancesAfter s
  created := t.created + 1
  held := fun pid cid number => s.core.table pid = true ∧
    ((t.held pid cid number ∧ (pid, cid) ∉ returned) ∨
      (pid, cid) ∈ obtained ∧ ∃ idx, s.resolve pid cid = some idx ∧ number = t.instancesAfter s idx)

/-- The record after a call that may fail; one that fails hands out nothing. -/
inductive Records {α : Type} (t : Traced) (outcome : Outcome Error KState α)
    (obtained : α → List (PID × Nat)) (returned : List (PID × Nat)) : Traced → Prop where
  | ok {a : α} {s : KState} :
      outcome = .ok a s → Records t outcome obtained returned (t.after s (obtained a) returned)
  | err {e : Error} {s : KState} :
      outcome = .err e s → Records t outcome obtained returned (t.after s [] [])

def Step (t : Traced) (call : ServerCall) (t' : Traced) : Prop :=
  let s := t.kernel
  let caller := s.core.machine.satp
  match call with
  | .createServer pid sid connect =>
    t.Records (createServerWithAddress pid sid connect s)
      (fun answer => if connect then [(caller, answer.2)] else []) [] t'
  | .destroyServer pid sid => t.Records (destroyServer pid sid s) (fun _ => []) [] t'
  | .connect sid => t.Records (connectToServer sid s) (fun cid => [(caller, cid)]) [] t'
  | .connectForProcess target sid =>
    t.Records (connectProcessToServer target sid s) (fun cid => [(target, cid)]) [] t'
  | .disconnect cid => t.Records (disconnectFromServer cid s) (fun _ => []) [(caller, cid)] t'
  | .createProcess init sid =>
    t.Records (createProcess init sid s)
      (fun answer => [(s.core.machine.current, answer.2)]) [] t'
  | .terminateProcess target => t.Records (terminateProcess target s) (fun _ => []) [] t'
  | .other => ∃ s', s.Apart s' ∧ t' = t.after s' [] []

/-- If the process gets a new connection, it is not one that it still holds. -/
def Spares (t : Traced) (client : PID) (sid : SID) : Prop :=
  ∀ pid i number, t.kernel.NewSlot client sid pid i → ¬t.held pid (i + 2) number

/-- The call makes no connection that its process still holds. -/
def SparesHeld (t : Traced) : ServerCall → Prop
  | .createServer _ sid connect => connect = true → t.Spares t.kernel.core.machine.satp sid
  | .connect sid => t.Spares t.kernel.core.machine.satp sid
  | .connectForProcess target sid => t.Spares target sid
  | .createProcess _ sid => t.Spares t.kernel.core.machine.current sid
  | .destroyServer .. | .disconnect _ | .terminateProcess _ | .other => True

def CarefulStep (t : Traced) (call : ServerCall) (t' : Traced) : Prop :=
  t.SparesHeld call ∧ t.Step call t'

structure Inv (t : Traced) : Prop where
  sound : t.kernel.Sound
  live : ∀ pid cid number, t.held pid cid number → t.kernel.core.table pid = true
  same : ∀ pid cid number idx, t.held pid cid number → t.kernel.resolve pid cid = some idx →
    t.instances idx = number

theorem inv_start (hs : s.Sound) : (start s).Inv where
  sound := hs
  live _ _ _ h := h.1
  same pid cid number idx h hidx := by
    have heq : some number = some idx := h.2.symm.trans hidx
    exact (Option.some.inj heq).symm

theorem Inv.after (h : t.Inv) {new : PID → Nat → Prop}
    (hs : t.kernel.Within new s) (hnew : ∀ pid i number, new pid i → ¬t.held pid (i + 2) number)
    (obtained returned : List (PID × Nat)) : (t.after s obtained returned).Inv where
  sound := hs.sound
  live _ _ _ hheld := hheld.1
  same pid cid number idx hheld hidx := by
    rcases hheld.2 with ⟨hold, -⟩ | ⟨-, idx', hidx', hnumber⟩
    · obtain ⟨hcid, hi, hentry, hlt⟩ := KState.resolve_eq_some.mp hidx
      rcases hs.old pid _ idx (h.live pid cid number hold) hi hentry with hentry | hslot
      · -- the server was there before, so its number is the one it had
        have hsome : (t.kernel.servers idx).isSome = true := by
          rcases h.sound.leads pid _ _ (h.live pid cid number hold) hi hentry with hone | hleads
          · omega
          · obtain ⟨idx', heq, -, hsome⟩ := hleads
            obtain rfl : idx = idx' := by omega
            exact hsome
        exact (instancesAfter_eq hsome).trans
          (h.same pid cid number idx hold (KState.resolve_eq_some.mpr ⟨hcid, hi, hentry, hlt⟩))
      · have hcid' : cid - 2 + 2 = cid := by omega
        exact absurd (hcid' ▸ hold) (hnew pid (cid - 2) number hslot)
    · have heq : some idx' = some idx := hidx'.symm.trans hidx
      rw [hnumber, Option.some.inj heq]
      rfl

theorem Inv.records {α : Type} {t' : Traced} (h : t.Inv) {m : KM α} {new : PID → Nat → Prop}
    {obtained : α → List (PID × Nat)} {returned : List (PID × Nat)}
    (hm : Leaves m (t.kernel.Within new) t.kernel)
    (hnew : ∀ pid i number, new pid i → ¬t.held pid (i + 2) number)
    (hstep : t.Records (m t.kernel) obtained returned t') : t'.Inv := by
  cases hstep with
  | ok hrun => exact h.after (hm.ok hrun) hnew _ _
  | err hrun => exact h.after (hm.err hrun) hnew _ _

theorem within_of_apart {s' : KState} (h : s.Sound) (hapart : s.Apart s') : s.Within (fun _ _ => False) s' := by
  refine ⟨⟨⟨rfl, fun pid hpid => ?_⟩, fun pid i v hpid hi hv => ?_⟩, fun pid i idx _ _ hv => .inl ?_⟩
  · rw [hapart.table] at hpid
    have hfree := hapart.used pid
    obtain ⟨hle, hstate⟩ := h.used.used pid hpid
    simp only [Process.isFree, hstate, decide_false, decide_eq_false_iff_not] at hfree
    exact ⟨hle, hfree⟩
  · rw [hapart.table] at hpid
    rw [hapart.connections] at hv
    refine (h.leads pid i v hpid hi hv).imp_right ?_
    rintro ⟨idx, hidx, hlt, hsome⟩
    refine ⟨idx, hidx, hlt, ?_⟩
    have hserver := congrArg Option.isSome (hapart.servers idx)
    rw [Option.isSome_map, Option.isSome_map] at hserver
    rwa [hserver]
  · rwa [← hapart.connections]

/-- A call that spares what is held keeps the invariant. -/
theorem Inv.step {t' : Traced} (h : t.Inv) {call : ServerCall} (hspares : t.SparesHeld call)
    (hstep : t.Step call t') : t'.Inv := by
  have hnone (pid : PID) (i number : Nat) (hfalse : False) : ¬t.held pid (i + 2) number :=
    hfalse.elim
  cases call with
  | createServer pid sid connect =>
    cases connect with
    | false =>
      exact h.records ((createServerWithAddress_within h.sound.prepared pid sid false).both
        fun _ hs => (hs.2 rfl).within fun _ _ => False) hnone hstep
    | true =>
      exact h.records ((createServerWithAddress_within h.sound.prepared pid sid true).both
        fun _ hs => hs.1) (hspares rfl) hstep
  | destroyServer pid sid => exact h.records (destroyServer_within h.sound pid sid) hnone hstep
  | connect sid => exact h.records (connectToServer_within h.sound.prepared sid) hspares hstep
  | connectForProcess target sid =>
    exact h.records (connectProcessToServer_within h.sound.prepared target sid) hspares hstep
  | disconnect cid => exact h.records (disconnectFromServer_within h.sound cid) hnone hstep
  | createProcess init sid => exact h.records (createProcess_within h.sound init sid) hspares hstep
  | terminateProcess target => exact h.records (terminateProcess_within h.sound target) hnone hstep
  | other =>
    obtain ⟨s, hapart, rfl⟩ := hstep
    exact h.after (within_of_apart h.sound hapart) hnone _ _

end Traced

/-- As long as no call makes a connection that its process still holds from a server that is gone, a
connection leads to the server it was made for or nowhere, is free, dead or one to a server that
exists, and one that a call returns leads to a server of the name asked for. -/
theorem connections_keep_their_server {s : KState} (hs : s.Sound) {calls : List ServerCall}
    {t : Traced} (run : Run Traced.CarefulStep (.start s) calls t) :
    (∀ pid cid number idx, t.held pid cid number → t.kernel.resolve pid cid = some idx →
      t.instances idx = number) ∧
    t.kernel.LeadsToServers ∧
    ∀ sid cid s', connectToServer sid t.kernel = .ok cid s' →
      ∃ idx server, s'.resolve t.kernel.core.machine.satp cid = some idx ∧
        s'.servers idx = some server ∧ server.sid = sid := by
  have hinv : t.Inv := run.invariant (Traced.inv_start hs) fun _ _ _ h hstep =>
    h.step hstep.1 hstep.2
  exact ⟨hinv.same, hinv.sound.leads, fun sid cid s' hrun =>
    (connectToServer_resolves sid t.kernel).ok hrun⟩

theorem smallKernel_sound (state3 : ProcessState) (hstate : state3 ≠ .free) (server : Server) :
    (smallKernel state3 server).Sound := by
  refine ⟨⟨rfl, fun pid hpid => ?_⟩, fun pid i v _ _ hv => .inr ?_⟩
  · have hle : pid.get ≤ 3 := of_decide_eq_true hpid
    have hpos := pid.pos
    refine ⟨by simp only [maxProcessCount]; omega, ?_⟩
    have hcases : pid = pid1 ∨ pid = pid2 ∨ pid = pid3 := by
      rcases (by omega : pid.get = 1 ∨ pid.get = 2 ∨ pid.get = 3) with h | h | h
      · exact .inl (PID.ext' h)
      · exact .inr (.inl (PID.ext' h))
      · exact .inr (.inr (PID.ext' h))
    rcases hcases with rfl | rfl | rfl
    · exact nofun
    · exact nofun
    · exact hstate
  · simp only [smallKernel] at hv
    split at hv
    · exact ⟨0, (Option.some.inj hv).symm, by decide, rfl⟩
    · cases hv

/-- A process that gives its connection back and connects again still finds its server. -/
theorem connecting_again_finds_the_server :
    ∃ t, Run Traced.CarefulStep (.start (smallKernel (.ready (threadBit 2)) idleServer))
        [.disconnect 2, .connect ⟨1, 2, 3, 4⟩] t ∧
      t.held pid2 2 0 ∧ ∀ idx, t.kernel.resolve pid2 2 = some idx → t.instances idx = 0 := by
  have hreturns : (disconnectFromServer 2 (smallKernel (.ready (threadBit 2)) idleServer)).returns
      (fun _ s => decide (s.core.machine.satp = pid2) && (s.servers 0).isSome &&
        (connectToServer ⟨1, 2, 3, 4⟩ s).returns fun cid s' => decide (cid = 2) &&
          s'.core.table pid2 && decide (s'.resolve pid2 2 = some 0)) = true := rfl
  obtain ⟨_, s1, hrun1, htest1⟩ := Outcome.exists_of_returns hreturns
  simp only [Bool.and_eq_true, decide_eq_true_eq] at htest1
  obtain ⟨⟨hsatp, hserver⟩, hconnect⟩ := htest1
  obtain ⟨cid, s2, hrun2, htest2⟩ := Outcome.exists_of_returns hconnect
  simp only [Bool.and_eq_true, decide_eq_true_eq] at htest2
  obtain ⟨⟨rfl, htable⟩, hresolve⟩ := htest2
  let t0 := Traced.start (smallKernel (.ready (threadBit 2)) idleServer)
  let t1 := t0.after s1 [] [(pid2, 2)]
  let t2 := t1.after s2 [(s1.core.machine.satp, 2)] []
  have hstep1 : t0.CarefulStep (.disconnect 2) t1 := ⟨trivial, .ok hrun1⟩
  have hstep2 : t1.CarefulStep (.connect ⟨1, 2, 3, 4⟩) t2 := by
    constructor
    · rintro pid i number ⟨rfl, -, -⟩ ⟨-, ⟨⟨-, hold⟩, hkept⟩ | ⟨hnew, -⟩⟩
      · -- the only connection there was has been given back
        have hi : i = 0 := by
          obtain ⟨-, -, hentry, -⟩ := KState.resolve_eq_some.mp hold
          by_contra hne
          simp [smallKernel, hne] at hentry
        exact hkept (by rw [hi, List.mem_singleton]; exact congrArg (·, 2) hsatp)
      · cases hnew
    · exact .ok hrun2
  have hrun : Run Traced.CarefulStep t0 [.disconnect 2, .connect ⟨1, 2, 3, 4⟩] t2 :=
    Run.nil.cons hstep2 |>.cons hstep1
  have hheld : t2.held pid2 2 0 := by
    refine ⟨htable, .inr ⟨by rw [hsatp]; exact List.mem_singleton.mpr rfl, 0, hresolve, ?_⟩⟩
    exact (Traced.instancesAfter_eq (t := t1) hserver).symm
  have hsound : (smallKernel (.ready (threadBit 2)) idleServer).Sound :=
    smallKernel_sound (.ready (threadBit 2)) (by simp) idleServer
  exact ⟨t2, hrun, hheld, fun idx =>
    (connections_keep_their_server hsound hrun).1 pid2 2 0 idx hheld⟩

/-- Process 3 runs and owns two servers, and process 2 is connected to the first. -/
def twoServers : KState :=
  let s := smallKernel (.running 0) idleServer
  { s with
    core := { s.core with
      machine := { s.core.machine with
        mem := { smallMemory with l1 := fun _ _ => true }
        satp := pid3
        current := pid3 } }
    servers := fun sidx =>
      if sidx = 0 then some idleServer
      else if sidx = 1 then some (Server.init pid3 ⟨5, 6, 7, 8⟩ 0x9000 queueSlots)
      else none }

/-- The first server is destroyed and process 2 connects to the second: it gets the connection that
it holds to the first. -/
theorem connection_leads_to_another_server :
    ∃ t, Run Traced.Step (.start twoServers)
        [.destroyServer pid3 ⟨1, 2, 3, 4⟩, .other, .connect ⟨5, 6, 7, 8⟩] t ∧
      t.held pid2 2 0 ∧ t.kernel.resolve pid2 2 = some 1 ∧ t.instances 1 ≠ 0 := by
  let toClient (s : KState) : KState :=
    { s with core := { s.core with
        machine := { s.core.machine with satp := pid2, current := pid2 } } }
  have hreturns : (destroyServer pid3 ⟨1, 2, 3, 4⟩ twoServers).returns
      (fun _ s => s.core.table pid2 && (s.servers 1).isSome &&
        (connectToServer ⟨5, 6, 7, 8⟩ (toClient s)).returns fun _ s' =>
          s'.core.table pid2 && decide (s'.resolve pid2 2 = some 1)) = true := by decide +kernel
  obtain ⟨_, s1, hrun1, htest1⟩ := Outcome.exists_of_returns hreturns
  simp only [Bool.and_eq_true] at htest1
  obtain ⟨⟨htable1, hserver1⟩, hconnect⟩ := htest1
  obtain ⟨cid, s2, hrun2, htest2⟩ := Outcome.exists_of_returns hconnect
  simp only [Bool.and_eq_true, decide_eq_true_eq] at htest2
  obtain ⟨htable2, hresolve⟩ := htest2
  let t1 := (Traced.start twoServers).after s1 [] []
  let t2 := t1.after (toClient s1) [] []
  let t3 := t2.after s2 [(pid2, cid)] []
  have hstep1 : (Traced.start twoServers).Step (.destroyServer pid3 ⟨1, 2, 3, 4⟩) t1 := .ok hrun1
  have hstep2 : t1.Step .other t2 := ⟨toClient s1, ⟨rfl, rfl, fun _ => rfl, fun _ => rfl⟩, rfl⟩
  have hstep3 : t2.Step (.connect ⟨5, 6, 7, 8⟩) t3 := .ok hrun2
  have hheld : (Traced.start twoServers).held pid2 2 0 := by
    constructor <;> decide +kernel
  refine ⟨t3, Run.nil.cons hstep3 |>.cons hstep2 |>.cons hstep1, ?_, hresolve, ?_⟩
  · have hnot : (pid2, 2) ∉ ([] : List (PID × Nat)) := List.not_mem_nil
    have hheld1 : t1.held pid2 2 0 := ⟨htable1, .inl ⟨hheld, hnot⟩⟩
    have hheld2 : t2.held pid2 2 0 := ⟨htable1, .inl ⟨hheld1, hnot⟩⟩
    exact ⟨htable2, .inl ⟨hheld2, hnot⟩⟩
  · have hnumber : t3.instances 1 = 1 := (Traced.instancesAfter_eq hserver1).trans
      (Traced.instancesAfter_eq hserver1)
    omega

end BaochipXous.Kernel
