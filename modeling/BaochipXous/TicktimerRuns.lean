import BaochipXous.TicktimerHandlers
import BaochipXous.LibRely

/-!
Runs of the ticktimer server: the clock advances, clients send, the loop takes a message and the
alarm goes off, in any order. The conditions on a run keep out stale entries for a slot that is used
again, an alarm message that is lost, and a suspension while requests are left.
-/

namespace BaochipXous.Ticktimer

open Prog State Labelled

variable {hole : Option Sender} {s : State} {e : Sender} {received : Received} {msg : Message}
  {woken : Nat} {key : Nat × Nat}

variable {rest : List Queued}

theorem Served.dequeue {tag : Nat} {q : Queued} (hqueue : s.queue = q :: rest) (h : Served s tag) : Served { s with queue := rest } tag :=
  ⟨h.1, fun msg hmsg => h.2 msg (hqueue ▸ List.mem_cons_of_mem q hmsg)⟩

theorem Log.requeue {queue : List Queued} {sent : Nat} (h : Log s)
    (hserved : ∀ tag, Served s tag → Served { s with queue, sent } tag) :
    Log { s with queue, sent } where
  served e received hout := hserved _ (h.served e received hout)
  distinct := h.distinct
  answered a ha := hserved _ (h.answered a ha)
  unanswered := h.unanswered
  answeredOnce := h.answeredOnce
  causes a ha msg hmsg := hserved _ (h.causes a ha msg hmsg)
  right := h.right

theorem Inv.dequeue {q : Queued} (h : Inv hole s) (hqueue : s.queue = q :: rest) :
    Inv hole { s with queue := rest } := by
  have hmem : ∀ x ∈ rest, x ∈ s.queue := fun x hx => hqueue ▸ List.mem_cons_of_mem q hx
  have horder := h.order
  rw [hqueue] at horder
  refine ⟨{ h.toAlarm with }, { h.toHeld with }, ⟨horder.of_cons, ?_, ?_, ?_⟩,
    h.toLog.requeue fun _ htag => htag.dequeue hqueue⟩
  · exact fun msg hmsg => h.tags msg (hmem _ hmsg)
  · exact fun msg hmsg => h.free msg (hmem _ hmsg)
  · exact fun e kind condvar hqueued => h.spent e kind condvar (hmem _ hqueued)

/-- The state in which the message at the front of the queue was received. -/
def State.admitted (s : State) (msg : Message) (rest : List Queued) : State :=
  { s with
    queue := rest
    outstanding := if msg.kind = .blockingScalar
      then Function.update s.outstanding msg.sender (some ⟨msg, s.time⟩) else s.outstanding }

theorem receive_eq : receive msg { s with queue := rest } = .ok () (s.admitted msg rest) := by
  unfold receive admitted
  by_cases hkind : msg.kind = .blockingScalar
  · rw [if_pos hkind]
    simp [Prog.when, hkind]
  · rw [if_neg hkind]
    simp [Prog.when, hkind]

theorem admitted_of_ne (hne : msg.kind = .blockingScalar → e ≠ msg.sender) :
    (s.admitted msg rest).outstanding e = s.outstanding e := by
  by_cases hkind : msg.kind = .blockingScalar
  · simp [admitted, hkind, hne hkind]
  · simp [admitted, hkind]

theorem admitted_cases (hout : (s.admitted msg rest).outstanding e = some received) :
    s.outstanding e = some received ∨ e = msg.sender ∧ msg.kind = .blockingScalar ∧ received = ⟨msg, s.time⟩ := by
  by_cases hne : msg.kind = .blockingScalar → e ≠ msg.sender
  · rw [admitted_of_ne hne] at hout
    exact Or.inl hout
  · obtain ⟨hkind, rfl⟩ := by simpa using hne
    exact Or.inr ⟨rfl, hkind, by simpa [admitted, hkind, eq_comm] using hout⟩

theorem Inv.receive (h : Inv none s) (hqueue : s.queue = .client msg :: rest) :
    Inv (some msg.sender) (s.admitted msg rest) ∧ Current msg 0 (s.admitted msg rest) := by
  have hnone : msg.kind = .blockingScalar → s.outstanding msg.sender = none :=
    h.free msg (hqueue ▸ List.mem_cons_self)
  have hdequeued := h.dequeue hqueue
  have horder := h.order
  rw [hqueue] at horder
  have hfront := (List.pairwise_cons.mp horder).1
  -- what was held back for others is as it was
  have hkeep : ∀ e received, s.outstanding e = some received → (s.admitted msg rest).outstanding e = some received := by
    intro e received hout
    rw [admitted_of_ne, hout]
    rintro hkind rfl
    rw [hnone hkind] at hout
    contradiction
  have htag : ∀ tag, Served s tag → tag < msg.tag :=
    fun tag hserved => hserved.2 msg (hqueue ▸ List.mem_cons_self)
  have hserved : Served (s.admitted msg rest) msg.tag := by
    refine ⟨h.tags msg (hqueue ▸ List.mem_cons_self), fun msg' hmsg' => ?_⟩
    exact (hfront _ hmsg').1
  refine ⟨⟨{ h.toAlarm with }, ⟨h.senders, ?_, ?_, ?_, h.once, h.nodup, h.listed, ?_,
    h.lockingNodup, ?_⟩, ⟨hdequeued.order, hdequeued.tags, ?_, ?_⟩, ⟨?_, ?_, ?_, ?_, h.answeredOnce, ?_,
    h.right⟩⟩, ⟨hserved, ?_, ?_, ?_, ?_⟩⟩
  · intro r hr
    have hawaits := h.awaits r hr
    unfold Awaits at hawaits ⊢
    split at hawaits
    · obtain ⟨hnot, received, ms, hout, hreq⟩ := hawaits
      exact ⟨hnot, received, ms, hkeep _ _ hout, hreq⟩
    · obtain ⟨hin, hmem, received, timeout, hout, hreq⟩ := hawaits
      exact ⟨hin, hmem, received, timeout, hkeep _ _ hout, hreq⟩
  · intro e received hout htimed hne
    rcases admitted_cases hout with hout | ⟨rfl, -⟩
    · exact h.sleeping e received hout htimed nofun
    · exact absurd rfl hne
  · intro key e hmem
    refine ⟨(h.waiting key e hmem).1, fun hnot => ?_⟩
    obtain ⟨received, timeout, hout, hreq⟩ := (h.waiting key e hmem).2 hnot
    exact ⟨received, timeout, hkeep e received hout, hreq⟩
  · intro key e hmem
    obtain ⟨hpid, received, hout, hreq⟩ := h.locking key e hmem
    exact ⟨hpid, received, hkeep e received hout, hreq⟩
  · intro e received hout
    rcases admitted_cases hout with hout | ⟨rfl, hkind, rfl⟩
    · exact h.received e received hout
    · exact ⟨rfl, hkind⟩
  · intro msg' hmsg' hkind'
    rw [admitted_of_ne fun hkind => ((hfront _ hmsg').2 hkind hkind').symm]
    exact hdequeued.free msg' hmsg' hkind'
  · intro e kind condvar hqueued
    rw [admitted_of_ne fun hkind => (hfront _ hqueued hkind).symm]
    exact hdequeued.spent e kind condvar hqueued
  · intro e received hout
    rcases admitted_cases hout with hout | ⟨-, -, rfl⟩
    · exact (h.served e received hout).dequeue hqueue
    · exact hserved
  · intro e1 r1 e2 r2 h1 h2 heq
    rcases admitted_cases h1 with h1 | ⟨rfl, -, rfl⟩ <;> rcases admitted_cases h2 with h2 | ⟨rfl, -, rfl⟩
    · exact h.distinct e1 r1 e2 r2 h1 h2 heq
    · exact absurd heq (htag _ (h.served e1 r1 h1)).ne
    · exact absurd heq (htag _ (h.served e2 r2 h2)).ne'
    · rfl
  · exact fun a ha => (h.answered a ha).dequeue hqueue
  · intro a ha e received hout
    rcases admitted_cases hout with hout | ⟨-, -, rfl⟩
    · exact h.unanswered a ha e received hout
    · exact (htag _ (h.answered a ha)).ne
  · exact fun a ha msg' hmsg' => (h.causes a ha msg' hmsg').dequeue hqueue
  · exact fun a ha => (htag _ (h.answered a ha)).ne
  · intro e received hout heq
    rcases admitted_cases hout with hout | ⟨-, -, rfl⟩
    · exact absurd heq (htag _ (h.served e received hout)).ne
    · rfl
  · intro hkind
    have hfresh : Fresh msg.sender s := h.toHeld.fresh_of_none (hnone hkind)
    exact ⟨by simp [admitted, hkind], hfresh.pending, hfresh.table, hfresh.mutex⟩
  · rw [List.countP_eq_zero]
    intro a ha heq
    exact absurd rfl (htag _ (h.causes a ha msg (of_decide_eq_true heq))).ne

/-- A message that does not wait for a time leaves no hole. -/
theorem Inv.received_untimed (h : Inv none s) (hqueue : s.queue = .client msg :: rest)
    (huntimed : msg.kind = .blockingScalar → ¬msg.request.timed) : Inv none (s.admitted msg rest) := by
  refine (h.receive hqueue).1.close fun received hout htimed => ?_
  rcases admitted_cases hout with hout | ⟨-, hkind, rfl⟩
  · exact h.sleeping msg.sender received hout htimed nofun
  · exact absurd htimed (huntimed hkind)

theorem handleRecalculateSleep_total {condvar : Nat} (h : Inv none s) (hnone : s.outstanding e = none)
    (hlisted : e ∈ s.notificationsWithTimeouts → e ∈ s.notifyTable (pid e, condvar)) :
    Total (handleRecalculateSleep e condvar) (fun _ s' => Inv none s' ∧ s'.queue = s.queue ∧ Armed s')
      (fun _ _ => False) s := by
  have hend : ∀ s', Inv none s' → s'.currentResponse = none → s'.queue = s.queue → Total (do
        recalculateSleepOffline none
        startSleep) (fun _ s'' => Inv none s'' ∧ s''.queue = s.queue ∧ Armed s'')
        (fun _ _ => False) s' := by
    intro s' hinv hcurrent hqueue
    rw [total_bind, recalculateSleepOffline, total_pure, total_of_ok (startSleep_eq (hinv.disabled hcurrent))]
    exact ⟨hinv.started hcurrent, started_queue.trans hqueue, started_armed hcurrent⟩
  rw [handleRecalculateSleep, total_bind, total_of_ok (stopSleep_eq h.toAlarm), total_bind,
    total_of_ok removeTimeout_eq, total_bind, total_when]
  have hfresh : Fresh e s := h.toHeld.fresh_of_none hnone
  constructor
  · intro htimed
    have hmem : e ∈ s.notifyTable (pid e, condvar) := hlisted (of_decide_eq_true htimed)
    have hheap : s.stopped.sleepHeap.filter (·.sender ≠ e) = s.stopped.sleepHeap :=
      List.filter_eq_self.mpr fun r hr => decide_eq_true (hfresh.pending r hr)
    have hshorter : (s.notifyTable (pid e, condvar)).length ≠
        ((s.notifyTable (pid e, condvar)).filter (· ≠ e)).length := by
      refine (List.length_filter_lt_length_iff_exists.mpr ⟨e, hmem, ?_⟩).ne'
      simp
    rw [total_bind, total_of_ok retain_eq, total_bind, total_assert]
    refine ⟨decide_eq_true ?_, ?_⟩
    · exact (congrArg List.length hheap).symm
    · rw [total_bind, total_gets, total_bind, setAwaiting, total_modify, total_assert]
      refine ⟨decide_eq_true hshorter, ?_⟩
      have hskip := h.stopped.skip rfl hmem hfresh.pending
      exact hend (s.stopped.unlisted (pid e, condvar) e) hskip rfl rfl
  · intro htimed
    have hnot : e ∉ s.stopped.notificationsWithTimeouts := of_decide_eq_false htimed
    rw [Finset.erase_eq_of_notMem hnot]
    exact hend s.stopped h.stopped rfl rfl

/-- What a message has to meet: a request held back is blocking and its sender in no queue of a
condition; the end of a condition finds its entries as it asserts. -/
def MessageFits (msg : Message) (s : State) : Prop :=
  match msg.request with
  | .sleepMs _ | .waitForCondition _ _ => msg.kind ≠ .scalar ∧ (msg.kind = .blockingScalar →
      ∀ condvar, msg.sender ∉ s.notifyTable (pid msg.sender, condvar))
  | .lockMutex mutexId => msg.kind = .scalar → (pid msg.sender, mutexId) ∈ s.mutexReadyTable
  | .freeCondition condvar => msg.kind = .scalar ∨ msg.kind = .blockingScalar →
      Clear (pid msg.sender, condvar) s
  | _ => True

/-- The message suspends the system. -/
def Message.Suspends (msg : Message) : Prop := msg.kind = .scalar ∧ msg.request = .suspendResume

theorem handle_total (h : Inv (some msg.sender) s) (hclosed : ∀ r, msg.request = r → ¬r.timed → Inv none s)
    (hcurrent : Current msg 0 s) (hkind : msg.kind = .scalar ∨ msg.kind = .blockingScalar) (hfits : MessageFits msg s)
    (hstays : ¬msg.Suspends) : Handled (handle msg) s s := by
  have hlent : msg.kind ≠ .lend := by
    intro hlend
    rw [hlend] at hkind
    exact hkind.elim nofun nofun
  unfold handle
  cases hreq : msg.request with
  | elapsedMs =>
    rw [Handled, total_bind, total_gets]
    refine reply_settles (hclosed _ hreq id) hcurrent ?_ hlent
    rw [Replies, hreq]
    trivial
  | sleepMs ms =>
    rw [MessageFits, hreq] at hfits
    have hblocking := hkind.resolve_left hfits.1
    exact sleepMs_total h hcurrent hblocking hreq (hfits.2 hblocking)
  | recalculateSleep =>
    refine reply_settles (hclosed _ hreq id) hcurrent ?_ hlent
    rw [Replies, hreq]
    trivial
  | suspendResume =>
    have hnot : msg.kind ≠ .scalar := fun hscalar => hstays ⟨hscalar, hreq⟩
    simp only [suspendResume, if_neg hnot]
    refine reply_settles (hclosed _ hreq id) hcurrent ?_ hlent
    rw [Replies, hreq]
    trivial
  | lockMutex mutexId =>
    rw [MessageFits, hreq] at hfits
    exact lockMutex_total (hclosed _ hreq id) hcurrent hreq hlent (hkind.symm.imp_right hfits)
  | unlockMutex mutexId => exact unlockMutex_total (hclosed _ hreq id) hcurrent hreq hlent
  | waitForCondition condvar timeout =>
    rw [MessageFits, hreq] at hfits
    have hblocking := hkind.resolve_left hfits.1
    exact waitForCondition_total h hcurrent hblocking hreq (hfits.2 hblocking)
  | notifyCondition condvar count =>
    exact notifyCondition_total (hclosed _ hreq id) hcurrent hreq hlent
  | freeMutex mutexId => exact freeMutex_total (hclosed _ hreq id) hcurrent hreq hlent
  | freeCondition condvar =>
    rw [MessageFits, hreq] at hfits
    exact freeCondition_total (hclosed _ hreq id) hcurrent hreq hlent (hfits hkind)

/-- The message at the front of the queue meets its condition. -/
def ServeFits (s : State) : Prop :=
  ∀ msg rest, s.queue = .client msg :: rest → MessageFits msg s

/-- A message that will set the alarm is in the queue. -/
def State.Recalculates (s : State) : Prop :=
  ∃ e kind condvar, .recalculateSleep e kind condvar ∈ s.queue

/-- If the alarm is off with a request pending, a message that will set it is in the queue. -/
def Attended (s : State) : Prop := s.pending ≠ [] → s.alarmEnabled = true ∨ s.Recalculates

/-- A suspend finds no request pending, or a message in the queue that will set the alarm. -/
def SuspendFits (s : State) : Prop :=
  ∀ msg rest, s.queue = .client msg :: rest → msg.Suspends → s.pending = [] ∨ s.Recalculates

variable {s' : State}

theorem State.Recalculates.dequeue (h : s.Recalculates) (hqueue : s.queue = .client msg :: rest)
    (hrest : s'.queue = rest) : s'.Recalculates := by
  obtain ⟨e, kind, condvar, hmem⟩ := h
  rw [hqueue, ← hrest] at hmem
  refine ⟨e, kind, condvar, (List.mem_cons.mp hmem).resolve_left ?_⟩
  intro heq
  cases heq

theorem Attended.settles (h : Attended s) (hqueue : s.queue = .client msg :: rest)
    (hsettles : Settles (s.admitted msg rest) s') : Attended s' := by
  intro hpending
  obtain ⟨hrest, harmed | ⟨halarm, hsame⟩⟩ := hsettles
  · exact .inl (harmed hpending)
  · rw [hsame] at hpending
    rcases h hpending with hon | hrecalculates
    · exact .inl (halarm.trans hon)
    · exact .inr (hrecalculates.dequeue hqueue hrest)

theorem Inv.suspend (h : Inv hole s) : Inv hole { s with alarmEnabled := false } :=
  h.realarm ⟨h.sorted, fun hon => absurd hon Bool.false_ne_true, h.target⟩ rfl rfl

theorem serve_total (h : Inv none s) (hfits : ServeFits s) :
    Total serve (fun _ s' => Inv none s' ∧ (Attended s → SuspendFits s → Attended s')) (fun _ _ => False) s := by
  rw [serve, total_bind, total_gets]
  split
  · exact ⟨h, fun hattended _ => hattended⟩
  · rename_i e kind condvar rest hqueue
    obtain ⟨hnone, hlisted⟩ := h.spent e kind condvar (hqueue ▸ List.mem_cons_self)
    rw [total_bind, total_modify]
    exact (handleRecalculateSleep_total (h.dequeue hqueue) hnone hlisted).imp
      fun _ s' hs => ⟨hs.1, fun _ _ hpending => .inl (hs.2.2 hpending)⟩
  · rename_i msg rest hqueue
    rw [total_bind, total_modify, total_bind, total_of_ok receive_eq, total_ite]
    obtain ⟨hinv, hcurrent⟩ := h.receive hqueue
    constructor
    · intro hkind
      have hclosed : ∀ r, msg.request = r → ¬r.timed → Inv none (s.admitted msg rest) :=
        fun _ hr huntimed => h.received_untimed hqueue fun _ => hr ▸ huntimed
      by_cases hsuspends : msg.Suspends
      · rw [handle, hsuspends.2, suspendResume, if_pos hsuspends.1, total_modify]
        refine ⟨(hclosed _ hsuspends.2 id).suspend, fun _ hsuspendFits hpending => .inr ?_⟩
        exact ((hsuspendFits msg rest hqueue hsuspends).resolve_left hpending).dequeue hqueue rfl
      · exact (handle_total hinv hclosed hcurrent hkind (hfits msg rest hqueue) hsuspends).imp
          fun _ s' hs => ⟨hs.1, fun hattended _ => hattended.settles hqueue hs.2⟩
    · intro hkind
      rw [not_or] at hkind
      have hclosed := h.received_untimed hqueue fun hblocking => absurd hblocking hkind.2
      by_cases hlent : msg.kind = .lend
      · apply (reply_lent_total hclosed hcurrent 0 hlent).imp
        rintro _ s' ⟨hs', hrest⟩
        refine ⟨hs', fun hattended _ => hattended.settles hqueue ?_⟩
        rw [hrest]
        exact ⟨rfl, Or.inr ⟨rfl, rfl⟩⟩
      · have hmove : msg.kind = .move := by cases hk : msg.kind <;> simp_all
        rw [reply, hmove]
        exact ⟨hclosed, fun hattended _ => hattended.settles hqueue ⟨rfl, Or.inr ⟨rfl, rfl⟩⟩⟩

def State.fired (s : State) : State :=
  { s with currentResponse := none, alarmEnabled := false }

variable {r : TimerRequest}

theorem Inv.fire (h : Inv none s) (hcurrent : s.currentResponse = some r) :
    Inv (some r.sender) s.fired ∧ Fresh r.sender s.fired := by
  have hpending : s.pending = r :: s.sleepHeap := by simp [pending, hcurrent]
  have hheap : s.fired.pending = s.sleepHeap := rfl
  have hmem : r ∈ s.pending := hpending ▸ List.mem_cons_self
  have hsub : ∀ x ∈ s.sleepHeap, x ∈ s.pending := fun x hx => hpending ▸ List.mem_cons_of_mem r hx
  have hsenders := h.senders
  rw [hpending, List.map_cons, List.nodup_cons] at hsenders
  obtain ⟨received, hout, hother⟩ := h.toHeld.outstanding_of_pending hmem
  constructor
  · refine ⟨⟨h.sorted, fun hon => absurd hon Bool.false_ne_true, fun _ h => by cases h⟩, ⟨hsenders.2, ?_, ?_, h.waiting, h.once, h.nodup, h.listed, h.locking,
      h.lockingNodup, h.received⟩, { h.toQueues with }, h.toLog.frame rfl rfl rfl rfl⟩
    · exact fun x hx => h.awaits x (hsub x hx)
    · intro e received hout htimed hne
      obtain ⟨x, hx, hsender⟩ := h.sleeping e received hout htimed (by simp)
      rw [hpending] at hx
      rcases List.mem_cons.mp hx with rfl | hx
      · exact absurd (congrArg some hsender.symm) hne
      · exact ⟨x, hx, hsender⟩
  · exact ⟨fun x hx heq => hsenders.1 (List.mem_map.mpr ⟨x, hx, heq⟩),
      fun key hlisted => (h.toHeld.timeout_of_pending hlisted hmem rfl).1,
      h.not_locking hout hother⟩

theorem Inv.alarm_right (h : Inv none s) (hcurrent : s.currentResponse = some r)
    (htime : s.target ≤ s.time) (hout : s.outstanding r.sender = some received)
    (answers : List Answer) :
    Right answers ⟨received, some r.kind.toUsize, .alarm, s.time⟩ := by
  have hmem : r ∈ s.pending := by simp [pending, hcurrent]
  have hawaits := h.awaits r hmem
  unfold Awaits at hawaits
  split at hawaits
  · obtain ⟨-, received', ms, hout', hreq, hmsec⟩ := hawaits
    obtain rfl := Option.some.inj (hout.symm.trans hout')
    simp only [Right, hreq]
    rw [(h.target r hcurrent).1] at htime
    exact fun _ => hmsec.trans htime
  · rename_i hkind
    obtain ⟨-, -, received', timeout, hout', hreq⟩ := hawaits
    obtain rfl := Option.some.inj (hout.symm.trans hout')
    simp only [Right, hreq, hkind, RequestKind.toUsize]
    simp

theorem Inv.append {q : Queued} {sent : Nat} (h : Inv none s) (hsent : s.sent ≤ sent)
    (horder : ∀ x ∈ s.queue, Follows x q)
    (hclient : ∀ msg, q = .client msg → msg.tag = s.sent ∧ s.sent < sent ∧
      (msg.kind = .blockingScalar → s.outstanding msg.sender = none))
    (hspent : ∀ e kind condvar, q = .recalculateSleep e kind condvar → s.outstanding e = none ∧
      (e ∈ s.notificationsWithTimeouts → e ∈ s.notifyTable (pid e, condvar))) :
    Inv none { s with queue := s.queue ++ [q], sent } := by
  have hmem {x : Queued} (hx : x ∈ s.queue ++ [q]) : x ∈ s.queue ∨ q = x := by
    simpa [eq_comm] using hx
  refine ⟨{ h.toAlarm with }, { h.toHeld with }, ⟨?_, ?_, ?_, ?_⟩, h.toLog.requeue fun tag htag =>
    ⟨htag.1.trans_le hsent, fun msg hmsg => ?_⟩⟩
  · refine List.pairwise_append.mpr ⟨h.order, List.pairwise_singleton _ _, fun x hx y hy => ?_⟩
    rw [List.mem_singleton.mp hy]
    exact horder x hx
  · intro msg hmsg
    rcases hmem hmsg with hmsg | hmsg
    · exact (h.tags msg hmsg).trans_le hsent
    · exact (hclient msg hmsg).1 ▸ (hclient msg hmsg).2.1
  · intro msg hmsg hkind
    rcases hmem hmsg with hmsg | hmsg
    · exact h.free msg hmsg hkind
    · exact (hclient msg hmsg).2.2 hkind
  · intro e kind condvar hqueued
    exact (hmem hqueued).elim (h.spent e kind condvar) (hspent e kind condvar)
  · rcases hmem hmsg with hmsg | hmsg
    · exact htag.2 msg hmsg
    · exact (hclient msg hmsg).1 ▸ htag.1

/-- The interrupt's message is not needed or not lost: no request is left, or another message about
the alarm is queued. -/
def AlarmFits (full : Bool) (s : State) : Prop :=
  full = true → s.sleepHeap = [] ∨ s.Recalculates

theorem handleIrq_total (full : Bool) (h : Inv none s) (henabled : s.alarmEnabled = true) (htime : s.target ≤ s.time) :
    Total (handleIrq full) (fun _ s' => Inv none s' ∧ (AlarmFits full s → Attended s')) (fun _ _ => False) s := by
  obtain ⟨r, hcurrent⟩ : ∃ r, s.currentResponse = some r :=
    Option.isSome_iff_exists.mp (h.enabled henabled)
  have hmem : r ∈ s.pending := by simp [pending, hcurrent]
  obtain ⟨received, hout, -⟩ := h.toHeld.outstanding_of_pending hmem
  obtain ⟨hfired, hfresh⟩ := h.fire hcurrent
  have hanswered : Inv none (s.fired.answered r.sender received r.kind.toUsize .alarm) :=
    hfired.answer hout (by simp) (h.alarm_right hcurrent htime hout _) hfresh
  have hclients : ∀ msg, .client msg ∈ s.queue → msg.kind = .blockingScalar → msg.sender ≠ r.sender := by
    intro msg hmsg hkind heq
    have hnone := h.free msg hmsg hkind
    rw [heq, hout] at hnone
    contradiction
  have hlisted : r.sender ∈ s.notificationsWithTimeouts → r.sender ∈ s.notifyTable (pid r.sender, r.data) := by
    intro hin
    have hawaits := h.awaits r hmem
    unfold Awaits at hawaits
    split at hawaits
    · exact absurd hin hawaits.1
    · exact hawaits.2.1
  have hnone : (s.fired.answered r.sender received r.kind.toUsize .alarm).outstanding r.sender = none :=
    Function.update_self _ _ _
  -- which request was answered last is not part of the invariant
  have hlast : ∀ s', Inv none s' → Inv none { s' with lastResponse := r.sender } := fun s' hs' =>
    ⟨⟨hs'.sorted, hs'.enabled, hs'.target⟩, { hs'.toHeld with }, { hs'.toQueues with }, hs'.toLog.frame rfl rfl rfl rfl⟩
  rw [handleIrq, total_bind, total_gets, hcurrent]
  have hout' : ({ s with currentResponse := none } : State).outstanding r.sender = some received := hout
  rw [total_bind, total_modify, total_bind, total_of_ok (returnScalar_eq hout' _ .alarm), total_bind,
    total_modify, total_bind, total_when]
  constructor
  · intro hroom
    rw [total_modify, total_modify]
    have hqueued := hanswered.append (q := .recalculateSleep r.sender r.kind r.data) le_rfl (fun x hx => by cases x with
        | client msg => exact hclients msg hx
        | recalculateSleep => trivial) (by simp) (by rintro _ _ _ ⟨⟩; exact ⟨hnone, hlisted⟩)
    refine ⟨hlast _ hqueued, fun _ _ => .inr ?_⟩
    exact ⟨r.sender, r.kind, r.data, List.mem_append_right _ (List.mem_singleton_self _)⟩
  · intro hroom
    rw [total_modify]
    refine ⟨hlast _ hanswered, fun hfits hheap => .inr ?_⟩
    have hfull : full = true := by simpa using hroom
    exact (hfits hfull).resolve_left hheap

inductive Event where
  | tick (ms : Nat)
  | send (sender : Sender) (kind : MessageKind) (request : Request)
  | serve
  | alarm (full : Bool)

/-- A blocking message gets a slot of its own: no blocking message of that sender is in the queue or
outstanding. -/
def SlotFree (sender : Sender) (kind : MessageKind) (s : State) : Prop :=
  kind = .blockingScalar → s.outstanding sender = none ∧
    ∀ msg, .client msg ∈ s.queue → msg.kind = .blockingScalar → msg.sender ≠ sender

def State.sending (s : State) (sender : Sender) (kind : MessageKind) (request : Request) : State :=
  { s with
    queue := s.queue ++ [.client ⟨s.sent, sender, kind, request⟩]
    sent := s.sent + 1 }

def Step (s : State) (event : Event) (s' : State) : Prop :=
  match event with
  | .tick ms => s' = { s with time := s.time + ms }
  | .send sender kind request => SlotFree sender kind s ∧ s' = s.sending sender kind request
  | .serve => Ticktimer.serve s = .ok () s'
  | .alarm full => s.alarmEnabled = true ∧ s.target ≤ s.time ∧ handleIrq full s = .ok () s'

theorem Inv.send {sender : Sender} {kind : MessageKind} {request : Request} (h : Inv none s)
    (hfree : SlotFree sender kind s) : Inv none (s.sending sender kind request) := by
  refine h.append s.sent.le_succ (fun x hx => ?_) ?_ nofun
  · cases x with
    | client msg => exact ⟨h.tags msg hx, fun hblocking hkind => (hfree hkind).2 msg hx hblocking⟩
    | recalculateSleep => trivial
  · rintro _ ⟨⟩
    exact ⟨rfl, s.sent.lt_succ_self, fun hkind => (hfree hkind).1⟩

theorem Inv.tick (h : Inv none s) (time : Nat) : Inv none { s with time := time } :=
  ⟨{ h.toAlarm with }, { h.toHeld with }, { h.toQueues with }, h.toLog.frame rfl rfl rfl rfl⟩

theorem inv_new : Inv none new where
  sorted := .nil
  enabled hon := absurd hon Bool.false_ne_true
  target := nofun
  senders := .nil
  awaits := nofun
  sleeping := nofun
  waiting := nofun
  once := nofun
  nodup _ := .nil
  listed e hmem := absurd hmem (Finset.notMem_empty e)
  locking := nofun
  lockingNodup _ := .nil
  received := nofun
  order := .nil
  tags := nofun
  free := nofun
  spent := nofun
  served := nofun
  distinct _ _ _ _ hout := by contradiction
  answered _ hmem := absurd hmem List.not_mem_nil
  unanswered _ hmem := absurd hmem List.not_mem_nil
  answeredOnce := .nil
  causes _ hmem := absurd hmem List.not_mem_nil
  right _ hmem := absurd hmem List.not_mem_nil

/-- The event meets its condition: taking a message from the queue does, and every other one. -/
def Fits (s : State) : Event → Prop
  | .serve => ServeFits s
  | _ => True

def FittingStep (s : State) (event : Event) (s' : State) : Prop :=
  Fits s event ∧ Step s event s'

variable {event : Event}

/-- Every step within the limits keeps the invariant. -/
theorem FittingStep.inv (h : Inv none s) (hstep : FittingStep s event s') : Inv none s' := by
  obtain ⟨hfits, hstep⟩ := hstep
  cases event with
  | tick ms =>
    rw [show s' = { s with time := s.time + ms } from hstep]
    exact h.tick _
  | send sender kind request =>
    rw [hstep.2]
    exact h.send hstep.1
  | serve => exact ((serve_total h hfits).post.ok hstep).1
  | alarm full => exact ((handleIrq_total full h hstep.1 hstep.2.1).post.ok hstep.2.2).1

/-- The event can happen: the loop has a message to take, the alarm is on and its time has come. -/
def Enabled (s : State) : Event → Prop
  | .alarm _ => s.alarmEnabled = true ∧ s.target ≤ s.time
  | .send sender kind _ => SlotFree sender kind s
  | _ => True

/-- The event meets its condition, also where the alarm's message may be lost or the alarm is turned
off. -/
def Attends (s : State) : Event → Prop
  | .serve => ServeFits s ∧ SuspendFits s
  | .alarm full => AlarmFits full s
  | _ => True

def AttendingStep (s : State) (event : Event) (s' : State) : Prop :=
  Attends s event ∧ Step s event s'

theorem AttendingStep.fitting (hstep : AttendingStep s event s') : FittingStep s event s' := by
  refine ⟨?_, hstep.2⟩
  cases event with
  | serve => exact hstep.1.1
  | _ => trivial

theorem AttendingStep.attended (h : Inv none s) (hattended : Attended s)
    (hstep : AttendingStep s event s') : Attended s' := by
  obtain ⟨hfits, hstep⟩ := hstep
  cases event with
  | tick ms => rwa [show s' = { s with time := s.time + ms } from hstep]
  | send sender kind request =>
    rw [hstep.2]
    intro hpending
    refine (hattended hpending).imp_right ?_
    rintro ⟨e, kind, condvar, hmem⟩
    exact ⟨e, kind, condvar, List.mem_append_left _ hmem⟩
  | serve => exact ((serve_total h hfits.1).post.ok hstep).2 hattended hfits.2
  | alarm full => exact ((handleIrq_total full h hstep.1 hstep.2.1).post.ok hstep.2.2).2 hfits

/-- The alarm is on for the earliest of the requests that wait for a time. -/
def ArmedForEarliest (s : State) : Prop :=
  ∃ r, s.currentResponse = some r ∧ s.alarmEnabled = true ∧ s.target = r.msec ∧
    ∀ x ∈ s.pending, r.msec ≤ x.msec

theorem Inv.armedForEarliest (h : Inv none s) (hon : s.alarmEnabled = true) : ArmedForEarliest s := by
  obtain ⟨r, hcurrent⟩ := Option.isSome_iff_exists.mp (h.enabled hon)
  obtain ⟨htarget, hlt⟩ := h.target r hcurrent
  refine ⟨r, hcurrent, hon, htarget, fun x hx => ?_⟩
  rw [pending, hcurrent] at hx
  rcases List.mem_cons.mp hx with rfl | hx
  · exact le_rfl
  · exact (hlt x hx).le

/-- A client's message whose sender will be blocked until it is answered. -/
def Queued.blocks (sender : Sender) : Queued → Bool
  | .client msg => msg.kind = .blockingScalar && msg.sender = sender
  | .recalculateSleep _ _ _ => false

instance (sender : Sender) (kind : MessageKind) (s : State) : Decidable (SlotFree sender kind s) :=
  decidable_of_iff (kind = .blockingScalar → s.outstanding sender = none ∧
      ∀ q ∈ s.queue, q.blocks sender = false) <| by
    refine imp_congr_right fun _ => and_congr_right fun _ => ⟨fun h msg hmsg hkind hsender => ?_,
      fun h q hq => ?_⟩
    · simpa [Queued.blocks, hkind, hsender] using h _ hmsg
    · cases q with
      | client msg => simpa [Queued.blocks] using h msg hq
      | recalculateSleep e kind condvar => rfl

/-- The state after an event, if it can happen and does not stop the server. -/
def exec (s : State) : Event → Option State
  | .tick ms => some { s with time := s.time + ms }
  | .send sender kind request =>
    if SlotFree sender kind s then some (s.sending sender kind request) else none
  | .serve => match serve s with
      | .ok _ s' => some s'
      | _ => none
  | .alarm full =>
    if s.alarmEnabled = true ∧ s.target ≤ s.time then match handleIrq full s with
      | .ok _ s' => some s'
      | _ => none
    else none

theorem step_of_exec (h : exec s event = some s') : Step s event s' := by
  cases event with
  | tick ms => exact (Option.some.inj h).symm
  | send sender kind request =>
    obtain ⟨hfree, hs'⟩ := Option.ite_none_right_eq_some.mp h
    exact ⟨hfree, (Option.some.inj hs').symm⟩
  | serve =>
    cases hserve : serve s with
    | ok a next =>
      simp only [exec, hserve] at h
      rwa [← Option.some.inj h]
    | _ => simp [exec, hserve] at h
  | alarm full =>
    obtain ⟨henabled, hs'⟩ := Option.ite_none_right_eq_some.mp h
    cases hirq : handleIrq full s with
    | ok a next =>
      simp only [hirq] at hs'
      rw [← Option.some.inj hs']
      exact ⟨henabled.1, henabled.2, hirq⟩
    | _ => simp [hirq] at hs'

theorem exists_run {events : List Event} {test : State → Bool} (h : (events.foldlM exec new).any test = true) :
    ∃ s, Run Step new events s ∧ test s = true := by
  obtain ⟨s, hs, htest⟩ := (Option.any_eq_true _ _).mp h
  exact ⟨s, Run.of_foldlM (fun _ _ _ => step_of_exec) hs, htest⟩

def slotOf (slot : Nat) : Sender := 3 * 2 ^ 24 + slot

/-- Whether an event meets its conditions, where this is not a matter of every condition's queue. -/
def ready (s : State) : Event → Bool
  | .serve => match s.queue with
      | .client msg :: _ => match msg.request with
          | .sleepMs _ | .waitForCondition _ _ =>
            msg.kind = .blockingScalar && msg.sender ∉ s.notificationsWithTimeouts
          | .lockMutex _ => msg.kind = .blockingScalar
          | .notifyCondition _ _ => true
          | _ => false
      | _ => true
  | .alarm full => !full
  | _ => true

theorem attends_of_ready (h : Inv none s) (hready : ready s event = true) : Attends s event := by
  cases event with
  | tick | send => trivial
  | alarm full =>
    intro hfull
    simp [ready, hfull] at hready
  | serve =>
    refine ⟨fun msg rest hqueue => ?_, fun msg rest hqueue hsuspends => ?_⟩
    · have hfree := h.free msg (hqueue ▸ List.mem_cons_self)
      -- the sender of a queued message is in a condition's queue only with a timeout that has passed
      have hunlisted : msg.kind = .blockingScalar ∧ msg.sender ∉ s.notificationsWithTimeouts →
          msg.kind ≠ .scalar ∧ (msg.kind = .blockingScalar →
            ∀ condvar, msg.sender ∉ s.notifyTable (pid msg.sender, condvar)) := by
        rintro ⟨hkind, hnot⟩
        refine ⟨by rw [hkind]; decide, fun _ condvar hmem => ?_⟩
        exact hnot ((h.toHeld.fresh_of_none (hfree hkind)).table _ hmem)
      simp only [ready, hqueue] at hready
      unfold MessageFits
      split at hready <;> simp_all
    · simp [ready, hqueue, hsuspends.2] at hready

theorem exists_attending_run {events : List Event} {test : State → Bool}
    (h : (events.foldlM (fun s event => if ready s event then exec s event else none) new).any test = true) :
    ∃ s, Run AttendingStep new events s ∧ test s = true := by
  obtain ⟨s, hs, htest⟩ := (Option.any_eq_true _ _).mp h
  have run : Run (fun s event s' => ready s event = true ∧ Step s event s') new events s := by
    refine Run.of_foldlM (fun _ _ _ hexec => ?_) hs
    obtain ⟨hready, hexec⟩ := Option.ite_none_right_eq_some.mp hexec
    exact ⟨hready, step_of_exec hexec⟩
  have hinv := run.history_invariant (I := fun events s => Inv none s ∧ Run AttendingStep new events s)
    ⟨inv_new, .nil⟩ fun _ _ _ _ hI hstep => by
      have hattending : AttendingStep _ _ _ := ⟨attends_of_ready hI.1 hstep.1, hstep.2⟩
      exact ⟨hattending.fitting.inv hI.1, hI.2.snoc hattending⟩
  exact ⟨s, hinv.2, htest⟩

/-- In a run whose steps meet their conditions each message is answered at most once, a waiter is
told of success only by a notification or the end of its condition, a notification of how many it
woke, and nothing stops the server. -/
theorem waiters_are_answered_once {events : List Event}
    (run : Run FittingStep new events s) :
    (∀ tag, s.answers.countP (·.received.msg.tag = tag) ≤ 1) ∧
    (∀ a ∈ s.answers, ∀ condvar timeout, a.received.msg.request = .waitForCondition condvar timeout →
      a.value = some 0 → ∃ msg, pid msg.sender = pid a.received.msg.sender ∧
        (a.cause = .notified msg ∧ (∃ count, msg.request = .notifyCondition condvar count) ∨
          a.cause = .freed msg ∧ msg.request = .freeCondition condvar)) ∧
    (∀ a ∈ s.answers, ∀ condvar count n, a.received.msg.request = .notifyCondition condvar count →
      a.value = some n → n = s.answers.countP (·.cause = .notified a.received.msg)) ∧
    ∀ event, Enabled s event → Fits s event → ∃ s', Step s event s' := by
  have hinv : Inv none s := run.invariant inv_new fun _ _ _ h hstep => hstep.inv h
  refine ⟨?_, ?_, ?_, ?_⟩
  · intro tag
    have hcount := List.nodup_iff_count_le_one.mp hinv.answeredOnce tag
    rw [List.count, List.countP_map] at hcount
    exact (List.countP_mono_left fun a _ => by simp).trans hcount
  · intro a ha condvar timeout hreq
    have hright := hinv.right a ha
    rwa [Right, hreq] at hright
  · intro a ha condvar count n hreq
    have hright := hinv.right a ha
    rw [Right, hreq] at hright
    exact hright n
  · intro event henabled hfits
    cases event with
    | tick ms => exact ⟨_, rfl⟩
    | send sender kind request => exact ⟨_, henabled, rfl⟩
    | serve =>
      obtain ⟨_, s', hs', -⟩ := (serve_total hinv hfits).exists_ok
      exact ⟨s', hs'⟩
    | alarm full =>
      obtain ⟨_, s', hs', -⟩ := (handleIrq_total full hinv henabled.1 henabled.2).exists_ok
      exact ⟨s', henabled.1, henabled.2, hs'⟩

/-- A waiter's timeout passes while a notification and the end of its condition are queued. The
notification sets the alarm for a sleeper answered before the condition ends. -/
def timeoutThenFree : List Event :=
  [.send (slotOf 1) .blockingScalar (.waitForCondition 1 10), .serve,
    .send (slotOf 2) .blockingScalar (.sleepMs 11), .serve,
    .send (slotOf 3) .scalar (.notifyCondition 9 0), .send (slotOf 4) .scalar (.freeCondition 1),
    .tick 10, .alarm false, .serve, .tick 1, .alarm false]

/-- The end of a condition stops the server. -/
theorem free_condition_meets_a_late_alarm :
    ∃ s, Run Step new timeoutThenFree s ∧ serve s = .panic := by
  have hrun : (timeoutThenFree.foldlM exec new).any (fun s => serve s matches .panic) = true := by
    decide +kernel
  obtain ⟨s, hs, htest⟩ := exists_run hrun
  refine ⟨s, hs, ?_⟩
  cases hserve : serve s with
  | panic => rfl
  | _ => simp [hserve] at htest

/-- Of two waiters one is told of its timeout, the other is woken by a notification, which is told of
one waiter. -/
def timeoutThenNotify : List Event :=
  [.send (slotOf 1) .blockingScalar (.waitForCondition 1 10), .serve,
    .send (slotOf 2) .blockingScalar (.waitForCondition 1 0), .serve, .tick 10, .alarm false, .serve,
    .send (slotOf 3) .blockingScalar (.notifyCondition 1 0), .serve]

theorem notified_waiter_is_answered_once :
    ∃ s, Run FittingStep new timeoutThenNotify s ∧
      (s.answers.countP (·.received.msg.tag = 0) ≤ 1 ∧ s.answers.any fun a =>
        a.received.msg.tag = 0 && (a.value = some 1 && a.cause = .alarm)) ∧
      ∃ a ∈ s.answers, a.received.msg.request = .notifyCondition 1 0 ∧ a.value = some 1 ∧
        1 = s.answers.countP (·.cause = .notified a.received.msg) := by
  have hrun : (timeoutThenNotify.foldlM (fun s event => if ready s event then exec s event else none) new).any
      (fun s => (s.answers.any fun a => a.received.msg.tag = 0 && (a.value = some 1 && a.cause = .alarm)) &&
        s.answers.any fun a => a.received.msg.request = .notifyCondition 1 0 && a.value = some 1) = true := by
    decide +kernel
  obtain ⟨s, hs, htest⟩ := exists_attending_run hrun
  obtain ⟨htimeout, htest⟩ := Bool.and_eq_true_iff.mp htest
  obtain ⟨a, ha, htest⟩ := List.any_eq_true.mp htest
  simp only [Bool.and_eq_true, decide_eq_true_eq] at htest
  have run : Run FittingStep new timeoutThenNotify s := hs.mono fun _ _ _ hstep => hstep.fitting
  obtain ⟨honce, -, hcount, -⟩ := waiters_are_answered_once run
  exact ⟨s, run, ⟨honce 0, htimeout⟩, a, ha, htest.1, htest.2, hcount a ha 1 0 1 htest.1 htest.2⟩

/-- In a run whose steps meet their conditions who waits for a mutex or a condition waits there once,
in an entry of its own process and at one condition only, and who waits for a mutex is owed the
answer to that lock. -/
theorem waiters_stay_in_their_process {events : List Event} (run : Run FittingStep new events s) :
    (∀ key, (s.mutexHash key).Nodup ∧ ∀ e ∈ s.mutexHash key, pid e = key.1 ∧
      ∃ received, s.outstanding e = some received ∧ received.msg.request = .lockMutex key.2) ∧
    ∀ key, (s.notifyTable key).Nodup ∧ ∀ e ∈ s.notifyTable key, pid e = key.1 ∧
      ∀ key', e ∈ s.notifyTable key' → key' = key := by
  have hinv : Inv none s := run.invariant inv_new fun _ _ _ h hstep => hstep.inv h
  refine ⟨fun key => ⟨hinv.lockingNodup key, hinv.locking key⟩, fun key => ⟨hinv.nodup key, fun e he => ?_⟩⟩
  exact ⟨(hinv.waiting key e he).1, fun key' he' => hinv.once key' key e he' he⟩

theorem locker_waits_in_its_process :
    ∃ s, Run FittingStep new [.send (slotOf 1) .blockingScalar (.lockMutex 7), .serve] s ∧
      slotOf 1 ∈ s.mutexHash (3, 7) ∧ (s.mutexHash (3, 7)).Nodup := by
  have hrun : (List.foldlM (fun s event => if ready s event then exec s event else none) new
      [.send (slotOf 1) .blockingScalar (.lockMutex 7), .serve]).any
        (fun s => decide (slotOf 1 ∈ s.mutexHash (3, 7))) = true := by decide +kernel
  obtain ⟨s, hs, hmem⟩ := exists_attending_run hrun
  have run := hs.mono fun _ _ _ h => h.fitting
  exact ⟨s, run, of_decide_eq_true hmem, ((waiters_stay_in_their_process run).1 (3, 7)).1⟩

/-- In a run whose steps meet their conditions everyone who waits for a time has a request pending,
while one is pending the alarm is set for the earliest or a message that will set it is queued, and
no sleeper is answered early. -/
theorem sleepers_are_attended {events : List Event}
    (run : Run AttendingStep new events s) :
    (∀ e received, s.outstanding e = some received → received.msg.request.timed →
      ∃ r ∈ s.pending, r.sender = e) ∧
    (s.pending ≠ [] →
      ArmedForEarliest s ∨ ∃ e kind condvar, .recalculateSleep e kind condvar ∈ s.queue) ∧
    ∀ a ∈ s.answers, ∀ ms n, a.received.msg.request = .sleepMs ms → a.value = some n →
      a.received.time + ms ≤ a.time := by
  have hinv : Inv none s ∧ Attended s := run.invariant (I := fun s => Inv none s ∧ Attended s)
    ⟨inv_new, fun hpending => absurd rfl hpending⟩
    fun _ _ _ h hstep => ⟨hstep.fitting.inv h.1, hstep.attended h.1 h.2⟩
  refine ⟨fun e received hout htimed => hinv.1.sleeping e received hout htimed nofun, ?_, ?_⟩
  · exact fun hpending => (hinv.2 hpending).imp_left hinv.1.armedForEarliest
  · intro a ha ms n hreq hvalue
    have hright := hinv.1.right a ha
    rw [Right, hreq] at hright
    exact hright (by rw [hvalue]; rfl)

/-- A nonblocking sleep is held back like a blocking one. The alarm has nobody to answer, so no slot
of the queue becomes free for its message: one of the 128 is the other sleeper's. -/
def lostAlarm : List Event :=
  [.send (slotOf 1) .scalar (.sleepMs 10), .serve, .send (slotOf 2) .blockingScalar (.sleepMs 20), .serve,
    .tick 10] ++ List.replicate 127 (.send (slotOf 3) .scalar .elapsedMs) ++
    [.alarm true] ++ List.replicate 127 .serve

def suspendedAlarm : List Event :=
  [.send (slotOf 2) .blockingScalar (.sleepMs 20), .serve, .send (slotOf 3) .scalar .suspendResume, .serve]

/-- The sender of a nonblocking sleep gets the answer to its next one. -/
def earlyAlarm : List Event :=
  [.send (slotOf 1) .scalar (.sleepMs 10), .serve,
    .send (slotOf 1) .blockingScalar (.sleepMs 1000), .serve, .tick 10, .alarm false]

theorem sleeper_is_forgotten_or_woken_early :
    (∀ events ∈ [lostAlarm, suspendedAlarm], ∃ s, Run Step new events s ∧
      (s.outstanding (slotOf 2)).any (·.msg.request = .sleepMs 20) ∧ s.alarmEnabled = false ∧ s.queue = []) ∧
    ∃ s, Run Step new earlyAlarm s ∧ ∃ a ∈ s.answers,
      a.received.msg.request = .sleepMs 1000 ∧ a.value = some 0 ∧ a.time < a.received.time + 1000 := by
  constructor
  · have hruns : ∀ events ∈ [lostAlarm, suspendedAlarm], (events.foldlM exec new).any
        (fun s => (s.outstanding (slotOf 2)).any (·.msg.request = .sleepMs 20) &&
          (!s.alarmEnabled && s.queue.isEmpty)) = true := by decide +kernel
    intro events hevents
    obtain ⟨s, hs, htest⟩ := exists_run (hruns events hevents)
    simp only [Bool.and_eq_true, Bool.not_eq_true', List.isEmpty_iff] at htest
    exact ⟨s, hs, htest⟩
  · have hrun : (earlyAlarm.foldlM exec new).any (fun s => s.answers.any fun a =>
        a.received.msg.request = .sleepMs 1000 && (a.value = some 0 &&
          a.time < a.received.time + 1000)) = true := by decide +kernel
    obtain ⟨s, hs, htest⟩ := exists_run hrun
    obtain ⟨a, ha, htest⟩ := List.any_eq_true.mp htest
    simp only [Bool.and_eq_true, decide_eq_true_eq] at htest
    exact ⟨s, hs, a, ha, htest⟩

/-- The alarm answers the first of two sleepers and is set for the other. -/
def twoSleepers : List Event :=
  [.send (slotOf 1) .blockingScalar (.sleepMs 20), .serve, .send (slotOf 2) .blockingScalar (.sleepMs 10), .serve,
    .tick 10, .alarm false, .serve]

theorem second_sleeper_is_attended :
    ∃ s, Run AttendingStep new twoSleepers s ∧ s.queue = [] ∧ s.pending ≠ [] ∧ ArmedForEarliest s ∧
      ∃ a ∈ s.answers, a.received.msg.request = .sleepMs 10 ∧ a.received.time + 10 ≤ a.time := by
  have hrun : (twoSleepers.foldlM (fun s event => if ready s event then exec s event else none) new).any
      (fun s => s.queue.isEmpty && (!s.pending.isEmpty && s.answers.any fun a =>
        a.received.msg.request = .sleepMs 10 && a.value = some 0)) = true := by decide +kernel
  obtain ⟨s, run, htest⟩ := exists_attending_run hrun
  simp only [Bool.and_eq_true, Bool.not_eq_true', List.isEmpty_iff, List.isEmpty_eq_false_iff] at htest
  obtain ⟨hqueue, hpending, htest⟩ := htest
  obtain ⟨a, ha, htest⟩ := List.any_eq_true.mp htest
  simp only [Bool.and_eq_true, decide_eq_true_eq] at htest
  obtain ⟨-, harmed, hearly⟩ := sleepers_are_attended run
  refine ⟨s, run, hqueue, hpending, (harmed hpending).resolve_right ?_, a, ha, htest.1,
    hearly a ha 10 0 htest.1 htest.2⟩
  rintro ⟨e, kind, condvar, hmem⟩
  rw [hqueue] at hmem
  exact List.not_mem_nil hmem

end BaochipXous.Ticktimer
