import BaochipXous.KernelMailbox

/-!
Runs of the queue operations on one server, from an empty queue of any size up to the 128 slots of
a page. A call that halts the kernel ends the run. From the call that gives out an index until the
call that takes its token, the index denotes the same client.
-/

namespace BaochipXous.Kernel

open Server Labelled

variable (s : Server) (e : QueueEvent)

section

inductive QueueOp where
  | queueMessage (pid : PID) (tid : TID) (message : Message) (originalAddress : Option MemoryAddress)
  | queueResponse (pid : PID) (tid : TID) (message : Message) (clientAddress : Option MemoryAddress)
  | takeNextMessage (sidx : Nat)
  | takeWaitingMessage (messageIndex : Nat) (buf : Option MemoryRange)
  | discardMessagesForPid (pid : PID)

/-- The thread number of a sender fits the byte that the queue keeps for it. -/
def QueueOp.TidFits : QueueOp → Prop
  | queueMessage _ tid .. | queueResponse _ tid .. => tid < 256
  | _ => True

inductive QueueResult where
  | index (i : Nat)
  | envelope (envelope : Option MessageEnvelope)
  | waiting (message : WaitingMessage)
  | unit
  | error (error : Error)

/-- The result and the new queue of a call, unless it halted. -/
def QueueResult.ofOutcome {α : Type} (f : α → QueueResult) :
    Outcome Error Server α → Option (QueueResult × Server)
  | .ok a s => some (f a, s)
  | .err e s => some (error e, s)
  | .panic => none

def Server.perform : QueueOp → Option (QueueResult × Server)
  | .queueMessage pid tid message address =>
    QueueResult.ofOutcome .index (queueMessage pid tid message address s)
  | .queueResponse pid tid message address =>
    QueueResult.ofOutcome .index (queueResponse pid tid message address s)
  | .takeNextMessage sidx =>
    let (envelope, s') := s.takeNextMessage sidx
    some (.envelope envelope, s')
  | .takeWaitingMessage messageIndex buf =>
    QueueResult.ofOutcome .waiting (takeWaitingMessage messageIndex buf s)
  | .discardMessagesForPid pid => some (.unit, s.discardMessagesForPid pid)

def Server.tokenAt (i : Nat) : Option ReplyToken :=
  s.queue[i]?.bind QueuedMessage.token

/-- A call that returned, with the queue it left. -/
structure QueueEvent where
  op : QueueOp
  result : QueueResult
  after : Server

namespace QueueEvent

def accepted : Option Accepted :=
  match e.op, e.result with
  | .queueMessage pid tid message address, .index _ => some ⟨pid, tid, message, address, false⟩
  | _, _ => none

/-- The message that the call gave to the server, and the reply token then found under the index
in its sender word. -/
def received : Option (MessageEnvelope × Option ReplyToken) :=
  match e.op, e.result with
  | .takeNextMessage _, .envelope (some envelope) =>
    some (envelope, e.after.tokenAt (SenderID.ofUsize envelope.sender).idx)
  | _, _ => none

def handsOut : Option Nat :=
  match e.op, e.result with
  | .queueResponse .., .index i => some i
  | .takeNextMessage _, .envelope (some envelope) =>
    if envelope.body.isBlocking then some (SenderID.ofUsize envelope.sender).idx else none
  | _, _ => none

def consumes : Option Nat :=
  match e.op, e.result with
  | .takeWaitingMessage i _, .waiting w => if w = .none then none else some i
  | _, _ => none

def Follows (s' : Server) : Prop :=
  s.perform e.op = some (e.result, e.after) ∧ e.after = s'

end QueueEvent

def Server.calls (s : Server) : List QueueOp → Option (List QueueEvent × Server)
  | [] => some ([], s)
  | op :: ops => do
    let (result, s') ← s.perform op
    let (events, s'') ← s'.calls ops
    pure (⟨op, result, s'⟩ :: events, s'')

variable {s s' : Server} {events : List QueueEvent}

theorem Server.run_of_calls {ops : List QueueOp} (h : s.calls ops = some (events, s')) : Run QueueEvent.Follows s events s' := by
  induction ops generalizing s events with
  | nil =>
    cases h
    exact .nil
  | cons op ops ih =>
    obtain ⟨⟨result, s1⟩, hperform, h⟩ := Option.bind_eq_some_iff.mp h
    obtain ⟨⟨rest, s2⟩, hcalls, h⟩ := Option.bind_eq_some_iff.mp h
    cases h
    exact .cons ⟨hperform, rfl⟩ (ih hcalls)

theorem Server.op_of_calls {ops : List QueueOp} (h : s.calls ops = some (events, s'))
    {P : QueueOp → Prop} (hops : ∀ op ∈ ops, P op) : ∀ e ∈ events, P e.op := by
  induction ops generalizing s events with
  | nil =>
    cases h
    simp
  | cons op ops ih =>
    obtain ⟨⟨result, s1⟩, _, h⟩ := Option.bind_eq_some_iff.mp h
    obtain ⟨⟨rest, s2⟩, hcalls, h⟩ := Option.bind_eq_some_iff.mp h
    cases h
    intro e he
    rcases List.mem_cons.mp he with rfl | he
    · exact hops op (by simp)
    · exact ih hcalls (fun op' hop => hops op' (by simp [hop])) e he

def acceptedIn (events : List QueueEvent) : List Accepted := events.filterMap QueueEvent.accepted

def receivedIn (events : List QueueEvent) : List (MessageEnvelope × Option ReplyToken) :=
  events.filterMap QueueEvent.received

theorem acceptedIn_snoc (events : List QueueEvent) (e : QueueEvent) :
    acceptedIn (events ++ [e]) = acceptedIn events ++ e.accepted.toList := by
  cases h : e.accepted <;> simp [acceptedIn, h]

theorem receivedIn_snoc (events : List QueueEvent) (e : QueueEvent) :
    receivedIn (events ++ [e]) = receivedIn events ++ e.received.toList := by
  cases h : e.received <;> simp [receivedIn, h]

/-- The token for the blocking message that a call hands out, after the calls `before`. -/
def QueueEvent.replyToken (before : List QueueEvent) (e : QueueEvent) : Option ReplyToken :=
  match e.op with
  | .queueResponse pid tid message address => some (.ofMessage pid tid message address)
  | .takeNextMessage _ => ((acceptedIn before)[(receivedIn before).length]?).bind Accepted.reply
  | _ => none

/-- The server received the message as it was accepted; if the sender waits, the reply token names
its thread. -/
def Accepted.Delivers (a : Accepted) (r : MessageEnvelope × Option ReplyToken) : Prop :=
  (SenderID.ofUsize r.1.sender).pid = some a.pid ∧ r.1.body = a.message ∧
    r.2.map ReplyToken.client = if a.message.isBlocking then some (a.pid, a.tid) else none

/-- What the mailbox does in a call, with the result that the caller sees. -/
inductive Mailbox.Step (m : Mailbox) : QueueOp → QueueResult → Mailbox → Prop where
  | queueFull {pid tid message address} :
      Step m (.queueMessage pid tid message address) (.error .serverQueueFull) m
  | accepted {pid tid message address} (i : Nat) :
      Step m (.queueMessage pid tid message address) (.index i)
        (m.accept ⟨pid, tid, message, address, false⟩)
  | responseFull {pid tid message address} :
      Step m (.queueResponse pid tid message address) (.error .serverQueueFull) m
  | handedOut {pid tid message address i} (hfree : m.tokens i = none) :
      Step m (.queueResponse pid tid message address) (.index i)
        (m.setToken i (some (.ofMessage pid tid message address)))
  | nothingWaiting {sidx} (hnil : m.pending = []) :
      Step m (.takeNextMessage sidx) (.envelope none) m
  | delivered {sidx a rest i} (hcons : m.pending = a :: rest) (hi : i < 128)
      (hfree : m.tokens i = none) :
      Step m (.takeNextMessage sidx)
        (.envelope (some { sender := SenderID.toUsize ⟨sidx, i, some a.pid⟩, body := a.body }))
        (m.deliver i)
  | noToken {i buf} (hnone : m.tokens i = none) :
      Step m (.takeWaitingMessage i buf) (.waiting .none) m
  | badIndex {i buf} : Step m (.takeWaitingMessage i buf) (.error .badAddress) m
  | consumed {i buf t w} (ht : m.tokens i = some t) (hw : t.waiting = some w) (hne : w ≠ .none) :
      Step m (.takeWaitingMessage i buf) (.waiting w) (m.setToken i none)
  | discarded {pid} : Step m (.discardMessagesForPid pid) .unit (m.discard pid)

variable {m : Mailbox}

/-- A call takes a step of the mailbox, or it is a reply to a token without client address and
halts. -/
theorem Represents.perform_cases (h : Represents s m) (op : QueueOp) :
    (∃ result s' m', s.perform op = some (result, s') ∧ (op.TidFits → m.Step op result m' ∧ Represents s' m')) ∨
    s.perform op = none ∧ ∃ i buf t, op = .takeWaitingMessage i buf ∧ m.tokens i = some t ∧ t.waiting = none := by
  cases op with
  | queueMessage pid tid message address =>
    rw [Server.perform]
    rcases Server.queueMessage_cases pid tid message address s with herr | ⟨i, hempty, hok⟩
    · rw [herr]
      exact .inl ⟨_, _, m, rfl, fun _ => ⟨.queueFull, h⟩⟩
    · rw [hok]
      exact .inl ⟨_, _, _, rfl, fun htid => ⟨.accepted i,
        h.fillMessage (a := ⟨pid, tid, message, address, false⟩) hempty htid⟩⟩
  | queueResponse pid tid message address =>
    rw [Server.perform]
    rcases Server.queueResponse_cases pid tid message address h.headLt with
      herr | ⟨i, hempty, hok⟩
    · rw [herr]
      exact .inl ⟨_, _, m, rfl, fun _ => ⟨.responseFull, h⟩⟩
    · rw [hok]
      refine .inl ⟨_, _, m.setToken i (some (.ofMessage pid tid message address)), rfl, fun htid => ?_⟩
      have htoken := QueuedMessage.token_ofResponse pid htid message address
      obtain ⟨hfree, hrep⟩ := h.fillToken hempty (QueuedMessage.generation_ofResponse pid tid message address) (by
          intro t ht
          cases htoken.symm.trans ht
          exact ReplyToken.sized_ofMessage ..)
      rw [htoken] at hrep
      exact ⟨.handedOut hfree, hrep⟩
  | takeNextMessage sidx =>
    rw [Server.perform]
    cases hpending : m.pending with
    | nil =>
      rw [h.takeNext_of_nil hpending]
      exact .inl ⟨_, _, m, rfl, fun _ => ⟨.nothingWaiting hpending, h⟩⟩
    | cons a rest =>
      obtain ⟨i, s1, hi, hfree, htake, hrep⟩ := h.takeNext_of_cons hpending sidx
      rw [htake]
      exact .inl ⟨_, _, _, rfl, fun _ => ⟨.delivered hpending hi hfree, hrep⟩⟩
  | takeWaitingMessage i buf =>
    rw [Server.perform]
    cases htoken : m.tokens i with
    | none =>
      rcases h.takeWaiting_of_none htoken buf with hok | herr
      · rw [hok]
        exact .inl ⟨_, _, m, rfl, fun _ => ⟨.noToken htoken, h⟩⟩
      · rw [herr]
        exact .inl ⟨_, _, m, rfl, fun _ => ⟨.badIndex, h⟩⟩
    | some t =>
      rcases h.takeWaiting_of_some htoken buf with herr | ⟨hw, hpanic⟩ | ⟨w, hw, hne, hok⟩
      · rw [herr]
        exact .inl ⟨_, _, m, rfl, fun _ => ⟨.badIndex, h⟩⟩
      · rw [hpanic]
        exact .inr ⟨rfl, i, buf, t, rfl, htoken, hw⟩
      · rw [hok]
        exact .inl ⟨_, _, _, rfl, fun _ => ⟨.consumed htoken hw hne, h.freeToken (by simp [htoken])⟩⟩
  | discardMessagesForPid pid => exact .inl ⟨_, _, _, rfl, fun _ => ⟨.discarded, h.discard pid⟩⟩

theorem Represents.perform {op : QueueOp} {result : QueueResult} (h : Represents s m)
    (htid : op.TidFits) (hperform : s.perform op = some (result, s')) :
    ∃ m', m.Step op result m' ∧ Represents s' m' := by
  rcases h.perform_cases op with ⟨_, _, m', heq, hstep⟩ | ⟨hnone, -⟩
  · cases heq.symm.trans hperform
    exact ⟨m', hstep htid⟩
  · cases hnone.symm.trans hperform

theorem Represents.tokenAt (h : Represents s m) (i : Nat) : s.tokenAt i = m.tokens i := (h.tokens i).symm

theorem idx_ofUsize_toUsize {sidx i : Nat} (hi : i < 128) (pid : PID) :
    (SenderID.ofUsize (SenderID.toUsize ⟨sidx, i, some pid⟩)).idx = i := by
  rw [SenderID.ofUsize_toUsize]
  exact Nat.mod_eq_of_lt (by omega)

theorem Accepted.delivers {a : Accepted} (hlive : a.terminated = false) (sidx i : Nat) :
    a.Delivers ({ sender := SenderID.toUsize ⟨sidx, i, some a.pid⟩, body := a.body }, a.reply) := by
  obtain ⟨pid, tid, message, address, terminated⟩ := a
  cases hlive
  refine ⟨by simp [SenderID.ofUsize_toUsize], ?_, ?_⟩
  · cases message <;> rfl
  · cases message <;> rfl

/-- The calls so far delivered a first part of the accepted messages; the rest is still waiting. -/
def DeliveryLog (events : List QueueEvent) (s : Server) : Prop :=
  ∃ m delivered, Represents s m ∧ (∀ a ∈ m.pending, a.terminated = false) ∧
    acceptedIn events = delivered ++ m.pending ∧
    List.Forall₂ Accepted.Delivers delivered (receivedIn events)

theorem DeliveryLog.follows {e : QueueEvent} (h : DeliveryLog events s) (htid : e.op.TidFits)
    (hdiscard : ∀ pid, e.op ≠ .discardMessagesForPid pid) (he : e.Follows s s') :
    DeliveryLog (events ++ [e]) s' := by
  obtain ⟨m, delivered, hrep, hlive, haccepted, hreceived⟩ := h
  obtain ⟨hperform, rfl⟩ := he
  obtain ⟨op, result, s'⟩ := e
  obtain ⟨m', hstep, hrep'⟩ := hrep.perform htid hperform
  simp only [DeliveryLog, acceptedIn_snoc, receivedIn_snoc]
  cases hstep with
  | queueFull | responseFull | handedOut | nothingWaiting | noToken | badIndex | consumed =>
    exact ⟨_, delivered, hrep', hlive, by simpa [QueueEvent.accepted, Mailbox.setToken] using haccepted,
      by simpa [QueueEvent.received] using hreceived⟩
  | accepted i =>
    refine ⟨_, delivered, hrep', ?_, by simp [QueueEvent.accepted, haccepted, Mailbox.accept],
      by simpa [QueueEvent.received] using hreceived⟩
    intro a ha
    rcases List.mem_append.mp ha with ha | ha
    · exact hlive a ha
    · simp [List.mem_singleton.mp ha]
  | @delivered sidx a rest i hcons hi hfree =>
    have hdeliver : m.deliver i = ⟨rest, Function.update m.tokens i a.reply⟩ := by
      simp [Mailbox.deliver, hcons]
    rw [hdeliver] at hrep'
    have htoken : s'.tokenAt i = a.reply := by simpa using hrep'.tokenAt i
    refine ⟨_, delivered ++ [a], hrep', fun b hb => hlive b (by simp [hcons, hb]),
      by simp [QueueEvent.accepted, haccepted, hcons], ?_⟩
    refine List.rel_append hreceived ?_
    simp only [QueueEvent.received, idx_ofUsize_toUsize hi, htoken, Option.toList_some]
    exact .cons (Accepted.delivers (hlive a (by simp [hcons])) sidx i) .nil
  | discarded => exact absurd rfl (hdiscard _)

/-- **Delivery.** From an empty queue of any size, whatever reply tokens come and go, the accepted
messages are received once each, in order and unchanged, and nothing is received only when none is
waiting. No call halts except a reply to a token without client address. -/
theorem accepted_messages_received_once_in_order {n : Nat} (hpos : 1 ≤ n) (hle : n ≤ 128)
    (pid : PID) (sid : SID) (backing : Nat) {events : List QueueEvent} {s : Server}
    (run : Run QueueEvent.Follows (init pid sid backing n) events s)
    (htids : ∀ e ∈ events, e.op.TidFits)
    (hdiscard : ∀ e ∈ events, ∀ pid, e.op ≠ .discardMessagesForPid pid) :
    ∃ delivered undelivered, acceptedIn events = delivered ++ undelivered ∧
      List.Forall₂ Accepted.Delivers delivered (receivedIn events) ∧
      (∀ sidx, (s.takeNextMessage sidx).1 = none ↔ undelivered = []) ∧
      ∀ op, s.perform op = none → ∃ i buf t, op = .takeWaitingMessage i buf ∧
        s.tokenAt i = some t ∧ t.waiting = none := by
  have hlog : DeliveryLog events s := by
    induction run with
    | nil => exact ⟨_, [], .init pid sid backing hpos hle, by simp [Mailbox.empty], rfl, .nil⟩
    | snoc _ he ih =>
      refine DeliveryLog.follows (ih ?_ ?_) (htids _ (by simp)) (hdiscard _ (by simp)) he
      · exact fun e hmem => htids e (by simp [hmem])
      · exact fun e hmem => hdiscard e (by simp [hmem])
  obtain ⟨m, delivered, hrep, _, haccepted, hreceived⟩ := hlog
  refine ⟨delivered, m.pending, haccepted, hreceived, fun sidx => ?_, fun op hhalt => ?_⟩
  · cases hpending : m.pending with
    | nil => simp [hrep.takeNext_of_nil hpending]
    | cons a rest =>
      obtain ⟨i, s', _, _, htake, _⟩ := hrep.takeNext_of_cons hpending sidx
      simp [htake]
  · rcases hrep.perform_cases op with ⟨_, _, _, heq, -⟩ | ⟨-, i, buf, t, hop, htoken, hw⟩
    · cases heq.symm.trans hhalt
    · exact ⟨i, buf, t, hop, (hrep.tokenAt i).trans htoken, hw⟩

def sampleQueue (n : Nat) : Server := init pid3 ⟨0, 0, 0, 1⟩ 0x60000000 n

def sampleSend (tid : TID) : QueueOp := .queueMessage pid2 tid (.blockingScalar ⟨7, 1, 2, 3, 4⟩) none

/-- Three of four messages are accepted in a queue of three slots, and two received, the first one's
token among the others. -/
theorem three_slot_queue_delivers :
    ∃ events s, (sampleQueue 3).calls [sampleSend 4, .takeNextMessage 5, sampleSend 5, sampleSend 6, sampleSend 7,
        .takeNextMessage 5] = some (events, s) ∧
      (acceptedIn events).length = 3 ∧ (receivedIn events).length = 2 ∧
      ∃ delivered undelivered, acceptedIn events = delivered ++ undelivered ∧
        List.Forall₂ Accepted.Delivers delivered (receivedIn events) ∧
        (∀ sidx, (s.takeNextMessage sidx).1 = none ↔ undelivered = []) ∧
        ∀ op, s.perform op = none → ∃ i buf t, op = .takeWaitingMessage i buf ∧
          s.tokenAt i = some t ∧ t.waiting = none := by
  obtain ⟨events, s, hcalls, haccepted, hreceived⟩ : ∃ events s, (sampleQueue 3).calls [sampleSend 4,
      .takeNextMessage 5, sampleSend 5, sampleSend 6, sampleSend 7, .takeNextMessage 5] = some (events, s) ∧
      (acceptedIn events).length = 3 ∧ (receivedIn events).length = 2 := ⟨_, _, rfl, rfl, rfl⟩
  refine ⟨events, s, hcalls, haccepted, hreceived, accepted_messages_received_once_in_order (by decide) (by decide) _ _ _
    (run_of_calls hcalls) (op_of_calls hcalls ?_)
    (op_of_calls (P := fun op => ∀ pid, op ≠ .discardMessagesForPid pid) hcalls ?_)⟩
  · simp [sampleSend, QueueOp.TidFits]
  · simp [sampleSend]

end

open QueueEvent

/-- The message before its sender terminated. -/
def Accepted.live (a : Accepted) : Accepted := { a with terminated := false }

theorem Accepted.live_discardFor (pid : PID) (a : Accepted) : (a.discardFor pid).live = a.live := by
  unfold discardFor
  split_ifs <;> rfl

/-- The token of a message that is delivered as blocking does not depend on a termination. -/
theorem Accepted.reply_live {a : Accepted} (h : a.body.isBlocking = true) :
    a.live.reply = a.reply ∧ ∃ t, a.reply = some t := by
  obtain ⟨pid, tid, message, address, terminated⟩ := a
  cases message <;> cases terminated <;> simp_all [live, reply, body, Message.isBlocking]

variable {m m' : Mailbox} {e : QueueEvent} {i : Nat}

section

variable (h : m.Step e.op e.result m')
include h

/-- A call that gives out an index gives out a free one, for the token of the message. -/
theorem Mailbox.Step.handsOut (hout : e.handsOut = some i) :
    m.tokens i = none ∧ ((∃ pid tid message address, e.op = .queueResponse pid tid message address ∧
          m'.tokens i = some (.ofMessage pid tid message address)) ∨
        ∃ sidx a rest t, e.op = .takeNextMessage sidx ∧ m.pending = a :: rest ∧
          a.live.reply = some t ∧ m'.tokens i = some t) := by
  obtain ⟨op, result, after⟩ := e
  cases h with
  | handedOut hfree =>
    simp only [handsOut, Option.some.injEq] at hout
    subst hout
    exact ⟨hfree, Or.inl ⟨_, _, _, _, rfl, by simp [setToken]⟩⟩
  | @delivered sidx a rest j hcons hj hfree =>
    simp only [handsOut] at hout
    split_ifs at hout with hblock
    rw [idx_ofUsize_toUsize hj, Option.some.injEq] at hout
    subst hout
    obtain ⟨hlive, t, ht⟩ := Accepted.reply_live hblock
    exact ⟨hfree, Or.inr ⟨sidx, a, rest, t, rfl, hcons, hlive.trans ht, by simp [deliver, hcons, ht]⟩⟩
  | queueFull | accepted | responseFull | nothingWaiting | noToken | badIndex | consumed
  | discarded => simp [handsOut] at hout

theorem Mailbox.Step.consumes (htake : e.consumes = some i) :
    ∃ t w, m.tokens i = some t ∧ t.waiting = some w ∧ e.result = .waiting w ∧ m'.tokens i = none := by
  obtain ⟨op, result, after⟩ := e
  cases h with
  | consumed ht hw hne =>
    simp only [consumes, if_neg hne, Option.some.injEq] at htake
    subst htake
    exact ⟨_, _, ht, hw, rfl, by simp [setToken]⟩
  | queueFull | accepted | responseFull | handedOut | nothingWaiting | delivered | noToken
  | badIndex | discarded => simp [consumes] at htake

theorem Mailbox.Step.token_of_some {t : ReplyToken}
    (ht : m.tokens i = some t) (hkeep : e.consumes ≠ some i) : m'.tokens i = some t := by
  obtain ⟨op, result, after⟩ := e
  cases h with
  | @handedOut _ _ _ _ j hfree =>
    have hij : i ≠ j := by rintro rfl; simp [hfree] at ht
    simpa [setToken, Function.update_of_ne hij] using ht
  | @delivered _ a rest j hcons _ hfree =>
    have hij : i ≠ j := by rintro rfl; simp [hfree] at ht
    simpa [deliver, hcons, Function.update_of_ne hij] using ht
  | @consumed j _ _ _ _ _ hne =>
    have hij : i ≠ j := by
      rintro rfl
      simp [QueueEvent.consumes, hne] at hkeep
    simpa [setToken, Function.update_of_ne hij] using ht
  | queueFull | accepted | responseFull | nothingWaiting | noToken | badIndex | discarded =>
    exact ht

theorem Mailbox.Step.token_of_none (hfree : m.tokens i = none) (hkeep : e.handsOut ≠ some i) : m'.tokens i = none := by
  obtain ⟨op, result, after⟩ := e
  cases h with
  | @handedOut _ _ _ _ j _ =>
    have hij : i ≠ j := by rintro rfl; simp [QueueEvent.handsOut] at hkeep
    simpa [setToken, Function.update_of_ne hij] using hfree
  | @delivered _ a rest j hcons hj _ =>
    by_cases hij : i = j
    · subst hij
      simp only [QueueEvent.handsOut, idx_ofUsize_toUsize hj] at hkeep
      have hbody : a.body.isBlocking = false := by
        by_contra hblock
        simp [hblock] at hkeep
      have hreply : a.reply = none := by
        unfold Accepted.reply
        cases hb : a.body <;> simp_all [Message.isBlocking]
      simp [deliver, hcons, hreply]
    · simpa [deliver, hcons, Function.update_of_ne hij] using hfree
  | @consumed j _ _ _ _ _ _ =>
    by_cases hij : i = j
    · simp [setToken, hij]
    · simpa [setToken, Function.update_of_ne hij] using hfree
  | queueFull | accepted | responseFull | nothingWaiting | noToken | badIndex | discarded =>
    exact hfree

end

/-- The accepted messages are the received ones followed by the waiting ones. -/
def TokenLog (events : List QueueEvent) (s : Server) : Prop :=
  ∃ m delivered, Represents s m ∧
    acceptedIn events = delivered ++ m.pending.map Accepted.live ∧
    delivered.length = (receivedIn events).length

variable {events : List QueueEvent} {s s' : Server}

theorem TokenLog.follows (h : TokenLog events s) (htid : e.op.TidFits) (he : e.Follows s s') :
    TokenLog (events ++ [e]) s' := by
  obtain ⟨m, delivered, hrep, haccepted, hreceived⟩ := h
  obtain ⟨hperform, rfl⟩ := he
  obtain ⟨op, result, s'⟩ := e
  obtain ⟨m', hstep, hrep'⟩ := hrep.perform htid hperform
  simp only [TokenLog, acceptedIn_snoc, receivedIn_snoc]
  cases hstep with
  | queueFull | responseFull | handedOut | nothingWaiting | noToken | badIndex | consumed =>
    exact ⟨_, delivered, hrep', by simpa [accepted, Mailbox.setToken] using haccepted,
      by simpa [received] using hreceived⟩
  | accepted i =>
    exact ⟨_, delivered, hrep', by simp [accepted, haccepted, Mailbox.accept, Accepted.live],
      by simpa [received] using hreceived⟩
  | @delivered sidx a rest i hcons hi hfree =>
    refine ⟨_, delivered ++ [a.live], hrep', ?_, by simp [received, hreceived]⟩
    simp [accepted, haccepted, Mailbox.deliver, hcons]
  | @discarded pid =>
    refine ⟨_, delivered, hrep', ?_, by simpa [received] using hreceived⟩
    simp [accepted, haccepted, Mailbox.discard, Accepted.live_discardFor]

theorem tokenLog_of_run {n : Nat} (hpos : 1 ≤ n) (hle : n ≤ 128) (pid : PID) (sid : SID)
    (backing : Nat) (run : Run QueueEvent.Follows (init pid sid backing n) events s)
    (htids : ∀ e ∈ events, e.op.TidFits) : TokenLog events s := by
  induction run with
  | nil => exact ⟨_, [], .init pid sid backing hpos hle, by simp [acceptedIn, Mailbox.empty], rfl⟩
  | snoc _ he ih =>
    refine TokenLog.follows (ih ?_) (htids _ (by simp)) he
    exact fun e hmem => htids e (by simp [hmem])

section

variable (run : Run QueueEvent.Follows s events s') (hrep : Represents s m)
    (htids : ∀ e ∈ events, e.op.TidFits)

include run hrep htids

theorem mailbox_invariant_of_run {I : Mailbox → Prop} (hm : I m)
    (hstep : ∀ e ∈ events, ∀ m m', I m → m.Step e.op e.result m' → I m') :
    ∃ m', Represents s' m' ∧ I m' := by
  induction run with
  | nil => exact ⟨m, hrep, hm⟩
  | snoc _ he ih =>
    obtain ⟨m1, hrep1, hm1⟩ := ih (fun e hmem => htids e (by simp [hmem]))
      (fun e hmem => hstep e (by simp [hmem]))
    obtain ⟨hperform, rfl⟩ := he
    obtain ⟨m2, hlast, hrep2⟩ := hrep1.perform (htids _ (by simp)) hperform
    exact ⟨m2, hrep2, hstep _ (by simp) m1 m2 hm1 hlast⟩

theorem tokenAt_of_run {t : ReplyToken} (ht : m.tokens i = some t)
    (hkeep : ∀ e ∈ events, e.consumes ≠ some i) : s'.tokenAt i = some t := by
  obtain ⟨m', hrep', ht'⟩ := mailbox_invariant_of_run (I := fun m => m.tokens i = some t) run hrep htids
    ht fun e he m m' hm hstep => hstep.token_of_some hm (hkeep e he)
  exact (hrep'.tokenAt i).trans ht'

theorem not_consumes_of_run (hfree : m.tokens i = none)
    (hkeep : ∀ e ∈ events, e.handsOut ≠ some i) : ∀ e ∈ events, e.consumes ≠ some i := by
  induction run with
  | nil => simp
  | @snoc es s₁ s₂ e before he ih =>
    have htids' : ∀ e' ∈ es, e'.op.TidFits := fun e' hmem => htids e' (by simp [hmem])
    have hkeep' : ∀ e' ∈ es, e'.handsOut ≠ some i := fun e' hmem => hkeep e' (by simp [hmem])
    intro e' hmem
    rcases List.mem_append.mp hmem with hmem | hmem
    · exact ih htids' hkeep' e' hmem
    · cases List.mem_singleton.mp hmem
      obtain ⟨m1, hrep1, hfree1⟩ := mailbox_invariant_of_run (I := fun m => m.tokens i = none) before hrep htids' hfree
        fun e he m m' hm hstep => hstep.token_of_none hm (hkeep' e he)
      obtain ⟨hperform, rfl⟩ := he
      obtain ⟨m2, hlast, _⟩ := hrep1.perform (htids _ (by simp)) hperform
      intro htake
      obtain ⟨t, _, ht, _⟩ := hlast.consumes htake
      simp [hfree1] at ht

end

/-- **Reply tokens.** For a call `e` between any calls `before` and `after`: an index that `e` gives
out was free, and denotes the client of the blocking message until a call takes it. A token that `e`
takes is reported as it was, and its index not taken again before it is given out again. Other
tokens stay, and a reply to an index without a token changes nothing. -/
theorem reply_token_denotes_client_until_taken {n : Nat} (hpos : 1 ≤ n) (hle : n ≤ 128)
    (pid : PID) (sid : SID) (backing : Nat) {before after : List QueueEvent}
    {e : QueueEvent} {s₀ s₁ s₂ : Server}
    (hbefore : Run QueueEvent.Follows (init pid sid backing n) before s₀)
    (he : e.Follows s₀ s₁) (hafter : Run QueueEvent.Follows s₁ after s₂)
    (htids : ∀ e' ∈ before ++ e :: after, e'.op.TidFits) :
    (∀ i, e.handsOut = some i → s₀.tokenAt i = none ∧
      ∃ t, e.replyToken before = some t ∧ s₁.tokenAt i = some t ∧
        ((∀ e' ∈ after, e'.consumes ≠ some i) → s₂.tokenAt i = some t)) ∧
    (∀ i, e.consumes = some i →
      (∃ t w, s₀.tokenAt i = some t ∧ t.waiting = some w ∧ e.result = .waiting w) ∧
      s₁.tokenAt i = none ∧
      ((∀ e' ∈ after, e'.handsOut ≠ some i) → ∀ e' ∈ after, e'.consumes ≠ some i)) ∧
    (∀ i t, s₀.tokenAt i = some t → e.consumes ≠ some i → s₁.tokenAt i = some t) ∧
    (∀ i buf, e.op = .takeWaitingMessage i buf → s₀.tokenAt i = none → s₁ = s₀) := by
  have htid : e.op.TidFits := htids e (by simp)
  have htidsAfter : ∀ e' ∈ after, e'.op.TidFits := fun e' hmem => htids e' (by simp [hmem])
  obtain ⟨m, delivered, hrep, haccepted, hreceived⟩ :=
    tokenLog_of_run hpos hle pid sid backing hbefore fun e' hmem => htids e' (by simp [hmem])
  obtain ⟨hperform, rfl⟩ := he
  obtain ⟨m', hstep, hrep'⟩ := hrep.perform htid hperform
  refine ⟨fun i hout => ?_, fun i htake => ?_, fun i t ht hkeep => ?_, fun i buf hop hnone => ?_⟩
  · obtain ⟨hfree, hnew⟩ := hstep.handsOut hout
    refine ⟨(hrep.tokenAt i).trans hfree, ?_⟩
    have htoken : ∃ t, e.replyToken before = some t ∧ m'.tokens i = some t := by
      rcases hnew with ⟨p, tid, message, address, hop, ht⟩ | ⟨sidx, a, rest, t, hop, hcons, hlive, ht⟩
      · exact ⟨_, by simp [replyToken, hop], ht⟩
      · refine ⟨t, ?_, ht⟩
        -- the message at the front of the mailbox is the first accepted one not yet received
        simp [replyToken, hop, haccepted, hcons, ← hreceived, hlive]
    obtain ⟨t, hreply, ht⟩ := htoken
    exact ⟨t, hreply, (hrep'.tokenAt i).trans ht, tokenAt_of_run hafter hrep' htidsAfter ht⟩
  · obtain ⟨t, w, ht, hw, hresult, hfree⟩ := hstep.consumes htake
    exact ⟨⟨t, w, (hrep.tokenAt i).trans ht, hw, hresult⟩, (hrep'.tokenAt i).trans hfree,
      not_consumes_of_run hafter hrep' htidsAfter hfree⟩
  · rw [hrep.tokenAt] at ht
    exact (hrep'.tokenAt i).trans (hstep.token_of_some ht hkeep)
  · rw [hrep.tokenAt] at hnone
    rw [hop] at hperform
    rcases hrep.takeWaiting_of_none hnone buf with hok | herr
    · simp only [perform, hok, QueueResult.ofOutcome, Option.some.injEq, Prod.mk.injEq] at hperform
      exact hperform.2.symm
    · simp only [perform, herr, QueueResult.ofOutcome, Option.some.injEq, Prod.mk.injEq] at hperform
      exact hperform.2.symm

/-- A second client is served and answered before the first one. -/
theorem first_client_keeps_its_token :
    ∃ before e s₀ after s₂, (sampleQueue 2).calls [sampleSend 4] = some (before, s₀) ∧
      s₀.calls [.takeNextMessage 5] = some ([e], e.after) ∧
      e.after.calls [sampleSend 6, .takeNextMessage 5, .takeWaitingMessage 1 none] = some (after, s₂) ∧
      after.map consumes = [none, none, some 1] ∧ e.handsOut = some 0 ∧
      ∃ t, e.replyToken before = some t ∧ e.after.tokenAt 0 = some t ∧ s₂.tokenAt 0 = some t := by
  obtain ⟨before, s₀, e, after, s₂, hbefore, he, hafter, hconsumes, hout, hop⟩ : ∃ before s₀ e after s₂,
      (sampleQueue 2).calls [sampleSend 4] = some (before, s₀) ∧
      s₀.calls [.takeNextMessage 5] = some ([e], e.after) ∧
      e.after.calls [sampleSend 6, .takeNextMessage 5, .takeWaitingMessage 1 none] = some (after, s₂) ∧
      after.map consumes = [none, none, some 1] ∧ e.handsOut = some 0 ∧
      e.Follows s₀ e.after := ⟨_, _, _, _, _, rfl, rfl, rfl, rfl, rfl, rfl, rfl⟩
  have htids : ∀ e' ∈ before ++ e :: after, e'.op.TidFits := by
    intro e' hmem
    rcases List.mem_append.mp hmem with hmem | hmem
    · exact op_of_calls hbefore (by simp [sampleSend, QueueOp.TidFits]) e' hmem
    · rcases List.mem_cons.mp hmem with rfl | hmem
      · exact op_of_calls he (by simp [QueueOp.TidFits]) e' (by simp)
      · exact op_of_calls hafter (by simp [sampleSend, QueueOp.TidFits]) e' hmem
  obtain ⟨-, t, hreply, htoken, hkept⟩ := (reply_token_denotes_client_until_taken (by decide) (by decide) _ _ _
    (run_of_calls hbefore) hop (run_of_calls hafter) htids).1 0 hout
  refine ⟨before, e, s₀, after, s₂, hbefore, he, hafter, hconsumes, hout, t, hreply, htoken, hkept fun e' hmem h0 => ?_⟩
  have hmem := List.mem_map_of_mem (f := consumes) hmem
  simp [hconsumes, h0] at hmem

end BaochipXous.Kernel
