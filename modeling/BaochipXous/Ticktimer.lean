import BaochipXous.LibProg
import Mathlib.Data.List.Sort
import Mathlib.Data.Finset.Basic

/-!
The ticktimer server: sleeping, condition variables and mutexes. The earliest request that waits for
a time is armed in the alarm, whose interrupt answers it and asks the loop, by a message that may be
lost, to arm the next one. The interrupt runs between two messages here: a handler that touches what
it shares with it disables the alarm first and enables it last. A request that is held back is found
in up to four places, of which the interrupt clears two.
-/

namespace BaochipXous.Ticktimer

open Prog

section

/-- A message's sender as the kernel numbers it: the process and the slot of the message, which is
used again after its answer. -/
abbrev Sender := Nat

variable (sender : Sender)

def pid : Nat := sender / 2 ^ 24 % 256

inductive Request where
  | elapsedMs
  | sleepMs (ms : Nat)
  | recalculateSleep
  | suspendResume
  | lockMutex (mutexId : Nat)
  | unlockMutex (mutexId : Nat)
  | waitForCondition (condvar timeout : Nat)
  | notifyCondition (condvar count : Nat)
  | freeMutex (mutexId : Nat)
  | freeCondition (condvar : Nat)
  deriving DecidableEq, Repr

inductive MessageKind where
  | scalar
  | blockingScalar
  | move
  | lend
  deriving DecidableEq, Repr

/-- A message of a client, numbered by `tag` in the order of sending. -/
structure Message where
  tag : Nat
  sender : Sender
  kind : MessageKind
  request : Request
  deriving DecidableEq, Repr

inductive RequestKind where
  | sleep
  | timeout

def RequestKind.toUsize : RequestKind → Nat
  | sleep => 0
  | timeout => 1

structure TimerRequest where
  msec : Nat
  sender : Sender
  kind : RequestKind
  data : Nat

inductive Queued where
  | client (msg : Message)
  /-- The interrupt's message about the request that it answered. -/
  | recalculateSleep (sender : Sender) (kind : RequestKind) (condvar : Nat)

structure Received where
  msg : Message
  time : Nat

inductive Cause where
  | alarm
  | notified (message : Message)
  | freed (message : Message)
  | unlocked
  | replied
  deriving DecidableEq, Repr

structure Answer where
  received : Received
  /-- What a scalar message is answered with. -/
  value : Option Nat
  cause : Cause
  time : Nat

structure State where
  time : Nat
  /-- `EV_ENABLE_ALARM` and `MSLEEP_TARGET`. -/
  alarmEnabled : Bool
  target : Nat
  currentResponse : Option TimerRequest
  lastResponse : Sender
  sleepHeap : List TimerRequest
  mutexReadyTable : Finset (Nat × Nat)
  notifyTable : Nat × Nat → List Sender
  notificationsWithTimeouts : Finset Sender
  mutexHash : Nat × Nat → List Sender
  queue : List Queued
  /-- The messages received and not answered, by their senders. -/
  outstanding : Sender → Option Received
  answers : List Answer
  /-- How many messages the clients have sent. -/
  sent : Nat

def State.new : State where
  time := 0
  alarmEnabled := false
  target := 0
  currentResponse := none
  lastResponse := 0
  sleepHeap := []
  mutexReadyTable := ∅
  notifyTable := fun _ => []
  notificationsWithTimeouts := ∅
  mutexHash := fun _ => []
  queue := []
  outstanding := fun _ => none
  answers := []
  sent := 0

abbrev M := Prog Empty State

def State.answered (s : State) (sender : Sender) (received : Received) (value : Nat)
    (cause : Cause) : State :=
  { s with
    outstanding := Function.update s.outstanding sender none
    answers := s.answers ++ [⟨received, some value, cause, s.time⟩] }

/-- Answer a message; refused for a sender that no message is outstanding of. -/
def returnScalar (value : Nat) (cause : Cause) : M Bool := do
  let outstanding ← gets (·.outstanding)
  match outstanding sender with
  | some received => do
    modify (·.answered sender received value cause)
    pure true
  | none => pure false

variable (msg : Message)

/-- Answer the message that the loop has received last, where its sender waits for that. -/
def reply (value : Nat) : M Unit :=
  match msg.kind with
  | .scalar | .move => pure ()
  | .blockingScalar => do
    let returned ← returnScalar msg.sender value .replied
    assert returned
  | .lend => modify fun s =>
    { s with answers := s.answers ++ [⟨⟨msg, s.time⟩, none, .replied, s.time⟩] }

def stopInterrupt : M (Option TimerRequest) := do
  let current ← gets (·.currentResponse)
  modify fun s => { s with alarmEnabled := false, currentResponse := none }
  pure current

def scheduleResponse (request : TimerRequest) : M Unit := do
  let enabled ← gets (·.alarmEnabled)
  assert (!enabled)
  modify fun s =>
    { s with currentResponse := some request, target := request.msec, alarmEnabled := true }

/-- Insert a request into the map under its expiry, which must not be a key of it. -/
def insertRequest (request : TimerRequest) : M Unit := do
  let heap ← gets (·.sleepHeap)
  assert (heap.all (·.msec ≠ request.msec))
  modify fun s =>
    { s with sleepHeap := heap.orderedInsert (fun a b => a.msec ≤ b.msec) request }

def stopSleep : M Unit := do
  match ← stopInterrupt with
  | some current => insertRequest current
  | none => pure ()

def startSleep : M Unit := do
  match ← gets (·.sleepHeap) with
  | next :: rest => do
    modify fun s => { s with sleepHeap := rest }
    scheduleResponse next
  | [] => pure ()

/-- Count the expiry up while it is a key of the map. -/
def freeExpiry (heap : List TimerRequest) : Nat → Nat → Nat
  | 0, msec => msec
  | fuel + 1, msec =>
    if heap.any (·.msec = msec) then freeExpiry heap fuel (msec + 1) else msec

def recalculateSleepOffline (new : Option TimerRequest) : M Unit :=
  match new with
  | some request => do
    let heap ← gets (·.sleepHeap)
    let time ← gets (·.time)
    insertRequest { request with msec := freeExpiry heap heap.length (request.msec + time) }
  | none => pure ()

def recalculateSleep (new : Option TimerRequest) : M Unit := do
  stopSleep
  recalculateSleepOffline new
  startSleep

/-- The interrupt; `full` tells whether the queue of the server has no room for its message. -/
def handleIrq (full : Bool) : M Unit := do
  match ← gets (·.currentResponse) with
  | none => halt
  | some response => do
    modify fun s => { s with currentResponse := none }
    let _ ← returnScalar response.sender response.kind.toUsize .alarm
    modify fun s => { s with alarmEnabled := false }
    when (!full) (modify fun s =>
      { s with
        queue := s.queue ++ [.recalculateSleep response.sender response.kind response.data] })
    modify fun s => { s with lastResponse := response.sender }

/-- Whether the sender was in the set of those with a timeout, from which it is removed. -/
def removeTimeout : M Bool := do
  let timeouts ← gets (·.notificationsWithTimeouts)
  modify fun s => { s with notificationsWithTimeouts := timeouts.erase sender }
  pure (decide (sender ∈ timeouts))

/-- Drop the sender's requests from the map; the lengths of the map before and after. -/
def retain : M (Nat × Nat) := do
  let heap ← gets (·.sleepHeap)
  let rest := heap.filter (·.sender ≠ sender)
  modify fun s => { s with sleepHeap := rest }
  pure (heap.length, rest.length)

def setAwaiting (key : Nat × Nat) (senders : List Sender) : M Unit :=
  modify fun s => { s with notifyTable := Function.update s.notifyTable key senders }

def handleRecalculateSleep (condvar : Nat) : M Unit := do
  stopSleep
  let timed ← removeTimeout sender
  when timed do
    let (lenBefore, lenAfter) ← retain sender
    assert (lenBefore = lenAfter)
    let table ← gets (·.notifyTable)
    let awaiting := table (pid sender, condvar)
    setAwaiting (pid sender, condvar) (awaiting.filter (· ≠ sender))
    assert (awaiting.length ≠ (awaiting.filter (· ≠ sender)).length)
  recalculateSleepOffline none
  startSleep

def lockMutex (mutexId : Nat) : M Unit := do
  let ready ← gets (·.mutexReadyTable)
  if (pid msg.sender, mutexId) ∈ ready then do
    modify fun s => { s with mutexReadyTable := ready.erase (pid msg.sender, mutexId) }
    reply msg 0
  else
    modify fun s =>
      { s with
        mutexHash := Function.update s.mutexHash (pid msg.sender, mutexId)
          (s.mutexHash (pid msg.sender, mutexId) ++ [msg.sender]) }

def unlockMutex (mutexId : Nat) : M Unit := do
  let waiting ← gets (·.mutexHash)
  match waiting (pid msg.sender, mutexId) with
  | sender :: rest => do
    modify fun s =>
      { s with mutexHash := Function.update s.mutexHash (pid msg.sender, mutexId) rest }
    let returned ← returnScalar sender 0 .unlocked
    assert returned
    reply msg 1
  | [] => do
    modify fun s =>
      { s with mutexReadyTable := insert (pid msg.sender, mutexId) s.mutexReadyTable }
    reply msg 0

/-- The senders that wait for the mutex are forgotten. -/
def freeMutex (mutexId : Nat) : M Unit := do
  modify fun s =>
    { s with
      mutexHash := Function.update s.mutexHash (pid msg.sender, mutexId) []
      mutexReadyTable := s.mutexReadyTable.erase (pid msg.sender, mutexId) }
  reply msg 10

def waitForCondition (condvar timeout : Nat) : M Unit := do
  when (timeout ≠ 0) do
    stopSleep
    modify fun s =>
      { s with notificationsWithTimeouts := insert msg.sender s.notificationsWithTimeouts }
    recalculateSleepOffline (some ⟨timeout, msg.sender, .timeout, condvar⟩)
  let table ← gets (·.notifyTable)
  setAwaiting (pid msg.sender, condvar) (table (pid msg.sender, condvar) ++ [msg.sender])
  when (timeout ≠ 0) startSleep

/-- Take senders out of the front of a queue, as many as `n`, and run the program for each; the sum of
what it counts. -/
def drain (key : Nat × Nat) (each : Sender → M Nat) : Nat → M Nat
  | 0 => pure 0
  | n + 1 => do
    let table ← gets (·.notifyTable)
    match table key with
    | entry :: rest => do
      setAwaiting key rest
      let count ← each entry
      let counts ← drain key each n
      pure (count + counts)
    | [] => pure 0

/-- Drop the timeout of an entry, if it has one; whether the alarm has answered the entry already. -/
def hasFired (entry : Sender) : M Bool := do
  let timed ← removeTimeout entry
  if timed then do
    let (lenBefore, lenAfter) ← retain entry
    assert (lenBefore = lenAfter || lenBefore = lenAfter + 1)
    pure (decide (lenBefore = lenAfter))
  else pure false

/-- Wake the sender of an entry unless the alarm has answered it already. -/
def notifyEntry (entry : Sender) : M Nat := do
  let fired ← hasFired entry
  if fired then pure 0
  else do
    let returned ← returnScalar entry 0 (.notified msg)
    assert returned
    pure 1

def notifyCondition (condvar count : Nat) : M Unit := do
  let table ← gets (·.notifyTable)
  let awaiting := table (pid msg.sender, condvar)
  -- no count means all of them
  let requestedCount := if count = 0 then awaiting.length else count
  stopSleep
  let notified ← drain (pid msg.sender, condvar) (notifyEntry msg)
    (min requestedCount awaiting.length)
  startSleep
  reply msg notified

/-- Wake the sender of an entry; one for an entry that was in the map of sleepers. -/
def freeEntry (entry : Sender) : M Nat := do
  let timed ← removeTimeout entry
  if timed then do
    let (lenBefore, lenAfter) ← retain entry
    assert (lenBefore = lenAfter || lenBefore = lenAfter + 1)
    let last ← gets (·.lastResponse)
    if lenBefore ≠ lenAfter then do
      assert (last ≠ entry)
      let _ ← returnScalar entry 0 (.freed msg)
      pure 1
    else do
      assert (last = entry)
      pure 0
  else do
    let _ ← returnScalar entry 0 (.freed msg)
    pure 0

def freeCondition (condvar : Nat) : M Unit := do
  let table ← gets (·.notifyTable)
  stopSleep
  let altered ← drain (pid msg.sender, condvar) (freeEntry msg)
    (table (pid msg.sender, condvar)).length
  setAwaiting (pid msg.sender, condvar) []
  when (altered ≠ 0) (recalculateSleepOffline none)
  startSleep
  reply msg 11

/-- A suspend turns the alarm off, and on this hardware the resume does not turn it on again. -/
def suspendResume : M Unit :=
  if msg.kind = .scalar then modify fun s => { s with alarmEnabled := false } else reply msg 3

def handle : M Unit := do
  match msg.request with
  | .elapsedMs => do
    let time ← gets (·.time)
    reply msg time
  | .sleepMs ms => recalculateSleep (some ⟨ms, msg.sender, .sleep, 0⟩)
  -- only the server itself may ask for this
  | .recalculateSleep => reply msg 2
  | .suspendResume => suspendResume msg
  | .lockMutex mutexId => lockMutex msg mutexId
  | .unlockMutex mutexId => unlockMutex msg mutexId
  | .freeMutex mutexId => freeMutex msg mutexId
  | .waitForCondition condvar timeout => waitForCondition msg condvar timeout
  | .notifyCondition condvar count => notifyCondition msg condvar count
  | .freeCondition condvar => freeCondition msg condvar

/-- Receive a message: its sender waits for an answer if it is blocking. -/
def receive : M Unit :=
  when (msg.kind = .blockingScalar) (modify fun s =>
    { s with outstanding := Function.update s.outstanding msg.sender (some ⟨msg, s.time⟩) })

def serve : M Unit := do
  match ← gets (·.queue) with
  | [] => pure ()
  | .recalculateSleep sender _ condvar :: rest => do
    modify fun s => { s with queue := rest }
    handleRecalculateSleep sender condvar
  | .client msg :: rest => do
    modify fun s => { s with queue := rest }
    receive msg
    -- memory messages have no arguments and go back as they came
    if msg.kind = .scalar ∨ msg.kind = .blockingScalar then handle msg else reply msg 0

end

open State

/-- The requests that wait for a time: the one in the alarm and those in the map. -/
def State.pending (s : State) : List TimerRequest :=
  s.currentResponse.toList ++ s.sleepHeap

def Served (s : State) (tag : Nat) : Prop :=
  tag < s.sent ∧ ∀ msg, .client msg ∈ s.queue → tag < msg.tag

def Request.timed : Request → Prop
  | sleepMs _ => True
  | waitForCondition _ timeout => timeout ≠ 0
  | _ => False

/-- The map is in order and what is in the alarm comes before it. A suspend leaves a request in the
alarm that is off. -/
structure Alarm (s : State) : Prop where
  sorted : s.sleepHeap.Pairwise (·.msec < ·.msec)
  enabled : s.alarmEnabled = true → s.currentResponse.isSome = true
  target : ∀ r, s.currentResponse = some r → s.target = r.msec ∧ ∀ x ∈ s.sleepHeap, r.msec < x.msec

/-- The message that a request which waits for a time is there to answer. -/
def Awaits (s : State) (r : TimerRequest) : Prop :=
  match r.kind with
  | .sleep => r.sender ∉ s.notificationsWithTimeouts ∧ ∃ received ms,
      s.outstanding r.sender = some received ∧ received.msg.request = .sleepMs ms ∧
      received.time + ms ≤ r.msec
  | .timeout => r.sender ∈ s.notificationsWithTimeouts ∧
      r.sender ∈ s.notifyTable (pid r.sender, r.data) ∧ ∃ received timeout,
      s.outstanding r.sender = some received ∧
      received.msg.request = .waitForCondition r.data timeout

/-- The requests held back, all but that of the sender `hole` in their places. -/
structure Held (hole : Option Sender) (s : State) : Prop where
  senders : (s.pending.map (·.sender)).Nodup
  awaits : ∀ r ∈ s.pending, Awaits s r
  sleeping : ∀ e received, s.outstanding e = some received → received.msg.request.timed →
    some e ≠ hole → ∃ r ∈ s.pending, r.sender = e
  waiting : ∀ key, ∀ e ∈ s.notifyTable key, pid e = key.1 ∧
    (e ∉ s.notificationsWithTimeouts → ∃ received timeout, s.outstanding e = some received ∧
      received.msg.request = .waitForCondition key.2 timeout)
  once : ∀ key key' e, e ∈ s.notifyTable key → e ∈ s.notifyTable key' → key = key'
  nodup : ∀ key, (s.notifyTable key).Nodup
  listed : ∀ e ∈ s.notificationsWithTimeouts, ∃ condvar, e ∈ s.notifyTable (pid e, condvar)
  locking : ∀ key, ∀ e ∈ s.mutexHash key, pid e = key.1 ∧
    ∃ received, s.outstanding e = some received ∧ received.msg.request = .lockMutex key.2
  lockingNodup : ∀ key, (s.mutexHash key).Nodup
  received : ∀ e received, s.outstanding e = some received → received.msg.sender = e ∧
    received.msg.kind = .blockingScalar

/-- What may stand behind a message in the queue: the slot of a blocking message is used once, and
the interrupt's message about it came before. -/
def Follows : Queued → Queued → Prop
  | .client msg, .client msg' => msg.tag < msg'.tag ∧
      (msg.kind = .blockingScalar → msg'.kind = .blockingScalar → msg.sender ≠ msg'.sender)
  | .client msg, .recalculateSleep e _ _ => msg.kind = .blockingScalar → msg.sender ≠ e
  | .recalculateSleep _ _ _, _ => True

structure Queues (s : State) : Prop where
  order : s.queue.Pairwise Follows
  tags : ∀ msg, .client msg ∈ s.queue → msg.tag < s.sent
  free : ∀ msg, .client msg ∈ s.queue → msg.kind = .blockingScalar →
    s.outstanding msg.sender = none
  spent : ∀ e kind condvar, .recalculateSleep e kind condvar ∈ s.queue → s.outstanding e = none ∧
    (e ∈ s.notificationsWithTimeouts → e ∈ s.notifyTable (pid e, condvar))

/-- No sleeper's answer comes early, a waiter is told of success only by a message about its
condition, a notification how many it woke. -/
def Right (answers : List Answer) (a : Answer) : Prop :=
  match a.received.msg.request with
  | .sleepMs ms => a.value.isSome → a.received.time + ms ≤ a.time
  | .waitForCondition condvar _ => a.value = some 0 → ∃ msg,
      pid msg.sender = pid a.received.msg.sender ∧
      (a.cause = .notified msg ∧ (∃ count, msg.request = .notifyCondition condvar count) ∨
        a.cause = .freed msg ∧ msg.request = .freeCondition condvar)
  | .notifyCondition _ _ => ∀ n, a.value = some n →
      n = answers.countP (·.cause = .notified a.received.msg)
  | _ => True

structure Log (s : State) : Prop where
  served : ∀ e received, s.outstanding e = some received → Served s received.msg.tag
  distinct : ∀ e received e' received', s.outstanding e = some received →
    s.outstanding e' = some received' → received.msg.tag = received'.msg.tag → e = e'
  answered : ∀ a ∈ s.answers, Served s a.received.msg.tag
  unanswered : ∀ a ∈ s.answers, ∀ e received, s.outstanding e = some received →
    a.received.msg.tag ≠ received.msg.tag
  answeredOnce : (s.answers.map (·.received.msg.tag)).Nodup
  causes : ∀ a ∈ s.answers, ∀ msg, a.cause = .notified msg → Served s msg.tag
  right : ∀ a ∈ s.answers, Right s.answers a

structure Inv (hole : Option Sender) (s : State) : Prop extends
  Alarm s, Held hole s, Queues s, Log s

/-- Nothing is held back for the sender but stale entries. -/
structure Fresh (e : Sender) (s : State) : Prop where
  pending : ∀ r ∈ s.pending, r.sender ≠ e
  table : ∀ key, e ∈ s.notifyTable key → e ∈ s.notificationsWithTimeouts
  mutex : ∀ key, e ∉ s.mutexHash key

/-- The message is being handled and has woken so many waiters. -/
structure Current (msg : Message) (woken : Nat) (s : State) : Prop where
  served : Served s msg.tag
  unanswered : ∀ a ∈ s.answers, a.received.msg.tag ≠ msg.tag
  alone : ∀ e received, s.outstanding e = some received → received.msg.tag = msg.tag →
    received.msg = msg
  blocked : msg.kind = .blockingScalar → s.outstanding msg.sender = some ⟨msg, s.time⟩ ∧
    Fresh msg.sender s
  count : s.answers.countP (·.cause = .notified msg) = woken

variable {hole : Option Sender} {s : State} {e : Sender} {received : Received} {msg : Message}
  {woken : Nat}

theorem Alarm.disabled (h : Alarm s) (hnone : s.currentResponse = none) : s.alarmEnabled = false := by
  by_contra hon
  have hsome := h.enabled (by simpa using hon)
  rw [hnone] at hsome
  contradiction

theorem Log.frame {s' : State} (h : Log s) (hout : s'.outstanding = s.outstanding)
    (hqueue : s'.queue = s.queue) (hanswers : s'.answers = s.answers) (hsent : s'.sent = s.sent) :
    Log s' := by
  obtain ⟨hserved, hdistinct, hanswered, hunanswered, honce, hcauses, hright⟩ := h
  unfold Served at hserved hanswered hcauses
  rw [← hsent, ← hqueue] at hserved hanswered hcauses
  rw [← hout] at hserved hdistinct hunanswered
  rw [← hanswers] at hanswered hunanswered honce hcauses hright
  exact ⟨hserved, hdistinct, hanswered, hunanswered, honce, hcauses, hright⟩

theorem Held.weaken (h : Held none s) : Held hole s :=
  { h with sleeping := fun e received hout htimed _ => h.sleeping e received hout htimed nofun }

theorem Inv.weaken (h : Inv none s) : Inv hole s := ⟨h.toAlarm, h.toHeld.weaken, h.toQueues, h.toLog⟩

theorem Inv.close (h : Inv (some e) s) (hclosed : ∀ received, s.outstanding e = some received →
    received.msg.request.timed → ∃ r ∈ s.pending, r.sender = e) : Inv none s := by
  refine ⟨h.toAlarm, { h.toHeld with sleeping := ?_ }, h.toQueues, h.toLog⟩
  intro e' received hout htimed _
  by_cases heq : e' = e
  · rw [heq] at hout ⊢
    exact hclosed received hout htimed
  · exact h.sleeping e' received hout htimed fun hsome => heq (Option.some.inj hsome)

variable {r : TimerRequest}

theorem Held.outstanding_of_pending (h : Held hole s) (hr : r ∈ s.pending) :
    ∃ received, s.outstanding r.sender = some received ∧ ∀ id, received.msg.request ≠ .lockMutex id := by
  have hawaits := h.awaits r hr
  unfold Awaits at hawaits
  split at hawaits
  · obtain ⟨-, received, ms, hout, hreq, -⟩ := hawaits
    exact ⟨received, hout, by rw [hreq]; nofun⟩
  · obtain ⟨-, -, received, timeout, hout, hreq⟩ := hawaits
    exact ⟨received, hout, by rw [hreq]; nofun⟩

theorem Held.not_locking (h : Held hole s) (hout : s.outstanding e = some received)
    (hreq : ∀ id, received.msg.request ≠ .lockMutex id) (key : Nat × Nat) : e ∉ s.mutexHash key := by
  intro hmem
  obtain ⟨-, received', hout', hreq'⟩ := h.locking key e hmem
  obtain rfl := Option.some.inj (hout.symm.trans hout')
  exact hreq _ hreq'

theorem Held.fresh_of_none (h : Held hole s) (hout : s.outstanding e = none) : Fresh e s := by
  refine ⟨?_, ?_, ?_⟩
  · intro r hr heq
    obtain ⟨received, hsome, -⟩ := h.outstanding_of_pending hr
    rw [heq, hout] at hsome
    contradiction
  · intro key hmem
    by_contra hnot
    obtain ⟨received, timeout, hsome, -⟩ := (h.waiting key e hmem).2 hnot
    rw [hout] at hsome
    contradiction
  · intro key hmem
    obtain ⟨received, hsome, -⟩ := (h.locking key e hmem).2
    rw [hout] at hsome
    contradiction

/-- The state with the alarm stopped and its request put back. -/
def State.stopped (s : State) : State :=
  { s with alarmEnabled := false, currentResponse := none, sleepHeap := s.pending }

/-- The state with the earliest request in the alarm, which was stopped. -/
def State.started (s : State) : State :=
  match s.sleepHeap with
  | next :: rest =>
    { s with sleepHeap := rest, currentResponse := some next, target := next.msec, alarmEnabled := true }
  | [] => s

theorem orderedInsert_of_lt {heap : List TimerRequest} (h : ∀ x ∈ heap, r.msec < x.msec) :
    heap.orderedInsert (fun a b => a.msec ≤ b.msec) r = r :: heap := by
  cases heap with
  | nil => rfl
  | cons x rest => exact List.orderedInsert_cons_of_le _ _ (h x List.mem_cons_self).le

theorem stopSleep_eq (h : Alarm s) : stopSleep s = .ok () s.stopped := by
  rw [stopSleep, stopInterrupt]
  cases hcurrent : s.currentResponse with
  | none => simp [bind_apply, hcurrent, stopped, pending]
  | some r =>
    have hlt := (h.target r hcurrent).2
    have hall : s.sleepHeap.all (fun x => decide (x.msec ≠ r.msec)) = true :=
      List.all_eq_true.mpr fun x hx => decide_eq_true (hlt x hx).ne'
    simp only [bind_apply, gets_apply, modify_apply, pure_apply, hcurrent, insertRequest, hall,
      Prog.assert, if_true, orderedInsert_of_lt hlt, stopped, pending,
      Option.toList_some, List.singleton_append]

theorem startSleep_eq (henabled : s.alarmEnabled = false) : startSleep s = .ok () s.started := by
  rw [startSleep, started, bind_apply, gets_apply]
  cases hheap : s.sleepHeap with
  | nil => rfl
  | cons next rest =>
    simp only [bind_apply, modify_apply, scheduleResponse, gets_apply, henabled, Prog.assert,
      Bool.not_false, if_true, pure_apply]

/-- Only the alarm and the map are changed. -/
def Realarmed (s s' : State) : Prop :=
  s' = { s with
    alarmEnabled := s'.alarmEnabled
    target := s'.target
    currentResponse := s'.currentResponse
    sleepHeap := s'.sleepHeap }

theorem realarmed_started : Realarmed s s.started := by
  unfold Realarmed started
  split <;> rfl

theorem Inv.realarm {s' : State} (h : Inv hole s) (halarm : Alarm s')
    (hpending : s'.pending = s.pending) (hrest : Realarmed s s') : Inv hole s' := by
  have hheld : Held hole s' := by
    obtain ⟨hsenders, hawaits, hsleeping, hwaiting, honce, hnodup, hlisted, hlocking, hlockingNodup,
      hreceived⟩ := h.toHeld
    refine ⟨by rw [hpending]; exact hsenders, ?_, ?_, ?_, ?_, ?_, ?_, ?_, ?_, ?_⟩
    · rwa [hpending, hrest]
    · rwa [hpending, hrest]
    all_goals rw [hrest]
    all_goals assumption
  refine ⟨halarm, hheld, ?_, ?_⟩
  · rw [hrest]
    exact { h.toQueues with }
  · rw [hrest]
    exact h.toLog.frame rfl rfl rfl rfl

theorem Inv.stopped (h : Inv hole s) : Inv hole s.stopped := by
  refine h.realarm ⟨?_, fun hon => absurd hon Bool.false_ne_true, nofun⟩ rfl rfl
  show s.pending.Pairwise (·.msec < ·.msec)
  unfold pending
  cases hcurrent : s.currentResponse with
  | none => exact h.sorted
  | some r => exact List.pairwise_cons.mpr ⟨(h.target r hcurrent).2, h.sorted⟩

theorem started_pending (hnone : s.currentResponse = none) : s.started.pending = s.pending := by
  unfold started
  split
  · rename_i next rest hheap
    simp [pending, hnone, hheap]
  · rfl

theorem Inv.started (h : Inv hole s) (hnone : s.currentResponse = none) : Inv hole s.started := by
  cases hheap : s.sleepHeap with
  | nil => rwa [State.started, hheap]
  | cons next rest =>
    have hsorted := h.sorted
    rw [hheap] at hsorted
    obtain ⟨hlt, hrest⟩ := List.pairwise_cons.mp hsorted
    refine h.realarm ?_ (started_pending hnone) realarmed_started
    simp only [State.started, hheap]
    refine ⟨hrest, fun _ => rfl, ?_⟩
    intro r hr
    obtain rfl := Option.some.inj hr
    exact ⟨rfl, hlt⟩

/-- The alarm is on if there is a request for it. -/
def Armed (s : State) : Prop := s.pending ≠ [] → s.alarmEnabled = true

theorem started_armed (hnone : s.currentResponse = none) : Armed s.started := by
  unfold Armed started
  split
  · exact fun _ => rfl
  · rename_i hheap
    intro hpending
    rw [pending, hnone, hheap] at hpending
    exact absurd rfl hpending

variable {value : Nat} {cause : Cause} {e' : Sender}

theorem answered_of_ne (hne : e' ≠ e) : (s.answered e received value cause).outstanding e' = s.outstanding e' :=
  Function.update_of_ne hne _ _

theorem answered_some {received' : Received}
    (hout : (s.answered e received value cause).outstanding e' = some received') :
    e' ≠ e ∧ s.outstanding e' = some received' := by
  by_cases heq : e' = e
  · have hnone : (s.answered e received value cause).outstanding e = none := Function.update_self _ _ _
    rw [heq, hnone] at hout
    contradiction
  · rw [answered_of_ne heq] at hout
    exact ⟨heq, hout⟩

theorem Right.append {answers : List Answer} {a new : Answer} (h : Right answers a)
    (hcause : new.cause ≠ .notified a.received.msg) : Right (answers ++ [new]) a := by
  unfold Right at h ⊢
  split
  · simpa [*] using h
  · simpa [*] using h
  · simpa [*, List.countP_append] using h
  · trivial

theorem Held.answer (h : Held (some e) s) (hfresh : Fresh e s) (value : Nat) (cause : Cause) :
    Held none (s.answered e received value cause) := by
  refine ⟨h.senders, ?_, ?_, ?_, h.once, h.nodup, h.listed, ?_, h.lockingNodup, ?_⟩
  · intro r hr
    have hawaits := h.awaits r hr
    unfold Awaits at hawaits ⊢
    rwa [answered_of_ne (hfresh.pending r hr)]
  · intro e' received' hout htimed _
    obtain ⟨hne, hout⟩ := answered_some hout
    exact h.sleeping e' received' hout htimed fun hsome => hne (Option.some.inj hsome)
  · intro key e' hmem
    refine ⟨(h.waiting key e' hmem).1, fun hnot => ?_⟩
    have hne : e' ≠ e := by
      rintro rfl
      exact hnot (hfresh.table key hmem)
    rw [answered_of_ne hne]
    exact (h.waiting key e' hmem).2 hnot
  · intro key e' hmem
    have hne : e' ≠ e := by
      rintro rfl
      exact hfresh.mutex key hmem
    rw [answered_of_ne hne]
    exact h.locking key e' hmem
  · intro e' received' hout
    exact h.received e' received' (answered_some hout).2

theorem Queues.answer (h : Queues s) (value : Nat) (cause : Cause) : Queues (s.answered e received value cause) := by
  have hnone : ∀ e', s.outstanding e' = none → (s.answered e received value cause).outstanding e' = none := by
    intro e' hout
    by_contra hsome
    obtain ⟨received', hout'⟩ := Option.ne_none_iff_exists'.mp hsome
    rw [(answered_some hout').2] at hout
    contradiction
  exact ⟨h.order, h.tags, fun msg hmsg hkind => hnone _ (h.free msg hmsg hkind), fun e' kind condvar hmem =>
    ⟨hnone _ (h.spent e' kind condvar hmem).1, (h.spent e' kind condvar hmem).2⟩⟩

theorem Log.append (h : Log s) {outstanding : Sender → Option Received} {new : Answer}
    (hout : ∀ e r, outstanding e = some r → s.outstanding e = some r ∧ new.received.msg.tag ≠ r.msg.tag)
    (hserved : Served s new.received.msg.tag)
    (hnew : ∀ a ∈ s.answers, a.received.msg.tag ≠ new.received.msg.tag)
    (hcause : ∀ msg, new.cause = .notified msg → Served s msg.tag ∧ ∀ a ∈ s.answers, a.received.msg ≠ msg)
    (hright : Right (s.answers ++ [new]) new) :
    Log { s with outstanding := outstanding, answers := s.answers ++ [new] } := by
  have hmem : ∀ a ∈ s.answers ++ [new], a ∈ s.answers ∨ a = new := by simp
  refine ⟨?_, ?_, ?_, ?_, ?_, ?_, ?_⟩
  · exact fun e r hr => h.served e r (hout e r hr).1
  · exact fun e1 r1 e2 r2 h1 h2 => h.distinct e1 r1 e2 r2 (hout e1 r1 h1).1 (hout e2 r2 h2).1
  · intro a ha
    rcases hmem a ha with ha | rfl
    · exact h.answered a ha
    · exact hserved
  · intro a ha e r hr
    rcases hmem a ha with ha | rfl
    · exact h.unanswered a ha e r (hout e r hr).1
    · exact (hout e r hr).2
  · simp only [List.map_append, List.map_cons, List.map_nil]
    refine List.nodup_append.mpr ⟨h.answeredOnce, List.nodup_singleton _, ?_⟩
    intro tag htag tag' htag' heq
    obtain ⟨a, ha, rfl⟩ := List.mem_map.mp htag
    rw [List.mem_singleton] at htag'
    exact hnew a ha (heq.trans htag')
  · intro a ha msg hmsg
    rcases hmem a ha with ha | rfl
    · exact h.causes a ha msg hmsg
    · exact (hcause msg hmsg).1
  · intro a ha
    rcases hmem a ha with ha | rfl
    · exact (h.right a ha).append fun heq => (hcause _ heq).2 a ha rfl
    · exact hright

section

variable (hout : s.outstanding e = some received)
  (hcause : ∀ msg, cause = .notified msg →
    Served s msg.tag ∧ ∀ a ∈ s.answers, a.received.msg ≠ msg)
  (hright : Right (s.answered e received value cause).answers
    ⟨received, some value, cause, s.time⟩)

include hout hcause hright

theorem Log.answer (h : Log s) : Log (s.answered e received value cause) := by
  refine h.append ?_ (h.served e received hout) (fun a ha => h.unanswered a ha e received hout) hcause hright
  intro e' received' hout'
  obtain ⟨hne, hout'⟩ : e' ≠ e ∧ s.outstanding e' = some received' :=
    @answered_some s e received value cause e' received' hout'
  exact ⟨hout', fun htag => hne (h.distinct e' received' e received hout' hout htag.symm)⟩

theorem Inv.answer (h : Inv (some e) s) (hfresh : Fresh e s) : Inv none (s.answered e received value cause) :=
  ⟨{ h.toAlarm with }, h.toHeld.answer hfresh value cause,
    h.toQueues.answer value cause, h.toLog.answer hout hcause hright⟩

end

theorem returnScalar_eq (hout : s.outstanding e = some received) (value : Nat) (cause : Cause) :
    returnScalar e value cause s = .ok true (s.answered e received value cause) := by
  simp [returnScalar, bind_apply, hout]

/-- The value may be the answer: a sleeper and a waiter are not answered like that, a notification
with the number of those it woke. -/
def Replies (msg : Message) (woken value : Nat) : Prop :=
  match msg.request with
  | .sleepMs _ | .waitForCondition _ _ => False
  | .notifyCondition _ _ => value = woken
  | _ => True

theorem reply_total (h : Inv none s) (hcurrent : Current msg woken s)
    (hreplies : Replies msg woken value) (hlent : msg.kind ≠ .lend) :
    Total (reply msg value) (fun _ s' => Inv none s' ∧ s' = { s with
      outstanding := s'.outstanding
      answers := s'.answers }) (fun _ _ => False) s := by
  unfold reply
  cases hkind : msg.kind with
  | scalar | move => exact ⟨h, rfl⟩
  | lend => exact absurd hkind hlent
  | blockingScalar =>
    obtain ⟨hout, hfresh⟩ := hcurrent.blocked hkind
    have hanswered : Inv none (s.answered msg.sender ⟨msg, s.time⟩ value .replied) := by
      refine h.weaken.answer hout (fun _ hcause => by contradiction) ?_ hfresh
      unfold Replies at hreplies
      unfold Right
      split <;> simp_all [answered, List.countP_append, hcurrent.count]
    rw [total_bind, total_of_ok (returnScalar_eq hout value .replied), total_assert]
    exact ⟨rfl, hanswered, rfl⟩

theorem reply_lent_total (h : Inv none s) (hcurrent : Current msg woken s) (value : Nat) (hlent : msg.kind = .lend) :
    Total (reply msg value) (fun _ s' => Inv none s' ∧ s' = { s with answers := s'.answers }) (fun _ _ => False) s := by
  rw [reply, hlent]
  refine ⟨⟨{ h.toAlarm with }, ?_, { h.toQueues with }, ?_⟩, rfl⟩
  · exact { h.toHeld with }
  · refine h.toLog.append ?_ hcurrent.served hcurrent.unanswered (fun _ hcause => by contradiction) ?_
    · intro e r hr
      refine ⟨hr, fun htag => ?_⟩
      have hkind := (h.received e r hr).2
      rw [hcurrent.alone e r hr htag.symm, hlent] at hkind
      contradiction
    · unfold Right
      split <;> simp

/-- The state without the entry in the queue of a condition, in the set of senders with a timeout and in
the map. -/
def State.unlisted (s : State) (key : Nat × Nat) (e : Sender) : State :=
  { s with
    notifyTable := Function.update s.notifyTable key ((s.notifyTable key).filter (· ≠ e))
    notificationsWithTimeouts := s.notificationsWithTimeouts.erase e
    sleepHeap := s.sleepHeap.filter (·.sender ≠ e) }

variable {key : Nat × Nat}

theorem mem_unlisted {key' : Nat × Nat} :
    e' ∈ (s.unlisted key e).notifyTable key' ↔ e' ∈ s.notifyTable key' ∧ (key' = key → e' ≠ e) := by
  by_cases hkey : key' = key
  · subst hkey
    simp [unlisted]
  · simp [unlisted, hkey]

theorem Held.not_mem_unlisted (h : Held hole s) (hmem : e ∈ s.notifyTable key) (key' : Nat × Nat) : e ∉ (s.unlisted key e).notifyTable key' := by
  intro hlisted
  obtain ⟨hlisted, hne⟩ := mem_unlisted.mp hlisted
  exact hne (h.once key' key e hlisted hmem) rfl

theorem mem_pending_unlisted (hnone : s.currentResponse = none) :
    r ∈ (s.unlisted key e).pending ↔ r ∈ s.pending ∧ r.sender ≠ e := by
  simp [pending, unlisted, hnone]

theorem Inv.unlist (h : Inv none s) (hnone : s.currentResponse = none)
    (hmem : e ∈ s.notifyTable key) : Inv (some e) (s.unlisted key e) := by
  have hpending : ∀ r, r ∈ (s.unlisted key e).pending ↔ r ∈ s.pending ∧ r.sender ≠ e :=
    fun r => mem_pending_unlisted hnone
  refine ⟨⟨h.sorted.filter _, ?_, ?_⟩, ⟨?_, ?_, ?_, ?_, ?_, ?_, ?_, h.locking, h.lockingNodup,
    h.received⟩, ⟨h.order, h.tags, h.free, ?_⟩, h.toLog.frame rfl rfl rfl rfl⟩
  · exact h.enabled
  · intro r hr
    rw [show (s.unlisted key e).currentResponse = none from hnone] at hr
    contradiction
  · have hsub : (s.unlisted key e).pending.Sublist s.pending := by
      simp only [pending, unlisted, hnone, Option.toList_none, List.nil_append]
      exact List.filter_sublist
    exact h.senders.sublist (hsub.map _)
  · intro r hr
    obtain ⟨hr, hne⟩ := (hpending r).mp hr
    have hawaits := h.awaits r hr
    unfold Awaits at hawaits ⊢
    split at hawaits
    · exact ⟨fun hin => hawaits.1 (Finset.mem_of_mem_erase hin), hawaits.2⟩
    · exact ⟨Finset.mem_erase_of_ne_of_mem hne hawaits.1, mem_unlisted.mpr ⟨hawaits.2.1, fun _ => hne⟩, hawaits.2.2⟩
  · intro e' received hout htimed hne
    obtain ⟨r, hr, hsender⟩ := h.sleeping e' received hout htimed nofun
    exact ⟨r, (hpending r).mpr ⟨hr, fun heq => hne (by rw [← hsender, heq])⟩, hsender⟩
  · intro key' e' hmem'
    obtain ⟨hlisted, hne⟩ := mem_unlisted.mp hmem'
    refine ⟨(h.waiting key' e' hlisted).1, fun hnot => (h.waiting key' e' hlisted).2 fun hin => ?_⟩
    refine hnot (Finset.mem_erase_of_ne_of_mem ?_ hin)
    rintro rfl
    exact hne (h.once key' key e' hlisted hmem) rfl
  · intro key1 key2 e' h1 h2
    exact h.once key1 key2 e' (mem_unlisted.mp h1).1 (mem_unlisted.mp h2).1
  · intro key'
    by_cases hkey : key' = key
    · subst hkey
      simpa [unlisted] using (h.nodup key').filter _
    · simpa [unlisted, hkey] using h.nodup key'
  · intro e' hin
    obtain ⟨hne, hin⟩ := Finset.mem_erase.mp hin
    obtain ⟨condvar, hlisted⟩ := h.listed e' hin
    exact ⟨condvar, mem_unlisted.mpr ⟨hlisted, fun _ => hne⟩⟩
  · intro e' kind condvar hqueued
    refine ⟨(h.spent e' kind condvar hqueued).1, fun hin => ?_⟩
    obtain ⟨hne, hin⟩ := Finset.mem_erase.mp hin
    exact mem_unlisted.mpr ⟨(h.spent e' kind condvar hqueued).2 hin, fun _ => hne⟩

/-- A waiter's entry is in the set of senders with a timeout if it is among those that wait for a time. -/
theorem Held.timeout_of_pending (h : Held none s) (hmem : e ∈ s.notifyTable key)
    (hr : r ∈ s.pending) (hsender : r.sender = e) :
    e ∈ s.notificationsWithTimeouts ∧ ∃ received timeout, s.outstanding e = some received ∧
      received.msg.request = .waitForCondition key.2 timeout := by
  have hawaits := h.awaits r hr
  unfold Awaits at hawaits
  rw [hsender] at hawaits
  split at hawaits
  · obtain ⟨hnot, received, ms, hout, hreq, -⟩ := hawaits
    obtain ⟨received', timeout, hout', hreq'⟩ := (h.waiting key e hmem).2 hnot
    obtain rfl := Option.some.inj (hout.symm.trans hout')
    rw [hreq] at hreq'
    contradiction
  · obtain ⟨hin, hlisted, hwait⟩ := hawaits
    have hkey : (pid e, r.data) = key := h.once _ _ e hlisted hmem
    rw [← hkey]
    exact ⟨hin, hwait⟩

end BaochipXous.Ticktimer
