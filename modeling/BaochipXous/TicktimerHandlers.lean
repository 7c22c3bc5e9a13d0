import BaochipXous.Ticktimer

/-!
The handlers of the ticktimer server and its interrupt keep the invariant. The entries of a
condition's queue are drained one by one, a waiter that is woken or a stale entry that is passed
over; a handler that stops the alarm starts it again with the earliest request.
-/

namespace BaochipXous.Ticktimer

open Prog Function State

variable {hole : Option Sender} {s : State} {e : Sender} {received : Received} {msg : Message}
  {woken : Nat} {key : Nat × Nat}

theorem Fresh.unlist (h : Fresh msg.sender s) (hheld : Held none s) (hnone : s.currentResponse = none)
    (hmem : e ∈ s.notifyTable key) : Fresh msg.sender (s.unlisted key e) := by
  refine ⟨fun r hr => h.pending r ((mem_pending_unlisted hnone).mp hr).1, ?_, h.mutex⟩
  intro key' hlisted
  refine Finset.mem_erase_of_ne_of_mem ?_ (h.table key' (mem_unlisted.mp hlisted).1)
  intro heq
  rw [heq] at hlisted
  exact hheld.not_mem_unlisted hmem key' hlisted

theorem Current.unlist (h : Current msg woken s) (hheld : Held none s)
    (hnone : s.currentResponse = none) (hmem : e ∈ s.notifyTable key) :
    Current msg woken (s.unlisted key e) :=
  { h with blocked := fun hkind => (h.blocked hkind).imp_right (·.unlist hheld hnone hmem) }

theorem Inv.skip (h : Inv none s) (hnone : s.currentResponse = none) (hmem : e ∈ s.notifyTable key)
    (hfired : ∀ r ∈ s.pending, r.sender ≠ e) : Inv none (s.unlisted key e) := by
  refine (h.unlist hnone hmem).close fun received hout htimed => ?_
  obtain ⟨r, hr, hsender⟩ := h.sleeping e received hout htimed nofun
  exact absurd hsender (hfired r hr)

/-- The message is about the condition of the key and gives this reason. -/
def Wakes (msg : Message) (key : Nat × Nat) (cause : Cause) : Prop :=
  pid msg.sender = key.1 ∧
    (cause = .notified msg ∧ (∃ count, msg.request = .notifyCondition key.2 count) ∨
      cause = .freed msg ∧ msg.request = .freeCondition key.2)

variable {cause : Cause} {condvar timeout : Nat}

theorem Current.answer {value : Nat} (h : Current msg woken s)
    (hout : s.outstanding e = some received) (hne : received.msg ≠ msg) :
    Current msg (woken + if cause = .notified msg then 1 else 0) (s.answered e received value cause) := by
  refine ⟨h.served, ?_, ?_, ?_, ?_⟩
  · intro a ha
    rcases List.mem_append.mp ha with ha | ha
    · exact h.unanswered a ha
    · rw [List.mem_singleton] at ha
      rw [ha]
      exact fun htag => hne (h.alone e received hout htag)
  · exact fun e' received' hout' => h.alone e' received' (answered_some hout').2
  · intro hkind
    obtain ⟨hblocked, hfresh⟩ := h.blocked hkind
    have hsender : msg.sender ≠ e := by
      intro heq
      rw [heq, hout] at hblocked
      exact hne (congrArg Received.msg (Option.some.inj hblocked))
    rw [answered_of_ne hsender]
    exact ⟨hblocked, hfresh.pending, hfresh.table, hfresh.mutex⟩
  · rw [answered, List.countP_append, h.count, List.countP_singleton]
    simp only [decide_eq_true_eq]

theorem removeTimeout_eq : removeTimeout e s = .ok (decide (e ∈ s.notificationsWithTimeouts))
    { s with notificationsWithTimeouts := s.notificationsWithTimeouts.erase e } := rfl

theorem retain_eq : retain e s = .ok (s.sleepHeap.length, (s.sleepHeap.filter (·.sender ≠ e)).length)
    { s with sleepHeap := s.sleepHeap.filter (·.sender ≠ e) } := rfl

def State.popped (s : State) (key : Nat × Nat) (rest : List Sender) : State :=
  { s with notifyTable := update s.notifyTable key rest }

variable {rest : List Sender}

section

variable (h : Held hole s) (htable : s.notifyTable key = e :: rest)

include h htable

theorem Held.unlisted_eq :
    s.unlisted key e = { s.popped key rest with
      notificationsWithTimeouts := s.notificationsWithTimeouts.erase e
      sleepHeap := s.sleepHeap.filter (·.sender ≠ e) } := by
  have hnodup := h.nodup key
  rw [htable] at hnodup
  have hrest : (s.notifyTable key).filter (· ≠ e) = rest := by
    rw [htable, List.filter_cons_of_neg (by simp), List.filter_eq_self]
    exact fun x hx => decide_eq_true (ne_of_mem_of_not_mem hx (List.nodup_cons.mp hnodup).1)
  rw [unlisted, hrest, popped]

theorem Held.retain_popped :
    retain e { s.popped key rest with
      notificationsWithTimeouts := (s.popped key rest).notificationsWithTimeouts.erase e } =
      .ok (s.sleepHeap.length, (s.sleepHeap.filter (·.sender ≠ e)).length) (s.unlisted key e) := by
  rw [h.unlisted_eq htable, retain_eq]
  rfl

theorem Held.unlisted_front : (s.unlisted key e).notifyTable key = rest := by
  rw [h.unlisted_eq htable]
  exact update_self _ _ _

end

theorem Held.length_filter (h : Held hole s) (hnone : s.currentResponse = none) :
    (∀ r ∈ s.pending, r.sender ≠ e) ∧ s.sleepHeap.length = (s.sleepHeap.filter (·.sender ≠ e)).length ∨
      (∃ r ∈ s.pending, r.sender = e) ∧ s.sleepHeap.length = (s.sleepHeap.filter (·.sender ≠ e)).length + 1 := by
  have hsenders := h.senders
  have hpending : s.pending = s.sleepHeap := by simp [pending, hnone]
  rw [hpending] at hsenders ⊢
  have hsplit : s.sleepHeap.length = (s.sleepHeap.filter (·.sender ≠ e)).length +
      (s.sleepHeap.map (·.sender)).count e := by
    rw [List.length_eq_countP_add_countP fun r : TimerRequest => decide (r.sender ≠ e),
      List.countP_eq_length_filter, List.count, List.countP_map]
    congr 1
    exact List.countP_congr fun r _ => by simp
  by_cases hmem : ∃ r ∈ s.sleepHeap, r.sender = e
  · have hone := List.count_eq_one_of_mem hsenders (List.mem_map.mpr hmem)
    exact Or.inr ⟨hmem, by omega⟩
  · have hzero : (s.sleepHeap.map (·.sender)).count e = 0 :=
      List.count_eq_zero.mpr fun hin => hmem (List.mem_map.mp hin)
    exact Or.inl ⟨fun r hr heq => hmem ⟨r, hr, heq⟩, by omega⟩

/-- The alarm is stopped and the message is being handled. -/
structure Draining (msg : Message) (woken : Nat) (s : State) : Prop where
  inv : Inv none s
  none : s.currentResponse = none
  current : Current msg woken s

theorem Draining.skip (h : Draining msg woken s) (hmem : e ∈ s.notifyTable key)
    (hfired : ∀ r ∈ s.pending, r.sender ≠ e) : Draining msg woken (s.unlisted key e) :=
  ⟨h.inv.skip h.none hmem hfired, h.none, h.current.unlist h.inv.toHeld h.none hmem⟩

/-- A waiter that is outstanding is woken. -/
theorem Draining.wake (h : Draining msg woken s) (hmem : e ∈ s.notifyTable key) (hwakes : Wakes msg key cause)
    (hlive : e ∉ s.notificationsWithTimeouts ∨ ∃ r ∈ s.pending, r.sender = e) :
    ∃ received, returnScalar e 0 cause (s.unlisted key e) = .ok true ((s.unlisted key e).answered e received 0 cause) ∧
      Draining msg (woken + if cause = .notified msg then 1 else 0)
        ((s.unlisted key e).answered e received 0 cause) := by
  obtain ⟨received, timeout, hout, hreq⟩ : ∃ received timeout, s.outstanding e = some received ∧
      received.msg.request = .waitForCondition key.2 timeout := by
    rcases hlive with hnot | ⟨r, hr, hsender⟩
    · exact (h.inv.waiting key e hmem).2 hnot
    · exact (h.inv.timeout_of_pending hmem hr hsender).2
  have hcurrent := h.current.unlist h.inv.toHeld h.none hmem
  have hpid : pid received.msg.sender = key.1 := by
    rw [(h.inv.received e received hout).1]
    exact (h.inv.waiting key e hmem).1
  refine ⟨received, returnScalar_eq (s := s.unlisted key e) hout 0 _, ?_, h.none, hcurrent.answer hout fun heq => ?_⟩
  · refine (h.inv.unlist h.none hmem).answer hout ?_ ?_ ⟨fun r hr => ((mem_pending_unlisted h.none).mp hr).2,
      fun key' hlisted => absurd hlisted (h.inv.not_mem_unlisted hmem key'), h.inv.not_locking hout (by simp [hreq])⟩
    · rintro msg' heq
      obtain ⟨-, ⟨hcause, -⟩ | ⟨hcause, -⟩⟩ := hwakes
      · rw [hcause] at heq
        obtain rfl := Cause.notified.inj heq
        exact ⟨hcurrent.served, fun a ha hsame => hcurrent.unanswered a ha (by rw [hsame])⟩
      · rw [hcause] at heq
        contradiction
    · simp only [Right, hreq]
      exact fun _ => ⟨msg, hwakes.1.trans hpid.symm, hwakes.2⟩
  · rw [heq] at hreq
    obtain ⟨-, ⟨-, count, hwake⟩ | ⟨-, hwake⟩⟩ := hwakes <;> rw [hwake] at hreq <;> cases hreq

/-- The entries of the condition are as its end asserts: one with a timeout is in the map just when
the alarm's last answer did not go to its sender. -/
def Clear (key : Nat × Nat) (s : State) : Prop :=
  ∀ e ∈ s.notifyTable key, e ∈ s.notificationsWithTimeouts →
    ((∃ r ∈ s.pending, r.sender = e) ↔ s.lastResponse ≠ e)

theorem Clear.unlist (h : Clear key s) (hnone : s.currentResponse = none) : Clear key (s.unlisted key e) := by
  intro e' hmem hin
  obtain ⟨hmem, hne⟩ := mem_unlisted.mp hmem
  refine Iff.trans ?_ (h e' hmem (Finset.mem_of_mem_erase hin))
  constructor
  · rintro ⟨r, hr, hsender⟩
    exact ⟨r, ((mem_pending_unlisted hnone).mp hr).1, hsender⟩
  · rintro ⟨r, hr, hsender⟩
    exact ⟨r, (mem_pending_unlisted hnone).mpr ⟨hr, hsender ▸ hne rfl⟩, hsender⟩

section

variable (h : Draining msg woken s) (htable : s.notifyTable key = e :: rest)

include h htable

/-- An entry without a timeout is not in the map, so all its places are left at once. -/
theorem Draining.unlisted_of_not_mem (hnot : e ∉ s.notificationsWithTimeouts) :
    s.unlisted key e = { s.popped key rest with
      notificationsWithTimeouts := s.notificationsWithTimeouts.erase e } := by
  have hmem : e ∈ s.notifyTable key := htable ▸ List.mem_cons_self
  have hheap : s.sleepHeap.filter (·.sender ≠ e) = s.sleepHeap := by
    rw [List.filter_eq_self]
    intro r hr
    refine decide_eq_true fun hsender => ?_
    have hpending : r ∈ s.pending := List.mem_append_right _ hr
    exact hnot (h.inv.timeout_of_pending hmem hpending hsender).1
  rw [h.inv.unlisted_eq htable, hheap]
  rfl

/-- An entry with a timeout leaves the map too, where it is unless the timeout has passed. -/
theorem Draining.remove :
    (∃ s1 before after, removeTimeout e (s.popped key rest) = .ok true s1 ∧
      e ∈ s.notificationsWithTimeouts ∧ retain e s1 = .ok (before, after) (s.unlisted key e) ∧
      ((∀ r ∈ s.pending, r.sender ≠ e) ∧ before = after ∨ (∃ r ∈ s.pending, r.sender = e) ∧ before = after + 1)) ∨
    removeTimeout e (s.popped key rest) = .ok false (s.unlisted key e) ∧ e ∉ s.notificationsWithTimeouts := by
  by_cases hin : e ∈ (s.popped key rest).notificationsWithTimeouts
  · exact .inl ⟨_, _, _, by rw [removeTimeout_eq, decide_eq_true hin], hin, h.inv.retain_popped htable,
      h.inv.length_filter h.none⟩
  · refine .inr ⟨?_, hin⟩
    rw [removeTimeout_eq, decide_eq_false hin, h.unlisted_of_not_mem htable hin]
    rfl

theorem hasFired_total :
    Total (hasFired e) (fun fired s' => s' = s.unlisted key e ∧ if fired then ∀ r ∈ s.pending, r.sender ≠ e
      else e ∉ s.notificationsWithTimeouts ∨ ∃ r ∈ s.pending, r.sender = e)
      (fun _ _ => False) (s.popped key rest) := by
  rw [hasFired, total_bind]
  rcases h.remove htable with ⟨s1, before, after, hremove, -, hretain, hlen⟩ | ⟨hremove, hin⟩
  · rw [total_of_ok hremove, if_pos rfl, total_bind, total_of_ok hretain, total_bind, total_assert, total_pure]
    rcases hlen with ⟨hfired, rfl⟩ | ⟨hlive, rfl⟩
    · exact ⟨by simp, rfl, by simpa using hfired⟩
    · exact ⟨by simp, rfl, by simpa using Or.inr hlive⟩
  · rw [total_of_ok hremove, if_neg Bool.false_ne_true, total_pure]
    exact ⟨rfl, Or.inl hin⟩

theorem notifyEntry_total (hwakes : Wakes msg key (.notified msg)) :
    Total (notifyEntry msg e) (fun k s' => Draining msg (woken + k) s' ∧ s'.queue = s.queue ∧
      s'.notifyTable key = rest) (fun _ _ => False) (s.popped key rest) := by
  have hmem : e ∈ s.notifyTable key := htable ▸ List.mem_cons_self
  have hfront := h.inv.unlisted_front htable
  rw [notifyEntry]
  apply (hasFired_total h htable).bind
  rintro fired _ ⟨rfl, hfired⟩
  rw [total_ite]
  constructor
  · intro htrue
    rw [if_pos htrue] at hfired
    exact ⟨h.skip hmem hfired, rfl, hfront⟩
  · intro hfalse
    rw [if_neg hfalse] at hfired
    obtain ⟨received, hreturn, hdraining⟩ := h.wake hmem hwakes hfired
    rw [if_pos rfl] at hdraining
    rw [total_bind, total_of_ok hreturn, total_bind, total_assert, total_pure]
    exact ⟨rfl, hdraining, rfl, hfront⟩

theorem freeEntry_total (hwakes : Wakes msg key (.freed msg)) (hclear : Clear key s) :
    Total (freeEntry msg e) (fun _ s' => (Draining msg woken s' ∧ Clear key s') ∧ s'.queue = s.queue ∧
      s'.notifyTable key = rest) (fun _ _ => False) (s.popped key rest) := by
  have hmem : e ∈ s.notifyTable key := htable ▸ List.mem_cons_self
  have hfront := h.inv.unlisted_front htable
  have hclear' : Clear key (s.unlisted key e) := hclear.unlist h.none
  rw [freeEntry, total_bind]
  rcases h.remove htable with ⟨s1, before, after, hremove, hin, hretain, hlen⟩ | ⟨hremove, hin⟩
  · rw [total_of_ok hremove, if_pos rfl, total_bind, total_of_ok hretain, total_bind, total_assert,
      total_bind, total_gets]
    rcases hlen with ⟨hfired, rfl⟩ | ⟨hlive, rfl⟩
    · have hlast : s.lastResponse = e := by
        by_contra hne
        obtain ⟨r, hr, hsender⟩ := (hclear e hmem hin).mpr hne
        exact hfired r hr hsender
      rw [if_neg (not_not.mpr rfl), total_bind, total_assert, total_pure]
      exact ⟨by simp, decide_eq_true hlast, ⟨h.skip hmem hfired, hclear'⟩, rfl, hfront⟩
    · have hlast : s.lastResponse ≠ e := (hclear e hmem hin).mp hlive
      obtain ⟨received, hreturn, hdraining⟩ := h.wake hmem hwakes (.inr hlive)
      rw [if_pos (Nat.succ_ne_self after), total_bind, total_assert, total_bind, total_of_ok hreturn]
      exact ⟨by simp, decide_eq_true hlast, ⟨hdraining, hclear'⟩, rfl, hfront⟩
  · obtain ⟨received, hreturn, hdraining⟩ := h.wake hmem hwakes (.inl hin)
    rw [total_of_ok hremove, if_neg Bool.false_ne_true, total_bind, total_of_ok hreturn]
    exact ⟨⟨hdraining, hclear'⟩, rfl, hfront⟩

end

theorem drain_total {each : Sender → M Nat} (I : Nat → State → Prop)
    (heach : ∀ s woken e rest, I woken s → s.notifyTable key = e :: rest →
      Total (each e) (fun k s' => I (woken + k) s' ∧ s'.queue = s.queue ∧ s'.notifyTable key = rest)
        (fun _ _ => False) (s.popped key rest))
    (n : Nat) (hI : I woken s) :
    Total (drain key each n) (fun k s' => I (woken + k) s' ∧ s'.queue = s.queue ∧
      s'.notifyTable key = (s.notifyTable key).drop n) (fun _ _ => False) s := by
  induction n generalizing s woken with
  | zero => exact ⟨hI, rfl, rfl⟩
  | succ n ih =>
    rw [drain, total_bind, total_gets]
    cases htable : s.notifyTable key with
    | nil => exact ⟨hI, rfl, htable⟩
    | cons e rest =>
      rw [total_bind, setAwaiting, total_modify]
      apply (heach s woken e rest hI htable).bind
      rintro k s' ⟨hI', hqueue, hrest⟩
      apply (ih hI').bind
      rintro k' s'' ⟨hI'', hqueue', hrest'⟩
      rw [total_pure, ← Nat.add_assoc]
      exact ⟨hI'', hqueue'.trans hqueue, by rw [hrest', hrest, List.drop_succ_cons]⟩

/-- The queue is as it was, and so is the alarm or it was set anew. -/
def Settles (s s' : State) : Prop :=
  s'.queue = s.queue ∧
    (Armed s' ∨ s'.alarmEnabled = s.alarmEnabled ∧ s'.pending = s.pending)

abbrev Handled {α : Type} (m : M α) (s0 s : State) : Prop :=
  Total m (fun _ s' => Inv none s' ∧ Settles s0 s') (fun _ _ => False) s

theorem Current.realarm {s' : State} (h : Current msg woken s) (hpending : s'.pending = s.pending)
    (hrest : Realarmed s s') : Current msg woken s' := by
  have hfresh (hf : Fresh msg.sender s) : Fresh msg.sender s' := by
    refine ⟨by rw [hpending]; exact hf.pending, ?_, ?_⟩ <;> rw [hrest]
    · exact hf.table
    · exact hf.mutex
  rw [hrest] at hfresh ⊢
  exact { h with blocked := fun hkind => (h.blocked hkind).imp_right hfresh }

theorem started_queue : s.started.queue = s.queue := by rw [realarmed_started]

/-- The end of a handler that has stopped the alarm: it is started and the message answered. -/
theorem startSleep_reply_total (value : Nat) {s0 : State} (h : Draining msg woken s)
    (hqueue : s.queue = s0.queue) (hreplies : Replies msg woken value) (hlent : msg.kind ≠ .lend) :
    Handled (do
      startSleep
      reply msg value) s0 s := by
  rw [Handled, total_bind, total_of_ok (startSleep_eq (h.inv.disabled h.none))]
  apply (reply_total (h.inv.started h.none) (h.current.realarm (started_pending h.none) realarmed_started)
    hreplies hlent).imp
  rintro _ s' ⟨hinv, hrest⟩
  refine ⟨hinv, ?_, Or.inl ?_⟩
  · rw [hrest]
    exact started_queue.trans hqueue
  · have harmed : Armed s.started := started_armed h.none
    rwa [hrest]

theorem notifyCondition_total {count : Nat} (h : Inv none s) (hcurrent : Current msg 0 s)
    (hreq : msg.request = .notifyCondition condvar count) (hlent : msg.kind ≠ .lend) :
    Handled (notifyCondition msg condvar count) s s := by
  rw [Handled, notifyCondition, total_bind, total_gets, total_bind, total_of_ok (stopSleep_eq h.toAlarm), total_bind]
  have hdraining : Draining msg 0 s.stopped := ⟨h.stopped, rfl, hcurrent.realarm rfl rfl⟩
  have hwakes : Wakes msg (pid msg.sender, condvar) (.notified msg) :=
    ⟨rfl, Or.inl ⟨rfl, count, hreq⟩⟩
  apply (drain_total (Draining msg) (fun s woken e rest hI htable =>
    notifyEntry_total hI htable hwakes) _ hdraining).imp
  rintro k s' ⟨hdrained, hqueue, -⟩
  rw [Nat.zero_add] at hdrained
  refine startSleep_reply_total k hdrained hqueue ?_ hlent
  rw [Replies, hreq]

theorem freeCondition_total (h : Inv none s) (hcurrent : Current msg 0 s)
    (hreq : msg.request = .freeCondition condvar) (hlent : msg.kind ≠ .lend)
    (hclear : Clear (pid msg.sender, condvar) s) :
    Handled (freeCondition msg condvar) s s := by
  rw [Handled, freeCondition, total_bind, total_gets, total_bind, total_of_ok (stopSleep_eq h.toAlarm), total_bind]
  have hdraining : Draining msg 0 s.stopped := ⟨h.stopped, rfl, hcurrent.realarm rfl rfl⟩
  have hwakes : Wakes msg (pid msg.sender, condvar) (.freed msg) := ⟨rfl, Or.inr ⟨rfl, hreq⟩⟩
  have hinitial : Draining msg 0 s.stopped ∧ Clear (pid msg.sender, condvar) s.stopped :=
    ⟨hdraining, hclear⟩
  apply (@drain_total s.stopped 0 _ _ (fun _ s => Draining msg 0 s ∧ Clear (pid msg.sender, condvar) s)
    (fun s woken e rest hI htable => freeEntry_total hI.1 htable hwakes hI.2) _ hinitial).imp
  rintro k s' ⟨⟨hdrained, -⟩, hqueue, hempty⟩
  have hnil : s'.notifyTable (pid msg.sender, condvar) = [] := by
    rw [hempty]
    exact List.drop_length
  have hsame : ({ s' with notifyTable := update s'.notifyTable (pid msg.sender, condvar) [] } : State) = s' := by
    rw [← hnil, update_eq_self]
  rw [total_bind, setAwaiting, total_modify, hsame, total_bind, total_when]
  have hreplies : Replies msg 0 11 := by
    rw [Replies, hreq]
    trivial
  have hend := @startSleep_reply_total s' msg 0 11 s hdrained hqueue hreplies hlent
  exact ⟨fun _ => hend, fun _ => hend⟩

theorem Settles.of_reply {s' : State} (h : s' = { s with
    outstanding := s'.outstanding
    answers := s'.answers }) : Settles s s' := by
  rw [h]
  exact ⟨rfl, Or.inr ⟨rfl, rfl⟩⟩

theorem reply_settles {value : Nat} (h : Inv none s) (hcurrent : Current msg woken s)
    (hreplies : Replies msg woken value) (hlent : msg.kind ≠ .lend) :
    Handled (reply msg value) s s :=
  (reply_total h hcurrent hreplies hlent).imp fun _ _ hs => ⟨hs.1, .of_reply hs.2⟩

theorem freeExpiry_spec (heap : List TimerRequest) (fuel msec : Nat)
    (hfuel : (heap.filter (msec ≤ ·.msec)).length ≤ fuel) :
    msec ≤ freeExpiry heap fuel msec ∧ ∀ x ∈ heap, x.msec ≠ freeExpiry heap fuel msec := by
  induction fuel generalizing msec with
  | zero =>
    refine ⟨le_rfl, fun x hx heq => ?_⟩
    have hmem : x ∈ heap.filter (msec ≤ ·.msec) :=
      List.mem_filter.mpr ⟨hx, decide_eq_true (show msec ≤ x.msec from heq.ge)⟩
    rw [List.eq_nil_of_length_eq_zero (Nat.le_zero.mp hfuel)] at hmem
    contradiction
  | succ fuel ih =>
    unfold freeExpiry
    by_cases hany : heap.any (·.msec = msec) = true
    · rw [if_pos hany]
      obtain ⟨x, hx, hmsec⟩ := List.any_eq_true.mp hany
      -- one key fewer is left to pass
      have hless : (heap.filter (msec + 1 ≤ ·.msec)).length < (heap.filter (msec ≤ ·.msec)).length := by
        have hsub : heap.filter (msec + 1 ≤ ·.msec) = (heap.filter (msec ≤ ·.msec)).filter (msec + 1 ≤ ·.msec) := by
          rw [List.filter_filter]
          refine List.filter_congr fun y _ => ?_
          rw [← Bool.decide_and, decide_eq_decide]
          omega
        have heq : x.msec = msec := of_decide_eq_true hmsec
        rw [hsub, List.length_filter_lt_length_iff_exists]
        exact ⟨x, List.mem_filter.mpr ⟨hx, decide_eq_true heq.ge⟩, by simp [heq]⟩
      obtain ⟨hle, hfree⟩ := ih (msec + 1) (by omega)
      exact ⟨by omega, hfree⟩
    · rw [if_neg hany]
      refine ⟨le_rfl, fun x hx heq => hany (List.any_eq_true.mpr ⟨x, hx, decide_eq_true heq⟩)⟩

variable {r : TimerRequest}

theorem sorted_orderedInsert {heap : List TimerRequest} (hsorted : heap.Pairwise (·.msec < ·.msec))
    (hfree : ∀ x ∈ heap, x.msec ≠ r.msec) :
    (heap.orderedInsert (fun a b => a.msec ≤ b.msec) r).Pairwise (·.msec < ·.msec) := by
  induction heap with
  | nil => exact List.pairwise_singleton _ _
  | cons x rest ih =>
    obtain ⟨hlt, hrest⟩ := List.pairwise_cons.mp hsorted
    have hne := hfree x List.mem_cons_self
    rw [List.orderedInsert_cons]
    split
    · rename_i hle
      refine List.pairwise_cons.mpr ⟨fun y hy => ?_, hsorted⟩
      have hrx : r.msec < x.msec := lt_of_le_of_ne hle hne.symm
      rcases List.mem_cons.mp hy with rfl | hy
      · exact hrx
      · exact hrx.trans (hlt y hy)
    · rename_i hle
      refine List.pairwise_cons.mpr ⟨fun y hy => ?_, ih hrest fun y hy =>
        hfree y (List.mem_cons_of_mem _ hy)⟩
      rcases (List.mem_orderedInsert _).mp hy with rfl | hy
      · exact Nat.lt_of_not_le hle
      · exact hlt y hy

def State.inserted (s : State) (r : TimerRequest) : State :=
  { s with sleepHeap := s.sleepHeap.orderedInsert (fun a b => a.msec ≤ b.msec) r }

theorem mem_pending_inserted (hnone : s.currentResponse = none) {x : TimerRequest} :
    x ∈ (s.inserted r).pending ↔ x = r ∨ x ∈ s.pending := by
  simp [pending, inserted, hnone, List.mem_orderedInsert]

theorem Inv.insert (h : Inv (some r.sender) s) (hnone : s.currentResponse = none)
    (hfree : ∀ x ∈ s.sleepHeap, x.msec ≠ r.msec) (hsender : ∀ x ∈ s.pending, x.sender ≠ r.sender)
    (hawaits : Awaits s r) : Inv none (s.inserted r) := by
  refine ⟨⟨sorted_orderedInsert h.sorted hfree, h.enabled, ?_⟩,
    ⟨?_, ?_, ?_, h.waiting, h.once, h.nodup, h.listed, h.locking, h.lockingNodup, h.received⟩,
    { h.toQueues with }, h.toLog.frame rfl rfl rfl rfl⟩
  · intro x hx
    rw [show (s.inserted r).currentResponse = none from hnone] at hx
    contradiction
  · have hperm : (s.inserted r).pending.Perm (r :: s.pending) := by
      simp only [pending, inserted, hnone, Option.toList_none, List.nil_append]
      exact List.perm_orderedInsert _ _ _
    rw [(hperm.map _).nodup_iff]
    refine List.nodup_cons.mpr ⟨fun hmem => ?_, h.senders⟩
    obtain ⟨x, hx, heq⟩ := List.mem_map.mp hmem
    exact hsender x hx heq
  · intro x hx
    rcases (mem_pending_inserted hnone).mp hx with rfl | hx
    · exact hawaits
    · exact h.awaits x hx
  · intro e received hout htimed _
    by_cases heq : e = r.sender
    · exact ⟨r, (mem_pending_inserted hnone).mpr (Or.inl rfl), heq.symm⟩
    · obtain ⟨x, hx, hxe⟩ := h.sleeping e received hout htimed fun hsome =>
        heq (Option.some.inj hsome)
      exact ⟨x, (mem_pending_inserted hnone).mpr (Or.inr hx), hxe⟩

theorem recalculateSleepOffline_eq (request : TimerRequest) :
    ∃ msec, request.msec + s.time ≤ msec ∧ (∀ x ∈ s.sleepHeap, x.msec ≠ msec) ∧
      recalculateSleepOffline (some request) s = .ok () (s.inserted { request with msec := msec }) := by
  obtain ⟨hle, hfree⟩ := freeExpiry_spec s.sleepHeap s.sleepHeap.length (request.msec + s.time)
    (List.length_filter_le _ _)
  refine ⟨_, hle, hfree, ?_⟩
  have hall : s.sleepHeap.all (fun x => decide (x.msec ≠
      freeExpiry s.sleepHeap s.sleepHeap.length (request.msec + s.time))) = true :=
    List.all_eq_true.mpr fun x hx => decide_eq_true (hfree x hx)
  simp only [recalculateSleepOffline, bind_apply, gets_apply, insertRequest, hall, Prog.assert, if_true,
    pure_apply, modify_apply, inserted]

theorem sleepMs_total {ms : Nat} (h : Inv (some msg.sender) s) (hcurrent : Current msg woken s)
    (hkind : msg.kind = .blockingScalar) (hreq : msg.request = .sleepMs ms)
    (hlisted : ∀ condvar, msg.sender ∉ s.notifyTable (pid msg.sender, condvar)) :
    Handled (recalculateSleep (some ⟨ms, msg.sender, .sleep, 0⟩)) s s := by
  obtain ⟨hout, hfresh⟩ := hcurrent.blocked hkind
  obtain ⟨msec, hle, hfree, hoffline⟩ :=
    @recalculateSleepOffline_eq s.stopped ⟨ms, msg.sender, .sleep, 0⟩
  rw [Handled, recalculateSleep, total_bind, total_of_ok (stopSleep_eq h.toAlarm), total_bind, total_of_ok hoffline]
  have hawaits : Awaits s.stopped ⟨msec, msg.sender, .sleep, 0⟩ := by
    refine ⟨fun hin => ?_, ⟨msg, s.time⟩, ms, hout, hreq, ?_⟩
    · obtain ⟨condvar, hmem⟩ := h.listed _ hin
      exact hlisted condvar hmem
    · rwa [Nat.add_comm]
  have hinserted : Inv none (s.stopped.inserted ⟨msec, msg.sender, .sleep, 0⟩) :=
    h.stopped.insert rfl hfree hfresh.pending hawaits
  rw [total_of_ok (startSleep_eq rfl)]
  exact ⟨hinserted.started rfl, started_queue, Or.inl (started_armed rfl)⟩

/-- The state with a sender more in the queue of a condition, `timeouts` being the senders with one. -/
def State.listing (s : State) (key : Nat × Nat) (e : Sender) (timeouts : Finset Sender) : State :=
  { s with
    notifyTable := update s.notifyTable key (s.notifyTable key ++ [e])
    notificationsWithTimeouts := timeouts }

variable {table : Nat × Nat → List Sender} {key' : Nat × Nat} {e' : Sender}

theorem mem_update_append : e' ∈ update table key (table key ++ [e]) key' ↔ e' ∈ table key' ∨ key' = key ∧ e' = e := by
  by_cases hkey : key' = key
  · subst hkey
    simp
  · simp [hkey]

theorem nodup_update_append (h : ∀ key, (table key).Nodup) (hnot : e ∉ table key) :
    (update table key (table key ++ [e]) key').Nodup := by
  by_cases hkey : key' = key
  · rw [hkey, update_self]
    refine List.nodup_append.mpr ⟨h key, List.nodup_singleton _, fun x hx y hy heq => hnot ?_⟩
    rwa [← List.mem_singleton.mp hy, ← heq]
  · rw [update_of_ne hkey]
    exact h key'

theorem Inv.list (h : Inv (some e) s) (timeouts : Finset Sender)
    (hpending : ∀ r ∈ s.pending, r.sender ≠ e) (hout : s.outstanding e = some received)
    (hreq : received.msg.request = .waitForCondition condvar timeout)
    (hlisted : ∀ key, e ∉ s.notifyTable key)
    (htimeouts : ∀ x, x ∈ timeouts ↔ x ∈ s.notificationsWithTimeouts ∨ timeout ≠ 0 ∧ x = e) :
    Inv (some e) (s.listing (pid e, condvar) e timeouts) := by
  have hother : ∀ x, x ≠ e → (x ∈ timeouts ↔ x ∈ s.notificationsWithTimeouts) := by
    intro x hx
    rw [htimeouts]
    simp [hx]
  refine ⟨{ h.toAlarm with }, ⟨h.senders, ?_, h.sleeping, ?_, ?_, ?_, ?_, h.locking,
    h.lockingNodup, h.received⟩, ⟨h.order, h.tags, h.free, ?_⟩, h.toLog.frame rfl rfl rfl rfl⟩
  · intro r hr
    have hawaits := h.awaits r hr
    unfold Awaits at hawaits ⊢
    split at hawaits
    · exact ⟨fun hin => hawaits.1 ((hother _ (hpending r hr)).mp hin), hawaits.2⟩
    · exact ⟨(hother _ (hpending r hr)).mpr hawaits.1, mem_update_append.mpr (Or.inl hawaits.2.1), hawaits.2.2⟩
  · intro key x hx
    rcases mem_update_append.mp hx with hx | ⟨rfl, rfl⟩
    · refine ⟨(h.waiting key x hx).1, fun hnot => (h.waiting key x hx).2 fun hin => ?_⟩
      exact hnot ((htimeouts x).mpr (Or.inl hin))
    · exact ⟨rfl, fun _ => ⟨received, timeout, hout, hreq⟩⟩
  · intro key1 key2 x h1 h2
    rcases mem_update_append.mp h1 with h1 | ⟨hkey1, rfl⟩ <;> rcases mem_update_append.mp h2 with h2 | ⟨hkey2, hx2⟩
    · exact h.once key1 key2 x h1 h2
    · rw [hx2] at h1
      exact absurd h1 (hlisted key1)
    · exact absurd h2 (hlisted key2)
    · rw [hkey1, hkey2]
  · exact fun key => nodup_update_append h.nodup (hlisted _)
  · intro x hx
    rcases (htimeouts x).mp hx with hx | ⟨-, rfl⟩
    · obtain ⟨condvar', hmem⟩ := h.listed x hx
      exact ⟨condvar', mem_update_append.mpr (Or.inl hmem)⟩
    · exact ⟨condvar, mem_update_append.mpr (Or.inr ⟨rfl, rfl⟩)⟩
  · intro x kind condvar' hqueued
    obtain ⟨hnone, hmem⟩ := h.spent x kind condvar' hqueued
    refine ⟨hnone, fun hin => mem_update_append.mpr (Or.inl (hmem ((hother x ?_).mp hin)))⟩
    rintro rfl
    rw [hout] at hnone
    contradiction

theorem waitForCondition_total (h : Inv (some msg.sender) s) (hcurrent : Current msg woken s)
    (hkind : msg.kind = .blockingScalar) (hreq : msg.request = .waitForCondition condvar timeout)
    (hlisted : ∀ condvar, msg.sender ∉ s.notifyTable (pid msg.sender, condvar)) :
    Handled (waitForCondition msg condvar timeout) s s := by
  obtain ⟨hout, hfresh⟩ := hcurrent.blocked hkind
  have hnowhere : ∀ key, msg.sender ∉ s.notifyTable key := by
    intro key hmem
    have hkey : (pid msg.sender, key.2) = key := Prod.ext (h.waiting key _ hmem).1 rfl
    exact hlisted key.2 (hkey ▸ hmem)
  rw [Handled, waitForCondition, total_bind, total_when]
  constructor
  · intro htimed
    have hne : timeout ≠ 0 := of_decide_eq_true htimed
    -- the alarm is stopped, the request inserted and the sender listed before it is started again
    obtain ⟨msec, hle, hfree, hoffline⟩ := @recalculateSleepOffline_eq { s.stopped with
        notificationsWithTimeouts := insert msg.sender s.stopped.notificationsWithTimeouts }
      ⟨timeout, msg.sender, .timeout, condvar⟩
    rw [total_bind, total_of_ok (stopSleep_eq h.toAlarm), total_bind, total_modify,
      total_of_ok hoffline, total_bind, total_gets, total_bind, setAwaiting, total_modify, total_when]
    have hstopped : Inv (some msg.sender) s.stopped := h.stopped
    have hlist := hstopped.list (insert msg.sender s.notificationsWithTimeouts) hfresh.pending hout hreq
      hnowhere fun x => by
        rw [Finset.mem_insert, or_comm, and_iff_right hne]
        rfl
    have hawaits : Awaits (s.stopped.listing (pid msg.sender, condvar) msg.sender
        (insert msg.sender s.notificationsWithTimeouts)) ⟨msec, msg.sender, .timeout, condvar⟩ :=
      ⟨Finset.mem_insert_self _ _, mem_update_append.mpr (Or.inr ⟨rfl, rfl⟩), _, timeout, hout, hreq⟩
    have hinserted := hlist.insert rfl hfree hfresh.pending hawaits
    refine ⟨fun _ => ?_, fun hfalse => absurd htimed (by rw [hfalse]; nofun)⟩
    rw [total_of_ok (startSleep_eq rfl)]
    exact ⟨hinserted.started rfl, started_queue, Or.inl (started_armed rfl)⟩
  · intro htimed
    have hzero : timeout = 0 := by simpa using htimed
    rw [total_bind, total_gets, total_bind, setAwaiting, total_modify, total_when]
    have hlist := h.list s.notificationsWithTimeouts hfresh.pending hout hreq hnowhere (by simp [hzero])
    refine ⟨fun htrue => absurd htimed (by rw [htrue]; nofun), fun _ => ⟨hlist.close ?_, rfl,
      Or.inr ⟨rfl, rfl⟩⟩⟩
    intro received hout' htimed'
    obtain rfl := Option.some.inj (hout.symm.trans hout')
    rw [hreq, hzero] at htimed'
    exact absurd rfl htimed'

def State.rehashed (s : State) (hash : Nat × Nat → List Sender) (ready : Finset (Nat × Nat)) : State :=
  { s with mutexHash := hash, mutexReadyTable := ready }

variable {hash : Nat × Nat → List Sender}

theorem Inv.rehash (h : Inv hole s) (ready : Finset (Nat × Nat))
    (hlocking : ∀ key, ∀ e ∈ hash key, pid e = key.1 ∧
      ∃ received, s.outstanding e = some received ∧ received.msg.request = .lockMutex key.2)
    (hnodup : ∀ key, (hash key).Nodup) : Inv hole (s.rehashed hash ready) :=
  ⟨{ h.toAlarm with }, { h.toHeld with locking := hlocking, lockingNodup := hnodup }, { h.toQueues with },
    h.toLog.frame rfl rfl rfl rfl⟩

theorem Current.rehash (h : Current msg woken s) (ready : Finset (Nat × Nat))
    (hsub : ∀ key, hash key ⊆ s.mutexHash key) :
    Current msg woken (s.rehashed hash ready) :=
  { h with blocked := fun hkind => (h.blocked hkind).imp_right fun hf =>
      { hf with mutex := fun key hmem => hf.mutex key (hsub key hmem) } }

theorem Inv.rehash_sublist (h : Inv hole s) (ready : Finset (Nat × Nat))
    (hsub : ∀ key, (hash key).Sublist (s.mutexHash key)) :
    Inv hole (s.rehashed hash ready) :=
  h.rehash ready (fun key e hmem => h.locking key e ((hsub key).subset hmem))
    fun key => (h.lockingNodup key).sublist (hsub key)

theorem update_sublist (hrest : rest.Sublist (hash key)) (key' : Nat × Nat) :
    (update hash key rest key').Sublist (hash key') := by
  by_cases hkey : key' = key
  · rwa [hkey, update_self]
  · rw [update_of_ne hkey]

variable {mutexId : Nat}

theorem lockMutex_total (h : Inv none s) (hcurrent : Current msg woken s)
    (hreq : msg.request = .lockMutex mutexId) (hlent : msg.kind ≠ .lend)
    (hkind : msg.kind = .blockingScalar ∨ (pid msg.sender, mutexId) ∈ s.mutexReadyTable) :
    Handled (lockMutex msg mutexId) s s := by
  rw [Handled, lockMutex, total_bind, total_gets, total_ite]
  constructor
  · intro _
    rw [total_bind, total_modify]
    have hreplies : Replies msg woken 0 := by
      rw [Replies, hreq]
      trivial
    exact reply_settles (h.rehash_sublist (s.mutexReadyTable.erase (pid msg.sender, mutexId))
      fun key => List.Sublist.refl _) (hcurrent.rehash _ fun key => List.Subset.refl _) hreplies hlent
  · intro hready
    obtain ⟨hout, hfresh⟩ := hcurrent.blocked (hkind.resolve_right hready)
    rw [total_modify]
    refine ⟨h.rehash s.mutexReadyTable ?_ fun key => nodup_update_append h.lockingNodup (hfresh.mutex _),
      rfl, Or.inr ⟨rfl, rfl⟩⟩
    intro key e hmem
    rcases mem_update_append.mp hmem with hmem | ⟨rfl, rfl⟩
    · exact h.locking key e hmem
    · exact ⟨rfl, _, hout, hreq⟩

theorem Inv.fresh_unlocked (h : Inv none s) (hhash : s.mutexHash key = e :: rest) (ready : Finset (Nat × Nat)) :
    Fresh e (s.rehashed (update s.mutexHash key rest) ready) := by
  have hmem : e ∈ s.mutexHash key := hhash ▸ List.mem_cons_self
  obtain ⟨hpid, received, hout, hreq⟩ := h.locking key e hmem
  refine ⟨?_, ?_, ?_⟩
  · rintro r hr rfl
    obtain ⟨received', hout', hother⟩ := h.toHeld.outstanding_of_pending hr
    exact h.not_locking hout' hother key hmem
  · intro key' hlisted
    by_contra hnot
    obtain ⟨received', timeout, hout', hreq'⟩ := (h.waiting key' e hlisted).2 hnot
    exact h.not_locking hout' (by rw [hreq']; nofun) key hmem
  · intro key' hlocked
    by_cases hkey : key' = key
    · rw [hkey] at hlocked
      have hnodup := h.lockingNodup key
      rw [hhash] at hnodup
      rw [show (s.rehashed (update s.mutexHash key rest) ready).mutexHash key = rest from
        update_self _ _ _] at hlocked
      exact (List.nodup_cons.mp hnodup).1 hlocked
    · rw [show (s.rehashed (update s.mutexHash key rest) ready).mutexHash key' = s.mutexHash key'
        from update_of_ne hkey _ _] at hlocked
      obtain ⟨hpid', received', hout', hreq'⟩ := h.locking key' e hlocked
      obtain rfl := Option.some.inj (hout.symm.trans hout')
      rw [hreq] at hreq'
      exact hkey (Prod.ext (hpid'.symm.trans hpid) (Request.lockMutex.inj hreq').symm)

theorem unlockMutex_total (h : Inv none s) (hcurrent : Current msg woken s)
    (hreq : msg.request = .unlockMutex mutexId) (hlent : msg.kind ≠ .lend) :
    Handled (unlockMutex msg mutexId) s s := by
  have hreplies : ∀ woken value, Replies msg woken value := by
    intro woken value
    rw [Replies, hreq]
    trivial
  rw [Handled, unlockMutex, total_bind, total_gets]
  split
  · rename_i e rest hhash
    have hmem : e ∈ s.mutexHash (pid msg.sender, mutexId) := hhash ▸ List.mem_cons_self
    obtain ⟨-, received, hout, hlock⟩ := h.locking _ e hmem
    have hrest : rest.Sublist (s.mutexHash (pid msg.sender, mutexId)) :=
      hhash ▸ List.sublist_cons_self e rest
    have hinv := h.rehash_sublist s.mutexReadyTable (update_sublist hrest)
    have hcurrent' := hcurrent.rehash s.mutexReadyTable fun key => (update_sublist hrest key).subset
    have hout' : (s.rehashed (update s.mutexHash (pid msg.sender, mutexId) rest)
        s.mutexReadyTable).outstanding e = some received := hout
    have hanswered : Inv none ((s.rehashed (update s.mutexHash (pid msg.sender, mutexId) rest)
        s.mutexReadyTable).answered e received 0 .unlocked) :=
      hinv.weaken.answer hout' nofun (by simp only [Right, hlock])
        (h.fresh_unlocked hhash s.mutexReadyTable)
    have hne : received.msg ≠ msg := by
      intro heq
      rw [heq, hreq] at hlock
      contradiction
    rw [total_bind, total_modify, total_bind]
    refine (total_of_ok (returnScalar_eq hout' 0 .unlocked)).mpr ?_
    rw [total_bind, total_assert]
    exact ⟨rfl, reply_settles hanswered (hcurrent'.answer hout' hne) (hreplies _ _) hlent⟩
  · rw [total_bind, total_modify]
    exact reply_settles (h.rehash_sublist (insert (pid msg.sender, mutexId) s.mutexReadyTable)
      fun key => List.Sublist.refl _) (hcurrent.rehash _ fun key => List.Subset.refl _) (hreplies _ 0) hlent

theorem freeMutex_total (h : Inv none s) (hcurrent : Current msg woken s)
    (hreq : msg.request = .freeMutex mutexId) (hlent : msg.kind ≠ .lend) :
    Handled (freeMutex msg mutexId) s s := by
  have hempty := update_sublist (List.nil_sublist (s.mutexHash (pid msg.sender, mutexId)))
  rw [Handled, freeMutex, total_bind, total_modify]
  refine reply_settles (h.rehash_sublist (s.mutexReadyTable.erase (pid msg.sender, mutexId)) hempty)
    (hcurrent.rehash _ fun key => (hempty key).subset) ?_ hlent
  rw [Replies, hreq]
  trivial

end BaochipXous.Ticktimer
