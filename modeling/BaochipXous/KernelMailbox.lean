import BaochipXous.KernelServer
import BaochipXous.LibRely

/-!
What a server queue is for: a first-in first-out list of accepted messages, and reply tokens under
the indices that the server was given. The generations of the waiting messages are consecutive and
at most 128, so a generation names one slot however often the counters wrap.
-/

namespace BaochipXous.Kernel

open QueuedMessage

section

/-- What a reply token says about the waiting client. -/
inductive ReplyToken where
  | memory (pid : PID) (tid : TID) (serverAddr clientAddr len : Nat)
  | forget (pid : PID) (tid : TID) (serverAddr clientAddr len : Nat)
  | scalar (pid : PID) (tid : TID) (returnAddress : Nat)

def QueuedMessage.token : QueuedMessage → Option ReplyToken
  | waitingReturnMemory pid tid _ serverAddr clientAddr len =>
    some (.memory pid tid serverAddr clientAddr len)
  | waitingForget pid tid _ serverAddr clientAddr len =>
    some (.forget pid tid serverAddr clientAddr len)
  | waitingReturnScalar pid tid _ returnAddress => some (.scalar pid tid returnAddress)
  | _ => none

variable (pid : PID)

def ReplyToken.ofMessage (tid : TID) (message : Message)
    (address : Option MemoryAddress) : ReplyToken :=
  match message with
  | .scalar _ | .blockingScalar _ => .scalar pid tid (NonZero.orZero address)
  | .move msg => .forget pid tid msg.buf.asPtr (NonZero.orZero address) msg.buf.len
  | .mutableBorrow msg | .borrow msg =>
    .memory pid tid msg.buf.asPtr (NonZero.orZero address) msg.buf.len

namespace ReplyToken

def client : ReplyToken → PID × TID
  | memory pid tid .. | forget pid tid .. | scalar pid tid _ => (pid, tid)

/-- The memory of a token has an address in the server and a length. -/
def Sized : ReplyToken → Prop
  | memory _ _ serverAddr _ len | forget _ _ serverAddr _ len => 0 < serverAddr ∧ 0 < len
  | scalar .. => True

/-- What taking the token tells the kernel to do. -/
def waiting : ReplyToken → Option WaitingMessage
  | memory pid tid serverAddr clientAddr len =>
    match NonZero.new serverAddr, NonZero.new clientAddr, NonZero.new len with
    | some serverAddr, some clientAddr, some len =>
      some (.borrowedMemory pid tid serverAddr clientAddr len)
    | _, _, _ => none
  | forget _ _ serverAddr _ len => (MemoryRange.new serverAddr len).toOption.map .forgetMemory
  | scalar pid tid _ => some (.scalarMessage pid tid)

theorem sized_ofMessage (tid : TID) (message : Message)
    (address : Option MemoryAddress) : (ofMessage pid tid message address).Sized := by
  cases message with
  | scalar | blockingScalar => trivial
  | move msg | mutableBorrow msg | borrow msg => exact ⟨msg.buf.addr.pos, msg.buf.size.pos⟩

end ReplyToken

/-- A message that the queue accepted. -/
structure Accepted where
  pid : PID
  tid : TID
  message : Message
  address : Option MemoryAddress
  /-- The sender terminated while the message was waiting. -/
  terminated : Bool := false

variable (a : Accepted)

namespace Accepted

def entry (generation : UInt8) : QueuedMessage :=
  let queued := ofMessage a.pid a.tid generation a.message a.address
  if a.terminated then queued.discardFor a.pid else queued

/-- The message as the server receives it: nobody waits for the answer to a terminated scalar. -/
def body : Message :=
  match a.message, a.terminated with
  | .blockingScalar msg, true => .scalar msg
  | message, _ => message

/-- The token left behind on delivery. The return address of a queued scalar is not kept. -/
def reply : Option ReplyToken :=
  match a.body with
  | .scalar _ | .move _ => none
  | .blockingScalar _ => some (.scalar a.pid a.tid 0)
  | .mutableBorrow _ | .borrow _ => some (.ofMessage a.pid a.tid a.message a.address)

theorem sized_reply {a : Accepted} {t : ReplyToken} (h : a.reply = some t) : t.Sized := by
  unfold reply at h
  split at h
  · cases h
  · cases h
  · cases h
    trivial
  · cases h
    exact ReplyToken.sized_ofMessage ..
  · cases h
    exact ReplyToken.sized_ofMessage ..

/-- The message after process `pid` terminated. -/
def discardFor : Accepted :=
  if a.pid = pid then { a with terminated := true } else a

end Accepted

/-- The queue as its users see it. -/
structure Mailbox where
  pending : List Accepted
  tokens : Nat → Option ReplyToken

variable (m : Mailbox)

namespace Mailbox

def empty : Mailbox := ⟨[], fun _ => none⟩

def accept (a : Accepted) : Mailbox := { m with pending := m.pending ++ [a] }

/-- Hand out index `i` for the token, or record that it is free. -/
def setToken (i : Nat) (t : Option ReplyToken) : Mailbox :=
  { m with tokens := Function.update m.tokens i t }

def deliver (i : Nat) : Mailbox :=
  match m.pending with
  | [] => m
  | a :: rest => { pending := rest, tokens := Function.update m.tokens i a.reply }

def discard (pid : PID) : Mailbox :=
  { m with pending := m.pending.map (Accepted.discardFor pid) }

end Mailbox

theorem QueuedMessage.token_eq_none_of_generation {e : QueuedMessage} (h : e.generation ≠ none) : e.token = none := by
  cases e <;> simp_all [generation, token]

@[simp] theorem QueuedMessage.generation_discardFor (e : QueuedMessage) :
    (e.discardFor pid).generation = e.generation := by
  cases e <;> simp only [discardFor] <;> split_ifs <;> rfl

@[simp] theorem QueuedMessage.token_discardFor (e : QueuedMessage) : (e.discardFor pid).token = e.token := by
  cases e <;> simp only [discardFor] <;> split_ifs <;> rfl

@[simp] theorem QueuedMessage.generation_ofResponse (tid : TID) (message : Message)
    (address : Option MemoryAddress) : (ofResponse pid tid message address).generation = none := by
  cases message <;> rfl

theorem QueuedMessage.token_ofResponse {tid : TID} (htid : tid < 256)
    (message : Message) (address : Option MemoryAddress) :
    (ofResponse pid tid message address).token = some (ReplyToken.ofMessage pid tid message address) := by
  cases message <;> simp [ofResponse, token, ReplyToken.ofMessage, Nat.mod_eq_of_lt htid]

namespace Accepted

@[simp] theorem generation_entry (g : UInt8) : (a.entry g).generation = some g := by
  have h : (ofMessage a.pid a.tid g a.message a.address).generation = some g := by
    cases a.message <;> rfl
  unfold entry
  split_ifs
  · rw [generation_discardFor, h]
  · exact h

@[simp] theorem token_entry (g : UInt8) : (a.entry g).token = none :=
  token_eq_none_of_generation (by simp)

theorem discardFor_entry (pid : PID) (g : UInt8) :
    (a.entry g).discardFor pid = (a.discardFor pid).entry g := by
  obtain ⟨p, tid, message, address, terminated⟩ := a
  by_cases hp : p = pid <;> cases message <;> cases terminated <;>
    simp [entry, discardFor, QueuedMessage.ofMessage, QueuedMessage.discardFor, hp]

theorem delivery_entry {a : Accepted} (htid : a.tid < 256) (g : UInt8) (sidx i : Nat) :
    ∃ response, (a.entry g).delivery sidx i =
        some ({ sender := SenderID.toUsize ⟨sidx, i, some a.pid⟩, body := a.body }, response) ∧
      response.generation = none ∧ response.token = a.reply := by
  obtain ⟨p, tid, message, address, terminated⟩ := a
  have htid' : tid % 256 = tid := Nat.mod_eq_of_lt htid
  cases message <;> cases terminated <;> simp [entry, body, reply, QueuedMessage.ofMessage, QueuedMessage.discardFor,
      QueuedMessage.delivery, QueuedMessage.memoryBody, QueuedMessage.generation,
      QueuedMessage.token, ReplyToken.ofMessage, Except.toOption, htid']

end Accepted

/-- The messages lie in the given slots, with consecutive generations from `g` on. -/
inductive Placed (queue : List QueuedMessage) : UInt8 → List Nat → List Accepted → Prop where
  | nil {g : UInt8} : Placed queue g [] []
  | cons {g : UInt8} {i : Nat} {slots : List Nat} {a : Accepted} {pending : List Accepted} :
      queue[i]? = some (a.entry g) → Placed queue (g + 1) slots pending →
      Placed queue g (i :: slots) (a :: pending)

/-- The server's queue stands for the mailbox. -/
structure Represents (s : Server) (m : Mailbox) : Prop where
  headLt : s.queueHead < s.queue.length
  tailLt : s.queueTail < s.queue.length
  lengthLe : s.queue.length ≤ 128
  tailGeneration : s.tailGeneration = s.headGeneration + UInt8.ofNat m.pending.length
  tids : ∀ a ∈ m.pending, a.tid < 256
  tokens : ∀ i, m.tokens i = s.queue[i]?.bind token
  sized : ∀ i t, m.tokens i = some t → t.Sized
  placed : ∃ slots, Placed s.queue s.headGeneration slots m.pending ∧ slots.Nodup ∧
    ∀ i e, s.queue[i]? = some e → e.generation ≠ none → i ∈ slots

end

open Server

namespace Placed

variable {queue : List QueuedMessage} {g : UInt8} {slots : List Nat} {pending : List Accepted} {i : Nat}

theorem succ_add_ofNat (g : UInt8) (j : Nat) : g + 1 + UInt8.ofNat j = g + UInt8.ofNat (j + 1) := by
  rw [UInt8.ofNat_add, UInt8.add_assoc, UInt8.add_comm 1]
  rfl

section

variable (h : Placed queue g slots pending)

include h

theorem length_eq : slots.length = pending.length := by
  induction h with
  | nil => rfl
  | cons _ _ ih => simp [ih]

theorem generation_of_mem (hi : i ∈ slots) :
    ∃ j < slots.length, queue[i]?.bind QueuedMessage.generation = some (g + UInt8.ofNat j) := by
  induction h with
  | nil => simp at hi
  | cons hslot _ ih =>
    rcases List.mem_cons.mp hi with rfl | hi
    · exact ⟨0, by simp, by simp [hslot]⟩
    · obtain ⟨j, hj, hgen⟩ := ih hi
      exact ⟨j + 1, by simpa using hj, by rw [hgen, succ_add_ofNat]⟩

theorem lt_length (hi : i ∈ slots) : i < queue.length := by
  obtain ⟨j, _, hgen⟩ := h.generation_of_mem hi
  by_contra hlen
  simp [List.getElem?_eq_none (Nat.le_of_not_lt hlen)] at hgen

theorem not_mem_of_generation (hgen : queue[i]?.bind QueuedMessage.generation = none) : i ∉ slots := by
  intro hi
  obtain ⟨j, _, hj⟩ := h.generation_of_mem hi
  simp [hgen] at hj

theorem set (e : QueuedMessage) (hi : i ∉ slots) : Placed (queue.set i e) g slots pending := by
  induction h with
  | nil => exact .nil
  | cons hslot _ ih =>
    rw [List.mem_cons, not_or] at hi
    refine .cons ?_ (ih hi.2)
    rwa [List.getElem?_set_ne hi.1]

theorem append {a : Accepted} (hi : queue[i]? = some (a.entry (g + UInt8.ofNat pending.length))) :
    Placed queue g (slots ++ [i]) (pending ++ [a]) := by
  induction h with
  | nil => exact .cons (by simpa using hi) .nil
  | cons hslot _ ih =>
    refine .cons hslot (ih ?_)
    rw [hi, List.length_cons, succ_add_ofNat]

theorem discard (pid : PID) :
    Placed (queue.map (QueuedMessage.discardFor pid)) g slots (pending.map (Accepted.discardFor pid)) := by
  induction h with
  | nil => exact .nil
  | cons hslot _ ih =>
    refine .cons ?_ ih
    rw [List.getElem?_map, hslot, Option.map_some, Accepted.discardFor_entry]

end

theorem generation_ne_head (h : Placed queue (g + 1) slots pending) (hlen : slots.length < 255)
    (hi : i ∈ slots) : queue[i]?.bind QueuedMessage.generation ≠ some g := by
  obtain ⟨j, hj, hgen⟩ := h.generation_of_mem hi
  rw [hgen, Ne, Option.some.injEq]
  intro heq
  have hnat := congrArg UInt8.toNat heq
  have hg := g.toNat_lt
  simp only [UInt8.toNat_add, UInt8.toNat_ofNat', UInt8.reduceToNat] at hnat
  omega

end Placed

namespace Server

variable {s : Server} {i : Nat}

theorem emptyAt_iff : s.emptyAt i = true ↔ s.queue[i]? = some .empty := by simp [emptyAt]

theorem findEmpty_eq_some {lo hi : Nat} (h : s.findEmpty lo hi = some i) : s.queue[i]? = some .empty :=
  emptyAt_iff.mp (List.find?_some h)

theorem discoveredIndex_eq_some (h : s.discoveredIndex = some i) : s.queue[i]? = some .empty := by
  rcases Option.or_eq_some_iff.mp h with h | ⟨_, h⟩
  · exact findEmpty_eq_some h
  · exact findEmpty_eq_some h

theorem queueMessage_cases (pid : PID) (tid : TID) (message : Message) (address : Option MemoryAddress) (s : Server) :
    queueMessage pid tid message address s = .err .serverQueueFull s ∨ ∃ i, s.queue[i]? = some .empty ∧
        queueMessage pid tid message address s =
          .ok i { s.fillSlot i (.ofMessage pid tid s.tailGeneration message address) with
            tailGeneration := s.tailGeneration + 1 } := by
  unfold queueMessage
  split_ifs with hfull
  · exact Or.inl rfl
  · cases hd : s.discoveredIndex with
    | none => exact Or.inl rfl
    | some i => exact Or.inr ⟨i, discoveredIndex_eq_some hd, rfl⟩

theorem queueResponse_cases (pid : PID) (tid : TID) (message : Message)
    (address : Option MemoryAddress) (hhead : s.queueHead < s.queue.length) :
    queueResponse pid tid message address s = .err .serverQueueFull s ∨ ∃ i, s.queue[i]? = some .empty ∧
        queueResponse pid tid message address s = .ok i (s.fillSlot i (.ofResponse pid tid message address)) := by
  unfold queueResponse
  cases hscan : Cyclic.scan s.queue.length s.queueHead s.emptyAt s.queue.length s.queueHead with
  | none => exact Or.inl rfl
  | some i => exact Or.inr ⟨i, emptyAt_iff.mp (Cyclic.scan_eq_some hhead hscan).2, rfl⟩

@[simp] theorem length_fillSlot (e : QueuedMessage) :
    (s.fillSlot i e).queue.length = s.queue.length := by simp [fillSlot]

theorem fillSlot_queueHead_lt (e : QueuedMessage) (hhead : s.queueHead < s.queue.length) :
    (s.fillSlot i e).queueHead < s.queue.length := by
  simp only [fillSlot]
  split_ifs
  · exact Cyclic.next_lt _ (by omega)
  · exact hhead

theorem freeSlot_queueTail_lt (htail : s.queueTail < s.queue.length) : (s.freeSlot i).queueTail < s.queue.length := by
  simp only [freeSlot, List.length_set]
  split_ifs
  · exact Cyclic.skip_lt (Cyclic.next_lt _ (by omega))
  · exact htail

end Server

namespace Represents

variable {s : Server} {m : Mailbox} {i : Nat} {slots : List Nat} {a : Accepted} {rest : List Accepted}

theorem init (pid : PID) (sid : SID) (backing : Nat) {n : Nat} (hpos : 1 ≤ n) (hle : n ≤ 128) :
    Represents (Server.init pid sid backing n) Mailbox.empty where
  headLt := by simpa [Server.init] using Nat.lt_of_succ_le hpos
  tailLt := by simpa [Server.init] using Nat.lt_of_succ_le hpos
  lengthLe := by simpa [Server.init] using hle
  tailGeneration := rfl
  tids := by simp [Mailbox.empty]
  tokens := by
    intro i
    simp only [Mailbox.empty, Server.init, List.getElem?_replicate]
    split_ifs <;> rfl
  sized := by simp [Mailbox.empty]
  placed := by
    refine ⟨[], .nil, List.nodup_nil, ?_⟩
    intro i e he hgen
    simp only [Server.init, List.getElem?_replicate] at he
    split_ifs at he
    cases he
    exact absurd rfl hgen

section

variable (h : Represents s m)

include h

theorem tokens_set {j : Nat} (hj : j < s.queue.length) (e : QueuedMessage) (i : Nat) :
    Function.update m.tokens j e.token i = (s.queue.set j e)[i]?.bind QueuedMessage.token := by
  by_cases hij : i = j
  · subst hij
    simp [hj]
  · rw [Function.update_of_ne hij, List.getElem?_set_ne (Ne.symm hij), h.tokens]

theorem sized_update {j : Nat} {t : Option ReplyToken} (ht : ∀ t', t = some t' → t'.Sized) (i : Nat) (t' : ReplyToken)
    (hi : Function.update m.tokens j t i = some t') : t'.Sized := by
  by_cases hij : i = j
  · subst hij
    rw [Function.update_self] at hi
    exact ht t' hi
  · rw [Function.update_of_ne hij] at hi
    exact h.sized i t' hi

theorem pending_length_le : m.pending.length ≤ s.queue.length := by
  obtain ⟨slots, hplaced, hnodup, _⟩ := h.placed
  rw [← hplaced.length_eq]
  have hsub : slots ⊆ List.range s.queue.length :=
    fun i hi => List.mem_range.mpr (hplaced.lt_length hi)
  simpa using (List.subperm_of_subset hnodup hsub).length_le

/-- A slot without a waiting message is written, with an entry that is none either. -/
theorem placed_set (hi : i < s.queue.length)
    (hold : s.queue[i]?.bind QueuedMessage.generation = none) {e : QueuedMessage}
    (hgen : e.generation = none) :
    ∃ slots, Placed (s.queue.set i e) s.headGeneration slots m.pending ∧ slots.Nodup ∧
      ∀ i' e', (s.queue.set i e)[i']? = some e' → e'.generation ≠ none → i' ∈ slots := by
  obtain ⟨slots, hplaced, hnodup, hcover⟩ := h.placed
  refine ⟨slots, hplaced.set e (hplaced.not_mem_of_generation hold), hnodup, ?_⟩
  intro i' e' he' hgen'
  by_cases hii : i' = i
  · subst hii
    rw [List.getElem?_set_self hi, Option.some.injEq] at he'
    exact absurd (he' ▸ hgen) hgen'
  · rw [List.getElem?_set_ne (Ne.symm hii)] at he'
    exact hcover i' e' he' hgen'

theorem fillToken (hempty : s.queue[i]? = some .empty) {e : QueuedMessage} (hgen : e.generation = none) (hsized : ∀ t, e.token = some t → t.Sized) :
    m.tokens i = none ∧ Represents (s.fillSlot i e) (m.setToken i e.token) := by
  have hi : i < s.queue.length := (List.getElem?_eq_some_iff.mp hempty).1
  refine ⟨by simp [h.tokens, hempty, QueuedMessage.token], ?_⟩
  exact {
    headLt := by simpa using fillSlot_queueHead_lt e h.headLt
    tailLt := by simpa [fillSlot] using h.tailLt
    lengthLe := by simpa using h.lengthLe
    tailGeneration := h.tailGeneration
    tids := h.tids
    tokens := h.tokens_set hi e
    sized := h.sized_update hsized
    placed := h.placed_set hi (by simp [hempty, QueuedMessage.generation]) hgen }

theorem fillMessage (hempty : s.queue[i]? = some .empty) (htid : a.tid < 256) :
    Represents { s.fillSlot i (a.entry s.tailGeneration) with
      tailGeneration := s.tailGeneration + 1 } (m.accept a) := by
  have hi : i < s.queue.length := (List.getElem?_eq_some_iff.mp hempty).1
  obtain ⟨slots, hplaced, hnodup, hcover⟩ := h.placed
  have hnotin : i ∉ slots :=
    hplaced.not_mem_of_generation (by simp [hempty, QueuedMessage.generation])
  have hfree : m.tokens i = none := by simp [h.tokens, hempty, QueuedMessage.token]
  exact {
    headLt := by simpa using fillSlot_queueHead_lt _ h.headLt
    tailLt := by simpa [fillSlot] using h.tailLt
    lengthLe := by simpa using h.lengthLe
    tailGeneration := by
      simp only [Mailbox.accept, List.length_append, List.length_singleton, UInt8.ofNat_add]
      rw [h.tailGeneration, UInt8.add_assoc]
      rfl
    tids := by
      intro b hb
      rcases List.mem_append.mp hb with hb | hb
      · exact h.tids b hb
      · rwa [List.mem_singleton.mp hb]
    tokens := by
      intro i'
      have hset := h.tokens_set hi (a.entry s.tailGeneration) i'
      rwa [Accepted.token_entry, ← hfree, Function.update_eq_self] at hset
    sized := h.sized
    placed := by
      refine ⟨slots ++ [i], (hplaced.set _ hnotin).append ?_, ?_, ?_⟩
      · rw [List.getElem?_set_self hi, h.tailGeneration]
      · exact hnodup.append (List.nodup_singleton i) (by simpa using hnotin)
      · intro i' e' he' hgen'
        by_cases hii : i' = i
        · simp [hii]
        · simp only [fillSlot, List.getElem?_set_ne (Ne.symm hii)] at he'
          exact List.mem_append_left _ (hcover i' e' he' hgen') }

theorem freeToken (hlive : m.tokens i ≠ none) : Represents (s.freeSlot i) (m.setToken i none) := by
  obtain ⟨t, ht⟩ := Option.ne_none_iff_exists'.mp hlive
  obtain ⟨e, he, htoken⟩ := Option.bind_eq_some_iff.mp ((h.tokens i).symm.trans ht)
  have hi : i < s.queue.length := (List.getElem?_eq_some_iff.mp he).1
  have hold : s.queue[i]?.bind QueuedMessage.generation = none := by
    rw [he, Option.bind_some]
    cases e <;> simp_all [QueuedMessage.generation, QueuedMessage.token]
  exact {
    headLt := by simpa [freeSlot] using h.headLt
    tailLt := by simpa [freeSlot] using freeSlot_queueTail_lt h.tailLt
    lengthLe := by simpa [freeSlot] using h.lengthLe
    tailGeneration := h.tailGeneration
    tids := h.tids
    tokens := h.tokens_set hi .empty
    sized := h.sized_update (by simp)
    placed := h.placed_set hi hold rfl }

theorem takeWaiting_of_none (hnone : m.tokens i = none) (buf : Option MemoryRange) :
    takeWaitingMessage i buf s = .ok .none s ∨ takeWaitingMessage i buf s = .err .badAddress s := by
  rw [h.tokens] at hnone
  unfold takeWaitingMessage
  cases hslot : s.queue[i]? with
  | none => exact Or.inr rfl
  | some e =>
    simp only [hslot, Option.bind_some] at hnone
    cases e <;> first | exact Or.inl rfl | simp [QueuedMessage.token] at hnone

/-- A reply to an index with a token consumes it, unless the buffer is not the lent one. It halts if
the client had no address for the memory. -/
theorem takeWaiting_of_some {t : ReplyToken} (ht : m.tokens i = some t) (buf : Option MemoryRange) :
    takeWaitingMessage i buf s = .err .badAddress s ∨ (t.waiting = none ∧ takeWaitingMessage i buf s = .panic) ∨
      ∃ w, t.waiting = some w ∧ w ≠ .none ∧ takeWaitingMessage i buf s = .ok w (s.freeSlot i) := by
  have hsized := h.sized i t ht
  rw [h.tokens] at ht
  obtain ⟨e, he, htoken⟩ := Option.bind_eq_some_iff.mp ht
  unfold takeWaitingMessage
  rw [he]
  cases e <;> simp only [QueuedMessage.token, reduceCtorEq, Option.some.injEq] at htoken <;> subst htoken
  case waitingReturnMemory pid tid idx serverAddr clientAddr len =>
    obtain ⟨hserver, hlen⟩ := hsized
    by_cases hclient : 0 < clientAddr <;> by_cases hbuf : bufMismatch serverAddr len buf <;>
      simp [ReplyToken.waiting, NonZero.new, hserver, hlen, hclient, hbuf]
  case waitingForget pid tid idx serverAddr clientAddr len =>
    obtain ⟨hserver, hlen⟩ := hsized
    by_cases hbuf : bufMismatch serverAddr len buf <;>
      simp [ReplyToken.waiting, MemoryRange.new, NonZero.new, Except.toOption, hserver, hlen, hbuf]
  case waitingReturnScalar pid tid idx returnAddress => simp [ReplyToken.waiting]

theorem takeNext_of_nil (hnil : m.pending = []) (sidx : Nat) : s.takeNextMessage sidx = (none, s) := by
  have hgen : s.tailGeneration = s.headGeneration := by simpa [hnil] using h.tailGeneration
  simp [takeNextMessage, hgen]

theorem scan_next (hslot : s.queue[i]? = some (a.entry s.headGeneration))
    (hplaced : Placed s.queue (s.headGeneration + 1) slots rest)
    (hcover : ∀ i' e, s.queue[i']? = some e → e.generation ≠ none → i' ∈ i :: slots)
    (hlen : slots.length < 255) :
    Cyclic.scan s.queue.length s.queueTail s.nextAt s.queue.length s.queueTail = some i := by
  have hi : i < s.queue.length := (List.getElem?_eq_some_iff.mp hslot).1
  have hnext : s.nextAt i = true := by simp [nextAt, hslot]
  obtain ⟨i', hscan⟩ := Cyclic.exists_scan_eq_some h.tailLt hi hnext
  have hnext' := (Cyclic.scan_eq_some h.tailLt hscan).2
  simp only [nextAt, decide_eq_true_eq] at hnext'
  obtain ⟨e, he, hgen⟩ := Option.bind_eq_some_iff.mp hnext'
  rcases List.mem_cons.mp (hcover i' e he (by simp [hgen])) with rfl | hmem
  · exact hscan
  · exact absurd hnext' (hplaced.generation_ne_head hlen hmem)

theorem advancePast {response : QueuedMessage} (hcons : m.pending = a :: rest)
    (hi : i < s.queue.length) (hplaced : Placed s.queue (s.headGeneration + 1) slots rest)
    (hnodup : (i :: slots).Nodup)
    (hcover : ∀ i' e, s.queue[i']? = some e → e.generation ≠ none → i' ∈ i :: slots)
    (hgen : response.generation = none) (htoken : response.token = a.reply) :
    Represents (s.advancePast i response) (m.deliver i) := by
  have hdeliver : m.deliver i = ⟨rest, Function.update m.tokens i a.reply⟩ := by
    simp [Mailbox.deliver, hcons]
  rw [List.nodup_cons] at hnodup
  rw [hdeliver]
  exact {
    headLt := by simpa [Server.advancePast] using h.headLt
    tailLt := by
      simp only [Server.advancePast, List.length_set]
      split_ifs
      · exact Cyclic.next_lt _ (by omega)
      · exact h.tailLt
    lengthLe := by simpa [Server.advancePast] using h.lengthLe
    tailGeneration := by
      change s.tailGeneration = s.headGeneration + 1 + UInt8.ofNat rest.length
      rw [h.tailGeneration, hcons, List.length_cons, Placed.succ_add_ofNat]
    tids := fun b hb => h.tids b (by simp [hcons, hb])
    tokens := htoken ▸ h.tokens_set hi response
    sized := h.sized_update fun t ht => Accepted.sized_reply ht
    placed := by
      refine ⟨slots, hplaced.set response hnodup.1, hnodup.2, ?_⟩
      intro i' e' he' hgen'
      by_cases hii : i' = i
      · subst hii
        simp only [Server.advancePast, List.getElem?_set_self hi, Option.some.injEq] at he'
        exact absurd (he' ▸ hgen) hgen'
      · simp only [Server.advancePast, List.getElem?_set_ne (Ne.symm hii)] at he'
        exact (List.mem_cons.mp (hcover i' e' he' hgen')).resolve_left hii }

theorem tailGeneration_ne (hpending : m.pending ≠ []) : s.tailGeneration ≠ s.headGeneration := by
  have hle := h.pending_length_le
  have hcap := h.lengthLe
  have hpos := List.length_pos_of_ne_nil hpending
  rw [h.tailGeneration]
  intro heq
  have hnat := congrArg UInt8.toNat heq
  have hg := s.headGeneration.toNat_lt
  simp only [UInt8.toNat_add, UInt8.toNat_ofNat'] at hnat
  omega

theorem takeNext_of_cons (hcons : m.pending = a :: rest) (sidx : Nat) :
    ∃ i s', i < 128 ∧ m.tokens i = none ∧ s.takeNextMessage sidx =
        (some { sender := SenderID.toUsize ⟨sidx, i, some a.pid⟩, body := a.body }, s') ∧
      Represents s' (m.deliver i) := by
  have hle := h.pending_length_le
  have hcap := h.lengthLe
  have hbusy := h.tailGeneration_ne (by simp [hcons])
  obtain ⟨slots, hplaced, hnodup, hcover⟩ := h.placed
  rw [hcons] at hplaced
  cases hplaced with
  | @cons _ i slots _ _ hslot hplaced =>
    have hi : i < s.queue.length := (List.getElem?_eq_some_iff.mp hslot).1
    have hlen : slots.length < 255 := by
      have := hplaced.length_eq
      rw [hcons, List.length_cons] at hle
      omega
    obtain ⟨response, hdelivery, hgen, htoken⟩ :=
      Accepted.delivery_entry (h.tids a (by simp [hcons])) s.headGeneration sidx i
    refine ⟨i, s.advancePast i response, by omega, by simp [h.tokens, hslot], ?_,
      h.advancePast hcons hi hplaced hnodup hcover hgen htoken⟩
    simp only [takeNextMessage, if_neg hbusy, h.scan_next hslot hplaced hcover hlen, hslot, Option.bind_some, hdelivery]

theorem discard (pid : PID) : Represents (s.discardMessagesForPid pid) (m.discard pid) where
  headLt := by simpa [discardMessagesForPid] using h.headLt
  tailLt := by simpa [discardMessagesForPid] using h.tailLt
  lengthLe := by simpa [discardMessagesForPid] using h.lengthLe
  tailGeneration := by simpa [discardMessagesForPid, Mailbox.discard] using h.tailGeneration
  tids := by
    intro b hb
    obtain ⟨a, ha, rfl⟩ := List.mem_map.mp hb
    unfold Accepted.discardFor
    split_ifs <;> exact h.tids a ha
  tokens := by
    intro i
    simp [Mailbox.discard, discardMessagesForPid, h.tokens, Option.bind_map]
  sized := h.sized
  placed := by
    obtain ⟨slots, hplaced, hnodup, hcover⟩ := h.placed
    refine ⟨slots, hplaced.discard pid, hnodup, ?_⟩
    intro i e he hgen
    simp only [discardMessagesForPid, List.getElem?_map] at he
    obtain ⟨e', he', rfl⟩ := Option.map_eq_some_iff.mp he
    exact hcover i e' he' (by simpa using hgen)

end

end Represents

end BaochipXous.Kernel
