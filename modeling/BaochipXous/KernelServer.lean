import BaochipXous.KernelMemory
import BaochipXous.LibCyclic

/-!
The message queue of a server. Undelivered messages and reply tokens of received ones share one
array of slots; a message is found by its 8-bit generation, a token by its index. Both indices stay
below the length of the array.
-/

namespace BaochipXous.Kernel

/-- The index of a message: the server's slot, the queue index and the sending process. -/
structure SenderID where
  sidx : Nat
  idx : Nat
  pid : Option PID

namespace SenderID

def ofUsize (item : Nat) : SenderID where
  sidx := (item >>> 16) &&& 0xff
  idx := item &&& 0xffff
  pid := PID.new ((item >>> 24) % 256)

def toUsize (val : SenderID) : Nat :=
  ((match val.pid with | some p => p.get | none => 0) <<< 24) |||
    ((val.sidx <<< 16) &&& 0x00ff0000) ||| (val.idx &&& 0xffff)

theorem toUsize_eq (sidx idx : Nat) (pid : PID) :
    toUsize ⟨sidx, idx, some pid⟩ = pid.get * 2 ^ 24 + (sidx % 2 ^ 8) * 2 ^ 16 + idx % 2 ^ 16 := by
  have hmid : (sidx <<< 16) &&& 0x00ff0000 = (sidx % 2 ^ 8) <<< 16 := by
    rw [← Nat.and_two_pow_sub_one_eq_mod, Nat.shiftLeft_and_distrib]
    rfl
  have hlow : idx &&& 0xffff = idx % 2 ^ 16 := Nat.and_two_pow_sub_one_eq_mod idx 16
  simp only [toUsize, hmid, hlow]
  -- the three parts do not overlap
  rw [Nat.or_assoc, ← Nat.shiftLeft_add_eq_or_of_lt (Nat.mod_lt _ (by norm_num)),
    ← Nat.shiftLeft_add_eq_or_of_lt (by simp only [Nat.shiftLeft_eq]; omega)]
  simp only [Nat.shiftLeft_eq]
  omega

/-- Decoding gives back the process, and the indices up to the widths of their fields. -/
theorem ofUsize_toUsize (sidx idx : Nat) (pid : PID) :
    ofUsize (toUsize ⟨sidx, idx, some pid⟩) = ⟨sidx % 2 ^ 8, idx % 2 ^ 16, some pid⟩ := by
  have hp := pid.lt
  have hand8 (n : Nat) : n &&& 0xff = n % 2 ^ 8 := Nat.and_two_pow_sub_one_eq_mod n 8
  have hand16 (n : Nat) : n &&& 0xffff = n % 2 ^ 16 := Nat.and_two_pow_sub_one_eq_mod n 16
  rw [toUsize_eq, ofUsize, hand8, hand16, Nat.shiftRight_eq_div_pow, Nat.shiftRight_eq_div_pow, SenderID.mk.injEq]
  have hpid : (pid.get * 2 ^ 24 + sidx % 2 ^ 8 * 2 ^ 16 + idx % 2 ^ 16) / 2 ^ 24 % 256 = pid.get := by
    omega
  refine ⟨by omega, by omega, ?_⟩
  rw [hpid, PID.new_get]

end SenderID

/-- What a reply finds in the slot that it names. -/
inductive WaitingMessage where
  | none
  | borrowedMemory (pid : PID) (tid : TID) (serverAddr clientAddr : MemoryAddress) (len : MemorySize)
  | movedMemory
  | scalarMessage (pid : PID) (tid : TID)
  | forgetMemory (range : MemoryRange)
  deriving DecidableEq

/-- One slot of the queue. The field `idx` of a message is the generation it was queued with. -/
inductive QueuedMessage where
  | empty
  | blockingScalarMessage (pid : PID) (tid : Nat) (idx : UInt8)
      (reserved id arg1 arg2 arg3 arg4 : Nat)
  | scalarMessage (pid : PID) (tid : Nat) (idx : UInt8) (reserved id arg1 arg2 arg3 arg4 : Nat)
  | memoryMessageSend (pid : PID) (tid : Nat) (idx : UInt8)
      (clientAddr id serverAddr bufSize offset valid : Nat)
  | memoryMessageROLend (pid : PID) (tid : Nat) (idx : UInt8)
      (clientAddr id serverAddr bufSize offset valid : Nat)
  | memoryMessageRWLend (pid : PID) (tid : Nat) (idx : UInt8)
      (clientAddr id serverAddr bufSize offset valid : Nat)
  | memoryMessageROLendTerminated (pid : PID) (tid : Nat) (idx : UInt8)
      (clientAddr id serverAddr bufSize offset valid : Nat)
  | memoryMessageRWLendTerminated (pid : PID) (tid : Nat) (idx : UInt8)
      (clientAddr id serverAddr bufSize offset valid : Nat)
  | blockingScalarTerminated (pid : PID) (tid : Nat) (idx : UInt8)
      (reserved id arg1 arg2 arg3 arg4 : Nat)
  | waitingReturnMemory (pid : PID) (tid : Nat) (idx : UInt8) (serverAddr clientAddr len : Nat)
  | waitingForget (pid : PID) (tid : Nat) (idx : UInt8) (serverAddr clientAddr len : Nat)
  | waitingReturnScalar (pid : PID) (tid : Nat) (idx : UInt8) (returnAddress : Nat)
  deriving DecidableEq

variable (pid : PID) (tid : TID)

namespace QueuedMessage

def isInServer : QueuedMessage → Bool
  | waitingForget .. | waitingReturnMemory .. | waitingReturnScalar .. => true
  | _ => false

def generation : QueuedMessage → Option UInt8
  | memoryMessageROLend _ _ idx .. | memoryMessageRWLend _ _ idx ..
  | memoryMessageROLendTerminated _ _ idx .. | memoryMessageRWLendTerminated _ _ idx ..
  | blockingScalarMessage _ _ idx .. | memoryMessageSend _ _ idx .. | scalarMessage _ _ idx ..
  | blockingScalarTerminated _ _ idx .. => some idx
  | _ => none

/-- The body of a memory message, unless its range is empty. -/
def memoryBody (id serverAddr bufSize offset valid : Nat) : Option MemoryMessage :=
  (MemoryRange.new serverAddr bufSize).toOption.map fun buf =>
    { id, buf, offset := NonZero.new offset, valid := NonZero.new valid }

/-- What the server receives for the message in slot `queueIdx`, and what the slot holds then. -/
def delivery (sidx queueIdx : Nat) : QueuedMessage → Option (MessageEnvelope × QueuedMessage)
  | memoryMessageROLend pid tid idx clientAddr id serverAddr bufSize offset valid
  | memoryMessageROLendTerminated pid tid idx clientAddr id serverAddr bufSize offset valid =>
    (memoryBody id serverAddr bufSize offset valid).map fun msg =>
      ({ sender := SenderID.toUsize ⟨sidx, queueIdx, some pid⟩, body := .borrow msg },
        waitingReturnMemory pid tid idx serverAddr clientAddr bufSize)
  | memoryMessageRWLend pid tid idx clientAddr id serverAddr bufSize offset valid
  | memoryMessageRWLendTerminated pid tid idx clientAddr id serverAddr bufSize offset valid =>
    (memoryBody id serverAddr bufSize offset valid).map fun msg =>
      ({ sender := SenderID.toUsize ⟨sidx, queueIdx, some pid⟩, body := .mutableBorrow msg },
        waitingReturnMemory pid tid idx serverAddr clientAddr bufSize)
  | blockingScalarMessage pid tid idx clientAddr id arg1 arg2 arg3 arg4 =>
    some ({ sender := SenderID.toUsize ⟨sidx, queueIdx, some pid⟩,
            body := .blockingScalar ⟨id, arg1, arg2, arg3, arg4⟩ },
      waitingReturnScalar pid tid idx clientAddr)
  | memoryMessageSend pid _ _ _ id serverAddr bufSize offset valid =>
    (memoryBody id serverAddr bufSize offset valid).map fun msg =>
      ({ sender := SenderID.toUsize ⟨sidx, queueIdx, some pid⟩, body := .move msg }, empty)
  | scalarMessage pid _ _ _ id arg1 arg2 arg3 arg4
  | blockingScalarTerminated pid _ _ _ id arg1 arg2 arg3 arg4 =>
    some ({ sender := SenderID.toUsize ⟨sidx, queueIdx, some pid⟩,
            body := .scalar ⟨id, arg1, arg2, arg3, arg4⟩ }, empty)
  | _ => none

/-- The entry after its sender, if that is `pid`, has terminated. -/
def discardFor : QueuedMessage → QueuedMessage
  | memoryMessageROLend p tid idx a1 a2 a3 a4 a5 a6 =>
    if p = pid then memoryMessageROLendTerminated p tid idx a1 a2 a3 a4 a5 a6
    else memoryMessageROLend p tid idx a1 a2 a3 a4 a5 a6
  | memoryMessageRWLend p tid idx a1 a2 a3 a4 a5 a6 =>
    if p = pid then memoryMessageRWLendTerminated p tid idx a1 a2 a3 a4 a5 a6
    else memoryMessageRWLend p tid idx a1 a2 a3 a4 a5 a6
  | blockingScalarMessage p tid idx a1 a2 a3 a4 a5 a6 =>
    if p = pid then blockingScalarTerminated p tid idx a1 a2 a3 a4 a5 a6
    else blockingScalarMessage p tid idx a1 a2 a3 a4 a5 a6
  | entry => entry

def ofMessage (generation : UInt8) (message : Message)
    (originalAddress : Option MemoryAddress) : QueuedMessage :=
  match message with
  | .scalar msg =>
    scalarMessage pid (tid % 256) generation 0 msg.id msg.arg1 msg.arg2 msg.arg3 msg.arg4
  | .blockingScalar msg =>
    blockingScalarMessage pid (tid % 256) generation 0 msg.id msg.arg1 msg.arg2 msg.arg3 msg.arg4
  | .move msg =>
    memoryMessageSend pid (tid % 256) generation (NonZero.orZero originalAddress) msg.id
      msg.buf.asPtr msg.buf.len (NonZero.orZero msg.offset) (NonZero.orZero msg.valid)
  | .mutableBorrow msg =>
    memoryMessageRWLend pid (tid % 256) generation (NonZero.orZero originalAddress) msg.id
      msg.buf.asPtr msg.buf.len (NonZero.orZero msg.offset) (NonZero.orZero msg.valid)
  | .borrow msg =>
    memoryMessageROLend pid (tid % 256) generation (NonZero.orZero originalAddress) msg.id
      msg.buf.asPtr msg.buf.len (NonZero.orZero msg.offset) (NonZero.orZero msg.valid)

/-- The reply token for a message that is handed to the server without being queued. -/
def ofResponse (message : Message)
    (clientAddress : Option MemoryAddress) : QueuedMessage :=
  match message with
  | .scalar _ | .blockingScalar _ =>
    waitingReturnScalar pid (tid % 256) 0 (NonZero.orZero clientAddress)
  | .move msg =>
    waitingForget pid (tid % 256) 0 msg.buf.asPtr (NonZero.orZero clientAddress) msg.buf.len
  | .mutableBorrow msg | .borrow msg =>
    waitingReturnMemory pid (tid % 256) 0 msg.buf.asPtr (NonZero.orZero clientAddress) msg.buf.len

end QueuedMessage

/-- A set of threads of one process, bit `t` standing for thread `t`. -/
abbrev ThreadMask := BitVec 32

/-- `1 << tid` on a 32-bit word; the hardware shift uses the low five bits of its amount. -/
def threadBit : ThreadMask := 1#32 <<< (tid % 32)

/-- A server, its queue, and the threads of its process that wait to receive from it. -/
structure Server where
  sid : SID
  pid : PID
  /-- Where the queue lies in the address space of the process. -/
  backing : Nat
  queueHead : Nat
  queueTail : Nat
  headGeneration : UInt8
  tailGeneration : UInt8
  queue : List QueuedMessage
  readyThreads : ThreadMask

variable (s : Server)

namespace Server

def init (sid : SID) (backing slots : Nat) : Server where
  sid := sid
  pid := pid
  backing := backing
  queueHead := 0
  queueTail := 0
  headGeneration := 0
  tailGeneration := 0
  queue := List.replicate slots .empty
  readyThreads := 0

def emptyAt (i : Nat) : Bool := decide (s.queue[i]? = some .empty)

def nextAt (i : Nat) : Bool :=
  decide (s.queue[i]?.bind QueuedMessage.generation = some s.headGeneration)

/-- Fill slot `i`, moving the head past it if it was there. -/
def fillSlot (i : Nat) (entry : QueuedMessage) : Server :=
  { s with
    queue := s.queue.set i entry
    queueHead := if i = s.queueHead then Cyclic.next s.queue.length s.queueHead else s.queueHead }

/-- The messages not yet received take up all generations but one. -/
def generationsFull : Bool := decide (s.tailGeneration = s.headGeneration - 1)

def hasQueueCapacity : Bool :=
  !s.generationsFull && s.queue.any (fun e => decide (e = .empty))

def hasQueueCapacityScalar : Bool := !s.generationsFull

def findEmpty (lo hi : Nat) : Option Nat := (List.range' lo (hi - lo)).find? s.emptyAt

/-- The slot for a new message: the first empty one from the head on, else from the start on. -/
def discoveredIndex : Option Nat :=
  (s.findEmpty s.queueHead s.queue.length).or (s.findEmpty 0 s.queueHead)

def queueMessage (message : Message)
    (originalAddress : Option MemoryAddress) : Prog Error Server Nat := fun s =>
  if s.generationsFull then .err .serverQueueFull s
  else
    match s.discoveredIndex with
    | none => .err .serverQueueFull s
    | some i =>
      .ok i { s.fillSlot i (.ofMessage pid tid s.tailGeneration message originalAddress) with
        tailGeneration := s.tailGeneration + 1 }

def queueResponse (message : Message)
    (clientAddress : Option MemoryAddress) : Prog Error Server Nat := fun s =>
  match Cyclic.scan s.queue.length s.queueHead s.emptyAt s.queue.length s.queueHead with
  | none => .err .serverQueueFull s
  | some i => .ok i (s.fillSlot i (.ofResponse pid tid message clientAddress))

/-- Leave `response` in slot `i`, moving the tail past it if it was there, and go on to the next
generation. -/
def advancePast (i : Nat) (response : QueuedMessage) : Server :=
  { s with
    queue := s.queue.set i response
    queueTail := if i = s.queueTail then Cyclic.next s.queue.length s.queueTail else s.queueTail
    headGeneration := s.headGeneration + 1 }

def takeNextMessage (sidx : Nat) : Option MessageEnvelope × Server :=
  if s.tailGeneration = s.headGeneration then (none, s)
  else
    match Cyclic.scan s.queue.length s.queueTail s.nextAt s.queue.length s.queueTail with
    | none => (none, s)
    | some i =>
      match s.queue[i]?.bind (QueuedMessage.delivery sidx i) with
      | none => (none, s)
      | some (result, response) =>
        (some result, s.advancePast i response)

/-- Empty slot `i`; if the tail was there, it moves on over the empty slots up to the head. -/
def freeSlot (i : Nat) : Server :=
  let queue := s.queue.set i .empty
  let freed := { s with queue }
  { freed with
    queueTail :=
      if i = s.queueTail then
        Cyclic.skip queue.length s.queueHead freed.emptyAt queue.length
          (Cyclic.next queue.length s.queueTail)
      else s.queueTail }

def bufMismatch (serverAddr len : Nat) : Option MemoryRange → Bool
  | none => false
  | some buf => decide (serverAddr ≠ buf.asPtr ∨ len ≠ buf.len)

def takeWaitingMessage (messageIndex : Nat) (buf : Option MemoryRange) :
    Prog Error Server WaitingMessage := fun s =>
  match s.queue[messageIndex]? with
  | none => .err .badAddress s
  | some (.waitingReturnMemory pid tid _ serverAddr clientAddr len) =>
    if bufMismatch serverAddr len buf then .err .badAddress s
    else
      match NonZero.new serverAddr with
      | none => .ok .movedMemory (s.freeSlot messageIndex)
      | some serverAddr =>
        match NonZero.new clientAddr, NonZero.new len with
        | some clientAddr, some len =>
          .ok (.borrowedMemory pid tid serverAddr clientAddr len) (s.freeSlot messageIndex)
        -- a zero client address or length fails an `expect`
        | _, _ => .panic
  | some (.waitingForget _ _ _ serverAddr _ len) =>
    if bufMismatch serverAddr len buf then .err .badAddress s
    else
      match MemoryRange.new serverAddr len with
      | .ok range => .ok (.forgetMemory range) (s.freeSlot messageIndex)
      | .error e => .err e (s.freeSlot messageIndex)
  | some (.waitingReturnScalar pid tid _ _) =>
    .ok (.scalarMessage pid tid) (s.freeSlot messageIndex)
  | some _ => .ok .none s

def discardMessagesForPid (pid : PID) : Server :=
  { s with queue := s.queue.map (QueuedMessage.discardFor pid) }

/-- The lowest waiting thread, which stops waiting. -/
def takeAvailableThread : Option TID × Server :=
  match (List.range 32).find? fun t => s.readyThreads.getLsbD t with
  | none => (none, s)
  | some t => (some t, { s with readyThreads := s.readyThreads &&& ~~~threadBit t })

def returnAvailableThread : Prog Error Server Unit := fun s =>
  if s.readyThreads &&& threadBit tid ≠ 0 then .panic
  else .ok () { s with readyThreads := s.readyThreads ||| threadBit tid }

def takeThread : Prog Error Server (Option TID) := fun s =>
  .ok s.takeAvailableThread.1 s.takeAvailableThread.2

end Server

end BaochipXous.Kernel
