import BaochipXous.LibRely

/-!
The USB video function of the `usb-bao1x` service: the class object that the interrupt handler
drives, and the part of the main loop that stages lends of frame chunks, a thread of atomic actions.
The other functions are left out, but for the keyboard's requests to the interrupt handler.
-/

namespace BaochipXous.Usb

open Interleaved

def uvcMaxPayloadData : Nat := 4800
def uvcChunkPayloads : Nat := 8
def uvcChunkMaxBytes : Nat := uvcChunkPayloads * uvcMaxPayloadData
def uvcChunkFirst : Nat := 1
def uvcChunkLast : Nat := 2
def uvcResultSent : Nat := 1
def uvcResultNotStreaming : Nat := 2
def uvcResultBadFrame : Nat := 3
def uvcModes : Nat := 3
def uvcMps : Nat := 512
def payloadHdr : Nat := 2
/-- Rounded up to a word. -/
def payloadStride : Nat := (payloadHdr + uvcMaxPayloadData + 3) / 4 * 4
def stagingBytes : Nat := uvcChunkPayloads * payloadStride
def hdrEoh : UInt8 := 0x80
def hdrEof : UInt8 := 0x02
def hdrFid : UInt8 := 0x01

/-- What the streamer is transmitting. -/
structure Chunk where
  payloads : Nat
  payloadLen : Nat
  lastLen : Nat
  eof : Bool
  deriving DecidableEq, Inhabited

def overwrite (buffer : List UInt8) (offset : Nat) (bytes : List UInt8) : List UInt8 :=
  buffer.take offset ++ bytes ++ buffer.drop (offset + bytes.length)

/-- Copy a chunk into the staging buffer with a payload header in front of every slot. The chunk's
sizes come back with it. -/
def stageChunk (staging data : List UInt8) (payloadData : Nat) (fid : UInt8) (eof : Bool) :
    List UInt8 × Chunk :=
  let payloadData := max 1 (min payloadData uvcMaxPayloadData)
  let payloads := max 1 (min ((data.length + payloadData - 1) / payloadData) uvcChunkPayloads)
  let (staging, lastLen) := (List.range payloads).foldl
    (fun (acc : List UInt8 × Nat) i =>
      let start := i * payloadData
      let n := min (start + payloadData) data.length - start
      let last := i == payloads - 1
      let flags := hdrEoh ||| (fid &&& hdrFid) ||| (if last && eof then hdrEof else 0)
      let slot := UInt8.ofNat payloadHdr :: flags :: (data.drop start).take n
      (overwrite acc.1 (i * payloadStride) slot, if last then payloadHdr + n else acc.2))
    (staging, payloadHdr)
  (staging, { payloads, payloadLen := payloadHdr + payloadData, lastLen, eof })

/-- The memory of a message. An absent offset or length is 0. -/
structure MemoryMessage where
  buf : List UInt8
  offset : Nat
  valid : Nat
  deriving DecidableEq

inductive Message where
  | mutableBorrow (mem : MemoryMessage)
  | borrow (mem : MemoryMessage)
  | move (mem : MemoryMessage)
  | scalar
  | blockingScalar
  deriving DecidableEq

namespace Message

def isBlocking : Message → Bool
  | mutableBorrow _ | borrow _ | blockingScalar => true
  | move _ | scalar => false

def isLend : Message → Bool
  | mutableBorrow _ | borrow _ => true
  | _ => false

def memoryMessageMut : Message → Option MemoryMessage
  | mutableBorrow mem | move mem => some mem
  | borrow _ | scalar | blockingScalar => none

def setValid (code : Nat) : Message → Message
  | mutableBorrow mem => mutableBorrow { mem with valid := code }
  | move mem => move { mem with valid := code }
  | other => other

end Message

/-- A message that was received. Envelopes are numbered in the order of their reception. -/
structure Envelope where
  sender : Nat
  body : Message
  deriving DecidableEq

def Envelope.setValid (code : Nat) (env : Envelope) : Envelope :=
  { env with body := env.body.setValid code }

/-- What `uvc_stage_chunk` leaves. -/
structure Staged where
  env : Envelope
  staging : List UInt8
  fid : UInt8
  chunk : Option Chunk

def MemoryMessage.first (mem : MemoryMessage) : Bool :=
  mem.offset &&& uvcChunkFirst != 0

def MemoryMessage.last (mem : MemoryMessage) : Bool :=
  mem.offset &&& uvcChunkLast != 0

def MemoryMessage.payloadData (mem : MemoryMessage) : Nat :=
  mem.offset >>> 2

/-- The lengths that a lend announces can be staged. -/
def MemoryMessage.WellSized (mem : MemoryMessage) : Prop :=
  ¬(mem.valid = 0 ∨ mem.valid > mem.buf.length ∨ mem.valid > uvcChunkMaxBytes ∨
    mem.payloadData = 0 ∨ mem.payloadData > uvcMaxPayloadData)

instance (mem : MemoryMessage) : Decidable mem.WellSized :=
  inferInstanceAs (Decidable (¬_))

def uvcStageChunk (env : Envelope) (staging : List UInt8) (fid : UInt8) : Staged :=
  match env.body.memoryMessageMut with
  | none => { env, staging, fid, chunk := none }
  | some mem =>
    if mem.WellSized then
      let fid := if mem.first then fid ^^^ 1 else fid
      let (staging, chunk) :=
        stageChunk staging (mem.buf.take mem.valid) mem.payloadData fid mem.last
      { env := env.setValid uvcResultSent, staging, fid, chunk := some chunk }
    else
      { env := env.setValid uvcResultBadFrame, staging, fid, chunk := none }

structure UvcClass where
  /-- physical address of the staging buffer, 0 without one -/
  stagingPhys : Nat
  streaming : Bool := false
  frameActive : Bool := false
  framesSent : Nat := 0
  chunksSent : Nat := 0
  selected : Nat := 0
  probePending : Bool := false
  inFlight : Bool := false
  discardCompletion : Bool := false
  cursor : Nat := 0
  chunk : Chunk := default

/-- A transfer descriptor on the streaming endpoint, numbered in the order they are enqueued. -/
structure Td where
  serial : Nat
  addr : Nat
  len : Nat
  zlp : Bool
  deriving DecidableEq

inductive UsbIrqReq where
  | kbdTx
  | uvcKick
  deriving DecidableEq

/-- What passes between the class object, the controller, the main loop and its clients. -/
inductive UsbEvent where
  | streamState (on : Bool) (mode : Nat)
  | chunkSet (chunk : Chunk)
  | enqueued (td : Td)
  | completed (td : Td)
  | chunkDone
  | received (env : Envelope)
  | parked (sender : Nat)
  | staged (sender : Nat) (first : Bool) (fid : UInt8)
  | dropped (env : Envelope)
  deriving DecidableEq

/-- How far the main loop is between its look at the parked lend and the handler's look at the
staging buffer. -/
inductive Look where
  | elsewhere
  | resumed
  | entered
  deriving DecidableEq

/-- What the main loop and the interrupt handler share, the main loop's variables, and four
auxiliary ones that no function reads. -/
structure UsbState where
  uvc : UvcClass
  irqReq : Option UsbIrqReq := none
  /-- the transfer ring of the streaming endpoint, oldest first -/
  ring : List Td := []
  staging : Option (List UInt8)
  msgOpt : Option Envelope := none
  pending : Option Envelope := none
  /-- the envelope that `uvc_resume_pending` has taken out of `pending` -/
  resuming : Option Envelope := none
  fid : UInt8 := 0
  running : Bool := true
  /-- auxiliary: what happened, latest first -/
  log : List UsbEvent := []
  received : Nat := 0
  serial : Nat := 0
  /-- auxiliary: between `set_chunk` and the `sw_irq` that follows it -/
  posting : Bool := false
  look : Look := .elsewhere

structure IframRange where
  phys : Nat
  bytes : List UInt8
  phys_ne : phys ≠ 0
  size : bytes.length = stagingBytes

/-- The service as it enters its main loop. Without a staging buffer the video function refuses
frames. -/
def UsbState.init (staging : Option IframRange) : UsbState where
  uvc := { stagingPhys := staging.elim 0 (·.phys) }
  staging := staging.map (·.bytes)

def UsbState.note (event : UsbEvent) (s : UsbState) : UsbState :=
  { s with log := event :: s.log }

def notifyStreamState (on : Bool) (s : UsbState) : UsbState :=
  s.note (.streamState on s.uvc.selected)

variable (s : UsbState)

def notifyChunkDone : UsbState :=
  s.note .chunkDone

/-- The stores of `reset_state`, in order. -/
def clearInFlight : UsbState :=
  { s with uvc.inFlight := false }

def clearDiscard : UsbState :=
  { s with uvc.discardCompletion := false }

def clearCursor : UsbState :=
  { s with uvc.cursor := 0 }

def clearActive : UsbState :=
  { s with uvc.frameActive := false }

def swapStreaming : UsbState :=
  if s.uvc.streaming then notifyStreamState false { s with uvc.streaming := false } else s

def resetState : UsbState :=
  swapStreaming (clearActive (clearCursor (clearDiscard (clearInFlight s))))

/-- `proposal` is what the EP0 buffer holds as format and frame index. -/
def adoptProbeProposal (proposal : Option (UInt8 × UInt8)) (s : UsbState) : UsbState :=
  if s.uvc.probePending then
    let s := { s with uvc.probePending := false }
    match proposal with
    | none => s
    | some (format, frame) =>
      if format = 1 ∧ 1 ≤ frame.toNat ∧ frame.toNat ≤ uvcModes then
        { s with uvc.selected := frame.toNat - 1 }
      else s
  else s

def startStream : UsbState :=
  let s := clearActive (clearCursor s)
  let s :=
    if s.uvc.inFlight then { s with uvc.discardCompletion := true, uvc.inFlight := false } else s
  notifyStreamState true { s with uvc.streaming := true }

def stopStream : UsbState :=
  if s.uvc.streaming then
    let s := clearActive (clearCursor { s with uvc.streaming := false })
    let s := if s.uvc.inFlight then { s with uvc.discardCompletion := true } else s
    notifyStreamState false s
  else s

def bulkXfer (addr len : Nat) (zlp : Bool) (s : UsbState) : UsbState :=
  let td := { serial := s.serial, addr, len, zlp }
  { s with ring := s.ring ++ [td], serial := s.serial + 1, log := .enqueued td :: s.log }

def UvcClass.slotAddr (uvc : UvcClass) (i : Nat) : Nat :=
  uvc.stagingPhys + i * payloadStride

/-- Enqueue the payload at the cursor. `hwBusy`: the main loop holds the lock of the hardware. -/
def enqueuePayload (hwBusy : Bool) (s : UsbState) : UsbState :=
  let len :=
    if s.uvc.cursor + 1 = s.uvc.chunk.payloads then s.uvc.chunk.lastLen else s.uvc.chunk.payloadLen
  if hwBusy then
    notifyChunkDone (clearActive (clearCursor s))
  else
    let s := bulkXfer (s.uvc.slotAddr s.uvc.cursor) len (len % uvcMps == 0) s
    { s with uvc.inFlight := true }

/-- A kick would start the staged chunk. -/
def UvcClass.Startable (uvc : UvcClass) : Prop :=
  ¬(uvc.stagingPhys = 0 ∨ uvc.streaming = false ∨ uvc.inFlight = true ∨ uvc.frameActive = false)

instance (uvc : UvcClass) : Decidable uvc.Startable :=
  inferInstanceAs (Decidable (¬_))

def kick (hwBusy : Bool) (s : UsbState) : UsbState :=
  if s.uvc.Startable then enqueuePayload hwBusy s else s

/-- What `endpoint_in_complete` does at the end of a chunk. -/
def finishChunk : UsbState :=
  let s := { s with uvc.cursor := 0, uvc.chunksSent := (s.uvc.chunksSent + 1) % 2 ^ 32 }
  let s := if s.uvc.chunk.eof then { s with uvc.framesSent := (s.uvc.framesSent + 1) % 2 ^ 32 } else s
  notifyChunkDone (clearActive s)

/-- A completion on the streaming endpoint. The handler has the lock of the hardware to itself. -/
def endpointInComplete : UsbState :=
  let s := clearInFlight s
  if s.uvc.discardCompletion then
    kick false (clearDiscard s)
  else if s.uvc.frameActive = false then
    s
  else
    let s := { s with uvc.cursor := s.uvc.cursor + 1 }
    if s.uvc.cursor < s.uvc.chunk.payloads then enqueuePayload false s else finishChunk s

/-- An event that the controller left in its ring, as far as the video function is concerned. -/
inductive ControllerEvent where
  | transferDone
  | probe
  | commit (proposal : Option (UInt8 × UInt8))
  | getCur (proposal : Option (UInt8 × UInt8))
  | clearFeature
  | reset
  | other
  deriving DecidableEq

/-- One turn of the event loop of `composite_handler`. Transfers complete in order; a bus reset
empties the ring. -/
def handleEvent : ControllerEvent → UsbState → UsbState
  | .transferDone, s =>
    match s.ring with
    | [] => s
    | td :: rest => endpointInComplete (UsbState.note (.completed td) { s with ring := rest })
  | .probe, s => { s with uvc.probePending := true }
  | .commit proposal, s => startStream (adoptProbeProposal proposal s)
  | .getCur proposal, s => adoptProbeProposal proposal s
  | .clearFeature, s => stopStream s
  | .reset, s => resetState { s with ring := [] }
  | .other, s => s

def serviceSwRequest (hwBusy : Bool) (s : UsbState) : UsbState :=
  match s.irqReq with
  | some .kbdTx => { s with irqReq := none }
  | some .uvcKick => kick hwBusy { s with irqReq := none }
  | none => s

/-- The handler of the USB interrupt. `corigine`: the events of a pending controller, given up if
the main loop holds the hardware; `sw`: the software bit is pending. -/
def compositeHandler (corigine : Option (List ControllerEvent)) (sw hwBusy : Bool) (s : UsbState) :
    UsbState :=
  let service := fun s : UsbState => if sw || s.irqReq.isSome then serviceSwRequest hwBusy s else s
  match corigine with
  | none => service s
  | some events => if hwBusy then s else service (events.foldl (fun s e => handleEvent e s) s)

/-- The pieces of work that interrupt the main loop. -/
inductive UsbIrq where
  | event (e : ControllerEvent)
  | service (hwBusy : Bool)
  deriving DecidableEq

def interrupt : UsbIrq → UsbState → UsbState
  | .event e, s => handleEvent e s
  | .service hwBusy, s => serviceSwRequest hwBusy s

/-- The variable that holds an envelope. -/
inductive Holder where
  | current
  | resumed
  deriving DecidableEq

def UsbState.holder : Holder → Option Envelope
  | .current => s.msgOpt
  | .resumed => s.resuming

def UsbState.setHolder (env : Option Envelope) : Holder → UsbState
  | .current => { s with msgOpt := env }
  | .resumed => { s with resuming := env }

inductive LoopAction where
  | receive (body : Option Message)
  | load
  | look (l : Look)
  | takePending
  | stage (h : Holder)
  | answer (h : Holder) (code : Nat)
  | storeChunk (chunk : Chunk)
  | storeCursor
  | storeActive
  | post (request : UsbIrqReq)
  | park
  | reply (h : Holder)
  | clearInFlight
  | clearDiscard
  | clearCursor
  | clearActive
  | swapStreaming
  | forceReset
  | unplug
  | exit
  deriving DecidableEq

/-- `uvc_stage_chunk` on the envelope in a variable. -/
def UsbState.stagedBy (h : Holder) : Option Staged := do
  let env ← s.holder h
  let staging ← s.staging
  return uvcStageChunk env staging s.fid

/-- The chunk is staged under the frame ID bit that its header carries. -/
def UsbState.noteStaged (env : Envelope) (chunk : Option Chunk) : UsbState :=
  match env.body.memoryMessageMut, chunk with
  | some mem, some _ => s.note (.staged env.sender mem.first s.fid)
  | _, _ => s

def perform : LoopAction → UsbState → UsbState
  | .receive none, s => { s with msgOpt := none, received := s.received + 1, look := .elsewhere }
  | .receive (some body), s =>
    let env := { sender := s.received, body }
    UsbState.note (.received env)
      { s with msgOpt := some env, received := s.received + 1, look := .elsewhere }
  | .load, s => s
  | .look l, s => { s with look := l }
  | .takePending, s => { s with resuming := s.pending, pending := none }
  | .stage h, s =>
    match s.stagedBy h with
    | none => s
    | some r =>
      UsbState.noteStaged
        (UsbState.setHolder { s with staging := some r.staging, fid := r.fid } (some r.env) h)
        r.env r.chunk
  | .answer h code, s => s.setHolder ((s.holder h).map (Envelope.setValid code)) h
  | .storeChunk chunk, s => { s with uvc.chunk := chunk }
  | .storeCursor, s => { s with uvc.cursor := 0 }
  | .storeActive, s =>
    UsbState.note (.chunkSet s.uvc.chunk) { s with uvc.frameActive := true, posting := true }
  | .post request, s => { s with irqReq := some request, posting := false }
  | .park, s =>
    match s.msgOpt with
    | none => s
    | some env =>
      UsbState.note (.parked env.sender) { s with pending := some env, msgOpt := none }
  | .reply h, s =>
    match s.holder h with
    | none => s
    | some env => UsbState.note (.dropped env) (s.setHolder none h)
  | .clearInFlight, s => Usb.clearInFlight s
  | .clearDiscard, s => Usb.clearDiscard s
  | .clearCursor, s => Usb.clearCursor s
  | .clearActive, s => Usb.clearActive s
  | .swapStreaming, s => Usb.swapStreaming s
  | .forceReset, s => { s with ring := [] }
  -- with the interrupts disabled, so in one piece
  | .unplug, s => { resetState { s with ring := [] } with irqReq := none }
  | .exit, s => { s with running := false }

abbrev Loop (α : Type) := Thread LoopAction UsbState α

def setChunk (chunk : Chunk) : Loop Unit := do
  Thread.take (.storeChunk chunk)
  Thread.take .storeCursor
  Thread.take .storeActive

def swIrq (request : UsbIrqReq) : Loop Unit :=
  Thread.take (.post request)

/-- Hand a chunk that was staged, if any, to the streamer. -/
def submitChunk : Option Chunk → Loop Unit
  | none => pure ()
  | some chunk => do
    setChunk chunk
    swIrq .uvcKick

def stageAndSubmit (h : Holder) : Loop Unit := do
  let chunk ← Thread.observe (.stage h) fun s => (s.stagedBy h).bind (·.chunk)
  submitChunk chunk

/-- The parked envelope is staged, or refused because the stream is gone. -/
def resumeTaken (staging : Bool) : Loop Unit :=
  if staging then stageAndSubmit .resumed
  else Thread.take (.answer .resumed uvcResultNotStreaming)

def resumeParked : Loop Unit := do
  Thread.take .takePending
  let staging ← Thread.observe .load fun s => s.staging.isSome && s.uvc.streaming
  resumeTaken staging
  Thread.take (.reply .resumed)

/-- The second half of `is_streaming() && frame_busy()`. -/
def resumeUnlessBusy (streaming : Bool) : Loop Unit :=
  if streaming then do
    let busy ← Thread.observe (.look .resumed) fun s => s.uvc.frameActive
    if busy then pure () else resumeParked
  else resumeParked

def uvcResumePending : Loop Unit := do
  let parked ← Thread.observe .load fun s => s.pending.isSome
  if parked then do
    let streaming ← Thread.observe .load fun s => s.uvc.streaming
    resumeUnlessBusy streaming
  else pure ()

/-- The staging buffer is busy: hold the caller, unless another one is held. -/
def parkOrRefuse (parked : Bool) : Loop Unit :=
  if parked then Thread.take (.answer .current uvcResultNotStreaming) else Thread.take .park

def sendFrameStreaming (busy : Bool) : Loop Unit :=
  if busy then do
    let parked ← Thread.observe .load fun s => s.pending.isSome
    parkOrRefuse parked
  else stageAndSubmit .current

def uvcSendFrame : Loop Unit := do
  let refused ← Thread.observe (.look .entered) fun s => !s.uvc.streaming || s.staging.isNone
  if refused then Thread.take (.answer .current uvcResultNotStreaming)
  else do
    let busy ← Thread.observe (.look .elsewhere) fun s => s.uvc.frameActive
    sendFrameStreaming busy

/-- `UvcClass::reset_state` outside the interrupt handler. -/
def resetStateLoop : Loop Unit := do
  Thread.take .clearInFlight
  Thread.take .clearDiscard
  Thread.take .clearCursor
  Thread.take .clearActive
  Thread.take .swapStreaming

/-- The requests of a keyboard message: `KbdTx` a number of times. -/
def keyboardPosts : Nat → Loop Unit
  | 0 => pure ()
  | n + 1 => do
    swIrq .kbdTx
    keyboardPosts n

/-- The messages of the main loop. The envelopes of other messages than `UvcSendFrame` are not
followed. -/
inductive LoopMsg where
  | uvcSendFrame (body : Message)
  | usbBusReset
  | vbusRemove
  | keyboard (posts : Nat)
  | other
  | quit
  deriving DecidableEq

/-- The message as `msg_opt` holds it. -/
def LoopMsg.body : LoopMsg → Option Message
  | uvcSendFrame body => some body
  | _ => none

def dispatch : LoopMsg → Loop Unit
  | .uvcSendFrame _ => uvcSendFrame
  | .usbBusReset => do
    resetStateLoop
    uvcResumePending
    Thread.take .forceReset
  | .vbusRemove => Thread.take .unplug
  | .keyboard posts => keyboardPosts posts
  | .other => pure ()
  | .quit => Thread.take .exit

/-- One turn of the main loop, up to the reply that `reply_and_receive_next` gives. -/
def mainLoopTurn (m : LoopMsg) : Loop Unit := do
  Thread.take (.receive m.body)
  uvcResumePending
  dispatch m
  Thread.take (.reply .current)

/-- A service that has quit takes no more messages. -/
def mainLoop (m : LoopMsg) : Loop Unit := do
  let running ← Thread.observe .load fun s => s.running
  if running then mainLoopTurn m else pure ()

def usbService : Service LoopAction UsbState UsbIrq LoopMsg where
  perform := perform
  interrupt := interrupt
  turn := mainLoop

end BaochipXous.Usb
