import BaochipXous.UsbUvc

/-!
The webcam of the `bao-video` service: the geometry of a capture session, the camera with its
receive channel, and the messages that start, serve, change and stop a session. Exposure, rotation,
colour gains and the display are left out, and the QR scanner but for what it does to the camera.
-/

namespace BaochipXous.Video

open Interleaved

structure UvcMode where
  width : Nat
  height : Nat
  ratio : Nat
  linePad : Nat
  payloadRows : Nat
  slotRows : Nat
  deriving DecidableEq, Inhabited

def UvcMode.payloadData (mode : UvcMode) : Nat :=
  mode.payloadRows * mode.width * 2

/-- Pixels per captured line: the padded width. -/
def UvcMode.linePx (mode : UvcMode) : Nat :=
  mode.width + mode.linePad

def UvcMode.transfers (mode : UvcMode) : Nat :=
  (mode.height + mode.slotRows - 1) / mode.slotRows

def uvcModes : List UvcMode :=
  [{ width := 768, height := 576, ratio := 2, linePad := 10, payloadRows := 3, slotRows := 24 },
    { width := 384, height := 288, ratio := 4, linePad := 8, payloadRows := 6, slotRows := 48 },
    { width := 160, height := 120, ratio := 4, linePad := 24, payloadRows := 15, slotRows := 60 }]

def uvcRingDepth : Nat := 3

/-- The camera's IFRAM, in bytes: `CAM_IFRAM_LEN_PAGES` pages. -/
def iframLen : Nat := 30 * 4096

/-- The RAM copy of a chunk, in 32-bit words: whole pages for `UVC_CHUNK_MAX_BYTES`. -/
def frameWords : Nat := (Usb.uvcChunkMaxBytes + 4095) / 4096 * 4096 / 4

def sensorW : Nat := 1600
def sensorH : Nat := 1200

/-- The line length under a DMA row length override, of 0 for none. -/
def rawLinePx (rowlen linePx : Nat) : Nat :=
  if rowlen ≠ 0 then rowlen else linePx

/-- The console's bring-up geometry. Returns the mode and the DMA row length override. -/
def webcamRawMode (arg3 arg4 : UInt32) (iframLen : Nat) : Except String (UvcMode × Nat) :=
  let w := arg3.toNat / 2 ^ 16
  let h := arg3.toNat % 2 ^ 16
  let rowlen := arg4.toNat / 2 ^ 16
  let ratio := arg4.toNat / 2 ^ 8 % 2 ^ 8
  let pad := arg4.toNat % 2 ^ 8
  let maxW := Usb.uvcMaxPayloadData / 2
  let windowW := (w + pad) * ratio
  let windowH := (h + 1) * ratio
  let payloadRows := max (Usb.uvcMaxPayloadData / (w * 2)) 1
  let slotRows := min (Usb.uvcChunkPayloads * payloadRows) (max h payloadRows)
  let linePx := rawLinePx rowlen (w + pad)
  let slotBytes := slotRows * linePx * 2
  if w < 2 ∨ w % 2 ≠ 0 ∨ w > maxW then
    .error s!"width {w} is not even and between 2 and {maxW}"
  else if h = 0 then
    .error "height is 0"
  else if ratio = 0 ∨ ratio > 14 ∨ (ratio % 2 ≠ 0 ∧ ratio > 7) then
    .error s!"ratio {ratio} is not even up to 14 or odd up to 7"
  else if windowW > sensorW ∨ windowH > sensorH then
    .error s!"sensor window {windowW}x{windowH} exceeds {sensorW}x{sensorH}"
  else if rowlen ≠ 0 ∧ rowlen < w then
    .error s!"DMA row length {rowlen} is shorter than the width"
  else if slotBytes > iframLen then
    .error s!"ring slot of {slotBytes} bytes exceeds the camera IFRAM"
  else
    .ok ({ width := w, height := h, ratio, linePad := pad, payloadRows, slotRows }, rowlen)

/-- How a mode's frame maps onto the camera IFRAM. -/
structure RingGeometry where
  slotRows : Nat
  height : Nat
  lineBytes : Nat
  slotBytes : Nat
  depth : Nat
  transfers : Nat
  deriving DecidableEq, Inhabited

def webcamRingGeometry (mode : UvcMode) (linePx : Nat) : RingGeometry :=
  let lineBytes := linePx * 2
  let slotBytes := mode.slotRows * lineBytes
  { slotRows := mode.slotRows
    height := mode.height
    lineBytes
    slotBytes
    depth := max (min (iframLen / slotBytes) uvcRingDepth) 1
    transfers := mode.transfers }

variable (ring : RingGeometry)

def RingGeometry.rows (k : Nat) : Nat :=
  min ring.slotRows (ring.height - k * ring.slotRows)

/-- The slot of the `k`-th transfer of a frame. The sum wraps at 32 bits. -/
def RingGeometry.slot (slotBase k : Nat) : Nat :=
  (slotBase + k) % 2 ^ 32 % ring.depth

/-- A sample by the sensor frame it is from and its number in that frame. -/
abbrev Sample := Option (Nat × Nat)

/-- A receive transfer: where in the IFRAM, and how many bytes. -/
structure Transfer where
  offset : Nat
  len : Nat

/-- The pixel pipeline: it starts at a start of frame and stops as soon as it is disabled. -/
inductive Pipeline where
  | off
  | armed
  | running (frame : Nat)
  deriving DecidableEq

/-- The sensor: its line length and lines per frame, and the sample it emits next. -/
structure Sensor where
  powered : Bool := false
  lineSamples : Nat := 0
  lines : Nat := 0
  frame : Nat := 0
  next : Nat := 0

structure Camera where
  sensor : Sensor := {}
  pipeline : Pipeline := .off
  /-- the active transfer and the shadow one -/
  queue : List Transfer := []
  /-- samples of the active transfer that have arrived -/
  got : Nat := 0
  /-- the IFRAM, by 16-bit samples -/
  mem : Nat → Sample := fun _ => none
  /-- auxiliary: since the channel was cleared, a sample of a running frame found no transfer -/
  lost : Bool := false

def Sensor.advance (n : Nat) (sensor : Sensor) : Sensor :=
  if sensor.next + n < sensor.lineSamples * sensor.lines then
    { sensor with next := sensor.next + n }
  else
    { sensor with frame := sensor.frame + 1, next := 0 }

/-- A start of frame starts an armed pipeline. -/
def Pipeline.atSample (sensor : Sensor) : Pipeline → Pipeline
  | .armed => if sensor.next = 0 then .running sensor.frame else .armed
  | pipeline => pipeline

/-- The active transfer takes the next `n` samples. -/
def Camera.take (n : Nat) (t : Transfer) (cam : Camera) : Camera :=
  let start := t.offset / 2 + cam.got
  { cam with
    mem := fun i =>
      if start ≤ i ∧ i < start + n then
        some (cam.sensor.frame, cam.sensor.next + (i - start))
      else cam.mem i
    got := cam.got + n
    sensor := cam.sensor.advance n }

/-- `n` samples of a running frame arrive, or as many as the active transfer takes. -/
def Camera.feed (n : Nat) (cam : Camera) : Camera :=
  match cam.queue with
  | [] => { cam with lost := true, sensor := cam.sensor.advance n }
  | t :: rest =>
    let cam := cam.take (min n (t.len / 2 - cam.got)) t
    if t.len / 2 ≤ cam.got then { cam with queue := rest, got := 0 } else cam

/-- At most `n` samples arrive, up to the end of the frame and of the active transfer. -/
def Camera.burst (n : Nat) (cam : Camera) : Camera :=
  let left := cam.sensor.lineSamples * cam.sensor.lines - cam.sensor.next
  let n := min n left
  if cam.sensor.powered = false ∨ n = 0 then cam
  else
    match cam.pipeline.atSample cam.sensor with
    | .running frame => feed n { cam with pipeline := .running frame }
    | pipeline => { cam with pipeline, sensor := cam.sensor.advance n }

/-- The channel holds two transfers. -/
def Camera.enqueueRx (offset len : Nat) (cam : Camera) : Camera :=
  { cam with queue := cam.queue.take 1 ++ [{ offset, len }] }

variable (cam : Camera)

def Camera.dmaClear : Camera :=
  { cam with queue := [], got := 0, lost := false }

def Camera.pipelineEnable (on : Bool) (cam : Camera) : Camera :=
  if on then { cam with pipeline := .armed } else { cam with pipeline := .off }

/-- A transfer is loaded; a shadow transfer is queued. -/
def Camera.dmaState : Bool × Bool :=
  (!cam.queue.isEmpty, 2 ≤ cam.queue.length)

structure Webcam where
  active : Bool := false
  captured : Nat := 0
  restarts : Nat := 0
  session : Nat := 0
  cropWords : Nat := 0
  rowlenOverride : Nat := 0
  mode : Nat := 0
  custom : Option UvcMode := none
  overruns : Nat := 0
  preview : Bool := true
  previewZoom : Bool := false
  previewCol : Nat := 0
  flushPending : Bool := false
  firstSession : Bool := true
  pinned : Bool := false
  hostStreaming : Bool := false
  wbCalibrating : Nat := 0

/-- The counters of the capture ring. -/
structure Counters where
  slotBase : Nat := 0
  slotCounter : Nat := 0
  xferQueued : Nat := 0
  xferDone : Nat := 0

def Webcam.uvcMode (webcam : Webcam) : UvcMode :=
  webcam.custom.getD (uvcModes.getD webcam.mode default)

def webcamLinePx (webcam : Webcam) (mode : UvcMode) : Nat :=
  if webcam.custom.isSome ∧ webcam.rowlenOverride ≠ 0 then webcam.rowlenOverride else mode.linePx

/-- What the `CamIrq` handler computes before its loop. -/
structure View where
  mode : UvcMode
  linePx : Nat
  ring : RingGeometry
  srcWords : Nat
  dstWords : Nat
  crop : Nat
  deriving DecidableEq

def Webcam.view (webcam : Webcam) : View :=
  let mode := webcam.uvcMode
  let linePx := webcamLinePx webcam mode
  let srcWords := linePx * 2 / 4
  let dstWords := mode.width * 2 / 4
  { mode, linePx, srcWords, dstWords
    ring := webcamRingGeometry mode linePx
    crop := min webcam.cropWords (srcWords - dstWords) }

/-- A chunk handed to the USB service. -/
structure SentChunk where
  mode : UvcMode
  first : Bool
  last : Bool
  rows : List (List Sample)

structure VideoState where
  webcam : Webcam := {}
  count : Counters := {}
  cam : Camera := {}
  qrRequest : Bool := false
  /-- the RAM copy of a chunk, by rows -/
  frame : Nat → List Sample := fun _ => []
  /-- what the next step of the white balance will find: too dark, or converged -/
  balanced : Bool := false
  /-- auxiliary: what was sent, latest first -/
  log : List SentChunk := []
  /-- auxiliary: between the look at the channel and the transfer that is queued after it -/
  feeding : Bool := false
  /-- auxiliary: a frame was started whose slots may overlap -/
  overlap : Bool := false
  /-- auxiliary: a frame may have lost or mixed up samples unseen -/
  torn : Bool := false
  /-- auxiliary: the mode and the line length that the running session was started with -/
  started : Option (UvcMode × Nat) := none

/-- The slots of a frame that starts at `slotCounter` are apart where they have to be. -/
def RingGeometry.Apart (slotCounter : Nat) : Prop :=
  (ring.transfers = 1 ∨ 2 ≤ ring.depth) ∧
    (3 ≤ ring.depth → slotCounter + ring.transfers < 2 ^ 32)

instance (ring : RingGeometry) (slotCounter : Nat) : Decidable (ring.Apart slotCounter) :=
  inferInstanceAs (Decidable (_ ∧ _))

/-- The rows of the ring are the lines of the sensor, and whole words. -/
def RingGeometry.Coherent (sensor : Sensor) : Prop :=
  ring.lineBytes = sensor.lineSamples * 2 ∧ sensor.lineSamples % 2 = 0

instance (ring : RingGeometry) (sensor : Sensor) : Decidable (ring.Coherent sensor) :=
  inferInstanceAs (Decidable (_ ∧ _))

inductive CamEvent where
  | burst (n : Nat)
  | light (balanced : Bool)

/-- A sample of a running frame would be lost. -/
def Camera.dry : Bool :=
  match cam.pipeline, cam.queue with
  | .running _, [] => true
  | _, _ => false

def camEvent : CamEvent → VideoState → VideoState
  | .burst n, s =>
    { s with cam := s.cam.burst n, torn := s.torn || (s.feeding && s.cam.dry) }
  | .light balanced, s => { s with balanced }

/-- The arguments of `WebcamControl`. -/
structure Control where
  on : Bool
  source : UInt32
  arg3 : UInt32
  arg4 : UInt32
  deriving DecidableEq

/-- What a message does to the webcam's state, and to the camera. -/
structure Outcome where
  webcam : Webcam
  powerDown : Bool := false
  start : Bool := false

variable (c : Control)

/-- The geometry that a message of the console brings. -/
def Control.raw : Except String (Option (UvcMode × Nat)) :=
  if c.source = 2 then (webcamRawMode c.arg3 c.arg4 iframLen).map some else .ok none

/-- The mode that a message asks for. A bring-up geometry of the size of a host mode counts as that
mode. -/
def Control.mode : Option UvcMode → Nat
  | some m => (uvcModes.findIdx? fun u => u.width == m.width && u.height == m.height).getD 0
  | none => min c.arg3.toNat (uvcModes.length - 1)

/-- The branch of `WebcamControl` that switches the camera on. -/
def controlOn (raw : Option UvcMode) (qrRequest : Bool) (webcam : Webcam) : Outcome :=
  let fromConsole := c.source != 0
  let mode := c.mode raw
  let webcam := if fromConsole then { webcam with pinned := true } else webcam
  let powerDown :=
    webcam.active && (raw.isSome || (webcam.mode != mode && !fromConsole))
  let webcam := if powerDown then { webcam with active := false } else webcam
  if webcam.active || qrRequest then { webcam, powerDown }
  else
    { webcam := { webcam with active := true, mode, custom := raw, captured := 0, overruns := 0,
                              restarts := 0 }
      powerDown
      start := true }

/-- The branch of `WebcamControl` that switches it off, unless the other side wants it. -/
def controlOff (webcam : Webcam) : Outcome :=
  let fromConsole := c.source != 0
  let webcam := if fromConsole then { webcam with pinned := false } else webcam
  let wanted := (webcam.pinned && !fromConsole) || (webcam.hostStreaming && fromConsole)
  if webcam.active && !wanted then
    { webcam := { webcam with pinned := false, custom := none, active := false }, powerDown := true }
  else { webcam }

def webcamControl (qrRequest : Bool) (webcam : Webcam) : Outcome :=
  let webcam := if c.source = 0 then { webcam with hostStreaming := c.on } else webcam
  match c.raw with
  | .error _ => { webcam }
  | .ok raw =>
    let webcam := raw.elim webcam fun r => { webcam with rowlenOverride := r.2 }
    if c.on then controlOn c (raw.map (·.1)) qrRequest webcam else controlOff c webcam

def restartLimit : Nat := 3

def webcamWatchdog (session captured : Nat) (webcam : Webcam) : Outcome :=
  if webcam.active ∧ webcam.session = session ∧ webcam.captured = captured then
    if webcam.restarts < restartLimit then
      { webcam := { webcam with restarts := webcam.restarts + 1 }, powerDown := true, start := true }
    else { webcam := { webcam with active := false }, powerDown := true }
  else { webcam }

/-- What a look at the channel tells the handler to do. -/
inductive Verdict where
  | wait
  | dry
  | serve
  deriving DecidableEq

/-- The transfers that have completed and are not served, from the state of the channel. -/
def completed (s : VideoState) : Nat :=
  let outstanding := s.count.xferQueued - s.count.xferDone
  let (active, shadow) := s.cam.dmaState
  if !active then outstanding else if shadow then 0 else outstanding - 1

def verdict (s : VideoState) : Verdict :=
  if s.count.xferQueued - s.count.xferDone = 0 ∨ completed s = 0 then .wait
  else if 2 ≤ completed s ∧ s.count.xferQueued < ring.transfers then .dry
  else .serve

/-- The atomic actions of the main loop. -/
inductive CamAction where
  | load
  | dmaState (ring : RingGeometry)
  | overrun
  | serve (ring : RingGeometry)
  | pipelineEnable (on : Bool)
  | dmaClear
  | rearm (ring : RingGeometry)
  | enqueue (ring : RingGeometry)
  | countFrame
  | copyRow (v : View) (slot r : Nat)
  | wbAccumulate (v : View) (rows : Nat)
  | wbStep
  | wbWait
  | previewRows (v : View) (zoom : Bool) (first rows : Nat)
  | send (v : View) (first last : Bool) (rows : Nat)
  | drawColumns (transfers : Nat)
  | restartFirst
  | powerDown
  | setup
  | applySettings
  | control (c : Control)
  | watchdog (session captured : Nat)
  | setCrop (words : Nat)
  | setPreview (on zoom : Bool)
  | calibrate (on : Bool)
  | flush
  | acquireQr
  | captureAsync
  | endQr
  deriving DecidableEq

def wbCalFrames : Nat := 24

def previewCols : Nat := 128

/-- Panel columns that are sent per serviced transfer. -/
def previewColsPerStep (transfers : Nat) : Nat :=
  min (max ((previewCols + 2 * transfers - 1) / (2 * transfers)) 4) 16

/-- `IMAGE_WIDTH * IMAGE_HEIGHT` samples. -/
def qrFrameBytes : Nat := 256 * 240 * 2

/-- Take over the outcome of a message; a camera in power-down emits no samples. -/
def VideoState.adopt (s : VideoState) (o : Outcome) : VideoState :=
  { s with
    webcam := o.webcam
    cam.sensor.powered := s.cam.sensor.powered && !o.powerDown }

def perform : CamAction → VideoState → VideoState
  | .load, s => s
  | .dmaState ring, s =>
    { s with feeding := verdict ring s == .serve && decide (s.count.xferQueued < ring.transfers) }
  | .overrun, s => { s with webcam.overruns := (s.webcam.overruns + 1) % 2 ^ 32 }
  | .serve _, s => { s with count.xferDone := s.count.xferDone + 1 }
  | .pipelineEnable on, s => { s with cam := s.cam.pipelineEnable on }
  | .dmaClear, s => { s with cam := s.cam.dmaClear }
  | .rearm ring, s =>
    { s with
      count := { slotBase := s.count.slotCounter
                 slotCounter := (s.count.slotCounter + ring.transfers) % 2 ^ 32
                 xferQueued := 0
                 xferDone := 0 }
      overlap := s.overlap || !decide (ring.Apart s.count.slotCounter)
      torn := s.torn || !decide (ring.Apart s.count.slotCounter ∧ ring.Coherent s.cam.sensor) }
  | .enqueue ring, s =>
    let k := s.count.xferQueued
    { s with
      cam := s.cam.enqueueRx (ring.slot s.count.slotBase k * ring.slotBytes)
        (ring.rows k * ring.lineBytes)
      count.xferQueued := k + 1
      feeding := false }
  | .countFrame, s => { s with webcam.captured := (s.webcam.captured + 1) % 2 ^ 32 }
  | .copyRow v slot r, s =>
    let src := slot * v.ring.slotBytes / 4 + r * v.srcWords + v.crop
    { s with
      frame := Function.update s.frame r
        ((List.range (2 * v.dstWords)).map fun c => s.cam.mem (2 * src + c)) }
  | .wbAccumulate _ _, s => s
  | .wbStep, s =>
    { s with webcam.wbCalibrating := if s.balanced then 0 else s.webcam.wbCalibrating - 1 }
  | .wbWait, s => { s with webcam.wbCalibrating := s.webcam.wbCalibrating - 1 }
  | .previewRows _ _ _ _, s => s
  | .send v first last rows, s =>
    { s with log := { mode := v.mode, first, last, rows := (List.range rows).map s.frame } :: s.log }
  | .drawColumns transfers, s =>
    let n := min (previewColsPerStep transfers) (previewCols - s.webcam.previewCol)
    let col := (s.webcam.previewCol + n) % previewCols
    { s with
      webcam.previewCol := col
      webcam.flushPending := s.webcam.flushPending && !(col == 0 && !s.webcam.preview) }
  | .restartFirst, s =>
    { s with webcam.firstSession := false, cam.sensor.powered := false }
  | .powerDown, s => { s with cam.sensor.powered := false }
  | .setup, s =>
    let mode := s.webcam.uvcMode
    { s with
      webcam.session := (s.webcam.session + 1) % 2 ^ 32
      cam := { mem := s.cam.mem
               sensor := { powered := true, lineSamples := mode.linePx, lines := mode.height + 1,
                           frame := s.cam.sensor.frame + 1 } }
      started := some (mode, webcamLinePx s.webcam mode) }
  | .applySettings, s => { s with webcam.wbCalibrating := 0 }
  | .control c, s => s.adopt (webcamControl c s.qrRequest s.webcam)
  | .watchdog session captured, s => s.adopt (webcamWatchdog session captured s.webcam)
  | .setCrop words, s => { s with webcam.cropWords := words }
  | .setPreview on zoom, s =>
    { s with
      webcam.preview := on
      webcam.previewZoom := zoom
      webcam.previewCol := 0
      webcam.flushPending := s.webcam.flushPending || (!on && s.webcam.active) }
  | .calibrate on, s =>
    { s with webcam.wbCalibrating :=
        if on then (if s.webcam.active then wbCalFrames else s.webcam.wbCalibrating) else 0 }
  | .flush, s => { s with webcam.flushPending := true }
  | .acquireQr, s =>
    { s with
      qrRequest := true
      cam := { mem := s.cam.mem
               sensor := { powered := true, lineSamples := 320, lines := 240,
                           frame := s.cam.sensor.frame + 1 }
               pipeline := .armed
               queue := [{ offset := 0, len := qrFrameBytes }] } }
  | .captureAsync, s =>
    { s with cam := (s.cam.enqueueRx 0 qrFrameBytes).pipelineEnable true }
  | .endQr, s => { s with qrRequest := false }

abbrev Loop (α : Type) := Thread CamAction VideoState α

def enqueueNext (queued : Nat) : Loop Unit :=
  if queued < ring.transfers then Thread.take (.enqueue ring) else pure ()

def webcamRingStartFrame : Loop Unit := do
  Thread.take (.pipelineEnable false)
  Thread.take .dmaClear
  Thread.take (.rearm ring)
  Thread.take (.enqueue ring)
  enqueueNext ring 1
  Thread.take (.pipelineEnable true)

/-- Power the camera up, configure it and start the first capture. -/
def webcamStartCapture : Loop Unit := do
  let ring ← Thread.observe .setup fun s => s.webcam.view.ring
  webcamRingStartFrame ring
  Thread.take .applySettings

/-- Copy rows `r`, `r + 1`, … out of a slot, `n` of them. -/
def copyRows (v : View) (slot : Nat) : Nat → Nat → Loop Unit
  | _, 0 => pure ()
  | r, n + 1 => do
    Thread.take (.copyRow v slot r)
    copyRows v slot (r + 1) n

variable (v : View)

variable (last : Bool)

/-- Grey-world calibration: measure on even counts, let the gains settle on odd ones. -/
def whiteBalance (rows : Nat) : Loop Unit := do
  let calibrating ← Thread.observe .load fun s => s.webcam.wbCalibrating
  if calibrating > 0 ∧ calibrating % 2 = 0 then do
    Thread.take (.wbAccumulate v rows)
    if last then Thread.take .wbStep else pure ()
  else if last = true ∧ calibrating > 0 then Thread.take .wbWait
  else pure ()

def drawPreview (first rows : Nat) : Loop Unit := do
  let shown ← Thread.observe .load fun s => (s.webcam.preview, s.webcam.previewZoom)
  if shown.1 then Thread.take (.previewRows v shown.2 first rows) else pure ()

/-- The panel gets a few columns per transfer. -/
def refreshPanel : Loop Unit := do
  let due ← Thread.observe .load fun s => s.webcam.preview || s.webcam.flushPending
  if due then Thread.take (.drawColumns ring.transfers) else pure ()

/-- The first session after boot restarts itself. Returns whether the handler goes on. -/
def restartFirstSession : Loop Bool := do
  let due ← Thread.observe .load fun s =>
    last && s.webcam.firstSession && decide (4 ≤ s.webcam.captured)
  if due then do
    Thread.take .restartFirst
    webcamStartCapture
    pure false
  else pure true

/-- With three slots the slot two transfers ahead is free, so the channel is fed before the copy. -/
def feedEarly (queued : Nat) : Loop Unit :=
  if 3 ≤ ring.depth then enqueueNext ring queued else pure ()

/-- After the last transfer the frame is counted, and with three slots the next one is started before
the copy. -/
def closeFrame : Loop Unit :=
  if last then do
    Thread.take .countFrame
    if 3 ≤ ring.depth then webcamRingStartFrame ring else pure ()
  else pure ()

/-- With fewer slots the copy comes first. -/
def afterCopy (queued : Nat) : Loop Unit :=
  if ring.depth < 3 then
    if queued < ring.transfers then Thread.take (.enqueue ring)
    else if last then webcamRingStartFrame ring
    else pure ()
  else pure ()

/-- What is done with a chunk once it has been copied out of its slot. -/
def handOut (k rows : Nat) (last : Bool) : Loop Bool := do
  drawPreview v (k * v.ring.slotRows) rows
  Thread.take (.send v (k == 0) last rows)
  refreshPanel v.ring
  restartFirstSession last

/-- Serve the oldest completed transfer. Returns whether the handler goes on. -/
def serveTransfer : Loop Bool := do
  let count ← Thread.observe (.serve v.ring) fun s => s.count
  let k := count.xferDone
  let last := k + 1 == v.ring.transfers
  let rows := v.ring.rows k
  feedEarly v.ring count.xferQueued
  closeFrame v.ring last
  copyRows v (v.ring.slot count.slotBase k) 0 rows
  whiteBalance v last rows
  afterCopy v.ring last count.xferQueued
  handOut v k rows last

/-- Both queued transfers finished before the handler ran: abandon the frame. -/
def abandonFrame : Loop Bool := do
  Thread.take .overrun
  webcamRingStartFrame ring
  pure false

/-- One turn of the loop of the `CamIrq` handler. -/
def camTurn : Loop Bool := do
  let found ← Thread.observe (.dmaState v.ring) (verdict v.ring)
  match found with
  | .wait => pure false
  | .dry => abandonFrame v.ring
  | .serve => serveTransfer v

def camTurns (v : View) : Nat → Loop Unit
  | 0 => pure ()
  | n + 1 => do
    let more ← camTurn v
    if more then camTurns v n else pure ()

def qrFrame (decoded : Bool) : Loop Unit := do
  let wanted ← Thread.observe .load fun s => s.qrRequest
  if wanted then do
    Thread.take .captureAsync
    if decoded then Thread.take .endQr else pure ()
  else Thread.take .powerDown

def camIrq (turns : Nat) (decoded : Bool) : Loop Unit := do
  let running ← Thread.observe .load fun s => (s.webcam.active, s.webcam.view)
  if running.1 then camTurns running.2 turns else qrFrame decoded

/-- The messages of the main loop. `turns`: how far the `CamIrq` loop is followed; `decoded`: the QR
scanner finds a code. -/
inductive VideoMsg where
  | camIrq (turns : Nat) (decoded : Bool)
  | webcamControl (c : Control)
  | webcamWatchdog (session captured : Nat)
  | cropWords (words : Nat)
  | preview (on zoom : Bool)
  | whiteBalance (calibrate : Bool)
  | flush
  | acquireQr
  | keyPress
  | other

/-- A message that starts a session or not. -/
def startIf (start : Bool) : Loop Unit :=
  if start then webcamStartCapture else pure ()

def mainLoop : VideoMsg → Loop Unit
  | .camIrq turns decoded => camIrq turns decoded
  | .webcamControl c => do
    let start ← Thread.observe (.control c) fun s => (webcamControl c s.qrRequest s.webcam).start
    startIf start
  | .webcamWatchdog session captured => do
    let start ← Thread.observe (.watchdog session captured) fun s =>
      (webcamWatchdog session captured s.webcam).start
    startIf start
  | .cropWords words => Thread.take (.setCrop words)
  | .preview on zoom => Thread.take (.setPreview on zoom)
  | .whiteBalance calibrate => Thread.take (.calibrate calibrate)
  | .flush => do
    let busy ← Thread.observe .load fun s => s.webcam.active && !s.webcam.preview
    if busy then Thread.take .flush else pure ()
  | .acquireQr => do
    let refused ← Thread.observe .load fun s => s.webcam.active || s.qrRequest
    if refused then pure () else Thread.take .acquireQr
  | .keyPress => Thread.take .endQr
  | .other => pure ()

def videoService : Service CamAction VideoState CamEvent VideoMsg where
  perform := perform
  interrupt := camEvent
  turn := mainLoop

end BaochipXous.Video
