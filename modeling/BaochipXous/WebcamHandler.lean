import BaochipXous.WebcamCapture

/-!
The `CamIrq` handler, whatever samples arrive between its actions. A turn that finds a finished
transfer feeds the channel and copies the oldest slot while no transfer targets it, in this order
with three slots and in the other with fewer; one that finds the channel run dry starts the frame
again.
-/

namespace BaochipXous.Video

open Interleaved Service

section

/-- The rows since the last chunk that started a frame, in order. -/
def sentRows : List SentChunk → List (List Sample)
  | [] => []
  | chunk :: older => (if chunk.first then [] else sentRows older) ++ chunk.rows

variable (mode : UvcMode)

/-- The data is a stretch of the `r`-th line of a sensor frame, as wide as the image. -/
def SensorRow (F r : Nat) (data : List Sample) : Prop :=
  ∃ d, d + mode.width ≤ mode.linePx ∧
    data = (List.range mode.width).map fun c => some (F, r * mode.linePx + d + c)

/-- The first `n` rows of one sensor frame, in order. -/
structure FirstRows (F n : Nat) (rows : List (List Sample)) : Prop where
  length : rows.length = n
  row : ∀ r data, rows[r]? = some data → SensorRow mode F r data

/-- All rows of the image, from one sensor frame. -/
def FrameWhole (rows : List (List Sample)) : Prop :=
  ∃ F, FirstRows mode F mode.height rows

variable (s : VideoState)

def VideoState.chunk (v : View) (first last : Bool) (rows : Nat) : SentChunk :=
  { mode := v.mode, first, last, rows := (List.range rows).map s.frame }

/-- While a row is copied out of a slot, no transfer in the channel targets the slot. -/
def CamAction.Clear : CamAction → VideoState → Prop
  | .copyRow v slot _, s => ∀ t ∈ s.cam.queue, t.Misses v.ring slot
  | _, _ => True

/-- The last chunk of a frame completes it. -/
def CamAction.Completes : CamAction → VideoState → Prop
  | .send v first last rows, s =>
    last = true → FrameWhole v.mode (sentRows (s.chunk v first last rows :: s.log))
  | _, _ => True

/-- The states in which the main loop takes its actions. -/
structure Ready (a : CamAction) (s : VideoState) : Prop where
  inBounds : a.InBounds s
  clear : s.overlap = false → a.Clear s
  completes : s.torn = false → a.Completes s

theorem Ready.of {a : CamAction} {s : VideoState} (hbounds : a.InBounds s := by exact trivial)
    (hclear : a.Clear s := by exact trivial) (hcompletes : a.Completes s := by exact trivial) : Ready a s :=
  ⟨hbounds, fun _ => hclear, fun _ => hcompletes⟩

/-- What holds in every state. -/
structure Sane : Prop where
  col : s.webcam.previewCol < previewCols
  overlap : s.torn = false → s.overlap = false

variable (g : Geometry)

/-- A session with a geometry is running. -/
structure Session (s : VideoState) : Prop where
  active : s.webcam.active = true
  mode : s.webcam.uvcMode = g.mode
  linePx : webcamLinePx s.webcam g.mode = g.linePx
  emits : Emits g s.cam.sensor
  started : s.started = some (g.mode, g.linePx)

/-- A frame is being captured, with at least `lo` transfers finished. -/
structure Capturing (count : Counters) (lo : Nat) (s : VideoState) : Prop where
  sane : Sane s
  session : Session g s
  counters : s.count = count
  inFrame : InFrame g count
  apart : s.overlap = false → g.ring.Apart count.slotBase
  flow : ∃ fin, lo ≤ fin ∧ Channel g count s.cam fin ∧ (s.torn = false → Flow g count s.cam fin)

/-- No transfer in the channel targets the slot, and the slot keeps its samples. -/
structure Guarded (slot rows : Nat) (content : Nat → Sample) (s : VideoState) :
    Prop where
  misses : s.overlap = false → ∀ t ∈ s.cam.queue, t.Misses g.ring slot
  holds : s.torn = false → ∀ j < rows * g.linePx, s.cam.mem (slot * g.slotSize + j) = content j

/-- The frame that the pipeline passes on. -/
def Running (F : Nat) (s : VideoState) : Prop :=
  s.torn = false → s.cam.pipeline = .running F

/-- The handler is about to queue a transfer, and nothing was lost. -/
structure Fresh : Prop where
  feeding : s.feeding = true
  kept : s.torn = false → s.cam.lost = false

/-- The copy of the chunk and the chunks sent so far. -/
structure Kept (frame : Nat → List Sample) (log : List SentChunk) (s : VideoState) : Prop where
  frame : s.frame = frame
  log : s.log = log

theorem Sensor.advance_dims (m : Nat) (sensor : Sensor) :
    (sensor.advance m).lineSamples = sensor.lineSamples ∧ (sensor.advance m).lines = sensor.lines := by
  rw [advance]
  split
  · exact ⟨rfl, rfl⟩
  · exact ⟨rfl, rfl⟩

section Camera

variable {g : Geometry} {cam cam' : Camera} {F : Nat}

variable (h : Burst cam cam')
include h

theorem Burst.emits (hemits : Emits g cam.sensor) : Emits g cam'.sensor := by
  have hadvance : ∀ m, Emits g (cam.sensor.advance m) := fun m =>
    ⟨(Sensor.advance_dims m cam.sensor).1.trans hemits.lineSamples,
      (Sensor.advance_dims m cam.sensor).2.trans hemits.lines⟩
  cases h with
  | none => exact hemits
  | skip m _ | lose m _ _ _ | take m _ _ _ _ _ _ | finish m _ _ _ _ _ _ _ => exact hadvance m

theorem Burst.running (hrun : cam.pipeline = .running F) : cam'.pipeline = .running F := by
  have hstays : ∀ F', cam.pipeline.atSample cam.sensor = .running F' → F' = F := by
    intro F' hF
    rw [hrun] at hF
    cases hF
    rfl
  cases h with
  | none => exact hrun
  | skip _ hidle => exact absurd hrun (hidle F)
  | lose _ F' hF _ | take _ F' _ _ hF _ _ | finish _ F' _ _ hF _ _ _ => exact congrArg _ (hstays F' hF)

theorem Burst.off (hoff : cam.pipeline = .off) : ∃ sensor, cam' = { cam with sensor } := by
  have hidle : ∀ F, cam.pipeline.atSample cam.sensor ≠ .running F := by
    intro F hF
    rw [hoff] at hF
    cases hF
  cases h with
  | none => exact ⟨cam.sensor, rfl⟩
  | skip m _ => exact ⟨_, rfl⟩
  | lose _ F' hF _ | take _ F' _ _ hF _ _ | finish _ F' _ _ hF _ _ _ => exact absurd hF (hidle F')

theorem Burst.lost (hrun : cam.pipeline = .running F)
    (hdry : cam.dry = false) (hkept : cam.lost = false) : cam'.lost = false := by
  cases h with
  | none | skip _ _ => exact hkept
  | lose _ _ _ hempty =>
    rw [Camera.dry, hrun, hempty] at hdry
    cases hdry
  | take _ _ _ _ _ _ _ | finish _ _ _ _ _ _ _ _ => exact hkept

theorem Burst.queue_subset : ∀ t ∈ cam'.queue, t ∈ cam.queue := by
  cases h with
  | none | skip _ _ | lose _ _ _ _ | take _ _ _ _ _ _ _ => exact fun _ ht => ht
  | finish _ _ _ _ _ hqueue _ _ => exact fun t ht => hqueue ▸ List.mem_cons_of_mem _ ht

omit h in
theorem take_mem_of_misses {m i slot : Nat} {t : Transfer} (hmiss : t.Misses g.ring slot)
    (hm : cam.got + m ≤ t.len / 2) (hlow : slot * g.slotSize ≤ i)
    (hhigh : i < (slot + 1) * g.slotSize) : (cam.take m t).mem i = cam.mem i := by
  refine Camera.take_mem_of_lt ?_
  by_contra hin
  have hbytes : g.ring.slotBytes = g.slotSize * 2 := g.slotBytes_eq
  have hfirst : slot * g.ring.slotBytes = slot * g.slotSize * 2 := by rw [hbytes, Nat.mul_assoc]
  have hlast : (slot + 1) * g.ring.slotBytes = (slot + 1) * g.slotSize * 2 := by
    rw [hbytes, Nat.mul_assoc]
  -- the second byte of the sample
  refine hmiss (2 * i + 1) (by omega) (by omega) ⟨?_, ?_⟩
  · omega
  · omega

theorem Burst.mem_of_misses {slot : Nat}
    (hmiss : ∀ t ∈ cam.queue, t.Misses g.ring slot) {i : Nat} (hlow : slot * g.slotSize ≤ i)
    (hhigh : i < (slot + 1) * g.slotSize) : cam'.mem i = cam.mem i := by
  cases h with
  | none => rfl
  | skip _ _ => rfl
  | lose _ _ _ _ => rfl
  | take m _ t _ _ hqueue hmore =>
    exact take_mem_of_misses (hmiss t (hqueue ▸ List.mem_cons_self)) hmore.le hlow hhigh
  | finish m _ t _ _ hqueue hle hend =>
    rcases Nat.lt_or_ge cam.got (t.len / 2) with hlt | hge
    · exact take_mem_of_misses (hmiss t (hqueue ▸ List.mem_cons_self)) (by omega) hlow hhigh
    · obtain rfl : m = 0 := by omega
      exact Camera.take_mem_of_lt (by omega)

end Camera

section Stable

variable {g : Geometry} {count : Counters} {lo slot rows F : Nat} {content : Nat → Sample}
  {frame : Nat → List Sample} {log : List SentChunk} {s : VideoState}

theorem Kept.event (h : Kept frame log s) (e : CamEvent) : Kept frame log (camEvent e s) := by
  cases e <;> exact ⟨h.frame, h.log⟩

theorem torn_of_event {e : CamEvent} (h : (camEvent e s).torn = false) : s.torn = false := by
  cases e with
  | burst n => exact (Bool.or_eq_false_iff.mp h).1
  | light balanced => exact h

theorem Sane.event (h : Sane s) (e : CamEvent) : Sane (camEvent e s) := by
  refine ⟨?_, fun htorn => ?_⟩
  · cases e <;> exact h.col
  · have hoverlap := h.overlap (torn_of_event htorn)
    cases e <;> exact hoverlap

theorem Session.event (h : Session g s) (e : CamEvent) : Session g (camEvent e s) := by
  cases e with
  | burst n => exact { h with emits := (Burst.of_burst n s.cam).emits h.emits }
  | light balanced => exact { h with }

theorem Capturing.event (h : Capturing g count lo s) (e : CamEvent) : Capturing g count lo (camEvent e s) := by
  refine ⟨h.sane.event e, h.session.event e, ?_, h.inFrame, ?_, ?_⟩
  · cases e <;> exact h.counters
  · cases e <;> exact h.apart
  · obtain ⟨fin, hlo, hchannel, hflow⟩ := h.flow
    cases e with
    | burst n =>
      obtain ⟨fin', hle, hchannel', hflow'⟩ :=
        hchannel.burst h.inFrame h.session.emits (Burst.of_burst n s.cam)
      exact ⟨fin', hlo.trans hle, hchannel', fun htorn =>
        hflow' (hflow (torn_of_event (e := .burst n) htorn))⟩
    | light balanced => exact ⟨fin, hlo, ⟨hchannel.le, hchannel.queue⟩, hflow⟩

theorem Guarded.event (h : Guarded g slot rows content s) (hsane : Sane s)
    (hrows : rows ≤ g.mode.slotRows) (e : CamEvent) : Guarded g slot rows content (camEvent e s) := by
  cases e with
  | burst n =>
    have hburst := Burst.of_burst n s.cam
    refine ⟨fun hoverlap t ht => h.misses hoverlap t (hburst.queue_subset t ht), fun htorn j hj => ?_⟩
    have hwas := torn_of_event (e := .burst n) htorn
    have hsize : j < g.slotSize := hj.trans_le (Nat.mul_le_mul_right _ hrows)
    have hhigh : slot * g.slotSize + j < (slot + 1) * g.slotSize := by
      rw [Nat.succ_mul]
      omega
    exact (hburst.mem_of_misses (h.misses (hsane.overlap hwas)) (Nat.le_add_right _ _) hhigh).trans (h.holds hwas j hj)
  | light balanced => exact ⟨h.misses, h.holds⟩

theorem Running.event (h : Running F s) (e : CamEvent) : Running F (camEvent e s) := by
  intro htorn
  have hrun := h (torn_of_event htorn)
  cases e with
  | burst n => exact (Burst.of_burst n s.cam).running hrun
  | light balanced => exact hrun

theorem Fresh.event (h : Fresh s) (hrun : Running F s) (e : CamEvent) : Fresh (camEvent e s) := by
  cases e with
  | burst n =>
    refine ⟨h.feeding, fun htorn => ?_⟩
    obtain ⟨hwas, hfed⟩ := Bool.or_eq_false_iff.mp htorn
    have hdry : s.cam.dry = false := by simpa [h.feeding] using hfed
    exact (Burst.of_burst n s.cam).lost (hrun hwas) hdry (h.kept hwas)
  | light balanced => exact ⟨h.feeding, h.kept⟩

end Stable

/-- A frame is being set up, with the pipeline off and some of its transfers queued. -/
structure Starting (slotBase queued : Nat) (s : VideoState) : Prop where
  sane : Sane s
  session : Session g s
  pipeline : s.cam.pipeline = .off
  got : s.cam.got = 0
  lost : s.cam.lost = false
  counters : s.count =
    { slotBase, slotCounter := (slotBase + g.mode.transfers) % 2 ^ 32, xferQueued := queued,
      xferDone := 0 }
  queue : s.cam.queue = (List.range' 0 queued).map (g.transfer slotBase)
  apart : s.overlap = false → g.ring.Apart slotBase
  coherent : s.torn = false → g.linePx = g.mode.linePx ∧ g.linePx % 2 = 0
  feeding : 0 < queued → s.feeding = false

def Geometry.firstCount (slotBase : Nat) : Counters where
  slotBase := slotBase
  slotCounter := (slotBase + g.mode.transfers) % 2 ^ 32
  xferQueued := min 2 g.mode.transfers
  xferDone := 0

variable (e : CamEvent)

section StartFrame

variable {ok : VideoState → CamEvent → Prop} {g : Geometry} {A T : Prop}
  {slotBase queued slot rows : Nat} {content : Nat → Sample}
  {frame : Nat → List Sample} {log : List SentChunk} {s : VideoState}

theorem Starting.event (h : Starting g slotBase queued s) (e : CamEvent) :
    Starting g slotBase queued (camEvent e s) := by
  have hsane := h.sane.event e
  have hsession := h.session.event e
  cases e with
  | burst n =>
    obtain ⟨sensor, hcam⟩ := (Burst.of_burst n s.cam).off h.pipeline
    have hstate : camEvent (.burst n) s =
        { s with cam := { s.cam with sensor }, torn := s.torn || (s.feeding && s.cam.dry) } := by
      rw [camEvent, hcam]
    rw [hstate] at hsane hsession ⊢
    exact ⟨hsane, hsession, h.pipeline, h.got, h.lost, h.counters, h.queue, h.apart,
      fun htorn => h.coherent (Bool.or_eq_false_iff.mp htorn).1, h.feeding⟩
  | light balanced => exact { h with sane := hsane, session := hsession }

theorem Starting.enqueue (h : Starting g slotBase queued s) (hone : queued ≤ 1) :
    Starting g slotBase (queued + 1) (perform (.enqueue g.ring) s) := by
  have hqueue : (perform (.enqueue g.ring) s).cam.queue =
      s.cam.queue.take 1 ++ [g.transfer s.count.slotBase s.count.xferQueued] := rfl
  refine ⟨{ h.sane with }, { h.session with }, h.pipeline, h.got, h.lost, ?_, ?_, h.apart, h.coherent, fun _ => rfl⟩
  · simp [perform, h.counters]
  · rw [hqueue, h.counters, List.take_of_length_le (by rw [h.queue]; simpa using hone), h.queue,
      List.range'_concat, List.map_append]
    simp

theorem inBounds_enqueue (hmore : s.count.xferQueued < g.mode.transfers) : CamAction.InBounds (.enqueue g.ring) s := by
  refine ⟨(Fits.depth_pos g.mode g.linePx).ne', (g.fits.mul_slotRows_lt hmore).le, ?_⟩
  have hslot := g.fits.slot_end_le (Fits.slot_lt g.mode g.linePx s.count.slotBase s.count.xferQueued)
  have hrows := Fits.rows_mul_le g.mode g.linePx s.count.xferQueued
  exact (Nat.add_le_add_left hrows _).trans hslot

theorem Starting.inBounds (h : Starting g slotBase queued s) (hmore : queued < g.mode.transfers) :
    CamAction.InBounds (.enqueue g.ring) s := inBounds_enqueue (by rwa [h.counters])

theorem Starting.capturing (h : Starting g slotBase (min 2 g.mode.transfers) s) :
    Capturing g (g.firstCount slotBase) 0 (perform (.pipelineEnable true) s) := by
  have hpos := g.fits.transfers_pos
  have hframe : InFrame g (g.firstCount slotBase) :=
    ⟨rfl, lt_min (by decide) hpos, min_le_right _ _, Nat.zero_le _, min_le_left _ _⟩
  refine ⟨{ h.sane with }, { h.session with }, h.counters, hframe, h.apart,
    0, le_rfl, ⟨Nat.zero_le _, h.queue⟩, fun htorn => ?_⟩
  obtain ⟨hcoherent, heven⟩ := h.coherent htorn
  refine ⟨h.apart (h.sane.overlap htorn), hcoherent, heven, fun _ => ?_,
    fun hzero => absurd hzero hframe.queued_pos.ne, fun hlost => ?_, fun _ => ⟨rfl, h.got, h.lost⟩,
    nofun, nofun, nofun⟩
  · change s.cam.got < _
    rw [h.got]
    exact Geometry.size_pos hpos
  · change s.cam.lost = true at hlost
    rw [h.lost] at hlost
    cases hlost

theorem Guarded.enqueue (h : Guarded g slot rows content s)
    (hne : s.overlap = false → g.ring.slot s.count.slotBase s.count.xferQueued ≠ slot) :
    Guarded g slot rows content (perform (.enqueue g.ring) s) := by
  refine ⟨fun hoverlap t ht => ?_, h.holds⟩
  rcases List.mem_append.mp ht with hold | hnew
  · exact h.misses hoverlap t (List.mem_of_mem_take hold)
  · rw [List.mem_singleton.mp hnew]
    exact g.transfer_misses (hne hoverlap)

/-- What the handler keeps while it serves a transfer: a guarded slot, the rows copied and chunks
sent so far, and what it knows unless slots overlap (`A`) or a frame is torn (`T`). -/
structure Holding (g : Geometry) (A T : Prop) (slot rows : Nat) (content : Nat → Sample)
    (frame : Nat → List Sample) (log : List SentChunk) (s : VideoState) : Prop where
  rows_le : rows ≤ g.mode.slotRows
  sane : Sane s
  guarded : Guarded g slot rows content s
  kept : Kept frame log s
  apart : s.overlap = false → A
  sound : s.torn = false → T

theorem Holding.event (h : Holding g A T slot rows content frame log s) (e : CamEvent) :
    Holding g A T slot rows content frame log (camEvent e s) := by
  refine ⟨h.rows_le, h.sane.event e, h.guarded.event h.sane h.rows_le e, h.kept.event e, ?_,
    fun htorn => h.sound (torn_of_event htorn)⟩
  cases e <;> exact h.apart

@[simp]
theorem camEvent_count (s : VideoState) : (camEvent e s).count = s.count := by
  cases e <;> rfl

@[simp]
theorem camEvent_feeding (s : VideoState) : (camEvent e s).feeding = s.feeding := by
  cases e <;> rfl

@[simp]
theorem camEvent_webcam (s : VideoState) : (camEvent e s).webcam = s.webcam := by
  cases e <;> rfl

theorem enqueue_first_guarantees (hstart : Starting g slotBase queued s)
    (hold : Holding g A T slot rows content frame log s) (hone : queued ≤ 1)
    (hmore : queued < g.mode.transfers)
    (hne : A → g.ring.Apart slotBase → g.ring.slot slotBase queued ≠ slot) :
    videoService.Guarantees ok Ready (Thread.take (.enqueue g.ring))
      (fun _ s => Starting g slotBase (queued + 1) s ∧ Holding g A T slot rows content frame log s) s := by
  refine .take (P := fun s => Starting g slotBase queued s ∧ Holding g A T slot rows content frame log s)
    (fun s e hs _ => ⟨hs.1.event e, hs.2.event e⟩) ⟨hstart, hold⟩ fun s1 h1 => ⟨?_, ?_, ?_⟩
  · exact .of (h1.1.inBounds hmore)
  · exact h1.1.enqueue hone
  · refine ⟨h1.2.rows_le, { h1.2.sane with }, h1.2.guarded.enqueue ?_,
      ⟨h1.2.kept.frame, h1.2.kept.log⟩, h1.2.apart, h1.2.sound⟩
    rw [h1.1.counters]
    exact fun hoverlap => hne (h1.2.apart hoverlap) (h1.1.apart hoverlap)

/-- The pipeline is stopped before a frame is set up. -/
structure Stopped (g : Geometry) (slotBase : Nat) (s : VideoState) : Prop where
  session : Session g s
  counter : s.count.slotCounter = slotBase
  pipeline : s.cam.pipeline = .off

/-- The channel is empty. -/
structure Cleared (g : Geometry) (slotBase : Nat) (s : VideoState) : Prop
    extends Stopped g slotBase s where
  queue : s.cam.queue = []
  got : s.cam.got = 0
  lost : s.cam.lost = false

theorem Stopped.event (h : Stopped g slotBase s) (e : CamEvent) : Stopped g slotBase (camEvent e s) := by
  refine ⟨h.session.event e, ?_, ?_⟩
  · rw [camEvent_count]
    exact h.counter
  · cases e with
    | burst n =>
      obtain ⟨sensor, hcam⟩ := (Burst.of_burst n s.cam).off h.pipeline
      rw [camEvent, hcam]
      exact h.pipeline
    | light balanced => exact h.pipeline

theorem Cleared.event (h : Cleared g slotBase s) (e : CamEvent) : Cleared g slotBase (camEvent e s) := by
  have hstopped := h.toStopped.event e
  cases e with
  | burst n =>
    obtain ⟨sensor, hcam⟩ := (Burst.of_burst n s.cam).off h.pipeline
    rw [camEvent, hcam] at hstopped ⊢
    exact ⟨hstopped, h.queue, h.got, h.lost⟩
  | light balanced => exact ⟨hstopped, h.queue, h.got, h.lost⟩

theorem Cleared.rearm (h : Cleared g slotBase s) (hsane : Sane s) :
    Starting g slotBase 0 (perform (.rearm g.ring) s) := by
  have hapart : (perform (.rearm g.ring) s).overlap = false → s.overlap = false ∧ g.ring.Apart slotBase := by
    intro hoverlap
    obtain ⟨hwas, hok⟩ := Bool.or_eq_false_iff.mp hoverlap
    rw [h.counter] at hok
    exact ⟨hwas, by simpa using hok⟩
  have htorn : (perform (.rearm g.ring) s).torn = false → s.torn = false ∧
      g.ring.Apart slotBase ∧ g.ring.Coherent s.cam.sensor := by
    intro htorn
    obtain ⟨hwas, hok⟩ := Bool.or_eq_false_iff.mp htorn
    rw [h.counter] at hok
    exact ⟨hwas, by simpa using hok⟩
  refine ⟨⟨hsane.col, fun hnot => ?_⟩, { h.session with }, h.pipeline, h.got, h.lost, ?_, h.queue,
    fun hoverlap => (hapart hoverlap).2, fun hnot => ?_, fun hpos => absurd hpos (Nat.lt_irrefl 0)⟩
  · obtain ⟨hwas, hok, _⟩ := htorn hnot
    refine Bool.or_eq_false_iff.mpr ⟨hsane.overlap hwas, ?_⟩
    rw [h.counter]
    simpa using hok
  · simp only [perform, h.counter]
    rfl
  · obtain ⟨_, _, hline, heven⟩ := htorn hnot
    rw [h.session.emits.lineSamples] at hline heven
    have hpx : g.linePx = g.mode.linePx := Nat.eq_of_mul_eq_mul_right (by decide) hline
    exact ⟨hpx, hpx ▸ heven⟩

theorem Holding.of_same {s' : VideoState} (h : Holding g A T slot rows content frame log s)
    (hsane : Sane s') (hqueue : ∀ t ∈ s'.cam.queue, t ∈ s.cam.queue)
    (hoverlap : s'.overlap = false → s.overlap = false) (hmem : s'.cam.mem = s.cam.mem)
    (htorn : s'.torn = false → s.torn = false) (hframe : s'.frame = s.frame)
    (hlog : s'.log = s.log) : Holding g A T slot rows content frame log s' := by
  refine ⟨h.rows_le, hsane, ⟨fun hnot t ht => ?_, fun hnot j hj => ?_⟩,
    ⟨hframe.trans h.kept.frame, hlog.trans h.kept.log⟩, fun hnot => h.apart (hoverlap hnot),
    fun hnot => h.sound (htorn hnot)⟩
  · exact h.guarded.misses (hoverlap hnot) t (hqueue t ht)
  · rw [hmem]
    exact h.guarded.holds (htorn hnot) j hj

theorem webcamRingStartFrame_guarantees (hsession : Session g s)
    (hold : Holding g A T slot rows content frame log s) (hcounter : s.count.slotCounter = slotBase)
    (hne : A → g.ring.Apart slotBase → ∀ i < min 2 g.mode.transfers, g.ring.slot slotBase i ≠ slot) :
    videoService.Guarantees ok Ready (webcamRingStartFrame g.ring)
      (fun _ s => Capturing g (g.firstCount slotBase) 0 s ∧ s.feeding = false ∧
        Holding g A T slot rows content frame log s) s := by
  have hpos := g.fits.transfers_pos
  rw [webcamRingStartFrame, guarantees_bind]
  refine .take (P := fun s => Session g s ∧ s.count.slotCounter = slotBase ∧ Holding g A T slot rows content frame log s)
    (fun s e hs _ => ⟨hs.1.event e, (congrArg _ (camEvent_count e s)).trans hs.2.1, hs.2.2.event e⟩)
    ⟨hsession, hcounter, hold⟩
    fun s1 h1 => ⟨.of, ?_⟩
  rw [guarantees_bind]
  refine .take (P := fun s => Stopped g slotBase s ∧ Holding g A T slot rows content frame log s)
    (fun s e hs _ => ⟨hs.1.event e, hs.2.event e⟩) ⟨⟨{ h1.1 with }, h1.2.1, rfl⟩, ?_⟩
    fun s2 h2 => ⟨.of, ?_⟩
  · exact h1.2.2.of_same { h1.2.2.sane with } (fun _ ht => ht) id rfl id rfl rfl
  rw [guarantees_bind]
  refine .take (P := fun s => Cleared g slotBase s ∧ Holding g A T slot rows content frame log s)
    (fun s e hs _ => ⟨hs.1.event e, hs.2.event e⟩)
    ⟨⟨⟨{ h2.1.session with }, h2.1.counter, h2.1.pipeline⟩, rfl, rfl, rfl⟩, ?_⟩
    fun s3 h3 => ⟨.of, ?_⟩
  · exact h2.2.of_same { h2.2.sane with } nofun id rfl id rfl rfl
  have hstart := h3.1.rearm h3.2.sane
  have hold3 : Holding g A T slot rows content frame log (perform (.rearm g.ring) s3) :=
    h3.2.of_same hstart.sane (fun _ ht => ht) (fun h => (Bool.or_eq_false_iff.mp h).1) rfl
      (fun h => (Bool.or_eq_false_iff.mp h).1) rfl rfl
  refine (enqueue_first_guarantees hstart hold3 (Nat.zero_le 1) hpos
    (fun hA hapart => hne hA hapart 0 (lt_min (by decide) hpos))).bind fun _ s4 h4 => ?_
  rw [guarantees_bind]
  have hsecond : videoService.Guarantees ok Ready (enqueueNext g.ring 1)
      (fun _ s => Starting g slotBase (min 2 g.mode.transfers) s ∧ Holding g A T slot rows content frame log s) s4 := by
    rw [enqueueNext]
    split
    · rename_i hmore
      have hmin : min 2 g.mode.transfers = 2 := min_eq_left hmore
      rw [hmin]
      exact enqueue_first_guarantees h4.1 h4.2 le_rfl hmore (fun hA hapart => hne hA hapart 1 (lt_min (by decide) hmore))
    · rename_i hnot
      have htransfers : g.ring.transfers = g.mode.transfers := rfl
      have hmin : min 2 g.mode.transfers = 1 := by omega
      rw [hmin]
      exact .pure h4
  refine hsecond.mono fun _ s5 h5 => ?_
  refine .take (P := fun s => Starting g slotBase (min 2 g.mode.transfers) s ∧
      Holding g A T slot rows content frame log s)
    (fun s e hs _ => ⟨hs.1.event e, hs.2.event e⟩) h5
    fun s6 h6 => ⟨.of, h6.1.capturing, ?_, ?_⟩
  · exact h6.1.feeding (lt_min (by decide) hpos)
  · exact h6.2.of_same { h6.2.sane with } (fun _ ht => ht) id rfl id rfl rfl

end StartFrame

end

open RingGeometry

/-- The locals of the handler belong to the geometry. -/
structure View.Of (g : Geometry) (v : View) : Prop where
  mode : v.mode = g.mode
  linePx : v.linePx = g.linePx
  ring : v.ring = g.ring
  srcWords : v.srcWords = g.linePx * 2 / 4
  dstWords : v.dstWords = g.mode.width * 2 / 4
  crop : v.crop ≤ g.linePx * 2 / 4 - g.mode.width * 2 / 4

theorem View.of_webcam {g : Geometry} {webcam : Webcam} (hmode : webcam.uvcMode = g.mode)
    (hline : webcamLinePx webcam g.mode = g.linePx) : View.Of g webcam.view := by
  have hlinePx : webcam.view.linePx = g.linePx := by
    change webcamLinePx webcam webcam.uvcMode = g.linePx
    rwa [hmode]
  refine ⟨hmode, hlinePx, ?_, ?_, ?_, ?_⟩
  · change webcamRingGeometry webcam.uvcMode webcam.view.linePx = g.ring
    rw [hmode, hlinePx]
    rfl
  · change webcam.view.linePx * 2 / 4 = _
    rw [hlinePx]
  · change webcam.uvcMode.width * 2 / 4 = _
    rw [hmode]
  · change min webcam.cropWords (webcam.view.linePx * 2 / 4 - webcam.uvcMode.width * 2 / 4) ≤ _
    rw [hlinePx, hmode]
    exact min_le_right _ _

/-- The two states differ in nothing that the capture looks at. -/
structure Aside (s s' : VideoState) : Prop where
  cam : s'.cam = s.cam
  count : s'.count = s.count
  feeding : s'.feeding = s.feeding
  overlap : s'.overlap = s.overlap
  torn : s'.torn = s.torn
  started : s'.started = s.started
  active : s'.webcam.active = s.webcam.active
  mode : s'.webcam.uvcMode = s.webcam.uvcMode
  linePx : ∀ mode, webcamLinePx s'.webcam mode = webcamLinePx s.webcam mode
  col : s.webcam.previewCol < previewCols → s'.webcam.previewCol < previewCols

/-- Bookkeeping, the copy, the chunk that is sent, the preview, the settings and the end of a QR
request. -/
def CamAction.aside : CamAction → Bool
  | .load | .overrun | .countFrame | .copyRow _ _ _ | .wbAccumulate _ _ | .wbStep | .wbWait
  | .previewRows _ _ _ _ | .send _ _ _ _ | .drawColumns _ | .applySettings | .setCrop _
  | .setPreview _ _ | .calibrate _ | .flush | .endQr => true
  | _ => false

theorem aside_perform (a : CamAction) (h : a.aside = true) (s : VideoState) : Aside s (perform a s) := by
  have hcol : ∀ n, n % previewCols < previewCols := fun n => Nat.mod_lt n (by decide)
  cases a with
  | drawColumns _ => exact ⟨rfl, rfl, rfl, rfl, rfl, rfl, rfl, rfl, fun _ => rfl, fun _ => hcol _⟩
  | setPreview _ _ => exact ⟨rfl, rfl, rfl, rfl, rfl, rfl, rfl, rfl, fun _ => rfl, fun _ => hcol 0⟩
  | _ => first | exact ⟨rfl, rfl, rfl, rfl, rfl, rfl, rfl, rfl, fun _ => rfl, id⟩ | cases h

section Handler

variable {ok : VideoState → CamEvent → Prop} {g : Geometry} {A T : Prop} {count : Counters}
  {lo slot rows F : Nat} {content : Nat → Sample} {frame : Nat → List Sample}
  {log : List SentChunk} {s s' : VideoState} {v : View}

/-- What the handler makes of the channel's state is the number of finished transfers. -/
theorem completed_eq {fin : Nat} (hchannel : Channel g s.count s.cam fin)
    (hframe : InFrame g s.count) (hdone : s.count.xferDone ≤ fin) :
    completed s = fin - s.count.xferDone := by
  have hlength : s.cam.queue.length = s.count.xferQueued - fin := by
    rw [hchannel.queue, List.length_map, List.length_range']
  have hle := hchannel.le
  have hahead := hframe.ahead
  rw [completed, Camera.dmaState]
  cases hqueue : s.cam.queue with
  | nil =>
    rw [hqueue, List.length_nil] at hlength
    simp only [List.isEmpty_nil, Bool.not_true, Bool.not_false, if_true]
    omega
  | cons t rest =>
    rw [hqueue, List.length_cons] at hlength
    cases rest with
    | nil =>
      rw [List.length_nil] at hlength
      simp
      omega
    | cons t' rest =>
      rw [List.length_cons] at hlength
      simp
      omega

/-- Between two turns: the channel is fed, and what was sent of the frame is its start. -/
structure Between (g : Geometry) (count : Counters) (s : VideoState) : Prop where
  capturing : Capturing g count count.xferDone s
  queued : count.xferQueued = min (count.xferDone + 2) g.mode.transfers
  done_lt : count.xferDone < g.mode.transfers
  feeding : s.feeding = false
  sent : s.torn = false → 0 < count.xferDone → ∃ F, s.cam.pipeline = .running F ∧
    FirstRows g.mode F (count.xferDone * g.mode.slotRows) (sentRows s.log)

theorem Between.event (h : Between g count s) (e : CamEvent) : Between g count (camEvent e s) := by
  refine ⟨h.capturing.event e, h.queued, h.done_lt, ?_, fun htorn hpos => ?_⟩
  · rw [camEvent_feeding]
    exact h.feeding
  · obtain ⟨F, hrun, hrows⟩ := h.sent (torn_of_event htorn) hpos
    have hrunning : Running F s := fun _ => hrun
    refine ⟨F, hrunning.event e htorn, ?_⟩
    cases e <;> exact hrows

variable {slotBase : Nat}

theorem Capturing.between (h : Capturing g (g.firstCount slotBase) 0 s)
    (hfeeding : s.feeding = false) : Between g (g.firstCount slotBase) s :=
  ⟨h, rfl, g.fits.transfers_pos, hfeeding, fun _ hpos => absurd hpos (Nat.lt_irrefl 0)⟩

/-- The handler has found a finished transfer. -/
structure Found (g : Geometry) (count : Counters) (F : Nat) (s : VideoState) : Prop where
  capturing : Capturing g count (count.xferDone + 1) s
  running : Running F s
  fresh : count.xferQueued < g.mode.transfers → Fresh s
  full : count.xferQueued = g.mode.transfers → s.feeding = false
  sent : s.torn = false → 0 < count.xferDone →
    FirstRows g.mode F (count.xferDone * g.mode.slotRows) (sentRows s.log)

theorem Found.event (h : Found g count F s) (e : CamEvent) : Found g count F (camEvent e s) := by
  refine ⟨h.capturing.event e, h.running.event e, fun hlt => (h.fresh hlt).event h.running e,
    fun heq => ?_, fun htorn hpos => ?_⟩
  · rw [camEvent_feeding]
    exact h.full heq
  · have hrows := h.sent (torn_of_event htorn) hpos
    cases e <;> exact hrows

theorem Between.look (h : Between g count s) :
    (verdict g.ring s = .wait ∨ verdict g.ring s = .dry) ∧ Between g count (perform (.dmaState g.ring) s) ∨
      verdict g.ring s = .serve ∧ ∃ F, Found g count F (perform (.dmaState g.ring) s) := by
  obtain ⟨fin, hlo, hchannel, hflow⟩ := h.capturing.flow
  obtain rfl := h.capturing.counters
  have hcompleted := completed_eq hchannel h.capturing.inFrame hlo
  have hle := hchannel.le
  have hpos := h.capturing.inFrame.queued_pos
  have hqueued := h.capturing.inFrame.queued_le
  by_cases hserve : verdict g.ring s = .serve
  · right
    have hfin : s.count.xferDone + 1 ≤ fin := by
      by_contra hnot
      rw [verdict, if_pos (.inr (by omega))] at hserve
      cases hserve
    -- a frame of which something has arrived is running
    have hrun : ∃ F, s.torn = false → s.cam.pipeline = .running F := by
      cases hp : s.cam.pipeline with
      | running F => exact ⟨F, fun _ => rfl⟩
      | off | armed =>
        refine ⟨0, fun htorn => ?_⟩
        obtain ⟨hzero, _⟩ := (hflow htorn).idle (fun F hF => by rw [hp] at hF; cases hF)
        omega
    obtain ⟨F, hrun⟩ := hrun
    refine ⟨hserve, F, ⟨{ h.capturing.sane with },
      { h.capturing.session with }, rfl, h.capturing.inFrame, h.capturing.apart,
      fin, hfin, hchannel, hflow⟩, hrun, fun hlt => ⟨?_, fun htorn => ?_⟩, fun heq => ?_,
      fun htorn hpos => ?_⟩
    · simp [perform, hserve, hlt]
    · -- with transfers left to queue, two finished ones would have been an overrun
      have hbusy : fin ≠ s.count.xferQueued := by
        rintro rfl
        have hq := h.queued
        rw [verdict, if_neg, if_pos] at hserve
        · cases hserve
        · exact ⟨by omega, hlt⟩
        · omega
      change s.cam.lost = false
      by_contra hlost
      exact hbusy ((hflow htorn).lost (by simpa using hlost))
    · simp [perform, heq]
    · obtain ⟨F', hF, hrows⟩ := h.sent htorn hpos
      rw [hrun htorn] at hF
      cases hF
      exact hrows
  · left
    refine ⟨?_, ?_⟩
    · cases hv : verdict g.ring s with
      | wait => exact .inl rfl
      | dry => exact .inr rfl
      | serve => exact absurd hv hserve
    · have hfeeding : (perform (.dmaState g.ring) s).feeding = false := by simp [perform, hserve]
      exact ⟨⟨{ h.capturing.sane with }, { h.capturing.session with }, rfl,
        h.capturing.inFrame, h.capturing.apart, h.capturing.flow⟩, h.queued, h.done_lt, hfeeding,
        h.sent⟩

theorem depth_le (g : Geometry) : g.ring.depth ≤ 3 := max_le (min_le_right _ _) (by decide)

theorem slot_succ_ne {k : Nat} (hapart : g.ring.Apart slotBase)
    (hlt : k + 1 < g.mode.transfers) : g.ring.slot slotBase (k + 1) ≠ g.ring.slot slotBase k := by
  have htwo : 2 ≤ g.ring.depth := hapart.1.resolve_left (by rw [g.ring_transfers]; omega)
  refine (slot_ne (Nat.lt_succ_self k) (by omega) (depth_le g) fun hd => ?_).symm
  have hwrap := hapart.2 hd.ge
  rw [g.ring_transfers] at hwrap
  omega

theorem slot_next_frame_ne {k i : Nat} (hdepth : 3 ≤ g.ring.depth)
    (hapart : g.ring.Apart slotBase) (hlast : k + 1 = g.mode.transfers)
    (hnext : g.ring.Apart ((slotBase + g.mode.transfers) % 2 ^ 32)) (hi : i < min 2 g.mode.transfers) :
    g.ring.slot ((slotBase + g.mode.transfers) % 2 ^ 32) i ≠ g.ring.slot slotBase k := by
  have hwrap := hapart.2 hdepth
  have hwrap' := hnext.2 hdepth
  rw [g.ring_transfers] at hwrap hwrap'
  rw [Nat.mod_eq_of_lt hwrap] at hwrap' ⊢
  have hslot : g.ring.slot (slotBase + g.mode.transfers) i = g.ring.slot slotBase (k + 1 + i) := by
    rw [slot, slot, hlast, Nat.add_assoc]
  rw [hslot]
  refine (slot_ne (by omega) (by omega) (depth_le g) fun _ => ?_).symm
  omega

/-- The frame goes on after the transfer that is served, with `queued` transfers queued. -/
structure Ahead (g : Geometry) (count : Counters) (F queued : Nat) (s : VideoState) : Prop where
  capturing : Capturing g { count with xferDone := count.xferDone + 1, xferQueued := queued }
    (count.xferDone + 1) s
  running : Running F s

/-- The handler still has to feed the channel, if the frame has transfers left. -/
structure Due (g : Geometry) (queued : Nat) (s : VideoState) : Prop where
  fresh : queued < g.mode.transfers → Fresh s
  full : queued = g.mode.transfers → s.feeding = false

variable {queued : Nat}

theorem Ahead.event (h : Ahead g count F queued s) (e : CamEvent) : Ahead g count F queued (camEvent e s) :=
  ⟨h.capturing.event e, h.running.event e⟩

theorem Due.event (h : Due g queued s) (hrun : Running F s) (e : CamEvent) : Due g queued (camEvent e s) :=
  ⟨fun hlt => (h.fresh hlt).event hrun e, fun heq => (camEvent_feeding e s).trans (h.full heq)⟩

/-- What is known of the frame that is being sent, as long as it is not torn. -/
structure Partly (g : Geometry) (F k : Nat) (log : List SentChunk) : Prop where
  coherent : g.linePx = g.mode.linePx
  even : g.linePx % 2 = 0
  sent : 0 < k → FirstRows g.mode F (k * g.mode.slotRows) (sentRows log)

def Geometry.samples (g : Geometry) (F k : Nat) : Nat → Sample :=
  fun j => some (F, g.start k + j)

theorem Found.serve (h : Found g count F s) :
    Ahead g count F count.xferQueued (perform (.serve g.ring) s) ∧ Due g count.xferQueued (perform (.serve g.ring) s) ∧
      Holding g (g.ring.Apart count.slotBase) (Partly g F count.xferDone s.log)
        (g.ring.slot count.slotBase count.xferDone) (g.ring.rows count.xferDone)
        (g.samples F count.xferDone) s.frame s.log (perform (.serve g.ring) s) := by
  obtain ⟨fin, hlo, hchannel, hflow⟩ := h.capturing.flow
  obtain rfl := h.capturing.counters
  have hframe := h.capturing.inFrame
  have hle := hchannel.le
  have hahead := hframe.ahead
  have hqueued := hframe.queued_le
  have hsane : Sane (perform (.serve g.ring) s) := { h.capturing.sane with }
  refine ⟨⟨⟨hsane, { h.capturing.session with }, rfl,
    ⟨hframe.counter, hframe.queued_pos, hqueued, ?_, ?_⟩, h.capturing.apart, fin, hlo,
    ⟨hle, hchannel.queue⟩, fun htorn => ?_⟩, h.running⟩,
    ⟨fun hlt => ⟨(h.fresh hlt).feeding, (h.fresh hlt).kept⟩, h.full⟩,
    ⟨min_le_left _ _, hsane, ⟨fun hoverlap t ht => ?_, fun htorn j hj => ?_⟩, ⟨rfl, rfl⟩,
      h.capturing.apart, fun htorn => ?_⟩⟩
  · change s.count.xferDone + 1 ≤ s.count.xferQueued
    omega
  · change s.count.xferQueued ≤ s.count.xferDone + 1 + 2
    omega
  · have hwas := hflow htorn
    refine { hwas with whole := fun F' hF k hdone hk => hwas.whole F' hF k ?_ hk }
    change s.count.xferDone + 1 ≤ k at hdone
    omega
  · -- at most the next transfer is in the channel
    change t ∈ s.cam.queue at ht
    rw [hchannel.queue, List.mem_map] at ht
    obtain ⟨i, hi, rfl⟩ := ht
    rw [List.mem_range'_1] at hi
    obtain rfl : i = s.count.xferDone + 1 := by omega
    exact g.transfer_misses (slot_succ_ne (h.capturing.apart hoverlap) (by omega))
  · exact (hflow htorn).whole F (h.running htorn) s.count.xferDone le_rfl (by omega) j hj
  · exact ⟨(hflow htorn).coherent, (hflow htorn).even, h.sent htorn⟩

theorem Ahead.enqueue (h : Ahead g count F queued s) (hdue : Due g queued s)
    (hlt : queued < g.mode.transfers) (hnear : queued ≤ count.xferDone + 2) :
    Ahead g count F (queued + 1) (perform (.enqueue g.ring) s) := by
  obtain ⟨fin, hlo, hchannel, hflow⟩ := h.capturing.flow
  have hframe := h.capturing.inFrame
  have hle : fin ≤ queued := hchannel.le
  have hcount := h.capturing.counters
  have hchannel' : Channel g { count with xferDone := count.xferDone + 1, xferQueued := queued + 1 }
      (perform (.enqueue g.ring) s).cam fin := by
    refine ⟨hle.trans (Nat.le_succ queued), ?_⟩
    have hqueue : (perform (.enqueue g.ring) s).cam.queue =
        s.cam.queue.take 1 ++ [g.transfer s.count.slotBase s.count.xferQueued] := rfl
    have hshort : s.cam.queue.length ≤ 1 := by
      rw [hchannel.queue, List.length_map, List.length_range']
      change queued - fin ≤ 1
      omega
    have hsub : queued + 1 - fin = queued - fin + 1 := by omega
    rw [hqueue, List.take_of_length_le hshort, hchannel.queue, hcount]
    change List.map (g.transfer count.slotBase) (List.range' fin (queued - fin)) ++ [g.transfer count.slotBase queued] =
      List.map (g.transfer count.slotBase) (List.range' fin (queued + 1 - fin))
    rw [hsub, List.range'_concat, List.map_append, Nat.one_mul, Nat.add_sub_cancel' hle]
    rfl
  refine ⟨⟨{ h.capturing.sane with }, { h.capturing.session with }, ?_,
    ⟨hframe.counter, Nat.succ_pos queued, hlt, hframe.done_le.trans (Nat.le_succ queued), ?_⟩,
    h.capturing.apart, fin, hlo, hchannel', fun htorn => ?_⟩, h.running⟩
  · simp [perform, hcount]
  · change queued + 1 ≤ count.xferDone + 1 + 2
    omega
  · have hwas := hflow htorn
    have hkept := (hdue.fresh hlt).kept htorn
    have hidle : fin = queued → s.cam.got = 0 := hwas.got_eq
    refine ⟨hwas.apart, hwas.coherent, hwas.even, fun _ => ?_, fun heq => ?_, fun hlost => ?_,
      hwas.idle, hwas.aligned, hwas.whole, fun F' hF _ j hj => ?_⟩
    · rcases Nat.lt_or_eq_of_le hle with hmore | heq
      · exact hwas.got_lt hmore
      · change s.cam.got < _
        rw [hidle heq, heq]
        exact Geometry.size_pos hlt
    · change fin = queued + 1 at heq
      omega
    · change s.cam.lost = true at hlost
      rw [hkept] at hlost
      cases hlost
    · change j < s.cam.got at hj
      rcases Nat.lt_or_eq_of_le hle with hmore | heq
      · exact hwas.part F' hF hmore j hj
      · rw [hidle heq] at hj
        exact absurd hj (Nat.not_lt_zero j)

theorem Ahead.inBounds (h : Ahead g count F queued s)
    (hlt : queued < g.mode.transfers) : CamAction.InBounds (.enqueue g.ring) s :=
  inBounds_enqueue (by rwa [h.capturing.counters])

section

variable (h : Aside s s')
include h

theorem Aside.sane (hs : Sane s) : Sane s' := ⟨h.col hs.col, by rw [h.torn, h.overlap]; exact hs.overlap⟩

theorem Aside.session (hs : Session g s) : Session g s' :=
  ⟨h.active.trans hs.active, h.mode.trans hs.mode, (h.linePx _).trans hs.linePx,
    by rw [h.cam]; exact hs.emits, h.started.trans hs.started⟩

theorem Aside.capturing (hs : Capturing g count lo s) : Capturing g count lo s' := by
  refine ⟨h.sane hs.sane, h.session hs.session, h.count.trans hs.counters, hs.inFrame, ?_, ?_⟩
  · rw [h.overlap]
    exact hs.apart
  · rw [h.cam, h.torn]
    exact hs.flow

theorem Aside.running (hs : Running F s) : Running F s' := by
  rwa [Running, h.cam, h.torn]

theorem Aside.ahead {queued : Nat} (hs : Ahead g count F queued s) : Ahead g count F queued s' :=
  ⟨h.capturing hs.capturing, h.running hs.running⟩

theorem Aside.due {queued : Nat} (hs : Due g queued s) : Due g queued s' := by
  refine ⟨fun hlt => ⟨h.feeding.trans (hs.fresh hlt).feeding, ?_⟩, fun heq => h.feeding.trans (hs.full heq)⟩
  rw [h.cam, h.torn]
  exact (hs.fresh hlt).kept

end

/-- The channel is fed: the frame goes on, or after its last transfer the next one was started. -/
structure Fed (g : Geometry) (count : Counters) (F : Nat) (s : VideoState) : Prop where
  feeding : s.feeding = false
  next : count.xferDone + 1 = g.mode.transfers ∧
      (∃ slotBase, Capturing g (g.firstCount slotBase) 0 s) ∨
    count.xferDone + 1 < g.mode.transfers ∧
      Ahead g count F (min (count.xferDone + 3) g.mode.transfers) s

/-- During the copy: with three slots the channel is fed already, with fewer it waits. -/
def Pending (g : Geometry) (count : Counters) (F : Nat) (s : VideoState) : Prop :=
  3 ≤ g.ring.depth ∧ Fed g count F s ∨
    g.ring.depth < 3 ∧ Ahead g count F count.xferQueued s ∧ Due g count.xferQueued s

theorem Fed.of (h : Fed g count F s) (hfeeding : s'.feeding = s.feeding)
    (hcapturing : ∀ count lo, Capturing g count lo s → Capturing g count lo s')
    (hahead : ∀ queued, Ahead g count F queued s → Ahead g count F queued s') : Fed g count F s' :=
  ⟨hfeeding.trans h.feeding, h.next.imp (And.imp_right fun hnext => hnext.imp fun _ => hcapturing _ _)
    (And.imp_right (hahead _))⟩

theorem Fed.event (h : Fed g count F s) (e : CamEvent) : Fed g count F (camEvent e s) :=
  h.of (camEvent_feeding e s) (fun _ _ hs => hs.event e) fun _ hs => hs.event e

theorem Pending.event (h : Pending g count F s) (e : CamEvent) : Pending g count F (camEvent e s) := by
  rcases h with ⟨hdeep, hfed⟩ | ⟨hshallow, hahead, hdue⟩
  · exact .inl ⟨hdeep, hfed.event e⟩
  · exact .inr ⟨hshallow, hahead.event e, hdue.event hahead.running e⟩

theorem Aside.fed (h : Aside s s') (hs : Fed g count F s) : Fed g count F s' :=
  hs.of h.feeding (fun _ _ => h.capturing) fun _ => h.ahead

theorem Aside.pending (h : Aside s s') (hs : Pending g count F s) : Pending g count F s' := by
  rcases hs with ⟨hdeep, hfed⟩ | ⟨hshallow, hahead, hdue⟩
  · exact .inl ⟨hdeep, h.fed hfed⟩
  · exact .inr ⟨hshallow, h.ahead hahead, h.due hdue⟩

/-- The handler holds on to the slot of the transfer that is done. -/
abbrev HoldsDone (g : Geometry) (count : Counters) (T : Prop) : Nat → (Nat → Sample) →
    (Nat → List Sample) → List SentChunk → VideoState → Prop :=
  Holding g (g.ring.Apart count.slotBase) T (g.ring.slot count.slotBase count.xferDone)

section

variable (hqueued : count.xferQueued = min (count.xferDone + 2) g.mode.transfers)
  (hlt : count.xferDone < g.mode.transfers) (hahead : Ahead g count F count.xferQueued s)
  (hdue : Due g count.xferQueued s) (hold : HoldsDone g count T rows content frame log s)

include hqueued hahead hdue hold in
theorem feedEarly_guarantees (hdeep : 3 ≤ g.ring.depth) :
    videoService.Guarantees ok Ready (feedEarly g.ring count.xferQueued)
      (fun _ s => Ahead g count F (min (count.xferDone + 3) g.mode.transfers) s ∧ s.feeding = false ∧
        HoldsDone g count T rows content frame log s) s := by
  rw [feedEarly, if_pos hdeep, enqueueNext]
  split
  · rename_i hmore
    rw [g.ring_transfers] at hmore
    have hnext : count.xferQueued = count.xferDone + 2 := by omega
    have hmin : min (count.xferDone + 3) g.mode.transfers = count.xferQueued + 1 := by omega
    refine .take (P := fun s => Ahead g count F count.xferQueued s ∧ Due g count.xferQueued s ∧
        HoldsDone g count T rows content frame log s)
      (fun s e hs _ => ⟨hs.1.event e, hs.2.1.event hs.1.running e, hs.2.2.event e⟩)
      ⟨hahead, hdue, hold⟩ fun s1 h1 => ⟨.of (h1.1.inBounds hmore), ?_⟩
    rw [hmin]
    refine ⟨h1.1.enqueue h1.2.1 hmore hnext.le, rfl, h1.2.2.rows_le,
      { h1.2.2.sane with }, h1.2.2.guarded.enqueue fun hoverlap => ?_,
      ⟨h1.2.2.kept.frame, h1.2.2.kept.log⟩, h1.2.2.apart, h1.2.2.sound⟩
    rw [h1.1.capturing.counters]
    change g.ring.slot count.slotBase count.xferQueued ≠ _
    rw [hnext]
    refine (RingGeometry.slot_ne (by omega) (by omega) (depth_le g) fun hd => ?_).symm
    have hwrap := (h1.2.2.apart hoverlap).2 hd.ge
    rw [g.ring_transfers] at hwrap
    omega
  · rename_i hnot
    rw [g.ring_transfers] at hnot
    have hmin : min (count.xferDone + 3) g.mode.transfers = count.xferQueued := by omega
    have hfull : count.xferQueued = g.mode.transfers := by omega
    rw [hmin]
    exact .pure ⟨hahead, hdue.full hfull, hold⟩

include hlt hold in
theorem closeFrame_guarantees (hdeep : 3 ≤ g.ring.depth) (hfeeding : s.feeding = false)
    (hahead : Ahead g count F (min (count.xferDone + 3) g.mode.transfers) s) :
    videoService.Guarantees ok Ready (closeFrame g.ring (count.xferDone + 1 == g.ring.transfers))
      (fun _ s => Fed g count F s ∧ HoldsDone g count T rows content frame log s) s := by
  rw [closeFrame]
  split
  · rename_i hlast
    rw [beq_iff_eq, g.ring_transfers] at hlast
    rw [guarantees_bind]
    refine .take (P := fun s => Ahead g count F (min (count.xferDone + 3) g.mode.transfers) s ∧
        HoldsDone g count T rows content frame log s)
      (fun s e hs _ => ⟨hs.1.event e, hs.2.event e⟩) ⟨hahead, hold⟩
      fun s1 h1 => ⟨.of, ?_⟩
    have hcounter : s1.count.slotCounter = (count.slotBase + g.mode.transfers) % 2 ^ 32 := by
      rw [h1.1.capturing.counters]
      exact h1.1.capturing.inFrame.counter
    have haside : Aside s1 (perform .countFrame s1) := aside_perform .countFrame rfl s1
    refine (webcamRingStartFrame_guarantees (haside.session h1.1.capturing.session)
      (h1.2.of_same (haside.sane h1.2.sane) (fun _ ht => ht) id rfl id rfl rfl) hcounter
      fun hapart hnext i hi => slot_next_frame_ne hdeep hapart hlast hnext hi).mono fun _ s2 h2 => ?_
    exact ⟨⟨h2.2.1, .inl ⟨hlast, _, h2.1⟩⟩, h2.2.2⟩
  · rename_i hnot
    rw [beq_iff_eq, g.ring_transfers] at hnot
    exact .pure ⟨⟨hfeeding, .inr ⟨by omega, hahead⟩⟩, hold⟩

include hqueued hlt hahead hdue hold in
theorem beforeCopy_guarantees : videoService.Guarantees ok Ready
      (do feedEarly g.ring count.xferQueued
          closeFrame g.ring (count.xferDone + 1 == g.ring.transfers))
      (fun _ s => Pending g count F s ∧ HoldsDone g count T rows content frame log s) s := by
  rw [guarantees_bind]
  by_cases hdeep : 3 ≤ g.ring.depth
  · refine (feedEarly_guarantees hqueued hahead hdue hold hdeep).mono fun _ s1 h1 => ?_
    refine (closeFrame_guarantees hlt h1.2.2 hdeep h1.2.1 h1.1).mono fun _ s2 h2 => ?_
    exact ⟨.inl ⟨hdeep, h2.1⟩, h2.2⟩
  · rw [feedEarly, if_neg hdeep]
    refine .pure ?_
    have hpending : Pending g count F s := .inr ⟨by omega, hahead, hdue⟩
    rw [closeFrame]
    split
    · rw [guarantees_bind]
      refine .take (P := fun s => Pending g count F s ∧ HoldsDone g count T rows content frame log s)
        (fun s e hs _ => ⟨hs.1.event e, hs.2.event e⟩) ⟨hpending, hold⟩
        fun s1 h1 => ⟨.of, ?_⟩
      have haside : Aside s1 (perform .countFrame s1) := aside_perform .countFrame rfl s1
      refine .pure ⟨haside.pending h1.1, ?_⟩
      exact h1.2.of_same (haside.sane h1.2.sane) (fun _ ht => ht) id rfl id rfl rfl
    · exact .pure ⟨hpending, hold⟩

end

/-- The first `n` rows of the copy are rows of the `k`-th transfer. -/
def CopiedRows (g : Geometry) (F k n : Nat) (frame : Nat → List Sample) : Prop :=
  ∀ r < n, SensorRow g.mode F (k * g.mode.slotRows + r) (frame r)

/-- A row that is copied out of a slot with whole lines of the sensor is part of one of them. -/
theorem sensorRow_of_slot {k r : Nat} {mem : Nat → Sample} (hv : View.Of g v)
    (hcoherent : g.linePx = g.mode.linePx) (heven : g.linePx % 2 = 0)
    (hmem : ∀ j < g.ring.rows k * g.linePx, mem (slot * g.slotSize + j) = g.samples F k j)
    (hr : r < g.ring.rows k) :
    SensorRow g.mode F (k * g.mode.slotRows + r) ((List.range (2 * v.dstWords)).map fun c =>
        mem (2 * (slot * v.ring.slotBytes / 4 + r * v.srcWords + v.crop) + c)) := by
  have hwidth := g.fits.width_even
  have hwide := g.fits.width_le
  have hcrop := hv.crop
  have hdst : 2 * v.dstWords = g.mode.width := by
    rw [hv.dstWords]
    omega
  have hindex : 2 * (slot * v.ring.slotBytes / 4 + r * v.srcWords + v.crop) =
      slot * g.slotSize + r * g.linePx + 2 * v.crop := by
    rw [hv.ring, hv.srcWords]
    exact (words_eq_iff slot g.mode.slotRows r g.linePx v.crop).mpr (.inl heven)
  have hroom : 2 * v.crop + g.mode.width ≤ g.linePx := by omega
  refine ⟨2 * v.crop, hcoherent ▸ hroom, ?_⟩
  rw [hdst]
  refine List.map_congr_left fun c hc => ?_
  have hc : c < g.mode.width := List.mem_range.mp hc
  have hrow : (r + 1) * g.linePx ≤ g.ring.rows k * g.linePx := Nat.mul_le_mul_right _ hr
  rw [Nat.succ_mul] at hrow
  rw [hindex, Nat.add_assoc, Nat.add_assoc, hmem _ (by omega), Geometry.samples, Geometry.start, Geometry.slotSize, ← hcoherent]
  congr 2
  ring

theorem Holding.copyRow {k r : Nat} (hv : View.Of g v) (hr : r < g.ring.rows k)
    (h : Holding g A (Partly g F k log ∧ CopiedRows g F k r frame) slot (g.ring.rows k) (g.samples F k) frame log s) :
    ∃ frame, Holding g A (Partly g F k log ∧ CopiedRows g F k (r + 1) frame) slot (g.ring.rows k)
      (g.samples F k) frame log (perform (.copyRow v slot r) s) := by
  refine ⟨_, h.rows_le, { h.sane with }, ⟨h.guarded.misses, h.guarded.holds⟩,
    ⟨rfl, h.kept.log⟩, h.apart, fun htorn => ?_⟩
  obtain ⟨hpartly, hrows⟩ := h.sound htorn
  refine ⟨hpartly, fun i hi => ?_⟩
  rcases Nat.lt_succ_iff_lt_or_eq.mp hi with hlt | rfl
  · have hother : (perform (.copyRow v slot r) s).frame i = s.frame i :=
      Function.update_of_ne hlt.ne _ _
    rw [hother, h.kept.frame]
    exact hrows i hlt
  · have hself : (perform (.copyRow v slot i) s).frame i = _ := Function.update_self _ _ _
    rw [hself]
    exact sensorRow_of_slot hv hpartly.coherent hpartly.even (h.guarded.holds htorn) hr

theorem copyRows_guarantees {k : Nat} (hv : View.Of g v) (hslot : slot < g.ring.depth) (n r : Nat)
    (hn : r + n = g.ring.rows k) (hpending : Pending g count F s)
    (hold : Holding g A (Partly g F k log ∧ CopiedRows g F k r frame) slot (g.ring.rows k) (g.samples F k) frame log s) :
    videoService.Guarantees ok Ready (copyRows v slot r n) (fun _ s => Pending g count F s ∧ ∃ frame,
        Holding g A (Partly g F k log ∧ CopiedRows g F k (g.ring.rows k) frame) slot (g.ring.rows k)
          (g.samples F k) frame log s) s := by
  induction n generalizing r frame s with
  | zero =>
    rw [Nat.add_zero] at hn
    rw [hn] at hold
    exact .pure ⟨hpending, frame, hold⟩
  | succ n ih =>
    have hr : r < g.ring.rows k := by omega
    rw [copyRows, guarantees_bind]
    refine .take (P := fun s => Pending g count F s ∧
        Holding g A (Partly g F k log ∧ CopiedRows g F k r frame) slot (g.ring.rows k) (g.samples F k) frame log s)
      (fun s e hs _ => ⟨hs.1.event e, hs.2.event e⟩) ⟨hpending, hold⟩ fun s1 h1 => ⟨?_, ?_⟩
    · have hrow : r < g.mode.slotRows := hr.trans_le (min_le_left _ _)
      refine ⟨?_, fun hoverlap => ?_, fun _ => trivial⟩
      · dsimp only [CamAction.InBounds]
        rw [hv.ring, hv.srcWords, hv.dstWords]
        exact ⟨g.fits.copy_end_le hslot hrow hv.crop, g.fits.row_end_le hrow⟩
      dsimp only [CamAction.Clear]
      rw [hv.ring]
      exact h1.2.guarded.misses hoverlap
    · obtain ⟨frame', hold'⟩ := h1.2.copyRow hv hr
      exact ih (r + 1) (by omega) ((aside_perform (.copyRow v slot r) rfl s1).pending h1.1) hold'

/-- The rows of the chunk and the chunks before it. -/
structure Copied (T : Prop) (frame : Nat → List Sample) (log : List SentChunk) (s : VideoState) :
    Prop where
  kept : Kept frame log s
  sound : s.torn = false → T

theorem Copied.event (h : Copied T frame log s) (e : CamEvent) : Copied T frame log (camEvent e s) :=
  ⟨h.kept.event e, fun htorn => h.sound (torn_of_event htorn)⟩

theorem Capturing.holding (h : Capturing g count lo s) (hcopied : Copied T frame log s) :
    Holding g True T g.ring.depth 0 (fun _ => none) frame log s := by
  refine ⟨Nat.zero_le _, h.sane, ⟨fun _ t ht => ?_, fun _ j hj => ?_⟩, hcopied.kept, fun _ => trivial, hcopied.sound⟩
  · obtain ⟨fin, _, hchannel, _⟩ := h.flow
    rw [hchannel.queue, List.mem_map] at ht
    obtain ⟨i, _, rfl⟩ := ht
    exact g.transfer_misses (Fits.slot_lt g.mode g.linePx count.slotBase i).ne
  · rw [Nat.zero_mul] at hj
    exact absurd hj (Nat.not_lt_zero j)

theorem restartFrame_guarantees (hsession : Session g s)
    (hold : Holding g True T g.ring.depth 0 (fun _ => none) frame log s) :
    videoService.Guarantees ok Ready (webcamRingStartFrame g.ring)
      (fun _ s => (∃ slotBase, Capturing g (g.firstCount slotBase) 0 s) ∧ s.feeding = false ∧
        Copied T frame log s) s := by
  refine (webcamRingStartFrame_guarantees hsession hold rfl fun _ _ i _ =>
    (Fits.slot_lt g.mode g.linePx _ i).ne).mono fun _ s1 h1 => ?_
  exact ⟨⟨_, h1.1⟩, h1.2.1, h1.2.2.kept, h1.2.2.sound⟩

theorem whiteBalance_guarantees (hv : View.Of g v) (last : Bool) (hrows : rows ≤ g.mode.slotRows)
    (hpending : Pending g count F s) (hcopied : Copied T frame log s) :
    videoService.Guarantees ok Ready (whiteBalance v last rows)
      (fun _ s => Pending g count F s ∧ Copied T frame log s) s := by
  let P s := Pending g count F s ∧ Copied T frame log s
  have hstable : ∀ s e, P s → ok s e → P (videoService.interrupt e s) :=
    fun s e hs _ => ⟨hs.1.event e, hs.2.event e⟩
  have hcount : ∀ s, P s → videoService.Guarantees ok Ready (Thread.take .wbStep) (fun _ => P) s :=
    fun s hs => .take hstable hs fun s1 h1 => ⟨.of,
      (aside_perform .wbStep rfl s1).pending h1.1, ⟨h1.2.kept.frame, h1.2.kept.log⟩, h1.2.sound⟩
  rw [whiteBalance, guarantees_bind]
  refine .observe hstable ⟨hpending, hcopied⟩ fun s1 h1 => ⟨.of, ?_⟩
  split
  · rw [guarantees_bind]
    refine .take hstable h1 fun s2 h2 => ⟨.of (fun r hr => ?_), ?_⟩
    · rw [hv.mode]
      exact g.fits.row_end_le (hr.trans_le hrows)
    · split
      · exact hcount s2 h2
      · exact .pure h2
  · split
    · exact .take hstable h1 fun s2 h2 => ⟨.of,
        (aside_perform .wbWait rfl s2).pending h2.1, ⟨h2.2.kept.frame, h2.2.kept.log⟩, h2.2.sound⟩
    · exact .pure h1

theorem afterCopy_guarantees (hqueued : count.xferQueued = min (count.xferDone + 2) g.mode.transfers)
    (hlt : count.xferDone < g.mode.transfers) (hpending : Pending g count F s)
    (hcopied : Copied T frame log s) :
    videoService.Guarantees ok Ready (afterCopy g.ring (count.xferDone + 1 == g.ring.transfers) count.xferQueued)
      (fun _ s => Fed g count F s ∧ Copied T frame log s) s := by
  rw [afterCopy]
  rcases hpending with ⟨hdeep, hfed⟩ | ⟨hshallow, hahead, hdue⟩
  · rw [if_neg (by omega)]
    exact .pure ⟨hfed, hcopied⟩
  · rw [if_pos hshallow]
    split
    · rename_i hmore
      rw [g.ring_transfers] at hmore
      have hnext : count.xferQueued = count.xferDone + 2 := by omega
      have hmin : min (count.xferDone + 3) g.mode.transfers = count.xferQueued + 1 := by omega
      refine .take (P := fun s => (Ahead g count F count.xferQueued s ∧ Due g count.xferQueued s) ∧ Copied T frame log s)
        (fun s e hs _ => ⟨⟨hs.1.1.event e, hs.1.2.event hs.1.1.running e⟩, hs.2.event e⟩)
        ⟨⟨hahead, hdue⟩, hcopied⟩ fun s1 h1 =>
        ⟨.of (h1.1.1.inBounds hmore), ⟨rfl, .inr ⟨by omega, ?_⟩⟩, ⟨h1.2.kept.frame, h1.2.kept.log⟩, h1.2.sound⟩
      rw [hmin]
      exact h1.1.1.enqueue h1.1.2 hmore hnext.le
    · rename_i hnot
      rw [g.ring_transfers] at hnot
      have hfull : count.xferQueued = g.mode.transfers := by omega
      split
      · rename_i hlast
        rw [beq_iff_eq, g.ring_transfers] at hlast
        refine (restartFrame_guarantees hahead.capturing.session
          (hahead.capturing.holding hcopied)).mono fun _ s1 h1 => ?_
        exact ⟨⟨h1.2.1, .inl ⟨hlast, h1.1⟩⟩, h1.2.2⟩
      · rename_i hnotlast
        rw [beq_iff_eq, g.ring_transfers] at hnotlast
        have hmin : min (count.xferDone + 3) g.mode.transfers = count.xferQueued := by omega
        refine .pure ⟨⟨hdue.full hfull, .inr ⟨by omega, ?_⟩⟩, hcopied⟩
        rwa [hmin]

end Handler

end BaochipXous.Video
