import BaochipXous.WebcamHandler
import Mathlib.Data.List.GetD

/-!
Sessions and the messages of the main loop. A session is started with a geometry that fits, by a
control message or by the watchdog; between two messages its capture is fed and its geometry is the
one it was started with, unless a message brings another row length.
-/

namespace BaochipXous.Video

open Interleaved Service

/-- A camera that is to capture with a geometry. -/
structure Startable (g : Geometry) (s : VideoState) : Prop where
  sane : Sane s
  active : s.webcam.active = true
  mode : s.webcam.uvcMode = g.mode
  linePx : webcamLinePx s.webcam g.mode = g.linePx

section Session

variable {ok : VideoState → CamEvent → Prop} {g : Geometry} {T : Prop} {count : Counters}
  {F : Nat} {frame : Nat → List Sample} {log : List SentChunk} {s s' : VideoState} {v : View}

/-- Between two turns of a session, wherever its frame is. -/
abbrev Going (g : Geometry) (s : VideoState) : Prop := ∃ count, Between g count s

theorem Startable.event (h : Startable g s) (e : CamEvent) : Startable g (camEvent e s) := by
  refine ⟨h.sane.event e, ?_, ?_, ?_⟩
  · rw [camEvent_webcam]
    exact h.active
  · rw [camEvent_webcam]
    exact h.mode
  · rw [camEvent_webcam]
    exact h.linePx

theorem Aside.between (h : Aside s s') (hlog : s'.log = s.log) (hs : Between g count s) : Between g count s' := by
  refine ⟨h.capturing hs.capturing, hs.queued, hs.done_lt, h.feeding.trans hs.feeding, ?_⟩
  rw [h.torn, h.cam, hlog]
  exact hs.sent

theorem Startable.setup (h : Startable g s) : Session g (perform .setup s) := by
  refine ⟨h.active, h.mode, h.linePx, ⟨?_, ?_⟩, ?_⟩
  · exact congrArg UvcMode.linePx h.mode
  · exact congrArg (·.height + 1) h.mode
  · change some (s.webcam.uvcMode, webcamLinePx s.webcam s.webcam.uvcMode) = _
    rw [h.mode, h.linePx]

theorem webcamStartCapture_guarantees (h : Startable g s) :
    videoService.Guarantees ok Ready webcamStartCapture (fun _ => Going g) s := by
  rw [webcamStartCapture, guarantees_bind]
  refine .observe (P := Startable g) (fun s e hs _ => hs.event e) h fun s1 h1 => ⟨.of, ?_⟩
  rw [guarantees_bind, (View.of_webcam h1.mode h1.linePx).ring]
  have hold : Holding g True True g.ring.depth 0 (fun _ => none) s1.frame s1.log (perform .setup s1) := by
    refine ⟨Nat.zero_le _, { h1.sane with }, ⟨nofun, fun _ j hj => ?_⟩, ⟨rfl, rfl⟩, fun _ => trivial, fun _ => trivial⟩
    rw [Nat.zero_mul] at hj
    exact absurd hj (Nat.not_lt_zero j)
  refine (restartFrame_guarantees h1.setup hold).mono fun _ s2 h2 => ?_
  obtain ⟨⟨slotBase, hcapturing⟩, hfeeding, _⟩ := h2
  refine .take (P := Going g)
    (fun s e hs _ => hs.imp fun _ hb => hb.event e) ⟨_, hcapturing.between hfeeding⟩
    fun s3 h3 => ⟨.of, ?_⟩
  exact h3.imp fun _ hb => (aside_perform .applySettings rfl s3).between rfl hb

theorem FirstRows.append {mode : UvcMode} {n m : Nat} {rows : List (List Sample)}
    (h : FirstRows mode F n rows) (hnew : ∀ r < m, SensorRow mode F (n + r) (frame r)) :
    FirstRows mode F (n + m) (rows ++ (List.range m).map frame) := by
  refine ⟨by simp [h.length], fun r data hdata => ?_⟩
  rcases Nat.lt_or_ge r rows.length with hold | hge
  · rw [List.getElem?_append_left hold] at hdata
    exact h.row r data hdata
  · rw [List.getElem?_append_right hge, List.getElem?_map, Option.map_eq_some_iff] at hdata
    obtain ⟨i, hi, rfl⟩ := hdata
    obtain ⟨hlt, rfl⟩ := List.getElem?_eq_some_iff.mp hi
    rw [List.length_range] at hlt
    have hrow := hnew _ hlt
    rw [List.getElem_range]
    rw [h.length] at hrow hge ⊢
    rwa [Nat.add_sub_cancel' hge] at hrow

/-- With the chunk of the `k`-th transfer, the frame is sent up to that transfer's end. -/
theorem Partly.firstRows {k : Nat} {last : Bool} (hpartly : Partly g F k log)
    (hrows : CopiedRows g F k (g.ring.rows k) frame) (hframe : s.frame = frame) :
    FirstRows g.mode F (k * g.mode.slotRows + g.ring.rows k)
      (sentRows (s.chunk v (k == 0) last (g.ring.rows k) :: log)) := by
  subst hframe
  have holder : FirstRows g.mode F (k * g.mode.slotRows) (if k == 0 then [] else sentRows log) := by
    split
    · rename_i hzero
      rw [beq_iff_eq.mp hzero, Nat.zero_mul]
      exact ⟨rfl, nofun⟩
    · rename_i hpos
      rw [beq_iff_eq] at hpos
      exact hpartly.sent (Nat.pos_of_ne_zero hpos)
  exact holder.append hrows

theorem Fed.between (h : Fed g count F s)
    (hsent : s.torn = false → FirstRows g.mode F
      (count.xferDone * g.mode.slotRows + g.ring.rows count.xferDone) (sentRows s.log)) :
    Going g s := by
  rcases h.next with ⟨_, slotBase, hnext⟩ | ⟨hmore, hnext⟩
  · exact ⟨_, hnext.between h.feeding⟩
  · refine ⟨_, hnext.capturing, rfl, hmore, h.feeding, fun htorn _ => ⟨F, hnext.running htorn, ?_⟩⟩
    have hrows := hsent htorn
    rwa [Geometry.rows_eq hmore, ← Nat.succ_mul] at hrows

theorem drawPreview_guarantees {first rows : Nat} (hv : View.Of g v)
    (hrows : rows ≤ g.mode.slotRows) (hfed : Fed g count F s) (hcopied : Copied T frame log s) :
    videoService.Guarantees ok Ready (drawPreview v first rows)
      (fun _ s => Fed g count F s ∧ Copied T frame log s) s := by
  have hstable : ∀ s e, Fed g count F s ∧ Copied T frame log s → ok s e →
      Fed g count F (videoService.interrupt e s) ∧ Copied T frame log (videoService.interrupt e s) :=
    fun s e hs _ => ⟨hs.1.event e, hs.2.event e⟩
  rw [drawPreview, guarantees_bind]
  refine .observe hstable ⟨hfed, hcopied⟩ fun s1 h1 => ⟨.of, ?_⟩
  split
  · refine .take hstable h1 fun s2 h2 => ⟨.of ?_, h2⟩
    dsimp only [CamAction.InBounds]
    rw [hv.mode]
    exact g.fits.preview_inBounds _ hrows
  · exact .pure h1

theorem exists_between_event (s : VideoState) (e : CamEvent) (h : Going g s) (_ : ok s e) :
    ∃ count, Between g count (videoService.interrupt e s) := h.imp fun _ hb => hb.event e

theorem refreshPanel_guarantees (h : Going g s) :
    videoService.Guarantees ok Ready (refreshPanel g.ring) (fun _ => Going g) s := by
  rw [refreshPanel, guarantees_bind]
  refine .observe exists_between_event h fun s1 h1 => ⟨.of, ?_⟩
  split
  · refine .take exists_between_event h1 fun s2 h2 => ⟨.of ?_, ?_⟩
    · obtain ⟨count, hb⟩ := h2
      exact ⟨g.fits.transfers_pos.ne', hb.capturing.sane.col⟩
    · exact h2.imp fun _ hb => (aside_perform (.drawColumns _) rfl s2).between rfl hb
  · exact .pure h1

theorem restartFirstSession_guarantees (last : Bool) (h : Going g s) :
    videoService.Guarantees ok Ready (restartFirstSession last) (fun _ => Going g) s := by
  rw [restartFirstSession, guarantees_bind]
  refine .observe exists_between_event h fun s1 h1 => ⟨.of, ?_⟩
  split
  · rw [guarantees_bind]
    refine .take exists_between_event h1 fun s2 h2 => ⟨.of, ?_⟩
    obtain ⟨count, hb⟩ := h2
    have hsession := hb.capturing.session
    have hstart : Startable g (perform .restartFirst s2) :=
      ⟨{ hb.capturing.sane with }, hsession.active, hsession.mode, hsession.linePx⟩
    exact (webcamStartCapture_guarantees hstart).bind fun _ s3 h3 => .pure h3
  · exact .pure h1

theorem handOut_guarantees (hv : View.Of g v) (hfed : Fed g count F s)
    (hcopied : Copied (Partly g F count.xferDone log ∧
      CopiedRows g F count.xferDone (g.ring.rows count.xferDone) frame) frame log s) :
    videoService.Guarantees ok Ready
      (handOut v count.xferDone (g.ring.rows count.xferDone) (count.xferDone + 1 == g.ring.transfers))
      (fun _ => Going g) s := by
  have hrows : g.ring.rows count.xferDone ≤ g.mode.slotRows := min_le_left _ _
  rw [handOut]
  refine (drawPreview_guarantees hv hrows hfed hcopied).bind fun _ s1 h1 => ?_
  rw [guarantees_bind]
  refine .take (P := fun s => Fed g count F s ∧ Copied (Partly g F count.xferDone log ∧
      CopiedRows g F count.xferDone (g.ring.rows count.xferDone) frame) frame log s)
    (fun s e hs _ => ⟨hs.1.event e, hs.2.event e⟩) h1 fun s2 h2 => ?_
  have hfirst : s2.torn = false → FirstRows g.mode F (count.xferDone * g.mode.slotRows + g.ring.rows count.xferDone)
      (sentRows (s2.chunk v (count.xferDone == 0) (count.xferDone + 1 == g.ring.transfers)
        (g.ring.rows count.xferDone) :: s2.log)) := by
    intro htorn
    obtain ⟨hpartly, hcopy⟩ := h2.2.sound htorn
    rw [h2.2.kept.log]
    exact hpartly.firstRows hcopy h2.2.kept.frame
  refine ⟨⟨?_, fun _ => trivial, fun htorn hlast => ?_⟩, ?_⟩
  · dsimp only [CamAction.InBounds]
    rw [hv.mode]
    exact ⟨Nat.mul_pos (Nat.mul_pos g.fits.payloadRows_pos (by have := g.fits.width_pos; omega))
      (by decide), g.fits.payload, g.fits.chunk_bytes_le hrows⟩
  · rw [beq_iff_eq, g.ring_transfers] at hlast
    have hwhole := hfirst htorn
    rw [Geometry.rows_last hlast] at hwhole
    rw [hv.mode]
    exact ⟨F, hwhole⟩
  · have hnext := ((aside_perform (.send v (count.xferDone == 0)
      (count.xferDone + 1 == g.ring.transfers) (g.ring.rows count.xferDone)) rfl s2).fed
      h2.1).between hfirst
    rw [guarantees_bind, hv.ring]
    refine (refreshPanel_guarantees hnext).mono fun _ s3 h3 => ?_
    exact restartFirstSession_guarantees _ h3

theorem serveTransfer_guarantees (hv : View.Of g v)
    (hqueued : count.xferQueued = min (count.xferDone + 2) g.mode.transfers)
    (hlt : count.xferDone < g.mode.transfers) (h : Found g count F s) :
    videoService.Guarantees ok Ready (serveTransfer v) (fun _ => Going g) s := by
  have hslot := Fits.slot_lt g.mode g.linePx count.slotBase count.xferDone
  rw [serveTransfer, hv.ring, guarantees_bind]
  refine .observe (P := Found g count F) (fun s e hs _ => hs.event e) h fun s1 h1 => ⟨?_, ?_⟩
  · refine .of ?_
    dsimp only [CamAction.InBounds]
    rw [h1.capturing.counters]
    exact (g.fits.mul_slotRows_lt hlt).le
  obtain ⟨hahead, hdue, hold⟩ := h1.serve
  rw [h1.capturing.counters]
  dsimp only
  refine (guarantees_bind.mp (beforeCopy_guarantees hqueued hlt hahead hdue hold)).bind fun _ s2 h2 => ?_
  refine h2.bind fun _ s3 h3 => ?_
  rw [guarantees_bind]
  have hstart : Holding g (g.ring.Apart count.slotBase) (Partly g F count.xferDone s1.log ∧
      CopiedRows g F count.xferDone 0 s1.frame) (g.ring.slot count.slotBase count.xferDone)
      (g.ring.rows count.xferDone) (g.samples F count.xferDone) s1.frame s1.log s3 :=
    { h3.2 with sound := fun htorn => ⟨h3.2.sound htorn, fun r hr => absurd hr (Nat.not_lt_zero r)⟩ }
  refine (copyRows_guarantees hv hslot (g.ring.rows count.xferDone) 0 (Nat.zero_add _) h3.1
    hstart).mono fun _ s4 h4 => ?_
  obtain ⟨hpending, frame, hold⟩ := h4
  refine (whiteBalance_guarantees hv _ (min_le_left _ _) hpending ⟨hold.kept, hold.sound⟩).bind fun _ s5 h5 => ?_
  refine (afterCopy_guarantees hqueued hlt h5.1 h5.2).bind fun _ s6 h6 => ?_
  exact handOut_guarantees hv h6.1 h6.2

theorem abandonFrame_guarantees (h : Between g count s) :
    videoService.Guarantees ok Ready (abandonFrame g.ring) (fun _ => Going g) s := by
  rw [abandonFrame, guarantees_bind]
  refine .take (P := Between g count) (fun s e hs _ => hs.event e) h fun s1 h1 => ⟨.of, ?_⟩
  have hcapturing := (aside_perform .overrun rfl s1).capturing h1.capturing
  refine (restartFrame_guarantees (T := True) hcapturing.session
    (hcapturing.holding ⟨⟨rfl, rfl⟩, fun _ => trivial⟩)).bind fun _ s2 h2 => ?_
  obtain ⟨⟨slotBase, hnext⟩, hfeeding, _⟩ := h2
  exact .pure ⟨_, hnext.between hfeeding⟩

theorem camTurn_guarantees (hv : View.Of g v) (h : Going g s) :
    videoService.Guarantees ok Ready (camTurn v) (fun _ => Going g) s := by
  obtain ⟨count, h⟩ := h
  rw [camTurn, hv.ring, guarantees_bind]
  refine .observe (P := Between g count) (fun s e hs _ => hs.event e) h fun s1 h1 => ⟨?_, ?_⟩
  · refine .of ?_
    dsimp only [CamAction.InBounds]
    rw [h1.capturing.counters]
    exact h1.capturing.inFrame.done_le
  · rcases h1.look with ⟨hwait | hdry, hnext⟩ | ⟨hserve, F, hfound⟩
    · rw [hwait]
      exact .pure ⟨count, hnext⟩
    · rw [hdry]
      exact abandonFrame_guarantees hnext
    · rw [hserve]
      exact serveTransfer_guarantees hv h1.queued h1.done_lt hfound

theorem camTurns_guarantees (hv : View.Of g v) (n : Nat) (h : Going g s) :
    videoService.Guarantees ok Ready (camTurns v n) (fun _ => Going g) s := by
  induction n generalizing s with
  | zero => exact .pure h
  | succ n ih =>
    rw [camTurns]
    refine (camTurn_guarantees hv h).bind fun more s1 h1 => ?_
    cases more with
    | true => exact ih h1
    | false => exact .pure h1

end Session

/-- A console geometry that is accepted with the camera left on for the host keeps the row length of
a session that runs with an earlier one. -/
def Control.keepsLine (c : Control) (webcam : Webcam) : Bool :=
  match c.raw, webcam.custom with
  | .ok (some (_, rowlen)), some custom =>
    c.on || !webcam.active || !webcam.hostStreaming ||
      rawLinePx rowlen custom.linePx == webcamLinePx webcam custom
  | _, _ => true

/-- The webcam is on, with a geometry that fits. -/
structure Webcam.RunsWith (webcam : Webcam) (g : Geometry) : Prop where
  active : webcam.active = true
  mode : webcam.uvcMode = g.mode
  linePx : webcamLinePx webcam g.mode = g.linePx

/-- What a message may do to a webcam. -/
inductive Outcome.Sound (webcam : Webcam) (o : Outcome) : Prop where
  | start (g : Geometry) (hstart : o.start = true) (hruns : o.webcam.RunsWith g)
  | off (hstart : o.start = false) (hoff : o.webcam.active = false)
  | same (hstart : o.start = false) (hpower : o.powerDown = false)
      (hactive : o.webcam.active = webcam.active) (hmode : o.webcam.uvcMode = webcam.uvcMode)
      (hline : webcam.active = true → ∀ mode, webcam.uvcMode = mode →
        webcamLinePx o.webcam mode = webcamLinePx webcam mode)

variable {webcam : Webcam}

theorem webcamLinePx_raw {mode : UvcMode} (hcustom : webcam.custom.isSome = true) :
    webcamLinePx webcam mode = rawLinePx webcam.rowlenOverride mode.linePx := by
  rw [webcamLinePx, rawLinePx]
  simp [hcustom]

theorem webcamLinePx_host {mode : UvcMode} (hcustom : webcam.custom = none) :
    webcamLinePx webcam mode = mode.linePx := by
  rw [webcamLinePx, hcustom]
  simp

theorem Control.raw_eq {c : Control} {m : UvcMode} {rowlen : Nat} (h : c.raw = .ok (some (m, rowlen))) :
    c.source = 2 ∧ webcamRawMode c.arg3 c.arg4 iframLen = .ok (m, rowlen) := by
  rw [raw] at h
  split at h
  · rename_i hsource
    refine ⟨hsource, ?_⟩
    cases hraw : webcamRawMode c.arg3 c.arg4 iframLen with
    | error e =>
      rw [hraw] at h
      cases h
    | ok r =>
      rw [hraw] at h
      cases h
      rfl
  · cases h

theorem getD_mem_uvcModes (arg3 : UInt32) : uvcModes.getD (min arg3.toNat (uvcModes.length - 1)) default ∈ uvcModes := by
  have hlt : min arg3.toNat (uvcModes.length - 1) < uvcModes.length :=
    (min_le_right _ _).trans_lt (by decide)
  rw [List.getD_eq_getElem _ _ hlt]
  exact List.getElem_mem hlt

section Control

variable {c : Control} {raw : Option (UvcMode × Nat)} {webcam : Webcam} {qrRequest : Bool}

theorem runsWith_of_raw (hraw : c.raw = .ok raw) (hactive : webcam.active = true)
    (hmode : webcam.mode = c.mode (raw.map (·.1))) (hcustom : webcam.custom = raw.map (·.1))
    (hrowlen : ∀ r, raw = some r → webcam.rowlenOverride = r.2) : ∃ g, webcam.RunsWith g := by
  cases raw with
  | none =>
    have hmem := getD_mem_uvcModes c.arg3
    refine ⟨⟨_, _, fits_of_mem_uvcModes hmem⟩, hactive, ?_, webcamLinePx_host hcustom⟩
    rw [Webcam.uvcMode, hcustom, hmode]
    rfl
  | some r =>
    obtain ⟨m, rowlen⟩ := r
    have hfits := fits_of_webcamRawMode (Control.raw_eq hraw).2
    refine ⟨⟨m, _, hfits⟩, hactive, ?_, ?_⟩
    · rw [Webcam.uvcMode, hcustom]
      rfl
    · rw [webcamLinePx_raw (congrArg Option.isSome hcustom), hrowlen _ rfl]

/-- A control message as the branch that it takes, with the host's record changed before. -/
theorem webcamControl_cases :
    (∃ e, c.raw = .error e ∧ webcamControl c qrRequest webcam = { webcam }) ∨
    ∃ raw webcam', c.raw = .ok raw ∧ webcam' = { webcam with
        hostStreaming := if c.source != 0 then webcam.hostStreaming else c.on
        rowlenOverride := raw.elim webcam.rowlenOverride (·.2) } ∧
      webcamControl c qrRequest webcam =
        if c.on then controlOn c (raw.map (·.1)) qrRequest webcam' else controlOff c webcam' := by
  have hstream : (if c.source = 0 then { webcam with hostStreaming := c.on } else webcam) =
      { webcam with hostStreaming := if c.source != 0 then webcam.hostStreaming else c.on } := by
    by_cases hsource : c.source = 0
    · simp [hsource]
    · simp [hsource]
  unfold webcamControl
  rw [hstream]
  cases hraw : c.raw with
  | error e =>
    have hsource : c.source = 2 := by
      by_contra hne
      rw [Control.raw, if_neg hne] at hraw
      cases hraw
    exact .inl ⟨e, rfl, by simp [hsource]⟩
  | ok raw =>
    refine .inr ⟨raw, _, rfl, rfl, ?_⟩
    cases raw with
    | none => rfl
    | some r => rfl

theorem controlOn_sound {earlier : Webcam} (hraw : c.raw = .ok raw)
    (hrowlen : ∀ r, raw = some r → webcam.rowlenOverride = r.2)
    (hactive : webcam.active = earlier.active) (hmode : webcam.uvcMode = earlier.uvcMode)
    (hline : raw = none → ∀ mode, webcamLinePx webcam mode = webcamLinePx earlier mode) :
    (controlOn c (raw.map (·.1)) qrRequest webcam).Sound earlier ∧
      (controlOn c (raw.map (·.1)) qrRequest webcam).webcam.previewCol = webcam.previewCol := by
  obtain ⟨pinned, hpin⟩ : ∃ pinned, (if (c.source != 0) = true then { webcam with pinned := true } else webcam) =
        { webcam with pinned } := by
    split
    · exact ⟨true, rfl⟩
    · exact ⟨webcam.pinned, rfl⟩
  unfold controlOn
  dsimp only
  rw [hpin]
  generalize hpower : (webcam.active && ((raw.map (·.1)).isSome ||
    (webcam.mode != c.mode (raw.map (·.1)) && !(c.source != 0)))) = powerDown
  have hruns : ∀ w : Webcam, w.rowlenOverride = webcam.rowlenOverride → ∃ g, Webcam.RunsWith { w with
          active := true, mode := c.mode (raw.map (·.1)), custom := raw.map (·.1), captured := 0,
          overruns := 0, restarts := 0 } g :=
    fun w hw => runsWith_of_raw hraw rfl rfl rfl fun r hr => hw.trans (hrowlen r hr)
  cases powerDown with
  | true =>
    rw [if_pos rfl]
    cases qrRequest with
    | true => exact ⟨.off rfl rfl, rfl⟩
    | false =>
      obtain ⟨g, hg⟩ := hruns { webcam with pinned, active := false } rfl
      exact ⟨.start g rfl hg, rfl⟩
  | false =>
    rw [if_neg Bool.false_ne_true]
    rcases Bool.eq_false_or_eq_true webcam.active with hon | hon
    · -- an active camera that is not powered down was not given a console geometry
      have hnone : raw = none := by
        cases raw with
        | none => rfl
        | some r => simp [hon] at hpower
      rw [if_pos (by simp [hon])]
      exact ⟨.same rfl rfl hactive hmode fun _ mode _ => hline hnone mode, rfl⟩
    · cases qrRequest with
      | true =>
        rw [if_pos (Bool.or_true _)]
        exact ⟨.off rfl hon, rfl⟩
      | false =>
        rw [if_neg (by simp [hon])]
        obtain ⟨g, hg⟩ := hruns { webcam with pinned } rfl
        exact ⟨.start g rfl hg, rfl⟩

theorem controlOff_sound {earlier : Webcam} (hactive : webcam.active = earlier.active)
    (hmode : webcam.uvcMode = earlier.uvcMode)
    (hline : (c.source = 2 → webcam.hostStreaming = true) → earlier.active = true →
      ∀ mode, earlier.uvcMode = mode → webcamLinePx webcam mode = webcamLinePx earlier mode) :
    (controlOff c webcam).Sound earlier ∧ (controlOff c webcam).webcam.previewCol = webcam.previewCol := by
  obtain ⟨pinned, hpin⟩ : ∃ pinned, (if (c.source != 0) = true then { webcam with pinned := false } else webcam) =
        { webcam with pinned } := by
    split
    · exact ⟨false, rfl⟩
    · exact ⟨webcam.pinned, rfl⟩
  unfold controlOff
  dsimp only
  rw [hpin]
  split
  · exact ⟨.off rfl rfl, rfl⟩
  · rename_i hkept
    refine ⟨.same rfl rfl hactive hmode fun hon mode hm => hline (fun hsource => ?_) hon mode hm, rfl⟩
    rw [hactive, hon] at hkept
    simpa [hsource] using hkept

theorem webcamControl_sound (hkeeps : c.keepsLine webcam = true) :
    (webcamControl c qrRequest webcam).Sound webcam ∧
      (webcamControl c qrRequest webcam).webcam.previewCol = webcam.previewCol := by
  rcases webcamControl_cases with ⟨e, -, hsame⟩ | ⟨raw, _, hraw, rfl, hcontrol⟩
  · rw [hsame]
    exact ⟨.same rfl rfl rfl rfl fun _ _ _ => rfl, rfl⟩
  · rw [hcontrol]
    split
    · cases raw with
      | none => exact controlOn_sound hraw nofun rfl rfl fun _ _ => rfl
      | some r =>
        refine controlOn_sound hraw (fun r' hr => ?_) rfl rfl nofun
        cases hr
        rfl
    · rename_i hoff
      cases raw with
      | none => exact controlOff_sound rfl rfl fun _ _ _ _ => rfl
      | some r =>
        obtain ⟨m, rowlen⟩ := r
        have hsource := (Control.raw_eq hraw).1
        refine controlOff_sound rfl rfl fun hwanted hon mode hm => ?_
        have hhost : webcam.hostStreaming = true := by simpa [hsource] using hwanted hsource
        rcases Option.eq_none_or_eq_some webcam.custom with hcustom | ⟨custom, hcustom⟩
        · refine Eq.trans (webcamLinePx_host ?_) (webcamLinePx_host hcustom).symm
          exact hcustom
        · have hmode : mode = custom := by
            rw [← hm, Webcam.uvcMode, hcustom]
            rfl
          rw [hmode]
          refine Eq.trans (webcamLinePx_raw ?_) ?_
          · exact congrArg Option.isSome hcustom
          simp only [Control.keepsLine, hraw, hcustom, hon, hhost] at hkeeps
          simpa [hoff] using hkeeps

theorem webcamWatchdog_sound (session captured : Nat) (hfits : webcam.active = true → ∃ g, webcam.RunsWith g) :
    (webcamWatchdog session captured webcam).Sound webcam ∧
      (webcamWatchdog session captured webcam).webcam.previewCol = webcam.previewCol := by
  unfold webcamWatchdog
  split
  · rename_i hdue
    obtain ⟨g, hg⟩ := hfits hdue.1
    split
    · exact ⟨.start g rfl ⟨hg.active, hg.mode, hg.linePx⟩, rfl⟩
    · exact ⟨.off rfl rfl, rfl⟩
  · exact ⟨.same rfl rfl rfl rfl fun _ _ _ => rfl, rfl⟩

end Control

/-- The service waits for a message. -/
structure Idle (s : VideoState) : Prop where
  sane : Sane s
  session : s.webcam.active = true → ∃ g count, Between g count s

section Idle

variable {ok : VideoState → CamEvent → Prop} {g : Geometry} {count : Counters} {o : Outcome}
  {s s' : VideoState}

theorem Between.toIdle (h : Between g count s) : Idle s := ⟨h.capturing.sane, fun _ => ⟨g, count, h⟩⟩

theorem Idle.event (h : Idle s) (e : CamEvent) : Idle (camEvent e s) := by
  refine ⟨h.sane.event e, fun hactive => ?_⟩
  rw [camEvent_webcam] at hactive
  obtain ⟨g, count, hb⟩ := h.session hactive
  exact ⟨g, count, hb.event e⟩

theorem Aside.idle (h : Aside s s') (hlog : s'.log = s.log) (hs : Idle s) : Idle s' := by
  refine ⟨h.sane hs.sane, fun hactive => ?_⟩
  obtain ⟨g, count, hb⟩ := hs.session (h.active.symm.trans hactive)
  exact ⟨g, count, h.between hlog hb⟩

theorem Idle.runsWith (h : Idle s) (hactive : s.webcam.active = true) : ∃ g, s.webcam.RunsWith g := by
  obtain ⟨g, count, hb⟩ := h.session hactive
  have hsession := hb.capturing.session
  exact ⟨g, hsession.active, hsession.mode, hsession.linePx⟩

theorem Idle.adopt (h : Idle s) (hsound : o.Sound s.webcam ∧ o.webcam.previewCol = s.webcam.previewCol) :
    o.start = true ∧ (∃ g, Startable g (s.adopt o)) ∨ o.start = false ∧ Idle (s.adopt o) := by
  have hsane : Sane (s.adopt o) := ⟨hsound.2.trans_lt h.sane.col, h.sane.overlap⟩
  cases hsound.1 with
  | start g hstart hruns => exact .inl ⟨hstart, g, hsane, hruns.active, hruns.mode, hruns.linePx⟩
  | off hstart hoff =>
    refine .inr ⟨hstart, hsane, fun hactive => ?_⟩
    rw [VideoState.adopt, hoff] at hactive
    cases hactive
  | same hstart hpower hactive hmode hline =>
    refine .inr ⟨hstart, hsane, fun hon => ?_⟩
    obtain ⟨g, count, hb⟩ := h.session (hactive.symm.trans hon)
    have hcam : (s.adopt o).cam = s.cam := by simp [VideoState.adopt, hpower]
    have hsession := hb.capturing.session
    have hcapturing := hb.capturing
    refine ⟨g, count, ⟨hsane, ⟨hon, hmode.trans hsession.mode, ?_, hcam ▸ hsession.emits,
      hsession.started⟩, hcapturing.counters, hcapturing.inFrame, hcapturing.apart, ?_⟩,
      hb.queued, hb.done_lt, hb.feeding, ?_⟩
    · exact (hline hsession.active g.mode hsession.mode).trans hsession.linePx
    · rw [hcam]
      exact hcapturing.flow
    · rw [hcam]
      exact hb.sent

theorem startIf_guarantees {start : Bool} (h : start = true ∧ (∃ g, Startable g s) ∨ start = false ∧ Idle s) :
    videoService.Guarantees ok Ready (startIf start) (fun _ => Idle) s := by
  rcases h with ⟨rfl, g, hg⟩ | ⟨rfl, hidle⟩
  · rw [startIf, if_pos rfl]
    exact (webcamStartCapture_guarantees hg).mono fun _ s1 ⟨count, h1⟩ => h1.toIdle
  · exact .pure hidle

/-- The message of a turn does not change the row length of a running session. -/
def VideoMsg.keepsLine (s : VideoState) : VideoMsg → Bool
  | .webcamControl c => c.keepsLine s.webcam
  | _ => true

theorem setting_guarantees (a : CamAction) (ha : a.aside = true) (hready : ∀ s, Ready a s)
    (hlog : ∀ s, (perform a s).log = s.log) (h : Idle s) :
    videoService.Guarantees ok Ready (Thread.take a) (fun _ => Idle) s :=
  .take (P := Idle) (fun _ e hs _ => hs.event e) h fun s1 h1 =>
    ⟨hready s1, (aside_perform a ha s1).idle (hlog s1) h1⟩

/-- The camera is off, or the QR scanner's. -/
structure Quiet (s : VideoState) : Prop where
  sane : Sane s
  off : s.webcam.active = false

theorem Quiet.event (h : Quiet s) (e : CamEvent) : Quiet (camEvent e s) :=
  ⟨h.sane.event e, (congrArg _ (camEvent_webcam e s)).trans h.off⟩

theorem Quiet.idle (h : Quiet s) : Idle s :=
  ⟨h.sane, fun hactive => by rw [h.off] at hactive; cases hactive⟩

theorem quiet_guarantees (a : CamAction) (hready : ∀ s, Ready a s) (hsane : ∀ s, Sane s → Sane (perform a s))
    (hoff : ∀ s, (perform a s).webcam.active = s.webcam.active) (h : Quiet s) :
    videoService.Guarantees ok Ready (Thread.take a) (fun _ => Quiet) s :=
  .take (P := Quiet) (fun _ e hs _ => hs.event e) h fun s1 h1 =>
    ⟨hready s1, hsane s1 h1.sane, (hoff s1).trans h1.off⟩

theorem qrFrame_guarantees (decoded : Bool) (h : Quiet s) :
    videoService.Guarantees ok Ready (qrFrame decoded) (fun _ => Idle) s := by
  rw [qrFrame, guarantees_bind]
  refine .observe (P := Quiet) (fun _ e hs _ => hs.event e) h fun s1 h1 => ⟨.of, ?_⟩
  split
  · refine (quiet_guarantees .captureAsync (fun _ => .of)
      (fun _ hs => ⟨hs.col, hs.overlap⟩) (fun _ => rfl) h1).bind fun _ s2 h2 => ?_
    split
    · exact (quiet_guarantees .endQr (fun _ => .of)
        (fun _ hs => ⟨hs.col, hs.overlap⟩) (fun _ => rfl) h2).mono fun _ _ h3 => h3.idle
    · exact .pure h2.idle
  · exact (quiet_guarantees .powerDown (fun _ => .of)
      (fun _ hs => ⟨hs.col, hs.overlap⟩) (fun _ => rfl) h1).mono fun _ _ h2 => h2.idle

theorem camIrq_guarantees (turns : Nat) (decoded : Bool) (h : Idle s) :
    videoService.Guarantees ok Ready (camIrq turns decoded) (fun _ => Idle) s := by
  rw [camIrq, guarantees_bind]
  refine .observe (P := Idle) (fun _ e hs _ => hs.event e) h fun s1 h1 => ⟨.of, ?_⟩
  split
  · rename_i hactive
    obtain ⟨g, count, hb⟩ := h1.session hactive
    have hsession := hb.capturing.session
    refine (camTurns_guarantees (View.of_webcam hsession.mode hsession.linePx) turns
      ⟨count, hb⟩).mono fun _ s2 ⟨count, h2⟩ => h2.toIdle
  · rename_i hoff
    exact qrFrame_guarantees decoded ⟨h1.sane, (Bool.not_eq_true _).mp hoff⟩

theorem control_guarantees {c : Control} (hkeeps : c.keepsLine s.webcam = true) (h : Idle s) :
    videoService.Guarantees ok Ready (mainLoop (.webcamControl c)) (fun _ => Idle) s := by
  rw [mainLoop, guarantees_bind]
  refine .observe (P := fun s => Idle s ∧ c.keepsLine s.webcam = true)
    (fun s e hs _ => ⟨hs.1.event e, ?_⟩) ⟨h, hkeeps⟩ fun s1 h1 =>
    ⟨.of, ?_⟩
  · change c.keepsLine (camEvent e s).webcam = true
    rw [camEvent_webcam]
    exact hs.2
  · exact startIf_guarantees (h1.1.adopt (webcamControl_sound h1.2))

theorem watchdog_guarantees (session captured : Nat) (h : Idle s) :
    videoService.Guarantees ok Ready (mainLoop (.webcamWatchdog session captured)) (fun _ => Idle) s := by
  rw [mainLoop, guarantees_bind]
  refine .observe (P := Idle) (fun _ e hs _ => hs.event e) h fun s1 h1 => ⟨.of, ?_⟩
  exact startIf_guarantees (h1.adopt (webcamWatchdog_sound session captured h1.runsWith))

theorem mainLoop_guarantees (m : VideoMsg) (hkeeps : m.keepsLine s = true) (h : Idle s) :
    videoService.Guarantees ok Ready (mainLoop m) (fun _ => Idle) s := by
  cases m with
  | camIrq turns decoded => exact camIrq_guarantees turns decoded h
  | webcamControl c => exact control_guarantees hkeeps h
  | webcamWatchdog session captured => exact watchdog_guarantees session captured h
  | cropWords words =>
    exact setting_guarantees (.setCrop words) rfl (fun _ => .of) (fun _ => rfl) h
  | preview on zoom =>
    exact setting_guarantees (.setPreview on zoom) rfl (fun _ => .of) (fun _ => rfl) h
  | whiteBalance calibrate =>
    exact setting_guarantees (.calibrate calibrate) rfl (fun _ => .of) (fun _ => rfl) h
  | flush =>
    rw [mainLoop, guarantees_bind]
    refine .observe (P := Idle) (fun _ e hs _ => hs.event e) h fun s1 h1 => ⟨.of, ?_⟩
    split
    · exact setting_guarantees .flush rfl (fun _ => .of) (fun _ => rfl) h1
    · exact .pure h1
  | acquireQr =>
    rw [mainLoop, guarantees_bind]
    refine .observe (P := Idle) (fun _ e hs _ => hs.event e) h fun s1 h1 => ⟨.of, ?_⟩
    split
    · exact .pure h1
    · rename_i hfree
      have hquiet : Quiet s1 := ⟨h1.sane, (Bool.or_eq_false_iff.mp (by simpa using hfree)).1⟩
      exact (quiet_guarantees .acquireQr (fun _ => .of)
        (fun _ hs => ⟨hs.col, hs.overlap⟩) (fun _ => rfl) hquiet).mono fun _ _ h2 => h2.idle
  | keyPress =>
    exact setting_guarantees .endQr rfl (fun _ => .of) (fun _ => rfl) h
  | other => exact .pure h

end Idle

/-- The geometry is a host mode, or one that `webcam_raw_mode` has accepted. -/
def Webcam.Accepted (webcam : Webcam) : Prop :=
  match webcam.custom with
  | none => webcam.mode < uvcModes.length
  | some mode => ∃ arg3 arg4, webcamRawMode arg3 arg4 iframLen = .ok (mode, webcam.rowlenOverride)

theorem Webcam.Accepted.fits (h : webcam.Accepted) : Fits webcam.view.mode webcam.view.linePx := by
  unfold Webcam.Accepted at h
  dsimp only [view, uvcMode]
  cases hcustom : webcam.custom with
  | none =>
    rw [hcustom] at h
    rw [webcamLinePx_host hcustom, Option.getD_none, List.getD_eq_getElem _ _ h]
    exact fits_of_mem_uvcModes (List.getElem_mem h)
  | some mode =>
    rw [hcustom] at h
    obtain ⟨arg3, arg4, h⟩ := h
    rw [webcamLinePx_raw (by rw [hcustom]; rfl)]
    exact fits_of_webcamRawMode h

/-- The row is read from its place in the slot, to the byte. A sample has two bytes. -/
def View.Exact (v : View) (slot r : Nat) : Prop :=
  ∀ s, (perform (.copyRow v slot r) s).frame r = (List.range v.mode.width).map fun c =>
    s.cam.mem ((slot * v.ring.slotBytes + r * v.ring.lineBytes + 4 * v.crop) / 2 + c)

/-- **Rows.** In every accepted geometry a row is read from its place in the ring just when its
lines are whole words, or it is the first one of a slot that starts with a word. -/
theorem copied_row_is_exact_iff {webcam : Webcam} (h : webcam.Accepted) (slot r : Nat) :
    webcam.view.Exact slot r ↔ webcam.view.linePx % 2 = 0 ∨
      r = 0 ∧ slot * webcam.view.mode.slotRows % 2 = 0 := by
  have hwidth := h.fits.width_pos
  have heven := h.fits.width_even
  have hwords : 2 * webcam.view.dstWords = webcam.view.mode.width := by
    change 2 * (webcam.view.mode.width * 2 / 4) = _
    omega
  have hplace : (slot * webcam.view.ring.slotBytes + r * webcam.view.ring.lineBytes +
      4 * webcam.view.crop) / 2 = slot * (webcam.view.mode.slotRows * webcam.view.linePx) +
        r * webcam.view.linePx + 2 * webcam.view.crop := by
    change (slot * (webcam.view.mode.slotRows * (webcam.view.linePx * 2)) +
      r * (webcam.view.linePx * 2) + _) / 2 = _
    rw [← Nat.mul_assoc, ← Nat.mul_assoc, ← Nat.mul_assoc, ← Nat.mul_assoc]
    omega
  rw [← words_eq_iff slot _ r _ webcam.view.crop]
  unfold View.Exact perform
  simp only [Function.update_self, hwords, hplace]
  constructor
  · intro hexact
    -- a memory in which each sample is its own index
    have hfirst := List.map_inj_left.mp (hexact { cam := { mem := fun i => some (0, i) } }) 0
      (List.mem_range.mpr (by omega))
    exact congrArg (fun sample : Sample => (sample.getD (0, 0)).2) hfirst
  · intro heq s
    exact List.map_congr_left fun c _ => congrArg (fun i => s.cam.mem (i + c)) heq

theorem last_row_is_exact : Webcam.Accepted {} ∧ (Webcam.view {}).Exact 2 23 := by
  have haccepted : Webcam.Accepted {} := (by decide : 0 < 3)
  exact ⟨haccepted, (copied_row_is_exact_iff haccepted 2 23).mpr (.inl rfl)⟩

/-- Two rows of two pixels and one of padding: the second is read from a sample too early. -/
theorem second_row_is_skewed :
    webcamRawMode 0x20002 0x101 iframLen = .ok (⟨2, 2, 1, 1, 1200, 1200⟩, 0) ∧
      ¬(Webcam.view { custom := some ⟨2, 2, 1, 1, 1200, 1200⟩ }).Exact 0 1 :=
  ⟨rfl, fun h => absurd (h { cam := { mem := fun i => some (0, i) } }) (by decide)⟩

end BaochipXous.Video
