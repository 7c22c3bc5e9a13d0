import BaochipXous.WebcamService
import Mathlib.Data.UInt

/-!
Runs of the service with the camera, samples arriving between any two actions of the main loop:
ranges are in bounds, a slot is not captured into while it is copied out, and a frame sent to its
end is one frame of the sensor. The flags `pinned` and `host_streaming` are compared with the
requests of console and host.
-/

namespace BaochipXous.Video

open Interleaved Labelled

abbrev VideoLabel := Label CamAction CamEvent VideoMsg

/-- No message changes the row length of a running session. -/
def lineKept (s : VideoState) : VideoLabel → Bool
  | .receive m => m.keepsLine s
  | _ => true

/-- Every frame starts with a ring of slots that are apart where they have to be. -/
def slotsApart (s : VideoState) : VideoLabel → Bool
  | .act (.rearm ring) => ring.Apart s.count.slotCounter
  | _ => true

abbrev KeptApart (s : VideoState) (l : VideoLabel) : Prop := lineKept s l ∧ slotsApart s l

theorem overlap_perform (a : CamAction) (s : VideoState) :
    (perform a s).overlap = s.overlap ∨ ∃ ring, a = .rearm ring := by
  cases a with
  | rearm ring => exact .inr ⟨ring, rfl⟩
  | _ => exact .inl rfl

def VideoState.FramesWhole (s : VideoState) : Prop :=
  ∀ newer chunk older, s.log = newer ++ chunk :: older → chunk.last = true →
    FrameWhole chunk.mode (sentRows (chunk :: older))

section Runs

variable {ok : VideoState → VideoLabel → Prop} {labels : List VideoLabel} {s : VideoState}
  {c : Config CamAction VideoState}

theorem videoService_effects (hok : ∀ s l, ok s l → lineKept s l = true) (walk : videoService.Walk ok {} labels c) :
    Run (videoService.Effect ok Ready) {} labels c.state ∧
      videoService.Guarantees (fun s e => ok s (.interrupt e)) Ready c.rest (fun _ => Idle) c.state := by
  refine walk.effects (fun s e hs _ => hs.event e) (fun m s hs hm => mainLoop_guarantees m (hok s _ hm) hs) ?_
  exact ⟨⟨by decide, fun _ => rfl⟩, nofun⟩

theorem ready_of_walk {a : CamAction} (hok : ∀ s l, ok s l → lineKept s l = true)
    (walk : videoService.Walk ok {} labels c) (hnext : c.next = some a) : Ready a c.state := by
  obtain ⟨next, hrest⟩ := Service.rest_of_next hnext
  have hguarantee := (videoService_effects hok walk).2
  rw [hrest] at hguarantee
  exact (hguarantee c.state .refl).1

theorem overlap_of_run (hok : ∀ s l, ok s l → slotsApart s l = true)
    (run : Run (videoService.Effect ok Ready) {} labels s) : s.overlap = false := by
  refine Service.Effect.invariant (I := fun s => s.overlap = false) run rfl (fun s a hs hl _ => ?_) fun s e hs _ => ?_
  · rcases overlap_perform a s with hsame | ⟨ring, rfl⟩
    · exact hsame.trans hs
    · have hapart : ring.Apart s.count.slotCounter := of_decide_eq_true (hok _ _ hl)
      exact Bool.or_eq_false_iff.mpr ⟨hs, by simpa using hapart⟩
  · cases e <;> exact hs

theorem VideoState.FramesWhole.send {chunk : SentChunk} {s' : VideoState} (h : s.FramesWhole)
    (hlog : s'.log = chunk :: s.log)
    (hchunk : chunk.last = true → FrameWhole chunk.mode (sentRows (chunk :: s.log))) : s'.FramesWhole := by
  intro newer chunk' older hsplit hlast
  rw [hlog] at hsplit
  cases newer with
  | nil =>
    obtain ⟨rfl, rfl⟩ := List.cons.inj hsplit
    exact hchunk hlast
  | cons _ newer =>
    obtain ⟨_, hrest⟩ := List.cons.inj hsplit
    exact h newer chunk' older hrest hlast

end Runs

/-- `webcam raw` on the console, with a ratio of 1. -/
def rawControl (on : Bool) (w h rowlen pad : UInt32) : Control where
  on := on
  source := 2
  arg3 := w * 2 ^ 16 + h
  arg4 := rowlen * 2 ^ 16 + 2 ^ 8 + pad

def actSteps (actions : List CamAction) : List VideoLabel :=
  actions.map .act

def burstSteps (samples : List Nat) : List VideoLabel :=
  samples.map fun n => .interrupt (.burst n)

/-- The steps that start a frame of more than one transfer. -/
def frameStart (ring : RingGeometry) : List VideoLabel :=
  actSteps [.pipelineEnable false, .dmaClear, .rearm ring, .enqueue ring, .enqueue ring,
    .pipelineEnable true]

/-- A control message that starts nothing. -/
def controlSteps (c : Control) : List VideoLabel :=
  [.receive (.webcamControl c), .act (.control c)]

def sessionStart (c : Control) (ring : RingGeometry) : List VideoLabel :=
  .receive (.webcamControl c) :: .act (.control c) :: .act .setup ::
    (frameStart ring ++ actSteps [.applySettings])

/-- The steps of a `CamIrq` up to its look at the channel. -/
def irqLook (ring : RingGeometry) : List VideoLabel :=
  .receive (.camIrq 1 false) :: actSteps [.load, .dmaState ring]

/-- Three transfers of eight lines of 1600 samples, in a ring of three slots. -/
def wideMode : UvcMode where
  width := 1600
  height := 24
  ratio := 1
  linePad := 0
  payloadRows := 1
  slotRows := 8

def wideView : View := ({ custom := some wideMode } : Webcam).view

/-- A session with that geometry, and its first transfer is finished. -/
def wideSession : List VideoLabel :=
  sessionStart (rawControl true 1600 24 0 0) wideView.ring ++ burstSteps [12800]

/-- The handler is about to copy it. -/
def wideCopy : List VideoLabel :=
  wideSession ++ irqLook wideView.ring ++ actSteps [.serve wideView.ring, .enqueue wideView.ring]

section Runs

variable {labels : List VideoLabel} {c : Config CamAction VideoState}

/-- In every run whose messages leave the row length of the running session alone: every range that
the main loop computes is in bounds, and between messages the geometry is that of the session's
start. -/
theorem session_ranges_stay_in_bounds (walk : videoService.Walk (fun s l => lineKept s l) {} labels c) :
    (∀ a, c.next = some a → a.InBounds c.state) ∧
      (c.next = none → c.state.webcam.active = true →
        c.state.started =
          some (c.state.webcam.uvcMode, webcamLinePx c.state.webcam c.state.webcam.uvcMode)) := by
  refine ⟨fun a hnext => (ready_of_walk (fun _ _ h => h) walk hnext).inBounds, fun hnext hactive => ?_⟩
  have hidle := (videoService_effects (fun _ _ h => h) walk).2
  rw [Service.rest_of_next_none hnext] at hidle
  obtain ⟨g, count, hb⟩ := hidle.session hactive
  have hsession := hb.capturing.session
  rw [hsession.started, hsession.mode, hsession.linePx]

/-- The rows of a finished transfer are copied in bounds. -/
theorem wide_session_stays_in_bounds :
    ∃ c, videoService.Walk (fun s l => lineKept s l) {} wideCopy c ∧
      c.next = some (.copyRow wideView 0 0) ∧ CamAction.InBounds (.copyRow wideView 0 0) c.state := by
  have hrun : (videoService.walk (fun s l => lineKept s l) ⟨{}, .ret ()⟩ wideCopy).map (·.next) =
      some (some (.copyRow wideView 0 0)) := rfl
  obtain ⟨c, hwalk, hnext⟩ := Option.map_eq_some_iff.mp hrun
  exact ⟨c, .of_walk hwalk, hnext, (session_ranges_stay_in_bounds (.of_walk hwalk)).1 _ hnext⟩

/-- The view of the session after a row length of 60000 samples was let in. -/
def stretchedView : View := ({ custom := some wideMode, rowlenOverride := 60000 } : Webcam).view

/-- A host opens a stream of the mode that the console geometry counts as, and `raw off` brings a
row length of 60000 samples while the camera stays on. -/
def stretchedSession : List VideoLabel :=
  wideSession ++ controlSteps ⟨true, 0, 0, 0⟩ ++ controlSteps (rawControl false 1600 1 60000 0) ++
    irqLook stretchedView.ring ++ actSteps [.serve stretchedView.ring, .copyRow stretchedView 0 0]

theorem stretched_session_leaves_bounds :
    ∃ c, videoService.Walk (fun _ _ => True) {} stretchedSession c ∧
      c.next = some (.copyRow stretchedView 0 1) ∧
      ¬CamAction.InBounds (.copyRow stretchedView 0 1) c.state := by
  have hrun : (videoService.walk (fun _ _ => True) ⟨{}, .ret ()⟩ stretchedSession).map (·.next) =
      some (some (.copyRow stretchedView 0 1)) := rfl
  obtain ⟨c, hwalk, hnext⟩ := Option.map_eq_some_iff.mp hrun
  exact ⟨c, .of_walk hwalk, hnext, fun hbounds => absurd hbounds.1 (by decide)⟩

/-- In every such run whose frames start with slots that are apart: no transfer in the channel
targets a byte of a slot that is copied out. -/
theorem copied_slot_is_not_captured_into
    (walk : videoService.Walk KeptApart {} labels c)
    {v : View} {slot r : Nat} (hcopy : c.next = some (.copyRow v slot r)) :
    ∀ t ∈ c.state.cam.queue, t.Misses v.ring slot := by
  have hready := ready_of_walk (fun _ _ h => h.1) walk hcopy
  have run := (videoService_effects (fun _ _ h => h.1) walk).1
  exact hready.clear (overlap_of_run (fun _ _ h => h.2) run)

/-- The first slot of three is copied out while the channel holds transfers to the other two. -/
theorem wide_session_copies_apart :
    ∃ c, videoService.Walk KeptApart {} wideCopy c ∧
      c.next = some (.copyRow wideView 0 0) ∧ c.state.cam.queue.length = 2 ∧
      ∀ t ∈ c.state.cam.queue, t.Misses wideView.ring 0 := by
  have hrun : (videoService.walk KeptApart ⟨{}, .ret ()⟩ wideCopy).map
      (fun c => (c.next, c.state.cam.queue.length)) = some (some (.copyRow wideView 0 0), 2) := rfl
  obtain ⟨c, hwalk, hseen⟩ := Option.map_eq_some_iff.mp hrun
  obtain ⟨hnext, hqueue⟩ := Prod.mk.inj hseen
  exact ⟨c, .of_walk hwalk, hnext, hqueue, copied_slot_is_not_captured_into (.of_walk hwalk) hnext⟩

/-- Six transfers of 192 lines of 200 samples: the IFRAM has room for one slot. -/
def tallMode : UvcMode where
  width := 100
  height := 1000
  ratio := 1
  linePad := 100
  payloadRows := 24
  slotRows := 192

def tallView : View := ({ custom := some tallMode } : Webcam).view

/-- The first transfer of a frame is finished, and the second one goes to the same slot. -/
def tallSession : List VideoLabel :=
  sessionStart (rawControl true 100 1000 0 100) tallView.ring ++ burstSteps [38400] ++
    irqLook tallView.ring ++ actSteps [.serve tallView.ring]

theorem tall_session_captures_into_copied_slot :
    ∃ c, videoService.Walk (fun s l => lineKept s l) {} tallSession c ∧
      c.next = some (.copyRow tallView 0 0) ∧
      ¬∀ t ∈ c.state.cam.queue, t.Misses tallView.ring 0 := by
  have hrun : (videoService.walk (fun s l => lineKept s l) ⟨{}, .ret ()⟩ tallSession).map
      (fun c => (c.next, c.state.cam.queue)) =
      some (some (.copyRow tallView 0 0), [{ offset := 0, len := 76800 }]) := rfl
  obtain ⟨c, hwalk, hseen⟩ := Option.map_eq_some_iff.mp hrun
  obtain ⟨hnext, hqueue⟩ := Prod.mk.inj hseen
  refine ⟨c, .of_walk hwalk, hnext, fun hmiss => ?_⟩
  rw [hqueue] at hmiss
  exact hmiss _ List.mem_cons_self 0 (by decide) (by decide) ⟨le_rfl, by decide⟩

end Runs

/-- The requests for the camera that were granted and still hold. -/
structure Granted where
  console : Bool := false
  host : Bool := false

def Granted.set (fromConsole on : Bool) (g : Granted) : Granted :=
  if fromConsole then { g with console := on } else { g with host := on }

/-- After a control message. A refused one, with a geometry that does not fit or for a camera that
does not come on, changes nothing. -/
def Granted.control (c : Control) (o : Outcome) (g : Granted) : Granted :=
  match c.raw with
  | .error _ => g
  | .ok _ => if c.on && !o.webcam.active then g else g.set (c.source != 0) c.on

/-- After the watchdog, which ends every request when it gives up. -/
def Granted.watchdog (webcam : Webcam) (o : Outcome) (g : Granted) : Granted :=
  if webcam.active && !o.webcam.active then {} else g

def Granted.after (s : VideoState) (g : Granted) : VideoLabel → Granted
  | .act (.control c) => g.control c (webcamControl c s.qrRequest s.webcam)
  | .act (.watchdog session captured) => g.watchdog s.webcam (webcamWatchdog session captured s.webcam)
  | _ => g

/-- The camera is not asked for while the QR scanner has it, and the watchdog does not give up. -/
def admitted (s : VideoState) : VideoLabel → Bool
  | .act (.control c) => !(c.on && c.raw.isOk && s.qrRequest)
  | .act (.watchdog session captured) =>
    !(s.webcam.active && s.webcam.session == session && s.webcam.captured == captured &&
      decide (restartLimit ≤ s.webcam.restarts))
  | _ => true

/-- Someone is on record for a camera that is on. -/
def Webcam.Wanted (webcam : Webcam) : Prop :=
  webcam.active = true → webcam.pinned = true ∨ webcam.hostStreaming = true

/-- Whoever is on record was granted the camera. -/
structure Webcam.Records (webcam : Webcam) (g : Granted) : Prop where
  console : webcam.pinned = true → g.console = true
  host : webcam.hostStreaming = true → g.host = true

section Flags

variable {c : Control} {raw : Option UvcMode} {qrRequest : Bool} {webcam : Webcam} {g : Granted}

theorem controlOn_flags : (controlOn c raw qrRequest webcam).webcam.pinned =
      (webcam.pinned || c.source != 0) ∧
    (controlOn c raw qrRequest webcam).webcam.hostStreaming = webcam.hostStreaming := by
  unfold controlOn
  dsimp only
  cases c.source != 0 with
  | false =>
    rw [Bool.or_false, if_neg Bool.false_ne_true]
    split_ifs <;> exact ⟨rfl, rfl⟩
  | true =>
    rw [Bool.or_true, if_pos rfl]
    split_ifs <;> exact ⟨rfl, rfl⟩

theorem controlOn_active : (controlOn c raw false webcam).webcam.active = true := by
  unfold controlOn
  extract_lets _ _ _ _ powered
  split
  · rename_i hon
    rwa [Bool.or_false] at hon
  · rfl

/-- The branch that switches the camera off takes its own side off the record and puts nobody on it. -/
theorem controlOff_flags : ((controlOff c webcam).webcam.pinned = true →
      webcam.pinned = true ∧ (c.source != 0) = false) ∧
    (controlOff c webcam).webcam.hostStreaming = webcam.hostStreaming := by
  unfold controlOff
  dsimp only
  cases c.source != 0 with
  | false =>
    rw [if_neg Bool.false_ne_true]
    split
    · exact ⟨nofun, rfl⟩
    · exact ⟨fun hpinned => ⟨hpinned, rfl⟩, rfl⟩
  | true =>
    rw [if_pos rfl]
    split <;> exact ⟨nofun, rfl⟩

theorem controlOff_wanted : (controlOff c webcam).webcam.Wanted := by
  unfold controlOff
  extract_lets fromConsole released wanted
  split
  · exact nofun
  · rename_i hkept
    intro hon
    rw [show released.active = true from hon, Bool.true_and, Bool.not_eq_true, Bool.not_eq_false',
      Bool.or_eq_true] at hkept
    exact hkept.imp (fun h => (Bool.and_eq_true_iff.mp h).1) fun h => (Bool.and_eq_true_iff.mp h).1

theorem webcamControl_wanted (h : webcam.Wanted) : (webcamControl c qrRequest webcam).webcam.Wanted := by
  rcases webcamControl_cases with ⟨e, -, hsame⟩ | ⟨raw, webcam', -, hasked, hcontrol⟩
  · rwa [hsame]
  · rw [hcontrol]
    split
    · rename_i hon
      intro _
      rw [controlOn_flags.1, controlOn_flags.2, hasked, hon, Bool.or_eq_true]
      cases c.source != 0 with
      | false => exact Or.inr rfl
      | true => exact Or.inl (Or.inr rfl)
    · exact controlOff_wanted

/-- A control message that does not find the camera with the QR scanner leaves a true record. -/
theorem webcamControl_records (h : webcam.Records g) (hfree : (c.on && c.raw.isOk && qrRequest) = false) :
    (webcamControl c qrRequest webcam).webcam.Records (g.control c (webcamControl c qrRequest webcam)) := by
  rcases webcamControl_cases with ⟨e, hraw, hsame⟩ | ⟨raw, webcam', hraw, hasked, hcontrol⟩
  · rwa [hsame, Granted.control, hraw]
  · simp only [Granted.control, hraw, hcontrol]
    cases hon : c.on with
    | true =>
      obtain rfl : qrRequest = false := by simpa [hon, hraw, Except.isOk, Except.toBool] using hfree
      rw [if_pos rfl, if_neg (by simp [controlOn_active])]
      constructor
      · rw [controlOn_flags.1, hasked, Granted.set]
        cases c.source != 0 with
        | false => simpa using h.console
        | true => exact fun _ => rfl
      · rw [controlOn_flags.2, hasked, hon, Granted.set]
        cases c.source != 0 with
        | false => exact fun _ => rfl
        | true => exact h.host
    | false =>
      rw [if_neg Bool.false_ne_true, if_neg (by simp)]
      constructor
      · intro hstays
        obtain ⟨hwas, hsource⟩ := controlOff_flags.1 hstays
        rw [hasked] at hwas
        rw [Granted.set, hsource]
        exact h.console hwas
      · rw [controlOff_flags.2, hasked, hon, Granted.set]
        cases c.source != 0 with
        | false => exact nofun
        | true => exact h.host

theorem webcamWatchdog_records {session captured : Nat} (h : webcam.Records g)
    (hgoes : (webcam.active && webcam.session == session && webcam.captured == captured &&
      decide (restartLimit ≤ webcam.restarts)) = false) :
    (webcamWatchdog session captured webcam).webcam.Records
      (g.watchdog webcam (webcamWatchdog session captured webcam)) := by
  have hkept : (webcamWatchdog session captured webcam).webcam.active = webcam.active ∧
      (webcamWatchdog session captured webcam).webcam.Records g := by
    unfold webcamWatchdog
    split
    · rename_i hdue
      rw [if_pos (by simpa [hdue.1, hdue.2.1, hdue.2.2] using hgoes)]
      exact ⟨rfl, h.console, h.host⟩
    · exact ⟨rfl, h⟩
  rw [Granted.watchdog, hkept.1, if_neg (by simp)]
  exact hkept.2

end Flags

theorem flags_perform (a : CamAction) (s : VideoState) :
    (∃ c, a = .control c) ∨ (∃ session captured, a = .watchdog session captured) ∨
      ((perform a s).webcam.active = s.webcam.active ∧ (perform a s).webcam.pinned = s.webcam.pinned ∧
        (perform a s).webcam.hostStreaming = s.webcam.hostStreaming ∧
        ∀ g : Granted, g.after s (.act a) = g) := by
  cases a with
  | control c => exact .inl ⟨c, rfl⟩
  | watchdog session captured => exact .inr (.inl ⟨session, captured, rfl⟩)
  | _ => exact .inr (.inr ⟨rfl, rfl, rfl, fun _ => rfl⟩)

/-- A step of the service that meets a condition, with the requests that hold after it. -/
def GrantStep (ok : VideoState → VideoLabel → Prop) (x : Config CamAction VideoState × Granted)
    (l : VideoLabel) (y : Config CamAction VideoState × Granted) : Prop :=
  videoService.Step x.1 l y.1 ∧ ok x.1.state l ∧ y.2 = x.2.after x.1.state l

section Steps

variable {ok : VideoState → VideoLabel → Prop} {x y : Config CamAction VideoState × Granted}
  {l : VideoLabel}

theorem GrantStep.wanted (h : x.1.state.webcam.Wanted) (hstep : GrantStep ok x l y) : y.1.state.webcam.Wanted := by
  obtain ⟨c, g⟩ := x
  obtain ⟨c', g'⟩ := y
  obtain ⟨hstep, -, -⟩ := hstep
  cases hstep with
  | receive s m => exact h
  | interrupt s e rest =>
    change (camEvent e s).webcam.Wanted
    rwa [camEvent_webcam]
  | act s a next =>
    change (perform a s).webcam.Wanted
    rcases flags_perform a s with ⟨c, rfl⟩ | ⟨session, captured, rfl⟩ | ⟨hactive, hpinned, hhost, -⟩
    · exact webcamControl_wanted h
    · change (webcamWatchdog session captured s.webcam).webcam.Wanted
      unfold webcamWatchdog
      split
      · split
        · exact h
        · exact fun h => by cases h
      · exact h
    · rwa [Webcam.Wanted, hactive, hpinned, hhost]

theorem GrantStep.records (hadmitted : admitted x.1.state l = true) (h : x.1.state.webcam.Records x.2)
    (hstep : GrantStep ok x l y) : y.1.state.webcam.Records y.2 := by
  obtain ⟨c, g⟩ := x
  obtain ⟨c', g'⟩ := y
  obtain ⟨hstep, -, rfl⟩ := hstep
  cases hstep with
  | receive s m => exact h
  | interrupt s e rest =>
    change (camEvent e s).webcam.Records g
    rwa [camEvent_webcam]
  | act s a next =>
    rcases flags_perform a s with ⟨c, rfl⟩ | ⟨session, captured, rfl⟩ | ⟨-, hpinned, hhost, hsame⟩
    · exact webcamControl_records h ((Bool.not_eq_true' _).mp hadmitted)
    · exact webcamWatchdog_records h ((Bool.not_eq_true' _).mp hadmitted)
    · rw [hsame]
      exact ⟨fun hon => h.console (hpinned.symm.trans hon), fun hon => h.host (hhost.symm.trans hon)⟩

end Steps

/-- The service at its start, with no request. -/
def unasked : Config CamAction VideoState × Granted := (⟨{}, .ret ()⟩, {})

/-- In every run a camera that is on is pinned by the console or streaming to the host; if no
request comes while the QR scanner has it and the watchdog does not give up, whoever is on record
was granted it and has not given it back. -/
theorem camera_runs_for_granted_requests {ok : VideoState → VideoLabel → Prop}
    {labels : List VideoLabel} {c : Config CamAction VideoState} {g : Granted}
    (run : Run (GrantStep ok) unasked labels (c, g)) :
    (c.state.webcam.active = true →
      c.state.webcam.pinned = true ∨ c.state.webcam.hostStreaming = true) ∧
    ((∀ s l, ok s l → admitted s l = true) →
      (c.state.webcam.pinned = true → g.console = true) ∧
      (c.state.webcam.hostStreaming = true → g.host = true) ∧
      (c.state.webcam.active = true → g.console = true ∨ g.host = true)) := by
  have hwanted : c.state.webcam.Wanted := run.invariant (I := fun x => x.1.state.webcam.Wanted)
    nofun fun _ _ _ h hstep => hstep.wanted h
  refine ⟨hwanted, fun hadmitted => ?_⟩
  have hrecords : c.state.webcam.Records g := run.invariant (I := fun x => x.1.state.webcam.Records x.2)
    ⟨nofun, nofun⟩
    fun _ _ _ h hstep => hstep.records (hadmitted _ _ hstep.2.1) h
  exact ⟨hrecords.console, hrecords.host, fun hon => (hwanted hon).imp hrecords.console hrecords.host⟩

/-- The steps that a list of labels names, with the requests, as long as they meet a condition. -/
def grantWalk (ok : VideoState → VideoLabel → Bool) (labels : List VideoLabel) :
    Option (Config CamAction VideoState × Granted) :=
  labels.foldlM (fun x l => if ok x.1.state l then
    (videoService.step x.1 l).map (·, x.2.after x.1.state l) else none) unasked

theorem run_of_grantWalk {ok : VideoState → VideoLabel → Bool} {labels : List VideoLabel}
    {x : Config CamAction VideoState × Granted} (h : grantWalk ok labels = some x) :
    Run (GrantStep fun s l => ok s l) unasked labels x := by
  refine Run.of_foldlM (fun x l y hy => ?_) h
  obtain ⟨hok, hstep⟩ := Option.ite_none_right_eq_some.mp hy
  obtain ⟨c, hc, rfl⟩ := Option.map_eq_some_iff.mp hstep
  exact ⟨.of_step hc, hok, rfl⟩

/-- The host opens a stream of the first mode and closes it. -/
def hostVisit : List VideoLabel :=
  sessionStart ⟨true, 0, 0, 0⟩ ({} : Webcam).view.ring ++ controlSteps ⟨false, 0, 0, 0⟩

/-- The console asks for the camera while the QR scanner has it, and is refused. -/
def refusedConsole : List VideoLabel :=
  [.receive .acquireQr, .act .load, .act .acquireQr] ++ controlSteps ⟨true, 1, 0, 0⟩ ++
    [.receive .keyPress, .act .endQr]

/-- The watchdog restarts the session of the console three times and gives up. -/
def givenUpConsole : List VideoLabel :=
  let ring := ({} : Webcam).view.ring
  let restart (session : Nat) : List VideoLabel :=
    .receive (.webcamWatchdog session 0) :: .act (.watchdog session 0) :: .act .setup ::
      (frameStart ring ++ actSteps [.applySettings])
  sessionStart ⟨true, 1, 0, 0⟩ ring ++ restart 1 ++ restart 2 ++ restart 3 ++
    [.receive (.webcamWatchdog 4 0), .act (.watchdog 4 0)]

/-- The camera stays on after the host has closed its stream, though the console was refused, or its
session was given up. -/
theorem camera_stays_on_for_nobody :
    (∃ c, Run (GrantStep fun _ _ => true) unasked (refusedConsole ++ hostVisit) (c, {}) ∧
      c.state.qrRequest = false ∧ c.state.webcam.active = true) ∧
    ∃ c, Run (GrantStep fun _ _ => true) unasked (givenUpConsole ++ hostVisit) (c, {}) ∧
      c.state.qrRequest = false ∧ c.state.webcam.active = true := by
  have hleft : ∀ labels, (grantWalk (fun _ _ => true) labels).map
      (fun x => (x.2, x.1.state.qrRequest, x.1.state.webcam.active)) = some ({}, false, true) →
      ∃ c, Run (GrantStep fun _ _ => true) unasked labels (c, {}) ∧
        c.state.qrRequest = false ∧ c.state.webcam.active = true := by
    intro labels h
    obtain ⟨⟨c, g⟩, hwalk, hseen⟩ := Option.map_eq_some_iff.mp h
    obtain ⟨rfl, hqr, hactive⟩ : g = {} ∧ _ ∧ _ := by simpa only [Prod.mk.injEq] using hseen
    exact ⟨c, run_of_grantWalk hwalk, hqr, hactive⟩
  exact ⟨hleft _ rfl, hleft _ rfl⟩

/-- The console's session outlives the host's stream, for the console. -/
theorem console_keeps_its_camera :
    ∃ c g, Run (GrantStep fun s l => admitted s l) unasked
        (sessionStart ⟨true, 1, 0, 0⟩ ({} : Webcam).view.ring ++ controlSteps ⟨true, 0, 0, 0⟩ ++
          controlSteps ⟨false, 0, 0, 0⟩) (c, g) ∧
      c.state.webcam.active = true ∧ g.host = false ∧ g.console = true := by
  have hrun : (grantWalk admitted (sessionStart ⟨true, 1, 0, 0⟩ ({} : Webcam).view.ring ++
      controlSteps ⟨true, 0, 0, 0⟩ ++ controlSteps ⟨false, 0, 0, 0⟩)).map
      (fun x => (x.1.state.webcam.active, x.2.host)) = some (true, false) := rfl
  obtain ⟨⟨c, g⟩, hwalk, hseen⟩ := Option.map_eq_some_iff.mp hrun
  obtain ⟨hactive, hhost⟩ := Prod.mk.inj hseen
  have run := run_of_grantWalk hwalk
  have hgranted := ((camera_runs_for_granted_requests run).2 fun _ _ h => h).2.2 hactive
  refine ⟨c, g, run, hactive, hhost, hgranted.resolve_right fun hon => ?_⟩
  exact Bool.false_ne_true (hhost.symm.trans hon)

end BaochipXous.Video
