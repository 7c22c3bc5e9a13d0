import BaochipXous.UsbUvcTransfers

/-!
The lends of frame chunks. Every lend is answered once, with one of three result codes, and at most
one stays parked. That a parked chunk goes first needs more: an interrupt between the look at the
parked lend and the look of the handler lets a later chunk pass.
-/

namespace BaochipXous.Usb

open Interleaved UsbState

variable (s : UsbState)

def UsbState.loopLog : List UsbEvent :=
  s.log.filter UsbEvent.isLoop

/-- The event is a reply: letting go of a blocking message answers its sender. -/
def UsbEvent.repliesTo (sender : Nat) : UsbEvent → Bool
  | .dropped env => env.body.isBlocking && env.sender == sender
  | _ => false

/-- The FIRST flag and the frame ID bit of a chunk that is staged. -/
def UsbEvent.frame : UsbEvent → Option (Bool × UInt8)
  | .staged _ first fid => some (first, fid)
  | _ => none

/-- The envelopes that were parked and are not yet let go of. -/
def UsbState.aside : List Envelope :=
  s.pending.toList ++ s.resuming.toList

/-- The envelopes in the variables of the main loop. -/
def UsbState.inHand : List Envelope :=
  s.msgOpt.toList ++ s.aside

/-- Every lend that is no longer held got one reply, a lend that is held none; replies to mutable
lends carry a result. -/
structure UsbState.LendsAnswered : Prop where
  once : ∀ env, UsbEvent.received env ∈ s.loopLog → env.body.isLend = true →
    s.loopLog.countP (UsbEvent.repliesTo env.sender) =
      if env.sender ∈ s.inHand.map (·.sender) then 0 else 1
  coded : ∀ env, UsbEvent.dropped env ∈ s.loopLog → env.Answered

/-- The lend was parked and has no reply yet. -/
def UsbState.StillParked (sender : Nat) : Prop :=
  UsbEvent.parked sender ∈ s.loopLog ∧ ∀ env, UsbEvent.dropped env ∈ s.loopLog → env.sender ≠ sender

def UsbState.OneParked : Prop :=
  ∀ i j, s.StillParked i → s.StillParked j → i = j

/-- When a chunk is staged, all others that had been parked are answered. -/
def ParkedFirst (log : List UsbEvent) : Prop :=
  ∀ newer older sender first fid, log = newer ++ UsbEvent.staged sender first fid :: older →
    ∀ i, UsbEvent.parked i ∈ older →
      i = sender ∨ ∃ env, UsbEvent.dropped env ∈ older ∧ env.sender = i

/-- Between two staged chunks the frame ID bit toggles exactly when the second starts a frame. -/
def FrameIdsToggle (log : List UsbEvent) : Prop :=
  (log.filterMap UsbEvent.frame).IsChain fun later earlier =>
    later.2 = if later.1 then earlier.2 ^^^ 1 else earlier.2

/-- No interrupt frees the staging buffer between the two looks. -/
def LooksAgree : Label LoopAction UsbIrq LoopMsg → Prop
  | .interrupt i => s.OrderKept i
  | _ => True

instance : (i : UsbIrq) → (s : UsbState) → Decidable (i.ClearsActive s)
  | .event .transferDone, _ => inferInstanceAs (Decidable (_ ∧ _ ∧ _))
  | .event (.commit _), _ => inferInstanceAs (Decidable True)
  | .event .clearFeature, _ => inferInstanceAs (Decidable (_ = true))
  | .event .reset, _ => inferInstanceAs (Decidable True)
  | .service _, _ => inferInstanceAs (Decidable (_ ∧ _ ∧ _))
  | .event .probe, _ | .event (.getCur _), _ | .event .other, _ => inferInstanceAs (Decidable False)

instance : (i : UsbIrq) → Decidable i.StopsStream
  | .event .clearFeature | .event .reset => inferInstanceAs (Decidable True)
  | .event .transferDone | .event (.commit _) | .event .probe | .event (.getCur _)
  | .event .other | .service _ => inferInstanceAs (Decidable False)

instance (s : UsbState) (i : UsbIrq) : Decidable (s.OrderKept i) :=
  match h : s.look with
  | .elsewhere => .isTrue (by simp [UsbState.OrderKept, h])
  | .resumed => decidable_of_iff (s.pending.isSome → s.msgOpt.isSome → i.ClearsActive s →
      i.StopsStream) (by simp [UsbState.OrderKept, h])
  | .entered => decidable_of_iff (s.pending.isSome → s.msgOpt.isSome → ¬i.ClearsActive s)
      (by simp [UsbState.OrderKept, h])

instance (s : UsbState) : (l : Label LoopAction UsbIrq LoopMsg) → Decidable (LooksAgree s l)
  | .interrupt i => inferInstanceAs (Decidable (s.OrderKept i))
  | .receive _ => inferInstanceAs (Decidable True)
  | .act _ => inferInstanceAs (Decidable True)

theorem Message.isBlocking_of_isLend {m : Message} (h : m.isLend = true) : m.isBlocking = true := by
  cases m with
  | mutableBorrow mem => rfl
  | borrow mem => rfl
  | _ => cases h

variable (env : Envelope)

/-- What the accounts keep of an envelope. -/
def Envelope.token : Nat × Bool :=
  (env.sender, env.body.isBlocking)

@[simp]
theorem Envelope.token_setValid (code : Nat) (env : Envelope) : (env.setValid code).token = env.token := by
  cases hbody : env.body <;> simp [token, setValid, hbody, Message.setValid, Message.isBlocking]

@[simp]
theorem token_uvcStageChunk (staging : List UInt8) (fid : UInt8) :
    (uvcStageChunk env staging fid).env.token = env.token := by
  rw [uvcStageChunk]
  split
  · rfl
  · split
    · exact env.token_setValid uvcResultSent
    · exact env.token_setValid uvcResultBadFrame

theorem map_sender_eq (envs : List Envelope) : envs.map (·.sender) = (envs.map Envelope.token).map Prod.fst := by
  rw [List.map_map]
  rfl

/-- The replies so far against the envelopes in hand. -/
structure Accounted (log : List UsbEvent) (tokens : List (Nat × Bool)) (received : Nat) : Prop where
  old : ∀ env, UsbEvent.received env ∈ log ∨ UsbEvent.dropped env ∈ log → env.sender < received
  unique : ∀ env env', UsbEvent.received env ∈ log → UsbEvent.received env' ∈ log →
    env.sender = env'.sender → env = env'
  held : ∀ t ∈ tokens, ∃ env, UsbEvent.received env ∈ log ∧ env.token = t
  distinct : (tokens.map Prod.fst).Nodup
  replies : ∀ env, UsbEvent.received env ∈ log → env.body.isBlocking = true →
    log.countP (UsbEvent.repliesTo env.sender) = if env.sender ∈ tokens.map Prod.fst then 0 else 1

namespace Accounted

variable {log : List UsbEvent} {tokens : List (Nat × Bool)} {received : Nat}

theorem nil : Accounted [] [] 0 where
  old env h := by simp at h
  unique env env' h := by simp at h
  held t h := by simp at h
  distinct := List.nodup_nil
  replies env h := by simp at h

section

variable (h : Accounted log tokens received)
include h

theorem skip : Accounted log tokens (received + 1) :=
  { h with old := fun env henv => (h.old env henv).trans (Nat.lt_succ_self received) }

theorem note {e : UsbEvent} (hreceived : ∀ env, UsbEvent.received env ≠ e) (hdropped : ∀ env, UsbEvent.dropped env ≠ e) :
    Accounted (e :: log) tokens received := by
  have hmem : ∀ env, UsbEvent.received env ∈ e :: log ↔ UsbEvent.received env ∈ log := by
    intro env
    simp [hreceived env]
  have hreply : ∀ sender, e.repliesTo sender = false := by
    intro sender
    cases e with
    | dropped env => exact absurd rfl (hdropped env)
    | _ => rfl
  refine ⟨fun env henv => h.old env ?_, fun env env' henv henv' => ?_, fun t ht => ?_, h.distinct,
    fun env henv hblocking => ?_⟩
  · simpa [hreceived env, hdropped env] using henv
  · exact h.unique env env' ((hmem env).mp henv) ((hmem env').mp henv')
  · obtain ⟨env, henv, heq⟩ := h.held t ht
    exact ⟨env, (hmem env).mpr henv, heq⟩
  · rw [List.countP_cons_of_neg (by simp [hreply])]
    exact h.replies env ((hmem env).mp henv) hblocking

theorem held_lt {i : Nat} (hi : i ∈ tokens.map Prod.fst) : i < received := by
  obtain ⟨t, ht, rfl⟩ := List.mem_map.mp hi
  obtain ⟨env, henv, rfl⟩ := h.held t ht
  exact h.old env (.inl henv)

theorem no_replies : log.countP (UsbEvent.repliesTo received) = 0 := by
  rw [List.countP_eq_zero]
  intro e he hreply
  cases e with
  | dropped env =>
    have hlt := h.old env (.inr he)
    simp only [UsbEvent.repliesTo, Bool.and_eq_true, beq_iff_eq] at hreply
    omega
  | _ => cases hreply

theorem receive (body : Message) :
    Accounted (.received ⟨received, body⟩ :: log) ((received, body.isBlocking) :: tokens) (received + 1) := by
  have hcases : ∀ env, UsbEvent.received env ∈ UsbEvent.received ⟨received, body⟩ :: log →
      env = ⟨received, body⟩ ∨ UsbEvent.received env ∈ log := by
    intro env henv
    simpa using henv
  refine ⟨fun env henv => ?_, fun env env' henv henv' heq => ?_, fun t ht => ?_, ?_, fun env henv hblocking => ?_⟩
  · rcases henv with henv | henv
    · rcases hcases env henv with rfl | hold
      · exact Nat.lt_succ_self received
      · exact (h.old env (.inl hold)).trans (Nat.lt_succ_self received)
    · have hold : UsbEvent.dropped env ∈ log := by simpa using henv
      exact (h.old env (.inr hold)).trans (Nat.lt_succ_self received)
  · rcases hcases env henv with rfl | hold <;> rcases hcases env' henv' with rfl | hold'
    · rfl
    · exact absurd heq.symm (h.old env' (.inl hold')).ne
    · exact absurd heq (h.old env (.inl hold)).ne
    · exact h.unique env env' hold hold' heq
  · rcases List.mem_cons.mp ht with rfl | hold
    · exact ⟨⟨received, body⟩, List.mem_cons_self, rfl⟩
    · obtain ⟨env, henv, heq⟩ := h.held t hold
      exact ⟨env, List.mem_cons_of_mem _ henv, heq⟩
  · rw [List.map_cons, List.nodup_cons]
    exact ⟨fun hmem => absurd (h.held_lt hmem) (Nat.lt_irrefl received), h.distinct⟩
  · rw [List.countP_cons_of_neg (by simp [UsbEvent.repliesTo])]
    rcases hcases env henv with rfl | hold
    · simp [h.no_replies]
    · have hne : env.sender ≠ received := (h.old env (.inl hold)).ne
      rw [h.replies env hold hblocking]
      simp [hne]

end

theorem reply {before after : List (Nat × Bool)} {env : Envelope}
    (h : Accounted log (before ++ env.token :: after) received) :
    Accounted (.dropped env :: log) (before ++ after) received := by
  have hmem : ∀ e, UsbEvent.received e ∈ UsbEvent.dropped env :: log ↔ UsbEvent.received e ∈ log := by
    intro e
    simp
  obtain ⟨sent, hsent, htoken⟩ := h.held env.token (by simp)
  obtain ⟨hsender, hsame⟩ : sent.sender = env.sender ∧ sent.body.isBlocking = env.body.isBlocking :=
    Prod.mk.inj htoken
  have hdistinct := h.distinct
  rw [List.map_append, List.map_cons, List.nodup_middle, List.nodup_cons] at hdistinct
  refine ⟨fun e he => ?_, fun e e' he he' => ?_, fun t ht => ?_, ?_, fun e he hblocking => ?_⟩
  · rcases he with he | he
    · exact h.old e (.inl ((hmem e).mp he))
    · rcases List.mem_cons.mp he with heq | hold
      · cases heq
        exact hsender ▸ h.old sent (.inl hsent)
      · exact h.old e (.inr hold)
  · exact h.unique e e' ((hmem e).mp he) ((hmem e').mp he')
  · have hold : t ∈ before ++ env.token :: after := by
      rcases List.mem_append.mp ht with hb | ha
      · exact List.mem_append_left _ hb
      · exact List.mem_append_right _ (List.mem_cons_of_mem _ ha)
    obtain ⟨e, he, heq⟩ := h.held t hold
    exact ⟨e, (hmem e).mpr he, heq⟩
  · rw [List.map_append]
    exact hdistinct.2
  · have hcount := h.replies e ((hmem e).mp he) hblocking
    rw [List.map_append] at hcount ⊢
    rw [List.map_cons] at hcount
    by_cases heq : e.sender = env.sender
    · have hsent_eq : sent = e := h.unique sent e hsent ((hmem e).mp he) (hsender.trans heq.symm)
      have hreply : (UsbEvent.dropped env).repliesTo e.sender = true := by
        simp [UsbEvent.repliesTo, heq, ← hsame, hsent_eq, hblocking]
      rw [List.countP_cons_of_pos hreply, hcount, heq]
      rw [if_pos (by simp [Envelope.token])]
      exact (if_neg hdistinct.1).symm
    · have hreply : ¬(UsbEvent.dropped env).repliesTo e.sender = true := by
        simp [UsbEvent.repliesTo, Ne.symm heq]
      rw [List.countP_cons_of_neg hreply, hcount]
      simp [Envelope.token, heq]

end Accounted

variable {log : List UsbEvent} {e : UsbEvent}

theorem ParkedFirst.note (h : ParkedFirst log)
    (he : ∀ sender first fid, e ≠ .staged sender first fid) : ParkedFirst (e :: log) := by
  intro newer older sender first fid heq
  cases newer with
  | nil => exact absurd (List.cons.inj heq).1 (he sender first fid)
  | cons e' newer => exact h newer older sender first fid (List.cons.inj heq).2

variable {fid : UInt8}

theorem ParkedFirst.stage {sender : Nat} {first : Bool} (h : ParkedFirst log)
    (hparked : ∀ i, UsbEvent.parked i ∈ log → i = sender ∨ ∃ env, UsbEvent.dropped env ∈ log ∧ env.sender = i) :
    ParkedFirst (.staged sender first fid :: log) := by
  intro newer older sender' first' fid' heq
  cases newer with
  | nil =>
    obtain ⟨hhead, rfl⟩ := List.cons.inj heq
    cases hhead
    exact hparked
  | cons e' newer => exact h newer older sender' first' fid' (List.cons.inj heq).2

/-- The frame ID bits so far, and the current one. -/
structure Framed (log : List UsbEvent) (fid : UInt8) : Prop where
  toggles : FrameIdsToggle log
  current : ∀ f ∈ (log.filterMap UsbEvent.frame).head?, f.2 = fid

theorem Framed.note (h : Framed log fid) (he : e.frame = none) : Framed (e :: log) fid := by
  refine ⟨?_, ?_⟩
  · rw [FrameIdsToggle, List.filterMap_cons_none he]
    exact h.toggles
  · rw [List.filterMap_cons_none he]
    exact h.current

theorem Framed.stage {sender : Nat} {first : Bool} (h : Framed log fid) :
    Framed (.staged sender first (if first then fid ^^^ 1 else fid) :: log) (if first then fid ^^^ 1 else fid) := by
  have hcons : (UsbEvent.staged sender first (if first then fid ^^^ 1 else fid) :: log).filterMap UsbEvent.frame =
      (first, if first then fid ^^^ 1 else fid) :: log.filterMap UsbEvent.frame :=
    List.filterMap_cons_some rfl
  refine ⟨?_, ?_⟩
  · rw [FrameIdsToggle, hcons, List.isChain_cons]
    refine ⟨fun f hf => ?_, h.toggles⟩
    rw [h.current f hf]
  · rw [hcons]
    intro f hf
    cases hf
    rfl

/-- What holds of the lends in every state. `ordered`: the two looks always agree. -/
structure Lends (ordered : Prop) (s : UsbState) : Prop where
  accounted : Accounted s.loopLog (s.inHand.map Envelope.token) s.received
  coded : ∀ env, UsbEvent.dropped env ∈ s.loopLog → env.Answered
  alone : s.pending = none ∨ s.resuming = none
  parked : ∀ i, UsbEvent.parked i ∈ s.loopLog →
    i ∈ s.aside.map (·.sender) ∨ ∃ env, UsbEvent.dropped env ∈ s.loopLog ∧ env.sender = i
  framed : Framed s.loopLog s.fid
  parkedFirst : ordered → ParkedFirst s.loopLog

/-- What a step leaves alone that has nothing to do with the lends. -/
structure SameLends (s s' : UsbState) : Prop where
  loopLog : s'.loopLog = s.loopLog
  msgOpt : s'.msgOpt = s.msgOpt
  pending : s'.pending = s.pending
  resuming : s'.resuming = s.resuming
  received : s'.received = s.received
  fid : s'.fid = s.fid

theorem Interrupted.sameLends {s s' : UsbState} (h : Interrupted s s') : SameLends s s' :=
  ⟨h.log, h.msgOpt, h.pending, h.resuming, h.received, h.fid⟩

theorem loopLog_note (he : e.isLoop = true) : (s.note e).loopLog = e :: s.loopLog :=
  List.filter_cons_of_pos he

namespace Lends

variable {ordered : Prop} {s s' : UsbState}

section

variable (h : Lends ordered s)
include h

theorem same (hsame : SameLends s s') : Lends ordered s' := by
  have haside : s'.aside = s.aside := by rw [aside, aside, hsame.pending, hsame.resuming]
  have hhand : s'.inHand = s.inHand := by rw [inHand, inHand, hsame.msgOpt, haside]
  constructor <;> simp only [hsame.loopLog, hhand, haside, hsame.pending, hsame.resuming, hsame.received, hsame.fid]
  exacts [h.accounted, h.coded, h.alone, h.parked, h.framed, h.parkedFirst]

/-- A step that adds one event to the log. -/
theorem note {e : UsbEvent} (hlog : s'.loopLog = e :: s.loopLog)
    (haccounted : Accounted (e :: s.loopLog) (s'.inHand.map Envelope.token) s'.received)
    (hcoded : ∀ env, .dropped env = e → env.Answered) (halone : s'.pending = none ∨ s'.resuming = none)
    (hparked : ∀ i, .parked i = e ∨ i ∈ s.aside.map (·.sender) →
      i ∈ s'.aside.map (·.sender) ∨ ∃ env, .dropped env = e ∧ env.sender = i)
    (hframed : Framed (e :: s.loopLog) s'.fid) (hfirst : ordered → ParkedFirst (e :: s.loopLog)) :
    Lends ordered s' := by
  rw [← hlog] at haccounted hframed hfirst
  refine ⟨haccounted, ?_, halone, ?_, hframed, hfirst⟩ <;> rw [hlog]
  · exact fun env henv => (List.mem_cons.mp henv).elim (hcoded env) (h.coded env)
  · intro i hi
    have hadded {env : Envelope} (heq : .dropped env = e ∨ .dropped env ∈ s.loopLog) :
        .dropped env ∈ e :: s.loopLog := List.mem_cons.mpr heq
    rcases (List.mem_cons.mp hi).imp_right (h.parked i) with hnew | hmem | ⟨env, henv, heq⟩
    · exact (hparked i (.inl hnew)).imp_right fun ⟨env, henv, heq⟩ => ⟨env, hadded (.inl henv), heq⟩
    · exact (hparked i (.inr hmem)).imp_right fun ⟨env, henv, heq⟩ => ⟨env, hadded (.inl henv), heq⟩
    · exact .inr ⟨env, hadded (.inr henv), heq⟩

theorem receive {body : Option Message} (hempty : s.msgOpt = none) : Lends ordered (perform (.receive body) s) := by
  have hhand : s.inHand = s.aside := by simp [inHand, hempty]
  have haccounted := h.accounted
  rw [hhand] at haccounted
  cases body with
  | none => exact ⟨haccounted.skip, h.coded, h.alone, h.parked, h.framed, h.parkedFirst⟩
  | some body =>
    exact h.note (loopLog_note _ rfl) (haccounted.receive body) nofun h.alone
      (fun _ hi => .inl (hi.resolve_left nofun)) (h.framed.note rfl)
      fun hord => (h.parkedFirst hord).note nofun

theorem takePending (hempty : s.resuming = none) : Lends ordered (perform .takePending s) := by
  have haside : (perform .takePending s).aside = s.aside := by simp [aside, perform, hempty]
  have hhand : (perform .takePending s).inHand = s.inHand := congrArg (s.msgOpt.toList ++ ·) haside
  refine ⟨?_, h.coded, .inl rfl, ?_, h.framed, h.parkedFirst⟩
  · rw [hhand]
    exact h.accounted
  · rw [haside]
    exact h.parked

theorem park (hsome : s.msgOpt.isSome) (hpending : s.pending = none)
    (hresuming : s.resuming = none) : Lends ordered (perform .park s) := by
  obtain ⟨env, henv⟩ := Option.isSome_iff_exists.mp hsome
  rw [perform, henv]
  refine h.note (loopLog_note _ rfl) ?_ (by simp) (.inr hresuming) (fun i hi => .inl ?_)
    (h.framed.note rfl) fun hord => (h.parkedFirst hord).note (by simp)
  · have haccounted := h.accounted.note (e := .parked env.sender) (by simp) (by simp)
    simpa [inHand, aside, UsbState.note, henv, hpending, hresuming] using haccounted
  · simpa [aside, UsbState.note, hpending, hresuming] using hi

end

variable {h : Holder}

theorem replace {env env' : Envelope} (hlends : Lends ordered s)
    (henv : s.holder h = some env) (htoken : env'.token = env.token) :
    Lends ordered (s.setHolder (some env') h) := by
  have hsender : env'.sender = env.sender := congrArg Prod.fst htoken
  cases h with
  | current =>
    have hopt : s.msgOpt = some env := henv
    have hhand : (s.setHolder (some env') .current).inHand.map Envelope.token = s.inHand.map Envelope.token := by
      simp [inHand, aside, setHolder, hopt, htoken]
    refine ⟨?_, hlends.coded, hlends.alone, hlends.parked, hlends.framed, hlends.parkedFirst⟩
    rw [hhand]
    exact hlends.accounted
  | resumed =>
    have hopt : s.resuming = some env := henv
    have hpending : s.pending = none := hlends.alone.resolve_right (by simp [hopt])
    have hhand : (s.setHolder (some env') .resumed).inHand.map Envelope.token = s.inHand.map Envelope.token := by
      simp [inHand, aside, setHolder, hopt, htoken]
    have haside : (s.setHolder (some env') .resumed).aside.map (·.sender) =
        s.aside.map (·.sender) := by simp [aside, setHolder, hopt, hsender]
    refine ⟨?_, hlends.coded, .inl hpending, ?_, hlends.framed, hlends.parkedFirst⟩
    · rw [hhand]
      exact hlends.accounted
    · rw [haside]
      exact hlends.parked

theorem answer {code : Nat} (hlends : Lends ordered s) (hsome : (s.holder h).isSome) :
    Lends ordered (perform (.answer h code) s) := by
  obtain ⟨env, henv⟩ := Option.isSome_iff_exists.mp hsome
  rw [perform, henv, Option.map_some]
  exact hlends.replace henv (env.token_setValid code)

theorem staged {env : Envelope} {first : Bool} {fid : UInt8} (hlends : Lends ordered s)
    (henv : s.holder h = some env) (hpending : h = .resumed ∨ ordered → s.pending = none)
    (hresuming : h = .current → s.resuming = none)
    (hfid : fid = if first then s.fid ^^^ 1 else s.fid) :
    Lends ordered (UsbState.note (.staged env.sender first fid) { s with fid }) := by
  refine hlends.note (loopLog_note _ rfl) (hlends.accounted.note nofun nofun) nofun hlends.alone
    (fun _ hi => .inl (hi.resolve_left nofun)) ?_
    fun hord => (hlends.parkedFirst hord).stage fun i hi => ?_
  · subst hfid
    exact hlends.framed.stage
  · rcases hlends.parked i hi with hmem | hdropped
    · -- the only envelope that can be aside is the one that is staged
      rw [aside, hpending (.inr hord)] at hmem
      cases h with
      | current => simp [hresuming rfl] at hmem
      | resumed =>
        have hopt : s.resuming = some env := henv
        exact .inl (by simpa [hopt] using hmem)
    · exact .inr hdropped

end Lends

theorem noteStaged_none : s.noteStaged env none = s := by
  unfold noteStaged
  split
  · rename_i hsome
    cases hsome
  · rfl

theorem uvcStageChunk_frame (staging : List UInt8) (fid : UInt8) :
    ((uvcStageChunk env staging fid).chunk = none ∧ (uvcStageChunk env staging fid).fid = fid) ∨
      ∃ mem chunk, (uvcStageChunk env staging fid).env.body.memoryMessageMut = some mem ∧
        (uvcStageChunk env staging fid).chunk = some chunk ∧
        (uvcStageChunk env staging fid).fid = if mem.first then fid ^^^ 1 else fid := by
  rw [uvcStageChunk]
  cases hbody : env.body with
  | mutableBorrow mem | move mem =>
    dsimp only [Message.memoryMessageMut]
    split
    · exact .inr ⟨{ mem with valid := uvcResultSent }, _, by simp [Envelope.setValid, hbody, Message.setValid], rfl, rfl⟩
    · exact .inl ⟨rfl, rfl⟩
  | borrow mem | scalar | blockingScalar => exact .inl ⟨rfl, rfl⟩

namespace Lends

variable {ordered : Prop} {s s' : UsbState}

variable {h : Holder}

theorem stage (hlends : Lends ordered s) (hstaging : s.staging.isSome)
    (hsome : (s.holder h).isSome) (hpending : h = .resumed ∨ ordered → s.pending = none)
    (hresuming : h = .current → s.resuming = none) : Lends ordered (perform (.stage h) s) := by
  obtain ⟨env, henv⟩ := Option.isSome_iff_exists.mp hsome
  obtain ⟨staging, hbuffer⟩ := Option.isSome_iff_exists.mp hstaging
  rw [perform, stagedBy_eq henv hbuffer]
  dsimp only
  have htoken := token_uvcStageChunk env staging s.fid
  have hbase : Lends ordered { s with staging := some (uvcStageChunk env staging s.fid).staging } :=
    hlends.same ⟨rfl, rfl, rfl, rfl, rfl, rfl⟩
  rcases uvcStageChunk_frame env staging s.fid with ⟨hchunk, hfid⟩ | ⟨mem, chunk, hmem, hchunk, hfid⟩
  · rw [hchunk, hfid, noteStaged_none]
    cases h with
    | current => exact hbase.replace (h := .current) henv htoken
    | resumed => exact hbase.replace (h := .resumed) henv htoken
  · rw [hchunk]
    simp only [noteStaged, hmem]
    have hreplaced := hbase.replace (h := h) (by cases h <;> exact henv) htoken
    cases h with
    | current => exact hreplaced.staged (h := .current) rfl hpending hresuming hfid
    | resumed => exact hreplaced.staged (h := .resumed) rfl hpending (by simp) hfid

theorem release {env : Envelope} (henv : s.holder h = some env) :
    ∃ before after, s.inHand = before ++ env :: after ∧ (s.setHolder none h).inHand = before ++ after := by
  cases h with
  | current =>
    have hopt : s.msgOpt = some env := henv
    exact ⟨[], s.aside, by simp [inHand, hopt], by simp [inHand, aside, setHolder]⟩
  | resumed =>
    have hopt : s.resuming = some env := henv
    exact ⟨s.msgOpt.toList ++ s.pending.toList, [], by simp [inHand, aside, hopt],
      by simp [inHand, aside, setHolder]⟩

theorem reply (hlends : Lends ordered s) (hanswered : ∀ env, s.holder h = some env → env.Answered) :
    Lends ordered (perform (.reply h) s) := by
  rw [perform]
  cases henv : s.holder h with
  | none => exact hlends
  | some env =>
    dsimp only
    obtain ⟨before, after, hhand, hleft⟩ := release henv
    have hbase : (s.setHolder none h).loopLog = s.loopLog ∧
        (s.setHolder none h).received = s.received ∧ (s.setHolder none h).fid = s.fid := by
      cases h <;> exact ⟨rfl, rfl, rfl⟩
    have haccounted := hlends.accounted
    rw [hhand, List.map_append, List.map_cons] at haccounted
    refine hlends.note (by rw [loopLog_note _ rfl, hbase.1]) ?_ ?_ ?_ ?_ ?_
      fun hord => (hlends.parkedFirst hord).note fun _ _ _ => by simp
    · change Accounted _ ((s.setHolder none h).inHand.map Envelope.token) (s.setHolder none h).received
      rw [hleft, hbase.2.1, List.map_append]
      exact haccounted.reply
    · rintro _ ⟨⟩
      exact hanswered env henv
    · cases h with
      | current => exact hlends.alone
      | resumed => exact .inr rfl
    · intro i hi
      have hmem := hi.resolve_left (by simp)
      cases h with
      | current => exact .inl hmem
      | resumed =>
        have hopt : s.resuming = some env := henv
        rw [aside, hopt, List.map_append, List.mem_append] at hmem
        rcases hmem with hpending | hself
        · exact .inl (by simpa [aside, setHolder, UsbState.note] using hpending)
        · exact .inr ⟨env, rfl, Eq.symm (by simpa using hself)⟩
    · change Framed _ (s.setHolder none h).fid
      rw [hbase.2.2]
      exact hlends.framed.note rfl

theorem perform {a : LoopAction} {resets : Prop} (h : Lends ordered s)
    (htaken : Taken ordered resets a s) : Lends ordered (perform a s) := by
  cases a with
  | receive body => exact h.receive htaken.1
  | takePending => exact h.takePending htaken.1
  | stage holder =>
    obtain ⟨hstaging, hsome, _, hpending, hresuming⟩ := htaken
    exact h.stage hstaging hsome hpending hresuming
  | answer holder code => exact h.answer htaken.1
  | park => exact h.park htaken.1 htaken.2.1 htaken.2.2
  | reply holder => exact h.reply htaken
  | storeActive => exact h.same ⟨by simp [loopLog, Usb.perform, UsbState.note, UsbEvent.isLoop], rfl, rfl, rfl, rfl, rfl⟩
  | swapStreaming => exact h.same (Interrupted.swapStreaming s).sameLends
  | unplug =>
    have hkept := (Interrupted.withRing s []).trans ((Interrupted.resetState _).trans (Interrupted.withIrqReq _ none))
    exact h.same hkept.sameLends
  | _ => exact h.same ⟨rfl, rfl, rfl, rfl, rfl, rfl⟩

theorem init (staging : Option IframRange) : Lends ordered (.init staging) where
  accounted := .nil
  coded env henv := by simp [UsbState.loopLog, UsbState.init] at henv
  alone := .inl rfl
  parked i hi := by simp [UsbState.loopLog, UsbState.init] at hi
  framed := ⟨List.isChain_nil, fun f hf => by simp [UsbState.loopLog, UsbState.init] at hf⟩
  parkedFirst _ newer older sender first fid heq := by simp [UsbState.loopLog, UsbState.init] at heq

theorem of_run {resets : Prop} {ok : UsbState → Label LoopAction UsbIrq LoopMsg → Prop}
    {staging : Option IframRange} {labels : List (Label LoopAction UsbIrq LoopMsg)}
    (run : Labelled.Run (usbService.Effect ok (Taken ordered resets)) (.init staging) labels s) :
    Lends ordered s :=
  Service.Effect.invariant run (.init staging) (fun _ _ hs _ htaken => hs.perform htaken)
    fun s i hs _ => hs.same (Interrupted.interrupt s i).sameLends

theorem lendsAnswered (h : Lends ordered s) : s.LendsAnswered := by
  refine ⟨fun env henv hlend => ?_, h.coded⟩
  rw [h.accounted.replies env henv (Message.isBlocking_of_isLend hlend), map_sender_eq]

theorem oneParked (h : Lends ordered s) : s.OneParked := by
  have haside : ∀ i, s.StillParked i → i ∈ s.aside.map (·.sender) := by
    rintro i ⟨hparked, hnot⟩
    rcases h.parked i hparked with hmem | ⟨env, henv, heq⟩
    · exact hmem
    · exact absurd heq (hnot env henv)
  intro i j hi hj
  have hmemi := haside i hi
  have hmemj := haside j hj
  rcases h.alone with hnone | hnone
  · cases hopt : s.resuming with
    | none => simp [aside, hnone, hopt] at hmemi
    | some env =>
      simp only [aside, hnone, hopt, Option.toList, List.nil_append, List.map_cons,
        List.map_nil, List.mem_singleton] at hmemi hmemj
      rw [hmemi, hmemj]
  · cases hopt : s.pending with
    | none => simp [aside, hnone, hopt] at hmemi
    | some env =>
      simp only [aside, hnone, hopt, Option.toList, List.append_nil, List.map_cons,
        List.map_nil, List.mem_singleton] at hmemi hmemj
      rw [hmemi, hmemj]

end Lends

theorem loopLog_perform (a : LoopAction) (s : UsbState) : s.loopLog <:+ (perform a s).loopLog := by
  cases a with
  | receive body =>
    cases body with
    | none => exact List.suffix_refl _
    | some body =>
      rw [perform, loopLog_note _ rfl]
      exact List.suffix_cons _ _
  | stage h =>
    rw [perform]
    split
    · exact List.suffix_refl _
    · unfold noteStaged
      split
      · rw [loopLog_note _ rfl]
        cases h <;> exact List.suffix_cons _ _
      · cases h <;> exact List.suffix_refl _
  | answer h code => cases h <;> exact List.suffix_refl _
  | park =>
    rw [perform]
    split
    · exact List.suffix_refl _
    · rw [loopLog_note _ rfl]
      exact List.suffix_cons _ _
  | reply h =>
    rw [perform]
    split
    · exact List.suffix_refl _
    · rw [loopLog_note _ rfl]
      cases h <;> exact List.suffix_cons _ _
  | storeActive =>
    have hsame : (perform .storeActive s).loopLog = s.loopLog := by
      simp [loopLog, perform, note, UsbEvent.isLoop]
    exact hsame ▸ List.suffix_refl _
  | swapStreaming =>
    have hsame : (perform .swapStreaming s).loopLog = s.loopLog := (Interrupted.swapStreaming s).log
    exact hsame ▸ List.suffix_refl _
  | unplug =>
    have hsame : (perform .unplug s).loopLog = s.loopLog :=
      ((Interrupted.withRing s []).trans (Interrupted.resetState _)).log
    exact hsame ▸ List.suffix_refl _
  | _ => exact List.suffix_refl _

theorem loopLog_foldl_perform (acts : List LoopAction) (s : UsbState) :
    s.loopLog <:+ (acts.foldl (fun s a => usbService.perform a s) s).loopLog := by
  induction acts generalizing s with
  | nil => exact List.suffix_refl _
  | cons a acts ih => exact (loopLog_perform a s).trans (ih (perform a s))

/-- A run of the service goes on with a message, and the actions that follow give a parked lend its
reply. -/
def AnswersParked (staging : Option IframRange) (labels : List (Label LoopAction UsbIrq LoopMsg))
    (m : LoopMsg) (sender : Nat) : Prop :=
  ∃ (acts : List LoopAction) (c : Config LoopAction UsbState),
    usbService.Walk LooksAgree (.init staging) (labels ++ .receive m :: acts.map .act) c ∧
    c.state.loopLog.countP (UsbEvent.repliesTo sender) = 1

section Walk

variable {staging : Option IframRange} {labels : List (Label LoopAction UsbIrq LoopMsg)}
  {c : Config LoopAction UsbState}

theorem Lends.of_walk (walk : usbService.Walk LooksAgree (.init staging) labels c) : Lends True c.state :=
  .of_run (usbService_effects True True (fun _ _ _ hok => hok) (fun _ _ => trivial) walk)

/-- A lend that waits while the buffer is free or the stream is down is answered with the next
message. -/
theorem parked_lend_answered {env : Envelope}
    (walk : usbService.Walk LooksAgree (.init staging) labels c) (hrest : c.rest = .ret ())
    (hrunning : c.state.running = true) (henv : c.state.pending = some env)
    (hlend : env.body.isLend = true)
    (hfree : c.state.uvc.streaming = false ∨ c.state.uvc.frameActive = false) (m : LoopMsg) :
    AnswersParked staging labels m env.sender := by
  obtain ⟨pe, hands⟩ := usbService_waits walk hrest
  obtain rfl : pe = some env := hands.pending.symm.trans henv
  obtain ⟨s, rest⟩ := c
  dsimp only at hrest hrunning henv hfree hands
  subst hrest
  have hlends := Lends.of_walk walk
  -- up to the look at the parked lend
  have hloaded : usbService.Walk LooksAgree (.init staging)
      (labels ++ [.receive m] ++ [.act .load]) ⟨s, mainLoopTurn m⟩ := by
    have hstep : usbService.Walk LooksAgree (.init staging) (labels ++ [.receive m] ++ [.act .load])
        ⟨s, if s.running = true then mainLoopTurn m else pure ()⟩ :=
      Service.Walk.act (walk.receive (m := m) trivial) trivial
    rwa [if_pos hrunning] at hstep
  have htaken : usbService.Walk LooksAgree (.init staging)
      (labels ++ [.receive m] ++ [.act .load] ++ [.act (.receive m.body)])
      ⟨perform (.receive m.body) s, uvcResumePending >>= fun _ => do
        dispatch m
        Thread.take (.reply .current)⟩ :=
    Service.Walk.act hloaded trivial
  have hnow : ∃ mo, Hands mo (some env) none false (perform (.receive m.body) s) ∧
      ∀ e, mo = some e → e.sender = s.received := by
    cases m.body with
    | none => exact ⟨none, ⟨rfl, hands.pending, hands.resuming, hands.posting⟩, nofun⟩
    | some body =>
      refine ⟨some ⟨s.received, body⟩, ⟨rfl, hands.pending, hands.resuming, hands.posting⟩, ?_⟩
      intro e he
      cases he
      rfl
  obtain ⟨mo, hnow, hnumber⟩ := hnow
  have hstill : (perform (.receive m.body) s).uvc.streaming = false ∨
      (perform (.receive m.body) s).uvc.frameActive = false := by
    cases m.body <;> exact hfree
  have hresumes : usbService.Guarantees (fun _ _ => False) (Taken False False) uvcResumePending
      (fun _ s => Hands mo none none false s) (perform (.receive m.body) s) :=
    (uvcResumePending_guarantees hnow fun _ => hstill).mono fun _ _ h => h.2 trivial
  obtain ⟨acts, _, hwalk, hgone⟩ := htaken.finish (fun _ _ => trivial) hresumes
  refine ⟨.load :: .receive m.body :: acts, _, by simpa using hwalk, ?_⟩
  obtain ⟨sent, hsent, htoken⟩ := hlends.accounted.held env.token (List.mem_map_of_mem (by simp [inHand, aside, henv]))
  obtain ⟨hsender, hsame⟩ : sent.sender = env.sender ∧ sent.body.isBlocking = env.body.isBlocking :=
    Prod.mk.inj htoken
  have hold : env.sender < s.received := hsender ▸ hlends.accounted.old sent (.inl hsent)
  have hkept := ((loopLog_perform (.receive m.body) s).trans
    (loopLog_foldl_perform acts (perform (.receive m.body) s))).mem hsent
  have hcount := (Lends.of_walk hwalk).accounted.replies sent hkept (hsame.trans (Message.isBlocking_of_isLend hlend))
  rw [hsender, ← map_sender_eq, if_neg] at hcount
  · exact hcount
  · -- what is in hand now is the message that was just received
    simp only [inHand, aside, hgone.msgOpt, hgone.pending, hgone.resuming]
    cases mo with
    | none => simp
    | some e => simpa [hnumber e rfl] using hold.ne

/-- In every run in which no interrupt frees the buffer between the two looks: a lend that is not
held any more got one reply, a mutable one a result; at most one lend is parked, and the next
message answers it once the buffer is free or the stream down; a parked chunk is staged or refused
before a later one is; the frame ID bit toggles exactly with the chunks that start a frame. -/
theorem lends_are_answered_in_order
    (walk : usbService.Walk LooksAgree (.init staging) labels c) :
    c.state.LendsAnswered ∧ c.state.OneParked ∧ ParkedFirst c.state.loopLog ∧
      FrameIdsToggle c.state.loopLog ∧
      ∀ env, c.rest = .ret () → c.state.running = true → c.state.pending = some env →
        env.body.isLend = true →
        c.state.uvc.streaming = false ∨ c.state.uvc.frameActive = false →
        ∀ m, AnswersParked staging labels m env.sender := by
  have hlends := Lends.of_walk walk
  refine ⟨hlends.lendsAnswered, hlends.oneParked, hlends.parkedFirst trivial, hlends.framed.toggles,
    fun env hrest hrunning henv hlend hfree m => ?_⟩
  exact parked_lend_answered walk hrest hrunning henv hlend hfree m

end Walk

def parkTurn (n : Nat) : List (Label LoopAction UsbIrq LoopMsg) :=
  [.receive (sampleLend n), .act .load, .act (.receive (sampleLend n).body), .act .load,
    .act (.look .entered), .act (.look .elsewhere), .act .load, .act .park, .act (.reply .current)]

def parkedLend : List (Label LoopAction UsbIrq LoopMsg) :=
  stagedChunk ++ .interrupt (.service false) :: parkTurn 1

/-- The chunk in flight is sent, and the next message finds the buffer free. -/
def resumedLend : List (Label LoopAction UsbIrq LoopMsg) :=
  parkedLend ++ [.interrupt (.event .transferDone)]

theorem parked_lend_is_answered_in_order :
    ∃ c env, usbService.Walk LooksAgree (.init (some sampleRange)) resumedLend c ∧
      c.state.pending = some env ∧ c.state.LendsAnswered ∧ c.state.OneParked ∧
      ParkedFirst c.state.loopLog ∧ FrameIdsToggle c.state.loopLog ∧
      AnswersParked (some sampleRange) resumedLend .other env.sender := by
  obtain ⟨c, env, hwalk, hrest, hrunning, henv, hlend, hfree⟩ :
      ∃ c env, usbService.walk LooksAgree ⟨.init (some sampleRange), .ret ()⟩ resumedLend = some c ∧
        c.rest = .ret () ∧ c.state.running = true ∧ c.state.pending = some env ∧
        env.body.isLend = true ∧ c.state.uvc.frameActive = false :=
    ⟨_, _, rfl, rfl, rfl, rfl, rfl, rfl⟩
  obtain ⟨honce, hone, hfirst, htoggle, hnext⟩ := lends_are_answered_in_order (.of_walk hwalk)
  exact ⟨c, env, .of_walk hwalk, henv, honce, hone, hfirst, htoggle,
    hnext env hrest hrunning henv hlend (.inr hfree) .other⟩

/-- With the next lend the parked one finds the buffer busy; the chunk in flight is done before the
handler looks, which stages the later lend. -/
def overtakenLend : List (Label LoopAction UsbIrq LoopMsg) :=
  parkedLend ++
    [.receive (sampleLend 1), .act .load, .act (.receive (sampleLend 1).body), .act .load, .act .load,
      .act (.look .resumed), .interrupt (.event .transferDone), .act (.look .entered),
      .act (.look .elsewhere), .act (.stage .current)]

theorem later_lend_overtakes_parked_one :
    ∃ c, usbService.Walk (fun _ _ => True) (.init (some sampleRange)) overtakenLend c ∧
      ¬ParkedFirst c.state.loopLog := by
  obtain ⟨c, hwalk, older, hlog, hparked, hdropped⟩ :
      ∃ c, usbService.walk (fun _ _ => True) ⟨.init (some sampleRange), .ret ()⟩ overtakenLend = some c ∧
        ∃ older, c.state.loopLog = .staged 2 true 0 :: older ∧ .parked 1 ∈ older ∧
          older.all (fun | .dropped env => env.sender != 1 | _ => true) = true :=
    ⟨_, rfl, _, rfl, by decide, by decide⟩
  refine ⟨c, .of_walk hwalk, fun hfirst => ?_⟩
  rcases hfirst [] older 2 true 0 hlog 1 hparked with heq | ⟨env, henv, hsender⟩
  · cases heq
  · have hnot := List.all_eq_true.mp hdropped _ henv
    simp [hsender] at hnot

end BaochipXous.Usb
