import BaochipXous.UsbUvcSteps

/-!
The hand-off of a staged chunk to the interrupt handler, through a slot that holds one request, and
its transfers. The class object matches completions with the payload at its cursor by two flags,
which is right while at most one transfer is outstanding; a kick while that of an abandoned stream
is outstanding shifts every later completion by one.
-/

namespace BaochipXous.Usb

open Interleaved

variable (s : UsbState)

/-- A chunk is set in a running stream and nothing is in flight. -/
def UsbState.ChunkWaits : Prop :=
  s.uvc.streaming = true ∧ s.uvc.frameActive = true ∧ s.uvc.inFlight = false

/-- The completion of an abandoned transfer is outstanding and will kick again. -/
def UsbState.WillRekick : Prop :=
  s.uvc.discardCompletion = true ∧ s.ring ≠ []

/-- A chunk waits and nothing will start it. -/
def UsbState.Stranded : Prop :=
  s.ChunkWaits ∧ s.irqReq ≠ some .uvcKick ∧ ¬s.WillRekick

instance (s : UsbState) : Decidable s.ChunkWaits :=
  inferInstanceAs (Decidable (_ ∧ _))

instance (s : UsbState) : Decidable s.WillRekick :=
  inferInstanceAs (Decidable (_ ∧ _))

instance (s : UsbState) : Decidable s.Stranded :=
  inferInstanceAs (Decidable (_ ∧ _))

/-- The main loop handles anything but a request to reset the bus. -/
def NoBusReset (_ : UsbState) (l : Label LoopAction UsbIrq LoopMsg) : Prop :=
  l ≠ .receive .usbBusReset

instance (s : UsbState) (l : Label LoopAction UsbIrq LoopMsg) : Decidable (NoBusReset s l) :=
  inferInstanceAs (Decidable (_ ≠ _))

/-- No keyboard request is posted over a kick that a waiting chunk depends on. -/
def KickKept (l : Label LoopAction UsbIrq LoopMsg) : Prop :=
  l = .act (.post .kbdTx) → s.irqReq = some .uvcKick → s.ChunkWaits → s.WillRekick

instance (s : UsbState) (l : Label LoopAction UsbIrq LoopMsg) : Decidable (KickKept s l) :=
  inferInstanceAs (Decidable (_ → _))

/-- The invariant: a waiting chunk is owed a kick, and a chunk is only active with a buffer to send it
from. -/
structure KickOwed : Prop where
  phys : s.staging.isSome → s.uvc.stagingPhys ≠ 0
  buffer : s.uvc.frameActive = true → s.staging.isSome
  owed : s.ChunkWaits → s.irqReq = some .uvcKick ∨ s.posting = true ∨ s.WillRekick

namespace KickOwed

variable {s s' : UsbState}

theorem of_not_waits (h : KickOwed s) (hkept : Interrupted s s') (hnot : ¬s'.ChunkWaits) : KickOwed s' where
  phys hsome := hkept.stagingPhys ▸ h.phys (hkept.staging ▸ hsome)
  buffer ha := hkept.staging ▸ h.buffer (hkept.active ha)
  owed hwaits := absurd hwaits hnot

theorem sameShared (h : KickOwed s) (hsame : SameShared s s') : KickOwed s' where
  phys hsome := hsame.uvc ▸ h.phys (hsame.staging ▸ hsome)
  buffer ha := hsame.staging ▸ h.buffer (hsame.uvc ▸ ha)
  owed hwaits := by
    rw [UsbState.WillRekick, hsame.irqReq, hsame.posting, hsame.uvc, hsame.ring]
    exact h.owed (by rwa [UsbState.ChunkWaits, hsame.uvc] at hwaits)

theorem not_waits_kick (hphys : s.uvc.frameActive = true → s.uvc.stagingPhys ≠ 0) (hwBusy : Bool) :
    ¬(kick hwBusy s).ChunkWaits := by
  rw [kick]
  split
  · cases hwBusy with
    | true => exact fun hwaits => Bool.false_ne_true hwaits.2.1
    | false => exact fun hwaits => Bool.false_ne_true hwaits.2.2.symm
  · rename_i hnot
    rintro ⟨hon, hactive, hnothing⟩
    exact hnot (by simp [UvcClass.Startable, hon, hactive, hnothing, hphys hactive])

theorem startable_phys (h : KickOwed s) (ha : s.uvc.frameActive = true) : s.uvc.stagingPhys ≠ 0 :=
  h.phys (h.buffer ha)

theorem not_waits_endpointInComplete (hphys : s.uvc.frameActive = true → s.uvc.stagingPhys ≠ 0) :
    ¬(endpointInComplete s).ChunkWaits := by
  rw [endpointInComplete]
  dsimp only
  split
  · exact not_waits_kick (s := clearDiscard (clearInFlight s)) hphys false
  · split
    · rename_i hidle
      rintro ⟨_, hactive, _⟩
      rw [hidle] at hactive
      cases hactive
    · split
      · exact fun hwaits => Bool.false_ne_true hwaits.2.2.symm
      · refine fun hwaits => absurd hwaits.2.1 ?_
        simp [finishChunk, notifyChunkDone, clearActive, UsbState.note]

theorem interrupt (h : KickOwed s) (i : UsbIrq) : KickOwed (interrupt i s) := by
  have hkept := Interrupted.interrupt s i
  cases i with
  | event e =>
    cases e with
    | transferDone =>
      cases hring : s.ring with
      | nil => simpa [Usb.interrupt, handleEvent, hring] using h
      | cons td rest =>
        refine h.of_not_waits hkept ?_
        rw [Usb.interrupt, handleEvent, hring]
        exact not_waits_endpointInComplete h.startable_phys
    | probe => exact ⟨h.phys, h.buffer, h.owed⟩
    | commit proposal =>
      refine h.of_not_waits hkept fun hwaits => absurd hwaits.2.1 ?_
      simp [Usb.interrupt, handleEvent]
    | getCur proposal =>
      obtain ⟨_, _, heq⟩ := adoptProbeProposal_eq proposal s
      rw [Usb.interrupt, handleEvent, heq]
      exact ⟨h.phys, h.buffer, h.owed⟩
    | clearFeature =>
      refine h.of_not_waits hkept fun hwaits => absurd hwaits.1 ?_
      simp [Usb.interrupt, handleEvent]
    | reset =>
      refine h.of_not_waits hkept fun hwaits => absurd hwaits.1 ?_
      simp [Usb.interrupt, handleEvent, resetState]
    | other => exact h
  | service hwBusy =>
    cases hreq : s.irqReq with
    | none => simpa [Usb.interrupt, serviceSwRequest, hreq] using h
    | some request =>
      cases request with
      | kbdTx =>
        rw [Usb.interrupt, serviceSwRequest, hreq]
        refine ⟨h.phys, h.buffer, fun hwaits => ?_⟩
        exact .inr ((h.owed hwaits).resolve_left (by simp [hreq]))
      | uvcKick =>
        refine h.of_not_waits hkept ?_
        rw [Usb.interrupt, serviceSwRequest, hreq]
        exact not_waits_kick (s := { s with irqReq := none }) h.startable_phys hwBusy

theorem perform {a : LoopAction} {ordered : Prop} (h : KickOwed s)
    (htaken : Taken ordered False a s) (hkick : KickKept s (.act a)) : KickOwed (perform a s) := by
  by_cases hlocal : a.isLocal = true
  · exact h.sameShared (.perform hlocal s)
  cases a with
  | storeChunk chunk | storeCursor => exact ⟨h.phys, h.buffer, h.owed⟩
  | storeActive => exact ⟨h.phys, fun _ => htaken.2.1, fun _ => .inr (.inl rfl)⟩
  | post request =>
    cases request with
    | kbdTx =>
      refine ⟨h.phys, h.buffer, fun hwaits => .inr (.inr ?_)⟩
      rcases h.owed hwaits with hslot | hposting | hrekick
      · exact hkick rfl hslot hwaits
      · exact absurd hposting (by simp [show s.posting = false from htaken])
      · exact hrekick
    | uvcKick => exact ⟨h.phys, h.buffer, fun _ => .inl rfl⟩
  | unplug =>
    have hkept := (Interrupted.withRing s []).trans ((Interrupted.resetState _).trans (Interrupted.withIrqReq _ none))
    have hoff : (Usb.perform .unplug s).uvc.streaming = false := swapStreaming_streaming _
    exact h.of_not_waits hkept fun hwaits => absurd (hoff.symm.trans hwaits.1) (by simp)
  | clearInFlight | clearDiscard | clearCursor | clearActive | swapStreaming | forceReset =>
    exact absurd htaken id
  | _ => exact absurd rfl hlocal

end KickOwed

/-- In every run in which no keyboard request overwrites a kick that a waiting chunk depends on, no
chunk is stranded: outside the two statements that set a chunk and post its kick, a waiting chunk
has a kick in the slot or an outstanding completion that will kick again. -/
theorem waiting_chunk_is_kicked {staging : Option IframRange}
    {labels : List (Label LoopAction UsbIrq LoopMsg)} {c : Config LoopAction UsbState}
    (walk : usbService.Walk (fun s l => NoBusReset s l ∧ KickKept s l) (.init staging) labels c)
    (hposted : c.state.posting = false) : ¬c.state.Stranded := by
  have run := usbService_effects False False (fun h => absurd h id) (fun s hok => hok.1 rfl) walk
  have howed : KickOwed c.state := by
    refine Service.Effect.invariant run ⟨fun hsome => ?_, nofun, fun hwaits => (nomatch hwaits.1)⟩
      (fun _ _ hs hok htaken => hs.perform htaken hok.2) fun _ i hs _ => hs.interrupt i
    cases staging with
    | none => cases hsome
    | some range => exact range.phys_ne
  rintro ⟨hwaits, hslot, hrekick⟩
  rcases howed.owed hwaits with h | h | h
  · exact hslot h
  · rw [hposted] at h
    cases h
  · exact hrekick h

def sampleRange : IframRange where
  phys := 0x50001000
  bytes := List.replicate stagingBytes 0
  phys_ne := by decide
  size := List.length_replicate

variable (n : Nat)

/-- A lend of a chunk that is a whole frame of `n` payloads of one byte. -/
def sampleLend : LoopMsg :=
  .uvcSendFrame (.mutableBorrow { buf := List.replicate n 0, offset := 7, valid := n })

def sampleChunk : Chunk :=
  { payloads := n, payloadLen := 3, lastLen := 3, eof := true }

def stageTurn : List (Label LoopAction UsbIrq LoopMsg) :=
  [.receive (sampleLend n), .act .load, .act (.receive (sampleLend n).body), .act .load,
    .act (.look .entered), .act (.look .elsewhere), .act (.stage .current),
    .act (.storeChunk (sampleChunk n)), .act .storeCursor, .act .storeActive,
    .act (.post .uvcKick), .act (.reply .current)]

/-- The host starts the stream, and a chunk of one payload is staged. -/
def stagedChunk : List (Label LoopAction UsbIrq LoopMsg) :=
  .interrupt (.event (.commit none)) :: stageTurn 1

theorem staged_chunk_is_kicked :
    ∃ c, usbService.Walk (fun s l => NoBusReset s l ∧ KickKept s l) (.init (some sampleRange))
      stagedChunk c ∧ c.state.ChunkWaits ∧ ¬c.state.Stranded := by
  obtain ⟨c, hwalk, hposted, hwaits⟩ :
      ∃ c, usbService.walk (fun s l => NoBusReset s l ∧ KickKept s l)
        ⟨.init (some sampleRange), .ret ()⟩ stagedChunk = some c ∧
        c.state.posting = false ∧ c.state.ChunkWaits :=
    ⟨_, rfl, rfl, by decide⟩
  exact ⟨c, .of_walk hwalk, hwaits, waiting_chunk_is_kicked (.of_walk hwalk) hposted⟩

/-- A key is sent after a chunk is staged and before the interrupt handler runs: it finds the
keyboard's request in the slot. -/
def overwrittenKick : List (Label LoopAction UsbIrq LoopMsg) :=
  stagedChunk ++
    [.receive (.keyboard 1), .act .load, .act (.receive none), .act .load, .act (.post .kbdTx),
      .act (.reply .current), .interrupt (.service false)]

theorem overwritten_kick_strands_chunk :
    ∃ c, usbService.Walk NoBusReset (.init (some sampleRange)) overwrittenKick c ∧
      c.state.posting = false ∧ c.state.Stranded := by
  obtain ⟨c, hwalk, hstate⟩ :
      ∃ c, usbService.walk NoBusReset ⟨.init (some sampleRange), .ret ()⟩ overwrittenKick = some c ∧
        c.state.posting = false ∧ c.state.Stranded :=
    ⟨_, rfl, rfl, by decide⟩
  exact ⟨c, .of_walk hwalk, hstate⟩

open UsbState

def UsbEvent.isStart : UsbEvent → Bool
  | .streamState on _ => on
  | _ => false

def UsbEvent.isSet : UsbEvent → Bool
  | .chunkSet _ => true
  | _ => false

def UsbEvent.transfer : UsbEvent → Option Td
  | .enqueued td => some td
  | _ => none

variable (s : UsbState)

/-- The events of the class object and the controller, latest first. -/
def UsbState.streamLog : List UsbEvent :=
  s.log.filter (!·.isLoop)

def sinceStart (log : List UsbEvent) : List UsbEvent :=
  log.takeWhile (!·.isStart)

def enqueuedIn (events : List UsbEvent) : List Td :=
  (events.filterMap UsbEvent.transfer).reverse

/-- The latest chunk that was set had each of its slots enqueued in order and completed since. -/
def ChunkSent (phys : Nat) (log : List UsbEvent) : Prop :=
  ∃ events chunk older, log = events ++ .chunkSet chunk :: older ∧
    (∀ e ∈ events, e.isSet = false) ∧
    (enqueuedIn events).map (·.addr) =
      (List.range chunk.payloads).map (fun i => phys + i * payloadStride) ∧
    ∀ td ∈ enqueuedIn events, UsbEvent.completed td ∈ events

/-- In a running stream with no chunk active, no transfer enqueued since its start is outstanding:
the buffer can be overwritten. -/
def UsbState.BufferUnread : Prop :=
  s.uvc.streaming = true → s.uvc.frameActive = false →
    ∀ td ∈ s.ring, UsbEvent.enqueued td ∉ sinceStart s.streamLog

def UsbState.DoneAfterSent : Prop :=
  ∀ newer older, s.streamLog = newer ++ .chunkDone :: older → ChunkSent s.uvc.stagingPhys older

/-- A kick is serviced with no transfer of an abandoned stream outstanding, and with the hardware at
hand. -/
def KickAlone : Label LoopAction UsbIrq LoopMsg → Prop
  | .interrupt (.service hwBusy) =>
    s.irqReq = some .uvcKick → s.uvc.Startable → s.uvc.discardCompletion = false ∧ hwBusy = false
  | _ => True

instance (s : UsbState) : (l : Label LoopAction UsbIrq LoopMsg) → Decidable (KickAlone s l)
  | .interrupt (.service _) => inferInstanceAs (Decidable (_ → _ → _))
  | .interrupt (.event _) | .receive _ | .act _ => inferInstanceAs (Decidable True)

@[simp]
theorem enqueuedIn_cons (e : UsbEvent) (events : List UsbEvent) :
    enqueuedIn (e :: events) = enqueuedIn events ++ e.transfer.toList := by
  cases htd : e.transfer <;> simp [enqueuedIn, htd]

theorem streamLog_note {e : UsbEvent} (s : UsbState) (he : e.isLoop = false) :
    (s.note e).streamLog = e :: s.streamLog := by simp [streamLog, note, he]

theorem slotAddr_congr {uvc uvc' : UvcClass} (hphys : uvc'.stagingPhys = uvc.stagingPhys) :
    uvc'.slotAddr = uvc.slotAddr := by
  funext i
  rw [UvcClass.slotAddr, UvcClass.slotAddr, hphys]

/-- How far the active chunk is: `sent` slots were enqueued, all but those in the ring completed. -/
structure Progress (sent : Nat) (events older : List UsbEvent) : Prop where
  log : s.streamLog = events ++ .chunkSet s.uvc.chunk :: older
  noSet : ∀ e ∈ events, e.isSet = false
  slots : (enqueuedIn events).map (·.addr) = (List.range sent).map s.uvc.slotAddr
  completed : ∀ td ∈ enqueuedIn events, UsbEvent.completed td ∈ events ∨ td ∈ s.ring

namespace Progress

variable {s s' : UsbState} {sent : Nat} {events older : List UsbEvent}

section

variable (h : Progress s sent events older) (hchunk : s'.uvc.chunk = s.uvc.chunk)
    (hphys : s'.uvc.stagingPhys = s.uvc.stagingPhys)

include h hchunk hphys

theorem same (hlog : s'.streamLog = s.streamLog) (hring : s'.ring = s.ring) :
    Progress s' sent events older where
  log := by rw [hlog, hchunk, h.log]
  noSet := h.noSet
  slots := by rw [h.slots, slotAddr_congr hphys]
  completed := by simpa [hring] using h.completed

theorem note {e : UsbEvent} (hlog : s'.streamLog = e :: s.streamLog) (hset : e.isSet = false)
    (htransfer : e.transfer = none) (hring : ∀ td ∈ s.ring, .completed td = e ∨ td ∈ s'.ring) :
    Progress s' sent (e :: events) older where
  log := by rw [hlog, hchunk, h.log, List.cons_append]
  noSet := List.forall_mem_cons.mpr ⟨hset, h.noSet⟩
  slots := by rw [enqueuedIn_cons, htransfer, Option.toList_none, List.append_nil, h.slots,
    slotAddr_congr hphys]
  completed td htd := by
    rw [enqueuedIn_cons, htransfer, Option.toList_none, List.append_nil] at htd
    rcases h.completed td htd with hdone | hopen
    · exact .inl (List.mem_cons_of_mem e hdone)
    · rcases hring td hopen with rfl | hstill
      · exact .inl List.mem_cons_self
      · exact .inr hstill

theorem enqueue {td : Td} (hlog : s'.streamLog = .enqueued td :: s.streamLog)
    (haddr : td.addr = s.uvc.slotAddr sent) (hring : s'.ring = s.ring ++ [td]) :
    Progress s' (sent + 1) (.enqueued td :: events) older where
  log := by rw [hlog, hchunk, h.log, List.cons_append]
  noSet := List.forall_mem_cons.mpr ⟨rfl, h.noSet⟩
  slots := by
    rw [enqueuedIn_cons, List.map_append, h.slots, List.range_succ, List.map_append, slotAddr_congr hphys]
    simp [UsbEvent.transfer, haddr]
  completed t ht := by
    rw [enqueuedIn_cons, List.mem_append] at ht
    rcases ht with hold | hnew
    · rcases h.completed t hold with hdone | hopen
      · exact .inl (List.mem_cons_of_mem _ hdone)
      · exact .inr (hring ▸ List.mem_append_left _ hopen)
    · have heq : t = td := by simpa [UsbEvent.transfer] using hnew
      subst heq
      exact .inr (by simp [hring])

end

end Progress

theorem UsbState.DoneAfterSent.note {s s' : UsbState} {e : UsbEvent} (h : s.DoneAfterSent)
    (hlog : s'.streamLog = e :: s.streamLog) (hphys : s'.uvc.stagingPhys = s.uvc.stagingPhys)
    (hdone : e = .chunkDone → ChunkSent s.uvc.stagingPhys s.streamLog) : s'.DoneAfterSent := by
  intro newer older hsplit
  rw [hlog] at hsplit
  rw [hphys]
  cases newer with
  | nil =>
    rw [List.nil_append, List.cons.injEq] at hsplit
    rw [← hsplit.2]
    exact hdone hsplit.1
  | cons first newer =>
    rw [List.cons_append, List.cons.injEq] at hsplit
    exact h newer older hsplit.2

theorem UsbState.DoneAfterSent.same {s s' : UsbState} (h : s.DoneAfterSent)
    (hlog : s'.streamLog = s.streamLog) (hphys : s'.uvc.stagingPhys = s.uvc.stagingPhys) :
    s'.DoneAfterSent := by
  intro newer older hsplit
  rw [hphys]
  exact h newer older (hlog ▸ hsplit)

/-- No transfer of the active chunk, if one is active, has been enqueued. -/
def UsbState.Unsent : Prop :=
  s.uvc.frameActive = true →
    s.uvc.cursor = 0 ∧ 1 ≤ s.uvc.chunk.payloads ∧ ∃ events older, Progress s 0 events older

/-- At most one transfer is outstanding, and the flags say whose it is. -/
inductive Outstanding (s : UsbState) : Prop where
  | nothing (hring : s.ring = []) (hflight : s.uvc.inFlight = false)
      (hdiscard : s.uvc.discardCompletion = false) (hunsent : s.Unsent)
  | sending (td : Td) (hring : s.ring = [td]) (hflight : s.uvc.inFlight = true)
      (hdiscard : s.uvc.discardCompletion = false) (hon : s.uvc.streaming = true)
      (hactive : s.uvc.frameActive = true) (hcursor : s.uvc.cursor < s.uvc.chunk.payloads)
      (events older : List UsbEvent) (hprogress : Progress s (s.uvc.cursor + 1) events older)
  | abandoned (td : Td) (hring : s.ring = [td]) (hdiscard : s.uvc.discardCompletion = true)
      (hstopped : s.uvc.inFlight = true → s.uvc.streaming = false)
      (hbefore : s.uvc.streaming = true → UsbEvent.enqueued td ∉ sinceStart s.streamLog)
      (hunsent : s.Unsent)

/-- The invariant of the runs in which kicks are serviced alone. -/
structure Matched : Prop where
  outstanding : Outstanding s
  done : s.DoneAfterSent

theorem Matched.bufferUnread {s : UsbState} (h : Matched s) : s.BufferUnread := by
  intro hon hidle td htd
  rcases h.outstanding with ⟨hring, _, _, _⟩ | ⟨td', hring, _, _, _, hactive, _, _, _, _⟩ |
    ⟨td', hring, _, _, hbefore, _⟩
  · rw [hring] at htd
    cases htd
  · rw [hidle] at hactive
    cases hactive
  · rw [hring, List.mem_singleton] at htd
    rw [htd]
    exact hbefore hon

section Steps

variable {s s' : UsbState}

/-- What the transfers depend on. -/
def UvcClass.sending (uvc : UvcClass) : Chunk × Nat × Bool × Bool × Bool × Bool × Nat :=
  (uvc.chunk, uvc.stagingPhys, uvc.streaming, uvc.frameActive, uvc.inFlight, uvc.discardCompletion, uvc.cursor)

theorem Matched.same (h : Matched s) (hlog : s'.streamLog = s.streamLog) (hring : s'.ring = s.ring)
    (hsending : s'.uvc.sending = s.uvc.sending) : Matched s' := by
  simp only [UvcClass.sending, Prod.mk.injEq] at hsending
  obtain ⟨hchunk, hphys, hon, hactive, hflight, hdiscard, hcursor⟩ := hsending
  have hunsent : s.Unsent → s'.Unsent := by
    intro hs ha
    obtain ⟨hzero, hpos, events, older, hprogress⟩ := hs (hactive ▸ ha)
    exact ⟨hcursor.trans hzero, hchunk ▸ hpos, events, older, hprogress.same hchunk hphys hlog hring⟩
  refine ⟨?_, h.done.same hlog hphys⟩
  cases h.outstanding with
  | nothing hr hf hd hu =>
    exact .nothing (hring.trans hr) (hflight.trans hf) (hdiscard.trans hd) (hunsent hu)
  | sending td hr hf hd ho ha hc events older hp =>
    refine .sending td (hring.trans hr) (hflight.trans hf) (hdiscard.trans hd) (hon.trans ho)
      (hactive.trans ha) (by rw [hcursor, hchunk]; exact hc) events older ?_
    rw [hcursor]
    exact hp.same hchunk hphys hlog hring
  | abandoned td hr hd hs hb hu =>
    refine .abandoned td (hring.trans hr) (hdiscard.trans hd) ?_ ?_ (hunsent hu)
    · rwa [hflight, hon]
    · rwa [hon, hlog]

theorem enqueuePayload_ring (s : UsbState) :
    ∃ td, (enqueuePayload false s).streamLog = .enqueued td :: s.streamLog ∧
      td.addr = s.uvc.slotAddr s.uvc.cursor ∧ (enqueuePayload false s).ring = s.ring ++ [td] :=
  ⟨_, rfl, rfl, rfl⟩

theorem Matched.enqueue_first (hring : s.ring = []) (hdiscard : s.uvc.discardCompletion = false)
    (hunsent : s.Unsent) (hdone : s.DoneAfterSent) (hstart : s.uvc.Startable) :
    Matched (enqueuePayload false s) := by
  simp only [UvcClass.Startable, not_or, Bool.not_eq_false] at hstart
  obtain ⟨_, hon, _, hactive⟩ := hstart
  obtain ⟨hzero, hpos, events, older, hprogress⟩ := hunsent hactive
  obtain ⟨td, hlog, haddr, hring'⟩ := enqueuePayload_ring s
  have hsent : Progress (enqueuePayload false s) (s.uvc.cursor + 1) (.enqueued td :: events) older := by
    rw [hzero] at haddr ⊢
    exact hprogress.enqueue (by rfl) (by rfl) hlog haddr hring'
  refine ⟨.sending td ?_ rfl hdiscard hon hactive ?_ _ older hsent, hdone.note hlog rfl (by simp)⟩
  · rw [hring', hring, List.nil_append]
  · change s.uvc.cursor < s.uvc.chunk.payloads
    omega

theorem Matched.kick_idle (hring : s.ring = []) (hflight : s.uvc.inFlight = false)
    (hdiscard : s.uvc.discardCompletion = false) (hunsent : s.Unsent) (hdone : s.DoneAfterSent) :
    Matched (kick false s) := by
  rw [kick]
  split
  · rename_i hstart
    exact .enqueue_first hring hdiscard hunsent hdone hstart
  · exact ⟨.nothing hring hflight hdiscard hunsent, hdone⟩

theorem handleEvent_transferDone {td : Td} {rest : List Td} (hring : s.ring = td :: rest) :
    handleEvent .transferDone s = endpointInComplete (note (.completed td) { s with ring := rest }) := by
  simp only [handleEvent, hring]

theorem endpointInComplete_discard (hdiscard : s.uvc.discardCompletion = true) :
    endpointInComplete s = kick false (clearDiscard (clearInFlight s)) := if_pos hdiscard

def nextPayload (s : UsbState) : UsbState :=
  { clearInFlight s with uvc.cursor := s.uvc.cursor + 1 }

theorem endpointInComplete_active (hdiscard : s.uvc.discardCompletion = false) (hactive : s.uvc.frameActive = true) :
    endpointInComplete s = if s.uvc.cursor + 1 < s.uvc.chunk.payloads then enqueuePayload false (nextPayload s)
      else finishChunk (nextPayload s) := by
  simp [endpointInComplete, nextPayload, clearInFlight, hdiscard, hactive]

theorem finishChunk_eq (s : UsbState) :
    ∃ framesSent chunksSent, finishChunk s =
      notifyChunkDone { s with uvc.cursor := 0, uvc.chunksSent := chunksSent,
                               uvc.framesSent := framesSent, uvc.frameActive := false } := by
  rw [finishChunk]
  dsimp only
  split
  · exact ⟨_, _, rfl⟩
  · exact ⟨s.uvc.framesSent, _, rfl⟩

/-- The one outstanding transfer completed. -/
structure Landed (s landed : UsbState) (td : Td) : Prop where
  log : landed.streamLog = .completed td :: s.streamLog
  ring : landed.ring = []
  chunk : landed.uvc.chunk = s.uvc.chunk
  phys : landed.uvc.stagingPhys = s.uvc.stagingPhys

theorem Landed.note (s : UsbState) (td : Td) : Landed s (note (.completed td) { s with ring := [] }) td :=
  ⟨streamLog_note { s with ring := [] } rfl, rfl, rfl, rfl⟩

theorem Landed.progress {landed : UsbState} {td : Td} {sent : Nat} {events older : List UsbEvent}
    (h : Landed s landed td) (hring : s.ring = [td]) (hprogress : Progress s sent events older) :
    Progress landed sent (.completed td :: events) older := by
  refine hprogress.note h.chunk h.phys h.log rfl rfl fun t ht => .inl ?_
  rw [hring, List.mem_singleton] at ht
  rw [ht]

variable (h : Matched s)
include h

theorem Matched.transferDone : Matched (handleEvent .transferDone s) := by
  cases h.outstanding with
  | nothing hring hflight hdiscard hunsent => simpa only [handleEvent, hring] using h
  | abandoned td hring hdiscard hstopped hbefore hunsent =>
    rw [handleEvent_transferDone hring, endpointInComplete_discard
      (s := note (.completed td) { s with ring := [] }) hdiscard]
    obtain ⟨hlog, hempty, hchunk, hphys⟩ := Landed.note s td
    refine .kick_idle hempty rfl rfl (fun hactive => ?_) (h.done.note hlog hphys (by simp))
    obtain ⟨hzero, hpos, events, older, hprogress⟩ := hunsent hactive
    exact ⟨hzero, hpos, _, older, (Landed.progress ⟨hlog, hempty, hchunk, hphys⟩ hring hprogress)⟩
  | sending td hring hflight hdiscard hon hactive hcursor events older hprogress =>
    rw [handleEvent_transferDone hring, endpointInComplete_active
      (s := note (.completed td) { s with ring := [] }) hdiscard hactive]
    set landed := nextPayload (note (.completed td) { s with ring := [] })
    have hlanded : Landed s landed td := ⟨(Landed.note s td).log, rfl, rfl, rfl⟩
    have hsent := hlanded.progress hring hprogress
    have hdone : landed.DoneAfterSent := h.done.note hlanded.log rfl (by simp)
    split
    · rename_i hmore
      obtain ⟨next, hlog, haddr, hring'⟩ := enqueuePayload_ring landed
      exact ⟨.sending next hring' rfl hdiscard hon hactive hmore _ older
        (hsent.enqueue (by rfl) (by rfl) hlog haddr hring'), hdone.note hlog rfl (by simp)⟩
    · rename_i hlast
      obtain ⟨framesSent, chunksSent, hfinish⟩ := finishChunk_eq landed
      rw [hfinish]
      have hall : s.uvc.cursor + 1 = landed.uvc.chunk.payloads := by
        change s.uvc.cursor + 1 = s.uvc.chunk.payloads
        have hstop : ¬s.uvc.cursor + 1 < s.uvc.chunk.payloads := hlast
        omega
      refine ⟨.nothing rfl rfl hdiscard fun h => (by cases h), hdone.note rfl rfl fun _ => ?_⟩
      refine ⟨_, landed.uvc.chunk, older, hsent.log, hsent.noSet, ?_, fun td htd => ?_⟩
      · rw [hsent.slots, hall]
        rfl
      · exact (hsent.completed td htd).resolve_right List.not_mem_nil

theorem Matched.abandon (on : Bool) (mode : Nat)
    (hlog : s'.streamLog = .streamState on mode :: s.streamLog) (hring : s'.ring = s.ring)
    (hphys : s'.uvc.stagingPhys = s.uvc.stagingPhys) (hidle : s'.uvc.frameActive = false)
    (hon : s'.uvc.streaming = on)
    (hdiscard : s'.uvc.discardCompletion = (s.uvc.discardCompletion || s.uvc.inFlight))
    (hflight : s'.uvc.inFlight = (!on && s.uvc.inFlight)) : Matched s' := by
  have hunsent : s'.Unsent := fun ha => absurd ha (by simp [hidle])
  have hdone : s'.DoneAfterSent := h.done.note hlog hphys nofun
  have hstopped : s'.uvc.inFlight = true → s'.uvc.streaming = false := by
    intro hf
    rw [hflight, Bool.and_eq_true] at hf
    simpa [hon] using hf.1
  have hbefore : ∀ td, s'.uvc.streaming = true → UsbEvent.enqueued td ∉ sinceStart s'.streamLog := by
    intro td hstream
    have hstart : on = true := hon.symm.trans hstream
    simp [hlog, sinceStart, UsbEvent.isStart, hstart]
  refine ⟨?_, hdone⟩
  cases h.outstanding with
  | nothing hr hf hd hu =>
    exact .nothing (hring.trans hr) (by simp [hflight, hf]) (by simp [hdiscard, hd, hf]) hunsent
  | sending td hr hf hd _ _ _ _ _ _ =>
    exact .abandoned td (hring.trans hr) (by simp [hdiscard, hf]) hstopped (hbefore td) hunsent
  | abandoned td hr hd _ _ _ =>
    exact .abandoned td (hring.trans hr) (by simp [hdiscard, hd]) hstopped (hbefore td) hunsent

theorem Matched.startStream : Matched (startStream s) := by
  refine h.abandon true s.uvc.selected ?_ ?_ ?_ ?_ ?_ ?_ ?_
  all_goals
    cases hflight : s.uvc.inFlight <;>
      simp [Usb.startStream, clearActive, clearCursor, notifyStreamState, note, streamLog, UsbEvent.isLoop, hflight]

theorem Matched.stopStream : Matched (stopStream s) := by
  by_cases hon : s.uvc.streaming = true
  · refine h.abandon false s.uvc.selected ?_ ?_ ?_ ?_ ?_ ?_ ?_
    all_goals
      cases hflight : s.uvc.inFlight <;>
        simp [Usb.stopStream, clearActive, clearCursor, notifyStreamState, note, streamLog, UsbEvent.isLoop, hflight, hon]
  · simpa [Usb.stopStream, hon] using h

theorem Matched.resetState : Matched (resetState { s with ring := [] }) := by
  obtain ⟨hring, hflight, hdiscard, hidle⟩ : (Usb.resetState { s with ring := [] }).ring = [] ∧
      (Usb.resetState { s with ring := [] }).uvc.inFlight = false ∧
      (Usb.resetState { s with ring := [] }).uvc.discardCompletion = false ∧
      (Usb.resetState { s with ring := [] }).uvc.frameActive = false := by
    rw [Usb.resetState, swapStreaming]
    split
    · exact ⟨rfl, rfl, rfl, rfl⟩
    · exact ⟨rfl, rfl, rfl, rfl⟩
  refine ⟨.nothing hring hflight hdiscard fun ha => absurd ha (by simp [hidle]), ?_⟩
  rw [Usb.resetState, swapStreaming]
  split
  · exact h.done.note (streamLog_note _ rfl) rfl (by simp)
  · exact h.done.same rfl rfl

theorem Matched.interrupt {i : UsbIrq} (halone : KickAlone s (.interrupt i)) : Matched (interrupt i s) := by
  cases i with
  | event e =>
    cases e with
    | transferDone => exact h.transferDone
    | probe => exact h.same rfl rfl rfl
    | commit proposal =>
      obtain ⟨probePending, selected, heq⟩ := adoptProbeProposal_eq proposal s
      rw [Usb.interrupt, handleEvent, heq]
      refine startStream ?_
      exact h.same rfl rfl rfl
    | getCur proposal =>
      obtain ⟨probePending, selected, heq⟩ := adoptProbeProposal_eq proposal s
      rw [Usb.interrupt, handleEvent, heq]
      exact h.same rfl rfl rfl
    | clearFeature => exact h.stopStream
    | reset => exact h.resetState
    | other => exact h
  | service hwBusy =>
    have htaken : Matched { s with irqReq := none } := h.same rfl rfl rfl
    rw [Usb.interrupt, serviceSwRequest]
    split
    · exact htaken
    · rename_i hreq
      rw [kick]
      split
      · rename_i hstart
        obtain ⟨hdiscard, rfl⟩ := halone hreq hstart
        cases htaken.outstanding with
        | nothing hring hflight hd hunsent =>
          exact .enqueue_first hring hd hunsent htaken.done hstart
        | sending td hring hflight _ _ _ _ _ _ _ =>
          exact absurd (show s.uvc.inFlight = true from hflight) fun hf => hstart (.inr (.inr (.inl hf)))
        | abandoned td hring hd _ _ _ =>
          exact absurd (show s.uvc.discardCompletion = true from hd) (by simp [hdiscard])
      · exact htaken
    · exact h

theorem Matched.prepare (hidle : s.uvc.frameActive = false)
    (hlog : s'.streamLog = s.streamLog ∨ ∃ chunk, s'.streamLog = .chunkSet chunk :: s.streamLog)
    (hring : s'.ring = s.ring) (hphys : s'.uvc.stagingPhys = s.uvc.stagingPhys)
    (hon : s'.uvc.streaming = s.uvc.streaming) (hflight : s'.uvc.inFlight = s.uvc.inFlight)
    (hdiscard : s'.uvc.discardCompletion = s.uvc.discardCompletion) (hunsent : s'.Unsent) : Matched s' := by
  have hdone : s'.DoneAfterSent := by
    rcases hlog with hsame | ⟨chunk, hset⟩
    · exact h.done.same hsame hphys
    · exact h.done.note hset hphys nofun
  refine ⟨?_, hdone⟩
  cases h.outstanding with
  | nothing hr hf hd _ =>
    exact .nothing (hring.trans hr) (hflight.trans hf) (hdiscard.trans hd) hunsent
  | sending td hr hf hd ho ha _ _ _ _ => exact absurd ha (by simp [hidle])
  | abandoned td hr hd hs hb _ =>
    refine .abandoned td (hring.trans hr) (hdiscard.trans hd) ?_ (fun hstream => ?_) hunsent
    · rwa [hflight, hon]
    · have hnot := hb (hon ▸ hstream)
      rcases hlog with hsame | ⟨chunk, hset⟩
      · rwa [hsame]
      · simpa [hset, sinceStart, UsbEvent.isStart] using hnot

theorem Matched.perform {a : LoopAction} {ordered : Prop}
    (htaken : Taken ordered False a s) : Matched (perform a s) := by
  by_cases hlocal : a.isLocal = true
  · have hsame := SameShared.perform hlocal s
    exact h.same hsame.log hsame.ring (by rw [hsame.uvc])
  cases a with
  | storeChunk chunk | storeCursor =>
    exact h.prepare htaken.1 (.inl rfl) rfl rfl rfl rfl rfl fun ha => absurd ha (by simpa [Usb.perform] using htaken.1)
  | storeActive =>
    obtain ⟨hidle, _, hpos, hzero⟩ := htaken
    have hlog : (Usb.perform .storeActive s).streamLog = .chunkSet s.uvc.chunk :: s.streamLog := rfl
    exact h.prepare hidle (.inr ⟨_, hlog⟩) rfl rfl rfl rfl rfl
      fun _ => ⟨hzero, hpos, [], s.streamLog, ⟨hlog, by simp, rfl, fun _ h => by cases h⟩⟩
  | post request => exact h.same rfl rfl rfl
  | unplug => exact h.resetState.same rfl rfl rfl
  | clearInFlight | clearDiscard | clearCursor | clearActive | swapStreaming | forceReset =>
    exact absurd htaken id
  | _ => exact absurd rfl hlocal

end Steps

/-- In every run without `UsbBusReset` in which every kick is serviced with no transfer of an
abandoned stream outstanding and the hardware at hand, the staging buffer is not read while the main
loop may overwrite it, and a chunk is reported done only after each of its slots was enqueued in
order and completed. -/
theorem staged_chunks_are_sent_whole {staging : Option IframRange}
    {labels : List (Label LoopAction UsbIrq LoopMsg)} {c : Config LoopAction UsbState}
    (walk : usbService.Walk (fun s l => NoBusReset s l ∧ KickAlone s l) (.init staging) labels c) :
    c.state.BufferUnread ∧ c.state.DoneAfterSent := by
  have run := usbService_effects False False (fun h => absurd h id) (fun s hok => hok.1 rfl) walk
  have hmatched : Matched c.state := by
    refine Service.Effect.invariant run ⟨.nothing rfl rfl rfl nofun, fun newer older hlog => ?_⟩
      (fun _ _ hs _ htaken => hs.perform htaken) fun _ _ hs hok => hs.interrupt hok.2
    exact absurd hlog (by simp [init, streamLog])
  exact ⟨hmatched.bufferUnread, hmatched.done⟩

def sentChunk : List (Label LoopAction UsbIrq LoopMsg) :=
  .interrupt (.event (.commit none)) :: stageTurn 2 ++
    [.interrupt (.service false), .interrupt (.event .transferDone),
      .interrupt (.event .transferDone)]

theorem sent_chunk_is_sent_whole :
    ∃ c, usbService.Walk (fun s l => NoBusReset s l ∧ KickAlone s l) (.init (some sampleRange))
      sentChunk c ∧ c.state.streamLog.head? = some .chunkDone ∧ c.state.BufferUnread ∧
      c.state.DoneAfterSent := by
  obtain ⟨c, hwalk, hdone⟩ :
      ∃ c, usbService.walk (fun s l => NoBusReset s l ∧ KickAlone s l)
        ⟨.init (some sampleRange), .ret ()⟩ sentChunk = some c ∧
        c.state.streamLog.head? = some .chunkDone :=
    ⟨_, rfl, by decide⟩
  exact ⟨c, .of_walk hwalk, hdone, staged_chunks_are_sent_whole (.of_walk hwalk)⟩

/-- The host commits the stream again while a payload is in flight. The next chunk is kicked before
it completes: its first slot is enqueued twice, and it is done before its second. -/
def restartedStream : List (Label LoopAction UsbIrq LoopMsg) :=
  .interrupt (.event (.commit none)) :: stageTurn 2 ++
    [.interrupt (.service false), .interrupt (.event (.commit none))] ++ stageTurn 2 ++
    [.interrupt (.service false), .interrupt (.event .transferDone),
      .interrupt (.event .transferDone), .interrupt (.event .transferDone)]

theorem restarted_stream_reports_early :
    ∃ c, usbService.Walk NoBusReset (.init (some sampleRange)) restartedStream c ∧
      c.state.streamLog.head? = some .chunkDone ∧ ¬c.state.BufferUnread ∧
      ∃ td ∈ c.state.ring, td.addr = c.state.uvc.slotAddr 1 ∧
        UsbEvent.completed td ∉ c.state.streamLog := by
  obtain ⟨c, hwalk, hdone, hon, hidle, td, htd, hsince, haddr, hopen⟩ :
      ∃ c, usbService.walk NoBusReset ⟨.init (some sampleRange), .ret ()⟩ restartedStream = some c ∧
        c.state.streamLog.head? = some .chunkDone ∧ c.state.uvc.streaming = true ∧
        c.state.uvc.frameActive = false ∧ ∃ td ∈ c.state.ring,
          UsbEvent.enqueued td ∈ sinceStart c.state.streamLog ∧
          td.addr = c.state.uvc.slotAddr 1 ∧ UsbEvent.completed td ∉ c.state.streamLog :=
    ⟨_, rfl, by decide, rfl, rfl, ⟨3, 0x50001000 + payloadStride, 3, false⟩, by decide, by decide,
      by decide, by decide⟩
  exact ⟨c, .of_walk hwalk, hdone, fun hunread => hunread hon hidle td htd hsince, td, htd, haddr, hopen⟩

end BaochipXous.Usb
