import BaochipXous.UsbUvc

/-!
What a staged chunk holds, and what the interrupts and the actions of the main loop can do. An
interrupt never makes a chunk active; the main loop stages and submits only while none is, holds
every envelope in one variable at a time, and answers it before it lets go of it.
-/

namespace BaochipXous.Usb

section

/-- A payload with its header. -/
def Chunk.slot (chunk : Chunk) (staging : List UInt8) (i : Nat) : List UInt8 :=
  (staging.drop (i * payloadStride)).take
    (if i = chunk.payloads - 1 then chunk.lastLen else chunk.payloadLen)

/-- The slots of the chunk lie inside the buffer and hold the headers of the frame and the bytes. -/
structure Chunk.Carries (chunk : Chunk) (before after data : List UInt8) (fid : UInt8) (eof : Bool) :
    Prop where
  body : (List.range chunk.payloads).flatMap (fun i => (chunk.slot after i).drop payloadHdr) = data
  header : ∀ i < chunk.payloads, (chunk.slot after i).take payloadHdr = [UInt8.ofNat payloadHdr,
    hdrEoh ||| (fid &&& hdrFid) ||| if i == chunk.payloads - 1 && eof then hdrEof else 0]
  payloads : chunk.payloads ≤ uvcChunkPayloads
  inside : ∀ i < chunk.payloads, i * payloadStride + (chunk.slot after i).length ≤ stagingBytes
  length : after.length = before.length

variable {staging data : List UInt8} {payloadData k : Nat}

theorem stage_loop (slot : Nat → List UInt8) (hslot : ∀ i, (slot i).length ≤ payloadStride)
    (hk : k * payloadStride ≤ staging.length) :
    ∃ after, (List.range k).foldl (fun buffer i => overwrite buffer (i * payloadStride) (slot i)) staging = after ∧
      after.length = staging.length ∧
      ∀ i < k, (after.drop (i * payloadStride)).take (slot i).length = slot i := by
  induction k with
  | zero => exact ⟨staging, rfl, rfl, nofun⟩
  | succ k ih =>
    rw [Nat.succ_mul] at hk
    obtain ⟨after, hloop, hlength, hslots⟩ := ih (by omega)
    have hend := hslot k
    rw [List.range_succ, List.foldl_append, hloop]
    refine ⟨_, rfl, ?_, fun i hi => ?_⟩
    · simp only [List.foldl_cons, List.foldl_nil, overwrite, List.length_append, List.length_take, List.length_drop]
      omega
    · simp only [List.foldl_cons, List.foldl_nil, overwrite, List.append_assoc]
      rcases Nat.lt_succ_iff_lt_or_eq.mp hi with hlt | rfl
      -- the slots before it end where it begins
      · have hbefore := Nat.mul_le_mul_right payloadStride hlt
        have hfits := hslot i
        rw [Nat.succ_mul] at hbefore
        rw [List.take_drop, List.take_append_of_le_length (by simp; omega), List.take_take,
          Nat.min_eq_left (by omega), ← List.take_drop, hslots i hlt]
      · rw [List.drop_left' (by simp; omega), List.take_left]

theorem flatMap_payloads (k : Nat) :
    (List.range k).flatMap (fun i => (data.drop (i * payloadData)).take payloadData) = data.take (k * payloadData) := by
  induction k with
  | zero => simp
  | succ k ih => rw [List.range_succ, List.flatMap_append, ih, Nat.succ_mul, List.take_add, List.flatMap_singleton]

/-- What one turn of the loop puts into its slot. -/
def stagedSlot (data : List UInt8) (payloadData last : Nat) (fid : UInt8) (eof : Bool) (i : Nat) : List UInt8 :=
  UInt8.ofNat payloadHdr :: (hdrEoh ||| (fid &&& hdrFid) ||| if i == last && eof then hdrEof else 0) ::
    (data.drop (i * payloadData)).take payloadData

theorem length_stagedSlot (last : Nat) (fid : UInt8) (eof : Bool) (i : Nat) :
    (stagedSlot data payloadData last fid eof i).length =
      payloadHdr + min payloadData (data.length - i * payloadData) := by
  simp only [stagedSlot, List.length_cons, List.length_take, List.length_drop, payloadHdr]
  omega

theorem length_stagedSlot_le (hdata : payloadData ≤ uvcMaxPayloadData) (last : Nat) (fid : UInt8) (eof : Bool)
    (i : Nat) : (stagedSlot data payloadData last fid eof i).length ≤ payloadStride := by
  rw [length_stagedSlot, payloadStride]
  omega

section

variable (fid : UInt8) (eof : Bool) (hpos : 0 < payloadData) (hdata : payloadData ≤ uvcMaxPayloadData)
  (hlen : 0 < data.length) (hroom : stagingBytes ≤ staging.length)

include hpos hdata hlen hroom

theorem stageChunk_slots : ∃ chunk after, stageChunk staging data payloadData fid eof = (after, chunk) ∧
    after.length = staging.length ∧ chunk.payloads ≤ uvcChunkPayloads ∧
    (data.length ≤ chunk.payloads * payloadData ↔ data.length ≤ uvcChunkPayloads * payloadData) ∧
    ∀ i < chunk.payloads, chunk.slot after i = stagedSlot data payloadData (chunk.payloads - 1) fid eof i := by
  obtain ⟨p, hp⟩ : ∃ p, p = max 1 (min ((data.length + payloadData - 1) / payloadData) uvcChunkPayloads) :=
    ⟨_, rfl⟩
  have hceil : ∀ c, (data.length + payloadData - 1) / payloadData ≤ c ↔ data.length ≤ c * payloadData := by
    intro c
    rw [← Nat.lt_succ_iff, Nat.div_lt_iff_lt_mul hpos, Nat.succ_mul]
    omega
  have hsome := hceil 0
  have hprev := hceil (p - 1)
  have hmany : p ≤ uvcChunkPayloads := by rw [hp, uvcChunkPayloads]; omega
  obtain ⟨after, hloop, hlength, hslots⟩ := stage_loop (stagedSlot data payloadData (p - 1) fid eof)
    (length_stagedSlot_le hdata _ _ _) ((Nat.mul_le_mul_right _ hmany).trans hroom)
  refine ⟨⟨p, payloadHdr + payloadData, payloadHdr + (min ((p - 1) * payloadData + payloadData) data.length -
    (p - 1) * payloadData), eof⟩, after, ?_, hlength, hmany, ?_, fun i hi => ?_⟩
  · have hclamp : max 1 (min payloadData uvcMaxPayloadData) = payloadData := by omega
    have htake : ∀ i, (data.drop (i * payloadData)).take
        (min (i * payloadData + payloadData) data.length - i * payloadData) =
        (data.drop (i * payloadData)).take payloadData := by
      intro i
      rw [List.take_eq_take_iff, List.length_drop]
      omega
    rw [← hloop]
    simp only [stageChunk, hclamp, ← hp, htake]
    obtain ⟨n, rfl⟩ : ∃ n, p = n + 1 := ⟨p - 1, by omega⟩
    refine Prod.ext (List.foldl_hom Prod.fst fun _ _ => rfl).symm ?_
    simp [List.range_succ]
  · dsimp only
    rw [← hceil, ← hceil, hp, uvcChunkPayloads]
    omega
  · rw [← hslots i hi, length_stagedSlot, Chunk.slot]
    congr 1
    dsimp only at hi ⊢
    by_cases heq : i = p - 1
    · rw [if_pos heq, heq]
      omega
    -- the payloads before the last one are full
    · have hnext := Nat.mul_le_mul_right payloadData (show i + 1 ≤ p - 1 by omega)
      rw [Nat.succ_mul] at hnext
      rw [if_neg heq]
      omega

/-- A chunk is staged whole just when its bytes fit into eight payloads. -/
theorem stageChunk_carries_iff : (stageChunk staging data payloadData fid eof).2.Carries staging
      (stageChunk staging data payloadData fid eof).1 data fid eof ↔
    data.length ≤ uvcChunkPayloads * payloadData := by
  obtain ⟨chunk, after, hrun, hlength, hmany, hwhole, hslot⟩ := stageChunk_slots fid eof hpos hdata hlen hroom
  have hbody : (List.range chunk.payloads).flatMap (fun i => (chunk.slot after i).drop payloadHdr) =
      data.take (chunk.payloads * payloadData) := by
    rw [← flatMap_payloads]
    exact List.flatMap_congr fun i hi => by rw [hslot i (List.mem_range.mp hi)]; rfl
  rw [hrun, ← hwhole, ← List.take_eq_self_iff, ← hbody]
  refine ⟨fun h => h.body, fun h => ⟨h, fun i hi => by rw [hslot i hi]; rfl, hmany, fun i hi => ?_, hlength⟩⟩
  have hnext := Nat.mul_le_mul_right payloadStride (Nat.succ_le_of_lt (hi.trans_le hmany))
  rw [Nat.succ_mul] at hnext
  rw [hslot i hi]
  exact (Nat.add_le_add_left (length_stagedSlot_le hdata _ _ _ i) _).trans hnext

end

/-- **Staging.** A lend that is answered with SENT is staged whole just when its bytes fit into eight
payloads of the size that it announces. -/
theorem staged_lend_carries_iff {env : Envelope} {mem : MemoryMessage} {fid : UInt8} {chunk : Chunk}
    (hmem : env.body.memoryMessageMut = some mem) (hroom : stagingBytes ≤ staging.length)
    (hsent : (uvcStageChunk env staging fid).chunk = some chunk) :
    chunk.Carries staging (uvcStageChunk env staging fid).staging (mem.buf.take mem.valid)
      (uvcStageChunk env staging fid).fid mem.last ↔ mem.valid ≤ uvcChunkPayloads * mem.payloadData := by
  by_cases hsize : mem.WellSized
  · simp only [uvcStageChunk, hmem, if_pos hsize, Option.some.injEq] at hsent ⊢
    subst hsent
    simp only [MemoryMessage.WellSized, not_or, not_lt] at hsize
    obtain ⟨hvalid, hbuf, -, hpos, hdata⟩ := hsize
    have hlen : (mem.buf.take mem.valid).length = mem.valid := List.length_take_of_le hbuf
    rw [stageChunk_carries_iff _ _ (Nat.pos_of_ne_zero hpos) hdata (by omega) hroom, hlen]
  · simp [uvcStageChunk, hmem, if_neg hsize] at hsent

def blankStaging : List UInt8 := List.replicate stagingBytes 0

/-- A lend of the bytes in payloads of one. -/
def lendSingles (bytes : List UInt8) : Envelope := ⟨0, .mutableBorrow ⟨bytes, 4, bytes.length⟩⟩

theorem two_payloads_are_staged :
    ∃ chunk staged, uvcStageChunk (lendSingles [1, 2]) blankStaging 0 = staged ∧ staged.chunk = some chunk ∧
      chunk.Carries blankStaging staged.staging [1, 2] staged.fid false := by
  have hmem : (lendSingles [1, 2]).body.memoryMessageMut = some ⟨[1, 2], 4, 2⟩ := rfl
  have hroom : stagingBytes ≤ blankStaging.length := List.length_replicate.ge
  exact ⟨_, _, rfl, rfl, (staged_lend_carries_iff hmem hroom rfl).mpr (by decide)⟩

theorem ninth_payload_is_lost :
    ∃ chunk staged, uvcStageChunk (lendSingles (.replicate 9 7)) blankStaging 0 = staged ∧
      staged.chunk = some chunk ∧ ¬chunk.Carries blankStaging staged.staging (.replicate 9 7) staged.fid false :=
  ⟨_, _, rfl, rfl, fun h => absurd ((stageChunk_carries_iff _ _ (by decide) (by decide) (by decide)
    List.length_replicate.ge).mp h) (by decide)⟩

end

open Interleaved Service

theorem adoptProbeProposal_eq (proposal : Option (UInt8 × UInt8)) (s : UsbState) :
    ∃ probePending selected, adoptProbeProposal proposal s =
        { s with uvc.probePending := probePending, uvc.selected := selected } := by
  rw [adoptProbeProposal]
  split
  · cases proposal with
    | none => exact ⟨false, s.uvc.selected, rfl⟩
    | some proposal =>
      dsimp only
      split
      · exact ⟨false, _, rfl⟩
      · exact ⟨false, s.uvc.selected, rfl⟩
  · exact ⟨s.uvc.probePending, s.uvc.selected, rfl⟩

def UsbEvent.isLoop : UsbEvent → Bool
  | .received _ | .parked _ | .staged .. | .dropped _ => true
  | _ => false

structure Interrupted (s s' : UsbState) : Prop where
  staging : s'.staging = s.staging
  msgOpt : s'.msgOpt = s.msgOpt
  pending : s'.pending = s.pending
  resuming : s'.resuming = s.resuming
  fid : s'.fid = s.fid
  running : s'.running = s.running
  received : s'.received = s.received
  posting : s'.posting = s.posting
  look : s'.look = s.look
  chunk : s'.uvc.chunk = s.uvc.chunk
  stagingPhys : s'.uvc.stagingPhys = s.uvc.stagingPhys
  log : s'.log.filter UsbEvent.isLoop = s.log.filter UsbEvent.isLoop
  inactive : s.uvc.frameActive = false → s'.uvc.frameActive = false
  cursor : s.uvc.frameActive = false → s.uvc.cursor = 0 → s'.uvc.cursor = 0

namespace Interrupted

variable {s s' s'' : UsbState}

theorem refl (s : UsbState) : Interrupted s s :=
  ⟨rfl, rfl, rfl, rfl, rfl, rfl, rfl, rfl, rfl, rfl, rfl, rfl, id, fun _ => id⟩

theorem active (h : Interrupted s s') (ha : s'.uvc.frameActive = true) : s.uvc.frameActive = true := by
  cases hs : s.uvc.frameActive with
  | true => rfl
  | false => exact absurd ha (by simp [h.inactive hs])

theorem trans (h : Interrupted s s') (h' : Interrupted s' s'') : Interrupted s s'' where
  staging := h'.staging.trans h.staging
  msgOpt := h'.msgOpt.trans h.msgOpt
  pending := h'.pending.trans h.pending
  resuming := h'.resuming.trans h.resuming
  fid := h'.fid.trans h.fid
  running := h'.running.trans h.running
  received := h'.received.trans h.received
  posting := h'.posting.trans h.posting
  look := h'.look.trans h.look
  chunk := h'.chunk.trans h.chunk
  stagingPhys := h'.stagingPhys.trans h.stagingPhys
  log := h'.log.trans h.log
  inactive hs := h'.inactive (h.inactive hs)
  cursor hs hc := h'.cursor (h.inactive hs) (h.cursor hs hc)

theorem withUvc {uvc : UvcClass} (hchunk : uvc.chunk = s.uvc.chunk) (hphys : uvc.stagingPhys = s.uvc.stagingPhys)
    (hinactive : s.uvc.frameActive = false → uvc.frameActive = false)
    (hcursor : s.uvc.frameActive = false → s.uvc.cursor = 0 → uvc.cursor = 0) :
    Interrupted s { s with uvc } :=
  { refl s with chunk := hchunk, stagingPhys := hphys, inactive := hinactive, cursor := hcursor }

variable (s)

theorem note {e : UsbEvent} (he : e.isLoop = false) : Interrupted s (s.note e) :=
  { refl s with log := by simp [UsbState.note, he] }

theorem withRing (ring : List Td) : Interrupted s { s with ring } := { refl s with }

theorem withIrqReq (irqReq : Option UsbIrqReq) : Interrupted s { s with irqReq } := { refl s with }

theorem clearActive : Interrupted s (clearActive (clearCursor s)) :=
  withUvc rfl rfl (fun _ => rfl) (fun _ _ => rfl)

theorem swapStreaming : Interrupted s (swapStreaming s) := by
  rw [Usb.swapStreaming]
  split
  · have hoff : Interrupted s { s with uvc.streaming := false } := withUvc rfl rfl id (fun _ => id)
    exact hoff.trans (note _ rfl)
  · exact refl s

theorem resetState : Interrupted s (resetState s) :=
  have hflags : Interrupted s (clearDiscard (clearInFlight s)) := withUvc rfl rfl id (fun _ => id)
  hflags.trans ((clearActive _).trans (swapStreaming _))

theorem bulkXfer (addr len : Nat) (zlp : Bool) : Interrupted s (bulkXfer addr len zlp s) :=
  { refl s with log := by simp [Usb.bulkXfer, UsbEvent.isLoop] }

theorem enqueuePayload (hwBusy : Bool) : Interrupted s (enqueuePayload hwBusy s) := by
  cases hwBusy with
  | true => exact (clearActive s).trans (note _ rfl)
  | false => exact (bulkXfer s _ _ _).trans (withUvc rfl rfl id (fun _ => id))

theorem kick (hwBusy : Bool) : Interrupted s (kick hwBusy s) := by
  rw [Usb.kick]
  split
  · exact enqueuePayload s hwBusy
  · exact refl s

theorem finishChunk : Interrupted s (finishChunk s) := by
  rw [Usb.finishChunk]
  refine trans ?_ (note _ rfl)
  dsimp only
  split <;> exact withUvc rfl rfl (fun _ => rfl) (fun _ _ => rfl)

theorem endpointInComplete : Interrupted s (endpointInComplete s) := by
  have hlanded : Interrupted s (clearInFlight s) := withUvc rfl rfl id (fun _ => id)
  refine hlanded.trans ?_
  rw [Usb.endpointInComplete]
  dsimp only
  split
  · have hkept : Interrupted (Usb.clearInFlight s) (clearDiscard (Usb.clearInFlight s)) :=
      withUvc rfl rfl id (fun _ => id)
    exact hkept.trans (kick _ false)
  · split
    · exact refl _
    · rename_i hactive
      have hmoved : Interrupted (Usb.clearInFlight s)
          { Usb.clearInFlight s with uvc.cursor := (Usb.clearInFlight s).uvc.cursor + 1 } :=
        withUvc rfl rfl id (fun h => absurd h hactive)
      split
      · exact hmoved.trans (enqueuePayload _ false)
      · exact hmoved.trans (finishChunk _)

theorem adoptProbeProposal (proposal : Option (UInt8 × UInt8)) : Interrupted s (adoptProbeProposal proposal s) := by
  obtain ⟨probePending, selected, heq⟩ := adoptProbeProposal_eq proposal s
  rw [heq]
  exact withUvc rfl rfl id (fun _ => id)

theorem startStream : Interrupted s (startStream s) := by
  rw [Usb.startStream]
  refine trans ?_ (note _ rfl)
  dsimp only
  split <;> exact (clearActive s).trans (withUvc rfl rfl id (fun _ => id))

theorem stopStream : Interrupted s (stopStream s) := by
  rw [Usb.stopStream]
  split
  · refine trans ?_ (note _ rfl)
    dsimp only
    split <;> exact withUvc rfl rfl (fun _ => rfl) (fun _ _ => rfl)
  · exact refl s

theorem handleEvent (e : ControllerEvent) : Interrupted s (handleEvent e s) := by
  cases e with
  | transferDone =>
    rw [Usb.handleEvent]
    split
    · exact refl s
    · exact (withRing s _).trans ((note _ rfl).trans (endpointInComplete _))
  | probe => exact withUvc rfl rfl id (fun _ => id)
  | commit proposal => exact (adoptProbeProposal s proposal).trans (startStream _)
  | getCur proposal => exact adoptProbeProposal s proposal
  | clearFeature => exact stopStream s
  | reset => exact (withRing s []).trans (resetState _)
  | other => exact refl s

theorem serviceSwRequest (hwBusy : Bool) : Interrupted s (serviceSwRequest hwBusy s) := by
  rw [Usb.serviceSwRequest]
  split
  · exact withIrqReq s none
  · exact (withIrqReq s none).trans (kick _ hwBusy)
  · exact refl s

theorem interrupt (i : UsbIrq) : Interrupted s (interrupt i s) := by
  cases i with
  | event e => exact handleEvent s e
  | service hwBusy => exact serviceSwRequest s hwBusy

end Interrupted

section Kept

variable (i : UsbIrq) (s : UsbState)

@[simp]
theorem interrupt_staging : (interrupt i s).staging = s.staging := (Interrupted.interrupt s i).staging

@[simp]
theorem interrupt_look : (interrupt i s).look = s.look := (Interrupted.interrupt s i).look

@[simp]
theorem interrupt_chunk : (interrupt i s).uvc.chunk = s.uvc.chunk := (Interrupted.interrupt s i).chunk

end Kept

/-- A call of the interrupt handler is a sequence of the pieces that interrupt the main loop. -/
theorem compositeHandler_pieces (corigine : Option (List ControllerEvent)) (sw hwBusy : Bool) (s : UsbState) :
    ∃ pieces : List UsbIrq, compositeHandler corigine sw hwBusy s = pieces.foldl (fun s i => interrupt i s) s := by
  have hservice : ∀ before : UsbState, ∃ pieces : List UsbIrq,
      (if sw || before.irqReq.isSome then serviceSwRequest hwBusy before else before) =
        pieces.foldl (fun s i => interrupt i s) before := by
    intro before
    split
    · exact ⟨[.service hwBusy], rfl⟩
    · exact ⟨[], rfl⟩
  cases corigine with
  | none => exact hservice s
  | some events =>
    rw [compositeHandler]
    dsimp only
    split
    · exact ⟨[], rfl⟩
    · obtain ⟨pieces, hpieces⟩ := hservice (events.foldl (fun s e => handleEvent e s) s)
      refine ⟨events.map .event ++ pieces, ?_⟩
      rw [hpieces, List.foldl_append, List.foldl_map]
      rfl

def UsbIrq.ClearsActive : UsbIrq → UsbState → Prop
  | .event .transferDone, s =>
    s.ring ≠ [] ∧ s.uvc.discardCompletion = false ∧ s.uvc.chunk.payloads ≤ s.uvc.cursor + 1
  | .event (.commit _), _ => True
  | .event .clearFeature, s => s.uvc.streaming = true
  | .event .reset, _ => True
  | .service hwBusy, s => hwBusy = true ∧ s.irqReq = some .uvcKick ∧ s.uvc.Startable
  | _, _ => False

def UsbIrq.StopsStream : UsbIrq → Prop
  | .event .clearFeature | .event .reset => True
  | _ => False

@[simp]
theorem enqueuePayload_false_frameActive (s : UsbState) : (enqueuePayload false s).uvc.frameActive = s.uvc.frameActive :=
  rfl

@[simp]
theorem kick_false_frameActive (s : UsbState) : (kick false s).uvc.frameActive = s.uvc.frameActive := by
  rw [kick]
  split
  · rfl
  · rfl

variable {s : UsbState}

theorem endpointInComplete_frameActive (hactive : s.uvc.frameActive = true)
    (hmore : s.uvc.discardCompletion = false → s.uvc.cursor + 1 < s.uvc.chunk.payloads) :
    (endpointInComplete s).uvc.frameActive = true := by
  rw [endpointInComplete]
  simp only [clearInFlight, clearDiscard, hactive]
  split
  · simp
  · rename_i hdiscard
    have hlt := hmore (by simpa using hdiscard)
    simp [hlt]

variable {i : UsbIrq}

theorem interrupt_frameActive (hclears : ¬i.ClearsActive s)
    (hactive : s.uvc.frameActive = true) : (interrupt i s).uvc.frameActive = true := by
  cases i with
  | event e =>
    cases e with
    | transferDone =>
      rw [interrupt, handleEvent]
      cases hring : s.ring with
      | nil => exact hactive
      | cons td rest =>
        refine endpointInComplete_frameActive hactive fun hdiscard => ?_
        have hnot : ¬s.uvc.chunk.payloads ≤ s.uvc.cursor + 1 := fun hend =>
          hclears ⟨by simp [hring], hdiscard, hend⟩
        exact Nat.lt_of_not_le hnot
    | probe => exact hactive
    | commit proposal => exact absurd trivial hclears
    | getCur proposal =>
      obtain ⟨_, _, heq⟩ := adoptProbeProposal_eq proposal s
      rwa [interrupt, handleEvent, heq]
    | clearFeature =>
      have hoff : ¬s.uvc.streaming = true := hclears
      simpa [interrupt, handleEvent, stopStream, hoff] using hactive
    | reset => exact absurd trivial hclears
    | other => exact hactive
  | service hwBusy =>
    rw [interrupt, serviceSwRequest]
    split
    · exact hactive
    · rename_i hreq
      rw [kick]
      split
      · rename_i hstart
        cases hwBusy with
        | false => exact hactive
        | true => exact absurd ⟨rfl, hreq, hstart⟩ hclears
      · exact hactive
    · exact hactive

@[simp]
theorem enqueuePayload_streaming (hwBusy : Bool) (s : UsbState) :
    (enqueuePayload hwBusy s).uvc.streaming = s.uvc.streaming := by
  cases hwBusy with
  | true => rfl
  | false => rfl

@[simp]
theorem kick_streaming (hwBusy : Bool) (s : UsbState) : (kick hwBusy s).uvc.streaming = s.uvc.streaming := by
  rw [kick]
  split
  · exact enqueuePayload_streaming hwBusy s
  · rfl

@[simp]
theorem finishChunk_streaming (s : UsbState) : (finishChunk s).uvc.streaming = s.uvc.streaming := by
  rw [finishChunk]
  dsimp only
  split
  · rfl
  · rfl

@[simp]
theorem endpointInComplete_streaming (s : UsbState) : (endpointInComplete s).uvc.streaming = s.uvc.streaming := by
  rw [endpointInComplete]
  dsimp only
  split
  · simp [clearDiscard, clearInFlight]
  · split
    · rfl
    · split
      · simp [clearInFlight]
      · simp [clearInFlight]

@[simp]
theorem swapStreaming_streaming (s : UsbState) : (swapStreaming s).uvc.streaming = false := by
  rw [swapStreaming]
  split
  · rfl
  · rename_i hoff
    simpa using hoff

@[simp]
theorem stopStream_streaming (s : UsbState) : (stopStream s).uvc.streaming = false := by
  rw [stopStream]
  split
  · dsimp only
    split
    · rfl
    · rfl
  · rename_i hoff
    simpa using hoff

theorem interrupt_streaming (hcommit : ∀ proposal, i ≠ .event (.commit proposal)) (hoff : s.uvc.streaming = false) :
    (interrupt i s).uvc.streaming = false := by
  cases i with
  | event e =>
    cases e with
    | transferDone =>
      rw [interrupt, handleEvent]
      split
      · exact hoff
      · rwa [endpointInComplete_streaming]
    | probe => exact hoff
    | commit proposal => exact absurd rfl (hcommit proposal)
    | getCur proposal =>
      obtain ⟨_, _, heq⟩ := adoptProbeProposal_eq proposal s
      rwa [interrupt, handleEvent, heq]
    | clearFeature => exact stopStream_streaming s
    | reset => exact swapStreaming_streaming _
    | other => exact hoff
  | service hwBusy =>
    rw [interrupt, serviceSwRequest]
    split
    · exact hoff
    · simpa using hoff
    · exact hoff

@[simp]
theorem startStream_frameActive (s : UsbState) : (startStream s).uvc.frameActive = false := by
  rw [startStream]
  dsimp only
  split
  · rfl
  · rfl

/-- The staging buffer is free, or will be when the stream starts: every interrupt keeps this. -/
theorem interrupt_free (hfree : s.uvc.streaming = false ∨ s.uvc.frameActive = false) :
    (interrupt i s).uvc.streaming = false ∨ (interrupt i s).uvc.frameActive = false := by
  by_cases hcommit : ∃ proposal, i = .event (.commit proposal)
  · obtain ⟨proposal, rfl⟩ := hcommit
    exact .inr (startStream_frameActive _)
  · rcases hfree with hoff | hidle
    · exact .inl (interrupt_streaming (fun proposal h => hcommit ⟨proposal, h⟩) hoff)
    · exact .inr ((Interrupted.interrupt s i).inactive hidle)

/-- A lend that takes a result is answered. -/
def Envelope.Answered (env : Envelope) : Prop :=
  ∀ mem, env.body = .mutableBorrow mem →
    mem.valid = uvcResultSent ∨ mem.valid = uvcResultNotStreaming ∨ mem.valid = uvcResultBadFrame

theorem Envelope.answered_setValid {code : Nat} (env : Envelope)
    (hcode : code = uvcResultSent ∨ code = uvcResultNotStreaming ∨ code = uvcResultBadFrame) :
    (env.setValid code).Answered := by
  intro mem hmem
  cases hbody : env.body with
  | mutableBorrow mem' =>
    simp only [setValid, hbody, Message.setValid, Message.mutableBorrow.injEq] at hmem
    subst hmem
    exact hcode
  | _ => simp [setValid, hbody, Message.setValid] at hmem

theorem answered_uvcStageChunk (env : Envelope) (staging : List UInt8) (fid : UInt8) :
    (uvcStageChunk env staging fid).env.Answered := by
  rw [uvcStageChunk]
  cases hmem : env.body.memoryMessageMut with
  | none =>
    intro mem hbody
    rw [hbody] at hmem
    cases hmem
  | some mem =>
    dsimp only
    split
    · exact env.answered_setValid (.inl rfl)
    · exact env.answered_setValid (.inr (.inr rfl))

/-- No interrupt frees the staging buffer between the look at the parked lend and the look of the
handler. -/
def UsbState.OrderKept (s : UsbState) (i : UsbIrq) : Prop :=
  s.pending.isSome → s.msgOpt.isSome →
    match s.look with
    | .elsewhere => True
    | .resumed => i.ClearsActive s → i.StopsStream
    | .entered => ¬i.ClearsActive s

/-- The states in which the main loop takes its actions. `ordered`: all interrupts are `OrderKept`;
`resets`: it handles `UsbBusReset`. -/
def Taken (ordered resets : Prop) : LoopAction → UsbState → Prop
  | .receive _, s => s.msgOpt = none ∧ s.resuming = none
  | .takePending, s => s.resuming = none ∧ s.pending.isSome
  | .stage h, s =>
    s.staging.isSome ∧ (s.holder h).isSome ∧ s.uvc.frameActive = false ∧
      (h = .resumed ∨ ordered → s.pending = none) ∧ (h = .current → s.resuming = none)
  | .answer h code, s => (s.holder h).isSome ∧ code = uvcResultNotStreaming
  | .storeChunk chunk, s => s.uvc.frameActive = false ∧ 1 ≤ chunk.payloads
  | .storeCursor, s => s.uvc.frameActive = false ∧ 1 ≤ s.uvc.chunk.payloads
  | .storeActive, s =>
    s.uvc.frameActive = false ∧ s.staging.isSome ∧ 1 ≤ s.uvc.chunk.payloads ∧ s.uvc.cursor = 0
  | .post .kbdTx, s => s.posting = false
  | .park, s => s.msgOpt.isSome ∧ s.pending = none ∧ s.resuming = none
  | .reply h, s => ∀ env, s.holder h = some env → env.Answered
  | .clearInFlight, _ | .clearDiscard, _ | .clearCursor, _ | .clearActive, _ => resets
  | .swapStreaming, _ | .forceReset, _ => resets
  | _, _ => True

/-- Where the envelopes are, and whether a kick is due. -/
structure Hands (msgOpt pending resuming : Option Envelope) (posting : Bool) (s : UsbState) :
    Prop where
  msgOpt : s.msgOpt = msgOpt
  pending : s.pending = pending
  resuming : s.resuming = resuming
  posting : s.posting = posting

/-- The same, with a staging buffer and no chunk active. -/
structure Free (msgOpt pending resuming : Option Envelope) (s : UsbState) : Prop
    extends Hands msgOpt pending resuming false s where
  inactive : s.uvc.frameActive = false
  staging : s.staging.isSome

variable {mo pe re : Option Envelope} {po : Bool} {s : UsbState}

variable {s' : UsbState}

theorem Hands.kept (h : Hands mo pe re po s) (hkept : Interrupted s s') : Hands mo pe re po s' :=
  ⟨hkept.msgOpt.trans h.msgOpt, hkept.pending.trans h.pending, hkept.resuming.trans h.resuming,
    hkept.posting.trans h.posting⟩

theorem Hands.interrupt (h : Hands mo pe re po s) (i : UsbIrq) : Hands mo pe re po (usbService.interrupt i s) :=
  h.kept (.interrupt s i)

theorem Free.interrupt (h : Free mo pe re s) (i : UsbIrq) : Free mo pe re (usbService.interrupt i s) :=
  ⟨h.toHands.interrupt i, (Interrupted.interrupt s i).inactive h.inactive,
    (congrArg Option.isSome (interrupt_staging i s)).trans h.staging⟩

section Threads

variable {ok : UsbState → UsbIrq → Prop} {ordered resets : Prop}

section

variable {a : LoopAction} (hands : Hands mo pe re po s)

include hands

/-- Interrupts leave the envelopes where they are. -/
theorem Hands.take {Q : Unit → UsbState → Prop}
    (hnext : ∀ s, Hands mo pe re po s → Taken ordered resets a s ∧ Q () (usbService.perform a s)) :
    usbService.Guarantees ok (Taken ordered resets) (.take a) Q s :=
  Service.Guarantees.take (fun _ i hs _ => hs.interrupt i) hands hnext

theorem Hands.observe {α : Type} {Q : α → UsbState → Prop} {f : UsbState → α}
    (hnext : ∀ s, Hands mo pe re po s → Taken ordered resets a s ∧ Q (f s) (usbService.perform a s)) :
    usbService.Guarantees ok (Taken ordered resets) (.observe a f) Q s :=
  Service.Guarantees.observe (fun _ i hs _ => hs.interrupt i) hands hnext

end

theorem setChunk_guarantees {c : Chunk} (hpos : 1 ≤ c.payloads) (hfree : Free mo pe re s) :
    usbService.Guarantees ok (Taken ordered resets) (setChunk c) (fun _ s => Hands mo pe re true s) s := by
  rw [setChunk, guarantees_bind]
  refine .take (P := Free mo pe re) (fun s i hs _ => hs.interrupt i) hfree fun s1 h1 => ⟨⟨h1.inactive, hpos⟩, ?_⟩
  rw [guarantees_bind]
  refine .take (P := fun s => Free mo pe re s ∧ s.uvc.chunk = c) (fun s i hs _ => ?_)
    ⟨⟨⟨h1.1.1, h1.1.2, h1.1.3, h1.1.4⟩, h1.2, h1.3⟩, rfl⟩
    fun s2 h2 => ⟨⟨h2.1.inactive, h2.2 ▸ hpos⟩, ?_⟩
  · exact ⟨hs.1.interrupt i, (interrupt_chunk i s).trans hs.2⟩
  refine .take (P := fun s => Free mo pe re s ∧ s.uvc.chunk = c ∧ s.uvc.cursor = 0)
    (fun s i hs _ => ?_) ⟨⟨⟨h2.1.1.1, h2.1.1.2, h2.1.1.3, h2.1.1.4⟩, h2.1.2, h2.1.3⟩, h2.2, rfl⟩
    fun s3 h3 => ⟨⟨h3.1.inactive, h3.1.staging, h3.2.1 ▸ hpos, h3.2.2⟩, ?_⟩
  · exact ⟨hs.1.interrupt i, (interrupt_chunk i s).trans hs.2.1, (Interrupted.interrupt s i).cursor hs.1.inactive hs.2.2⟩
  exact ⟨h3.1.msgOpt, h3.1.pending, h3.1.resuming, rfl⟩

theorem submitChunk_guarantees {chunk : Option Chunk}
    (hchunk : ∀ c, chunk = some c → 1 ≤ c.payloads) (hfree : Free mo pe re s) :
    usbService.Guarantees ok (Taken ordered resets) (submitChunk chunk) (fun _ s => Hands mo pe re false s) s := by
  cases chunk with
  | none => exact .pure hfree.toHands
  | some c =>
    rw [submitChunk, swIrq]
    refine (setChunk_guarantees (hchunk c rfl) hfree).bind fun _ s1 h1 => ?_
    exact h1.take fun s2 h2 => ⟨trivial, ⟨h2.msgOpt, h2.pending, h2.resuming, rfl⟩⟩

theorem noteStaged_eq (s : UsbState) (env : Envelope) (chunk : Option Chunk) :
    ∃ log, s.noteStaged env chunk = { s with log } := by
  unfold UsbState.noteStaged
  split
  · exact ⟨_, rfl⟩
  · exact ⟨s.log, rfl⟩

variable {h : Holder} {env : Envelope}

theorem stagedBy_eq {staging : List UInt8} (henv : s.holder h = some env)
    (hstaging : s.staging = some staging) : s.stagedBy h = some (uvcStageChunk env staging s.fid) := by
  simp [UsbState.stagedBy, henv, hstaging]

theorem perform_stage {staging : List UInt8} (henv : s.holder h = some env) (hstaging : s.staging = some staging) :
    ∃ staging' fid log, perform (.stage h) s = UsbState.setHolder { s with staging := some staging', fid, log }
          (some (uvcStageChunk env staging s.fid).env) h := by
  rw [perform, stagedBy_eq henv hstaging]
  dsimp only
  obtain ⟨log, hlog⟩ := noteStaged_eq
    (UsbState.setHolder { s with staging := some (uvcStageChunk env staging s.fid).staging,
                                 fid := (uvcStageChunk env staging s.fid).fid }
      (some (uvcStageChunk env staging s.fid).env) h)
    (uvcStageChunk env staging s.fid).env (uvcStageChunk env staging s.fid).chunk
  rw [hlog]
  cases h with
  | current | resumed => exact ⟨_, _, log, rfl⟩

/-- Staging from either variable: the envelope there is answered and the others stay. -/
theorem stageAndSubmit_guarantees (hs : Free mo pe re s) (henv : ∀ s, Free mo pe re s → s.holder h = some env)
    (hpending : h = .resumed ∨ ordered → pe = none) (hresuming : h = .current → re = none)
    {f g : Option Envelope → Option Envelope}
    (hset : ∀ s e, Free mo pe re s → Free (f e) pe (g e) (s.setHolder e h)) :
    usbService.Guarantees ok (Taken ordered resets) (stageAndSubmit h)
      (fun _ s => ∃ env, Hands (f (some env)) pe (g (some env)) false s ∧ env.Answered) s := by
  rw [stageAndSubmit, guarantees_bind]
  refine .observe (P := Free mo pe re) (fun s i hs _ => hs.interrupt i) hs
    fun s1 h1 => ⟨⟨h1.staging, by simp [henv s1 h1], h1.inactive, ?_, ?_⟩, ?_⟩
  · rwa [h1.pending]
  · rwa [h1.resuming]
  obtain ⟨staging, hsome⟩ := Option.isSome_iff_exists.mp h1.staging
  rw [stagedBy_eq (henv s1 h1) hsome]
  obtain ⟨staging', fid, log, hstate⟩ := perform_stage (henv s1 h1) hsome
  have hleft : Free mo pe re { s1 with staging := some staging', fid, log } :=
    ⟨{ h1 with }, h1.inactive, rfl⟩
  have hnext := hset _ (some (uvcStageChunk env staging s1.fid).env) hleft
  rw [← hstate] at hnext
  have hpayloads : ∀ c, (uvcStageChunk env staging s1.fid).chunk = some c → 1 ≤ c.payloads := by
    intro c hc
    rw [uvcStageChunk] at hc
    split at hc
    · cases hc
    · split at hc <;> cases hc
      exact Nat.le_max_left 1 _
  exact (submitChunk_guarantees hpayloads hnext).mono
    fun _ _ hands => ⟨_, hands, answered_uvcStageChunk env staging s1.fid⟩

theorem stageAndSubmit_current (hfree : Free (some env) pe none s) (hordered : ordered → pe = none) :
    usbService.Guarantees ok (Taken ordered resets) (stageAndSubmit .current)
      (fun _ s => ∃ env, Hands (some env) pe none false s ∧ env.Answered) s :=
  stageAndSubmit_guarantees (h := .current) (f := id) (g := fun _ => none) hfree
    (fun _ hs => hs.msgOpt) (fun h => h.elim nofun hordered) (fun _ => rfl)
    (fun _ _ hs => ⟨⟨rfl, hs.pending, hs.resuming, hs.posting⟩, hs.inactive, hs.staging⟩)

/-- The parked envelope is taken, answered and let go, with the buffer free or the stream down. -/
theorem resumeParked_guarantees (hands : Hands mo (some env) none false s)
    (hfree : s.uvc.streaming = false ∨ s.uvc.frameActive = false) :
    usbService.Guarantees ok (Taken ordered resets) resumeParked (fun _ s => Hands mo none none false s) s := by
  rw [resumeParked, guarantees_bind]
  refine .take (P := fun s => Hands mo (some env) none false s ∧ (s.uvc.streaming = false ∨ s.uvc.frameActive = false))
    (fun s i hs _ => ⟨hs.1.interrupt i, interrupt_free hs.2⟩) ⟨hands, hfree⟩
    fun s1 h1 => ⟨⟨h1.1.resuming, by simp [h1.1.pending]⟩, ?_⟩
  rw [guarantees_bind]
  refine .observe (P := fun s => Hands mo none (some env) false s ∧
      (s.uvc.streaming = false ∨ s.uvc.frameActive = false))
    (fun s i hs _ => ⟨hs.1.interrupt i, interrupt_free hs.2⟩)
    ⟨⟨h1.1.msgOpt, rfl, h1.1.pending, h1.1.posting⟩, h1.2⟩ fun s2 h2 => ⟨trivial, ?_⟩
  rw [guarantees_bind]
  have hanswered : usbService.Guarantees ok (Taken ordered resets) (resumeTaken (s2.staging.isSome && s2.uvc.streaming))
      (fun _ s => ∃ env, Hands mo none (some env) false s ∧ env.Answered) s2 := by
    rw [resumeTaken]
    split
    · rename_i hstage
      obtain ⟨hsome, hon⟩ := Bool.and_eq_true_iff.mp hstage
      have hinactive : s2.uvc.frameActive = false := h2.2.resolve_left (by simp [hon])
      exact stageAndSubmit_guarantees (h := .resumed) (f := fun _ => mo) (g := id) ⟨h2.1, hinactive, hsome⟩
        (fun _ hs => hs.resuming) (fun _ => rfl) (fun h => by cases h)
        (fun _ _ hs => ⟨⟨hs.msgOpt, hs.pending, rfl, hs.posting⟩, hs.inactive, hs.staging⟩)
    · refine h2.1.take fun s3 h3 => ⟨⟨by simp [UsbState.holder, h3.resuming], rfl⟩,
          env.setValid uvcResultNotStreaming, ?_, env.answered_setValid (.inr (.inl rfl))⟩
      refine ⟨h3.msgOpt, h3.pending, ?_, h3.posting⟩
      change Option.map _ s3.resuming = _
      rw [h3.resuming]
      rfl
  refine hanswered.mono fun _ s3 h3 => ?_
  obtain ⟨env', hands', hdone⟩ := h3
  refine hands'.take fun s4 h4 => ⟨fun e he => ?_, ?_⟩
  · have : some env' = some e := h4.resuming.symm.trans he
    cases this
    exact hdone
  · change Hands mo none none false (perform (.reply .resumed) s4)
    have hholder : s4.holder .resumed = some env' := h4.resuming
    rw [perform, hholder]
    exact ⟨h4.msgOpt, h4.pending, rfl, h4.posting⟩

/-- After the look at the parked lend: if it stays parked the buffer was busy, and interrupts keep
it from being found free. -/
def Looked (ordered : Prop) (mo : Option Envelope) (s : UsbState) : Prop :=
  ∃ pe, Hands mo pe none false s ∧
    (ordered → pe.isSome → mo.isSome →
      s.look = .resumed ∧ (s.uvc.frameActive = true ∨ s.uvc.streaming = false))

theorem StopsStream.streaming {i : UsbIrq} (hstops : i.StopsStream) (s : UsbState) :
    (interrupt i s).uvc.streaming = false := by
  cases i with
  | event e =>
    cases e with
    | clearFeature => exact stopStream_streaming s
    | reset => exact swapStreaming_streaming _
    | _ => exact absurd hstops id
  | service hwBusy => exact absurd hstops id

theorem Looked.interrupt {i : UsbIrq} (horder : ordered → s.OrderKept i) (h : Looked ordered mo s) :
    Looked ordered mo (usbService.interrupt i s) := by
  obtain ⟨pe, hands, hbusy⟩ := h
  refine ⟨pe, hands.interrupt i, fun hord hpe hmo => ?_⟩
  obtain ⟨hlook, hstate⟩ := hbusy hord hpe hmo
  have hkept := horder hord (hands.pending ▸ hpe) (hands.msgOpt ▸ hmo)
  simp only [hlook] at hkept
  refine ⟨(interrupt_look i s).trans hlook, ?_⟩
  by_cases hclears : i.ClearsActive s
  · exact .inr (StopsStream.streaming (hkept hclears) s)
  · rcases hstate with hactive | hoff
    · exact .inl (interrupt_frameActive hclears hactive)
    · refine .inr (interrupt_streaming (fun proposal hi => ?_) hoff)
      subst hi
      exact hclears trivial

/-- With the buffer free or the stream down, the look at the parked lend ends its wait. -/
theorem uvcResumePending_guarantees {F : Prop} (hands : Hands mo pe none false s)
    (hfree : F → s.uvc.streaming = false ∨ s.uvc.frameActive = false) :
    usbService.Guarantees ok (Taken ordered resets) uvcResumePending
      (fun _ s => Looked ordered mo s ∧ (F → Hands mo none none false s)) s := by
  have hresumed : ∀ s, Hands mo none none false s → Looked ordered mo s ∧ (F → Hands mo none none false s) :=
    fun s hs => ⟨⟨none, hs, fun _ hpe => absurd hpe (by simp)⟩, fun _ => hs⟩
  have stable : ∀ (s : UsbState) (i : UsbIrq),
      Hands mo pe none false s ∧ (F → s.uvc.streaming = false ∨ s.uvc.frameActive = false) →
      ok s i → Hands mo pe none false (usbService.interrupt i s) ∧
        (F → (usbService.interrupt i s).uvc.streaming = false ∨ (usbService.interrupt i s).uvc.frameActive = false) :=
    fun s i hs _ => ⟨hs.1.interrupt i, fun hF => interrupt_free (hs.2 hF)⟩
  rw [uvcResumePending, guarantees_bind]
  refine .observe stable ⟨hands, hfree⟩ fun s1 h1 => ⟨trivial, ?_⟩
  rw [h1.1.pending]
  cases pe with
  | none => exact .pure (hresumed s1 h1.1)
  | some env =>
    simp only [Option.isSome_some, if_true, guarantees_bind]
    refine .observe stable h1 fun s2 h2 => ⟨trivial, ?_⟩
    rw [resumeUnlessBusy]
    split
    · rename_i hon
      rw [guarantees_bind]
      -- the stream may have been restarted since, but a restart frees the buffer too
      refine .observe (P := fun s => Hands mo (some env) none false s ∧ (F → s.uvc.frameActive = false))
        (fun s i hs _ => ⟨hs.1.interrupt i, (Interrupted.interrupt s i).inactive ∘ hs.2⟩)
        ⟨h2.1, fun hF => (h2.2 hF).resolve_left (by simp [hon])⟩ fun s3 h3 => ⟨trivial, ?_⟩
      have hleft : Hands mo (some env) none false (usbService.perform (.look .resumed) s3) :=
        { h3.1 with }
      split
      · rename_i hbusy
        exact .pure ⟨⟨some env, hleft, fun _ _ _ => ⟨rfl, .inl hbusy⟩⟩, fun hF => absurd hbusy (by simp [h3.2 hF])⟩
      · rename_i hidle
        have hinactive : s3.uvc.frameActive = false := by simpa using hidle
        exact (resumeParked_guarantees hleft (.inr hinactive)).mono fun _ s hs => hresumed s hs
    · rename_i hoff
      exact (resumeParked_guarantees h2.1 (.inl (by simpa using hoff))).mono
        fun _ s hs => hresumed s hs

/-- An envelope in hand is answered when its handler ends. -/
def Handled (s : UsbState) : Prop :=
  ∃ mo pe, Hands mo pe none false s ∧ ∀ env, mo = some env → env.Answered

theorem answer_current_guarantees (hands : Hands (some env) pe none false s) :
    usbService.Guarantees ok (Taken ordered resets)
      (Thread.take (.answer .current uvcResultNotStreaming)) (fun _ s => Handled s) s := by
  refine hands.take fun s1 h1 => ⟨⟨by simp [UsbState.holder, h1.msgOpt], rfl⟩, ?_⟩
  refine ⟨some (env.setValid uvcResultNotStreaming), pe, ⟨?_, h1.pending, h1.resuming, h1.posting⟩, fun e he => ?_⟩
  · change Option.map _ s1.msgOpt = _
    rw [h1.msgOpt]
    rfl
  · cases he
    exact env.answered_setValid (.inr (.inl rfl))

theorem park_guarantees (hands : Hands (some env) none none false s) :
    usbService.Guarantees ok (Taken ordered resets) (Thread.take .park) (fun _ s => Handled s) s := by
  refine hands.take fun s1 h1 => ⟨⟨by simp [h1.msgOpt], h1.pending, h1.resuming⟩, none, some env, ?_, nofun⟩
  change Hands none (some env) none false (perform .park s1)
  rw [perform, h1.msgOpt]
  exact ⟨rfl, rfl, h1.resuming, h1.posting⟩

theorem sendFrameStreaming_guarantees {busy : Bool} (hands : Hands (some env) pe none false s)
    (hstaging : s.staging.isSome)
    (hfree : busy = false → s.uvc.frameActive = false ∧ (ordered → pe = none)) :
    usbService.Guarantees ok (Taken ordered resets) (sendFrameStreaming busy) (fun _ s => Handled s) s := by
  cases busy with
  | true =>
    rw [sendFrameStreaming]
    simp only [if_true, guarantees_bind]
    refine hands.observe fun s1 h1 => ⟨trivial, ?_⟩
    rw [h1.pending, parkOrRefuse]
    cases pe with
    | none => exact park_guarantees h1
    | some other => exact answer_current_guarantees h1
  | false =>
    obtain ⟨hinactive, hordered⟩ := hfree rfl
    refine (stageAndSubmit_current ⟨hands, hinactive, hstaging⟩ hordered).mono fun _ s1 h1 => ?_
    obtain ⟨env', hands', hanswered⟩ := h1
    refine ⟨some env', pe, hands', fun e he => ?_⟩
    cases he
    exact hanswered

theorem uvcSendFrame_guarantees (horder : ordered → ∀ s i, ok s i → s.OrderKept i)
    (hlooked : Looked ordered (some env) s) :
    usbService.Guarantees ok (Taken ordered resets) uvcSendFrame (fun _ s => Handled s) s := by
  rw [uvcSendFrame, guarantees_bind]
  refine .observe (P := Looked ordered (some env))
    (fun s i hs hok => hs.interrupt fun hord => horder hord s i hok) hlooked
    fun s1 h1 => ⟨trivial, ?_⟩
  obtain ⟨pe, hands, hbusy⟩ := h1
  have hentered : Hands (some env) pe none false (usbService.perform (.look .entered) s1) :=
    { hands with }
  split
  · exact answer_current_guarantees hentered
  rename_i hopen
  simp only [Bool.or_eq_true, Bool.not_eq_true', Option.isNone_iff_eq_none, not_or, Bool.not_eq_false] at hopen
  -- the buffer was busy when a lend stayed parked, and no interrupt frees it now
  rw [guarantees_bind]
  refine .observe (P := fun s => Hands (some env) pe none false s ∧ s.staging.isSome ∧
      (ordered → pe.isSome → s.look = .entered ∧ s.uvc.frameActive = true))
    (fun s i hs hok => ⟨hs.1.interrupt i, ?_, fun hord hpe => ?_⟩) ⟨hentered, ?_, fun hord hpe => ?_⟩
    fun s2 h2 => ⟨trivial, ?_⟩
  · exact (congrArg Option.isSome (interrupt_staging i s)).trans hs.2.1
  · obtain ⟨hlook, hactive⟩ := hs.2.2 hord hpe
    have hkept := horder hord s i hok (hs.1.pending ▸ hpe) (by simp [hs.1.msgOpt])
    simp only [hlook] at hkept
    exact ⟨(interrupt_look i s).trans hlook, interrupt_frameActive hkept hactive⟩
  · exact Option.isSome_iff_ne_none.mpr hopen.2
  · obtain ⟨_, hactive⟩ := hbusy hord hpe rfl
    exact ⟨rfl, hactive.resolve_right (by simp [hopen.1])⟩
  · refine sendFrameStreaming_guarantees
      ⟨h2.1.msgOpt, h2.1.pending, h2.1.resuming, h2.1.posting⟩ h2.2.1 fun hidle => ⟨hidle, ?_⟩
    intro hord
    by_contra hpe
    have hactive := (h2.2.2 hord (Option.isSome_iff_ne_none.mpr hpe)).2
    rw [hidle] at hactive
    cases hactive

theorem resetStateLoop_guarantees (hresets : resets) (hands : Hands mo pe re po s) :
    usbService.Guarantees ok (Taken ordered resets) resetStateLoop (fun _ s => Hands mo pe re po s) s := by
  have hstable : usbService.Stable ok (Hands mo pe re po) := fun s i hs _ => hs.interrupt i
  rw [resetStateLoop, guarantees_bind]
  refine hands.take fun s1 h1 => ⟨hresets, ?_⟩
  rw [guarantees_bind]
  refine .take hstable ⟨h1.1, h1.2, h1.3, h1.4⟩ fun s2 h2 => ⟨hresets, ?_⟩
  rw [guarantees_bind]
  refine .take hstable ⟨h2.1, h2.2, h2.3, h2.4⟩ fun s3 h3 => ⟨hresets, ?_⟩
  rw [guarantees_bind]
  refine .take hstable ⟨h3.1, h3.2, h3.3, h3.4⟩ fun s4 h4 => ⟨hresets, ?_⟩
  refine .take hstable ⟨h4.1, h4.2, h4.3, h4.4⟩ fun s5 h5 => ⟨hresets, ?_⟩
  exact h5.kept (.swapStreaming s5)

theorem keyboardPosts_guarantees (n : Nat) (hands : Hands mo pe re false s) :
    usbService.Guarantees ok (Taken ordered resets) (keyboardPosts n) (fun _ s => Hands mo pe re false s) s := by
  induction n generalizing s with
  | zero => exact .pure hands
  | succ n ih =>
    rw [keyboardPosts, guarantees_bind]
    exact hands.take fun s1 h1 => ⟨h1.posting, ih ⟨h1.msgOpt, h1.pending, h1.resuming, rfl⟩⟩

theorem Looked.handled (h : Looked ordered none s) : Handled s := by
  obtain ⟨pe, hands, _⟩ := h
  exact ⟨none, pe, hands, nofun⟩

variable {m : LoopMsg}

theorem dispatch_guarantees (horder : ordered → ∀ s i, ok s i → s.OrderKept i)
    (hresets : m = .usbBusReset → resets) (hbody : mo = none ↔ m.body = none)
    (hlooked : Looked ordered mo s) :
    usbService.Guarantees ok (Taken ordered resets) (dispatch m) (fun _ s => Handled s) s := by
  cases m with
  | uvcSendFrame body =>
    cases mo with
    | none => cases hbody.mp rfl
    | some env => exact uvcSendFrame_guarantees horder hlooked
  | usbBusReset =>
    obtain rfl := hbody.mpr rfl
    obtain ⟨pe, hands, _⟩ := hlooked
    rw [dispatch]
    refine (resetStateLoop_guarantees (hresets rfl) hands).bind fun _ s1 h1 => ?_
    refine (uvcResumePending_guarantees (F := False) h1 nofun).bind fun _ s2 h2 => ?_
    obtain ⟨⟨pe', hands', _⟩, -⟩ := h2
    exact hands'.take fun s3 h3 => ⟨hresets rfl, none, pe', { h3 with }, nofun⟩
  | vbusRemove =>
    obtain rfl := hbody.mpr rfl
    obtain ⟨pe, hands, _⟩ := hlooked
    refine hands.take fun s1 h1 => ⟨trivial, none, pe, ?_, nofun⟩
    exact { h1.kept ((Interrupted.withRing s1 []).trans (.resetState _)) with }
  | keyboard posts =>
    obtain rfl := hbody.mpr rfl
    obtain ⟨pe, hands, _⟩ := hlooked
    exact (keyboardPosts_guarantees posts hands).mono fun _ s1 h1 => ⟨none, pe, h1, nofun⟩
  | other =>
    obtain rfl := hbody.mpr rfl
    exact .pure hlooked.handled
  | quit =>
    obtain rfl := hbody.mpr rfl
    obtain ⟨pe, hands, _⟩ := hlooked
    exact hands.take fun s1 h1 => ⟨trivial, none, pe, { h1 with }, nofun⟩

/-- The main loop waits for a message: at most the parked lend is open. -/
def Waiting (s : UsbState) : Prop :=
  ∃ pe, Hands none pe none false s

theorem Waiting.interrupt (h : Waiting s) (i : UsbIrq) : Waiting (usbService.interrupt i s) := by
  obtain ⟨pe, hands⟩ := h
  exact ⟨pe, hands.interrupt i⟩

section

variable (horder : ordered → ∀ s i, ok s i → s.OrderKept i) (hresets : m = .usbBusReset → resets) (hwaiting : Waiting s)

include horder hresets hwaiting

theorem mainLoopTurn_guarantees :
    usbService.Guarantees ok (Taken ordered resets) (mainLoopTurn m) (fun _ s => Waiting s) s := by
  obtain ⟨pe, hands⟩ := hwaiting
  rw [mainLoopTurn, guarantees_bind]
  refine hands.take fun s1 h1 => ⟨⟨h1.msgOpt, h1.resuming⟩, ?_⟩
  have hreceived : ∃ mo, (mo = none ↔ m.body = none) ∧
      Hands mo pe none false (usbService.perform (.receive m.body) s1) := by
    cases m.body with
    | none => exact ⟨none, by simp, ⟨rfl, h1.pending, h1.resuming, h1.posting⟩⟩
    | some body => exact ⟨some ⟨s1.received, body⟩, by simp, ⟨rfl, h1.pending, h1.resuming, h1.posting⟩⟩
  obtain ⟨mo, hbody, hands1⟩ := hreceived
  refine (uvcResumePending_guarantees (F := False) hands1 nofun).bind fun _ s2 h2 => ?_
  refine (dispatch_guarantees horder hresets hbody h2.1).bind fun _ s3 h3 => ?_
  obtain ⟨mo', pe', hands3, hanswered⟩ := h3
  refine hands3.take fun s4 h4 => ⟨fun env henv => hanswered env (h4.msgOpt.symm.trans henv), pe', ?_⟩
  change Hands none pe' none false (perform (.reply .current) s4)
  rw [perform]
  cases hholder : s4.holder .current with
  | none => exact ⟨hholder, h4.pending, h4.resuming, h4.posting⟩
  | some env => exact ⟨rfl, h4.pending, h4.resuming, h4.posting⟩

theorem mainLoop_guarantees : usbService.Guarantees ok (Taken ordered resets) (mainLoop m) (fun _ s => Waiting s) s := by
  rw [mainLoop, guarantees_bind]
  refine .observe (P := Waiting) (fun s i hs _ => hs.interrupt i) hwaiting fun s1 h1 => ⟨trivial, ?_⟩
  split
  · exact mainLoopTurn_guarantees horder hresets h1
  · exact .pure h1

end

end Threads

/-- The action touches nothing that the interrupt handler reads. -/
def LoopAction.isLocal : LoopAction → Bool
  | .receive _ | .load | .look _ | .takePending | .stage _ | .answer _ _ | .park | .reply _
  | .exit => true
  | _ => false

/-- What a local action leaves alone. -/
structure SameShared (s s' : UsbState) : Prop where
  uvc : s'.uvc = s.uvc
  irqReq : s'.irqReq = s.irqReq
  ring : s'.ring = s.ring
  posting : s'.posting = s.posting
  serial : s'.serial = s.serial
  staging : s'.staging.isSome = s.staging.isSome
  log : s'.log.filter (!·.isLoop) = s.log.filter (!·.isLoop)

theorem SameShared.refl (s : UsbState) : SameShared s s := ⟨rfl, rfl, rfl, rfl, rfl, rfl, rfl⟩

theorem SameShared.setHolder (s : UsbState) (env : Option Envelope) (h : Holder) : SameShared s (s.setHolder env h) := by
  cases h <;> exact ⟨rfl, rfl, rfl, rfl, rfl, rfl, rfl⟩

theorem SameShared.note {e : UsbEvent} (h : SameShared s s') (he : e.isLoop = true) : SameShared s (s'.note e) :=
  { h with log := by simpa [UsbState.note, he] using h.log }

theorem SameShared.noteStaged (h : SameShared s s') (env : Envelope)
    (chunk : Option Chunk) : SameShared s (s'.noteStaged env chunk) := by
  unfold UsbState.noteStaged
  split
  · exact h.note rfl
  · exact h

theorem SameShared.perform {a : LoopAction} (hlocal : a.isLocal = true) (s : UsbState) : SameShared s (perform a s) := by
  cases a with
  | receive body =>
    cases body with
    | none => exact ⟨rfl, rfl, rfl, rfl, rfl, rfl, rfl⟩
    | some body => exact note ⟨rfl, rfl, rfl, rfl, rfl, rfl, rfl⟩ rfl
  | load => exact .refl s
  | look l | takePending => exact ⟨rfl, rfl, rfl, rfl, rfl, rfl, rfl⟩
  | stage h =>
    rw [Usb.perform]
    cases hstaged : s.stagedBy h with
    | none => exact .refl s
    | some r =>
      refine noteStaged ?_ r.env r.chunk
      have hsome : s.staging.isSome = true := by
        cases hstaging : s.staging with
        | none => simp [UsbState.stagedBy, hstaging] at hstaged
        | some staging => rfl
      cases h <;> exact ⟨rfl, rfl, rfl, rfl, rfl, hsome.symm, rfl⟩
  | answer h code => exact .setHolder s _ h
  | park =>
    rw [Usb.perform]
    split
    · exact .refl s
    · exact note ⟨rfl, rfl, rfl, rfl, rfl, rfl, rfl⟩ rfl
  | reply h =>
    rw [Usb.perform]
    split
    · exact .refl s
    · exact (setHolder s none h).note rfl
  | exit => exact ⟨rfl, rfl, rfl, rfl, rfl, rfl, rfl⟩
  | _ => cases hlocal

section Walk

variable {ok : UsbState → Label LoopAction UsbIrq LoopMsg → Prop} {staging : Option IframRange}
  {labels : List (Label LoopAction UsbIrq LoopMsg)} {c : Config LoopAction UsbState}

theorem usbService_guarantees (ordered resets : Prop) (horder : ordered → ∀ s i, ok s (.interrupt i) → s.OrderKept i)
    (hresets : ∀ s, ok s (.receive .usbBusReset) → resets)
    (walk : usbService.Walk ok (.init staging) labels c) :
    Labelled.Run (usbService.Effect ok (Taken ordered resets)) (.init staging) labels c.state ∧
      usbService.Guarantees (fun s i => ok s (.interrupt i)) (Taken ordered resets) c.rest
        (fun _ => Waiting) c.state := by
  refine walk.effects (fun s i hs _ => hs.interrupt i) (fun m s hs hok => ?_) ⟨none, ⟨rfl, rfl, rfl, rfl⟩⟩
  refine mainLoop_guarantees horder (fun hm => ?_) hs
  subst hm
  exact hresets s hok

/-- The runs of the service are runs of its actions and interrupts, the main loop's actions in
states that `Taken` describes. -/
theorem usbService_effects (ordered resets : Prop) (horder : ordered → ∀ s i, ok s (.interrupt i) → s.OrderKept i)
    (hresets : ∀ s, ok s (.receive .usbBusReset) → resets)
    (walk : usbService.Walk ok (.init staging) labels c) :
    Labelled.Run (usbService.Effect ok (Taken ordered resets)) (.init staging) labels c.state :=
  (usbService_guarantees ordered resets horder hresets walk).1

theorem usbService_waits (walk : usbService.Walk ok (.init staging) labels c)
    (hrest : c.rest = .ret ()) : Waiting c.state := by
  have hguarantees := (usbService_guarantees False True (fun h => absurd h id) (fun _ _ => trivial) walk).2
  rwa [hrest] at hguarantees

end Walk

end BaochipXous.Usb
