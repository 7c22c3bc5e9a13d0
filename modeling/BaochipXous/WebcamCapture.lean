import BaochipXous.Webcam

/-!
The ranges of the capture path, in bounds for every accepted geometry, and how the camera fills the
ring. The channel holds the transfers of the frame that have not completed, in order; what has
arrived in the slots of the others is the start of the sensor's frame.
-/

namespace BaochipXous.Video

section

def previewRowsMax : Nat := 116

/-- Words of the preview's framebuffer: 128 by 128 pixels, one bit each. -/
def previewFbWords : Nat := 128 * 128 / 32

/-- Pixels of the image per preview pixel, the image offset, and the rows of the preview. -/
structure PreviewGeometry where
  step : Nat
  x0 : Nat
  y0 : Nat
  rows : Nat

def previewGeometry (mode : UvcMode) (zoom : Bool) : PreviewGeometry :=
  let step := if zoom then 1 else max (mode.width / 128) 1
  let cols := min (mode.width / step) 128
  let rows := min (mode.height / step) previewRowsMax
  { step, rows
    x0 := (mode.width - cols * step) / 2
    y0 := (mode.height - rows * step) / 2 }

/-- The slices and the pixels that `webcam_preview_rows` touches. -/
def PreviewInBounds (mode : UvcMode) (zoom : Bool) (first n : Nat) : Prop :=
  let p := previewGeometry mode zoom
  let wordsPerRow := mode.width * 2 / 4
  p.step ≠ 0 ∧ ∀ r < n, p.y0 ≤ first + r → (first + r - p.y0) / p.step < p.rows →
    r * wordsPerRow + wordsPerRow ≤ frameWords ∧
      ∀ px < min (mode.width / p.step) 128,
        (p.x0 + px * p.step) / 2 < wordsPerRow ∧
          (px + (first + r - p.y0) / p.step * 128) / 32 < previewFbWords

/-- The ranges that an action computes stay in bounds, and its subtractions and divisions are
defined. -/
def CamAction.InBounds : CamAction → VideoState → Prop
  | .dmaState _, s => s.count.xferDone ≤ s.count.xferQueued
  | .serve ring, s => s.count.xferDone * ring.slotRows ≤ ring.height
  | .enqueue ring, s =>
    let k := s.count.xferQueued
    ring.depth ≠ 0 ∧ k * ring.slotRows ≤ ring.height ∧
      ring.slot s.count.slotBase k * ring.slotBytes + ring.rows k * ring.lineBytes ≤ iframLen
  | .copyRow v slot r, _ =>
    slot * v.ring.slotBytes / 4 + r * v.srcWords + v.crop + v.dstWords ≤ iframLen / 4 ∧
      r * v.dstWords + v.dstWords ≤ frameWords
  | .wbAccumulate v rows, _ =>
    ∀ r < rows, r * (v.mode.width * 2 / 4) + v.mode.width * 2 / 4 ≤ frameWords
  | .previewRows v zoom first rows, _ => PreviewInBounds v.mode zoom first rows
  | .send v _ _ rows, _ =>
    0 < v.mode.payloadData ∧ v.mode.payloadData ≤ Usb.uvcMaxPayloadData ∧
      rows * v.mode.width * 2 ≤ Usb.uvcChunkPayloads * v.mode.payloadData
  | .drawColumns transfers, s =>
    transfers ≠ 0 ∧ s.webcam.previewCol < previewCols
  | _, _ => True

/-- What the capture path needs of a mode and a line length. -/
structure Fits (mode : UvcMode) (linePx : Nat) : Prop where
  width_even : mode.width % 2 = 0
  width_pos : 2 ≤ mode.width
  width_le : mode.width ≤ linePx
  height_pos : 0 < mode.height
  slotRows_pos : 0 < mode.slotRows
  payloadRows_pos : 0 < mode.payloadRows
  slot : mode.slotRows * (linePx * 2) ≤ iframLen
  payload : mode.payloadData ≤ Usb.uvcMaxPayloadData
  chunk : mode.slotRows ≤ Usb.uvcChunkPayloads * mode.payloadRows

theorem fits_of_mem_uvcModes {mode : UvcMode} (h : mode ∈ uvcModes) : Fits mode mode.linePx := by
  simp only [uvcModes, List.mem_cons, List.not_mem_nil, or_false] at h
  rcases h with rfl | rfl | rfl <;>
    exact ⟨rfl, by decide, by decide, by decide, by decide, by decide, by decide, by decide, by decide⟩

theorem payloadRows_mul_le {w : Nat} (hpos : 2 ≤ w) (hle : w ≤ Usb.uvcMaxPayloadData / 2) :
    max (Usb.uvcMaxPayloadData / (w * 2)) 1 * w * 2 ≤ Usb.uvcMaxPayloadData := by
  have hone : 1 ≤ Usb.uvcMaxPayloadData / (w * 2) := by
    rw [Nat.one_le_div_iff (by omega)]
    omega
  rw [max_eq_left hone, Nat.mul_assoc]
  exact Nat.div_mul_le_self _ _

theorem fits_of_webcamRawMode {arg3 arg4 : UInt32} {mode : UvcMode} {rowlen : Nat}
    (h : webcamRawMode arg3 arg4 iframLen = .ok (mode, rowlen)) :
    Fits mode (rawLinePx rowlen mode.linePx) := by
  unfold webcamRawMode at h
  dsimp only at h
  -- each check that is passed leaves its negation
  split_ifs at h with hwidth hheight _ _ hrowlen hslot
  obtain ⟨rfl, rfl⟩ := Prod.mk.inj (Except.ok.inj h)
  obtain ⟨hpos, heven, hle⟩ : 2 ≤ arg3.toNat / 2 ^ 16 ∧ arg3.toNat / 2 ^ 16 % 2 = 0 ∧
      arg3.toNat / 2 ^ 16 ≤ Usb.uvcMaxPayloadData / 2 := by omega
  refine ⟨heven, hpos, ?_, Nat.pos_of_ne_zero hheight, ?_,
    Nat.lt_of_lt_of_le Nat.one_pos (le_max_right _ _), ?_, payloadRows_mul_le hpos hle,
    min_le_left _ _⟩
  · dsimp only [UvcMode.linePx, rawLinePx]
    split
    · omega
    · omega
  · dsimp only [Usb.uvcChunkPayloads]
    omega
  · simpa [UvcMode.linePx, Nat.mul_assoc] using hslot

/-- Words round the start of a slot and the length of a line down. -/
theorem words_eq_iff (slot rows r linePx crop : Nat) :
    2 * (slot * (rows * (linePx * 2)) / 4 + r * (linePx * 2 / 4) + crop) =
        slot * (rows * linePx) + r * linePx + 2 * crop ↔ linePx % 2 = 0 ∨ r = 0 ∧ slot * rows % 2 = 0 := by
  have hsplit : ∀ n, n * linePx = 2 * (n * (linePx / 2)) + n * (linePx % 2) := by
    intro n
    conv_lhs => rw [← Nat.div_add_mod linePx 2]
    ring
  rw [← Nat.mul_assoc rows, ← Nat.mul_assoc slot, ← Nat.mul_assoc slot, hsplit r, hsplit (slot * rows),
    show linePx * 2 / 4 = linePx / 2 by omega]
  rcases Nat.mod_two_eq_zero_or_one linePx with hmod | hmod <;> rw [hmod] <;> omega

abbrev UvcMode.ring (mode : UvcMode) (linePx : Nat) : RingGeometry := webcamRingGeometry mode linePx

variable {mode : UvcMode} {linePx : Nat}

namespace Fits

theorem slotBytes_pos (h : Fits mode linePx) : 0 < (mode.ring linePx).slotBytes := by
  have hline : 0 < linePx * 2 := by
    have := h.width_pos
    have := h.width_le
    omega
  exact Nat.mul_pos h.slotRows_pos hline

theorem depth_pos (mode : UvcMode) (linePx : Nat) : 0 < (mode.ring linePx).depth :=
  Nat.lt_of_lt_of_le Nat.one_pos (le_max_right _ _)

theorem depth_mul_slotBytes_le (h : Fits mode linePx) :
    (mode.ring linePx).depth * (mode.ring linePx).slotBytes ≤ iframLen := by
  have hone : 1 ≤ iframLen / (mode.ring linePx).slotBytes :=
    (Nat.one_le_div_iff h.slotBytes_pos).mpr h.slot
  have hdepth : (mode.ring linePx).depth ≤ iframLen / (mode.ring linePx).slotBytes :=
    max_le (min_le_left _ _) hone
  exact (Nat.le_div_iff_mul_le h.slotBytes_pos).mp hdepth

theorem slot_lt (mode : UvcMode) (linePx slotBase k : Nat) :
    (mode.ring linePx).slot slotBase k < (mode.ring linePx).depth :=
  Nat.mod_lt _ (depth_pos mode linePx)

theorem slot_end_le (h : Fits mode linePx) {slot : Nat} (hslot : slot < (mode.ring linePx).depth) :
    slot * (mode.ring linePx).slotBytes + (mode.ring linePx).slotBytes ≤ iframLen :=
  calc
    slot * (mode.ring linePx).slotBytes + (mode.ring linePx).slotBytes
      = (slot + 1) * (mode.ring linePx).slotBytes := (Nat.succ_mul _ _).symm
    _ ≤ (mode.ring linePx).depth * (mode.ring linePx).slotBytes :=
      Nat.mul_le_mul_right _ hslot
    _ ≤ iframLen := h.depth_mul_slotBytes_le

theorem rows_mul_le (mode : UvcMode) (linePx k : Nat) :
    (mode.ring linePx).rows k * (mode.ring linePx).lineBytes ≤ (mode.ring linePx).slotBytes :=
  Nat.mul_le_mul_right _ (min_le_left _ _)

section

variable (h : Fits mode linePx)

include h

theorem transfers_pos : 0 < mode.transfers := by
  have hheight := h.height_pos
  have hslot := h.slotRows_pos
  exact Nat.div_pos (by omega) hslot

theorem mul_slotRows_lt {k : Nat} (hk : k < mode.transfers) : k * mode.slotRows < mode.height := by
  have hslot := h.slotRows_pos
  have hlast : (k + 1) * mode.slotRows ≤ mode.height + mode.slotRows - 1 :=
    (Nat.le_div_iff_mul_le hslot).mp hk
  have hsucc : (k + 1) * mode.slotRows = k * mode.slotRows + mode.slotRows := Nat.succ_mul _ _
  omega

theorem height_le_mul_slotRows : mode.height ≤ mode.transfers * mode.slotRows := by
  have hslot := h.slotRows_pos
  have hlt := Nat.lt_div_mul_add (a := mode.height + mode.slotRows - 1) hslot
  rw [UvcMode.transfers]
  omega

theorem chunk_bytes_le {rows : Nat} (hrows : rows ≤ mode.slotRows) :
    rows * mode.width * 2 ≤ Usb.uvcChunkPayloads * mode.payloadData := by
  have hle : rows ≤ Usb.uvcChunkPayloads * mode.payloadRows := hrows.trans h.chunk
  calc
    rows * mode.width * 2 ≤ Usb.uvcChunkPayloads * mode.payloadRows * mode.width * 2 :=
      Nat.mul_le_mul_right _ (Nat.mul_le_mul_right _ hle)
    _ = Usb.uvcChunkPayloads * mode.payloadData := by
      rw [UvcMode.payloadData, Nat.mul_assoc, Nat.mul_assoc, Nat.mul_assoc]

theorem row_end_le {r : Nat} (hr : r < mode.slotRows) : r * (mode.width * 2 / 4) + mode.width * 2 / 4 ≤ frameWords := by
  have hbytes : (r + 1) * mode.width * 2 ≤ Usb.uvcChunkPayloads * mode.payloadData :=
    h.chunk_bytes_le hr
  have hmax : Usb.uvcChunkPayloads * mode.payloadData ≤ frameWords * 4 :=
    (Nat.mul_le_mul_left _ h.payload).trans (by decide)
  have hword : mode.width * 2 / 4 * 4 = mode.width * 2 := by
    have := h.width_even
    omega
  have hrow : (r + 1) * (mode.width * 2 / 4) * 4 = (r + 1) * mode.width * 2 := by
    rw [Nat.mul_assoc, hword, Nat.mul_assoc]
  have hsucc : (r + 1) * (mode.width * 2 / 4) = r * (mode.width * 2 / 4) + mode.width * 2 / 4 :=
    Nat.succ_mul _ _
  omega

theorem copy_end_le {slot r crop : Nat} (hslot : slot < (mode.ring linePx).depth) (hr : r < mode.slotRows)
    (hcrop : crop ≤ linePx * 2 / 4 - mode.width * 2 / 4) :
    slot * (mode.ring linePx).slotBytes / 4 + r * (linePx * 2 / 4) + crop +
      mode.width * 2 / 4 ≤ iframLen / 4 := by
  have hend := h.slot_end_le hslot
  have hwide : mode.width * 2 / 4 ≤ linePx * 2 / 4 :=
    Nat.div_le_div_right (Nat.mul_le_mul_right _ h.width_le)
  have hrow : (r + 1) * (linePx * 2 / 4) * 4 ≤ (mode.ring linePx).slotBytes := by
    calc
      (r + 1) * (linePx * 2 / 4) * 4 = (r + 1) * (linePx * 2 / 4 * 4) := Nat.mul_assoc _ _ _
      _ ≤ mode.slotRows * (linePx * 2) := Nat.mul_le_mul hr (Nat.div_mul_le_self _ _)
  have hsucc : (r + 1) * (linePx * 2 / 4) = r * (linePx * 2 / 4) + linePx * 2 / 4 :=
    Nat.succ_mul _ _
  omega

theorem preview_inBounds (zoom : Bool) {first n : Nat} (hn : n ≤ mode.slotRows) : PreviewInBounds mode zoom first n := by
  have hstep : 0 < (previewGeometry mode zoom).step := by
    dsimp only [previewGeometry]
    split
    · exact Nat.one_pos
    · exact Nat.lt_of_lt_of_le Nat.one_pos (le_max_right _ _)
  have hx0 : (previewGeometry mode zoom).x0 = (mode.width - min (mode.width / (previewGeometry mode zoom).step) 128 *
        (previewGeometry mode zoom).step) / 2 := rfl
  have hrows : (previewGeometry mode zoom).rows ≤ previewRowsMax := min_le_right _ _
  unfold PreviewInBounds
  generalize previewGeometry mode zoom = p at *
  refine ⟨hstep.ne', fun r hr _ hpy => ⟨h.row_end_le (hr.trans_le hn), fun px hpx => ⟨?_, ?_⟩⟩⟩
  · -- the last column of the preview is a column of the image
    have hcol : (px + 1) * p.step ≤ min (mode.width / p.step) 128 * p.step :=
      Nat.mul_le_mul_right _ hpx
    have hwidth : min (mode.width / p.step) 128 * p.step ≤ mode.width :=
      (Nat.mul_le_mul_right _ (min_le_left _ _)).trans (Nat.div_mul_le_self _ _)
    have hsucc : (px + 1) * p.step = px * p.step + p.step := Nat.succ_mul _ _
    have heven := h.width_even
    omega
  · have hpx' : px < 128 := hpx.trans_le (min_le_right _ _)
    dsimp only [previewRowsMax, previewFbWords] at hrows ⊢
    omega

end

end Fits

end

open Interleaved

/-- A mode with a line length that the capture path can handle. -/
structure Geometry where
  mode : UvcMode
  linePx : Nat
  fits : Fits mode linePx

namespace Geometry

variable (g : Geometry)

def ring : RingGeometry :=
  webcamRingGeometry g.mode g.linePx

def slotSize : Nat :=
  g.mode.slotRows * g.linePx

def size (k : Nat) : Nat :=
  g.ring.rows k * g.linePx

/-- The number in its frame of the first sample of the `k`-th transfer. -/
def start (k : Nat) : Nat :=
  k * g.slotSize

/-- The `k`-th transfer of a frame whose slots are counted from `slotBase`. -/
def transfer (slotBase k : Nat) : Transfer where
  offset := g.ring.slot slotBase k * g.ring.slotBytes
  len := g.ring.rows k * g.ring.lineBytes

@[simp]
theorem ring_transfers : g.ring.transfers = g.mode.transfers := rfl

theorem slotBytes_eq : g.ring.slotBytes = g.slotSize * 2 :=
  (Nat.mul_assoc g.mode.slotRows g.linePx 2).symm

theorem transfer_offset_half (slotBase k : Nat) :
    (g.transfer slotBase k).offset / 2 = g.ring.slot slotBase k * g.slotSize := by
  rw [transfer, slotBytes_eq, ← Nat.mul_assoc]
  exact Nat.mul_div_cancel _ (by decide)

theorem transfer_len_half (slotBase k : Nat) : (g.transfer slotBase k).len / 2 = g.size k := by
  have hlen : (g.transfer slotBase k).len = g.ring.rows k * g.linePx * 2 :=
    (Nat.mul_assoc (g.ring.rows k) g.linePx 2).symm
  rw [hlen]
  exact Nat.mul_div_cancel _ (by decide)

theorem size_le (k : Nat) : g.size k ≤ g.slotSize := Nat.mul_le_mul_right _ (min_le_left _ _)

theorem linePx_pos : 0 < g.linePx := by
  have hwide := g.fits.width_pos
  have hle := g.fits.width_le
  omega

variable {g} {k : Nat}

theorem rows_pos (hk : k < g.mode.transfers) : 0 < g.ring.rows k := by
  have hlt := g.fits.mul_slotRows_lt hk
  exact lt_min g.fits.slotRows_pos (Nat.sub_pos_of_lt hlt)

theorem size_pos (hk : k < g.mode.transfers) : 0 < g.size k := Nat.mul_pos (rows_pos hk) g.linePx_pos

theorem rows_eq (hk : k + 1 < g.mode.transfers) : g.ring.rows k = g.mode.slotRows := by
  have hlt := g.fits.mul_slotRows_lt hk
  have hsucc : (k + 1) * g.mode.slotRows = k * g.mode.slotRows + g.mode.slotRows := Nat.succ_mul _ _
  refine min_eq_left ?_
  change g.mode.slotRows ≤ g.mode.height - k * g.mode.slotRows
  omega

theorem start_succ (hk : k + 1 < g.mode.transfers) : g.start (k + 1) = g.start k + g.size k := by
  rw [start, start, size, rows_eq hk, Nat.succ_mul]
  rfl

theorem rows_end_le (hk : k < g.mode.transfers) : k * g.mode.slotRows + g.ring.rows k ≤ g.mode.height := by
  have hlt := g.fits.mul_slotRows_lt hk
  have hrows : g.ring.rows k ≤ g.mode.height - k * g.mode.slotRows := min_le_right _ _
  omega

theorem rows_last (hk : k + 1 = g.mode.transfers) : k * g.mode.slotRows + g.ring.rows k = g.mode.height := by
  have hcover := g.fits.height_le_mul_slotRows
  rw [← hk, Nat.succ_mul] at hcover
  have hlt := g.fits.mul_slotRows_lt (k := k) (by omega)
  have hrows : g.ring.rows k = min g.mode.slotRows (g.mode.height - k * g.mode.slotRows) := rfl
  omega

theorem end_le (hk : k < g.mode.transfers) : g.start k + g.size k ≤ g.mode.height * g.linePx := by
  have hend := rows_end_le hk
  calc
    g.start k + g.size k = (k * g.mode.slotRows + g.ring.rows k) * g.linePx := by
      rw [start, slotSize, size, Nat.add_mul, Nat.mul_assoc]
    _ ≤ g.mode.height * g.linePx := Nat.mul_le_mul_right _ hend

end Geometry

/-- The transfer writes this byte of the IFRAM. -/
def Transfer.Targets (t : Transfer) (b : Nat) : Prop :=
  t.offset ≤ b ∧ b < t.offset + t.len

/-- The transfer targets no byte of the slot. -/
def Transfer.Misses (t : Transfer) (ring : RingGeometry) (slot : Nat) : Prop :=
  ∀ b, slot * ring.slotBytes ≤ b → b < (slot + 1) * ring.slotBytes → ¬t.Targets b

variable (g : Geometry)

theorem Geometry.transfer_misses {slotBase k slot : Nat}
    (hne : g.ring.slot slotBase k ≠ slot) : (g.transfer slotBase k).Misses g.ring slot := by
  rintro b hlow hhigh ⟨hoff, hend⟩
  have hrows : g.ring.rows k * g.ring.lineBytes ≤ g.ring.slotBytes :=
    Fits.rows_mul_le g.mode g.linePx k
  change g.ring.slot slotBase k * g.ring.slotBytes ≤ b at hoff
  change b < g.ring.slot slotBase k * g.ring.slotBytes + g.ring.rows k * g.ring.lineBytes at hend
  rcases Nat.lt_or_gt_of_ne hne with hlt | hgt
  · have hle : (g.ring.slot slotBase k + 1) * g.ring.slotBytes ≤ slot * g.ring.slotBytes :=
      Nat.mul_le_mul_right _ hlt
    rw [Nat.succ_mul] at hle
    omega
  · have hle : (slot + 1) * g.ring.slotBytes ≤ g.ring.slot slotBase k * g.ring.slotBytes :=
      Nat.mul_le_mul_right _ hgt
    omega

/-- The slots of two transfers of a frame, one or two apart, differ as far as the ring is deep. -/
theorem RingGeometry.slot_ne {ring : RingGeometry} {slotBase i j : Nat} (hlt : i < j)
    (hnear : j < i + ring.depth) (hdepth : ring.depth ≤ 3)
    (hwrap : ring.depth = 3 → slotBase + j < 2 ^ 32) : ring.slot slotBase i ≠ ring.slot slotBase j := by
  unfold slot
  obtain hd | hd | hd : ring.depth = 3 ∨ ring.depth = 2 ∨ ring.depth ≤ 1 := by omega
  · have hw := hwrap hd
    rw [hd] at hnear ⊢
    rw [Nat.mod_eq_of_lt hw, Nat.mod_eq_of_lt (by omega : slotBase + i < 2 ^ 32)]
    omega
  · rw [hd] at hnear ⊢
    omega
  · omega

theorem Pipeline.atSample_eq {sensor : Sensor} {pipeline : Pipeline}
    (h : ∀ F, pipeline.atSample sensor ≠ .running F) : pipeline.atSample sensor = pipeline := by
  cases pipeline with
  | off => rfl
  | armed =>
    rw [atSample] at h ⊢
    split
    · rename_i hstart
      rw [if_pos hstart] at h
      exact absurd rfl (h sensor.frame)
    · rfl
  | running F => rfl

/-- What can happen when samples arrive. -/
inductive Burst (cam : Camera) : Camera → Prop where
  | none : Burst cam cam
  | skip (m : Nat) (hidle : ∀ F, cam.pipeline ≠ .running F) :
      Burst cam { cam with sensor := cam.sensor.advance m }
  | lose (m F : Nat) (hrun : cam.pipeline.atSample cam.sensor = .running F)
      (hempty : cam.queue = []) :
      Burst cam { cam with pipeline := .running F, lost := true, sensor := cam.sensor.advance m }
  | take (m F : Nat) (t : Transfer) (rest : List Transfer)
      (hrun : cam.pipeline.atSample cam.sensor = .running F) (hqueue : cam.queue = t :: rest)
      (hmore : cam.got + m < t.len / 2) :
      Burst cam { cam.take m t with pipeline := .running F }
  | finish (m F : Nat) (t : Transfer) (rest : List Transfer)
      (hrun : cam.pipeline.atSample cam.sensor = .running F) (hqueue : cam.queue = t :: rest)
      (hle : m ≤ t.len / 2 - cam.got) (hend : t.len / 2 ≤ cam.got + m) :
      Burst cam { cam.take m t with pipeline := .running F, queue := rest, got := 0 }

theorem Burst.of_feed {cam : Camera} {F : Nat} (n : Nat) (hrun : cam.pipeline.atSample cam.sensor = .running F) :
    Burst cam (Camera.feed n { cam with pipeline := .running F }) := by
  unfold Camera.feed
  dsimp only
  split
  · rename_i hempty
    exact .lose n F hrun hempty
  · rename_i t rest hqueue
    split
    · rename_i hend
      exact .finish _ F t rest hrun hqueue (min_le_right _ _) hend
    · rename_i hmore
      exact .take _ F t rest hrun hqueue (Nat.lt_of_not_le hmore)

theorem Burst.of_burst (n : Nat) (cam : Camera) : Burst cam (cam.burst n) := by
  unfold Camera.burst
  dsimp only
  split
  · exact .none
  · split
    · rename_i hrun
      exact .of_feed _ hrun
    · rename_i hidle
      have heq := Pipeline.atSample_eq hidle
      rw [heq]
      exact .skip _ (heq ▸ hidle)

theorem Camera.take_mem_of_lt {n i : Nat} {t : Transfer} {cam : Camera}
    (h : i < t.offset / 2 + cam.got ∨ t.offset / 2 + cam.got + n ≤ i) : (cam.take n t).mem i = cam.mem i :=
  if_neg (by omega)

theorem Camera.take_mem {n j : Nat} (t : Transfer) (cam : Camera) (h : j < n) :
    (cam.take n t).mem (t.offset / 2 + cam.got + j) = some (cam.sensor.frame, cam.sensor.next + j) := by
  refine (if_pos (by omega)).trans ?_
  rw [Nat.add_sub_cancel_left]

variable (count : Counters)

/-- The channel holds the transfers of the frame that are queued and not finished. -/
structure Channel (cam : Camera) (fin : Nat) : Prop where
  le : fin ≤ count.xferQueued
  queue : cam.queue =
    (List.range' fin (count.xferQueued - fin)).map (g.transfer count.slotBase)

/-- The counters of a frame that is being captured. -/
structure InFrame : Prop where
  counter : count.slotCounter = (count.slotBase + g.mode.transfers) % 2 ^ 32
  queued_pos : 0 < count.xferQueued
  queued_le : count.xferQueued ≤ g.mode.transfers
  done_le : count.xferDone ≤ count.xferQueued
  ahead : count.xferQueued ≤ count.xferDone + 2

/-- The sensor emits the lines of the mode. -/
structure Emits (sensor : Sensor) : Prop where
  lineSamples : sensor.lineSamples = g.mode.linePx
  lines : sensor.lines = g.mode.height + 1

/-- What has arrived is the start of the sensor's frame, as long as none of it was lost. -/
structure Flow (cam : Camera) (fin : Nat) : Prop where
  apart : g.ring.Apart count.slotBase
  coherent : g.linePx = g.mode.linePx
  even : g.linePx % 2 = 0
  got_lt : fin < count.xferQueued → cam.got < g.size fin
  got_eq : fin = count.xferQueued → cam.got = 0
  lost : cam.lost = true → fin = count.xferQueued
  idle : (∀ F, cam.pipeline ≠ .running F) → fin = 0 ∧ cam.got = 0 ∧ cam.lost = false
  aligned : ∀ F, cam.pipeline = .running F → fin < g.mode.transfers → cam.lost = false →
    cam.sensor.frame = F ∧ cam.sensor.next = g.start fin + cam.got
  whole : ∀ F, cam.pipeline = .running F → ∀ k, count.xferDone ≤ k → k < fin → ∀ j < g.size k,
    cam.mem (g.ring.slot count.slotBase k * g.slotSize + j) = some (F, g.start k + j)
  part : ∀ F, cam.pipeline = .running F → fin < count.xferQueued → ∀ j < cam.got,
    cam.mem (g.ring.slot count.slotBase fin * g.slotSize + j) = some (F, g.start fin + j)

section Camera

variable {g : Geometry} {count : Counters} {cam cam' : Camera} {fin : Nat}

section

variable (h : Channel g count cam fin)
include h

theorem Channel.queue_cons (hlt : fin < count.xferQueued) :
    cam.queue = g.transfer count.slotBase fin ::
      (List.range' (fin + 1) (count.xferQueued - (fin + 1))).map (g.transfer count.slotBase) := by
  obtain ⟨n, hn⟩ : ∃ n, count.xferQueued - fin = n + 1 := ⟨count.xferQueued - fin - 1, by omega⟩
  have hrest : count.xferQueued - (fin + 1) = n := by omega
  rw [h.queue, hn, hrest, List.range'_succ, List.map_cons]

theorem Channel.lt_of_queue {t : Transfer} {rest : List Transfer}
    (hqueue : cam.queue = t :: rest) : fin < count.xferQueued := by
  refine lt_of_le_of_ne h.le fun heq => ?_
  rw [h.queue, heq, Nat.sub_self] at hqueue
  cases hqueue

theorem Channel.eq_of_empty (hempty : cam.queue = []) : fin = count.xferQueued := by
  by_contra hne
  have hlt : fin < count.xferQueued := lt_of_le_of_ne h.le hne
  rw [h.queue_cons hlt] at hempty
  cases hempty

theorem Channel.head {t : Transfer} {rest : List Transfer} (hqueue : cam.queue = t :: rest) :
    t = g.transfer count.slotBase fin ∧
      rest = (List.range' (fin + 1) (count.xferQueued - (fin + 1))).map (g.transfer count.slotBase) := by
  rw [h.queue_cons (h.lt_of_queue hqueue)] at hqueue
  obtain ⟨rfl, rfl⟩ := List.cons.inj hqueue
  exact ⟨rfl, rfl⟩

end

/-- No finished transfer of the frame has the slot of the active one. -/
theorem Channel.slot_ne_of_done (hframe : InFrame g count) (hapart : g.ring.Apart count.slotBase)
    {k : Nat} (hdone : count.xferDone ≤ k) (hk : k < fin) (hlt : fin < count.xferQueued) :
    g.ring.slot count.slotBase k ≠ g.ring.slot count.slotBase fin := by
  have hqueued := hframe.queued_le
  have hahead := hframe.ahead
  have htransfers : g.ring.transfers = g.mode.transfers := rfl
  have hdepth : g.ring.depth ≤ 3 := max_le (min_le_right _ _) (by decide)
  refine RingGeometry.slot_ne hk ?_ hdepth fun hd => ?_
  · rcases hapart.1 with hone | htwo
    · omega
    · omega
  · have hwrap := hapart.2 hd.ge
    omega

theorem take_mem_of_slot_ne {m slotBase k slot j : Nat} (hne : slot ≠ g.ring.slot slotBase k)
    (hj : j < g.slotSize) (hm : cam.got + m ≤ g.size k) :
    (cam.take m (g.transfer slotBase k)).mem (slot * g.slotSize + j) = cam.mem (slot * g.slotSize + j) := by
  refine Camera.take_mem_of_lt ?_
  rw [g.transfer_offset_half]
  have hsize := g.size_le k
  rcases Nat.lt_or_gt_of_ne hne with hlt | hgt
  · have hle : (slot + 1) * g.slotSize ≤ g.ring.slot slotBase k * g.slotSize :=
      Nat.mul_le_mul_right _ hlt
    rw [Nat.succ_mul] at hle
    omega
  · have hle : (g.ring.slot slotBase k + 1) * g.slotSize ≤ slot * g.slotSize :=
      Nat.mul_le_mul_right _ hgt
    rw [Nat.succ_mul] at hle
    omega

section

variable {m F : Nat} (h : Flow g count cam fin) (hframe : InFrame g count)
    (hrun : cam.pipeline.atSample cam.sensor = .running F) (hlt : fin < count.xferQueued)

include h hrun

theorem Flow.running_or_start : cam.pipeline = .running F ∨ fin = 0 ∧ cam.got = 0 := by
  cases hp : cam.pipeline with
  | running F' =>
    rw [hp] at hrun
    exact .inl hrun
  | off =>
    rw [hp] at hrun
    cases hrun
  | armed =>
    obtain ⟨hfin, hgot, _⟩ := h.idle (fun F' hF => by rw [hp] at hF; cases hF)
    exact .inr ⟨hfin, hgot⟩

include hframe hlt

theorem Flow.at_sample : cam.lost = false ∧ cam.sensor.frame = F ∧ cam.sensor.next = g.start fin + cam.got := by
  have hkept : cam.lost = false := by
    by_contra hlost
    exact absurd (h.lost (by simpa using hlost)) hlt.ne
  cases hp : cam.pipeline with
  | off =>
    rw [hp] at hrun
    cases hrun
  | armed =>
    obtain ⟨rfl, hgot, _⟩ := h.idle (fun F' hF => by rw [hp] at hF; cases hF)
    rw [hp, Pipeline.atSample] at hrun
    split at hrun
    · rename_i hstart
      cases hrun
      exact ⟨hkept, rfl, by rw [hstart, hgot, Geometry.start, Nat.zero_mul]⟩
    · cases hrun
  | running F' =>
    rw [hp] at hrun
    cases hrun
    exact ⟨hkept, h.aligned F hp (hlt.trans_le hframe.queued_le) hkept⟩

theorem Flow.taken :
    ∀ j < cam.got + m, (cam.take m (g.transfer count.slotBase fin)).mem
        (g.ring.slot count.slotBase fin * g.slotSize + j) = some (F, g.start fin + j) := by
  intro j hj
  obtain ⟨_, hF, hnext⟩ := h.at_sample hframe hrun hlt
  by_cases hold : j < cam.got
  · rw [Camera.take_mem_of_lt (by rw [g.transfer_offset_half]; omega)]
    rcases h.running_or_start hrun with hwas | ⟨_, hgot⟩
    · exact h.part F hwas hlt j hold
    · omega
  · have hnew := Camera.take_mem (g.transfer count.slotBase fin) cam (show j - cam.got < m by omega)
    rw [g.transfer_offset_half] at hnew
    rw [show g.ring.slot count.slotBase fin * g.slotSize + j =
      g.ring.slot count.slotBase fin * g.slotSize + cam.got + (j - cam.got) by omega, hnew, hF, hnext]
    rw [show g.start fin + cam.got + (j - cam.got) = g.start fin + j by omega]

theorem Flow.whole_take {k : Nat} (hm : cam.got + m ≤ g.size fin) (hdone : count.xferDone ≤ k) (hk : k < fin) :
    ∀ j < g.size k, (cam.take m (g.transfer count.slotBase fin)).mem
        (g.ring.slot count.slotBase k * g.slotSize + j) = some (F, g.start k + j) := by
  intro j hj
  have hne := Channel.slot_ne_of_done hframe h.apart hdone hk hlt
  rw [take_mem_of_slot_ne hne (hj.trans_le (g.size_le k)) hm]
  rcases h.running_or_start hrun with hwas | ⟨hfin, _⟩
  · exact h.whole F hwas k hdone hk j hj
  · omega

theorem Flow.advance (hemits : Emits g cam.sensor) (hm : cam.got + m ≤ g.size fin) :
    (cam.sensor.advance m).frame = F ∧ (cam.sensor.advance m).next = g.start fin + cam.got + m := by
  obtain ⟨_, hF, hnext⟩ := h.at_sample hframe hrun hlt
  have hend := g.end_le (hlt.trans_le hframe.queued_le)
  have htotal : cam.sensor.lineSamples * cam.sensor.lines = g.mode.height * g.linePx + g.linePx := by
    rw [hemits.lineSamples, hemits.lines, ← h.coherent, Nat.mul_comm, Nat.succ_mul]
  have hpos := g.linePx_pos
  rw [Sensor.advance, if_pos (by omega)]
  exact ⟨hF, by rw [hnext]⟩

end

/-- Whatever samples arrive, the channel goes on through the transfers of the frame, and what has
arrived stays. -/
theorem Channel.burst (h : Channel g count cam fin) (hframe : InFrame g count)
    (hemits : Emits g cam.sensor) (hburst : Burst cam cam') :
    ∃ fin', fin ≤ fin' ∧ Channel g count cam' fin' ∧ (Flow g count cam fin → Flow g count cam' fin') := by
  cases hburst with
  | none => exact ⟨fin, le_rfl, h, id⟩
  | skip m hidle =>
    refine ⟨fin, le_rfl, ⟨h.le, h.queue⟩, fun hflow => ?_⟩
    exact { hflow with aligned := fun F hF => absurd hF (hidle F) }
  | lose m F hrun hempty =>
    have heq := h.eq_of_empty hempty
    refine ⟨fin, le_rfl, ⟨h.le, h.queue⟩, fun hflow => ?_⟩
    refine { hflow with
      lost := fun _ => heq
      idle := fun hidle => absurd rfl (hidle F)
      aligned := nofun
      whole := fun F' hF k hdone hk => ?_
      part := fun _ _ hlt => absurd heq hlt.ne }
    cases hF
    rcases hflow.running_or_start hrun with hwas | ⟨hfin, _⟩
    · exact hflow.whole F hwas k hdone hk
    · omega
  | take m F t rest hrun hqueue hmore =>
    have hlt := h.lt_of_queue hqueue
    obtain ⟨rfl, _⟩ := h.head hqueue
    rw [g.transfer_len_half] at hmore
    refine ⟨fin, le_rfl, ⟨h.le, h.queue⟩, fun hflow => ?_⟩
    obtain ⟨hkept, _⟩ := hflow.at_sample hframe hrun hlt
    refine ⟨hflow.apart, hflow.coherent, hflow.even, fun _ => hmore, fun heq => absurd heq hlt.ne,
      hflow.lost, fun hidle => absurd rfl (hidle F), fun F' hF _ _ => ?_,
      fun F' hF k hdone hk => ?_, fun F' hF _ => ?_⟩
    · cases hF
      have hnext := hflow.advance hframe hrun hlt hemits hmore.le
      exact ⟨hnext.1, hnext.2.trans (Nat.add_assoc _ _ _)⟩
    · cases hF
      exact hflow.whole_take hframe hrun hlt hmore.le hdone hk
    · cases hF
      exact hflow.taken hframe hrun hlt
  | finish m F t rest hrun hqueue hle hend =>
    have hlt := h.lt_of_queue hqueue
    obtain ⟨rfl, rfl⟩ := h.head hqueue
    rw [g.transfer_len_half] at hle hend
    refine ⟨fin + 1, Nat.le_succ fin, ⟨hlt, rfl⟩, fun hflow => ?_⟩
    obtain ⟨hkept, _⟩ := hflow.at_sample hframe hrun hlt
    have hfull : cam.got + m = g.size fin := by
      have := hflow.got_lt hlt
      omega
    refine ⟨hflow.apart, hflow.coherent, hflow.even,
      fun hnext => Geometry.size_pos (hnext.trans_le hframe.queued_le), fun _ => rfl,
      fun hlost => ?_, fun hidle => absurd rfl (hidle F), fun F' hF hmore _ => ?_,
      fun F' hF k hdone hk => ?_, fun F' hF hmore j hj => absurd hj (Nat.not_lt_zero j)⟩
    · change cam.lost = true at hlost
      rw [hkept] at hlost
      cases hlost
    · cases hF
      have hnext := hflow.advance hframe hrun hlt hemits hfull.le
      refine ⟨hnext.1, ?_⟩
      change (cam.sensor.advance m).next = g.start (fin + 1) + 0
      rw [hnext.2, Geometry.start_succ hmore]
      omega
    · cases hF
      rcases Nat.lt_succ_iff_lt_or_eq.mp hk with hold | rfl
      · exact hflow.whole_take hframe hrun hlt hfull.le hdone hold
      · rw [← hfull]
        exact hflow.taken hframe hrun hlt

end Camera

end BaochipXous.Video
