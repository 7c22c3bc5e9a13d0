import BaochipXous.LibProg

/-!
Writes to the resistive memory, in lines of 32 bytes. A slice is completed with the old contents,
read from the line without the operating system, and with it through the registered ranges, from the
offset of the slice. The slice is read back, as far as the read goes, and written once more if it
differs. A protected line keeps its contents, and nobody is told.
-/

namespace BaochipXous.Rram

open Prog

/-- The bytes of the array, by their offset from its start. -/
abbrev Memory := Nat → UInt8

/-- Matches the alignment requirement of the write buffer of the hardware. -/
def alignment : Nat := 32

/-- A range of offsets that the process may write. Ranges are mapped by pages, so they end at lines. -/
structure Range where
  start : Nat
  stop : Nat
  startAligned : alignment ∣ start
  stopAligned : alignment ∣ stop

/-- The two ways the driver is built. -/
inductive Build where
  | bareMetal
  | std (ranges : List Range)

structure Reram where
  build : Build
  /-- The lines, by their first offset, that take a write. -/
  writable : Nat → Bool

inductive XousError where
  | accessDenied
  | internalError

abbrev RramM := Prog XousError Memory

def lineStart (offset : Nat) : Nat := offset - offset % alignment

def bytesAt (mem : Memory) (start len : Nat) : List UInt8 := (List.range len).map fun i => mem (start + i)

/-- `RangeMap::get`, and `get_mut`: the first range that holds the offset. -/
def rangeGet (ranges : List Range) (x : Nat) : Option Range :=
  ranges.find? fun r => decide (r.start ≤ x) && decide (x < r.stop)

/-- A line's worth of bytes from the offset on, all in one range. -/
def array (ranges : List Range) (offset : Nat) : RramM (List UInt8) :=
  match rangeGet ranges offset with
  | some range => do
    assert (offset + alignment ≤ range.stop)
    gets (bytesAt · offset alignment)
  | none => fail .accessDenied

def patch (buffer : List UInt8) (pos : Nat) (src : List UInt8) : List UInt8 :=
  buffer.take pos ++ src ++ buffer.drop (pos + src.length)

namespace Reram

variable (r : Reram)

/-- What the command to write a line leaves: the line takes the buffer, unless it is protected. -/
def lineAfter (mem : Memory) (addr : Nat) (buffer : List UInt8) : Memory := fun a =>
  if r.writable addr ∧ addr ≤ a ∧ a < addr + alignment then buffer.getD (a - addr) 0 else mem a

def commit (addr : Nat) (buffer : List UInt8) : RramM Unit := modify fun mem => r.lineAfter mem addr buffer

/-- With the operating system the line is written by an interrupt handler, which looks its range up. -/
def writeU32Aligned (addr : Nat) (buffer : List UInt8) : RramM Unit := do
  assert (addr % alignment == 0)
  match r.build with
  | .bareMetal => r.commit addr buffer
  | .std ranges =>
    match rangeGet ranges addr with
    | some range => do
      assert (addr + alignment ≤ range.stop)
      r.commit addr buffer
    | none => halt

/-- The old contents that complete a line of the slice at `offset`. -/
def destSlice (offset line : Nat) : RramM (List UInt8) :=
  match r.build with
  | .bareMetal => gets (bytesAt · line alignment)
  | .std ranges => array ranges offset

/-- The aligned middle and the ragged end: one line for each chunk. -/
def writeChunks (offset curOffset : Nat) (data : List UInt8) : RramM Unit :=
  if data.length = 0 then pure ()
  else if alignment ≤ data.length then do
    r.writeU32Aligned curOffset (data.take alignment)
    writeChunks offset (curOffset + alignment) (data.drop alignment)
  else do
    let dest ← r.destSlice offset curOffset
    r.writeU32Aligned curOffset (patch dest 0 data)
termination_by data.length
decreasing_by
  simp only [List.length_drop, alignment]
  omega

def writeSliceInner (offset : Nat) (data : List UInt8) : RramM Nat := do
  let startLen := (alignment - offset % alignment) % alignment
  when (startLen != 0) do
    let dest ← r.destSlice offset (lineStart offset)
    r.writeU32Aligned (lineStart offset) (patch dest (offset % alignment) (data.take startLen))
  r.writeChunks offset (offset + startLen) (data.drop startLen)
  pure data.length

def checkSlice (offset : Nat) (data : List UInt8) : RramM (List UInt8) :=
  match r.build with
  | .bareMetal => gets (bytesAt · offset data.length)
  | .std ranges => array ranges offset

def writeAttempts (offset : Nat) (data : List UInt8) : Nat → RramM Nat
  | 0 => fail .internalError
  | attempts + 1 => do
    match ← attempt (r.writeSliceInner offset data) with
    | .ok len => do
      let check ← r.checkSlice offset data
      if check.take (min data.length check.length) = data.take (min data.length check.length) then pure len
      else writeAttempts offset data attempts
    | .error _ => writeAttempts offset data attempts

/-- With as many attempts as `ATTEMPTS` allows. -/
def writeSliceRetry (offset : Nat) (data : List UInt8) : RramM Nat := r.writeAttempts offset data 2

/-- A write that is refused unless it lies between two offsets. -/
def boundedWrite (first last offset : Nat) (data : List UInt8) : RramM Nat := do
  if offset + data.length ≥ 2 ^ 32 then fail .accessDenied
  else if offset < first ∨ offset + data.length > last then fail .accessDenied
  else r.writeSliceRetry offset data

end Reram

def hwReramMem : Nat := 0x60000000

def hwReramMemLen : Nat := 4194304

def boot1Start : Nat := 0x60020000

def rramStorageLen : Nat := 0x3DA000

variable (r : Reram)

def Reram.writeSlice (offset : Nat) (data : List UInt8) : RramM Nat :=
  r.boundedWrite (boot1Start - hwReramMem) rramStorageLen offset data

def Reram.protectedWriteSlice (offset : Nat) (data : List UInt8) : RramM Nat :=
  r.boundedWrite rramStorageLen hwReramMemLen offset data

/-- No panic, and after an `Ok` exactly the bytes of the slice are the data. -/
def Faithful (write : RramM Nat) (mem : Memory) (offset : Nat) (data : List UInt8) : Prop :=
  write mem ≠ .panic ∧ ∀ len mem', write mem = .ok len mem' →
    ∀ a, mem' a = if offset ≤ a ∧ a < offset + data.length then data.getD (a - offset) 0 else mem a

variable {offset : Nat} {data : List UInt8}

theorem faithful_ok_iff {write : RramM Nat} {mem mem' : Memory} {len : Nat}
    (h : write mem = .ok len mem') : Faithful write mem offset data ↔
      ∀ a, mem' a = if offset ≤ a ∧ a < offset + data.length then data.getD (a - offset) 0 else mem a := by
  simp [Faithful, h]

/-- Each byte of the write is in a range that is registered. -/
def Reram.Registered (offset : Nat) (data : List UInt8) : Prop :=
  match r.build with
  | .bareMetal => True
  | .std ranges => ∀ a, offset ≤ a → a < offset + data.length → (rangeGet ranges a).isSome

section Condition

variable (r : Reram) (mem : Memory) (offset : Nat) (data : List UInt8)

/-- The first `count` bytes of the data are in lines that can be written, or there already. -/
def Lands (count : Nat) : Prop :=
  ∀ i < count, i < data.length → r.writable (lineStart (offset + i)) ∨ mem (offset + i) = data.getD i 0

/-- The line of a ragged start is completed with the bytes that follow the offset of the slice,
which are its old ones. -/
def StartKept : Prop :=
  offset % alignment ≠ 0 → r.writable (lineStart offset) →
    ∀ a, lineStart a = lineStart offset → ¬ (offset ≤ a ∧ a < offset + data.length) →
      mem (offset + a % alignment) = mem a

/-- So is the line of a ragged end, when part of the slice is written by then. -/
def EndKept : Prop :=
  (offset + data.length) % alignment ≠ 0 → offset ≤ lineStart (offset + data.length) →
    r.writable (lineStart (offset + data.length)) →
    ∀ a, lineStart a = lineStart (offset + data.length) → offset + data.length ≤ a →
      (if offset + a % alignment < lineStart (offset + data.length) then data.getD (a % alignment) 0
        else mem (offset + a % alignment)) = mem a

/-- With the operating system: a line of bytes from the offset is in the range, and if the part that
is read back lands, all of it does and both end lines are kept. -/
def Kept (ranges : List Range) : Prop :=
  ∀ range, rangeGet ranges offset = some range →
    offset + alignment ≤ range.stop ∧
    (Lands r mem offset data alignment →
      Lands r mem offset data data.length ∧ StartKept r mem offset data ∧ EndKept r mem offset data)

end Condition

@[simp] theorem length_bytesAt (mem : Memory) (start len : Nat) : (bytesAt mem start len).length = len := by
  simp [bytesAt]

theorem getD_bytesAt (mem : Memory) (start len i : Nat) (h : i < len) :
    (bytesAt mem start len).getD i 0 = mem (start + i) := by simp [bytesAt, h]

theorem getD_patch (buffer : List UInt8) (pos : Nat) (src : List UInt8) (i : Nat) (hpos : pos ≤ buffer.length) :
    (patch buffer pos src).getD i 0 =
      if pos ≤ i ∧ i < pos + src.length then src.getD (i - pos) 0 else buffer.getD i 0 := by
  simp only [patch, List.getD_eq_getElem?_getD, List.append_assoc]
  by_cases hlo : i < pos
  · rw [if_neg (by omega), List.getElem?_append_left (by simp; omega), List.getElem?_take, if_pos hlo]
  · rw [List.getElem?_append_right (by simp; omega)]
    by_cases hhi : i < pos + src.length
    · rw [if_pos ⟨by omega, hhi⟩, List.getElem?_append_left (by simp; omega)]
      simp [Nat.min_eq_left hpos]
    · rw [if_neg (by omega), List.getElem?_append_right (by simp; omega)]
      simp only [List.length_take, Nat.min_eq_left hpos, List.getElem?_drop]
      congr 2
      omega

theorem lineStart_le (a : Nat) : lineStart a ≤ a := Nat.sub_le ..

theorem lineStart_add_mod (a : Nat) : lineStart a + a % alignment = a := by
  have := Nat.mod_le a alignment
  simp only [lineStart]
  omega

theorem lineStart_eq_iff {a line : Nat} (hline : line % alignment = 0) :
    lineStart a = line ↔ line ≤ a ∧ a < line + alignment := by
  simp only [lineStart, alignment] at hline ⊢
  omega

theorem lineStart_mod (a : Nat) : lineStart a % alignment = 0 := by
  simp only [lineStart, alignment]
  omega

theorem getD_take {n i : Nat} (h : i < n) : (data.take n).getD i 0 = data.getD i 0 := by
  simp [h]

namespace Reram

variable (r : Reram)

/-- Where the old contents come from. -/
def source (offset line : Nat) : Nat :=
  match r.build with
  | .bareMetal => line
  | .std _ => offset

def Room (offset : Nat) : Prop :=
  match r.build with
  | .bareMetal => True
  | .std ranges => ∃ range, rangeGet ranges offset = some range ∧ offset + alignment ≤ range.stop

/-- The handler finds the line in a range. -/
def Reachable (line : Nat) : Prop :=
  match r.build with
  | .bareMetal => True
  | .std ranges => (rangeGet ranges line).isSome

variable {offset : Nat}

theorem destSlice_ok (h : r.Room offset) (line : Nat) (mem : Memory) :
    r.destSlice offset line mem = .ok (bytesAt mem (r.source offset line) alignment) mem := by
  cases hb : r.build with
  | bareMetal => simp [destSlice, source, hb]
  | std ranges =>
    simp only [Room, hb] at h
    obtain ⟨range, hget, hle⟩ := h
    simp [destSlice, source, hb, array, hget, hle, Prog.assert, bind_apply]

variable {line : Nat}

theorem line_le_stop {ranges : List Range} {range : Range}
    (hget : rangeGet ranges line = some range) (hline : line % alignment = 0) :
    line + alignment ≤ range.stop := by
  have hin := List.find?_some hget
  simp only [Bool.and_eq_true, decide_eq_true_eq] at hin
  have hstop := range.stopAligned
  simp only [alignment] at hline hstop ⊢
  omega

theorem writeU32Aligned_ok {addr : Nat} (haddr : addr % alignment = 0) (h : r.Reachable addr)
    (buffer : List UInt8) (mem : Memory) :
    r.writeU32Aligned addr buffer mem = .ok () (r.lineAfter mem addr buffer) := by
  cases hb : r.build with
  | bareMetal => simp [writeU32Aligned, hb, haddr, Prog.assert, bind_apply, commit]
  | std ranges =>
    simp only [Reachable, hb, Option.isSome_iff_exists] at h
    obtain ⟨range, hget⟩ := h
    simp [writeU32Aligned, hb, hget, haddr, line_le_stop hget haddr, Prog.assert, bind_apply, commit]

/-- The memory when the slice is written up to `stop`, as far as the lines can be written. -/
def upTo (mem : Memory) (offset : Nat) (data : List UInt8) (stop : Nat) : Memory := fun a =>
  if offset ≤ a ∧ a < stop ∧ r.writable (lineStart a) then data.getD (a - offset) 0 else mem a

/-- What the loop leaves: the data, and the rest of the last line from where its old contents come
from. -/
def chunksAfter (mem : Memory) (offset curOffset : Nat) (data : List UInt8) : Memory := fun a =>
  let stop := curOffset + data.length
  if stop ≤ a ∧ stop % alignment ≠ 0 ∧ lineStart a = lineStart stop ∧ r.writable (lineStart stop) then
    r.upTo mem curOffset data (lineStart stop) (r.source offset (lineStart stop) + a % alignment)
  else r.upTo mem curOffset data stop a

variable (mem : Memory)

/-- The memory after the line of the start, seen from the offset of the slice on. -/
theorem upTo_startLine {startLen stop a : Nat} {line : List UInt8}
    (data : List UInt8) (hlen : startLen = alignment - offset % alignment)
    (hbytes : ∀ i, i < startLen → line.getD (offset % alignment + i) 0 = data.getD i 0)
    (hstop : offset + startLen ≤ stop) (ha : offset ≤ a) :
    r.upTo (r.lineAfter mem (lineStart offset) line) (offset + startLen) (data.drop startLen) stop a =
      r.upTo mem offset data stop a := by
  have hmod : offset % alignment < alignment := Nat.mod_lt _ (by decide)
  have hstart := lineStart_add_mod offset
  by_cases hline : a < offset + startLen
  · have hsame : lineStart a = lineStart offset :=
      (lineStart_eq_iff (lineStart_mod offset)).mpr ⟨by omega, by omega⟩
    simp only [upTo, lineAfter, hsame]
    rw [if_neg (by omega)]
    by_cases hw : r.writable (lineStart offset)
    · rw [if_pos ⟨hw, by omega, by omega⟩, if_pos ⟨ha, by omega, hw⟩, ← hbytes _ (by omega)]
      congr 1
      omega
    · rw [if_neg (by simp [hw]), if_neg (by simp [hw])]
  · have hdrop : (data.drop startLen).getD (a - (offset + startLen)) 0 = data.getD (a - offset) 0 := by
      simp only [List.getD_eq_getElem?_getD, List.getElem?_drop]
      congr 2
      omega
    simp only [upTo, lineAfter, hdrop]
    rw [if_neg (show ¬ (r.writable (lineStart offset) ∧ lineStart offset ≤ a ∧
      a < lineStart offset + alignment) by omega)]
    by_cases hin : a < stop ∧ r.writable (lineStart a)
    · rw [if_pos ⟨by omega, hin⟩, if_pos ⟨ha, hin⟩]
    · rw [if_neg (fun h => hin h.2), if_neg (fun h => hin h.2)]

theorem upTo_lineAfter {curOffset stop : Nat} (data : List UInt8)
    (hcur : curOffset % alignment = 0) (hstop : curOffset + alignment ≤ stop) :
    r.upTo (r.lineAfter mem curOffset (data.take alignment)) (curOffset + alignment) (data.drop alignment) stop =
      r.upTo mem curOffset data stop := by
  funext a
  by_cases ha : curOffset ≤ a
  · have hline := r.upTo_startLine mem data (by rw [hcur]; rfl)
      (fun i hi => by rw [hcur, Nat.zero_add, getD_take hi]) hstop ha
    rwa [(lineStart_eq_iff hcur).mpr ⟨le_rfl, Nat.lt_add_of_pos_right (by decide)⟩] at hline
  · simp only [upTo, lineAfter]
    rw [if_neg (by omega), if_neg (by omega), if_neg (by omega)]

variable {data : List UInt8}

theorem chunksAfter_of_empty (offset : Nat) {curOffset : Nat}
    (hcur : curOffset % alignment = 0) (hlen : data.length = 0) :
    r.chunksAfter mem offset curOffset data = mem := by
  funext a
  simp only [chunksAfter, hlen, Nat.add_zero, hcur, ne_eq, not_true_eq_false, false_and, and_false, ↓reduceIte, upTo]
  rw [if_neg (by omega)]

/-- A line with the old contents from `start` on, and `src` written over them. -/
theorem lineAfter_patch (start : Nat) {pos : Nat} (src : List UInt8) (hline : line % alignment = 0)
    (hpos : pos ≤ alignment) (a : Nat) :
    r.lineAfter mem line (patch (bytesAt mem start alignment) pos src) a =
      if lineStart a = line ∧ r.writable line then
        if pos ≤ a % alignment ∧ a % alignment < pos + src.length then src.getD (a % alignment - pos) 0
        else mem (start + a % alignment) else mem a := by
  have hmod := Nat.mod_lt a (show 0 < alignment by decide)
  simp only [lineAfter, getD_patch _ _ _ _ (show pos ≤ (bytesAt mem start alignment).length by simpa using hpos)]
  by_cases hsame : lineStart a = line
  · have hself := lineStart_add_mod a
    rw [show a - line = a % alignment by omega, getD_bytesAt _ _ _ _ hmod]
    grind
  · have := mt (lineStart_eq_iff hline).mpr hsame
    grind

theorem writeChunks_ok (hroom : r.Room offset) (curOffset : Nat) (data : List UInt8) (hcur : curOffset % alignment = 0)
    (hreach : ∀ line, line % alignment = 0 → curOffset ≤ line → line < curOffset + data.length →
      r.Reachable line) (mem : Memory) :
    r.writeChunks offset curOffset data mem = .ok () (r.chunksAfter mem offset curOffset data) := by
  fun_induction Reram.writeChunks r offset curOffset data generalizing mem with
  | case1 curOffset data hlen =>
    rw [r.chunksAfter_of_empty mem offset hcur hlen]
    rfl
  | case2 curOffset data hne hlen ih =>
    have hline := r.writeU32Aligned_ok hcur (hreach curOffset hcur le_rfl (by omega))
      (data.take alignment) mem
    have hrest := ih (by simpa [alignment] using hcur)
      (fun line hl hlo hhi => hreach line hl (by omega)
        (by simp only [List.length_drop] at hhi; omega))
      (r.lineAfter mem curOffset (data.take alignment))
    rw [bind_apply, hline]
    simp only [hrest, Outcome.ok.injEq, true_and]
    have hstop : curOffset + alignment + (data.drop alignment).length = curOffset + data.length := by
      rw [List.length_drop]
      omega
    have hlast : curOffset + alignment ≤ lineStart (curOffset + data.length) := by
      simp only [lineStart, alignment] at hcur hlen ⊢
      omega
    funext a
    simp only [chunksAfter, hstop, r.upTo_lineAfter mem data hcur hlast,
      r.upTo_lineAfter mem data hcur (Nat.add_le_add_left hlen curOffset)]
  | case3 curOffset data hne hlen =>
    have hpos : 0 < data.length := by omega
    have hline := r.writeU32Aligned_ok hcur (hreach curOffset hcur le_rfl (by omega))
      (patch (bytesAt mem (r.source offset curOffset) alignment) 0 data) mem
    rw [bind_apply, r.destSlice_ok hroom]
    simp only [hline, Outcome.ok.injEq, true_and]
    have hstop : lineStart (curOffset + data.length) = curOffset :=
      (lineStart_eq_iff hcur).mpr ⟨by omega, by omega⟩
    have hragged : (curOffset + data.length) % alignment ≠ 0 := by
      simp only [alignment] at hcur hlen ⊢
      omega
    funext a
    rw [r.lineAfter_patch mem _ _ hcur (Nat.zero_le _)]
    have hself := lineStart_add_mod a
    have hline := lineStart_eq_iff (a := a) hcur
    simp only [chunksAfter, upTo, hstop]
    grind

/-- What a pass over the slice leaves. -/
def leaves (mem : Memory) (offset : Nat) (data : List UInt8) : Memory := fun a =>
  let stop := offset + data.length
  if offset ≤ a ∧ a < stop then r.upTo mem offset data stop a
  else if offset % alignment ≠ 0 ∧ lineStart a = lineStart offset ∧ r.writable (lineStart offset) then
    mem (r.source offset (lineStart offset) + a % alignment)
  else if stop % alignment ≠ 0 ∧ offset ≤ lineStart stop ∧ lineStart a = lineStart stop ∧
      r.writable (lineStart stop) then
    r.upTo mem offset data (lineStart stop) (r.source offset (lineStart stop) + a % alignment)
  else mem a

theorem reachable_lineStart (h : r.Room offset) : r.Reachable (lineStart offset) := by
  cases hb : r.build with
  | bareMetal => simp [Reachable, hb]
  | std ranges =>
    simp only [Room, hb] at h
    obtain ⟨range, hget, -⟩ := h
    have hin := List.find?_some hget
    have hmem := List.mem_of_find?_eq_some hget
    simp only [Bool.and_eq_true, decide_eq_true_eq] at hin
    simp only [Reachable, hb, rangeGet, List.find?_isSome]
    refine ⟨range, hmem, ?_⟩
    have hstart : range.start ≤ lineStart offset := by
      have hdvd := range.startAligned
      simp only [lineStart, alignment] at hdvd ⊢
      omega
    have hstop : lineStart offset < range.stop := (lineStart_le offset).trans_lt hin.2
    simp [hstart, hstop]

theorem reachable_of_registered (h : r.Registered offset data)
    (hlo : offset ≤ line) (hhi : line < offset + data.length) : r.Reachable line := by
  cases hb : r.build with
  | bareMetal => simp [Reachable, hb]
  | std ranges =>
    simp only [Registered, hb] at h
    simp only [Reachable, hb]
    exact h line hlo hhi

theorem leaves_of_aligned (data : List UInt8) (h : offset % alignment = 0) :
    r.chunksAfter mem offset offset data = r.leaves mem offset data := by
  have hle : offset ≤ lineStart (offset + data.length) := by
    simp only [lineStart, alignment] at h ⊢
    omega
  funext a
  by_cases hin : offset ≤ a ∧ a < offset + data.length
  · simp only [chunksAfter, leaves, hin, and_self, ↓reduceIte]
    rw [if_neg (by omega)]
  · have hout : r.upTo mem offset data (offset + data.length) a = mem a := by
      rw [upTo, if_neg (by tauto)]
    simp only [chunksAfter, leaves, hin, h, hout, hle, ne_eq, not_true_eq_false, false_and, ↓reduceIte, true_and]
    by_cases hlast : (offset + data.length) % alignment ≠ 0 ∧ lineStart a = lineStart (offset + data.length) ∧
        r.writable (lineStart (offset + data.length))
    · have ha : offset + data.length ≤ a := by
        have := lineStart_le a
        omega
      rw [if_pos ⟨ha, hlast⟩, if_pos hlast]
    · rw [if_neg (fun h => hlast h.2), if_neg hlast]

theorem leaves_of_ragged {startLen : Nat} (data : List UInt8)
    (hragged : offset % alignment ≠ 0) (hlen : startLen = alignment - offset % alignment) :
    r.chunksAfter (r.lineAfter mem (lineStart offset) (patch
        (bytesAt mem (r.source offset (lineStart offset)) alignment) (offset % alignment)
        (data.take startLen))) offset (offset + startLen) (data.drop startLen) =
      r.leaves mem offset data := by
  have hmod : offset % alignment < alignment := Nat.mod_lt _ (by decide)
  have hstart := lineStart_add_mod offset
  have hline := lineStart_mod offset
  have hnext : (offset + startLen) % alignment = 0 := by
    simp only [alignment] at hlen hragged ⊢
    omega
  have hfirst := fun a => r.lineAfter_patch mem (r.source offset (lineStart offset)) (data.take startLen) hline hmod.le a
  funext a
  have hself := lineStart_add_mod a
  have hsame := lineStart_eq_iff (a := a) hline
  by_cases hshort : data.length ≤ startLen
  · -- the slice ends in the line it starts in
    rw [r.chunksAfter_of_empty _ _ hnext (by rw [List.length_drop]; omega), hfirst,
      List.take_of_length_le hshort]
    have hend : (offset + data.length) % alignment ≠ 0 → lineStart (offset + data.length) < offset := by
      simp only [lineStart, alignment] at hlen hragged ⊢
      omega
    simp only [leaves, upTo]
    by_cases hin : lineStart a = lineStart offset
    · rw [show a % alignment - offset % alignment = a - offset by omega]
      grind
    · grind
  · have hstop : offset + startLen + (data.drop startLen).length = offset + data.length := by
      rw [List.length_drop]
      omega
    have hlast : offset + startLen ≤ lineStart (offset + data.length) := by
      simp only [lineStart, alignment] at hlen hragged hshort ⊢
      omega
    have hbytes : ∀ i, i < startLen → (patch (bytesAt mem (r.source offset (lineStart offset)) alignment)
        (offset % alignment) (data.take startLen)).getD (offset % alignment + i) 0 = data.getD i 0 := by
      intro i hi
      rw [getD_patch _ _ _ _ (by simpa using hmod.le), if_pos (by simp only [List.length_take]; omega),
        Nat.add_sub_cancel_left, getD_take hi]
    have hupTo := fun {x stop : Nat} (hx : offset + startLen ≤ stop) (ha : offset ≤ x) =>
      r.upTo_startLine mem data hlen hbytes hx ha
    have hsource : offset ≤ r.source offset (lineStart (offset + data.length)) + a % alignment := by
      grind [source]
    simp only [chunksAfter, hstop, hupTo hlast hsource, leaves]
    by_cases hbefore : a < offset
    · simp only [upTo, hfirst]
      grind [lineStart_le a]
    · rw [hupTo (by omega) (by omega)]
      grind [upTo, lineStart_le a]

theorem writeSliceInner_ok (hroom : r.Room offset) (hreg : r.Registered offset data) (mem : Memory) :
    r.writeSliceInner offset data mem = .ok data.length (r.leaves mem offset data) := by
  have hmod : offset % alignment < alignment := Nat.mod_lt _ (by decide)
  by_cases hragged : offset % alignment = 0
  · have hzero : (alignment - offset % alignment) % alignment = 0 := by simp [hragged]
    have hchunks := r.writeChunks_ok hroom offset data hragged
      (fun line _ hlo hhi => r.reachable_of_registered hreg hlo hhi) mem
    simp only [writeSliceInner, hzero, bne_self_eq_false, Prog.when, bind_apply, pure_apply, Nat.add_zero,
      List.drop_zero, Bool.false_eq_true, ↓reduceIte, hchunks, r.leaves_of_aligned mem data hragged]
  · have hlen : (alignment - offset % alignment) % alignment = alignment - offset % alignment :=
      Nat.mod_eq_of_lt (by omega)
    have hne : (alignment - offset % alignment != 0) = true := by
      rw [bne_iff_ne]
      omega
    have hnext : (offset + (alignment - offset % alignment)) % alignment = 0 := by
      simp only [alignment] at hragged ⊢
      omega
    have hline := r.writeU32Aligned_ok (lineStart_mod offset) (r.reachable_lineStart hroom)
    have hchunks := r.writeChunks_ok hroom (offset + (alignment - offset % alignment))
      (data.drop (alignment - offset % alignment)) hnext
      (fun line _ hlo hhi => r.reachable_of_registered hreg (by omega)
        (by simp only [List.length_drop] at hhi; omega))
    simp only [writeSliceInner, hne, Prog.when, ↓reduceIte, bind_apply, r.destSlice_ok hroom, hline, hlen,
      hchunks, pure_apply, r.leaves_of_ragged mem data hragged rfl]

theorem leaves_of_mem {a : Nat}
    (h : offset ≤ a ∧ a < offset + data.length) : r.leaves mem offset data a =
      if r.writable (lineStart a) then data.getD (a - offset) 0 else mem a := by
  rw [leaves, if_pos h]
  simp only [upTo, h, true_and]

theorem leaves_of_bareMetal (hb : r.build = .bareMetal) (mem : Memory) {a : Nat}
    (h : ¬ (offset ≤ a ∧ a < offset + data.length)) : r.leaves mem offset data a = mem a := by
  have hself := lineStart_add_mod a
  simp only [leaves, if_neg h, source, hb, upTo]
  split
  · rename_i hstart
    rw [← hstart.2.1, hself]
  · split
    · rename_i hend
      rw [← hend.2.2.1, hself, if_neg]
      have := lineStart_le a
      omega
    · rfl

theorem check_iff (offset len : Nat) (data : List UInt8) :
    (bytesAt mem offset len).take (min data.length (bytesAt mem offset len).length) =
        data.take (min data.length (bytesAt mem offset len).length) ↔
      ∀ i < len, i < data.length → mem (offset + i) = data.getD i 0 := by
  rw [length_bytesAt]
  constructor
  · intro h i hlen hdata
    have hget := congrArg (List.getD · i 0) h
    rwa [getD_take (by omega), getD_take (by omega), getD_bytesAt mem offset len i hlen] at hget
  · intro h
    apply List.ext_getElem
    · simp
    · intro i hi hi'
      simp only [List.length_take, length_bytesAt] at hi
      have := h i (by omega) (by omega)
      simp only [List.getD_eq_getElem?_getD, List.getElem?_eq_getElem (show i < data.length by omega),
        Option.getD_some] at this
      simpa [bytesAt] using this

theorem leaves_check_iff (offset len : Nat) (data : List UInt8) :
    (∀ i < len, i < data.length → r.leaves mem offset data (offset + i) = data.getD i 0) ↔
      Lands r mem offset data len := by
  refine forall₃_congr fun i _ hdata => ?_
  rw [r.leaves_of_mem mem ⟨by omega, by omega⟩, Nat.add_sub_cancel_left]
  by_cases hw : r.writable (lineStart (offset + i)) <;> simp [hw]

theorem lands_leaves_iff (offset len : Nat) (data : List UInt8) :
    Lands r (r.leaves mem offset data) offset data len ↔ Lands r mem offset data len := by
  refine forall₃_congr fun i _ hdata => ?_
  rw [r.leaves_of_mem mem ⟨by omega, by omega⟩, Nat.add_sub_cancel_left]
  by_cases hw : r.writable (lineStart (offset + i)) <;> simp [hw]

def checkLen (data : List UInt8) : Nat :=
  match r.build with
  | .bareMetal => data.length
  | .std _ => alignment

theorem checkSlice_ok (hroom : r.Room offset) (data : List UInt8) (mem : Memory) :
    r.checkSlice offset data mem = .ok (bytesAt mem offset (r.checkLen data)) mem := by
  cases hb : r.build with
  | bareMetal => simp [checkSlice, checkLen, hb]
  | std ranges =>
    simp only [Room, hb] at hroom
    obtain ⟨range, hget, hle⟩ := hroom
    simp [checkSlice, checkLen, hb, array, hget, hle, Prog.assert, bind_apply]

theorem writeSliceRetry_eq (hroom : r.Room offset) (hreg : r.Registered offset data) (mem : Memory) :
    (Lands r mem offset data (r.checkLen data) →
      r.writeSliceRetry offset data mem = .ok data.length (r.leaves mem offset data)) ∧
    (¬ Lands r mem offset data (r.checkLen data) →
      ∃ mem', r.writeSliceRetry offset data mem = .err .internalError mem') := by
  have hpass : ∀ (attempts : Nat) (m : Memory), (Lands r m offset data (r.checkLen data) →
        r.writeAttempts offset data (attempts + 1) m = .ok data.length (r.leaves m offset data)) ∧
      (¬ Lands r m offset data (r.checkLen data) → r.writeAttempts offset data (attempts + 1) m =
          r.writeAttempts offset data attempts (r.leaves m offset data)) := by
    intro attempts m
    have hcheck := check_iff (r.leaves m offset data) offset (r.checkLen data) data
    rw [r.leaves_check_iff] at hcheck
    constructor
    · intro h
      simp only [writeAttempts, bind_apply, attempt, r.writeSliceInner_ok hroom hreg, r.checkSlice_ok hroom,
        if_pos (hcheck.mpr h), pure_apply]
    · intro h
      simp only [writeAttempts, bind_apply, attempt, r.writeSliceInner_ok hroom hreg, r.checkSlice_ok hroom,
        if_neg (mt hcheck.mp h)]
  constructor
  · intro hlands
    exact (hpass 1 mem).1 hlands
  · intro hlands
    refine ⟨r.leaves (r.leaves mem offset data) offset data, ?_⟩
    rw [writeSliceRetry, (hpass 1 mem).2 hlands,
      (hpass 0 _).2 fun h => hlands ((r.lands_leaves_iff mem offset _ data).mp h)]
    rfl

/-- Without the operating system an `Ok` means what it says, for every offset and length. -/
theorem faithful_of_bareMetal (hb : r.build = .bareMetal) (mem : Memory) (offset : Nat) (data : List UInt8) :
    Faithful (r.writeSliceRetry offset data) mem offset data := by
  have hroom : r.Room offset := by simp [Room, hb]
  have hreg : r.Registered offset data := by simp [Registered, hb]
  obtain ⟨hok, herr⟩ := r.writeSliceRetry_eq hroom hreg mem
  by_cases hlands : Lands r mem offset data (r.checkLen data)
  · rw [faithful_ok_iff (hok hlands)]
    intro a
    by_cases hin : offset ≤ a ∧ a < offset + data.length
    · have hcheck := (r.leaves_check_iff mem offset _ data).mpr hlands (a - offset)
        (by simp only [checkLen, hb]; omega) (by omega)
      rwa [if_pos hin, ← Nat.add_sub_cancel' hin.1, Nat.add_sub_cancel_left]
    · rw [if_neg hin, r.leaves_of_bareMetal hb mem hin]
  · obtain ⟨mem', hfail⟩ := herr hlands
    simp [Faithful, hfail]

section

variable {ranges : List Range} (hb : r.build = .std ranges)

include hb mem

/-- What a pass leaves is what was asked for exactly if all of the data lands and both ends are kept. -/
theorem leaves_eq_iff (offset : Nat) (data : List UInt8) (hlands : Lands r mem offset data alignment) :
    (∀ a, r.leaves mem offset data a =
        if offset ≤ a ∧ a < offset + data.length then data.getD (a - offset) 0 else mem a) ↔
      Lands r mem offset data data.length ∧ StartKept r mem offset data ∧ EndKept r mem offset data := by
  have hsource : ∀ line, r.source offset line = offset := fun line => by simp only [source, hb]
  -- the rest of the last line comes from bytes that were verified, or that no line write has reached
  have htail : ∀ a, r.upTo mem offset data (lineStart (offset + data.length)) (offset + a % alignment) =
      if offset + a % alignment < lineStart (offset + data.length) then data.getD (a % alignment) 0
      else mem (offset + a % alignment) := by
    intro a
    have hmod : a % alignment < alignment := Nat.mod_lt _ (by decide)
    have hle := lineStart_le (offset + data.length)
    simp only [upTo, Nat.add_sub_cancel_left]
    by_cases hlt : offset + a % alignment < lineStart (offset + data.length)
    · rw [if_pos hlt]
      rcases hlands (a % alignment) hmod (by omega) with hw | hold
      · rw [if_pos ⟨by omega, hlt, hw⟩]
      · rw [hold]
        exact ite_self _
    · rw [if_neg hlt, if_neg (fun h => hlt h.2.1)]
  have hstartEnd : ∀ a, lineStart a = lineStart (offset + data.length) →
      offset ≤ lineStart (offset + data.length) → ¬ (offset ≤ a ∧ a < offset + data.length) →
      offset + data.length ≤ a := by
    intro a hline hle hout
    have := lineStart_le a
    omega
  constructor
  · intro h
    refine ⟨(r.leaves_check_iff mem offset _ data).mp fun i hi _ => ?_, ?_, ?_⟩
    · rw [h, if_pos ⟨by omega, by omega⟩, Nat.add_sub_cancel_left]
    · intro hragged hw a hline hout
      have ha := h a
      rwa [if_neg hout, leaves, if_neg hout, if_pos ⟨hragged, hline, hw⟩, hsource] at ha
    · intro hragged hle hw a hline hout
      have hdata : ¬ (offset ≤ a ∧ a < offset + data.length) := by omega
      have hne : ¬ (offset % alignment ≠ 0 ∧ lineStart a = lineStart offset ∧ r.writable (lineStart offset)) := by
        rintro ⟨hrag, hsame, -⟩
        have := lineStart_add_mod offset
        omega
      have ha := h a
      rwa [if_neg hdata, leaves, if_neg hdata, if_neg hne, if_pos ⟨hragged, hle, hline, hw⟩, hsource, htail] at ha
  · rintro ⟨hall, hstart, hend⟩ a
    by_cases hin : offset ≤ a ∧ a < offset + data.length
    · have hcheck := (r.leaves_check_iff mem offset _ data).mpr hall (a - offset) (by omega) (by omega)
      rwa [if_pos hin, ← Nat.add_sub_cancel' hin.1, Nat.add_sub_cancel_left]
    · rw [if_neg hin, leaves, if_neg hin]
      split
      · rename_i h
        rw [hsource]
        exact hstart h.1 h.2.2 a h.2.1 hin
      · split
        · rename_i h
          rw [hsource, htail]
          exact hend h.1 h.2.1 h.2.2.2 a h.2.2.1 (hstartEnd a h.2.2.1 h.2.1 hin)
        · rfl

theorem faithful_of_unmapped {offset : Nat}
    {data : List UInt8} (hnone : rangeGet ranges offset = none) (hlen : data.length = 0) :
    Faithful (r.writeSliceRetry offset data) mem offset data := by
  have harray : ∀ m, array ranges offset m = .err .accessDenied m := fun m => by simp [array, hnone]
  have hfail : ∃ e, r.writeSliceRetry offset data mem = .err e mem := by
    by_cases hragged : offset % alignment = 0
    · have hinner : r.writeSliceInner offset data mem = .ok 0 mem := by
        simp [writeSliceInner, hragged, Prog.when, bind_apply, writeChunks, hlen]
      refine ⟨.accessDenied, ?_⟩
      simp only [writeSliceRetry, writeAttempts, bind_apply, attempt, hinner, checkSlice, hb, harray]
    · have hne : (alignment - offset % alignment) % alignment ≠ 0 := by
        simp only [alignment] at hragged ⊢
        omega
      have hinner : r.writeSliceInner offset data mem = .err .accessDenied mem := by
        simp [writeSliceInner, hne, Prog.when, bind_apply, destSlice, hb, harray]
      refine ⟨.internalError, ?_⟩
      simp only [writeSliceRetry, writeAttempts, bind_apply, attempt, hinner, fail_apply]
  obtain ⟨e, hfail⟩ := hfail
  simp [Faithful, hfail]

/-- A slice with less than a line's worth of bytes between its offset and the end of the range. -/
theorem panics_of_no_room {offset : Nat} (data : List UInt8) {range : Range} (hget : rangeGet ranges offset = some range)
    (hroom : ¬ offset + alignment ≤ range.stop) : r.writeSliceRetry offset data mem = .panic := by
  have hragged : offset % alignment ≠ 0 := fun h => hroom (line_le_stop hget h)
  have hne : (alignment - offset % alignment) % alignment ≠ 0 := by
    simp only [alignment] at hragged ⊢
    omega
  have hinner : r.writeSliceInner offset data mem = .panic := by
    simp [writeSliceInner, hne, Prog.when, bind_apply, destSlice, hb, array, hget, hroom, Prog.assert]
  simp only [writeSliceRetry, writeAttempts, bind_apply, attempt, hinner]

theorem faithful_std_iff (offset : Nat) (data : List UInt8) (hreg : r.Registered offset data) :
    Faithful (r.writeSliceRetry offset data) mem offset data ↔ Kept r mem offset data ranges := by
  cases hget : rangeGet ranges offset with
  | none =>
    have hlen : data.length = 0 := by
      by_contra hne
      simp only [Registered, hb] at hreg
      have := hreg offset le_rfl (by omega)
      rw [hget] at this
      exact absurd this (by nofun)
    refine ⟨fun _ range h => ?_, fun _ => r.faithful_of_unmapped mem hb hget hlen⟩
    rw [hget] at h
    cases h
  | some range =>
    by_cases hstop : offset + alignment ≤ range.stop
    · have hroom : r.Room offset := by
        simp only [Room, hb]
        exact ⟨range, hget, hstop⟩
      have hcheckLen : r.checkLen data = alignment := by simp only [checkLen, hb]
      obtain ⟨hok, herr⟩ := r.writeSliceRetry_eq hroom hreg mem
      rw [hcheckLen] at hok herr
      have hkept : Kept r mem offset data ranges ↔ (Lands r mem offset data alignment →
          Lands r mem offset data data.length ∧ StartKept r mem offset data ∧ EndKept r mem offset data) := by
        constructor
        · intro h
          exact (h range hget).2
        · intro h range' hget'
          rw [hget] at hget'
          cases hget'
          exact ⟨hstop, h⟩
      rw [hkept]
      by_cases hlands : Lands r mem offset data alignment
      · rw [← r.leaves_eq_iff mem hb offset data hlands, faithful_ok_iff (hok hlands)]
        exact ⟨fun h _ => h, fun h => h hlands⟩
      · obtain ⟨mem', hfail⟩ := herr hlands
        simp [Faithful, hfail, hlands]
    · constructor
      · intro h
        exact absurd (r.panics_of_no_room mem hb data hget hstop) h.1
      · intro h
        exact absurd (h range hget).1 hstop

end

end Reram

/-- The condition for both builds. -/
def Reram.Keeps (mem : Memory) (offset : Nat) (data : List UInt8) : Prop :=
  match r.build with
  | .bareMetal => True
  | .std ranges => Kept r mem offset data ranges

theorem Reram.boundedWrite_eq {first last : Nat} (hlast : last < 2 ^ 32)
    (hlo : first ≤ offset) (hhi : offset + data.length ≤ last) :
    r.boundedWrite first last offset data = r.writeSliceRetry offset data := by
  rw [boundedWrite, if_neg (by omega), if_neg (by omega)]

theorem Reram.faithful_iff (mem : Memory) (offset : Nat) (data : List UInt8)
    (hreg : r.Registered offset data) :
    Faithful (r.writeSliceRetry offset data) mem offset data ↔ r.Keeps mem offset data := by
  cases hb : r.build with
  | bareMetal =>
    simp only [Keeps, hb, iff_true]
    exact r.faithful_of_bareMetal hb mem offset data
  | std ranges =>
    simp only [Keeps, hb]
    exact r.faithful_std_iff mem hb offset data hreg

/-- For every offset and slice that an entry point accepts, in both builds and with any ranges that
hold the write, `Ok` means that exactly the slice was written, without a panic, if and only if the
write keeps what it completes the lines with. -/
theorem write_faithful_iff (r : Reram) (mem : Memory) (offset : Nat) (data : List UInt8)
    (hreg : r.Registered offset data) :
    (boot1Start - hwReramMem ≤ offset → offset + data.length ≤ rramStorageLen →
      (Faithful (r.writeSlice offset data) mem offset data ↔ r.Keeps mem offset data)) ∧
    (rramStorageLen ≤ offset → offset + data.length ≤ hwReramMemLen →
      (Faithful (r.protectedWriteSlice offset data) mem offset data ↔ r.Keeps mem offset data)) := by
  constructor
  · intro hlo hhi
    rw [Reram.writeSlice, r.boundedWrite_eq (by decide) hlo hhi]
    exact r.faithful_iff mem offset data hreg
  · intro hlo hhi
    rw [Reram.protectedWriteSlice, r.boundedWrite_eq (by decide) hlo hhi]
    exact r.faithful_iff mem offset data hreg

/-- The whole array in one range, with every line writable. -/
def mapped : Reram where
  build := .std [⟨0, hwReramMemLen, by decide, by decide⟩]
  writable _ := true

def counting : Memory := UInt8.ofNat

theorem registered_mapped (h : offset + data.length ≤ hwReramMemLen) : mapped.Registered offset data := by
  intro a _ hhi
  have hlt : a < hwReramMemLen := by omega
  simp [rangeGet, hlt]

def raggedSlice : List UInt8 := List.replicate 13 7 ++ List.replicate 27 0

/-- A slice that starts and ends inside of lines, over a memory of zeros. -/
theorem ragged_slice_faithful : mapped.Registered 0x20005 raggedSlice ∧
    Faithful (mapped.writeSlice 0x20005 raggedSlice) (fun _ => 0) 0x20005 raggedSlice := by
  have hreg : mapped.Registered 0x20005 raggedSlice := registered_mapped (by decide)
  refine ⟨hreg, ((write_faithful_iff mapped (fun _ => 0) 0x20005 raggedSlice hreg).1 (by decide)
    (by decide)).mpr fun range hget => ?_⟩
  obtain rfl := List.mem_singleton.mp (List.mem_of_find?_eq_some hget)
  refine ⟨by decide, fun _ => ⟨fun _ _ _ => .inl rfl, fun _ _ _ _ _ => rfl, fun _ _ _ a hline hle => ?_⟩⟩
  -- the end of the last line is completed with zeros of the slice
  have hzero : ∀ i < 32, 13 ≤ i → raggedSlice.getD i 0 = 0 := by decide
  have hline : a - a % alignment = 0x20020 := hline
  have hle : 0x2002D ≤ a := hle
  split_ifs
  · exact hzero _ (Nat.mod_lt _ (by decide)) (by omega)
  · rfl

/-- One byte in the middle of a line: the first byte of the line becomes the byte at the offset. -/
theorem not_faithful_single_byte :
    ¬ Faithful (mapped.writeSlice 0x20005 [0xFF]) counting 0x20005 [0xFF] := by
  have hreg : mapped.Registered 0x20005 [0xFF] := registered_mapped (by decide)
  rw [Reram.writeSlice, mapped.boundedWrite_eq (by decide) (by decide) (by decide),
    mapped.faithful_iff counting 0x20005 [0xFF] hreg]
  intro h
  obtain ⟨-, hkept⟩ := h ⟨0, hwReramMemLen, by decide, by decide⟩ (by simp [rangeGet, hwReramMemLen])
  obtain ⟨-, hstart, -⟩ := hkept fun i _ _ => .inl rfl
  have hfirst := hstart (by decide) rfl 0x20000 (by decide) (by decide)
  exact absurd hfirst (by decide)

end BaochipXous.Rram
