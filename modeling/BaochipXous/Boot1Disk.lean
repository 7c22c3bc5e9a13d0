import BaochipXous.Rram

/-!
The disk that the second boot stage presents over USB: free RAM, then a few sectors that look like
an empty file system. A command comes in a packet of 31 bytes, its data through a buffer of 8 KiB.
What the host writes is also given to the updater, a parameter.
-/

namespace BaochipXous.Boot1

open Prog Rram

def sectorSize : Nat := 512

def ramdiskLen : Nat := 128 * 1024 * 1024

def appBufLen : Nat := 4096 * 2

def ramSize : Nat := 2097152

def dataSizeBytes : Nat := 0x6000

def heapLen : Nat := 1024 * 256

def stackLen : Nat := 128 * 1024

/-- `FREE_MEM_LEN`, the RAM behind the disk: what is left after data, heap, scratch pages and stack. -/
def freeMemLen : Nat := ramSize - (dataSizeBytes + heapLen + 4096 + 16384) - stackLen

/-- The bytes of a block, the first one written first. -/
def blockBytes (block : Nat) : List UInt8 := (List.range 32).map fun i => .ofNat (block >>> (8 * (31 - i)))

/-- The blocks past the RAM that are not zero. -/
def sparseFileData : List (Nat × List UInt8) :=
  [
    (0x243c00, 0xf8ffff0fffffffffffffff0fffffff0fffffff0fffffff0f0000000000000000),
    (0x329e00, 0xf8ffff0fffffffffffffff0fffffff0fffffff0fffffff0f0000000000000000),
    (0x410000, 0x42414f43484950202020200800000000000000000000997b3e5b000000000000),
    (0x410020, 0x42200049006e0066006f000f007272006d006100740069006f0000006e000000),
    (0x410040, 0x01530079007300740065000f00726d00200056006f006c00750000006d006500),
    (0x410060, 0x53595354454d7e312020201600b7987b3e5b3e5b0000997b3e5b030000000000),
    (0x410200, 0x2e202020202020202020201000b7987b3e5b3e5b0000997b3e5b030000000000),
    (0x410220, 0x2e2e2020202020202020201000b7987b3e5b3e5b0000997b3e5b000000000000),
    (0x410240, 0x4274000000ffffffffffff0f00ceffffffffffffffffffffffff0000ffffffff),
    (0x410260, 0x01570050005300650074000f00ce740069006e00670073002e00000064006100),
    (0x410280, 0x5750534554547e314441542000b8987b3e5b3e5b0000997b3e5b04000c000000),
    (0x4102a0, 0x42470075006900640000000f00ffffffffffffffffffffffffff0000ffffffff),
    (0x4102c0, 0x0149006e006400650078000f00ff6500720056006f006c00750000006d006500),
    (0x4102e0, 0x494e444558457e312020202000bc9a7b3e5b3e5b00009b7b3e5b05004c000000),
    (0x410400, 0x0c000000a1c28e0b208391540000000000000000000000000000000000000000),
    (0x410600, 0x7b00430046004100350043004500300043002d0034003700350043002d003400),
    (0x410620, 0x4400340031002d0039003300300036002d004400410044003000450045004300),
    (0x410640, 0x410039004500390031007d000000000000000000000000000000000000000000)].map fun (addr, block) => (addr, blockBytes block)

/-- The name of the volume in the build that updates this stage itself. -/
def altName : List UInt8 := [0x41, 0x4c, 0x54]

def overlay (mem : Memory) (start : Nat) (bytes : List UInt8) : Memory := fun a =>
  if start ≤ a ∧ a < start + bytes.length then bytes.getD (a - start) 0 else mem a

/-- One block of the table: its part of the window is copied, from the start of the block on. -/
def sparseStep (alt : Bool) (offset len : Nat) (dest : Memory) (entry : Nat × List UInt8) : Memory :=
  let (addr, block) := entry
  if addr + block.length ≤ offset ∨ addr ≥ offset + len then dest
  else
    let start := addr - offset
    let dest := overlay dest start (block.take (min (len - start) block.length))
    if alt ∧ 0x410000 ≤ addr ∧ addr ≤ 0x410002 then
      overlay dest start ((altName.drop (addr - 0x410000)).take (len - start))
    else dest

def fillSparseData {σ : Type} (alt : Bool) (len offset : Nat) : Prog Empty σ Memory :=
  foldEach sparseFileData (fun _ => 0) fun dest entry => do
    assert (offset % entry.2.length == 0)
    pure (sparseStep alt offset len dest entry)

structure Cbw where
  signature : Nat
  tag : Nat
  dataTransferLength : Nat
  flags : UInt8
  cdb : List UInt8

def le32 (bytes : List UInt8) (i : Nat) : Nat :=
  (bytes.getD i 0).toNat + (bytes.getD (i + 1) 0).toNat * 2 ^ 8 + (bytes.getD (i + 2) 0).toNat * 2 ^ 16 +
    (bytes.getD (i + 3) 0).toNat * 2 ^ 24

def Cbw.ofBytes (buf : List UInt8) : Cbw where
  signature := le32 buf 0
  tag := le32 buf 4
  dataTransferLength := le32 buf 8
  flags := buf.getD 12 0
  cdb := (buf.drop 15).take 16

def bulkCbwSig : Nat := 0x43425355

def Cbw.byte (cbw : Cbw) (i : Nat) : Nat := (cbw.cdb.getD i 0).toNat

/-- The direction bit: the host wants data. -/
def Cbw.dataIn (cbw : Cbw) : Bool := cbw.flags &&& 0x80 != 0

/-- A command status wrapper, without its signature. -/
structure Csw where
  tag : Nat
  residue : Nat
  status : Nat

inductive UmsState where
  | idle
  | commandPhase
  | dataPhase
  | statusPhase

/-- What the endpoints of the disk were last set up for. -/
inductive Transfer where
  | none
  /-- Data for the host, from the transfer buffer or from the buffer for short answers. -/
  | send (bytes : List UInt8)
  | sendCsw (csw : Csw)
  | recvCommand
  | recvData (len : Nat)

/-- The driver's state, the RAM behind the disk, and the state of the updater. -/
structure Device (σ : Type) where
  disk : Memory
  appBuf : Memory
  msState : UmsState
  remainingRd : Option (Nat × Nat)
  callbackWr : Option (Nat × Nat)
  remainingWr : Option (Nat × Nat)
  csw : Csw
  transfer : Transfer
  updater : σ

abbrev DeviceM (σ : Type) := Prog Empty (Device σ)

/-- The updater's look at a piece of what the host writes, with its place on the disk. -/
abbrev Sink (σ : Type) := Nat → List UInt8 → Prog Empty σ Unit

variable {σ : Type}

def setTransfer (transfer : Transfer) : DeviceM σ Unit := modify fun d => { d with transfer := transfer }

def setMsState (state : UmsState) : DeviceM σ Unit := modify fun d => { d with msState := state }

def updateHw (f : Csw → Csw) : DeviceM σ Unit := modify fun d => { d with csw := f d.csw }

def sendCsw (residue status : Nat) : DeviceM σ Unit := do
  updateHw fun csw => { csw with residue := residue, status := status }
  setTransfer (.sendCsw (← gets Device.csw))
  setMsState .statusPhase

/-- Addresses on the disk are `usize`, and sums of them wrap. -/
def wrap (n : Nat) : Nat := n % 2 ^ 32

def setupBigRead (alt : Bool) (offset length : Nat) : DeviceM σ Unit := do
  let actualLen := min length appBufLen
  let remainingLen := if length ≤ appBufLen then 0 else length - actualLen
  modify fun d =>
    { d with
      remainingRd := if remainingLen > 0 then some (wrap (offset + actualLen), remainingLen) else none }
  if wrap (offset + actualLen) < freeMemLen then do
    assert (offset ≤ wrap (offset + actualLen))
    modify fun d => { d with appBuf := overlay d.appBuf 0 (bytesAt d.disk offset actualLen) }
  else do
    let dest ← fillSparseData alt actualLen offset
    modify fun d => { d with appBuf := overlay d.appBuf 0 (bytesAt dest 0 actualLen) }
  setTransfer (.send (bytesAt (← gets Device.appBuf) 0 actualLen))

def setupBigWrite (toOffset totalLength : Nat) : DeviceM σ Unit := do
  let actualLen := min totalLength appBufLen
  let remainingLen := if totalLength ≤ appBufLen then 0 else totalLength - actualLen
  modify fun d =>
    { d with
      remainingWr := if remainingLen > 0 then some (wrap (toOffset + actualLen), remainingLen) else none }
  setTransfer (.recvData actualLen)
  modify fun d => { d with callbackWr := some (toOffset, actualLen) }

def processRequestSense (cbw : Cbw) : DeviceM σ Unit :=
  if cbw.dataTransferLength = 0 then sendCsw 0 0
  else if cbw.dataIn then do
    setTransfer (.send (List.replicate (min cbw.dataTransferLength 18) 0))
    setMsState .dataPhase
    updateHw fun csw => { csw with residue := cbw.dataTransferLength - 18, status := 0 }
  else pure ()

def inquiryData : List UInt8 :=
  [0, 0, 0, 1, 31, 0, 0, 0] ++ "Bao SemiUSB update vdiskdemo".toList.map fun c => c.toUInt8

/-- A short buffer gets zeros. -/
def processInquiryCommand (cbw : Cbw) : DeviceM σ Unit :=
  if cbw.dataTransferLength = 0 then sendCsw 0 0
  else if cbw.dataIn then do
    setTransfer (.send
      (if cbw.dataTransferLength < 36 then List.replicate cbw.dataTransferLength 0 else inquiryData))
    setMsState .dataPhase
    updateHw fun csw => { csw with residue := cbw.dataTransferLength - 36, status := 0 }
  else pure ()

def toBe (n value : Nat) : List UInt8 := (List.range n).reverse.map fun i => UInt8.ofNat (value / 256 ^ i)

def processReportCapacity (cbw : Cbw) : DeviceM σ Unit := do
  if cbw.dataIn then do
    setTransfer (.send (toBe 4 (ramdiskLen / sectorSize - 1) ++ toBe 4 sectorSize))
    setMsState .dataPhase
  else do
    setTransfer (.sendCsw (← gets Device.csw))
    setMsState .statusPhase
  updateHw fun csw => { csw with residue := 0, status := 0 }

def processReadCapacity16 : DeviceM σ Unit := do
  setTransfer (.send (toBe 8 (ramdiskLen / sectorSize - 1) ++ toBe 4 sectorSize ++ List.replicate 20 0))
  setMsState .dataPhase

def processUnsupportedCommand (cbw : Cbw) : DeviceM σ Unit :=
  if cbw.dataIn then do
    setTransfer (.send [])
    setMsState .dataPhase
    updateHw fun csw => { csw with residue := 0, status := 0 }
  else sendCsw 0 0

/-- The sector of a READ(10) or WRITE(10): two bytes of it. -/
def Cbw.lba10 (cbw : Cbw) : Nat := cbw.byte 4 * 2 ^ 8 + cbw.byte 5

def Cbw.length10 (cbw : Cbw) : Nat := (cbw.byte 7 * 2 ^ 8 + cbw.byte 8) * sectorSize

def Cbw.lba32 (cbw : Cbw) : Nat :=
  cbw.byte 2 * 2 ^ 24 + cbw.byte 3 * 2 ^ 16 + cbw.byte 4 * 2 ^ 8 + cbw.byte 5

def Cbw.count12 (cbw : Cbw) : Nat :=
  cbw.byte 6 * 2 ^ 24 + cbw.byte 7 * 2 ^ 16 + cbw.byte 8 * 2 ^ 8 + cbw.byte 9

def processReadCommand (alt : Bool) (cbw : Cbw) : DeviceM σ Unit :=
  if !cbw.dataIn then do
    setupBigWrite (cbw.lba10 * sectorSize) cbw.length10
    setMsState .dataPhase
    updateHw fun csw => { csw with residue := cbw.dataTransferLength, status := 2 }
  else if cbw.dataTransferLength = 0 then sendCsw 0 2
  else if cbw.dataTransferLength < cbw.length10 then do
    setupBigRead alt (cbw.lba10 * sectorSize) cbw.dataTransferLength
    setMsState .dataPhase
    updateHw fun csw => { csw with residue := cbw.dataTransferLength, status := 1 }
  else do
    setupBigRead alt (cbw.lba10 * sectorSize) cbw.length10
    setMsState .dataPhase
    updateHw fun csw =>
      { csw with
        residue := cbw.dataTransferLength - cbw.length10
        status := if cbw.dataTransferLength > cbw.length10 then 1 else 0 }

/-- What WRITE(10) and WRITE(12) have in common. The length of the command matters only for what the
host is told afterwards. -/
def processWrite (alt : Bool) (cbw : Cbw) (offset length longStatus shortStatus : Nat) : DeviceM σ Unit :=
  if cbw.dataIn then do
    setupBigRead alt offset length
    setMsState .dataPhase
    updateHw fun csw => { csw with residue := cbw.dataTransferLength, status := 2 }
  else if cbw.dataTransferLength = 0 then sendCsw 0 2
  else do
    setupBigWrite offset cbw.dataTransferLength
    setMsState .dataPhase
    updateHw fun csw =>
      if cbw.dataTransferLength > length then
        { csw with residue := cbw.dataTransferLength - length, status := longStatus }
      else if cbw.dataTransferLength < length then
        { csw with residue := cbw.dataTransferLength, status := shortStatus }
      else { csw with residue := 0, status := 0 }

def processWriteCommand (alt : Bool) (cbw : Cbw) : DeviceM σ Unit :=
  processWrite alt cbw (cbw.lba10 * sectorSize) cbw.length10 1 1

def processWrite12Command (alt : Bool) (cbw : Cbw) : DeviceM σ Unit :=
  processWrite alt cbw (wrap (cbw.lba32 * sectorSize)) (wrap (cbw.count12 * sectorSize)) 0 2

def processMassStorageCommand (alt : Bool) (cbw : Cbw) : DeviceM σ Unit :=
  match cbw.byte 0 with
  | 0x00 => sendCsw 0 0
  | 0x03 => processRequestSense cbw
  | 0x12 => processInquiryCommand cbw
  | 0x1E => sendCsw 0 0
  | 0x25 => processReportCapacity cbw
  | 0x9e => processReadCapacity16
  | 0x28 => processReadCommand alt cbw
  | 0x2A => processWriteCommand alt cbw
  | 0xAA => processWrite12Command alt cbw
  | _ => processUnsupportedCommand cbw

/-- The pieces of a buffer that the updater looks at, each with its place. -/
def pieces (buffer : Memory) (offset : Nat) : Nat → Nat → List (Nat × List UInt8)
  | 0, _ => []
  | fuel + 1, len =>
    if len = 0 then []
    else (wrap offset, bytesAt buffer 0 (min len sectorSize)) ::
      pieces (fun a => buffer (a + sectorSize)) (offset + sectorSize) fuel (len - sectorSize)

def acceptData (sink : Sink σ) (writeOffset len : Nat) : DeviceM σ Unit := do
  let appBuf ← gets Device.appBuf
  forEach (pieces appBuf writeOffset len len) fun piece =>
    zoom Device.updater (fun d s => { d with updater := s }) (sink piece.1 piece.2)
  when (decide (writeOffset + len < 2 ^ 32) && decide (writeOffset + len < freeMemLen)) do
    modify fun d => { d with disk := overlay d.disk writeOffset (bytesAt d.appBuf 0 len) }
  match ← gets Device.remainingWr with
  | some (offset, remainingLen) => do
    setupBigWrite offset remainingLen
    setMsState .dataPhase
  | none => sendCsw 0 0

def bulkOutComplete (alt : Bool) (sink : Sink σ) (buf : List UInt8) : DeviceM σ Unit := do
  match ← gets Device.msState with
  | .commandPhase =>
    if buf.length = 31 ∧ (Cbw.ofBytes buf).signature = bulkCbwSig then do
      updateHw fun csw => { csw with tag := (Cbw.ofBytes buf).tag }
      processMassStorageCommand alt (Cbw.ofBytes buf)
    else setTransfer .none
  | .dataPhase =>
    match ← gets Device.callbackWr with
    | some (writeOffset, len) => do
      modify fun d => { d with callbackWr := none }
      acceptData sink writeOffset len
    | none => pure ()
  | _ => pure ()

def bulkInComplete (alt : Bool) (length : Nat) : DeviceM σ Unit := do
  match ← gets Device.msState with
  | .dataPhase =>
    match ← gets Device.remainingRd with
    | some (offset, len) => do
      modify fun d => { d with remainingRd := none }
      setupBigRead alt offset len
      setMsState .dataPhase
    | none => do
      setTransfer (.sendCsw (← gets Device.csw))
      setMsState .statusPhase
  | .statusPhase =>
    when (length == 13) do
      setTransfer .recvCommand
      setMsState .commandPhase
  | _ => pure ()

/-- The host lets a transfer complete: what it sends goes to the transfer buffer, what the disk
sends in the data phase is handed on. -/
def complete (alt : Bool) (sink : Sink σ) (data : List UInt8) : DeviceM σ (List UInt8) := do
  match ← gets Device.transfer with
  | .none => pure []
  | .send bytes => do
    bulkInComplete alt bytes.length
    pure bytes
  | .sendCsw _ => do
    bulkInComplete alt 13
    pure []
  | .recvCommand => do
    bulkOutComplete alt sink data
    pure []
  | .recvData _ => do
    modify fun d => { d with appBuf := overlay d.appBuf 0 data }
    bulkOutComplete alt sink data
    pure []

/-- The host sends its data in pieces as long as the disk asks for, keeps what it gets, and stops
with the status. -/
def transact (alt : Bool) (sink : Sink σ) : Nat → List UInt8 → DeviceM σ (List UInt8)
  | 0, _ => pure []
  | fuel + 1, data => do
    match ← gets Device.transfer with
    | .recvData len => do
      let _ ← complete alt sink (data.take len)
      transact alt sink fuel (data.drop len)
    | .send _ => do
      let bytes ← complete alt sink []
      let rest ← transact alt sink fuel data
      pure (bytes ++ rest)
    | .sendCsw _ => complete alt sink []
    | _ => pure []

/-- A command: its packet, and the data the host sends. -/
structure Command where
  packet : List UInt8
  data : List UInt8

open Command

namespace Command

variable (c : Command)

def cbw : Cbw := Cbw.ofBytes c.packet

def start : Nat := c.cbw.lba32 * sectorSize

def len : Nat :=
  match c.cbw.byte 0, c.cbw.dataIn with
  | 0x28, true => min c.cbw.dataTransferLength c.cbw.length10
  | 0x28, false => c.cbw.length10
  | 0x2A, true => c.cbw.length10
  | 0xAA, true => c.cbw.count12 * sectorSize
  | _, _ => c.cbw.dataTransferLength

/-- A READ(10), WRITE(10) or WRITE(12) of sectors below the capacity, with as much data as it transfers. -/
structure Valid : Prop where
  length : c.packet.length = 31
  signature : c.cbw.signature = bulkCbwSig
  opcode : c.cbw.byte 0 = 0x28 ∨ c.cbw.byte 0 = 0x2A ∨ c.cbw.byte 0 = 0xAA
  inside : c.start + c.len ≤ ramdiskLen
  data : c.cbw.dataIn = false → c.data.length = c.len

/-- The command can name the sector, and no piece of the transfer reaches the end of the RAM from
inside. -/
structure Plain : Prop where
  sector : c.cbw.byte 0 = 0xAA ∨ c.cbw.lba32 < 2 ^ 16 ∨ c.len = 0
  pieces : ∀ k, appBufLen * k < c.len →
    c.start + appBufLen * k + min (c.len - appBufLen * k) appBufLen < freeMemLen ∨
      freeMemLen ≤ c.start + appBufLen * k

end Command

def runCommand (alt : Bool) (sink : Sink σ) (c : Command) : DeviceM σ (List UInt8) := do
  let _ ← complete alt sink c.packet
  transact alt sink (c.len / appBufLen + 2) c.data

def synthesised (alt : Bool) (x : Nat) : UInt8 :=
  sparseFileData.foldl (fun v entry =>
    if entry.1 ≤ x ∧ x < entry.1 + entry.2.length then
      if alt ∧ entry.1 = 0x410000 ∧ x < 0x410003 then altName.getD (x - 0x410000) 0
      else entry.2.getD (x - entry.1) 0
    else v) 0

/-- The disk as the host should see it after it wrote `host`: sectors that lie in the RAM as a whole
hold it, the others are made up. -/
def view (alt : Bool) (host : Memory) : Memory := fun x =>
  if (x / sectorSize + 1) * sectorSize ≤ freeMemLen then host x else synthesised alt x

/-- The commands come back one after another, each read with the sectors it asks for. -/
def Serves (alt : Bool) (sink : Sink σ) (d : Device σ) (host : Memory) : List Command → Prop
  | [] => True
  | c :: rest => ∃ out d', runCommand alt sink c d = .ok out d' ∧
      (c.cbw.dataIn → out = bytesAt (view alt host) c.start c.len) ∧
      Serves alt sink d' (if c.cbw.dataIn then host else overlay host c.start c.data) rest

/-- The byte at a place of the disk, with one block of the table over what was there. -/
def sparseByte (alt : Bool) (x : Nat) (v : UInt8) (entry : Nat × List UInt8) : UInt8 :=
  if entry.1 ≤ x ∧ x < entry.1 + entry.2.length then
    if alt ∧ entry.1 = 0x410000 ∧ x < 0x410003 then altName.getD (x - 0x410000) 0
    else entry.2.getD (x - entry.1) 0
  else v

variable (alt : Bool)

theorem sparseStep_spec {offset len i : Nat} (hoffset : offset % 32 = 0) (hi : i < len)
    (dest : Memory) {entry : Nat × List UInt8} (hlen : entry.2.length = 32) (haddr : entry.1 % 32 = 0) :
    sparseStep alt offset len dest entry i = sparseByte alt (offset + i) (dest i) entry := by
  obtain ⟨addr, block⟩ := entry
  simp only at hlen haddr
  rw [sparseStep, sparseByte, hlen]
  by_cases hout : addr + 32 ≤ offset ∨ addr ≥ offset + len
  · rw [if_pos hout, if_neg (by omega)]
  · have hpos : offset + (addr - offset) = addr := by omega
    have hblock : overlay dest (addr - offset) (block.take (min (len - (addr - offset)) 32)) i =
        if addr ≤ offset + i ∧ offset + i < addr + 32 then block.getD (offset + i - addr) 0 else dest i := by
      simp only [overlay, List.length_take, hlen]
      by_cases hin : addr ≤ offset + i ∧ offset + i < addr + 32
      · rw [if_pos hin, if_pos (by omega), getD_take (by omega), show i - (addr - offset) = offset + i - addr by omega]
      · rw [if_neg hin, if_neg (by omega)]
    simp only [if_neg hout]
    by_cases halt : alt = true ∧ 0x410000 ≤ addr ∧ addr ≤ 0x410002
    · obtain ⟨hon, hlo, hhi⟩ := halt
      obtain rfl : addr = 0x410000 := by omega
      rw [if_pos ⟨hon, by decide⟩, overlay, hblock]
      simp only [Nat.sub_self, List.drop_zero, List.length_take, altName, List.length_cons, List.length_nil]
      by_cases hname : 0x410000 ≤ offset + i ∧ offset + i < 0x410003
      · rw [if_pos (by omega), if_pos (by omega), if_pos ⟨hon, trivial, hname.2⟩, getD_take (by omega),
          show i - (0x410000 - offset) = offset + i - 0x410000 by omega]
      · rw [if_neg (by omega)]
        by_cases hin : 0x410000 ≤ offset + i ∧ offset + i < 0x410000 + 32
        · rw [if_pos hin, if_pos hin, if_neg (by omega)]
        · rw [if_neg hin, if_neg hin]
    · rw [if_neg halt, hblock]
      by_cases hin : addr ≤ offset + i ∧ offset + i < addr + 32
      · rw [if_pos hin, if_pos hin, if_neg (fun h => halt ⟨h.1, by omega, by omega⟩)]
      · rw [if_neg hin, if_neg hin]

theorem fillSparseData_ok (len : Nat) {offset : Nat} (hoffset : offset % 32 = 0) (s : σ) :
    ∃ dest, fillSparseData alt len offset s = .ok dest s ∧ ∀ i < len, dest i = synthesised alt (offset + i) := by
  suffices h : ∀ (table : List (Nat × List UInt8)) (dest : Memory) (value : Nat → UInt8),
      (∀ entry ∈ table, entry.2.length = 32 ∧ entry.1 % 32 = 0) → (∀ i < len, dest i = value (offset + i)) →
      ∃ dest', foldEach table dest (fun dest entry => do
          assert (offset % entry.2.length == 0)
          pure (sparseStep alt offset len dest entry)) s = .ok dest' s ∧
        ∀ i < len, dest' i = table.foldl (sparseByte alt (offset + i)) (value (offset + i)) by
    exact h sparseFileData _ (fun _ => 0) (by decide) fun _ _ => rfl
  intro table
  induction table with
  | nil => exact fun dest value _ hdest => ⟨dest, rfl, hdest⟩
  | cons entry rest ih =>
    intro dest value htable hdest
    obtain ⟨hlen, haddr⟩ := htable entry List.mem_cons_self
    obtain ⟨dest', hrun, hdest'⟩ := ih (sparseStep alt offset len dest entry)
      (fun x => sparseByte alt x (value x) entry) (fun e he => htable e (List.mem_cons_of_mem _ he))
      (fun i hi => by rw [sparseStep_spec alt hoffset hi dest hlen haddr, hdest i hi])
    refine ⟨dest', ?_, hdest'⟩
    simpa [foldEach, bind_apply, Prog.assert, hlen, hoffset] using hrun

theorem bytesAt_congr {m m' : Memory} {a a' len : Nat} (h : ∀ i < len, m (a + i) = m' (a' + i)) :
    bytesAt m a len = bytesAt m' a' len := by simpa [bytesAt] using h

theorem bytesAt_append (m : Memory) (a len len' : Nat) :
    bytesAt m a len ++ bytesAt m (a + len) len' = bytesAt m a (len + len') := by
  simp only [bytesAt, List.range_add, List.map_append, List.map_map]
  congr 2
  funext i
  simp [Nat.add_assoc]

theorem overlay_bytesAt (m m' : Memory) (a len : Nat) :
    bytesAt (overlay m 0 (bytesAt m' a len)) 0 len = bytesAt m' a len :=
  bytesAt_congr fun i hi => by
    rw [overlay, if_pos (by simpa using hi), Nat.zero_add, Nat.sub_zero, getD_bytesAt _ _ _ _ hi]

theorem freeMemLen_eq : freeMemLen = 3240 * sectorSize := by decide

theorem view_of_lt (host : Memory) {x : Nat} (h : x < freeMemLen) : view alt host x = host x := by
  have hsector : (x / sectorSize + 1) * sectorSize ≤ freeMemLen := by
    rw [freeMemLen_eq, sectorSize] at h ⊢
    omega
  rw [view, if_pos hsector]

theorem view_of_ge (host : Memory) {x : Nat} (h : freeMemLen ≤ x) : view alt host x = synthesised alt x := by
  have hsector : ¬ (x / sectorSize + 1) * sectorSize ≤ freeMemLen := by
    rw [freeMemLen_eq, sectorSize] at h ⊢
    omega
  rw [view, if_neg hsector]

/-- A piece that the RAM holds, or that lies past it. -/
def Whole (offset len : Nat) : Prop := offset + min len appBufLen < freeMemLen ∨ freeMemLen ≤ offset

/-- What is left of a transfer after its first piece. -/
def leftOver (offset length : Nat) : Option (Nat × Nat) :=
  if length ≤ appBufLen then none else some (offset + appBufLen, length - appBufLen)

theorem wrap_of_le {n : Nat} (h : n ≤ ramdiskLen) : wrap n = n :=
  Nat.mod_eq_of_lt (lt_of_le_of_lt h (by decide))

theorem remaining_eq (offset length : Nat) :
    (if 0 < (if length ≤ appBufLen then 0 else length - min length appBufLen) then
      some (offset + min length appBufLen, if length ≤ appBufLen then 0 else length - min length appBufLen)
    else none) = leftOver offset length := by
  unfold leftOver
  by_cases hle : length ≤ appBufLen
  · simp [hle]
  · rw [if_neg hle, if_neg hle, Nat.min_eq_right (by omega), if_pos (by omega)]

section

variable (alt : Bool) (sink : Sink σ) {host : Memory} {d : Device σ} {offset length : Nat}

/-- The RAM behind the disk holds what the host wrote. -/
abbrev Device.Shows (d : Device σ) (host : Memory) : Prop := ∀ x < freeMemLen, d.disk x = host x

/-- A piece of a read is on its way to the host. -/
structure Reading (alt : Bool) (host : Memory) (offset length : Nat) (d : Device σ) : Prop where
  disk : d.Shows host
  state : d.msState = .dataPhase
  rest : d.remainingRd = leftOver offset length
  transfer : d.transfer = .send (bytesAt (view alt host) offset (min length appBufLen))

structure Writing (host : Memory) (offset length : Nat) (d : Device σ) : Prop where
  disk : d.Shows host
  state : d.msState = .dataPhase
  callback : d.callbackWr = some (offset, min length appBufLen)
  rest : d.remainingWr = leftOver offset length
  transfer : d.transfer = .recvData (min length appBufLen)

structure Answered (host : Memory) (d : Device σ) : Prop where
  disk : d.Shows host
  state : d.msState = .statusPhase
  transfer : ∃ csw, d.transfer = .sendCsw csw

structure Ready (host : Memory) (d : Device σ) : Prop where
  disk : d.Shows host
  state : d.msState = .commandPhase
  transfer : d.transfer = .recvCommand

theorem setupBigRead_ok (hdisk : d.Shows host) (halign : offset % 32 = 0)
    (hin : offset + length ≤ ramdiskLen) (hwhole : Whole offset length) :
    ∃ d', setupBigRead alt offset length d = .ok () d' ∧
      ∀ csw, Reading alt host offset length { d' with msState := .dataPhase, csw := csw } := by
  have hwrap : wrap (offset + min length appBufLen) = offset + min length appBufLen := wrap_of_le (by omega)
  simp only [setupBigRead, bind_apply, modify_apply, gt_iff_lt, hwrap, remaining_eq]
  generalize hrest : leftOver offset length = rest
  rcases hwhole with hram | hpast
  · have hview : bytesAt d.disk offset (min length appBufLen) = bytesAt (view alt host) offset (min length appBufLen) :=
      bytesAt_congr fun i hi => by rw [view_of_lt alt host (by omega), hdisk _ (by omega)]
    simp only [if_pos hram, Prog.assert, bind_apply, modify_apply, pure_apply, gets_apply, setTransfer, decide_true,
      show offset ≤ offset + min length appBufLen from Nat.le_add_right _ _, if_true, overlay_bytesAt, hview]
    exact ⟨_, rfl, fun csw => ⟨hdisk, rfl, hrest.symm, rfl⟩⟩
  · obtain ⟨dest, hfill, hdest⟩ := fillSparseData_ok alt (min length appBufLen) halign { d with remainingRd := rest }
    have hview : bytesAt dest 0 (min length appBufLen) = bytesAt (view alt host) offset (min length appBufLen) :=
      bytesAt_congr fun i hi => by rw [view_of_ge alt host (by omega), Nat.zero_add, hdest i hi]
    simp only [if_neg (show ¬ offset + min length appBufLen < freeMemLen by omega), hfill, bind_apply, modify_apply,
      gets_apply, setTransfer, overlay_bytesAt, hview]
    exact ⟨_, rfl, fun csw => ⟨hdisk, rfl, hrest.symm, rfl⟩⟩

theorem setupBigWrite_ok (hdisk : d.Shows host) (hin : offset + length ≤ ramdiskLen) :
    ∃ d', setupBigWrite offset length d = .ok () d' ∧
      ∀ csw, Writing host offset length { d' with msState := .dataPhase, csw := csw } := by
  have hwrap : wrap (offset + min length appBufLen) = offset + min length appBufLen := wrap_of_le (by omega)
  simp only [setupBigWrite, bind_apply, modify_apply, gt_iff_lt, hwrap, remaining_eq, setTransfer]
  generalize hrest : leftOver offset length = rest
  exact ⟨_, rfl, fun csw => ⟨hdisk, rfl, rfl, hrest.symm, rfl⟩⟩

theorem transact_status (fuel : Nat) (data : List UInt8) (h : Answered host d) :
    ∃ d', transact alt sink (fuel + 1) data d = .ok [] d' ∧ Ready host d' := by
  obtain ⟨csw, htransfer⟩ := h.transfer
  refine ⟨{ d with transfer := .recvCommand, msState := .commandPhase }, ?_, h.disk, rfl, rfl⟩
  simp [transact, complete, bind_apply, htransfer, bulkInComplete, h.state, Prog.when, setTransfer, setMsState]

/-- Every piece of a transfer is in the RAM or past it. -/
def Pieces (offset length : Nat) : Prop :=
  ∀ k, appBufLen * k < length → Whole (offset + appBufLen * k) (length - appBufLen * k)

theorem Pieces.first (h : Pieces offset length) : Whole offset length := by
  by_cases hpos : 0 < length
  · simpa using h 0 (by omega)
  · unfold Whole
    omega

theorem Pieces.next (h : Pieces offset length) : Pieces (offset + appBufLen) (length - appBufLen) := by
  intro k hk
  have := h (k + 1) (by rw [Nat.mul_succ]; omega)
  rwa [Nat.mul_succ, Nat.add_comm (appBufLen * k), ← Nat.add_assoc, Nat.sub_add_eq] at this

theorem bulkInComplete_more (n : Nat) (hdisk : d.Shows host)
    (hstate : d.msState = .dataPhase) (hrest : d.remainingRd = some (offset, length)) (halign : offset % 32 = 0)
    (hin : offset + length ≤ ramdiskLen) (hwhole : Whole offset length) :
    ∃ d', bulkInComplete alt n d = .ok () d' ∧ Reading alt host offset length d' := by
  obtain ⟨d', hread, hreading⟩ := setupBigRead_ok alt (d := { d with remainingRd := none }) hdisk halign hin hwhole
  refine ⟨{ d' with msState := .dataPhase }, ?_, hreading d'.csw⟩
  rw [bulkInComplete, bind_apply, gets_apply]
  simp only [hstate]
  rw [bind_apply, gets_apply, hrest]
  simp only [bind_apply, modify_apply, hread, setMsState]

theorem transact_read (fuel : Nat) (data : List UInt8) (h : Reading alt host offset length d)
    (hfuel : length < appBufLen * fuel) (halign : offset % 32 = 0) (hin : offset + length ≤ ramdiskLen)
    (hpieces : Pieces offset length) :
    ∃ d', transact alt sink (fuel + 1) data d = .ok (bytesAt (view alt host) offset length) d' ∧
      Ready host d' := by
  induction fuel generalizing offset length d with
  | zero => omega
  | succ fuel ih =>
    rw [transact]
    by_cases hlast : length ≤ appBufLen
    · have hrest : d.remainingRd = none := by rw [h.rest, leftOver, if_pos hlast]
      obtain ⟨d', hrun, hready⟩ := transact_status alt sink fuel data
        (d := { d with remainingRd := none, transfer := .sendCsw d.csw, msState := .statusPhase })
        ⟨h.disk, rfl, _, rfl⟩
      refine ⟨d', ?_, hready⟩
      simp [complete, bind_apply, h.transfer, bulkInComplete, h.state, hrest, setTransfer,
        setMsState, hrun, Nat.min_eq_left hlast]
    · rw [Nat.mul_succ] at hfuel
      have hmin : min length appBufLen = appBufLen := Nat.min_eq_right (by omega)
      have hrest : d.remainingRd = some (offset + appBufLen, length - appBufLen) := by
        rw [h.rest, leftOver, if_neg hlast]
      have hnext : (offset + appBufLen) % 32 = 0 := by
        rw [appBufLen]
        omega
      have hroom : offset + appBufLen + (length - appBufLen) ≤ ramdiskLen := by omega
      obtain ⟨d1, hcomplete, hreading⟩ := bulkInComplete_more alt
        (bytesAt (view alt host) offset appBufLen).length h.disk h.state hrest hnext hroom hpieces.next.first
      obtain ⟨d', hrun, hready⟩ := ih hreading (by omega) hnext hroom hpieces.next
      refine ⟨d', ?_, hready⟩
      have hsplit := bytesAt_append (view alt host) offset appBufLen (length - appBufLen)
      rw [Nat.add_sub_cancel' (by omega)] at hsplit
      simp only [complete, bind_apply, gets_apply, h.transfer, hmin, hcomplete, hrun, pure_apply, hsplit]

def Returns (sink : Sink σ) : Prop := ∀ place bytes s, ∃ s', sink place bytes s = .ok () s'

theorem forEach_sink (hsink : Returns sink) (ps : List (Nat × List UInt8)) (d : Device σ) :
    ∃ s', forEach ps (fun piece =>
      zoom Device.updater (fun d s => { d with updater := s }) (sink piece.1 piece.2)) d =
        .ok () { d with updater := s' } := by
  induction ps generalizing d with
  | nil => exact ⟨d.updater, rfl⟩
  | cons piece rest ih =>
    obtain ⟨s, hs⟩ := hsink piece.1 piece.2 d.updater
    obtain ⟨s', hs'⟩ := ih { d with updater := s }
    refine ⟨s', ?_⟩
    rwa [forEach, bind_apply, zoom, hs]

theorem bytesAt_overlay_self (m : Memory) (bytes : List UInt8) :
    bytesAt (overlay m 0 bytes) 0 bytes.length = bytes := by
  apply List.ext_getElem
  · simp
  · intro i hi hi'
    simp [bytesAt, overlay, hi']

theorem overlay_append (m : Memory) (start : Nat) (l r : List UInt8) :
    overlay (overlay m start l) (start + l.length) r = overlay m start (l ++ r) := by
  funext x
  simp only [overlay, List.length_append]
  by_cases hl : start ≤ x ∧ x < start + l.length
  · rw [if_neg (by omega), if_pos hl, if_pos (by omega), List.getD_eq_getElem?_getD, List.getD_eq_getElem?_getD,
      List.getElem?_append_left (by omega)]
  · by_cases hr : start + l.length ≤ x ∧ x < start + l.length + r.length
    · rw [if_pos hr, if_pos (by omega), List.getD_eq_getElem?_getD, List.getD_eq_getElem?_getD,
        List.getElem?_append_right (by omega), Nat.sub_add_eq]
    · rw [if_neg hr, if_neg hl, if_neg (by omega)]

theorem overlay_nil (m : Memory) (start : Nat) : overlay m start [] = m := by
  funext x
  exact if_neg (by simp only [List.length_nil]; omega)

def afterPiece : Option (Nat × Nat) → DeviceM σ Unit
  | some (next, rest) => setupBigWrite next rest >>= fun _ => setMsState .dataPhase
  | none => sendCsw 0 0

theorem acceptData_eq (hsink : Returns sink) {len : Nat} (hsmall : offset + len < 2 ^ 32) (d : Device σ) :
    ∃ d1 : Device σ, acceptData sink offset len d = afterPiece d.remainingWr d1 ∧
      d1.disk = if offset + len < freeMemLen then overlay d.disk offset (bytesAt d.appBuf 0 len) else d.disk := by
  obtain ⟨s, hs⟩ := forEach_sink sink hsink (pieces d.appBuf offset len len) d
  rw [acceptData, bind_apply, gets_apply]
  simp only [bind_apply, hs, hsmall, Prog.when, decide_true, Bool.true_and, decide_eq_true_eq]
  by_cases hram : offset + len < freeMemLen
  · simp only [if_pos hram, modify_apply, gets_apply]
    exact ⟨_, rfl, rfl⟩
  · simp only [if_neg hram, pure_apply, gets_apply]
    exact ⟨_, rfl, rfl⟩

theorem complete_piece (hsink : Returns sink) {chunk : List UInt8} {n : Nat}
    (hdisk : d.Shows host) (hstate : d.msState = .dataPhase)
    (hcallback : d.callbackWr = some (offset, chunk.length)) (htransfer : d.transfer = .recvData n)
    (hin : offset + chunk.length ≤ ramdiskLen)
    (hwhole : offset + chunk.length < freeMemLen ∨ freeMemLen ≤ offset) :
    ∃ d1 : Device σ, d1.Shows (overlay host offset chunk) ∧
      complete alt sink chunk d = (afterPiece d.remainingWr >>= fun _ => pure []) d1 := by
  obtain ⟨disk, appBuf, msState, remainingRd, callbackWr, remainingWr, csw, transfer, updater⟩ := d
  obtain rfl : msState = .dataPhase := hstate
  obtain rfl : callbackWr = some (offset, chunk.length) := hcallback
  obtain rfl : transfer = .recvData n := htransfer
  obtain ⟨d1, hrun, hdisk1⟩ := acceptData_eq sink hsink (lt_of_le_of_lt hin (by decide))
    ⟨disk, overlay appBuf 0 chunk, .dataPhase, remainingRd, none, remainingWr, csw, .recvData n, updater⟩
  refine ⟨d1, fun x hx => ?_, ?_⟩
  · rw [hdisk1, bytesAt_overlay_self]
    have hsame : disk x = host x := hdisk x hx
    rcases hwhole with hram | hpast
    · rw [if_pos hram]
      simp only [overlay, hsame]
    · rw [if_neg (by omega), overlay, if_neg (by omega)]
      exact hsame
  · simp only [complete, bind_apply, modify_apply, bulkOutComplete, gets_apply, hrun]

theorem Answered.sendCsw (hdisk : d.Shows host) (residue status : Nat) :
    ∃ d', sendCsw residue status d = .ok () d' ∧ Answered host d' := ⟨_, rfl, hdisk, rfl, _, rfl⟩

theorem afterPiece_more (hdisk : d.Shows host) (hin : offset + length ≤ ramdiskLen) :
    ∃ d', afterPiece (some (offset, length)) d = .ok () d' ∧ Writing host offset length d' := by
  obtain ⟨d', hset, hwriting⟩ := setupBigWrite_ok (d := d) hdisk hin
  refine ⟨{ d' with msState := .dataPhase }, ?_, hwriting d'.csw⟩
  rw [afterPiece, bind_apply, hset]
  rfl

theorem transact_write (hsink : Returns sink) (fuel : Nat) {data : List UInt8} (h : Writing host offset length d)
    (hdata : data.length = length) (hfuel : length < appBufLen * fuel) (hin : offset + length ≤ ramdiskLen)
    (hpieces : Pieces offset length) :
    ∃ d', transact alt sink (fuel + 1) data d = .ok [] d' ∧ Ready (overlay host offset data) d' := by
  induction fuel generalizing offset length host data d with
  | zero => omega
  | succ fuel ih =>
    have hchunk : (data.take (min length appBufLen)).length = min length appBufLen := by
      rw [List.length_take]
      omega
    obtain ⟨d1, hdisk, hcomplete⟩ := complete_piece alt sink hsink h.disk h.state
      (h.callback.trans (by rw [hchunk])) h.transfer (by omega) (by rw [hchunk]; exact hpieces.first)
    rw [transact, bind_apply, gets_apply, h.transfer]
    simp only [bind_apply, hcomplete, h.rest]
    by_cases hlast : length ≤ appBufLen
    · have hall : data.take (min length appBufLen) = data := List.take_of_length_le (by omega)
      rw [hall] at hdisk
      obtain ⟨d2, hsend, hanswered⟩ := Answered.sendCsw hdisk 0 0
      obtain ⟨d', hrun, hready⟩ := transact_status alt sink fuel (data.drop (min length appBufLen)) hanswered
      refine ⟨d', ?_, hready⟩
      simp only [leftOver, if_pos hlast, afterPiece, hsend, pure_apply, hrun]
    · rw [Nat.mul_succ] at hfuel
      have hmin : min length appBufLen = appBufLen := Nat.min_eq_right (by omega)
      rw [hmin] at hchunk hdisk ⊢
      obtain ⟨d2, hmore, hwriting⟩ := afterPiece_more hdisk
        (show offset + appBufLen + (length - appBufLen) ≤ ramdiskLen by omega)
      obtain ⟨d', hrun, hready⟩ := ih hwriting (by rw [List.length_drop, hdata])
        (by omega) (by omega) hpieces.next
      have hsplit := overlay_append host offset (data.take appBufLen) (data.drop appBufLen)
      rw [hchunk, List.take_append_drop] at hsplit
      rw [hsplit] at hready
      refine ⟨d', ?_, hready⟩
      simp only [leftOver, if_neg hlast, hmore, pure_apply, hrun]

end

namespace Command

def place (c : Command) : Nat :=
  if c.cbw.byte 0 = 0xAA then wrap (c.cbw.lba32 * sectorSize) else c.cbw.lba10 * sectorSize

variable {c : Command}

theorem place_align : c.place % 32 = 0 := by
  unfold place wrap sectorSize
  split <;> omega

theorem place_eq (hvalid : c.Valid) (hplain : c.Plain) : c.place = c.start ∨ c.len = 0 := by
  have hin := hvalid.inside
  by_cases h12 : c.cbw.byte 0 = 0xAA
  · rw [place, if_pos h12, wrap_of_le]
    · exact .inl rfl
    · unfold start at hin
      omega
  · rcases hplain.sector with h' | hsmall | hnone
    · exact absurd h' h12
    · refine .inl ?_
      have hlo : c.cbw.byte 5 < 2 ^ 8 := (c.cbw.cdb.getD 5 0).toNat_lt
      have hhi : c.cbw.byte 4 < 2 ^ 8 := (c.cbw.cdb.getD 4 0).toNat_lt
      have hlba : c.cbw.lba10 = c.cbw.lba32 := by
        unfold Cbw.lba32 at hsmall ⊢
        unfold Cbw.lba10
        omega
      rw [place, if_neg h12, start, hlba]
    · exact .inr hnone

theorem place_add_len (hvalid : c.Valid) (hplain : c.Plain) : c.place + c.len ≤ ramdiskLen := by
  have hin := hvalid.inside
  by_cases h12 : c.cbw.byte 0 = 0xAA
  · rw [place, if_pos h12]
    exact (Nat.add_le_add_right (Nat.mod_le _ _) _).trans hin
  · rcases place_eq hvalid hplain with heq | hnone
    · rwa [heq]
    · have hlo : c.cbw.byte 5 < 2 ^ 8 := (c.cbw.cdb.getD 5 0).toNat_lt
      have hhi : c.cbw.byte 4 < 2 ^ 8 := (c.cbw.cdb.getD 4 0).toNat_lt
      rw [place, if_neg h12, hnone, Cbw.lba10, sectorSize, ramdiskLen]
      omega

theorem pieces_place (hvalid : c.Valid) (hplain : c.Plain) : Pieces c.place c.len := by
  rcases place_eq hvalid hplain with heq | hnone
  · rw [heq]
    exact hplain.pieces
  · rw [hnone]
    exact fun k hk => absurd hk (Nat.not_lt_zero _)

end Command

inductive Started (alt : Bool) (host : Memory) (c : Command) (d : Device σ) : Prop where
  | reads (hin : c.cbw.dataIn = true) (h : Reading alt host c.place c.len d)
  | writes (hout : c.cbw.dataIn = false) (h : Writing host c.place c.len d)
  | answered (hnone : c.len = 0) (h : Answered host d)

section

variable (alt : Bool) (sink : Sink σ) {host : Memory} {d : Device σ} {c : Command} {offset length : Nat}

theorem Started.ofSendCsw (hdisk : d.Shows host) (hnone : c.len = 0) (residue status : Nat) :
    ∃ d', sendCsw residue status d = .ok () d' ∧ Started alt host c d' := by
  obtain ⟨d', hsend, hanswered⟩ := Answered.sendCsw hdisk residue status
  exact ⟨d', hsend, .answered hnone hanswered⟩

section

variable (hvalid : c.Valid) (hplain : c.Plain) (hdisk : d.Shows host)

include hvalid hplain hdisk

theorem Started.ofRead (hin : c.cbw.dataIn = true) (hoffset : offset = c.place) (hlength : length = c.len)
    (f : Csw → Csw) :
    ∃ d', (do
      setupBigRead alt offset length
      setMsState .dataPhase
      updateHw f : DeviceM σ Unit) d = .ok () d' ∧ Started alt host c d' := by
  subst hoffset hlength
  obtain ⟨d', hread, hreading⟩ := setupBigRead_ok alt hdisk place_align
    (place_add_len hvalid hplain) (pieces_place hvalid hplain).first
  refine ⟨{ d' with msState := .dataPhase, csw := f d'.csw }, ?_, .reads hin (hreading _)⟩
  rw [bind_apply, hread]
  rfl

theorem Started.ofWrite (hout : c.cbw.dataIn = false) (hoffset : offset = c.place) (hlength : length = c.len)
    (f : Csw → Csw) :
    ∃ d', (do
      setupBigWrite offset length
      setMsState .dataPhase
      updateHw f : DeviceM σ Unit) d = .ok () d' ∧ Started alt host c d' := by
  subst hoffset hlength
  obtain ⟨d', hwrite, hwriting⟩ := setupBigWrite_ok hdisk (place_add_len hvalid hplain)
  refine ⟨{ d' with msState := .dataPhase, csw := f d'.csw }, ?_, .writes hout (hwriting _)⟩
  rw [bind_apply, hwrite]
  rfl

theorem processReadCommand_ok (hop : c.cbw.byte 0 = 0x28) :
    ∃ d', processReadCommand alt c.cbw d = .ok () d' ∧ Started alt host c d' := by
  have hplace : c.cbw.lba10 * sectorSize = c.place := by simp [place, hop]
  rw [processReadCommand]
  cases hdir : c.cbw.dataIn with
  | false =>
    have hlen : c.cbw.length10 = c.len := by simp [len, hop, hdir]
    exact Started.ofWrite alt hvalid hplain hdisk hdir hplace hlen _
  | true =>
    have hlen : c.len = min c.cbw.dataTransferLength c.cbw.length10 := by simp [len, hop, hdir]
    rw [Bool.not_true, if_neg Bool.false_ne_true]
    by_cases hzero : c.cbw.dataTransferLength = 0
    · rw [if_pos hzero]
      exact Started.ofSendCsw alt hdisk (by rw [hlen, hzero, Nat.zero_min]) _ _
    · rw [if_neg hzero]
      by_cases hshort : c.cbw.dataTransferLength < c.cbw.length10
      · rw [if_pos hshort]
        exact Started.ofRead alt hvalid hplain hdisk hdir hplace (by omega) _
      · rw [if_neg hshort]
        exact Started.ofRead alt hvalid hplain hdisk hdir hplace (by omega) _

theorem processWrite_ok (hplace : offset = c.place)
    (hlen : c.len = if c.cbw.dataIn then length else c.cbw.dataTransferLength)
    (longStatus shortStatus : Nat) :
    ∃ d', processWrite alt c.cbw offset length longStatus shortStatus d = .ok () d' ∧ Started alt host c d' := by
  rw [processWrite]
  cases hdir : c.cbw.dataIn with
  | true => exact Started.ofRead alt hvalid hplain hdisk hdir hplace (by simp [hlen, hdir]) _
  | false =>
    rw [hdir, if_neg Bool.false_ne_true] at hlen
    rw [if_neg Bool.false_ne_true]
    by_cases hzero : c.cbw.dataTransferLength = 0
    · rw [if_pos hzero]
      exact Started.ofSendCsw alt hdisk (hlen.trans hzero) _ _
    · rw [if_neg hzero]
      exact Started.ofWrite alt hvalid hplain hdisk hdir hplace hlen.symm _

theorem processMassStorageCommand_ok :
    ∃ d', processMassStorageCommand alt c.cbw d = .ok () d' ∧ Started alt host c d' := by
  rw [processMassStorageCommand]
  rcases hvalid.opcode with hop | hop | hop
  · simp only [hop]
    exact processReadCommand_ok alt hvalid hplain hdisk hop
  · simp only [hop]
    exact processWrite_ok alt hvalid hplain hdisk (by simp [place, hop])
      (by cases hdir : c.cbw.dataIn <;> simp [len, hop, hdir]) 1 1
  · simp only [hop]
    refine processWrite_ok alt hvalid hplain hdisk (by simp [place, hop]) ?_ 0 2
    cases hdir : c.cbw.dataIn with
    | false => simp [len, hop, hdir]
    | true =>
      have hlen : c.len = c.cbw.count12 * sectorSize := by simp [len, hop, hdir]
      have hin := hvalid.inside
      rw [if_pos rfl, hlen, wrap_of_le (by omega)]

end

theorem complete_command (hready : Ready host d) (hvalid : c.Valid) (hplain : c.Plain) :
    ∃ d', complete alt sink c.packet d = .ok [] d' ∧ Started alt host c d' := by
  obtain ⟨disk, appBuf, msState, remainingRd, callbackWr, remainingWr, csw, transfer, updater⟩ := d
  obtain ⟨hdisk, rfl, rfl⟩ := hready
  obtain ⟨d', hrun, hstarted⟩ := processMassStorageCommand_ok alt hvalid hplain
    (d := ⟨disk, appBuf, .commandPhase, remainingRd, callbackWr, remainingWr, { csw with tag := c.cbw.tag },
      .recvCommand, updater⟩) hdisk
  refine ⟨d', ?_, hstarted⟩
  have hpacket : c.packet.length = 31 ∧ (Cbw.ofBytes c.packet).signature = bulkCbwSig :=
    ⟨hvalid.length, hvalid.signature⟩
  simp only [complete, bind_apply, gets_apply, bulkOutComplete, if_pos hpacket, updateHw, modify_apply]
  rw [cbw] at hrun
  rw [hrun]
  rfl

/-- A command that meets a disk at rest is carried out, and the disk is at rest again. -/
theorem runCommand_ok (hsink : Returns sink) (hready : Ready host d) (hvalid : c.Valid) (hplain : c.Plain) :
    ∃ out d', runCommand alt sink c d = .ok out d' ∧ (c.cbw.dataIn → out = bytesAt (view alt host) c.start c.len) ∧
      Ready (if c.cbw.dataIn then host else overlay host c.start c.data) d' := by
  obtain ⟨d1, hcomplete, hstarted⟩ := complete_command alt sink hready hvalid hplain
  simp only [runCommand, bind_apply, hcomplete]
  have hfuel : c.len < appBufLen * (c.len / appBufLen + 1) := Nat.lt_mul_div_succ _ (by decide)
  have hroom := place_add_len hvalid hplain
  have hpieces := pieces_place hvalid hplain
  cases hstarted with
  | reads hin h =>
    obtain ⟨d', hrun, hready'⟩ := transact_read alt sink _ c.data h hfuel place_align hroom hpieces
    refine ⟨_, d', hrun, fun _ => ?_, by rwa [if_pos hin]⟩
    rcases place_eq hvalid hplain with heq | hnone
    · rw [heq]
    · simp only [hnone, bytesAt, List.range_zero, List.map_nil]
  | writes hout h =>
    obtain ⟨d', hrun, hready'⟩ := transact_write alt sink hsink _ h (hvalid.data hout) hfuel hroom hpieces
    refine ⟨_, d', hrun, fun hin => absurd hin (by simp [hout]), ?_⟩
    rw [if_neg (by simp [hout])]
    rcases place_eq hvalid hplain with heq | hnone
    · rwa [← heq]
    · have hempty : c.data = [] := List.eq_nil_of_length_eq_zero ((hvalid.data hout).trans hnone)
      rw [hempty] at hready' ⊢
      rwa [overlay_nil] at hready' ⊢
  | answered hnone h =>
    obtain ⟨d', hrun, hready'⟩ := transact_status alt sink (c.len / appBufLen + 1) c.data h
    refine ⟨_, d', hrun, fun _ => by rw [hnone]; rfl, ?_⟩
    cases hdir : c.cbw.dataIn with
    | true => rwa [if_pos rfl]
    | false =>
      have hempty : c.data = [] := List.eq_nil_of_length_eq_zero ((hvalid.data hdir).trans hnone)
      rwa [hempty, overlay_nil, if_neg Bool.false_ne_true]

theorem serves_of_ready (hsink : Returns sink) (cmds : List Command) (hcmds : ∀ c ∈ cmds, c.Valid ∧ c.Plain)
    (hready : Ready host d) : Serves alt sink d host cmds := by
  induction cmds generalizing host d with
  | nil => trivial
  | cons c rest ih =>
    obtain ⟨hvalid, hplain⟩ := hcmds c List.mem_cons_self
    obtain ⟨out, d', hrun, hout, hready'⟩ := runCommand_ok alt sink hsink hready hvalid hplain
    exact ⟨out, d', hrun, hout, ih (fun c' hc' => hcmds c' (List.mem_cons_of_mem _ hc')) hready'⟩

/-- From a disk at rest, whatever was sent before, commands that stay clear of the end of the RAM
and of sectors a 10-byte command cannot name read the sectors that were written. -/
theorem serves_of_plain (hsink : Returns sink) (hstate : d.msState = .commandPhase)
    (htransfer : d.transfer = .recvCommand) (cmds : List Command) (hcmds : ∀ c ∈ cmds, c.Valid ∧ c.Plain) :
    Serves alt sink d d.disk cmds :=
  serves_of_ready alt sink hsink cmds hcmds ⟨fun _ _ => rfl, hstate, htransfer⟩

def quiet : Sink Unit := fun _ _ => pure ()

def restingDisk : Device Unit where
  disk := fun _ => 1
  appBuf := fun _ => 0
  msState := .commandPhase
  remainingRd := none
  callbackWr := none
  remainingWr := none
  csw := ⟨0, 0, 0⟩
  transfer := .recvCommand
  updater := ()

def readByte (b3 b4 b5 : UInt8) : Command where
  packet := [0x55, 0x53, 0x42, 0x43, 0, 0, 0, 0, 1, 0, 0, 0, 0x80, 0, 10, 0x28, 0, 0, b3, b4, b5, 0, 0, 1, 0,
    0, 0, 0, 0, 0, 0]
  data := []

/-- Eighteen sectors at the start of the disk, in two pieces. -/
def bulk (write : Bool) : Command where
  packet := [0x55, 0x53, 0x42, 0x43, 0, 0, 0, 0, 0, 0x24, 0, 0, bif write then 0 else 0x80, 0, 10,
    bif write then 0x2A else 0x28, 0, 0, 0, 0, 0, 0, 0, 18, 0, 0, 0, 0, 0, 0, 0]
  data := bif write then List.replicate 9216 7 else []

theorem serves_written_sectors : Serves false quiet restingDisk restingDisk.disk [bulk true, bulk false] := by
  have hok : ∀ write, (bulk write).Valid ∧ (bulk write).Plain := by
    intro write
    have hlen : (bulk write).len = 9216 := by cases write <;> decide
    refine ⟨⟨by cases write <;> rfl, by cases write <;> decide, by cases write <;> decide,
      by cases write <;> decide, fun hout => ?_⟩, by cases write <;> decide, fun k hk => .inl ?_⟩
    · cases write with
      | true => exact List.length_replicate
      | false => contradiction
    · obtain rfl | rfl : k = 0 ∨ k = 1 := by
        rw [hlen, appBufLen] at hk
        omega
      · cases write <;> decide
      · cases write <;> decide
  exact serves_of_plain false quiet (fun _ _ _ => ⟨_, rfl⟩) rfl rfl _ (by simp [hok])

/-- Sector 65536 is taken for the first. -/
theorem not_serves_far : ¬ Serves false quiet restingDisk restingDisk.disk [readByte 1 0 0] := by
  rintro ⟨out, d', hrun, hout, -⟩
  have hread : (runCommand false quiet (readByte 1 0 0) restingDisk).returns (fun out _ => out == [1]) = true := by
    decide +kernel
  rw [hrun, hout (by decide)] at hread
  revert hread
  show ¬ (bytesAt _ _ _ == [1]) = true
  decide +kernel

end

end BaochipXous.Boot1
