import BaochipXous.LibProg
import BaochipXous.LibRely

/-!
The signature check of the boot stages. A header that is not signed gives the number of signed bytes
that follow it; the keys of the previous stage are tried in turn, then the post-quantum keys, and
the anti-rollback counter is raised last. The bytes that are hashed are the signed ones, with the
entry point, just when the length reaches past it and does not wrap.
-/

namespace BaochipXous.Sigcheck

open Prog

section

abbrev Bytes := List UInt8

def signatureLength : Nat := 64

def aadLength : Nat := 60

def publicKeyLength : Nat := 32

def signaturePqLength : Nat := 3856

/-- The jump instruction, the signature, the length of the additional data and the data. -/
def unsignedLen : Nat := 4 + signatureLength + 4 + aadLength

/-- The signature block and the statics behind it, `HEADER_LEN`. -/
def headerLen : Nat := 0x400

def pageSize : Nat := 4096

def hwReramMem : Nat := 0x60000000

def rramStorageLen : Nat := 0x3DA000

def spiFlashLen : Nat := 8192 * 1024

/-- `MAGIC_NUMBER`: the letters of "yumy" and "Bao3". -/
def magicNumber : Nat × Nat := (0x79756d79, 0x42616f33)

def baochipSigVersion : Nat := 0x100

def developerKeySlot : Nat := 3

/-- `KEYSLOT_INITIAL_TAGS[DEVELOPER_KEY_SLOT]`, the letters of "dev ". -/
def developerTag : Bytes := [0x64, 0x65, 0x76, 0x20]

def usizeAdd (a b : Nat) : Nat := (a + b) % 2 ^ 32

def usizeSub (a b : Nat) : Nat := (a + 2 ^ 32 - b) % 2 ^ 32

theorem usizeAdd_eq {a b : Nat} (h : a + b < 2 ^ 32) : usizeAdd a b = a + b := Nat.mod_eq_of_lt h

theorem usizeAdd_lt (a b : Nat) : usizeAdd a b < 2 ^ 32 := Nat.mod_lt _ (by decide)

def maxOnewayCounters : Nat := 256

def onewayMaxValue : Nat := 10000

def onewayMaxDelta : Nat := 512

def requirePq : Nat := 19

def requirePqDupe : Nat := 44

def revocationDupeDistance : Nat := 116 - 68

def pqRevocationDupeDistance : Nat := 32 - 20

def loaderRevocationOffset : Nat := 116

def boot1RevocationOffset : Nat := 120

def boot0RevocationOffset : Nat := 124

def classicToPqRevocation (classic : Nat) : Option Nat :=
  if classic = boot0RevocationOffset then some 40
  else if classic = boot1RevocationOffset then some 36
  else if classic = loaderRevocationOffset then some 32
  else none

inductive FunctionCode where
  | invalid
  | boot0
  | boot1
  | updatedBoot1
  | loader
  | updatedLoader
  | baremetal
  | updatedBaremetal
  | kernel
  | updatedKernel
  | swap
  | updatedSwap
  | app
  | updatedApp

namespace FunctionCode

/-- `try_into().unwrap_or(FunctionCode::Invalid)`. -/
def ofWord : Nat → FunctionCode
  | 1 => boot0
  | 2 => boot1
  | 3 => updatedBoot1
  | 4 => loader
  | 5 => updatedLoader
  | 6 => baremetal
  | 7 => updatedBaremetal
  | 0x100 => kernel
  | 0x101 => updatedKernel
  | 0x8000 => swap
  | 0x8001 => updatedSwap
  | 0x100000 => app
  | 0x100001 => updatedApp
  | _ => invalid

/-- The counter of the class of images that a code belongs to. -/
def toAntiRollbackCounter : FunctionCode → Option Nat
  | boot0 => some 58
  | boot1 | updatedBoot1 => some 59
  | loader | updatedLoader => some 60
  | kernel | updatedKernel => some 61
  | swap | updatedSwap => some 62
  | app | updatedApp => some 63
  | baremetal | updatedBaremetal => some 64
  | invalid => none

theorem toAntiRollbackCounter_lt {code : FunctionCode} {arb : Nat}
    (h : code.toAntiRollbackCounter = some arb) : arb < maxOnewayCounters := by
  cases code <;> simp only [toAntiRollbackCounter, Option.some.injEq, reduceCtorEq] at h <;> subst h <;> decide

end FunctionCode

def readBytes (mem : Nat → UInt8) (addr len : Nat) : Bytes :=
  (List.range len).map fun i => mem (addr + i)

variable (mem : Nat → UInt8)

@[simp] theorem length_readBytes (addr len : Nat) : (readBytes mem addr len).length = len := by simp [readBytes]

theorem readBytes_add (addr m n : Nat) :
    readBytes mem addr (m + n) = readBytes mem addr m ++ readBytes mem (addr + m) n := by
  simp only [readBytes, List.range_add, List.map_append, List.map_map, Function.comp_def, Nat.add_assoc]

theorem take_readBytes (addr : Nat) {m n : Nat} (h : m ≤ n) : (readBytes mem addr n).take m = readBytes mem addr m := by
  obtain ⟨rest, rfl⟩ := Nat.exists_eq_add_of_le h
  rw [readBytes_add, List.take_left' (length_readBytes _ _ _)]

theorem drop_readBytes (addr : Nat) {m n : Nat} (h : m ≤ n) :
    (readBytes mem addr n).drop m = readBytes mem (addr + m) (n - m) := by
  obtain ⟨rest, rfl⟩ := Nat.exists_eq_add_of_le h
  rw [readBytes_add, List.drop_left' (length_readBytes _ _ _), Nat.add_sub_cancel_left]

def fromLeBytes : Bytes → Nat
  | [] => 0
  | byte :: rest => byte.toNat + 256 * fromLeBytes rest

def u32At (mem : Nat → UInt8) (addr : Nat) : Nat := fromLeBytes (readBytes mem addr 4)

/-- A classical key or a post-quantum key, of the same length, with its tag. -/
structure Pubkey where
  pk : Bytes
  tag : Bytes

def Pubkey.read (mem : Nat → UInt8) (addr : Nat) : Pubkey where
  pk := readBytes mem addr publicKeyLength
  tag := readBytes mem (addr + publicKeyLength) 4

def emptyTag : Bytes := [0, 0, 0, 0]

structure SealedFields where
  version : Nat
  magic : Nat × Nat
  signedLen : Nat
  functionCode : Nat
  antiRollback : Nat
  pubkeys : List Pubkey
  correctedVersion : Nat
  pubkeysPq : List Pubkey

structure SignatureInFlash where
  signature : Bytes
  aadLen : Nat
  aad : Bytes
  sealedData : SealedFields

/-- Where the sealed fields that are checked lie behind the unsigned part. -/
def signedLenOffset : Nat := 12

def functionCodeOffset : Nat := 16

def antiRollbackOffset : Nat := 20

def SealedFields.read (mem : Nat → UInt8) (addr : Nat) : SealedFields where
  version := u32At mem addr
  magic := (u32At mem (addr + 4), u32At mem (addr + 8))
  signedLen := u32At mem (addr + signedLenOffset)
  functionCode := u32At mem (addr + functionCodeOffset)
  antiRollback := u32At mem (addr + antiRollbackOffset)
  pubkeys := (List.range 4).map fun i => Pubkey.read mem (addr + 56 + 36 * i)
  correctedVersion := u32At mem (addr + 220)
  pubkeysPq := (List.range 4).map fun i => Pubkey.read mem (addr + 228 + 36 * i)

def SignatureInFlash.read (mem : Nat → UInt8) (addr : Nat) : SignatureInFlash where
  signature := readBytes mem (addr + 4) signatureLength
  aadLen := u32At mem (addr + 4 + signatureLength)
  aad := readBytes mem (addr + 4 + signatureLength + 4) aadLength
  sealedData := SealedFields.read mem (addr + unsignedLen)

/-- `baochip_sig_compat` for the version 1.0.0 of the running code. -/
def baochipSigCompat (incoming : Nat) : Bool :=
  incoming / 2 ^ 24 % 256 == 1 &&
    (decide (0 > incoming / 2 ^ 16 % 256) ||
      (0 == incoming / 2 ^ 16 % 256 && decide (0 ≥ incoming % 2 ^ 16)))

def SignatureInFlash.isCompatible (sig : SignatureInFlash) : Bool :=
  sig.sealedData.version == baochipSigVersion &&
    (sig.sealedData.correctedVersion == 0 || baochipSigCompat sig.sealedData.correctedVersion)

/-- The hash functions and the signature schemes. A post-quantum verification computes a root for
the caller to compare. -/
structure Crypto where
  sha512 : Bytes → Bytes
  sha256 : Bytes → Bytes
  validKey : Bytes → Bool
  verifyPrehashed : (pk digest signature : Bytes) → Bool
  verifyStrict : (pk message signature : Bytes) → Bool
  validPqKey : Bytes → Bool
  validPqSignature : Bytes → Bool
  candidateRoot : (pk digest signature : Bytes) → Bytes
  pkRoot : Bytes → Bytes
  length_candidateRoot : ∀ pk digest signature, (candidateRoot pk digest signature).length = 16
  length_pkRoot : ∀ pk, (pkRoot pk).length = 16

/-- The byte that the mask flips a byte of the root with. -/
def unmask (mask i : Nat) : UInt8 := if mask.testBit i then 0xFF else 0

structure HardenedVerifyOutput where
  maskedRoot : Bytes
  expectedRoot : Bytes

def slhVerifyHardened (crypto : Crypto) (pk digest signature : Bytes) (mask : Nat) :
    HardenedVerifyOutput where
  maskedRoot := (crypto.candidateRoot pk digest signature).mapIdx fun i byte => byte ^^^ unmask mask i
  expectedRoot := crypto.pkRoot pk

/-- The bytes that agree before the first one that does not. -/
def countMatched (mask : Nat) : Bytes → Bytes → Nat → Nat
  | masked :: mr, expected :: er, i =>
    if masked ^^^ unmask mask i ≠ expected then 0 else countMatched mask mr er (i + 1) + 1
  | _, _, _ => 0

def recountMatched (mask : Nat) : Bytes → Bytes → Nat → Nat
  | masked :: mr, expected :: er, i =>
    (if masked ^^^ unmask mask i = expected then 1 else 0) + recountMatched mask mr er (i + 1)
  | _, _, _ => 0

/-- The memories that hold images and key records, and the counters. -/
structure Chip where
  rram : Nat → UInt8
  spi : Nat → UInt8
  counters : Nat → Nat

/-- A refusal with its message, or a stop of the processor. -/
inductive Failure where
  | refused (message : String)
  | died

abbrev ChipM := Prog Failure Chip

structure HardenedBool where
  value : Nat
  deriving DecidableEq

namespace HardenedBool

def FALSE : HardenedBool := ⟨0xA5A55A5A⟩

def TRUE : HardenedBool := ⟨0x5A5AA5A5⟩

/-- Neither of the two values is a corruption. -/
def isTrue (b : HardenedBool) : Option Bool :=
  if b = TRUE then some true else if b = FALSE then some false else none

end HardenedBool

/-- What a stage is told about the next one. The header of the image lies in the address space. -/
structure SecurityConfiguration where
  imagePtr : Nat
  pubkeyPtr : Nat
  revocationOwc : Nat
  functionCodes : List Nat
  inSpace : imagePtr + headerLen < 2 ^ 32

/-- Where the stages are, for their configurations. -/
def boot0Start : Nat := 0x60000000

def boot1Start : Nat := 0x60020000

def loaderStart : Nat := 0x60060000

def boot0SelfCheck : SecurityConfiguration where
  imagePtr := boot0Start
  pubkeyPtr := boot0Start
  revocationOwc := boot0RevocationOffset
  functionCodes := [1]
  inSpace := by decide

def boot0ToBoot1 : SecurityConfiguration where
  imagePtr := boot1Start
  pubkeyPtr := boot0Start
  revocationOwc := boot0RevocationOffset
  functionCodes := [2, 3]
  inSpace := by decide

def boot0ToAltboot1 : SecurityConfiguration where
  imagePtr := loaderStart
  pubkeyPtr := boot0Start
  revocationOwc := boot0RevocationOffset
  functionCodes := [2, 3, 6]
  inSpace := by decide

def loaderToSwap : SecurityConfiguration where
  imagePtr := pageSize - 768
  pubkeyPtr := loaderStart
  revocationOwc := loaderRevocationOffset
  functionCodes := [0x8000, 0x8001]
  inSpace := by decide

/-- `OneWayCounter::get`, with the expectation of its callers. -/
def owcGet (offset : Nat) : ChipM Nat := do
  if offset < maxOnewayCounters then gets (·.counters offset) else fail .died

/-- A counter read five times and summed up. -/
def hardenedSum (value : Nat) : Nat :=
  (List.range 4).foldl (fun sum _ => min (sum + value) (2 ^ 32 - 1)) value

/-- `OneWayCounter::hardened_get2`, with the expectation of its callers. -/
def hardenedGet2 (offset dupe : Nat) : ChipM (Nat × Nat) := do
  if offset = dupe then fail .died
  else if offset < maxOnewayCounters ∧ dupe < maxOnewayCounters then
    gets fun chip => (hardenedSum (chip.counters offset), hardenedSum (chip.counters dupe))
  else fail .died

/-- `OneWayCounter::inc` on a counter that is not worn out. -/
def owcInc (offset : Nat) : ChipM Unit :=
  modify fun chip => { chip with
    counters := Function.update chip.counters offset ((chip.counters offset + 1) % 2 ^ 32) }

section Validate

variable (crypto : Crypto) (cfg : SecurityConfiguration) (spim : Bool)

variable (chip : Chip)

def Chip.imageMemory : Nat → UInt8 := if spim then chip.spi else chip.rram

def Chip.header : SignatureInFlash :=
  SignatureInFlash.read (chip.imageMemory spim) cfg.imagePtr

def Chip.keyRecord : SignatureInFlash := SignatureInFlash.read chip.rram cfg.pubkeyPtr

/-- The pages that are read from the serial flash, the last one as far as the image goes. -/
def spiPages (spi : Nat → UInt8) (start stop : Nat) : Bytes :=
  (List.range ((stop - start + (pageSize - 1)) / pageSize)).flatMap fun k =>
    let offset := start + k * pageSize
    let validLength := if offset + pageSize < stop then pageSize else stop - offset
    (readBytes spi offset pageSize).take validLength

variable (signedLen : Nat)

/-- Where the hashing ends; the sum is one of machine words. -/
def hashEnd : Nat := usizeAdd (usizeAdd cfg.imagePtr unsignedLen) signedLen

def Chip.hashedBytes : Bytes :=
  if spim then spiPages chip.spi (usizeAdd cfg.imagePtr unsignedLen) (hashEnd cfg signedLen)
  else readBytes chip.rram (cfg.imagePtr + unsignedLen) signedLen

/-- The room for signed bytes in the on-chip memory. -/
def rramRoom : Nat :=
  usizeSub rramStorageLen (usizeAdd (usizeSub cfg.imagePtr hwReramMem) unsignedLen)

/-- Hash the image, after a check of its purported length. -/
def hashImage : ChipM Bytes := do
  if spim then
    when (spiFlashLen < hashEnd cfg signedLen) (fail (.refused "SPIM image length out of range"))
  else
    when (rramRoom cfg < signedLen) (fail (.refused "Image length out of range"))
  gets (·.hashedBytes cfg spim signedLen)

/-- The message of a token: its own data and a hash of the hash of the image. -/
def fidoMessage (sig : SignatureInFlash) (image : Bytes) : Bytes :=
  sig.aad.take sig.aadLen ++ crypto.sha256 (crypto.sha512 image)

def verifies (sig : SignatureInFlash) (key : Pubkey) (image : Bytes) : Bool :=
  if sig.aadLen = 0 then crypto.verifyPrehashed key.pk (crypto.sha512 image) sig.signature
  else crypto.verifyStrict key.pk (fidoMessage crypto sig image) sig.signature

/-- The two verifications, with the checks of the additional data. -/
def verifyClassic (sig : SignatureInFlash) (key : Pubkey) (image : Bytes) : ChipM Bool := do
  when (sig.aadLen ≠ 0) do
    when (sig.aad.length < sig.aadLen) (fail (.refused "aad_len out of range"))
    when ((sig.aad.drop sig.aadLen).any (· != 0)) (fail (.refused "aad padding not zero"))
  pure (verifies crypto sig key image)

def tryKeys (sig : SignatureInFlash) : List Pubkey → Nat → ChipM (Option Nat)
  | [], _ => pure none
  | key :: rest, i =>
    if key.tag = emptyTag then tryKeys sig rest (i + 1)
    else do
      let (revA, revB) ← hardenedGet2 (cfg.revocationOwc + i)
        (usizeSub (cfg.revocationOwc + i) revocationDupeDistance)
      if revA ≠ 0 then tryKeys sig rest (i + 1)
      else if revB ≠ 0 then tryKeys sig rest (i + 1)
      else do
        when (!crypto.validKey key.pk) (fail (.refused "invalid public key"))
        let image ← hashImage cfg spim sig.sealedData.signedLen
        if ← verifyClassic crypto sig key image then pure (some i)
        else tryKeys sig rest (i + 1)

/-- Try the post-quantum keys in turn; the output for the last one tried goes to the caller. -/
def tryPqKeys (revocationOffset : Nat) (digest pqSig : Bytes) (mask : Nat) :
    List Pubkey → Nat → Option (HardenedVerifyOutput × Bytes) →
      ChipM (Option (HardenedVerifyOutput × Bytes))
  | [], _, out => pure out
  | key :: rest, i, out =>
    if key.tag = emptyTag then tryPqKeys revocationOffset digest pqSig mask rest (i + 1) out
    else do
      let (revA, revB) ← hardenedGet2 (revocationOffset + i)
        (usizeSub (revocationOffset + i) pqRevocationDupeDistance)
      if revA ≠ 0 then tryPqKeys revocationOffset digest pqSig mask rest (i + 1) out
      else if revB ≠ 0 then tryPqKeys revocationOffset digest pqSig mask rest (i + 1) out
      else if !crypto.validPqKey key.pk then
        tryPqKeys revocationOffset digest pqSig mask rest (i + 1) out
      else if !crypto.validPqSignature pqSig then
        tryPqKeys revocationOffset digest pqSig mask rest (i + 1) out
      else
        let inner := slhVerifyHardened crypto key.pk digest pqSig mask
        let out := some (inner, key.tag)
        if inner.maskedRoot.length ≠ inner.expectedRoot.length then
          tryPqKeys revocationOffset digest pqSig mask rest (i + 1) out
        else if countMatched mask inner.maskedRoot inner.expectedRoot 0 ≠ inner.maskedRoot.length then
          tryPqKeys revocationOffset digest pqSig mask rest (i + 1) out
        else pure out

/-- The post-quantum signature lies right behind the signed bytes. -/
def Chip.pqSignature : Bytes :=
  if spim then readBytes chip.spi (hashEnd cfg signedLen) signaturePqLength
  else readBytes chip.rram (cfg.imagePtr + (signedLen + unsignedLen)) signaturePqLength

def pqChecks (mask : Nat) : ChipM (Option (HardenedVerifyOutput × Bytes)) := do
  let revocationOffset ← ofOption .died (classicToPqRevocation cfg.revocationOwc)
  let chip ← get
  let signedLen := (chip.header cfg spim).sealedData.signedLen
  let pkSrc := chip.keyRecord cfg
  when (pkSrc.sealedData.magic ≠ magicNumber) (fail .died)
  when (if spim then spiFlashLen < usizeAdd (hashEnd cfg signedLen) signaturePqLength
    else rramRoom cfg < signedLen) (fail .died)
  tryPqKeys crypto revocationOffset (crypto.sha256 (chip.hashedBytes cfg spim signedLen))
    (chip.pqSignature cfg spim signedLen) mask pkSrc.sealedData.pubkeysPq 0 none

def pqMatch : Nat := 0x3C5AA53C

def pqNomatch : Nat := 0xC3A53C0F

/-- The two verdicts on the output of the post-quantum checks, and the tag of the key. -/
def pqVerdict (mask : Nat) :
    Option (HardenedVerifyOutput × Bytes) → ChipM (Nat × Nat × Bytes)
  | none => pure (pqNomatch, pqNomatch, developerTag)
  | some (out, tag) => do
    let mr := out.maskedRoot
    let er := out.expectedRoot
    when (mr.length = 0 ∨ er.length = 0 ∨ mr.length ≠ er.length) (fail .died)
    when (32 ≤ mr.length) (fail .died)
    if countMatched mask mr er 0 = mr.length then
      pure (pqMatch, if recountMatched mask mr er 0 = er.length then pqMatch else pqNomatch, tag)
    else pure (pqNomatch, pqNomatch, tag)

/-- The votes of the two counters on the verdict. -/
def pqDecision (verdict verdictDup reqA reqB : Nat) : ChipM Unit := do
  when (verdict ≠ verdictDup) (fail .died)
  let pqMatched := verdict == pqMatch && verdictDup == pqMatch
  let pqUnmatched := verdict == pqNomatch && verdictDup == pqNomatch
  when (pqMatched == pqUnmatched) (fail .died)
  let okA := pqMatched || reqA == 0
  let okB := !pqUnmatched || reqB == 0
  when (!(okA && okB)) (fail (.refused "PQ required but no valid PQ signature found"))
  let required := reqA != 0 || reqB != 0
  when (!pqMatched && required) (fail .died)

/-- Raise the counter until it has reached the value of the image. -/
def raiseCounter (arb antiRollback : Nat) : Nat → ChipM Unit
  | 0 => pure ()
  | fuel + 1 => do
    if (← owcGet arb) < antiRollback then
      owcInc arb
      raiseCounter arb antiRollback fuel
    else pure ()

def checkAntiRollback (sealedData : SealedFields) (audit : HardenedBool) : ChipM Unit := do
  match (FunctionCode.ofWord sealedData.functionCode).toAntiRollbackCounter with
  | none => fail (.refused "Invalid anti-rollback code, aborting")
  | some arb => do
    let arbValue ← owcGet arb
    when (sealedData.antiRollback < arbValue)
      (fail (.refused ("Anti-rollback code too old, refusing image: " ++ toString arbValue)))
    when audit.isTrue.isNone (fail .died)
    when (arbValue < sealedData.antiRollback) do
      when (onewayMaxValue ≤ sealedData.antiRollback)
        (fail (.refused "Proposed anti-rollback value out of range"))
      when (onewayMaxDelta ≤ sealedData.antiRollback - arbValue)
        (fail (.refused "Proposed anti-rollback increment out of range"))
      match audit.isTrue with
      | none => fail .died
      | some true => pure ()
      | some false =>
        -- the difference bounds the number of turns of the loop
        raiseCounter arb sealedData.antiRollback (sealedData.antiRollback - arbValue)

/-- What an accepted image is reported with: key, key again, tag, masked jump target, tag of the
post-quantum key. -/
structure Accepted where
  key : Nat
  keyInv : Nat
  tag : Bytes
  target : Nat
  pqTag : Option Bytes

/-- `validate_image`; `mask` is the random word of the run, or the hard-wired one. -/
def validateImage (mask : Nat) (audit : HardenedBool) : ChipM Accepted := do
  let chip ← get
  let sig := chip.header cfg spim
  let pkSrc := chip.keyRecord cfg
  when (pkSrc.sealedData.magic ≠ magicNumber)
    (fail (.refused "Invalid magic number in verifying key record"))
  when (sig.sealedData.magic ≠ magicNumber)
    (fail (.refused "Invalid magic number on incoming record to be verified"))
  when (!sig.isCompatible) (fail (.refused "incompatible sigblock version"))
  when (!cfg.functionCodes.contains sig.sealedData.functionCode)
    (fail (.refused "Partition has invalid function code"))
  match ← tryKeys crypto cfg spim sig pkSrc.sealedData.pubkeys 0 with
  | none => fail (.refused "No valid pubkeys found or signature invalid")
  | some validKey => do
    let (reqA, reqB) ← hardenedGet2 requirePq requirePqDupe
    let (verdict, verdictDup, pqTag) ← pqVerdict mask (← pqChecks crypto cfg spim mask)
    pqDecision verdict verdictDup reqA reqB
    checkAntiRollback sig.sealedData audit
    let validKey2 := 2 ^ 32 - 1 - validKey
    when (validKey = validKey2) (fail .died)
    let tag ← ofOption .died (pkSrc.sealedData.pubkeys[validKey]?.map (·.tag))
    pure
      { key := validKey
        keyInv := validKey2
        tag
        target := (cfg.imagePtr + headerLen) ^^^ fromLeBytes tag
        pqTag := if verdict = pqMatch then some pqTag else none }

end Validate

end

open Function

theorem spiPages_eq (spi : Nat → UInt8) (start stop : Nat) :
    spiPages spi start stop = readBytes spi start (stop - start) := by
  -- after `n` pages the bytes read are an initial part
  have hpages : ∀ n, ((List.range n).flatMap fun k =>
      let offset := start + k * pageSize
      let validLength := if offset + pageSize < stop then pageSize else stop - offset
      (readBytes spi offset pageSize).take validLength) =
      readBytes spi start (min (n * pageSize) (stop - start)) := by
    intro n
    induction n with
    | zero => simp [readBytes]
    | succ n ih =>
      rw [List.range_succ, List.flatMap_append, ih, List.flatMap_singleton]
      by_cases hin : n * pageSize ≤ stop - start
      · rw [take_readBytes]
        · rw [Nat.min_eq_left hin, ← readBytes_add]
          congr 1
          split <;> rename_i hlast <;> simp only [pageSize] at * <;> omega
        · split <;> rename_i hlast <;> simp only [pageSize] at * <;> omega
      · have hout : ¬(start + n * pageSize + pageSize < stop) := by
          simp only [pageSize] at *
          omega
        have hnone : stop - (start + n * pageSize) = 0 := by omega
        have hwhole : stop - start ≤ (n + 1) * pageSize := by
          simp only [pageSize] at *
          omega
        simp only [hout, if_false, hnone, List.take_zero, List.append_nil]
        rw [Nat.min_eq_right (by omega), Nat.min_eq_right hwhole]
  rw [spiPages, hpages]
  congr 1
  simp only [pageSize]
  omega

theorem hardenedSum_eq_zero {value : Nat} : hardenedSum value = 0 ↔ value = 0 := by
  simp only [hardenedSum, List.range, List.range.loop, List.foldl]
  omega

section

variable {crypto : Crypto} {cfg : SecurityConfiguration} {spim : Bool} {chip : Chip}

/-- The program changes nothing, and what it returns is as described. -/
abbrev Reads {ε α : Type} (m : Prog ε Chip α) (P : α → Prop) (chip : Chip) : Prop :=
  Post m (fun r chip' => chip' = chip ∧ P r) (fun _ chip' => chip' = chip) chip

theorem hardenedGet2_post (offset dupe : Nat) :
    Reads (hardenedGet2 offset dupe)
      (· = (hardenedSum (chip.counters offset), hardenedSum (chip.counters dupe))) chip := by
  unfold hardenedGet2
  simp only [post_ite, post_fail, post_gets, implies_true, and_self]

theorem hashImage_post (signedLen : Nat) :
    Reads (hashImage cfg spim signedLen) (· = chip.hashedBytes cfg spim signedLen) chip := by
  unfold hashImage
  cases spim <;> simp

theorem verifyClassic_post (sig : SignatureInFlash) (key : Pubkey) (image : Bytes) :
    Reads (verifyClassic crypto sig key image) (· = verifies crypto sig key image) chip := by
  unfold verifyClassic
  simp

/-- The key of the slot has a tag and none of its two revocation counters is set. -/
def Chip.Usable (chip : Chip) (key : Pubkey) (revocation dupe : Nat) : Prop :=
  key.tag ≠ emptyTag ∧ chip.counters revocation = 0 ∧ chip.counters dupe = 0

/-- The key in slot `k` is usable and the signature verifies under it over what was hashed; the list
has the keys from slot `i` on. -/
def Passes (crypto : Crypto) (cfg : SecurityConfiguration) (spim : Bool) (chip : Chip)
    (sig : SignatureInFlash) (keys : List Pubkey) (i k : Nat) : Prop :=
  ∃ j key, k = i + j ∧ keys[j]? = some key ∧
    chip.Usable key (cfg.revocationOwc + k)
      (usizeSub (cfg.revocationOwc + k) revocationDupeDistance) ∧
    verifies crypto sig key (chip.hashedBytes cfg spim sig.sealedData.signedLen) = true

theorem Passes.tail {sig : SignatureInFlash} {key : Pubkey} {rest : List Pubkey} {i k : Nat}
    (h : Passes crypto cfg spim chip sig rest (i + 1) k) :
    Passes crypto cfg spim chip sig (key :: rest) i k := by
  obtain ⟨j, key', hj, hget, huse, hver⟩ := h
  exact ⟨j + 1, key', by omega, by simpa using hget, huse, hver⟩

theorem tryKeys_post (sig : SignatureInFlash) (keys : List Pubkey) (i : Nat) :
    Reads (tryKeys crypto cfg spim sig keys i)
      (fun passing => ∀ k, passing = some k → Passes crypto cfg spim chip sig keys i k) chip := by
  induction keys generalizing i with
  | nil => simp [tryKeys]
  | cons key rest ih =>
    have hrest : Reads (tryKeys crypto cfg spim sig rest (i + 1))
        (fun passing => ∀ k, passing = some k → Passes crypto cfg spim chip sig (key :: rest) i k) chip :=
      (ih (i + 1)).imp fun _ _ ⟨hsame, hkey⟩ => ⟨hsame, fun k hk => (hkey k hk).tail⟩
    rw [Reads, tryKeys, post_ite]
    refine ⟨fun _ => hrest, fun htag => ?_⟩
    apply (hardenedGet2_post _ _).bind
    rintro r chip' ⟨rfl, rfl⟩
    simp only [post_ite]
    refine ⟨fun _ => hrest, fun hrevA => ⟨fun _ => hrest, fun hrevB => ?_⟩⟩
    rw [not_not, hardenedSum_eq_zero] at hrevA hrevB
    rw [post_bind, post_when]
    refine ⟨fun _ => rfl, fun _ => ?_⟩
    apply (hashImage_post _).bind
    rintro image chip'' ⟨rfl, rfl⟩
    apply (verifyClassic_post _ _ _).bind
    rintro verified chip'' ⟨rfl, rfl⟩
    rw [post_ite]
    refine ⟨fun hver => ⟨rfl, ?_⟩, fun _ => hrest⟩
    intro k hk
    obtain rfl := Option.some.inj hk
    exact ⟨0, key, rfl, rfl, ⟨htag, hrevA, hrevB⟩, hver⟩

/-- The root that the signature leads to is the root of the key. -/
def Crypto.pqVerifies (crypto : Crypto) (key : Pubkey) (image pqSig : Bytes) : Prop :=
  crypto.candidateRoot key.pk (crypto.sha256 image) pqSig = crypto.pkRoot key.pk

/-- The output is that for a usable key of the record. -/
def PqTried (crypto : Crypto) (chip : Chip) (revocationOffset : Nat) (digest pqSig : Bytes) (mask : Nat)
    (keys : List Pubkey) (i : Nat) (out : HardenedVerifyOutput × Bytes) : Prop :=
  ∃ j key, keys[j]? = some key ∧
    chip.Usable key (revocationOffset + (i + j))
      (usizeSub (revocationOffset + (i + j)) pqRevocationDupeDistance) ∧
    out = (slhVerifyHardened crypto key.pk digest pqSig mask, key.tag)

theorem PqTried.tail {revocationOffset : Nat} {digest pqSig : Bytes} {mask : Nat} {key : Pubkey}
    {rest : List Pubkey} {i : Nat} {out : HardenedVerifyOutput × Bytes}
    (h : PqTried crypto chip revocationOffset digest pqSig mask rest (i + 1) out) :
    PqTried crypto chip revocationOffset digest pqSig mask (key :: rest) i out := by
  obtain ⟨j, key', hget, huse, hout⟩ := h
  refine ⟨j + 1, key', by simpa using hget, ?_, hout⟩
  rwa [show i + (j + 1) = i + 1 + j by omega]

theorem tryPqKeys_post (revocationOffset : Nat) (digest pqSig : Bytes) (mask : Nat)
    (keys : List Pubkey) (i : Nat) (out : Option (HardenedVerifyOutput × Bytes)) :
    Reads (tryPqKeys crypto revocationOffset digest pqSig mask keys i out)
      (fun out' => ∀ o, out' = some o → out = some o ∨
        PqTried crypto chip revocationOffset digest pqSig mask keys i o) chip := by
  induction keys generalizing i out with
  | nil => exact ⟨rfl, fun o ho => .inl ho⟩
  | cons key rest ih =>
    have hskip : Reads (tryPqKeys crypto revocationOffset digest pqSig mask rest (i + 1) out)
        (fun out' => ∀ o, out' = some o → out = some o ∨
          PqTried crypto chip revocationOffset digest pqSig mask (key :: rest) i o) chip :=
      (ih (i + 1) out).imp fun _ _ ⟨hsame, hout⟩ => ⟨hsame, fun o ho => (hout o ho).imp_right PqTried.tail⟩
    rw [Reads, tryPqKeys, post_ite]
    refine ⟨fun _ => hskip, fun htag => ?_⟩
    apply (hardenedGet2_post _ _).bind
    rintro r chip' ⟨rfl, rfl⟩
    simp only [post_ite]
    refine ⟨fun _ => hskip, fun hrevA => ⟨fun _ => hskip, fun hrevB => ⟨fun _ => hskip,
      fun _ => ⟨fun _ => hskip, fun _ => ?_⟩⟩⟩⟩
    rw [not_not, hardenedSum_eq_zero] at hrevA hrevB
    have htried : PqTried crypto chip' revocationOffset digest pqSig mask (key :: rest) i
        (slhVerifyHardened crypto key.pk digest pqSig mask, key.tag) :=
      ⟨0, key, rfl, ⟨htag, hrevA, hrevB⟩, rfl⟩
    -- the key just tried is reported unless a later one is
    have hnext : Reads (tryPqKeys crypto revocationOffset digest pqSig mask rest (i + 1)
          (some (slhVerifyHardened crypto key.pk digest pqSig mask, key.tag)))
        (fun out' => ∀ o, out' = some o → out = some o ∨
          PqTried crypto chip' revocationOffset digest pqSig mask (key :: rest) i o) chip' := by
      apply (ih (i + 1) _).imp
      rintro out' chip'' ⟨hsame, hout⟩
      refine ⟨hsame, fun o ho => .inr ?_⟩
      rcases hout o ho with hlast | hlater
      · exact Option.some.inj hlast ▸ htried
      · exact hlater.tail
    refine ⟨fun _ => hnext, fun _ => ⟨fun _ => hnext, fun _ => ⟨rfl, ?_⟩⟩⟩
    intro o ho
    exact .inr (Option.some.inj ho ▸ htried)

theorem eq_of_countMatched {mask : Nat} {root expected : Bytes} {i : Nat} (hlen : root.length = expected.length)
    (h : countMatched mask (root.mapIdx fun j byte => byte ^^^ unmask mask (i + j)) expected i =
      root.length) : root = expected := by
  induction root generalizing expected i with
  | nil => exact (List.length_eq_zero_iff.mp hlen.symm).symm
  | cons byte root ih =>
    cases expected with
    | nil => simp at hlen
    | cons e expected =>
      rw [List.mapIdx_cons, countMatched] at h
      split at h
      · simp at h
      · rename_i hbyte
        rw [not_not, Nat.add_zero, UInt8.xor_assoc, UInt8.xor_self, UInt8.xor_zero] at hbyte
        have hshift : (fun j (byte : UInt8) => byte ^^^ unmask mask (i + (j + 1))) =
            fun j byte => byte ^^^ unmask mask (i + 1 + j) := by
          funext j byte
          rw [show i + (j + 1) = i + 1 + j by omega]
        rw [hshift] at h
        simp only [List.length_cons, Nat.add_right_cancel_iff] at h hlen
        rw [hbyte, ih hlen h]

theorem pqVerdict_post (mask : Nat) (out : Option (HardenedVerifyOutput × Bytes)) :
    Reads (pqVerdict mask out) (fun r => r.1 = pqMatch → ∃ o tag, out = some (o, tag) ∧
        countMatched mask o.maskedRoot o.expectedRoot 0 = o.maskedRoot.length) chip := by
  cases out with
  | none => exact ⟨rfl, fun h => absurd h (by decide)⟩
  | some o =>
    obtain ⟨o, tag⟩ := o
    unfold pqVerdict
    simp only [post_bind, post_when, post_fail, post_ite, post_pure]
    refine ⟨fun _ => trivial, fun _ => ⟨fun _ => trivial, fun _ => ⟨fun hmatch => ⟨trivial, fun _ => ?_⟩,
      fun _ => ⟨trivial, fun h => absurd h (by decide)⟩⟩⟩⟩
    exact ⟨o, tag, rfl, hmatch⟩

theorem pqDecision_post (verdict verdictDup reqA reqB : Nat) :
    Reads (pqDecision verdict verdictDup reqA reqB) (fun _ => reqA ≠ 0 ∨ reqB ≠ 0 → verdict = pqMatch) chip := by
  unfold pqDecision
  simp only [post_bind, post_when, post_fail, implies_true, true_and]
  intro _ _ _ hrequired hreq
  by_contra hno
  have hany : (reqA != 0 || reqB != 0) = true := by simpa using hreq
  have hnot : (verdict == pqMatch) = false := by simpa using hno
  simp [hany, hnot] at hrequired

def Chip.setCounter (chip : Chip) (arb value : Nat) : Chip :=
  { chip with counters := update chip.counters arb value }

theorem Chip.setCounter_self (chip : Chip) (arb : Nat) : chip.setCounter arb (chip.counters arb) = chip := by
  rw [setCounter, update_eq_self]

theorem owcGet_eq {arb : Nat} (harb : arb < maxOnewayCounters) (chip : Chip) :
    owcGet arb chip = .ok (chip.counters arb) chip := by
  rw [owcGet, if_pos harb]
  rfl

theorem raiseCounter_eq {arb antiRollback : Nat} (harb : arb < maxOnewayCounters)
    (hbound : antiRollback < 2 ^ 32) (fuel : Nat) (chip : Chip)
    (hfuel : chip.counters arb + fuel = antiRollback) :
    raiseCounter arb antiRollback fuel chip = .ok () (chip.setCounter arb antiRollback) := by
  induction fuel generalizing chip with
  | zero =>
    rw [← hfuel, Nat.add_zero, Chip.setCounter_self]
    rfl
  | succ fuel ih =>
    have hlt : chip.counters arb < antiRollback := by omega
    have hinc : owcInc arb chip = .ok () (chip.setCounter arb (chip.counters arb + 1)) := by
      rw [owcInc, modify_apply, Nat.mod_eq_of_lt (by omega)]
      rfl
    have hnext := ih (chip.setCounter arb (chip.counters arb + 1)) (by simp [Chip.setCounter]; omega)
    rw [raiseCounter, bind_apply, owcGet_eq harb]
    simp only [hlt, if_true]
    rw [bind_apply, hinc]
    show raiseCounter arb antiRollback fuel _ = _
    rw [hnext]
    simp only [Chip.setCounter, update_idem]

namespace HardenedBool

theorem isTrue_eq_true {b : HardenedBool} : b.isTrue = some true ↔ b = TRUE := by
  unfold isTrue
  split
  · simp [*]
  · split
    · rename_i h
      subst h
      decide
    · simp [*]

theorem isTrue_eq_false {b : HardenedBool} : b.isTrue = some false ↔ b = FALSE := by
  unfold isTrue
  split
  · rename_i h
    subst h
    decide
  · split <;> simp [*]

end HardenedBool

/-- The effect of an accepted image on the counters. -/
def Chip.Raised (chip : Chip) (sealedData : SealedFields) (audit : HardenedBool) (chip' : Chip) : Prop :=
  ∃ arb, (FunctionCode.ofWord sealedData.functionCode).toAntiRollbackCounter = some arb ∧
    chip.counters arb ≤ sealedData.antiRollback ∧
    (audit = .TRUE ∧ chip' = chip ∨
      audit = .FALSE ∧ chip' = chip.setCounter arb sealedData.antiRollback)

theorem checkAntiRollback_post (sealedData : SealedFields) (audit : HardenedBool) :
    Post (checkAntiRollback sealedData audit) (fun _ chip' => chip.Raised sealedData audit chip')
      (fun _ chip' => chip' = chip) chip := by
  unfold checkAntiRollback
  cases hclass : (FunctionCode.ofWord sealedData.functionCode).toAntiRollbackCounter with
  | none => rfl
  | some arb =>
    have harb := FunctionCode.toAntiRollbackCounter_lt hclass
    simp only [post_bind, post_when, post_fail]
    rw [Post, owcGet_eq harb]
    simp only [decide_eq_true_eq, decide_eq_false_iff_not, not_lt, implies_true, true_and]
    intro hle haudit
    constructor
    · intro hlt hmax _
      cases hflag : audit.isTrue with
      | none => simp [hflag] at haudit
      | some flag =>
        cases flag with
        | true => exact ⟨arb, hclass, hle, .inl ⟨HardenedBool.isTrue_eq_true.mp hflag, rfl⟩⟩
        | false =>
          have hbound : sealedData.antiRollback < 2 ^ 32 := by
            simp only [onewayMaxValue] at hmax
            omega
          have hraise := raiseCounter_eq harb hbound (sealedData.antiRollback - chip.counters arb) chip (by omega)
          show Post (raiseCounter _ _ _) _ _ _
          rw [Post, hraise]
          exact ⟨arb, hclass, hle, .inr ⟨HardenedBool.isTrue_eq_false.mp hflag, rfl⟩⟩
    · intro hge
      have hself := chip.setCounter_self arb
      rw [Nat.le_antisymm hle hge] at hself
      cases hflag : audit.isTrue with
      | none => simp [hflag] at haudit
      | some flag =>
        cases flag with
        | true => exact ⟨arb, hclass, hle, .inl ⟨HardenedBool.isTrue_eq_true.mp hflag, rfl⟩⟩
        | false => exact ⟨arb, hclass, hle, .inr ⟨HardenedBool.isTrue_eq_false.mp hflag, hself.symm⟩⟩

/-- The bytes that are hashed by the length in the header. -/
abbrev Chip.signedBytes (chip : Chip) (cfg : SecurityConfiguration) (spim : Bool) : Bytes :=
  chip.hashedBytes cfg spim (chip.header cfg spim).sealedData.signedLen

/-- A usable post-quantum key of the record verifies over the bytes. -/
def PqPasses (crypto : Crypto) (cfg : SecurityConfiguration) (spim : Bool) (chip : Chip)
    (image : Bytes) : Prop :=
  ∃ offset j key, classicToPqRevocation cfg.revocationOwc = some offset ∧
    (chip.keyRecord cfg).sealedData.pubkeysPq[j]? = some key ∧
    chip.Usable key (offset + j) (usizeSub (offset + j) pqRevocationDupeDistance) ∧
    crypto.pqVerifies key image (chip.pqSignature cfg spim (chip.header cfg spim).sealedData.signedLen)

theorem pqChecks_post (mask : Nat) :
    Reads (pqChecks crypto cfg spim mask) (fun out => ∀ o tag, out = some (o, tag) →
        countMatched mask o.maskedRoot o.expectedRoot 0 = o.maskedRoot.length → PqPasses crypto cfg spim chip (chip.signedBytes cfg spim)) chip := by
  unfold pqChecks
  simp only [post_bind, post_ofOption, post_get, post_when, post_fail, implies_true, true_and, and_true]
  intro offset hoffset _ _
  apply (tryPqKeys_post _ _ _ _ _ _ _).imp
  rintro out chip' ⟨rfl, hout⟩
  refine ⟨rfl, fun o tag ho hmatch => ?_⟩
  obtain ⟨j, key, hget, huse, heq⟩ := (hout _ ho).resolve_left (by simp)
  rw [Nat.zero_add] at huse
  refine ⟨offset, j, key, hoffset, hget, huse, ?_⟩
  obtain ⟨rfl, rfl⟩ := Prod.mk.inj heq
  apply eq_of_countMatched (i := 0)
  · rw [crypto.length_candidateRoot, crypto.length_pkRoot]
  · simpa [slhVerifyHardened] using hmatch

theorem Passes.lt {k : Nat} (h : Passes crypto cfg spim chip (chip.header cfg spim)
      (chip.keyRecord cfg).sealedData.pubkeys 0 k) : k < 4 := by
  obtain ⟨j, key, rfl, hget, -⟩ := h
  have hlen := (List.getElem?_eq_some_iff.mp hget).1
  simpa [Chip.keyRecord, SignatureInFlash.read, SealedFields.read] using hlen

theorem validateImage_post (mask : Nat) (audit : HardenedBool) :
    Post (validateImage crypto cfg spim mask audit) (fun accepted chip' =>
        (Passes crypto cfg spim chip (chip.header cfg spim) (chip.keyRecord cfg).sealedData.pubkeys 0 accepted.key ∧
        (chip.counters requirePq ≠ 0 ∨ chip.counters requirePqDupe ≠ 0 → PqPasses crypto cfg spim chip (chip.signedBytes cfg spim)) ∧
        accepted.target ^^^ fromLeBytes accepted.tag = cfg.imagePtr + headerLen) ∧
        chip.Raised (chip.header cfg spim).sealedData audit chip')
      (fun _ chip' => chip' = chip) chip := by
  unfold validateImage
  simp only [post_bind, post_get, post_when, post_fail, implies_true, true_and]
  intro _ _ _ _
  apply (tryKeys_post _ _ _).imp
  rintro passing chip' ⟨rfl, hpasses⟩
  cases passing with
  | none => rfl
  | some k =>
    apply (hardenedGet2_post _ _).bind
    rintro r chip'' ⟨rfl, rfl⟩
    apply (pqChecks_post _).bind
    rintro out chip'' ⟨rfl, hpq⟩
    apply (pqVerdict_post _ _).bind
    rintro ⟨verdict, verdictDup, pqTag⟩ chip'' ⟨rfl, hverdict⟩
    apply (pqDecision_post _ _ _ _).bind
    rintro _ chip'' ⟨rfl, hdecision⟩
    apply (checkAntiRollback_post _ _).bind
    intro _ raised hraised
    -- the key is in the record, so that nothing fails any more
    have hk := (hpasses k rfl).lt
    obtain ⟨j, key, hj, hget, -⟩ := hpasses k rfl
    rw [Nat.zero_add] at hj
    subst hj
    simp only [post_bind, post_when, post_fail, post_ofOption, post_pure, hget, Option.map_some]
    refine ⟨fun hsame => ?_, fun _ => ⟨fun tag _ => ⟨⟨hpasses k rfl, fun hrequired => ?_, ?_⟩, hraised⟩, (by simp)⟩⟩
    · rw [decide_eq_true_eq] at hsame
      omega
    · have hvotes := hrequired.imp (mt hardenedSum_eq_zero.mp) (mt hardenedSum_eq_zero.mp)
      obtain ⟨o, otag, hout, hmatch⟩ := hverdict (hdecision hvotes)
      exact hpq o otag hout hmatch
    · rw [Nat.xor_assoc, Nat.xor_self, Nat.xor_zero]

/-- The four bytes at the offset are a word of the bytes. -/
def WordAt (bytes : Bytes) (offset value : Nat) : Prop :=
  offset + 4 ≤ bytes.length ∧ fromLeBytes ((bytes.drop offset).take 4) = value

/-- What the acceptance of an image stands for. -/
structure Covered (crypto : Crypto) (cfg : SecurityConfiguration) (spim : Bool) (chip : Chip)
    (accepted : Accepted) : Prop where
  /-- The key has a tag, is not revoked and verifies over the hashed bytes. -/
  key : Passes crypto cfg spim chip (chip.header cfg spim)
    (chip.keyRecord cfg).sealedData.pubkeys 0 accepted.key
  /-- These are exactly the signed bytes behind the unsigned part of the header. -/
  exact : chip.signedBytes cfg spim =
    readBytes (chip.imageMemory spim) (cfg.imagePtr + unsignedLen)
      (chip.header cfg spim).sealedData.signedLen
  /-- They contain the fields that were checked. -/
  length : WordAt (chip.signedBytes cfg spim)
    signedLenOffset (chip.header cfg spim).sealedData.signedLen
  functionCode : WordAt (chip.signedBytes cfg spim)
    functionCodeOffset (chip.header cfg spim).sealedData.functionCode
  antiRollback : WordAt (chip.signedBytes cfg spim)
    antiRollbackOffset (chip.header cfg spim).sealedData.antiRollback
  /-- They contain the place that is jumped to. -/
  entry : ∃ i < (chip.signedBytes cfg spim).length,
    accepted.target ^^^ fromLeBytes accepted.tag = cfg.imagePtr + unsignedLen + i
  /-- A post-quantum key verifies over them if one is asked for. -/
  postQuantum : chip.counters requirePq ≠ 0 ∨ chip.counters requirePqDupe ≠ 0 →
    PqPasses crypto cfg spim chip (chip.signedBytes cfg spim)

/-- The signed bytes reach past the entry point, and their end is not past that of the address
space. -/
def LengthFits (cfg : SecurityConfiguration) (spim : Bool) (signedLen : Nat) : Prop :=
  headerLen < unsignedLen + signedLen ∧
    (spim = true → cfg.imagePtr + unsignedLen + signedLen < 2 ^ 32)

theorem hashedBytes_eq_iff (chip : Chip) (signedLen : Nat) (hlen : 0 < signedLen) :
    chip.hashedBytes cfg spim signedLen = readBytes (chip.imageMemory spim) (cfg.imagePtr + unsignedLen) signedLen ↔
      (spim = true → cfg.imagePtr + unsignedLen + signedLen < 2 ^ 32) := by
  cases spim with
  | false => simp [Chip.hashedBytes, Chip.imageMemory]
  | true =>
    have hspace := cfg.inSpace
    have hstart : usizeAdd cfg.imagePtr unsignedLen = cfg.imagePtr + unsignedLen := by
      apply usizeAdd_eq
      simp only [headerLen, unsignedLen, signatureLength, aadLength] at *
      omega
    simp only [Chip.hashedBytes, Chip.imageMemory, if_true, spiPages_eq, hashEnd, hstart, forall_const]
    constructor
    · intro heq
      have hsize := congrArg List.length heq
      rw [length_readBytes, length_readBytes] at hsize
      have hend := usizeAdd_lt (cfg.imagePtr + unsignedLen) signedLen
      omega
    · intro hfits
      rw [usizeAdd_eq hfits, Nat.add_sub_cancel_left]

theorem wordAt_readBytes {mem : Nat → UInt8} {addr len offset : Nat} (h : offset + 4 ≤ len) :
    WordAt (readBytes mem addr len) offset (u32At mem (addr + offset)) := by
  refine ⟨by simpa using h, ?_⟩
  rw [drop_readBytes _ _ (by omega), take_readBytes _ _ (by omega)]
  rfl

/-- The acceptance of an image stands for what it should just when the length in its header fits. -/
theorem accepted_images_are_covered_iff {mask : Nat} {audit : HardenedBool} {accepted : Accepted}
    {chip' : Chip} (h : validateImage crypto cfg spim mask audit chip = .ok accepted chip') :
    Covered crypto cfg spim chip accepted ↔
      LengthFits cfg spim (chip.header cfg spim).sealedData.signedLen := by
  obtain ⟨⟨hkey, hpq, htarget⟩, -⟩ := (validateImage_post mask audit).ok h
  constructor
  · intro hcovered
    obtain ⟨i, hi, hentry⟩ := hcovered.entry
    have hexact := hcovered.exact
    rw [hexact, length_readBytes] at hi
    have hpos : 0 < (chip.header cfg spim).sealedData.signedLen := by omega
    refine ⟨?_, (hashedBytes_eq_iff chip _ hpos).mp hexact⟩
    rw [htarget] at hentry
    omega
  · rintro ⟨hreach, hwrap⟩
    have hlen : headerLen - unsignedLen < (chip.header cfg spim).sealedData.signedLen := by
      simp only [headerLen, unsignedLen, signatureLength, aadLength] at hreach ⊢
      omega
    have hroom : 24 < (chip.header cfg spim).sealedData.signedLen :=
      Nat.lt_of_le_of_lt (by decide) hlen
    have hexact : chip.signedBytes cfg spim = _ := (hashedBytes_eq_iff chip _ (by omega)).mpr hwrap
    refine ⟨hkey, hexact, ?_, ?_, ?_, ?_, hpq⟩
    · rw [hexact]
      exact wordAt_readBytes (by simp only [signedLenOffset]; omega)
    · rw [hexact]
      exact wordAt_readBytes (by simp only [functionCodeOffset]; omega)
    · rw [hexact]
      exact wordAt_readBytes (by simp only [antiRollbackOffset]; omega)
    · refine ⟨headerLen - unsignedLen, ?_, ?_⟩
      · rwa [hexact, length_readBytes]
      · rw [htarget]
        simp only [headerLen, unsignedLen, signatureLength, aadLength]

end

/-- A verifier with trivial hashes and without post-quantum keys. -/
def Crypto.plain (verify : Bytes → Bool) : Crypto where
  sha512 := id
  sha256 := id
  validKey _ := true
  verifyPrehashed _ digest _ := verify digest
  verifyStrict _ message _ := verify message
  validPqKey _ := false
  validPqSignature _ := false
  candidateRoot _ _ _ := List.replicate 16 0
  pkRoot _ := List.replicate 16 0
  length_candidateRoot _ _ _ := rfl
  length_pkRoot _ := rfl

/-- A signature block with one key, by the bytes that are not zero. -/
def sampleBlock (signedLen functionCode : Nat) (rel : Nat) : UInt8 :=
  match rel with
  | 133 => 1
  | 136 => 0x79
  | 137 => 0x6d
  | 138 => 0x75
  | 139 => 0x79
  | 140 => 0x33
  | 141 => 0x6f
  | 142 => 0x61
  | 143 => 0x42
  | 144 => .ofNat signedLen
  | 145 => .ofNat (signedLen / 2 ^ 8)
  | 146 => .ofNat (signedLen / 2 ^ 16)
  | 147 => .ofNat (signedLen / 2 ^ 24)
  | 148 => .ofNat functionCode
  | 149 => .ofNat (functionCode / 2 ^ 8)
  | 220 => 1
  | _ => 0

/-- A chip with an image for the first stage to boot in its memory and one for the swap in the
flash. -/
def sampleChip (signedLen : Nat) : Chip where
  rram addr := sampleBlock signedLen 2 (addr % 0x20000)
  spi addr := sampleBlock signedLen 0x8000 (addr - loaderToSwap.imagePtr)
  counters _ := 0

theorem not_covered {crypto : Crypto} {cfg : SecurityConfiguration} {spim : Bool} {chip : Chip}
    (hok : (validateImage crypto cfg spim 0 .FALSE chip).returns (fun _ _ => true) = true)
    (hnone : (chip.signedBytes cfg spim).length = 0) :
    ∃ accepted chip', validateImage crypto cfg spim 0 .FALSE chip = .ok accepted chip' ∧
      ¬Covered crypto cfg spim chip accepted := by
  obtain ⟨accepted, chip', hok, -⟩ := Outcome.exists_of_returns hok
  refine ⟨accepted, chip', hok, fun hcovered => ?_⟩
  obtain ⟨i, hi, -⟩ := hcovered.entry
  omega

/-- A length of zero, and one that wraps around in the flash, are accepted with a signature over no
byte at all. -/
theorem images_are_accepted_without_signed_bytes :
    (∃ accepted chip',
      validateImage (.plain (· == [])) boot0ToBoot1 false 0 .FALSE (sampleChip 0) =
        .ok accepted chip' ∧
      ¬Covered (.plain (· == [])) boot0ToBoot1 false (sampleChip 0) accepted) ∧
    (∃ accepted chip',
      validateImage (.plain (· == [])) loaderToSwap true 0 .FALSE (sampleChip (2 ^ 32 - 3460)) =
        .ok accepted chip' ∧
      ¬Covered (.plain (· == [])) loaderToSwap true (sampleChip (2 ^ 32 - 3460)) accepted) :=
  ⟨not_covered (by decide +kernel) (by decide +kernel), not_covered (by decide +kernel) (by decide +kernel)⟩

/-- An image of a thousand signed bytes is accepted and covered. -/
theorem long_image_is_covered :
    ∃ accepted chip',
      validateImage (.plain fun _ => true) boot0ToBoot1 false 0 .FALSE (sampleChip 1000) =
        .ok accepted chip' ∧
      Covered (.plain fun _ => true) boot0ToBoot1 false (sampleChip 1000) accepted := by
  obtain ⟨accepted, chip', hok, -⟩ := Outcome.exists_of_returns
    (show (validateImage (.plain fun _ => true) boot0ToBoot1 false 0 .FALSE (sampleChip 1000)).returns
      (fun _ _ => true) = true by decide +kernel)
  have hlen : ((sampleChip 1000).header boot0ToBoot1 false).sealedData.signedLen = 1000 := by
    decide +kernel
  refine ⟨accepted, chip', hok, (accepted_images_are_covered_iff hok).mpr ?_⟩
  rw [hlen]
  exact ⟨by decide, nofun⟩

open Labelled

/-- A check with the memories that it finds: images come and go between the checks. -/
structure Call where
  cfg : SecurityConfiguration
  spim : Bool
  mask : Nat
  audit : HardenedBool
  rram : Nat → UInt8
  spi : Nat → UInt8

namespace Call

variable (crypto : Crypto) (call : Call) (counters : Nat → Nat)

def chip : Chip := ⟨call.rram, call.spi, counters⟩

def outcome : Outcome Failure Chip Accepted :=
  validateImage crypto call.cfg call.spim call.mask call.audit (call.chip counters)

def accepts : Bool := (call.outcome crypto counters).returns fun _ _ => true

/-- The counters after the check, whether it returned or stopped the processor. -/
def after : Nat → Nat :=
  match call.outcome crypto counters with
  | .ok _ chip' => chip'.counters
  | .err _ chip' => chip'.counters
  | .panic => counters

/-- The header of the image; it does not depend on the counters. -/
def sealedData : SealedFields :=
  (SignatureInFlash.read (if call.spim then call.spi else call.rram) call.cfg.imagePtr).sealedData

def counter : Option Nat := (FunctionCode.ofWord call.sealedData.functionCode).toAntiRollbackCounter

def antiRollback : Nat := call.sealedData.antiRollback

end Call

section

variable {crypto : Crypto} {call : Call} {counters : Nat → Nat}

theorem Call.after_cases (crypto : Crypto) (call : Call) (counters : Nat → Nat) :
    (call.accepts crypto counters = false ∧ call.after crypto counters = counters) ∨
    (call.accepts crypto counters = true ∧ ∃ arb, call.counter = some arb ∧ counters arb ≤ call.antiRollback ∧
        (call.audit = .TRUE ∧ call.after crypto counters = counters ∨
          call.audit = .FALSE ∧ call.after crypto counters = update counters arb call.antiRollback)) := by
  have heffect : Post (validateImage crypto call.cfg call.spim call.mask call.audit) _ _
      (call.chip counters) := (validateImage_post call.mask call.audit).imp fun _ _ h => h.2
  unfold accepts after
  unfold Post at heffect
  rw [← outcome] at heffect
  cases hout : call.outcome crypto counters with
  | ok accepted chip' =>
    rw [hout] at heffect
    obtain ⟨arb, hclass, hle, haudit⟩ := heffect
    refine .inr ⟨rfl, arb, hclass, hle, haudit.imp ?_ ?_⟩
    · rintro ⟨hflag, rfl⟩
      exact ⟨hflag, rfl⟩
    · rintro ⟨hflag, rfl⟩
      exact ⟨hflag, rfl⟩
  | err e chip' =>
    rw [hout] at heffect
    exact .inl ⟨rfl, congrArg Chip.counters heffect⟩
  | panic => exact .inl ⟨rfl, rfl⟩

theorem Call.le_after (i : Nat) : counters i ≤ call.after crypto counters i := by
  obtain ⟨-, hsame⟩ | ⟨-, arb, -, hle, ⟨-, hsame⟩ | ⟨-, hraised⟩⟩ := call.after_cases crypto counters
  · rw [hsame]
  · rw [hsame]
  · rw [hraised]
    by_cases hi : i = arb
    · rwa [hi, update_self]
    · rw [update_of_ne hi]

def CallStep (crypto : Crypto) (counters : Nat → Nat) (call : Call) (counters' : Nat → Nat) : Prop :=
  counters' = call.after crypto counters

theorem le_of_run {start : Nat → Nat} {calls : List Call} (i : Nat)
    (run : Run (CallStep crypto) start calls counters) : start i ≤ counters i := by
  apply run.invariant (I := fun c => start i ≤ c i) le_rfl
  rintro c call c' hle rfl
  exact hle.trans (call.le_after i)

/-- Refused images and audits leave the counters alone, an accepted image raises that of its class
to its own value, and none below an earlier accepted one of its class is accepted. -/
theorem rollback_counters_follow_accepted_images (crypto : Crypto) :
    (∀ (call : Call) counters, call.accepts crypto counters = false ∨ call.audit = .TRUE →
      call.after crypto counters = counters) ∧
    (∀ (call : Call) counters, call.accepts crypto counters = true → call.audit = .FALSE →
      ∃ arb, call.counter = some arb ∧
        call.after crypto counters = update counters arb call.antiRollback) ∧
    (∀ (earlier later : Call) calls counters counters', earlier.accepts crypto counters = true →
      earlier.audit = .FALSE → Run (CallStep crypto) (earlier.after crypto counters) calls counters' →
      later.accepts crypto counters' = true → later.counter = earlier.counter →
      earlier.antiRollback ≤ later.antiRollback) := by
  refine ⟨?_, ?_, ?_⟩
  · intro call counters hcase
    obtain ⟨-, hsame⟩ | ⟨haccepts, arb, -, -, ⟨-, hsame⟩ | ⟨haudit, -⟩⟩ := call.after_cases crypto counters
    · exact hsame
    · exact hsame
    · rcases hcase with hno | htrue
      · rw [haccepts] at hno
        contradiction
      · rw [haudit] at htrue
        exact absurd htrue (by decide)
  · intro call counters haccepts haudit
    obtain ⟨hno, -⟩ | ⟨-, arb, hclass, -, ⟨htrue, -⟩ | ⟨-, hraised⟩⟩ := call.after_cases crypto counters
    · rw [hno] at haccepts
      contradiction
    · rw [htrue] at haudit
      exact absurd haudit (by decide)
    · exact ⟨arb, hclass, hraised⟩
  · intro earlier later calls counters counters' hearlier haudit run hlater hclass
    obtain ⟨hno, -⟩ | ⟨-, arb, harb, -, ⟨htrue, -⟩ | ⟨-, hraised⟩⟩ := earlier.after_cases crypto counters
    · rw [hno] at hearlier
      contradiction
    · rw [htrue] at haudit
      exact absurd haudit (by decide)
    · obtain ⟨hno, -⟩ | ⟨-, arb', harb', hle, -⟩ := later.after_cases crypto counters'
      · rw [hno] at hlater
        contradiction
      · rw [hclass, harb, Option.some.injEq] at harb'
        subst harb'
        have hkept := le_of_run arb run
        rw [hraised, update_self] at hkept
        exact hkept.trans hle

end

/-- A check of an image with the given value for the first stage to boot. -/
def sampleCall (antiRollback : Nat) : Call where
  cfg := boot0ToBoot1
  spim := false
  mask := 0
  audit := .FALSE
  rram addr := if addr % 0x20000 = 152 then .ofNat antiRollback else sampleBlock 1000 2 (addr % 0x20000)
  spi _ := 0

/-- The third version is accepted on a new chip and shuts out the second one. -/
theorem third_version_shuts_out_the_second :
    (sampleCall 3).accepts (.plain fun _ => true) (fun _ => 0) = true ∧
    (∃ arb, (sampleCall 3).counter = some arb ∧
      (sampleCall 3).after (.plain fun _ => true) (fun _ => 0) =
        update (fun _ => 0) arb (sampleCall 3).antiRollback) ∧
    (sampleCall 2).accepts (.plain fun _ => true)
      ((sampleCall 3).after (.plain fun _ => true) (fun _ => 0)) = false := by
  have haccepts : (sampleCall 3).accepts (.plain fun _ => true) (fun _ => 0) = true := by
    decide +kernel
  refine ⟨haccepts, ?_, rfl⟩
  exact (rollback_counters_follow_accepted_images (.plain fun _ => true)).2.1 (sampleCall 3) _
    haccepts rfl

end BaochipXous.Sigcheck
