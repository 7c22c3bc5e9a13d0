import BaochipXous.Sigcheck

/-!
The first boot stage. Before it jumps to an image it compares the keys of the manifest with the
reference keys, the indelible ones and the receipt of the image booted last; unless all agree the
collateral goes, four slots of which the last is public. A machine carries the number of writes left
until power fails. The counter-signature is tried with every key, without a tag or revoked or not.
-/

namespace BaochipXous.Boot0

open Prog Sigcheck

section

/-- A data slot, its 32 bytes as one word. -/
abbrev Slot := BitVec 256

@[irreducible] def Slot.ofBytes (bytes : Bytes) : Slot := .ofNat 256 (fromLeBytes bytes)

@[irreducible] def eraseSlot : Slot := .ofBytes (List.replicate 32 0x03)

def collateralSlots : List Nat := [261, 262, 263, 264]

def collateralPublic : Nat := 264

def boot1ReceiptSlots : List Nat := [265, 266, 267, 268]

/-- The slots of the keys of the manufacturer. -/
def referenceKeys : List Nat := [4, 5, 6, 7]

def keySlots : List (List Nat) :=
  [[260], [258], [257], [256], List.range' 8 120, List.range' 1920 128, List.range' 128 128]

def boot1DeveloperState : Nat := 17

def paranoidMode : Nat := 65

def paranoidModeDupe : Nat := 67

def altBootCoding : Nat := 82

def developerMode : Nat := 85

def boot0PubkeyFail : Nat := 87

def boot1PubkeyFail : Nat := 88

structure Machine where
  chip : Chip
  slots : Nat → Slot
  /-- The writes before power fails. -/
  power : Nat
  /-- What is in a slot whose write was cut off. -/
  torn : Slot

inductive Halt where
  | powerLoss
  | died

abbrev BootM := Prog Halt Machine

/-- A step that takes power and that power loss leaves without an effect. -/
def spend : BootM Unit := do
  if (← gets (·.power)) = 0 then fail .powerLoss
  else modify fun m => { m with power := m.power - 1 }

def writeSlot (slot : Nat) (data : Slot) : BootM Unit := do
  if (← gets (·.power)) = 0 then
    modify fun m => { m with slots := Function.update m.slots slot m.torn }
    fail .powerLoss
  else
    modify fun m => { m with slots := Function.update m.slots slot data, power := m.power - 1 }

/-- A program on the memories and the counters; its refusals are for the caller. -/
def onChip {α : Type} (m : ChipM α) : BootM (Except Failure α) := fun machine =>
  match m machine.chip with
  | .ok a chip => .ok (.ok a) { machine with chip }
  | .err e chip => .ok (.error e) { machine with chip }
  | .panic => .panic

def orDie {α : Type} (m : ChipM α) : BootM α := do
  match ← onChip m with
  | .ok a => pure a
  | .error _ => fail .died

/-- Raise a counter, but not so often that it wears out. -/
def incUpTo15 (offset : Nat) : BootM Unit := do
  when (decide ((← orDie (owcGet offset)) < 15)) do
    spend
    orDie (owcInc offset)

def eraseCollateral : BootM Unit := do
  -- only the last slot is looked at
  when (decide ((← gets (·.slots collateralPublic)) ≠ eraseSlot)) do
    forEach collateralSlots fun slot => writeSlot slot eraseSlot

/-- Erase a range of keys; the result is whether all of it read as zero. -/
def eraseRange (range : List Nat) : BootM Bool := do
  let slots ← gets (·.slots)
  when (range.any fun slot => slots slot != eraseSlot) do
    forEach range fun slot => writeSlot slot eraseSlot
  pure (range.all fun slot => slots slot == 0)

def zeroErrThresh : Nat := 64

def eraseSecrets : BootM (Except String Unit) := do
  let zeroKeyCount ← foldEach keySlots 0 fun count range => do
    pure (if ← eraseRange range then count + 1 else count)
  incUpTo15 developerMode
  if zeroErrThresh < zeroKeyCount then
    pure (.error "Saw too many zero-keys. Insufficient privilege to erase keys!")
  else pure (.ok ())

/-- Erase the secrets at the conditions that hold, up to the first error. -/
def eraseSecretsOn : List Bool → BootM (Except String Unit)
  | [] => pure (.ok ())
  | false :: rest => eraseSecretsOn rest
  | true :: rest => do
    match ← eraseSecrets with
    | .ok _ => eraseSecretsOn rest
    | .error e => pure (.error e)

def hardenedErasePolicy (paranoid1 paranoid2 : Nat) (accepted : Accepted) : BootM (Except String Unit) :=
  if accepted.key = developerKeySlot then eraseSecrets
  else
    let isDev := decide (accepted.tag = developerTag)
    let isDevPq := decide (accepted.pqTag = some developerTag)
    let isDevInv := decide (2 ^ 32 - 1 - accepted.keyInv = developerKeySlot)
    let attacked := decide (paranoid1 ≠ paranoid2)
    eraseSecretsOn ([isDev, isDevPq, isDevInv, attacked] ++
      if paranoid1 ≠ 0 ∨ paranoid2 ≠ 0 then
        [decide (accepted.key = developerKeySlot), isDev, isDevInv, attacked, attacked]
      else [])

variable (rram : Nat → UInt8)

/-- The indelible key: its last byte is kept apart. -/
def ifrMatches (i : Nat) (pk : Bytes) : Bool :=
  readBytes rram (0x604001A0 + 0x20 * i) 31 == pk.take 31 && rram (0x60400240 + i) == pk.getD 31 0

def manifestKeys (blockStart : Nat) : List Pubkey :=
  (SignatureInFlash.read rram blockStart).sealedData.pubkeys

/-- Some key of the image is an indelible one. -/
def anyMatches (blockStart : Nat) : Bool :=
  (List.range 4).any fun i => (manifestKeys rram blockStart).any fun key => ifrMatches rram i key.pk

/-- The keys of the image are those of the manufacturer, in the data slots and in the indelible area. -/
def Machine.refkeysAgree (machine : Machine) (pubkeyPtr : Nat) : Bool :=
  let rram := machine.chip.rram
  let keys := manifestKeys rram pubkeyPtr
  ((keys.zip referenceKeys).all fun (key, slot) => machine.slots slot == .ofBytes key.pk) &&
    keys.zipIdx.all fun (key, i) => ifrMatches rram i key.pk

def afterComparison (failCounter : Nat) (goodCompare : HardenedBool) : BootM Unit :=
  match goodCompare.isTrue with
  | some false => do
    incUpTo15 failCounter
    let _ ← eraseSecrets
  | some true => pure ()
  | none => fail .died

def compareRefkeys (pubkeyPtr failCounter : Nat) : BootM HardenedBool := do
  let agree ← gets (·.refkeysAgree pubkeyPtr)
  let goodCompare := if agree then HardenedBool.TRUE else HardenedBool.FALSE
  afterComparison failCounter goodCompare
  pure goodCompare

def requireRefkeys (pubkeyPtr failCounter : Nat) : BootM Unit := do
  if (← compareRefkeys pubkeyPtr failCounter).isTrue = some true then pure ()
  else
    let _ ← eraseSecrets

/-- The part of `SignatureAppendixInFlash` behind the post-quantum signature. -/
structure Appendix where
  manifestSig : Bytes
  manifestAad : Bytes
  manifestAadLen : Nat

/-- The appendix lies behind the signed bytes. -/
def Appendix.read (rram : Nat → UInt8) (blockStart : Nat) : Appendix :=
  let signedLen := (SignatureInFlash.read rram blockStart).sealedData.signedLen
  let addr := blockStart + (signedLen + unsignedLen) + signaturePqLength
  { manifestSig := readBytes rram addr signatureLength
    manifestAad := readBytes rram (addr + signatureLength) aadLength
    manifestAadLen := u32At rram (addr + signatureLength + aadLength) }

/-- The additional data has a length that fits and nothing behind its end. -/
def Appendix.wellFormed (appendix : Appendix) : Bool :=
  decide (appendix.manifestAadLen ≤ aadLength) &&
    (appendix.manifestAad.drop appendix.manifestAadLen).all (· == 0)

variable (crypto : Crypto)

/-- The counter-signature over the signature of the image verifies under the key. -/
def Appendix.verifies (appendix : Appendix) (signature pk : Bytes) : Bool :=
  crypto.validKey pk &&
    if appendix.manifestAadLen = 0 then
      crypto.verifyPrehashed pk (crypto.sha512 signature) appendix.manifestSig
    else
      crypto.verifyStrict pk
        (appendix.manifestAad.take appendix.manifestAadLen ++ crypto.sha256 signature)
        appendix.manifestSig

def tryManifestKeys (crypto : Crypto) (appendix : Appendix) (signature : Bytes) :
    List Pubkey → Nat → BootM HardenedBool
  | [], _ => pure .FALSE
  | key :: rest, i =>
    if appendix.verifies crypto signature key.pk then do
      when (decide (i = developerKeySlot)) eraseCollateral
      pure .TRUE
    else tryManifestKeys crypto appendix signature rest (i + 1)

def checkCounterSig (blockStart : Nat) : BootM HardenedBool := do
  let rram ← gets (·.chip.rram)
  let sigBlock := SignatureInFlash.read rram blockStart
  let appendix := Appendix.read rram blockStart
  if appendix.wellFormed then
    tryManifestKeys crypto appendix sigBlock.signature sigBlock.sealedData.pubkeys 0
  else pure .FALSE

def requireCounterSig (blockStart : Nat) : BootM Unit := do
  let verdict ← checkCounterSig crypto blockStart
  when (decide (verdict.isTrue ≠ some true)) eraseCollateral

/-- At the first key that differs from its receipt the collateral goes, and then all receipts are
written. -/
def checkReceipts (receipts : List (Bytes × Nat)) : List (Bytes × Nat) → BootM Unit
  | [] => pure ()
  | (pk, slot) :: rest => do
    let receipt ← gets (·.slots slot)
    if .ofBytes pk ≠ receipt then
      eraseCollateral
      forEach receipts fun (pk, slot) => writeSlot slot (.ofBytes pk)
    else checkReceipts receipts rest

/-- The keys of the image with the slots of their receipts. -/
def receiptPairs (blockStart : Nat) : List (Bytes × Nat) :=
  ((manifestKeys rram blockStart).map (·.pk)).zip boot1ReceiptSlots

def mutualDistrust (blockStart : Nat) : BootM Unit := do
  let rram ← gets (·.chip.rram)
  if anyMatches rram blockStart then eraseCollateral
  else
    -- the check is made twice
    requireCounterSig crypto blockStart
    requireCounterSig crypto blockStart
  checkReceipts (receiptPairs rram blockStart) (receiptPairs rram blockStart)

section

variable (crypto : Crypto) (masks : Nat → Nat)

/-- `validate_image` on the on-chip memory. A refusal goes to the caller. -/
def validate (cfg : SecurityConfiguration) (mask : Nat) : BootM (Except String Accepted) := do
  match ← onChip (validateImage crypto cfg false mask .FALSE) with
  | .ok accepted => pure (.ok accepted)
  | .error (.refused message) => pure (.error message)
  | .error .died => fail .died

def validateOrDie (cfg : SecurityConfiguration) (mask : Nat) : BootM Accepted := do
  match ← validate crypto cfg mask with
  | .ok accepted => pure accepted
  | .error _ => fail .died

def bootOrder : BootM (List SecurityConfiguration) := do
  if (← orDie (owcGet altBootCoding)) % 2 = 0 then
    match (← orDie (owcGet boot1DeveloperState)) % 4 with
    | 0 => pure [boot0ToBoot1, boot0ToAltboot1]
    | 1 => do
      spend
      orDie (owcInc boot1DeveloperState)
      pure [boot0ToBoot1, boot0ToAltboot1]
    | 2 => do
      spend
      orDie (owcInc boot1DeveloperState)
      pure [boot0ToAltboot1, boot0ToBoot1]
    | _ => pure [boot0ToAltboot1, boot0ToBoot1]
  else pure [boot0ToAltboot1, boot0ToBoot1]

/-- Everything between the acceptance of an image and the jump to it. -/
def enterImage (paranoid1 paranoid2 mask : Nat) (cfg : SecurityConfiguration) (accepted : Accepted) :
    BootM Unit := do
  when (decide (accepted.key ≠ 2 ^ 32 - 1 - accepted.keyInv)) (fail .died)
  requireRefkeys cfg.imagePtr boot1PubkeyFail
  mutualDistrust crypto cfg.imagePtr
  let _ ← hardenedErasePolicy paranoid1 paranoid2 accepted
  when (decide (paranoid1 ≠ 0 ∨ paranoid2 ≠ 0)) do
    let _ ← validateOrDie crypto cfg mask
  -- the jump itself, with the power still on
  spend

/-- Go through the partitions; the result is the one that is jumped to. -/
def tryPartitions (paranoid1 paranoid2 : Nat) :
    List SecurityConfiguration → Nat → BootM SecurityConfiguration
  | [], _ => fail .died
  | cfg :: rest, n => do
    match ← validate crypto cfg (masks n) with
    | .ok accepted => do
      enterImage crypto paranoid1 paranoid2 (masks (n + 1)) cfg accepted
      pure cfg
    | .error _ => tryPartitions paranoid1 paranoid2 rest (n + 2)

def selfCheck (mask : Nat) : BootM Unit := do
  let check ← validateOrDie crypto boot0SelfCheck mask
  when (decide (check.key ≠ 2 ^ 32 - 1 - check.keyInv)) (fail .died)

/-- `rust_entry` from the first comparison of keys on; `masks` are the random words of the run. -/
def rustEntry : BootM SecurityConfiguration := do
  requireRefkeys boot0Start boot0PubkeyFail
  let (paranoid1, paranoid2) ← orDie (hardenedGet2 paranoidMode paranoidModeDupe)
  selfCheck crypto (masks 0)
  when (decide (paranoid1 ≠ paranoid2)) (fail .died)
  when (decide (paranoid1 ≠ 0 ∨ paranoid2 ≠ 0)) (selfCheck crypto (masks 1))
  -- the counter is read twice
  let dev ← orDie (owcGet developerMode)
  let _ ← eraseSecretsOn [decide (hardenedSum dev ≠ 0)]
  let _ ← eraseSecretsOn [decide (hardenedSum dev ≠ 0)]
  tryPartitions crypto masks paranoid1 paranoid2 (← bootOrder) 2

end

end

open Labelled Function

variable (slots : Nat → Slot)

def Erased : Prop := ∀ slot ∈ collateralSlots, slots slot = eraseSlot

def PublicLast : Prop := slots collateralPublic = eraseSlot → Erased slots

def receipts : List Slot := boot1ReceiptSlots.map slots

variable (rram : Nat → UInt8)

def imageKeys (blockStart : Nat) : List Bytes :=
  (manifestKeys rram blockStart).map (·.pk)

instance (slots : Nat → Slot) : Decidable (Erased slots) :=
  inferInstanceAs (Decidable (∀ slot ∈ collateralSlots, slots slot = eraseSlot))

variable {slots : Nat → Slot}

theorem erased_iff :
    Erased slots ↔ slots 261 = eraseSlot ∧ slots 262 = eraseSlot ∧ slots 263 = eraseSlot ∧
      slots 264 = eraseSlot := by simp [Erased, collateralSlots]

theorem Erased.publicLast (h : Erased slots) : PublicLast slots := fun _ => h

/-- Nothing of the collateral and the receipts has changed. -/
def Same (before after : Nat → Slot) : Prop :=
  ∀ slot ∈ collateralSlots ++ boot1ReceiptSlots, after slot = before slot

/-- What a boot may do to the slots, whether it gets to its end or not: the receipts change only when
the collateral is gone. -/
structure Safe (before after : Nat → Slot) : Prop where
  publicLast : PublicLast after
  erased : Erased before → Erased after
  receipts_eq : Erased after ∨ receipts after = receipts before

section

variable {a b c : Nat → Slot}

theorem Same.refl (a : Nat → Slot) : Same a a := fun _ _ => rfl

theorem Same.receipts_eq (h : Same a b) : receipts b = receipts a := by
  apply List.map_congr_left
  intro slot hslot
  rw [h slot (List.mem_append_right _ hslot)]

theorem Same.erased_iff (h : Same a b) : Erased b ↔ Erased a := by
  apply forall₂_congr
  intro slot hslot
  rw [h slot (List.mem_append_left _ hslot)]

theorem Same.publicLast (h : Same a b) (ha : PublicLast a) : PublicLast b := by
  intro hpublic
  rw [h collateralPublic (by decide)] at hpublic
  exact h.erased_iff.mpr (ha hpublic)

theorem Same.safe (h : Same a b) (ha : PublicLast a) : Safe a b :=
  ⟨h.publicLast ha, h.erased_iff.mpr, .inr h.receipts_eq⟩

theorem Safe.refl (ha : PublicLast a) : Safe a a := (Same.refl a).safe ha

theorem Safe.trans (hab : Safe a b) (hbc : Safe b c) : Safe a c := by
  refine ⟨hbc.publicLast, fun ha => hbc.erased (hab.erased ha), ?_⟩
  rcases hab.receipts_eq with hb | hb
  · exact .inl (hbc.erased hb)
  · rw [← hb]
    exact hbc.receipts_eq

theorem Safe.of_not_erased (hb : PublicLast b) (ha : ¬Erased a) (hreceipts : receipts b = receipts a) :
    Safe a b := ⟨hb, fun h => absurd h ha, .inr hreceipts⟩

theorem Erased.safe (hb : Erased b) : Safe a b := ⟨hb.publicLast, fun _ => hb, .inl hb⟩

end

@[simp] theorem post_writeSlot {Q : Unit → Machine → Prop} {E : Halt → Machine → Prop} (slot : Nat)
    (data : Slot) (m : Machine) :
    Post (writeSlot slot data) Q E m ↔ (m.power = 0 → E .powerLoss { m with slots := update m.slots slot m.torn }) ∧
      (m.power ≠ 0 → Q () { m with slots := update m.slots slot data, power := m.power - 1 }) := by
  rw [writeSlot, post_bind, post_gets, post_ite]
  rfl

/-- The memories are as given and the collateral and the receipts as before. -/
def Apart (before : Nat → Slot) (m : Machine) : Prop :=
  m.chip.rram = rram ∧ Same before m.slots

/-- The memories are as given and the slots have changed as they may. -/
def Held (before : Nat → Slot) (m : Machine) : Prop :=
  m.chip.rram = rram ∧ Safe before m.slots

variable (crypto : Crypto)

variable (offset : Nat) (cfg : SecurityConfiguration) (mask : Nat)

section

variable {rram : Nat → UInt8} {before : Nat → Slot} {α : Type}

theorem spend_keeps : Keeps (Apart rram before) spend := by
  apply Keeps.bind (.gets _)
  intro power
  exact .ite _ (.fail _) (.modify fun _ h => h)

theorem writeSlot_keeps {slot : Nat} (data : Slot) (hslot : slot ∉ collateralSlots ++ boot1ReceiptSlots) :
    Keeps (Apart rram before) (writeSlot slot data) := by
  have hupdate : ∀ (m : Machine) data, Apart rram before m → Same before (update m.slots slot data) := by
    intro m data h other hother
    rw [update_of_ne (ne_of_mem_of_not_mem hother hslot)]
    exact h.2 other hother
  intro m h
  rw [post_writeSlot]
  exact ⟨fun _ => ⟨h.1, hupdate m _ h⟩, fun _ => ⟨h.1, hupdate m _ h⟩⟩

theorem onChip_keeps {m : ChipM α} (hm : Keeps (fun chip => chip.rram = rram) m) :
    Keeps (Apart rram before) (onChip m) := by
  intro s h
  have hrun := hm s.chip h.1
  unfold Post onChip at *
  cases hout : m s.chip with
  | ok r chip' | err e chip' =>
    rw [hout] at hrun
    exact ⟨hrun, h.2⟩
  | panic => trivial

theorem orDie_keeps {m : ChipM α} (hm : Keeps (fun chip => chip.rram = rram) m) :
    Keeps (Apart rram before) (orDie m) := by
  apply Keeps.bind (onChip_keeps hm)
  intro r
  cases r with
  | ok a => exact .pure a
  | error e => exact .fail _

theorem owcGet_keeps : Keeps (fun chip => chip.rram = rram) (owcGet offset) :=
  .ite _ (.gets _) (.fail _)

theorem owcInc_keeps : Keeps (fun chip => chip.rram = rram) (owcInc offset) :=
  .modify fun _ h => h

theorem validateImage_keeps :
    Keeps (fun chip => chip.rram = rram) (validateImage crypto cfg false mask .FALSE) := by
  intro chip h
  have heffect : Post (validateImage crypto cfg false mask .FALSE) _ _ chip :=
    (validateImage_post mask .FALSE).imp fun _ _ h => h.2
  apply heffect.mono
  · rintro _ chip' ⟨arb, -, -, ⟨-, rfl⟩ | ⟨-, rfl⟩⟩
    · exact h
    · exact h
  · rintro _ chip' rfl
    exact h

theorem incUpTo15_keeps : Keeps (Apart rram before) (incUpTo15 offset) := by
  apply Keeps.bind (orDie_keeps (owcGet_keeps offset))
  intro value
  exact .when _ (.bind spend_keeps fun _ => orDie_keeps (owcInc_keeps offset))

theorem keySlots_apart : ∀ range ∈ keySlots, ∀ slot ∈ range,
    slot ∉ collateralSlots ++ boot1ReceiptSlots := by decide +kernel

theorem eraseRange_keeps {range : List Nat} (hrange : range ∈ keySlots) :
    Keeps (Apart rram before) (eraseRange range) := by
  apply Keeps.bind (.gets _)
  intro slots
  apply Keeps.bind
  · apply Keeps.when
    apply Keeps.forEach_mem
    intro slot hslot
    exact writeSlot_keeps _ (keySlots_apart range hrange slot hslot)
  · exact fun _ => .pure _

theorem eraseSecrets_keeps : Keeps (Apart rram before) eraseSecrets := by
  apply Keeps.bind
  · intro s hs
    apply post_foldEach (I := fun _ => Apart rram before) _ _ hs
    intro range hrange count s hs
    exact ((eraseRange_keeps hrange).bind fun _ => .pure _) s hs
  · intro count
    exact (incUpTo15_keeps _).bind fun _ => .ite _ (.pure _) (.pure _)

theorem eraseSecretsOn_keeps (conditions : List Bool) : Keeps (Apart rram before) (eraseSecretsOn conditions) := by
  induction conditions with
  | nil => exact .pure _
  | cons condition rest ih =>
    cases condition with
    | false => exact ih
    | true =>
      apply Keeps.bind eraseSecrets_keeps
      intro r
      cases r with
      | ok _ => exact ih
      | error e => exact .pure _

theorem requireRefkeys_keeps (pubkeyPtr failCounter : Nat) :
    Keeps (Apart rram before) (requireRefkeys pubkeyPtr failCounter) := by
  apply Keeps.bind
  · apply Keeps.bind (.gets _)
    intro agree
    refine .bind ?_ fun _ => .pure _
    unfold afterComparison
    split
    · exact (incUpTo15_keeps _).bind fun _ => eraseSecrets_keeps.bind fun _ => .pure _
    · exact .pure _
    · exact .fail _
  · exact fun _ => .ite _ (.pure _) (eraseSecrets_keeps.bind fun _ => .pure _)

theorem validate_keeps :
    Keeps (Apart rram before) (validate crypto cfg mask) := by
  apply Keeps.bind (onChip_keeps (validateImage_keeps crypto cfg mask))
  intro r
  split
  · exact .pure _
  · exact .pure _
  · exact .fail _

theorem validateOrDie_keeps :
    Keeps (Apart rram before) (validateOrDie crypto cfg mask) := by
  apply Keeps.bind (validate_keeps crypto cfg mask)
  intro r
  split
  · exact .pure _
  · exact .fail _

theorem selfCheck_keeps : Keeps (Apart rram before) (selfCheck crypto mask) :=
  (validateOrDie_keeps _ _ _).bind fun _ => .when _ (.fail _)

theorem bootOrder_keeps : Keeps (Apart rram before) bootOrder := by
  have hroll : ∀ order : List SecurityConfiguration, Keeps (Apart rram before)
      (do spend; orDie (owcInc boot1DeveloperState); pure order) :=
    fun order => spend_keeps.bind fun _ => (orDie_keeps (owcInc_keeps _)).bind fun _ => .pure _
  apply Keeps.bind (orDie_keeps (owcGet_keeps _))
  intro coding
  refine .ite _ (.bind (orDie_keeps (owcGet_keeps _)) fun state => ?_) (.pure _)
  split
  · exact .pure _
  · exact hroll _
  · exact hroll _
  · exact .pure _

end

section

variable {rram : Nat → UInt8} {before : Nat → Slot} {crypto : Crypto} {blockStart : Nat}

variable {m : Machine}

theorem eraseCollateral_post (h : Held rram before m) :
    Post eraseCollateral (fun _ m' => Held rram before m' ∧ Erased m'.slots) (fun _ => Held rram before) m := by
  rw [eraseCollateral, post_bind, post_gets, post_when]
  constructor
  · intro hpublic
    rw [decide_eq_true_eq] at hpublic
    have hnot : ¬Erased m.slots := fun herased => hpublic (herased collateralPublic (by decide))
    have hbefore : ¬Erased before := fun herased => hnot (h.2.erased herased)
    have hreceipts : receipts m.slots = receipts before := h.2.receipts_eq.resolve_left hnot
    have hpublic' : m.slots 264 ≠ eraseSlot := hpublic
    simp only [collateralSlots, forEach, post_bind, post_writeSlot, post_pure]
    refine ⟨fun _ => ⟨h.1, .of_not_erased ?_ hbefore hreceipts⟩, fun _ =>
      ⟨fun _ => ⟨h.1, .of_not_erased ?_ hbefore hreceipts⟩, fun _ =>
      ⟨fun _ => ⟨h.1, .of_not_erased ?_ hbefore hreceipts⟩, fun _ =>
      ⟨fun _ => ⟨h.1, .of_not_erased ?_ hbefore hreceipts⟩, fun _ => ?_⟩⟩⟩⟩
    -- the first three writes leave the public slot as it was
    · exact fun hlast => absurd hlast hpublic'
    · exact fun hlast => absurd hlast hpublic'
    · exact fun hlast => absurd hlast hpublic'
    · intro hlast
      rw [erased_iff]
      exact ⟨rfl, rfl, rfl, hlast⟩
    · have herased : Erased (update (update (update
          (update m.slots 261 eraseSlot) 262 eraseSlot) 263 eraseSlot) 264 eraseSlot) :=
        erased_iff.mpr ⟨rfl, rfl, rfl, rfl⟩
      exact ⟨⟨h.1, herased.safe⟩, herased⟩
  · intro hpublic
    rw [decide_eq_false_iff_not, not_not] at hpublic
    exact ⟨h, h.2.publicLast hpublic⟩

theorem eraseCollateral_keeps : Keeps (Held rram before) eraseCollateral :=
  fun _ h => (eraseCollateral_post h).imp fun _ _ h => h.1

/-- The counter-signature verifies under some key of the manifest. -/
def SomeKeyVerifies (crypto : Crypto) (rram : Nat → UInt8) (blockStart : Nat) : Prop :=
  (Appendix.read rram blockStart).wellFormed = true ∧
    ∃ key ∈ manifestKeys rram blockStart, (Appendix.read rram blockStart).verifies crypto
      (SignatureInFlash.read rram blockStart).signature key.pk = true

theorem tryManifestKeys_post (appendix : Appendix) (signature : Bytes) (keys : List Pubkey)
    (i : Nat) (h : Held rram before m) :
    Post (tryManifestKeys crypto appendix signature keys i) (fun verdict m' => Held rram before m' ∧
        (verdict = .TRUE → ∃ key ∈ keys, appendix.verifies crypto signature key.pk = true))
      (fun _ => Held rram before) m := by
  induction keys generalizing i with
  | nil => exact ⟨h, fun hfalse => absurd hfalse (by decide)⟩
  | cons key rest ih =>
    rw [tryManifestKeys, post_ite]
    constructor
    · intro hverifies
      refine (eraseCollateral_keeps.when _ m h).bind ?_
      exact fun _ _ h' => ⟨h', fun _ => ⟨key, List.mem_cons_self, hverifies⟩⟩
    · intro _
      refine (ih (i + 1)).imp ?_
      rintro verdict m' ⟨h', hrest⟩
      refine ⟨h', fun htrue => ?_⟩
      obtain ⟨key', hmem, hverifies⟩ := hrest htrue
      exact ⟨key', List.mem_cons_of_mem _ hmem, hverifies⟩

theorem checkCounterSig_post (h : Held rram before m) :
    Post (checkCounterSig crypto blockStart)
      (fun verdict m' => Held rram before m' ∧ (verdict = .TRUE → SomeKeyVerifies crypto rram blockStart))
      (fun _ => Held rram before) m := by
  rw [checkCounterSig, post_bind, post_gets, h.1, post_ite]
  constructor
  · intro hformed
    refine (tryManifestKeys_post _ _ _ 0 h).imp ?_
    exact fun _ _ h' => ⟨h'.1, fun htrue => ⟨hformed, h'.2 htrue⟩⟩
  · exact fun _ => ⟨h, fun hfalse => absurd hfalse (by decide)⟩

theorem requireCounterSig_post (h : Held rram before m) :
    Post (requireCounterSig crypto blockStart)
      (fun _ m' => Held rram before m' ∧ (¬SomeKeyVerifies crypto rram blockStart → Erased m'.slots))
      (fun _ => Held rram before) m := by
  rw [requireCounterSig]
  refine (checkCounterSig_post h).bind ?_
  rintro verdict m' ⟨h', hverdict⟩
  rw [post_when]
  constructor
  · exact fun _ => (eraseCollateral_post h').imp fun _ _ h => ⟨h.1, fun _ => h.2⟩
  · intro htrue
    rw [decide_eq_false_iff_not, not_not, HardenedBool.isTrue_eq_true] at htrue
    exact ⟨h', fun hno => absurd (hverdict htrue) hno⟩

theorem fromLeBytes_eq (bytes : Bytes) : fromLeBytes bytes = Nat.ofDigits 256 (bytes.map UInt8.toNat) := by
  induction bytes with
  | nil => rfl
  | cons byte rest ih => rw [fromLeBytes, ih, List.map_cons, Nat.ofDigits_cons]

theorem Slot.ofBytes_inj {bytes bytes' : Bytes} (hlen : bytes.length = 32) (hlen' : bytes'.length = 32)
    (h : Slot.ofBytes bytes = Slot.ofBytes bytes') : bytes = bytes' := by
  have hdigits : ∀ bytes : Bytes, ∀ d ∈ bytes.map UInt8.toNat, d < 256 := by
    intro bytes d hd
    obtain ⟨byte, -, rfl⟩ := List.mem_map.mp hd
    exact byte.toNat_lt
  have hlt : ∀ bytes : Bytes, bytes.length = 32 → fromLeBytes bytes < 2 ^ 256 := by
    intro bytes hlen
    have hlt := Nat.ofDigits_lt_base_pow_length (by decide) (hdigits bytes)
    rw [← fromLeBytes_eq, List.length_map, hlen] at hlt
    exact hlt.trans_eq (by norm_num)
  have hvalue := congrArg BitVec.toNat h
  rw [ofBytes, ofBytes, BitVec.toNat_ofNat, BitVec.toNat_ofNat, Nat.mod_eq_of_lt (hlt _ hlen),
    Nat.mod_eq_of_lt (hlt _ hlen'), fromLeBytes_eq, fromLeBytes_eq] at hvalue
  exact List.map_injective_iff.mpr (fun _ _ => UInt8.toNat_inj.mp)
    (Nat.ofDigits_inj_of_len_eq (by decide) (by simp [hlen, hlen']) (hdigits _) (hdigits _) hvalue)

theorem length_of_mem_imageKeys {rram : Nat → UInt8} {blockStart : Nat} {pk : Bytes}
    (h : pk ∈ imageKeys rram blockStart) : pk.length = 32 := by
  simp only [imageKeys, manifestKeys, SignatureInFlash.read, SealedFields.read, List.map_map, List.mem_map] at h
  obtain ⟨i, -, rfl⟩ := h
  exact length_readBytes _ _ _

theorem map_ofBytes_inj {keys keys' : List Bytes} (hlen : ∀ pk ∈ keys, pk.length = 32)
    (hlen' : ∀ pk ∈ keys', pk.length = 32) (h : keys.map Slot.ofBytes = keys'.map Slot.ofBytes) :
    keys = keys' := by
  induction keys generalizing keys' with
  | nil => exact (List.map_eq_nil_iff.mp h.symm).symm
  | cons pk rest ih =>
    cases keys' with
    | nil => contradiction
    | cons pk' rest' =>
      rw [List.map_cons, List.map_cons, List.cons.injEq] at h
      have hhead := Slot.ofBytes_inj (hlen pk List.mem_cons_self) (hlen' pk' List.mem_cons_self) h.1
      have htail := ih (fun k hk => hlen k (List.mem_cons_of_mem _ hk))
        (fun k hk => hlen' k (List.mem_cons_of_mem _ hk)) h.2
      rw [hhead, htail]

theorem writeReceipts_keeps (rram : Nat → UInt8) (blockStart : Nat) :
    Keeps (fun m : Machine => m.chip.rram = rram ∧ Erased m.slots)
      (forEach (receiptPairs rram blockStart) fun (pk, slot) => writeSlot slot (.ofBytes pk)) := by
  apply Keeps.forEach_mem
  rintro ⟨pk, slot⟩ hpair m ⟨hrram, herased⟩
  have hapart : ∀ slot ∈ boot1ReceiptSlots, slot ∉ collateralSlots := by decide
  have hslot := hapart slot (List.of_mem_zip hpair).2
  have hupdate : ∀ data, Erased (update m.slots slot data) := by
    intro data other hother
    rw [update_of_ne (ne_of_mem_of_not_mem hother hslot)]
    exact herased other hother
  rw [post_writeSlot]
  exact ⟨fun _ => ⟨hrram, hupdate _⟩, fun _ => ⟨hrram, hupdate _⟩⟩

/-- The receipts are compared one after the other; at the first difference all of them are written. -/
theorem checkReceipts_post (h : Held rram before m) :
    Post (checkReceipts (receiptPairs rram blockStart) (receiptPairs rram blockStart))
      (fun _ m' => Held rram before m' ∧ receipts m'.slots = (imageKeys rram blockStart).map Slot.ofBytes ∧
        (m' = m ∨ Erased m'.slots))
      (fun _ => Held rram before) m := by
  obtain ⟨k0, k1, k2, k3, hkeys⟩ : ∃ k0 k1 k2 k3 : Bytes, imageKeys rram blockStart = [k0, k1, k2, k3] :=
    ⟨_, _, _, _, rfl⟩
  have hpairs : receiptPairs rram blockStart = [(k0, 265), (k1, 266), (k2, 267), (k3, 268)] := by
    rw [receiptPairs, ← imageKeys, hkeys]
    rfl
  -- the collateral is gone before the first receipt is written
  have hwrite : Post (do
        eraseCollateral
        forEach (receiptPairs rram blockStart) fun (pk, slot) => writeSlot slot (.ofBytes pk))
      (fun _ m' => Held rram before m' ∧ receipts m'.slots = (imageKeys rram blockStart).map Slot.ofBytes ∧
        (m' = m ∨ Erased m'.slots))
      (fun _ => Held rram before) m := by
    refine (eraseCollateral_post h).bind ?_
    rintro _ m' ⟨h', herased⟩
    have hwritten : Post (forEach (receiptPairs rram blockStart) fun (pk, slot) =>
        writeSlot slot (.ofBytes pk)) (fun _ m'' => receipts m''.slots = (imageKeys rram blockStart).map Slot.ofBytes)
        (fun _ _ => True) m' := by
      rw [hpairs, hkeys]
      simp only [forEach, post_bind, post_writeSlot, post_pure, implies_true, true_and]
      exact fun _ _ _ _ => rfl
    refine ((writeReceipts_keeps rram blockStart m' ⟨h'.1, herased⟩).and hwritten).mono ?_ ?_
    · rintro _ m'' ⟨⟨hrram, hgone⟩, hreceipts⟩
      exact ⟨⟨hrram, hgone.safe⟩, hreceipts, .inr hgone⟩
    · rintro _ m'' ⟨⟨hrram, hgone⟩, -⟩
      exact ⟨hrram, hgone.safe⟩
  rw [hpairs] at hwrite ⊢
  simp only [checkReceipts, post_bind, post_gets, post_ite]
  refine ⟨fun _ => (post_bind _ _).mp hwrite, fun h0 => ⟨fun _ => (post_bind _ _).mp hwrite, fun h1 =>
    ⟨fun _ => (post_bind _ _).mp hwrite, fun h2 => ⟨fun _ => (post_bind _ _).mp hwrite, fun h3 => ?_⟩⟩⟩⟩
  rw [not_not] at h0 h1 h2 h3
  rw [hkeys, List.map_cons, List.map_cons, List.map_cons, List.map_cons, List.map_nil, h0, h1, h2, h3]
  exact ⟨h, rfl, .inl rfl⟩

/-- What a boot that reaches the image at the address has done, from slots that are in order. -/
structure Entered (crypto : Crypto) (rram : Nat → UInt8) (blockStart : Nat)
    (before after : Nat → Slot) : Prop where
  safe : Safe before after
  receipts_eq : receipts after = (imageKeys rram blockStart).map Slot.ofBytes
  other_keys : receipts before ≠ (imageKeys rram blockStart).map Slot.ofBytes → Erased after
  indelible : anyMatches rram blockStart = true → Erased after
  unsigned : ¬SomeKeyVerifies crypto rram blockStart → Erased after

theorem mutualDistrust_post (hrram : m.chip.rram = rram) (hlast : PublicLast m.slots) :
    Post (mutualDistrust crypto blockStart)
      (fun _ m' => m'.chip.rram = rram ∧ Entered crypto rram blockStart m.slots m'.slots)
      (fun _ => Held rram m.slots) m := by
  have hheld : Held rram m.slots m := ⟨hrram, .refl hlast⟩
  -- the first half leaves the collateral erased for its two reasons
  have hfirst : Post (if anyMatches rram blockStart then eraseCollateral else do
        requireCounterSig crypto blockStart
        requireCounterSig crypto blockStart)
      (fun _ m' => Held rram m.slots m' ∧ (anyMatches rram blockStart = true → Erased m'.slots) ∧
        (¬SomeKeyVerifies crypto rram blockStart → Erased m'.slots))
      (fun _ => Held rram m.slots) m := by
    rw [post_ite]
    constructor
    · intro _
      exact (eraseCollateral_post hheld).imp fun _ _ h => ⟨h.1, fun _ => h.2, fun _ => h.2⟩
    · intro hno
      refine ((requireCounterSig_post hheld).imp fun _ _ h => h.1).bind ?_
      intro _ m' h'
      exact (requireCounterSig_post h').imp fun _ _ h => ⟨h.1, fun hyes => absurd hyes hno, h.2⟩
  have hsecond : ∀ m', Held rram m.slots m' → (anyMatches rram blockStart = true → Erased m'.slots) →
      (¬SomeKeyVerifies crypto rram blockStart → Erased m'.slots) →
      Post (checkReceipts (receiptPairs rram blockStart) (receiptPairs rram blockStart))
        (fun _ m'' => m''.chip.rram = rram ∧ Entered crypto rram blockStart m.slots m''.slots)
        (fun _ => Held rram m.slots) m' := by
    intro m' h' hindelible hunsigned
    refine (checkReceipts_post h').imp ?_
    rintro _ m'' ⟨h'', hreceipts, rfl | herased⟩
    · refine ⟨h''.1, h''.2, hreceipts, fun hother => ?_, hindelible, hunsigned⟩
      exact h''.2.receipts_eq.resolve_right fun hsame => hother (hsame.symm.trans hreceipts)
    · exact ⟨h''.1, h''.2, hreceipts, fun _ => herased, fun _ => herased, fun _ => herased⟩
  rw [mutualDistrust, post_bind, post_gets, hrram]
  rw [post_ite] at hfirst ⊢
  constructor
  · intro hmatch
    refine (hfirst.1 hmatch).bind ?_
    exact fun _ m' h' => hsecond m' h'.1 h'.2.1 h'.2.2
  · intro hno
    have hchecks := hfirst.2 hno
    rw [post_bind] at hchecks ⊢
    refine hchecks.imp ?_
    intro _ m' hnext
    refine hnext.bind ?_
    exact fun _ m'' h' => hsecond m'' h'.1 h'.2.1 h'.2.2

theorem Same.entered {a b c : Nat → Slot} (hab : Same a b) (hlast : PublicLast a)
    (h : Entered crypto rram blockStart b c) : Entered crypto rram blockStart a c where
  safe := (hab.safe hlast).trans h.safe
  receipts_eq := h.receipts_eq
  other_keys hother := h.other_keys (hab.receipts_eq ▸ hother)
  indelible := h.indelible
  unsigned := h.unsigned

theorem Entered.same {a b c : Nat → Slot} (h : Entered crypto rram blockStart a b) (hbc : Same b c) :
    Entered crypto rram blockStart a c where
  safe := h.safe.trans (hbc.safe h.safe.publicLast)
  receipts_eq := hbc.receipts_eq.trans h.receipts_eq
  other_keys hother := hbc.erased_iff.mpr (h.other_keys hother)
  indelible hmatch := hbc.erased_iff.mpr (h.indelible hmatch)
  unsigned hno := hbc.erased_iff.mpr (h.unsigned hno)

end

section

variable {crypto : Crypto} {rram : Nat → UInt8} {start : Nat → Slot}

variable {m : Machine}

theorem post_of_keeps_bind {α β : Type} {p : BootM α} {f : α → BootM β} {Q : β → Machine → Prop}
    (hp : Keeps (Apart rram start) p) (hlast : PublicLast start) (hm : Apart rram start m)
    (hf : ∀ a m', Apart rram start m' → Post (f a) Q (fun _ => Held rram start) m') :
    Post (p >>= f) Q (fun _ => Held rram start) m := by
  rw [post_bind]
  refine (hp m hm).mono hf ?_
  exact fun _ m' h => ⟨h.1, h.2.safe hlast⟩

theorem enterImage_post (paranoid1 paranoid2 mask : Nat) (cfg : SecurityConfiguration)
    (accepted : Accepted) (hlast : PublicLast start) (hm : Apart rram start m) :
    Post (enterImage crypto paranoid1 paranoid2 mask cfg accepted)
      (fun _ m' => m'.chip.rram = rram ∧ Entered crypto rram cfg.imagePtr start m'.slots)
      (fun _ => Held rram start) m := by
  apply post_of_keeps_bind (.when _ (.fail _)) hlast hm
  intro _ m1 h1
  apply post_of_keeps_bind (requireRefkeys_keeps _ _) hlast h1
  intro _ m2 h2
  rw [post_bind]
  refine (mutualDistrust_post h2.1 (h2.2.publicLast hlast)).mono ?_ ?_
  · rintro _ m3 ⟨hrram, hentered⟩
    -- what is left does not touch the collateral any more
    have hstart := h2.2.entered hlast hentered
    refine (Keeps.bind (I := Apart rram m3.slots) (.ite _ eraseSecrets_keeps (eraseSecretsOn_keeps _)) (fun _ =>
      .bind (.when _ (.bind (validateOrDie_keeps _ _ _) fun _ => .pure _)) fun _ => spend_keeps) m3
      ⟨hrram, .refl _⟩).mono ?_ ?_
    · exact fun _ m4 h4 => ⟨h4.1, hstart.same h4.2⟩
    · exact fun _ m4 h4 => ⟨h4.1, (hstart.same h4.2).safe⟩
  · exact fun _ m3 h3 => ⟨h3.1, (h2.2.safe hlast).trans h3.2⟩

theorem tryPartitions_post (masks : Nat → Nat) (paranoid1 paranoid2 : Nat)
    (order : List SecurityConfiguration) (n : Nat) (hlast : PublicLast start) (hm : Apart rram start m) :
    Post (tryPartitions crypto masks paranoid1 paranoid2 order n)
      (fun cfg m' => m'.chip.rram = rram ∧ Entered crypto rram cfg.imagePtr start m'.slots)
      (fun _ => Held rram start) m := by
  induction order generalizing n m with
  | nil => exact ⟨hm.1, hm.2.safe hlast⟩
  | cons cfg rest ih =>
    apply post_of_keeps_bind (validate_keeps _ _ _) hlast hm
    intro r m' h'
    cases r with
    | ok accepted =>
      rw [post_bind]
      exact enterImage_post _ _ _ cfg accepted hlast h'
    | error message => exact ih (n + 2) h'

theorem rustEntry_post (masks : Nat → Nat) (hlast : PublicLast m.slots) :
    Post (rustEntry crypto masks) (fun cfg m' => Entered crypto m.chip.rram cfg.imagePtr m.slots m'.slots)
      (fun _ m' => Safe m.slots m'.slots) m := by
  have hpost : Post (rustEntry crypto masks)
      (fun cfg m' => m'.chip.rram = m.chip.rram ∧ Entered crypto m.chip.rram cfg.imagePtr m.slots m'.slots)
      (fun _ => Held m.chip.rram m.slots) m := by
    apply post_of_keeps_bind (requireRefkeys_keeps _ _) hlast ⟨rfl, .refl _⟩
    intro _ m1 h1
    apply post_of_keeps_bind (orDie_keeps (.ite _ (.fail _) (.ite _ (.gets _) (.fail _)))) hlast h1
    rintro ⟨paranoid1, paranoid2⟩ m2 h2
    apply post_of_keeps_bind (selfCheck_keeps _ _) hlast h2
    intro _ m3 h3
    apply post_of_keeps_bind (.when _ (.fail _)) hlast h3
    intro _ m4 h4
    apply post_of_keeps_bind (.when _ (selfCheck_keeps _ _)) hlast h4
    intro _ m5 h5
    apply post_of_keeps_bind (orDie_keeps (owcGet_keeps _)) hlast h5
    intro dev m6 h6
    apply post_of_keeps_bind (eraseSecretsOn_keeps _) hlast h6
    intro _ m7 h7
    apply post_of_keeps_bind (eraseSecretsOn_keeps _) hlast h7
    intro _ m8 h8
    apply post_of_keeps_bind bootOrder_keeps hlast h8
    intro order m9 h9
    exact tryPartitions_post masks _ _ order 2 hlast h9
  exact hpost.mono (fun _ _ h => h.2) fun _ _ h => h.2

end

/-- A boot, with the memories and the counters it finds, the power it has and its random words. -/
structure Boot where
  chip : Chip
  power : Nat
  torn : Slot
  masks : Nat → Nat

/-- `owner`: the keys of the image under which the collateral was written last; `running`: those of
the image that runs. -/
structure World where
  slots : Nat → Slot
  owner : Option (List Bytes)
  running : Option (List Bytes)

inductive Event where
  | boot (b : Boot)
  /-- The image that runs writes slots. -/
  | firmware (slots : Nat → Slot)

variable (b : Boot)

def Boot.outcome (slots : Nat → Slot) :
    Outcome Halt Machine SecurityConfiguration :=
  rustEntry crypto b.masks ⟨b.chip, slots, b.power, b.torn⟩

variable (w : World)

def World.step : Event → Option World
  | .boot b =>
    match b.outcome crypto w.slots with
    | .ok cfg m => some { w with
        slots := m.slots, running := some (imageKeys b.chip.rram cfg.imagePtr) }
    | .err _ m => some { w with slots := m.slots, running := none }
    | .panic => none
  | .firmware slots =>
    w.running.map fun keys => { w with
      slots
      owner := if collateralSlots.all fun slot => slots slot == w.slots slot then w.owner else some keys }

/-- A device on which no image has written collateral. -/
structure World.Fresh : Prop where
  publicLast : PublicLast w.slots
  owner_eq : w.owner = none
  running_eq : w.running = none

/-- Firmware does not touch the receipts, and it never leaves the public slot erased beside a secret
one that is not. -/
def World.Meets : Event → Prop
  | .boot _ => True
  | .firmware slots => (∀ slot ∈ boot1ReceiptSlots, slots slot = w.slots slot) ∧ PublicLast slots

/-- The counter-signature verifies under a key of the image with a tag, and neither revocation counter
of the key is set. -/
def Countersigned (chip : Chip) (blockStart : Nat) : Prop :=
  (Appendix.read chip.rram blockStart).wellFormed = true ∧
    ∃ entry ∈ (manifestKeys chip.rram blockStart).zipIdx,
      (Appendix.read chip.rram blockStart).verifies crypto
        (SignatureInFlash.read chip.rram blockStart).signature entry.1.pk = true ∧
      entry.1.tag ≠ emptyTag ∧ chip.counters (boot1RevocationOffset + entry.2) = 0 ∧
      chip.counters (boot1RevocationOffset + entry.2 - revocationDupeDistance) = 0

instance (crypto : Crypto) (rram : Nat → UInt8) (blockStart : Nat) :
    Decidable (SomeKeyVerifies crypto rram blockStart) :=
  inferInstanceAs (Decidable (_ ∧ ∃ key ∈ manifestKeys rram blockStart, _))

instance (crypto : Crypto) (chip : Chip) (blockStart : Nat) :
    Decidable (Countersigned crypto chip blockStart) :=
  inferInstanceAs (Decidable (_ ∧ ∃ entry ∈ (manifestKeys chip.rram blockStart).zipIdx, _))

def TaggedKeysSign (chip : Chip) (blockStart : Nat) : Prop :=
  SomeKeyVerifies crypto chip.rram blockStart → Countersigned crypto chip blockStart

/-- The reasons for which an image must not see the collateral. -/
def World.Distrusts (b : Boot) (cfg : SecurityConfiguration) : Prop :=
  (∃ keys, w.owner = some keys ∧ imageKeys b.chip.rram cfg.imagePtr ≠ keys) ∨
    anyMatches b.chip.rram cfg.imagePtr = true ∨ ¬Countersigned crypto b.chip cfg.imagePtr

def Receipted (slots : Nat → Slot) (keys : List Bytes) : Prop :=
  receipts slots = keys.map Slot.ofBytes

/-- The collateral is gone or the receipts are the keys of its owner, and they are those of the image
that runs. -/
structure World.Inv : Prop where
  publicLast : PublicLast w.slots
  owner_length : ∀ keys, w.owner = some keys → ∀ pk ∈ keys, pk.length = 32
  owner_receipts : ∀ keys, w.owner = some keys → Erased w.slots ∨ Receipted w.slots keys
  running_length : ∀ keys, w.running = some keys → ∀ pk ∈ keys, pk.length = 32
  running_receipts : ∀ keys, w.running = some keys → Receipted w.slots keys

section

variable {crypto : Crypto}

variable {w : World}

theorem World.Fresh.inv (h : w.Fresh) : w.Inv := by
  have howner : ∀ keys, w.owner ≠ some keys := by
    intro keys
    rw [h.owner_eq]
    exact nofun
  have hrunning : ∀ keys, w.running ≠ some keys := by
    intro keys
    rw [h.running_eq]
    exact nofun
  exact ⟨h.publicLast, fun keys hk => absurd hk (howner keys), fun keys hk => absurd hk (howner keys),
    fun keys hk => absurd hk (hrunning keys), fun keys hk => absurd hk (hrunning keys)⟩

theorem World.Inv.owner_of_safe (h : w.Inv) {slots : Nat → Slot} (hsafe : Safe w.slots slots)
    (keys : List Bytes) (howner : w.owner = some keys) : Erased slots ∨ Receipted slots keys := by
  rcases h.owner_receipts keys howner with herased | hreceipts
  · exact .inl (hsafe.erased herased)
  · rw [Receipted, ← hreceipts]
    exact hsafe.receipts_eq

/-- Every allowed event keeps the invariant. -/
theorem World.Inv.step {w' : World} {e : Event} (h : w.Inv) (hmeets : w.Meets e)
    (hstep : w.step crypto e = some w') : w'.Inv := by
  cases e with
  | boot b =>
    have hpost : Post (rustEntry crypto b.masks) _ _ ⟨b.chip, w.slots, b.power, b.torn⟩ :=
      rustEntry_post b.masks h.publicLast
    rw [World.step] at hstep
    cases hout : b.outcome crypto w.slots with
    | ok cfg m =>
      rw [hout] at hstep
      cases hstep
      have hentered := hpost.ok hout
      refine ⟨hentered.safe.publicLast, h.owner_length, h.owner_of_safe hentered.safe, ?_, ?_⟩
      · intro keys hkeys pk hpk
        cases hkeys
        exact length_of_mem_imageKeys hpk
      · intro keys hkeys
        cases hkeys
        exact hentered.receipts_eq
    | err halt m =>
      rw [hout] at hstep
      cases hstep
      have hsafe := hpost.err hout
      exact ⟨hsafe.publicLast, h.owner_length, h.owner_of_safe hsafe, nofun, nofun⟩
    | panic =>
      rw [hout] at hstep
      contradiction
  | firmware slots =>
    obtain ⟨keys, hrunning, rfl⟩ := Option.map_eq_some_iff.mp hstep
    have hreceipts : receipts slots = receipts w.slots := by
      apply List.map_congr_left
      intro slot hslot
      rw [hmeets.1 slot hslot]
    have hkeys : Receipted slots keys := hreceipts.trans (h.running_receipts keys hrunning)
    -- the owner stays if nothing was written, and otherwise it is the image that runs
    have howner : ∀ owner, (if collateralSlots.all fun slot => slots slot == w.slots slot then w.owner
        else some keys) = some owner →
        (∀ pk ∈ owner, pk.length = 32) ∧ (Erased slots ∨ Receipted slots owner) := by
      intro owner howner
      split at howner
      · rename_i hsame
        have hequal : Same w.slots slots := by
          intro slot hslot
          rcases List.mem_append.mp hslot with hcollateral | hreceipt
          · exact eq_of_beq (List.all_eq_true.mp hsame slot hcollateral)
          · exact hmeets.1 slot hreceipt
        exact ⟨h.owner_length owner howner, h.owner_of_safe (hequal.safe h.publicLast) owner howner⟩
      · cases howner
        exact ⟨h.running_length keys hrunning, .inr hkeys⟩
    refine ⟨hmeets.2, fun owner ho => (howner owner ho).1, fun owner ho => (howner owner ho).2, h.running_length, ?_⟩
    intro running hrunning'
    rw [hrunning] at hrunning'
    cases hrunning'
    exact hkeys

/-- A boot that jumps to an image it has a reason to distrust has erased the collateral. -/
theorem World.Inv.erased_of_distrusts (h : w.Inv) {b : Boot} {cfg : SecurityConfiguration}
    {m : Machine} (hjump : b.outcome crypto w.slots = .ok cfg m)
    (htagged : TaggedKeysSign crypto b.chip cfg.imagePtr) (hdistrusts : w.Distrusts crypto b cfg) :
    Erased m.slots := by
  have hpost : Post (rustEntry crypto b.masks) _ _ ⟨b.chip, w.slots, b.power, b.torn⟩ :=
    rustEntry_post b.masks h.publicLast
  have hentered := hpost.ok hjump
  rcases hdistrusts with ⟨keys, howner, hother⟩ | hindelible | hunsigned
  · rcases h.owner_of_safe hentered.safe keys howner with herased | hreceipts
    · exact herased
    · have hkeys := map_ofBytes_inj (fun _ => length_of_mem_imageKeys) (h.owner_length keys howner)
        (hentered.receipts_eq.symm.trans hreceipts)
      exact absurd hkeys hother
  · exact hentered.indelible hindelible
  · exact hentered.unsigned fun hsome => hunsigned (htagged hsome)

end

/-- After every sequence of boots, cut off or not, and of writes of the firmware that leave the
receipts alone and erase the public slot last: a boot that jumps to an image with other keys than the
owner of the collateral, with an indelible key or without a counter-signature has erased the collateral,
if the counter-signature does not hinge on a key that has no tag or is revoked. -/
theorem collateral_is_erased_for_distrusted_images (crypto : Crypto) (start w : World)
    (events : List Event) (hfresh : start.Fresh)
    (run : Run (fun w e w' => w.Meets e ∧ w.step crypto e = some w') start events w)
    (b : Boot) (cfg : SecurityConfiguration) (m : Machine)
    (hjump : b.outcome crypto w.slots = .ok cfg m)
    (htagged : TaggedKeysSign crypto b.chip cfg.imagePtr) (hdistrusts : w.Distrusts crypto b cfg) :
    Erased m.slots := by
  have hinv : w.Inv := run.invariant hfresh.inv fun _ _ _ h hstep => h.step hstep.1 hstep.2
  exact hinv.erased_of_distrusts hjump htagged hdistrusts

/-- A verifier for which the key that begins with 9 signs messages of 64 bytes, and the others sign
those of other lengths. -/
def sampleCrypto : Crypto :=
  { Crypto.plain fun _ => false with
    verifyPrehashed := fun pk digest _ => (digest.length == 64) == (pk.head? == some 9) }

/-- An image whose second key begins with 9 and has the given second byte and tag, and an indelible
area with other keys. -/
def sampleBoot (byte tag : UInt8) : Boot where
  chip :=
    { rram := fun addr =>
        if addr < boot1Start then sampleBlock 100 1 (addr - boot0Start)
        else if addr < loaderStart then
          match addr - boot1Start with
          | 224 => 9
          | 225 => byte
          | 256 => tag
          | rel => sampleBlock 100 2 rel
        else 0xFF
      spi := fun _ => 0
      counters := fun _ => 0 }
  power := 1000
  torn := eraseSlot
  masks _ := 0

def factory : World where
  slots slot := if slot ∈ collateralSlots then 0 else eraseSlot
  owner := none
  running := none

theorem factory_fresh : factory.Fresh := ⟨fun h => absurd h (by decide +kernel), rfl, rfl⟩

def Boot.slotsAfter (slots : Nat → Slot) : Nat → Slot :=
  match b.outcome sampleCrypto slots with
  | .ok _ m => m.slots
  | .err _ m => m.slots
  | .panic => slots

def written (write : (Nat → Slot) → Nat → Slot) : World where
  slots := write (b.slotsAfter factory.slots)
  owner := some (imageKeys b.chip.rram boot1Start)
  running := some (imageKeys b.chip.rram boot1Start)

/-- The boot jumps to the image behind the first stage and leaves slots with the given property. -/
def Boot.jumps (slots : Nat → Slot) (test : (Nat → Slot) → Bool) : Bool :=
  (b.outcome sampleCrypto slots).returns fun cfg m => cfg.imagePtr == boot1Start && test m.slots

theorem Boot.exists_of_jumps {b : Boot} {test : (Nat → Slot) → Bool} (h : b.jumps slots test = true) :
    ∃ cfg m, b.outcome sampleCrypto slots = .ok cfg m ∧ cfg.imagePtr = boot1Start ∧ test m.slots = true := by
  obtain ⟨cfg, m, hout, htest⟩ := Outcome.exists_of_returns h
  rw [Bool.and_eq_true, beq_iff_eq] at htest
  exact ⟨cfg, m, hout, htest.1, htest.2⟩

theorem run_written {b : Boot} {write : (Nat → Slot) → Nat → Slot}
    (hjump : b.jumps factory.slots (fun slots => collateralSlots.any fun slot =>
      write slots slot != slots slot) = true)
    {Meets : World → Event → Prop} (hboot : Meets factory (.boot b))
    (hwrite : ∀ w, w.slots = b.slotsAfter factory.slots → Meets w (.firmware (write (b.slotsAfter factory.slots)))) :
    Run (fun w e w' => Meets w e ∧ w.step sampleCrypto e = some w') factory
      [.boot b, .firmware (write (b.slotsAfter factory.slots))] (written b write) := by
  obtain ⟨cfg, m, hout, hptr, hchanged⟩ := Boot.exists_of_jumps hjump
  have hslots : b.slotsAfter factory.slots = m.slots := by rw [Boot.slotsAfter, hout]
  rw [hslots] at hwrite ⊢
  have hfirst : factory.step sampleCrypto (.boot b) = some ⟨m.slots, none, some (imageKeys b.chip.rram boot1Start)⟩ := by
    rw [World.step, hout]
    simp only [factory, hptr]
  refine .cons ⟨hboot, hfirst⟩ (.cons ⟨hwrite _ rfl, ?_⟩ .nil)
  · have hnot : ¬(collateralSlots.all fun slot => write m.slots slot == m.slots slot) = true := by
      intro hall
      rw [List.any_eq_true] at hchanged
      obtain ⟨slot, hmem, hne⟩ := hchanged
      have heq := List.all_eq_true.mp hall slot hmem
      rw [bne, heq] at hne
      contradiction
    rw [World.step, Option.map_some, written, hslots, if_neg hnot]

def withCollateral (slots : Nat → Slot) : Nat → Slot := fun slot =>
  if slot ∈ collateralSlots then 1 else slots slot

theorem meets_withCollateral (hw : w.slots = slots) : w.Meets (.firmware (withCollateral slots)) := by
  constructor
  · intro slot hslot
    have hapart : ∀ slot ∈ boot1ReceiptSlots, slot ∉ collateralSlots := by decide
    rw [withCollateral, if_neg (hapart slot hslot), hw]
  · intro hpublic
    rw [withCollateral, if_pos (by decide)] at hpublic
    exact absurd hpublic (by decide +kernel)

/-- A write of the collateral that power loss stops behind its first slot. -/
def withFirstSlot (slots : Nat → Slot) : Nat → Slot := update slots 261 1

/-- A write of the collateral, and of a receipt for another image. -/
def withOtherReceipt (slots : Nat → Slot) : Nat → Slot :=
  update (withCollateral slots) 266 (.ofBytes ([9, 1] ++ List.replicate 30 0))

/-- The collateral is still there for an image with a counter-signature only under a slot without a
tag; and for one with other keys after power loss during its write, or a receipt written by
firmware. -/
theorem collateral_survives_for_distrusted_images :
    (∃ w, Run (fun w e w' => w.Meets e ∧ w.step sampleCrypto e = some w') factory
        [.boot (sampleBoot 0 0), .firmware (withCollateral ((sampleBoot 0 0).slotsAfter factory.slots))] w ∧
      ∃ cfg m, (sampleBoot 0 0).outcome sampleCrypto w.slots = .ok cfg m ∧
        ¬Countersigned sampleCrypto (sampleBoot 0 0).chip cfg.imagePtr ∧ ¬Erased m.slots) ∧
    (∀ write ∈ [withFirstSlot, withOtherReceipt],
      ∃ w, Run (fun w e w' => w.step sampleCrypto e = some w') factory
        [.boot (sampleBoot 0 1), .firmware (write ((sampleBoot 0 1).slotsAfter factory.slots))] w ∧
      ∃ cfg m, (sampleBoot 1 1).outcome sampleCrypto w.slots = .ok cfg m ∧
        w.owner ≠ some (imageKeys (sampleBoot 1 1).chip.rram cfg.imagePtr) ∧ ¬Erased m.slots) := by
  constructor
  · refine ⟨written (sampleBoot 0 0) withCollateral, ?_, ?_⟩
    · exact run_written (by decide +kernel) trivial fun w hw => meets_withCollateral w hw
    · obtain ⟨cfg, m, hout, hptr, htest⟩ := Boot.exists_of_jumps
        (show (sampleBoot 0 0).jumps (written (sampleBoot 0 0) withCollateral).slots
          (fun slots => !decide (Erased slots)) = true by decide +kernel)
      refine ⟨cfg, m, hout, ?_, by simpa using htest⟩
      rw [hptr]
      decide +kernel
  · intro write hwrite
    have hjump : ∀ write ∈ [withFirstSlot, withOtherReceipt],
        (sampleBoot 0 1).jumps factory.slots (fun slots => collateralSlots.any fun slot =>
          write slots slot != slots slot) = true := by decide +kernel
    have hagain : ∀ write ∈ [withFirstSlot, withOtherReceipt],
        (sampleBoot 1 1).jumps (written (sampleBoot 0 1) write).slots
          (fun slots => !decide (Erased slots)) = true := by decide +kernel
    have hrun : Run (fun w e w' => True ∧ w.step sampleCrypto e = some w') factory _
        (written (sampleBoot 0 1) write) :=
      run_written (hjump write hwrite) trivial fun _ _ => trivial
    refine ⟨written (sampleBoot 0 1) write, hrun.mono fun _ _ _ hstep => hstep.2, ?_⟩
    obtain ⟨cfg, m, hout, hptr, htest⟩ := Boot.exists_of_jumps (hagain write hwrite)
    refine ⟨cfg, m, hout, ?_, by simpa using htest⟩
    rw [hptr]
    show some _ ≠ some _
    decide +kernel

/-- An image with other keys and a counter-signature of its own does not see the collateral. -/
theorem other_image_finds_erased_collateral :
    ∃ cfg m, (sampleBoot 1 1).outcome sampleCrypto (written (sampleBoot 0 1) withCollateral).slots =
        .ok cfg m ∧ Erased m.slots := by
  obtain ⟨cfg, m, hout, hptr, -⟩ := Boot.exists_of_jumps
    (show (sampleBoot 1 1).jumps (written (sampleBoot 0 1) withCollateral).slots
      (fun _ => true) = true by decide +kernel)
  refine ⟨cfg, m, hout, ?_⟩
  refine collateral_is_erased_for_distrusted_images sampleCrypto factory
    (written (sampleBoot 0 1) withCollateral) _ factory_fresh
    (run_written (by decide +kernel) trivial fun w hw => meets_withCollateral w hw) (sampleBoot 1 1) cfg m hout ?_
    (.inl ⟨_, rfl, ?_⟩)
  · rw [hptr]
    unfold TaggedKeysSign
    decide +kernel
  · rw [hptr]
    decide +kernel

end BaochipXous.Boot0
