import BaochipXous.Sigcheck

/-!
The first use of a swap image, sealed under the all-zero key: the keystore seals every page again
under a key of the device, in place. The first page stays zero until the signature over the pages as
read has been verified, and the tags are written last. A write is done, is refused, or loses power.
-/

namespace BaochipXous.SwapCrypt

open Prog Sigcheck

abbrev Memory := Nat → UInt8

def sectorLen : Nat := 4096

/-- `SWAP_FLASH_RESERVED_LEN`, the length of the area that the keystore has mapped. -/
def swapLen : Nat := 4096 * 1024

def sigblockLen : Nat := 768

/-- Where the signature block of the image lies, in its header. -/
def imgOffset : Nat := 4096 - sigblockLen

def startHash : Nat := imgOffset + unsignedLen

def swapVersion : Nat := 0x01010000

def tagLen : Nat := 16

def tagsPerPage : Nat := sectorLen / tagLen

def zeroKey : Bytes := List.replicate 32 0

/-- An authenticated cipher in which what opens was sealed. -/
structure Aead where
  encrypt : (key nonce aad plain : Bytes) → Bytes × Bytes
  decrypt : (key nonce aad tag cipher : Bytes) → Option Bytes
  decrypt_encrypt : ∀ key nonce aad plain,
    decrypt key nonce aad (encrypt key nonce aad plain).2 (encrypt key nonce aad plain).1 = some plain
  encrypt_decrypt : ∀ {key nonce aad tag cipher plain},
    decrypt key nonce aad tag cipher = some plain → encrypt key nonce aad plain = (cipher, tag)
  length_tag : ∀ key nonce aad plain, (encrypt key nonce aad plain).2.length = tagLen

inductive WriteOutcome where
  | done
  | refused
  | lost

inductive XousError where
  | verificationError
  | invalidArgument
  | badAddress
  | internalError
  deriving DecidableEq

/-- The ways in which a run ends early. -/
inductive Stop where
  | error (e : XousError)
  | powerLoss
  /-- The image asks for the developer key and the device is not in developer mode. -/
  | developerKey
  | panicked
  deriving DecidableEq

/-- What a run depends on besides the flash: ciphers, device key, the loader's tag, the header with
the public keys, and the fate of its writes. -/
structure Device where
  crypto : Crypto
  aead : Aead
  key : Bytes
  swapTag : Bytes
  isDeveloper : Bool
  boot1 : SignatureInFlash
  write : Nat → WriteOutcome

/-- The flash and the number of pages a run has written. -/
structure Flash where
  mem : Memory
  written : Nat

abbrev SwapM := Prog Stop Flash

def require (c : Bool) : SwapM Unit := if c then pure () else fail .panicked

def slice (lo hi : Nat) : SwapM Bytes := do
  require (decide (lo ≤ hi ∧ hi ≤ swapLen))
  gets fun s => readBytes s.mem lo (hi - lo)

/-- A page of the flash; a short page ends in zeros. -/
def store (mem : Memory) (offset : Nat) (page : Bytes) : Memory := fun x =>
  if offset ≤ x ∧ x < offset + sectorLen then page.getD (x - offset) 0 else mem x

def writePage (dev : Device) (offset : Nat) (page : Bytes) : SwapM Unit := do
  if offset % sectorLen ≠ 0 then fail (.error .badAddress)
  else
    match dev.write (← gets Flash.written) with
    | .done => modify fun s => { mem := store s.mem offset page, written := s.written + 1 }
    | .refused => fail (.error .internalError)
    | .lost => fail .powerLoss

structure SwapSourceHeader where
  version : Nat
  partialNonce : Bytes
  macOffset : Nat
  aadLen : Nat
  aad : Bytes

open SwapSourceHeader

namespace SwapSourceHeader

def read (mem : Memory) : SwapSourceHeader where
  version := u32At mem 0
  partialNonce := readBytes mem 4 8
  macOffset := u32At mem 12
  aadLen := u32At mem 16
  aad := readBytes mem 20 64

variable (ssh : SwapSourceHeader)

/-- Where the data pages end and the tags start. -/
def imageMacStart : Nat := usizeAdd ssh.macOffset 0x1000

/-- How often the loop over the data pages runs. -/
def pages : Nat := (ssh.imageMacStart - 0x1000) / sectorLen

def nonce (p : Nat) : Bytes :=
  [3, 2, 1, 0].map (fun i => UInt8.ofNat (sectorLen * p / 256 ^ i)) ++ ssh.partialNonce

def aadSlice : Bytes := ssh.aad.take ssh.aadLen

def tagLoc (p : Nat) : Nat := usizeAdd ssh.imageMacStart (p * tagLen)

end SwapSourceHeader

def getSwapHeader : SwapM SwapSourceHeader := do
  let ssh ← gets fun s => read s.mem
  if ssh.version = swapVersion then pure ssh else fail (.error .verificationError)

/-- What the loop has gathered: the bytes that went into the hash, the new tags, and the new first page. -/
structure Progress where
  hashed : Bytes
  tags : List Bytes
  firstPage : Bytes

/-- Page `p` of the data. There is no result if the image turns out to be sealed already. -/
def convertPage (dev : Device) (ssh : SwapSourceHeader) (acc : Progress) (p : Nat) : SwapM (Option Progress) := do
  let offset := 0x1000 + sectorLen * p
  let cipher ← slice offset (offset + sectorLen)
  require (decide (ssh.aadLen ≤ 64))
  let tag ← slice (ssh.tagLoc p) (usizeAdd (ssh.tagLoc p) tagLen)
  match dev.aead.decrypt zeroKey (ssh.nonce p) ssh.aadSlice tag cipher with
  | none =>
    if p = 0 ∧ (dev.aead.decrypt dev.key (ssh.nonce p) ssh.aadSlice tag cipher).isSome then pure none
    else fail (.error .verificationError)
  | some plain => do
    let page := dev.aead.encrypt dev.key (ssh.nonce p) ssh.aadSlice plain
    -- The first page is spoiled until the signature has been verified.
    writePage dev offset (if p = 0 then [] else page.1)
    pure (some
      { hashed := acc.hashed ++ cipher
        tags := acc.tags ++ [page.2]
        firstPage := if p = 0 then page.1 else acc.firstPage })

def convertPages (dev : Device) (ssh : SwapSourceHeader) : List Nat → Progress → SwapM (Option Progress)
  | [], acc => pure (some acc)
  | p :: rest, acc => do
    match ← convertPage dev ssh acc p with
    | none => pure none
    | some acc => convertPages dev ssh rest acc

def refuseDeveloper (dev : Device) : SwapM Unit :=
  if dev.swapTag = developerTag ∧ dev.isDeveloper = false then fail .developerKey else pure ()

/-- The last key whose tag is the one asked for; a key that cannot be decoded is an error. -/
def findKey (dev : Device) : Except Stop (Option Bytes) :=
  dev.boot1.sealedData.pubkeys.foldlM (fun found pkey =>
    if pkey.tag = dev.swapTag then
      if dev.crypto.validKey pkey.pk then .ok (some pkey.pk) else .error (.error .verificationError)
    else .ok found) none

/-- The two signature schemes; the length of the additional data tells which. -/
def verifies (dev : Device) (pk : Bytes) (sig : SignatureInFlash) (hashed : Bytes) : Bool :=
  if sig.aadLen = 0 then dev.crypto.verifyPrehashed pk (dev.crypto.sha512 hashed) sig.signature
  else dev.crypto.verifyStrict pk
    (sig.aad.take sig.aadLen ++ dev.crypto.sha256 (dev.crypto.sha512 hashed)) sig.signature

/-- The signature is for a swap image and of a version that is known. -/
def wellFormed (dev : Device) (sig : SignatureInFlash) : Bool :=
  dev.boot1.sealedData.magic == magicNumber && sig.sealedData.magic == magicNumber && sig.isCompatible &&
    (sig.sealedData.functionCode == 0x8000 || sig.sealedData.functionCode == 0x8001)

def tagBlock (tags : List Bytes) (k : Nat) : Bytes := ((tags.drop (tagsPerPage * k)).take tagsPerPage).flatten

def commitTags (dev : Device) (ssh : SwapSourceHeader) (tags : List Bytes) : SwapM Unit :=
  forEach (List.range ((tags.length + (tagsPerPage - 1)) / tagsPerPage)) fun k =>
    writePage dev (usizeAdd ssh.imageMacStart (sectorLen * k)) (tagBlock tags k)

/-- The signature is checked over what has been hashed and the rest of the signed bytes, and the
first page restored. -/
def verifyImage (dev : Device) (ssh : SwapSourceHeader) (acc : Progress) (sig : SignatureInFlash) (pk : Bytes) :
    SwapM Unit := do
  let remainder := usizeSub sig.sealedData.signedLen acc.hashed.length
  let tail ← slice ssh.imageMacStart (usizeAdd ssh.imageMacStart remainder)
  require (decide (usizeAdd acc.hashed.length remainder = sig.sealedData.signedLen))
  require (decide (sig.aadLen = 0 ∨ sig.aadLen ≤ aadLength))
  if verifies dev pk sig (acc.hashed ++ tail) then writePage dev 0x1000 acc.firstPage
  else fail (.error .verificationError)

/-- What follows after all pages have been read. -/
def endorse (dev : Device) (ssh : SwapSourceHeader) (acc : Progress) : SwapM Unit := do
  refuseDeveloper dev
  let sig ← gets fun s => SignatureInFlash.read s.mem imgOffset
  if wellFormed dev sig then do
    require (decide (usizeAdd startHash sig.sealedData.signedLen ≤ spiFlashLen))
    refuseDeveloper dev
    let pk ← ofOption (.error .verificationError) (← ofExcept (findKey dev))
    verifyImage dev ssh acc sig pk
    refuseDeveloper dev
    commitTags dev ssh acc.tags
  else fail (.error .invalidArgument)

/-- Everything after the header has been read. -/
def convertImage (dev : Device) (ssh : SwapSourceHeader) : SwapM Unit := do
  require (decide (ssh.macOffset % sectorLen = 0))
  let header ← slice startHash 0x1000
  match ← convertPages dev ssh (List.range ssh.pages) { hashed := header, tags := [], firstPage := [] } with
  | none => pure ()
  | some acc => endorse dev ssh acc

def ensureSwapEncryption (dev : Device) : SwapM Unit := getSwapHeader >>= convertImage dev

section

-- every page is read before it is written, and nothing else is written before the signature check:
-- what a run reads is a matter of the flash it starts with
variable (dev : Device) (f : Memory)

def head : SwapSourceHeader := read f

def signature : SignatureInFlash := SignatureInFlash.read f imgOffset

def cipherAt (p : Nat) : Bytes := readBytes f (0x1000 + sectorLen * p) sectorLen

def tagAt (p : Nat) : Bytes := readBytes f ((head f).tagLoc p) tagLen

/-- Page `p` opens under a key with the tag that is stored for it. -/
def openAt (key : Bytes) (p : Nat) : Option Bytes :=
  dev.aead.decrypt key ((head f).nonce p) (head f).aadSlice (tagAt f p) (cipherAt f p)

/-- Page `p` under the key of the device, and its tag. -/
def resealed (p : Nat) : Bytes × Bytes :=
  dev.aead.encrypt dev.key ((head f).nonce p) (head f).aadSlice ((openAt dev f zeroKey p).getD [])

/-- The page is opened and its successor reached. -/
def Passes (p : Nat) : Prop := (openAt dev f zeroKey p).isSome ∧ dev.write p = .done

def InBounds (p : Nat) : Prop :=
  0x1000 + sectorLen * p + sectorLen ≤ swapLen ∧ (head f).aadLen ≤ 64 ∧
    (head f).tagLoc p ≤ usizeAdd ((head f).tagLoc p) tagLen ∧ usizeAdd ((head f).tagLoc p) tagLen ≤ swapLen

/-- A run that has converted `p` pages. -/
structure Converting (p : Nat) (s : Flash) (acc : Progress) : Prop where
  rest : ∀ x, x < 0x1000 ∨ 0x1000 + sectorLen * p ≤ x → s.mem x = f x
  spoiled : 0 < p → ∀ i < sectorLen, s.mem (0x1000 + i) = 0
  written : s.written = p
  hashed : acc.hashed = readBytes f startHash (0x1000 - startHash) ++ (List.range p).flatMap (cipherAt f)
  tags : acc.tags = (List.range p).map fun q => (resealed dev f q).2
  firstPage : acc.firstPage = if p = 0 then [] else (resealed dev f 0).1
  room : 0 < p → (head f).imageMacStart + tagLen ≤ swapLen

end

variable {m m' : Memory}

theorem readBytes_congr {a len : Nat} (h : ∀ i < len, m (a + i) = m' (a + i)) :
    readBytes m a len = readBytes m' a len := by simpa [readBytes] using h

theorem u32At_lt (mem : Memory) (a : Nat) : u32At mem a < 2 ^ 32 := by
  have h0 := (mem a).toNat_lt
  have h1 := (mem (a + 1)).toNat_lt
  have h2 := (mem (a + 2)).toNat_lt
  have h3 := (mem (a + 3)).toNat_lt
  simp only [u32At, readBytes, List.range, List.range.loop, List.map, fromLeBytes, Nat.add_zero]
  omega

theorem read_congr {a : Nat} (h : ∀ i < sigblockLen, m (a + i) = m' (a + i)) :
    SignatureInFlash.read m a = SignatureInFlash.read m' a := by
  have hbytes : ∀ o len, o + len ≤ sigblockLen → readBytes m (a + o) len = readBytes m' (a + o) len :=
    fun o len hlen => readBytes_congr fun i hi => by
      rw [Nat.add_assoc]
      exact h _ (by omega)
  have hword : ∀ o, o + 4 ≤ sigblockLen → u32At m (a + o) = u32At m' (a + o) := fun o ho => by
    rw [u32At, u32At, hbytes o 4 ho]
  have hkeys : ∀ o, o + 36 * 4 ≤ sigblockLen → (List.range 4).map (fun i => Pubkey.read m (a + (o + 36 * i))) =
      (List.range 4).map (fun i => Pubkey.read m' (a + (o + 36 * i))) := fun o ho =>
    List.map_congr_left fun i hi => by
      have hi := List.mem_range.mp hi
      simp only [Pubkey.read, Nat.add_assoc, publicKeyLength]
      rw [hbytes _ _ (by omega), hbytes _ _ (by omega)]
  simp only [SignatureInFlash.read, SealedFields.read, signatureLength, aadLength, unsignedLen, signedLenOffset,
    functionCodeOffset, antiRollbackOffset, Nat.add_assoc, Nat.reduceAdd]
  rw [hbytes 4 64 (by decide), hword 68 (by decide), hbytes 72 60 (by decide), hword 132 (by decide),
    hword 136 (by decide), hword 140 (by decide), hword 144 (by decide), hword 148 (by decide),
    hword 152 (by decide), hkeys 188 (by decide), hword 352 (by decide), hkeys 360 (by decide)]

variable {dev : Device} {f : Memory} {p : Nat} {s : Flash} {acc : Progress}

variable {lo hi : Nat}

theorem slice_eq (hin : lo ≤ hi ∧ hi ≤ swapLen) (s : Flash) : slice lo hi s = .ok (readBytes s.mem lo (hi - lo)) s := by
  simp [slice, require, hin, bind_apply]

theorem slice_out (hout : ¬ (lo ≤ hi ∧ hi ≤ swapLen)) (s : Flash) : slice lo hi s = .err .panicked s := by
  simp only [slice, require, decide_eq_true_eq, if_neg hout, bind_apply, fail_apply]

theorem require_then {α : Type} {c : Bool} (h : c = true) (m : SwapM α) (s : Flash) :
    (require c >>= fun _ => m) s = m s := by
  rw [bind_apply, require, if_pos h, pure_apply]

theorem slice_then {α : Type} (hin : lo ≤ hi ∧ hi ≤ swapLen) (k : Bytes → SwapM α) (s : Flash) :
    (slice lo hi >>= k) s = k (readBytes s.mem lo (hi - lo)) s := by
  rw [bind_apply, slice_eq hin]

theorem room_of_inBounds (h : InBounds f 0) : (head f).imageMacStart + tagLen ≤ swapLen := by
  obtain ⟨-, -, hlo, hhi⟩ := h
  have hlt : (head f).imageMacStart < 2 ^ 32 := usizeAdd_lt _ _
  simp only [tagLoc, Nat.zero_mul, usizeAdd, Nat.add_zero, Nat.mod_eq_of_lt hlt] at hlo hhi
  simp only [tagLen, swapLen] at *
  omega

theorem pages_le (f : Memory) : 0 < (head f).pages → 0x1000 + sectorLen * (head f).pages ≤ (head f).imageMacStart := by
  unfold pages sectorLen
  omega

theorem tagLoc_eq (hp : p < (head f).pages) (hroom : 0 < p → (head f).imageMacStart + tagLen ≤ swapLen) :
    (head f).tagLoc p = (head f).imageMacStart + p * tagLen := by
  have hpages := pages_le f (by omega)
  have hlt : (head f).imageMacStart < 2 ^ 32 := usizeAdd_lt _ _
  apply usizeAdd_eq
  simp only [tagLen, swapLen, sectorLen] at *
  omega

section

variable (h : Converting dev f p s acc)
include h

theorem Converting.cipher : readBytes s.mem (0x1000 + sectorLen * p) sectorLen = cipherAt f p :=
  readBytes_congr fun _ _ => h.rest _ (.inr (by omega))

theorem Converting.tag (hp : p < (head f).pages) : readBytes s.mem ((head f).tagLoc p) tagLen = tagAt f p := by
  refine readBytes_congr fun i _ => h.rest _ ?_
  have hpages := pages_le f (by omega)
  have hmul : sectorLen * p ≤ sectorLen * (head f).pages := Nat.mul_le_mul_left _ hp.le
  rw [tagLoc_eq hp h.room]
  omega

omit h in
theorem writePage_eq (dev : Device) (offset : Nat) (page : Bytes) (haligned : offset % sectorLen = 0) (s : Flash) :
    writePage dev offset page s = match dev.write s.written with
      | .done => .ok () { mem := store s.mem offset page, written := s.written + 1 }
      | .refused => .err (.error .internalError) s
      | .lost => .err .powerLoss s := by
  rw [writePage, if_neg (by omega), bind_apply, gets_apply]
  simp only
  cases dev.write s.written <;> rfl

theorem Converting.next (hroom : (head f).imageMacStart + tagLen ≤ swapLen) :
    Converting dev f (p + 1)
      { mem := store s.mem (0x1000 + sectorLen * p) (if p = 0 then [] else (resealed dev f p).1)
        written := s.written + 1 }
      { hashed := acc.hashed ++ cipherAt f p
        tags := acc.tags ++ [(resealed dev f p).2]
        firstPage := if p = 0 then (resealed dev f p).1 else acc.firstPage } where
  rest x hx := by
    rw [Nat.mul_succ] at hx
    simp only [store]
    rw [if_neg (by omega), h.rest x (by omega)]
  spoiled _ i hi := by
    simp only [store]
    by_cases hp : p = 0
    · subst hp
      rw [if_pos (by omega), if_pos rfl]
      rfl
    · have hone : sectorLen ≤ sectorLen * p := Nat.le_mul_of_pos_right _ (by omega)
      rw [if_neg (by omega), h.spoiled (by omega) i hi]
  written := by rw [h.written]
  hashed := by rw [h.hashed, List.range_succ, List.flatMap_append, List.flatMap_singleton, List.append_assoc]
  tags := by simp [h.tags, List.range_succ]
  firstPage := by
    rw [if_neg (Nat.succ_ne_zero p), h.firstPage]
    by_cases hp : p = 0
    · rw [if_pos hp, hp]
    · rw [if_neg hp, if_neg hp]
  room _ := hroom

theorem convertPage_cases (hp : p < (head f).pages) :
    (¬ InBounds f p ∧ convertPage dev (head f) acc p s = .err .panicked s) ∨
    InBounds f p ∧ ((¬ Passes dev f p ∧ (p = 0 ∧ convertPage dev (head f) acc p s = .ok none s ∨
            ∃ e, e ≠ .panicked ∧ convertPage dev (head f) acc p s = .err e s)) ∨
        Passes dev f p ∧ ∃ acc' s', convertPage dev (head f) acc p s = .ok (some acc') s' ∧
          Converting dev f (p + 1) s' acc') := by
  by_cases hin : InBounds f p
  · refine .inr ⟨hin, ?_⟩
    obtain ⟨hdata, haad, hlo, hhi⟩ := id hin
    have hroom : (head f).imageMacStart + tagLen ≤ swapLen := by
      rcases Nat.eq_zero_or_pos p with rfl | hpos
      · exact room_of_inBounds hin
      · exact h.room hpos
    have hlen : usizeAdd ((head f).tagLoc p) tagLen - (head f).tagLoc p = tagLen := by
      have hlt : (head f).tagLoc p < 2 ^ 32 := usizeAdd_lt _ _
      simp only [usizeAdd, tagLen] at hlo ⊢
      omega
    generalize hrun : convertPage dev (head f) acc p s = o
    rw [convertPage, bind_apply, slice_eq ⟨by omega, hdata⟩, Nat.add_sub_cancel_left, h.cipher] at hrun
    simp only [bind_apply, require, decide_eq_true_eq, if_pos haad, pure_apply, slice_eq ⟨hlo, hhi⟩, hlen,
      h.tag hp] at hrun
    rw [← openAt, ← openAt] at hrun
    cases hopen : openAt dev f zeroKey p with
    | none =>
      rw [hopen] at hrun
      refine .inl ⟨fun hpass => by simp [Passes, hopen] at hpass, ?_⟩
      by_cases halready : p = 0 ∧ (openAt dev f dev.key p).isSome
      · exact .inl ⟨halready.1, by rw [← hrun, if_pos halready]; rfl⟩
      · exact .inr ⟨.error .verificationError, by decide, by rw [← hrun, if_neg halready]; rfl⟩
    | some plain =>
      have hresealed : dev.aead.encrypt dev.key ((head f).nonce p) (head f).aadSlice plain = resealed dev f p := by
        rw [resealed, hopen, Option.getD_some]
      rw [hopen] at hrun
      simp only [hresealed, bind_apply] at hrun
      rw [writePage_eq dev _ _ (by simp only [sectorLen]; omega), h.written] at hrun
      cases hwrite : dev.write p with
      | done =>
        rw [hwrite] at hrun
        refine .inr ⟨⟨by simp [hopen], hwrite⟩, _, _, hrun.symm, ?_⟩
        have hnext := h.next hroom
        rwa [h.written] at hnext
      | refused | lost =>
        rw [hwrite] at hrun
        exact .inl ⟨fun hpass => by simp [Passes, hwrite] at hpass, .inr ⟨_, by decide, hrun.symm⟩⟩
  · refine .inl ⟨hin, ?_⟩
    rw [convertPage, bind_apply]
    by_cases hdata : 0x1000 + sectorLen * p + sectorLen ≤ swapLen
    · rw [slice_eq ⟨by omega, hdata⟩]
      by_cases haad : (head f).aadLen ≤ 64
      · have htag : ¬ ((head f).tagLoc p ≤ usizeAdd ((head f).tagLoc p) tagLen ∧
            usizeAdd ((head f).tagLoc p) tagLen ≤ swapLen) := fun htag => hin ⟨hdata, haad, htag⟩
        simp only [bind_apply, require, decide_eq_true_eq, if_pos haad, pure_apply, slice_out htag]
      · simp only [bind_apply, require, decide_eq_true_eq, if_neg haad, fail_apply]
    · rw [slice_out (fun hok => hdata hok.2)]

end

inductive LoopEnd (dev : Device) (f : Memory) : Outcome Stop Flash (Option Progress) → Prop where
  | finished (s : Flash) (acc : Progress) (hpasses : ∀ q < (head f).pages, Passes dev f q)
      (hbounds : ∀ q < (head f).pages, InBounds f q) (h : Converting dev f (head f).pages s acc) :
      LoopEnd dev f (.ok (some acc) s)
  | panicked (q : Nat) (s : Flash) (acc : Progress) (hq : q < (head f).pages) (hpasses : ∀ r < q, Passes dev f r)
      (hout : ¬ InBounds f q) (h : Converting dev f q s acc) : LoopEnd dev f (.err .panicked s)
  | stopped (q : Nat) (s : Flash) (acc : Progress) (e : Stop) (hq : q < (head f).pages)
      (hpasses : ∀ r < q, Passes dev f r) (hfails : ¬ Passes dev f q) (hbounds : ∀ r ≤ q, InBounds f r)
      (h : Converting dev f q s acc) (he : e ≠ .panicked) : LoopEnd dev f (.err e s)
  | already (s : Flash) (acc : Progress) (hpages : 0 < (head f).pages) (hfails : ¬ Passes dev f 0)
      (hbounds : InBounds f 0) (h : Converting dev f 0 s acc) : LoopEnd dev f (.ok none s)

theorem convertPages_end (m : Nat) (h : Converting dev f p s acc) (hm : p + m = (head f).pages)
    (hpasses : ∀ q < p, Passes dev f q) (hbounds : ∀ q < p, InBounds f q) :
    LoopEnd dev f (convertPages dev (head f) (List.range' p m) acc s) := by
  induction m generalizing p s acc with
  | zero =>
    obtain rfl : p = (head f).pages := hm
    exact .finished s acc hpasses hbounds h
  | succ m ih =>
    have hp : p < (head f).pages := by omega
    rw [List.range'_succ, convertPages, bind_apply]
    rcases convertPage_cases h hp with ⟨hout, hrun⟩ | ⟨hin, ⟨hfails, ⟨rfl, hrun⟩ | ⟨e, he, hrun⟩⟩ | ⟨hpass, acc', s', hrun, h'⟩⟩
    · rw [hrun]
      exact .panicked p s acc hp hpasses hout h
    · rw [hrun]
      exact .already s acc hp hfails hin h
    · rw [hrun]
      exact .stopped p s acc e hp hpasses hfails (fun r hr => (Nat.lt_or_eq_of_le hr).elim (hbounds r) (· ▸ hin)) h he
    · rw [hrun]
      exact ih h' (by omega) (fun q hq => (Nat.lt_succ_iff_lt_or_eq.mp hq).elim (hpasses q) (· ▸ hpass))
        fun q hq => (Nat.lt_succ_iff_lt_or_eq.mp hq).elim (hbounds q) (· ▸ hin)

section

variable (dev : Device) (f : Memory)

/-- The record that is signed is for the swap and may be used. -/
def Acceptable : Prop :=
  ¬ (dev.swapTag = developerTag ∧ dev.isDeveloper = false) ∧ wellFormed dev (signature f) = true

/-- How much has been hashed after the last data page. -/
def hashedCount : Nat := 0x1000 - startHash + sectorLen * (head f).pages

def tailEnd : Nat :=
  usizeAdd (head f).imageMacStart (usizeSub (signature f).sealedData.signedLen (hashedCount f))

def TailInBounds : Prop :=
  usizeAdd startHash (signature f).sealedData.signedLen ≤ spiFlashLen ∧
    ∀ pk, findKey dev = .ok (some pk) → ((head f).imageMacStart ≤ tailEnd f ∧ tailEnd f ≤ swapLen) ∧
      ((signature f).aadLen = 0 ∨ (signature f).aadLen ≤ aadLength)

/-- The bytes that the signature is checked over: the end of the header, every data page, and the tags. -/
def message : Bytes :=
  readBytes f startHash (0x1000 - startHash) ++ (List.range (head f).pages).flatMap (cipherAt f) ++
    readBytes f (head f).imageMacStart (tailEnd f - (head f).imageMacStart)

def Verified : Prop :=
  Acceptable dev f ∧ ∃ pk, findKey dev = .ok (some pk) ∧ verifies dev pk (signature f) (message f) = true

end

theorem findKey_error {e : Stop} (h : findKey dev = .error e) : e = .error .verificationError := by
  suffices hfold : ∀ (keys : List Pubkey) (found : Option Bytes), keys.foldlM (fun found pkey =>
        if pkey.tag = dev.swapTag then
          if dev.crypto.validKey pkey.pk then .ok (some pkey.pk) else .error (.error .verificationError)
        else .ok found) found = (.error e : Except Stop (Option Bytes)) → e = .error .verificationError from
    hfold _ _ h
  intro keys
  induction keys with
  | nil => intro found h; cases h
  | cons key rest ih =>
    intro found h
    rw [List.foldlM_cons] at h
    split_ifs at h
    · exact ih _ h
    · cases h
      rfl
    · exact ih _ h

theorem Converting.tail (h : Converting dev f (head f).pages s acc) {x : Nat} (hx : (head f).imageMacStart ≤ x) :
    s.mem x = f x := by
  apply h.rest
  rcases Nat.eq_zero_or_pos (head f).pages with hzero | hpos
  · rw [hzero]
    omega
  · have := pages_le f hpos
    omega

theorem Converting.signature_eq (h : Converting dev f p s acc) : SignatureInFlash.read s.mem imgOffset = signature f :=
  read_congr fun i hi => h.rest _ (.inl (by
    have : imgOffset + sigblockLen = 0x1000 := by decide
    omega))

theorem Converting.length_hashed (h : Converting dev f p s acc) :
    acc.hashed.length = 0x1000 - startHash + sectorLen * p := by
  have hpages : ∀ n, ((List.range n).flatMap (cipherAt f)).length = sectorLen * n := by
    intro n
    induction n with
    | zero => rfl
    | succ n ih =>
      rw [List.range_succ, List.flatMap_append, List.length_append, ih, List.flatMap_singleton, cipherAt,
        length_readBytes, Nat.mul_succ]
  rw [h.hashed, List.length_append, length_readBytes, hpages]

section

variable (dev : Device) (f : Memory)

def tagBytes : Bytes := ((List.range (head f).pages).map fun q => (resealed dev f q).2).flatten

def blocks : Nat := ((head f).pages + (tagsPerPage - 1)) / tagsPerPage

/-- The signature has been verified, the first page restored and `k` pages of tags written. -/
structure Committed (k : Nat) (s : Flash) : Prop where
  first : ∀ i < sectorLen, s.mem (0x1000 + i) =
    (if (head f).pages = 0 then [] else (resealed dev f 0).1).getD i 0
  rest : ∀ x, x < 0x1000 ∨ 0x1000 + sectorLen * max 1 (head f).pages ≤ x → s.mem x =
    if (head f).imageMacStart ≤ x ∧ x < (head f).imageMacStart + sectorLen * k then
      (tagBytes dev f).getD (x - (head f).imageMacStart) 0
    else f x
  written : s.written = (head f).pages + 1 + k

end

theorem flatten_take {l : List Bytes} {w : Nat} (h : ∀ t ∈ l, t.length = w) (n : Nat) :
    (l.take n).flatten = l.flatten.take (w * n) := by
  induction n generalizing l with
  | zero => simp
  | succ n ih =>
    cases l with
    | nil => simp
    | cons t rest =>
      have ht := h t List.mem_cons_self
      rw [List.take_succ_cons, List.flatten_cons, List.flatten_cons, ih fun t' h' => h t' (List.mem_cons_of_mem _ h'),
        Nat.mul_succ, List.take_append, ht, Nat.add_sub_cancel,
        List.take_of_length_le (l := t) (by omega)]

theorem flatten_drop {l : List Bytes} {w : Nat} (h : ∀ t ∈ l, t.length = w) (n : Nat) :
    (l.drop n).flatten = l.flatten.drop (w * n) := by
  have hparts : (l.take n).flatten ++ (l.drop n).flatten = l.flatten := by
    rw [← List.flatten_append, List.take_append_drop]
  rw [flatten_take h] at hparts
  exact List.append_cancel_left (hparts.trans (List.take_append_drop (w * n) l.flatten).symm)

theorem getD_tagBlock {tags : List Bytes} (h : ∀ t ∈ tags, t.length = tagLen) (k : Nat) {i : Nat} (hi : i < sectorLen) :
    (tagBlock tags k).getD i 0 = tags.flatten.getD (sectorLen * k + i) 0 := by
  rw [tagBlock, flatten_take (fun t ht => h t (List.mem_of_mem_drop ht)), flatten_drop h, List.getD_eq_getElem?_getD,
    List.getD_eq_getElem?_getD, List.getElem?_take, if_pos (show i < tagLen * tagsPerPage from hi), List.getElem?_drop]
  congr 3
  rw [← Nat.mul_assoc]
  rfl

theorem pages_of_block {k : Nat} (hk : k < blocks f) :
    0 < (head f).pages ∧ 0x1000 + sectorLen * (head f).pages ≤ (head f).imageMacStart := by
  have hpos : 0 < (head f).pages := by
    simp only [blocks, tagsPerPage, sectorLen, tagLen] at hk
    omega
  exact ⟨hpos, pages_le f hpos⟩

theorem Committed.next {k : Nat} (h : Committed dev f k s) (hk : k < blocks f) :
    Committed dev f (k + 1)
      { mem := store s.mem ((head f).imageMacStart + sectorLen * k)
          (tagBlock ((List.range (head f).pages).map fun q => (resealed dev f q).2) k)
        written := s.written + 1 } := by
  obtain ⟨hpos, hpages⟩ := pages_of_block hk
  have hone : sectorLen ≤ sectorLen * (head f).pages := Nat.le_mul_of_pos_right _ hpos
  have htags : ∀ t ∈ (List.range (head f).pages).map (fun q => (resealed dev f q).2), t.length = tagLen := by
    simp only [List.mem_map]
    rintro t ⟨q, -, rfl⟩
    exact dev.aead.length_tag _ _ _ _
  refine ⟨fun i hi => ?_, fun x hx => ?_, by rw [h.written, Nat.add_assoc]⟩
  · rw [← h.first i hi]
    exact if_neg (by omega)
  · have hrest := h.rest x hx
    simp only [store, Nat.mul_succ]
    by_cases hnew : (head f).imageMacStart + sectorLen * k ≤ x ∧ x < (head f).imageMacStart + sectorLen * k + sectorLen
    · rw [if_pos hnew, if_pos (by omega), getD_tagBlock htags k (by omega), tagBytes,
        show sectorLen * k + (x - ((head f).imageMacStart + sectorLen * k)) = x - (head f).imageMacStart by omega]
    · rw [if_neg hnew, hrest]
      by_cases hold : (head f).imageMacStart ≤ x ∧ x < (head f).imageMacStart + sectorLen * k
      · rw [if_pos hold, if_pos (by omega)]
      · rw [if_neg hold, if_neg (by omega)]

inductive CommitEnd (dev : Device) (f : Memory) : Outcome Stop Flash Unit → Prop where
  | finished (s : Flash) (h : Committed dev f (blocks f) s) : CommitEnd dev f (.ok () s)
  | stopped (k : Nat) (s : Flash) (e : Stop) (hk : k < blocks f) (h : Committed dev f k s)
      (hwrite : e = .powerLoss ∨ dev.write ((head f).pages + 1 + k) = .refused ∧ e = .error .internalError) :
      CommitEnd dev f (.err e s)

theorem commitTags_end (haligned : (head f).macOffset % sectorLen = 0)
    (hroom : 0 < (head f).pages → (head f).imageMacStart + tagLen ≤ swapLen) (m : Nat) {k : Nat}
    (h : Committed dev f k s) (hm : k + m = blocks f) :
    CommitEnd dev f (forEach (List.range' k m) (fun k =>
      writePage dev (usizeAdd (head f).imageMacStart (sectorLen * k))
        (tagBlock ((List.range (head f).pages).map fun q => (resealed dev f q).2) k)) s) := by
  induction m generalizing k s with
  | zero =>
    obtain rfl : k = blocks f := hm
    exact .finished s h
  | succ m ih =>
    have hk : k < blocks f := by omega
    obtain ⟨hpos, hpages⟩ := pages_of_block hk
    have hplace : usizeAdd (head f).imageMacStart (sectorLen * k) = (head f).imageMacStart + sectorLen * k := by
      apply usizeAdd_eq
      have := hroom hpos
      simp only [blocks, tagsPerPage, sectorLen, tagLen, swapLen] at *
      omega
    have halign : ((head f).imageMacStart + sectorLen * k) % sectorLen = 0 := by
      rw [Nat.add_mul_mod_self_left]
      simp only [imageMacStart, usizeAdd, sectorLen] at *
      omega
    rw [List.range'_succ, forEach, bind_apply, hplace, writePage_eq dev _ _ halign, h.written]
    cases hwrite : dev.write ((head f).pages + 1 + k) with
    | done =>
      have hnext := h.next hk
      rw [h.written] at hnext
      exact ih hnext (by omega)
    | refused => exact .stopped k s _ hk h (.inr ⟨hwrite, rfl⟩)
    | lost => exact .stopped k s _ hk h (.inl rfl)

inductive EndorseEnd (dev : Device) (f : Memory) (s : Flash) : Outcome Stop Flash Unit → Prop where
  | panicked (hok : Acceptable dev f) (hout : ¬ TailInBounds dev f) : EndorseEnd dev f s (.err .panicked s)
  | stopped (e : Stop) (hfine : Acceptable dev f → TailInBounds dev f) (he : e ≠ .panicked) :
      EndorseEnd dev f s (.err e s)
  | committed (o : Outcome Stop Flash Unit) (hfine : TailInBounds dev f) (hverified : Verified dev f)
      (h : CommitEnd dev f o) : EndorseEnd dev f s o

theorem hashedCount_lt (f : Memory) : hashedCount f < 2 ^ 32 := by
  have hlt : (head f).imageMacStart < 2 ^ 32 := usizeAdd_lt _ _
  have hstart : 0x1000 - startHash ≤ 0x1000 := Nat.sub_le _ _
  rw [hashedCount]
  rcases Nat.eq_zero_or_pos (head f).pages with hzero | hpos
  · rw [hzero]
    omega
  · have := pages_le f hpos
    omega

def TailReadable (f : Memory) : Prop :=
  ((head f).imageMacStart ≤ tailEnd f ∧ tailEnd f ≤ swapLen) ∧
    ((signature f).aadLen = 0 ∨ (signature f).aadLen ≤ aadLength)

theorem verifyImage_cases (h : Converting dev f (head f).pages s acc) (pk : Bytes) :
    (¬ TailReadable f ∧ verifyImage dev (head f) acc (signature f) pk s = .err .panicked s) ∨
    TailReadable f ∧ ((∃ e, e ≠ .panicked ∧ verifyImage dev (head f) acc (signature f) pk s = .err e s) ∨
        verifies dev pk (signature f) (message f) = true ∧ ∃ s', Committed dev f 0 s' ∧
          verifyImage dev (head f) acc (signature f) pk s = .ok () s') := by
  have hlen : acc.hashed.length = hashedCount f := h.length_hashed
  have hcount : usizeAdd (hashedCount f) (usizeSub (signature f).sealedData.signedLen (hashedCount f)) =
      (signature f).sealedData.signedLen := by
    have hlt := hashedCount_lt f
    have hsigned : (signature f).sealedData.signedLen < 2 ^ 32 := u32At_lt _ _
    unfold usizeAdd usizeSub
    omega
  simp only [verifyImage, bind_apply, hlen, require, hcount, decide_true, if_true]
  rw [← tailEnd]
  by_cases htail : (head f).imageMacStart ≤ tailEnd f ∧ tailEnd f ≤ swapLen
  swap
  · rw [slice_out htail]
    exact .inl ⟨fun hfine => htail hfine.1, rfl⟩
  have hbytes : readBytes s.mem (head f).imageMacStart (tailEnd f - (head f).imageMacStart) =
      readBytes f (head f).imageMacStart (tailEnd f - (head f).imageMacStart) :=
    readBytes_congr fun i _ => h.tail (by omega)
  rw [slice_eq htail, hbytes]
  simp only [pure_apply, decide_eq_true_eq]
  by_cases haad : (signature f).aadLen = 0 ∨ (signature f).aadLen ≤ aadLength
  swap
  · simp only [if_neg haad, fail_apply]
    exact .inl ⟨fun hfine => haad hfine.2, trivial⟩
  refine .inr ⟨⟨htail, haad⟩, ?_⟩
  simp only [if_pos haad, pure_apply]
  rw [h.hashed, ← message]
  cases hverifies : verifies dev pk (signature f) (message f) with
  | false => exact .inl ⟨.error .verificationError, by decide, rfl⟩
  | true =>
    rw [if_pos rfl, writePage_eq dev 0x1000 _ (Nat.mod_self sectorLen), h.written]
    cases hwrite : dev.write (head f).pages with
    | done =>
      refine .inr ⟨rfl, _, ⟨fun i hi => ?_, fun x hx => ?_, rfl⟩, rfl⟩
      · simp only [store]
        rw [if_pos (by omega), Nat.add_sub_cancel_left, h.firstPage]
      · have hone : sectorLen * 1 ≤ sectorLen * max 1 (head f).pages :=
          Nat.mul_le_mul_left sectorLen (Nat.le_max_left 1 _)
        have hall : sectorLen * (head f).pages ≤ sectorLen * max 1 (head f).pages :=
          Nat.mul_le_mul_left sectorLen (Nat.le_max_right 1 _)
        simp only [store]
        rw [if_neg (by omega), if_neg (by omega), h.rest x (by omega)]
    | refused | lost => exact .inl ⟨_, by decide, rfl⟩

theorem endorse_end (h : Converting dev f (head f).pages s acc) (haligned : (head f).macOffset % sectorLen = 0) :
    EndorseEnd dev f s (endorse dev (head f) acc s) := by
  by_cases hdev : dev.swapTag = developerTag ∧ dev.isDeveloper = false
  · have hstop : endorse dev (head f) acc s = .err .developerKey s := by
      simp only [endorse, bind_apply, refuseDeveloper, if_pos hdev, fail_apply]
    rw [hstop]
    exact .stopped _ (fun hok => absurd hdev hok.1) (by decide)
  have hrefuse : ∀ s, refuseDeveloper dev s = .ok () s := fun s => by rw [refuseDeveloper, if_neg hdev]; rfl
  rw [endorse]
  simp only [bind_apply, hrefuse, gets_apply, h.signature_eq]
  cases hform : wellFormed dev (signature f) with
  | false => exact .stopped _ (fun hok => absurd hok.2 (by simp [hform])) (by decide)
  | true =>
  have hok : Acceptable dev f := ⟨hdev, hform⟩
  rw [if_pos rfl]
  by_cases hend : usizeAdd startHash (signature f).sealedData.signedLen ≤ spiFlashLen
  swap
  · simp only [bind_apply, require, decide_eq_true_eq, if_neg hend, fail_apply]
    exact .panicked hok fun htail => hend htail.1
  simp only [bind_apply, require, decide_eq_true_eq, if_pos hend, pure_apply, hrefuse]
  cases hkey : findKey dev with
  | error e =>
    rw [findKey_error hkey]
    exact .stopped _ (fun _ => ⟨hend, by simp [hkey]⟩) (by decide)
  | ok found =>
  cases found with
  | none => exact .stopped _ (fun _ => ⟨hend, by simp [hkey]⟩) (by decide)
  | some pk =>
  simp only [Prog.ofExcept, Prog.ofOption, pure_apply]
  rcases verifyImage_cases h pk with ⟨hout, hrun⟩ | ⟨hin, ⟨e, he, hrun⟩ | ⟨hverifies, s', hcommitted, hrun⟩⟩
  · rw [hrun]
    exact .panicked hok fun hfine => hout (hfine.2 pk hkey)
  · rw [hrun]
    exact .stopped e (fun _ => ⟨hend, fun _ _ => hin⟩) he
  · rw [hrun]
    refine .committed _ ⟨hend, fun _ _ => hin⟩ ⟨hok, pk, hkey, hverifies⟩ ?_
    simp only [commitTags, h.tags, List.length_map, List.length_range]
    rw [List.range_eq_range']
    exact commitTags_end haligned h.room _ hcommitted (Nat.zero_add _)

def run (dev : Device) (f : Memory) : Outcome Stop Flash Unit := ensureSwapEncryption dev ⟨f, 0⟩

inductive RunEnd (dev : Device) (f : Memory) : Outcome Stop Flash Unit → Prop where
  | otherVersion (hversion : (head f).version ≠ swapVersion) :
      RunEnd dev f (.err (.error .verificationError) ⟨f, 0⟩)
  | misaligned (hversion : (head f).version = swapVersion) (hout : (head f).macOffset % sectorLen ≠ 0) :
      RunEnd dev f (.err .panicked ⟨f, 0⟩)
  | panicked (q : Nat) (s : Flash) (acc : Progress) (hversion : (head f).version = swapVersion)
      (hq : q < (head f).pages) (hpasses : ∀ r < q, Passes dev f r) (hout : ¬ InBounds f q)
      (h : Converting dev f q s acc) : RunEnd dev f (.err .panicked s)
  | stopped (q : Nat) (s : Flash) (acc : Progress) (o : Outcome Stop Flash Unit)
      (haligned : (head f).macOffset % sectorLen = 0) (hq : q < (head f).pages)
      (hpasses : ∀ r < q, Passes dev f r) (hfails : ¬ Passes dev f q) (hbounds : ∀ r ≤ q, InBounds f r)
      (h : Converting dev f q s acc)
      (ho : o = .ok () s ∨ ∃ e, e ≠ .panicked ∧ o = .err e s) : RunEnd dev f o
  | finished (s : Flash) (acc : Progress) (o : Outcome Stop Flash Unit) (hversion : (head f).version = swapVersion)
      (haligned : (head f).macOffset % sectorLen = 0) (hpasses : ∀ q < (head f).pages, Passes dev f q)
      (hbounds : ∀ q < (head f).pages, InBounds f q) (h : Converting dev f (head f).pages s acc)
      (ho : EndorseEnd dev f s o) : RunEnd dev f o

theorem getSwapHeader_eq (f : Memory) : getSwapHeader ⟨f, 0⟩ =
    if (head f).version = swapVersion then .ok (head f) ⟨f, 0⟩ else .err (.error .verificationError) ⟨f, 0⟩ := by
  rw [getSwapHeader, bind_apply, gets_apply]
  by_cases hversion : (head f).version = swapVersion
  · rw [if_pos hversion]
    exact congrFun (if_pos hversion) _
  · rw [if_neg hversion]
    exact congrFun (if_neg hversion) _

def afterLoop (k : Progress → SwapM Unit) : Outcome Stop Flash (Option Progress) → Outcome Stop Flash Unit
  | .ok none s => .ok () s
  | .ok (some acc) s => k acc s
  | .err e s => .err e s
  | .panic => .panic

theorem bind_loop (loop : SwapM (Option Progress)) (k : Progress → SwapM Unit) (s : Flash) :
    (loop >>= fun r => match r with
      | none => pure ()
      | some acc => k acc) s = afterLoop k (loop s) := by
  rw [bind_apply]
  rcases loop s with ⟨_ | acc, s⟩ | ⟨e, s⟩ | _ <;> rfl

theorem convertImage_eq {ssh : SwapSourceHeader} (haligned : ssh.macOffset % sectorLen = 0) (f : Memory) :
    convertImage dev ssh ⟨f, 0⟩ = afterLoop (endorse dev ssh) (convertPages dev ssh (List.range ssh.pages)
      { hashed := readBytes f startHash (0x1000 - startHash), tags := [], firstPage := [] } ⟨f, 0⟩) := by
  have hheader : startHash ≤ 0x1000 ∧ 0x1000 ≤ swapLen := by decide
  rw [convertImage, require_then (decide_eq_true haligned), slice_then hheader]
  exact bind_loop _ _ _

theorem loop_end (dev : Device) (f : Memory) :
    LoopEnd dev f (convertPages dev (head f) (List.range (head f).pages)
      { hashed := readBytes f startHash (0x1000 - startHash), tags := [], firstPage := [] } ⟨f, 0⟩) := by
  rw [List.range_eq_range']
  refine convertPages_end (head f).pages ?_ (Nat.zero_add _) (fun _ h => absurd h (Nat.not_lt_zero _))
    fun _ h => absurd h (Nat.not_lt_zero _)
  exact ⟨fun _ _ => rfl, fun h => absurd h (Nat.lt_irrefl 0), rfl, by simp, rfl, rfl,
    fun h => absurd h (Nat.lt_irrefl 0)⟩

theorem LoopEnd.run {o : Outcome Stop Flash (Option Progress)} (h : LoopEnd dev f o)
    (hversion : (head f).version = swapVersion) (haligned : (head f).macOffset % sectorLen = 0) :
    RunEnd dev f (afterLoop (endorse dev (head f)) o) := by
  cases h with
  | finished s acc hpasses hbounds h =>
    exact .finished s acc _ hversion haligned hpasses hbounds h (endorse_end h haligned)
  | panicked q s acc hq hpasses hout h => exact .panicked q s acc hversion hq hpasses hout h
  | stopped q s acc e hq hpasses hfails hbounds h he =>
    exact .stopped q s acc _ haligned hq hpasses hfails hbounds h (.inr ⟨e, he, rfl⟩)
  | already s acc hpages hfails hbounds h =>
    exact .stopped 0 s acc _ haligned hpages (fun _ h => absurd h (Nat.not_lt_zero _)) hfails (fun r hr => Nat.le_zero.mp hr ▸ hbounds) h (.inl rfl)

theorem run_end (dev : Device) (f : Memory) : RunEnd dev f (run dev f) := by
  rw [run, ensureSwapEncryption, bind_apply, getSwapHeader_eq]
  by_cases hversion : (head f).version = swapVersion
  · rw [if_pos hversion]
    by_cases haligned : (head f).macOffset % sectorLen = 0
    · simp only [convertImage_eq haligned]
      exact (loop_end dev f).run hversion haligned
    · simp only [convertImage, bind_apply, require, decide_eq_false haligned, Bool.false_eq_true, if_false, fail_apply]
      exact .misaligned hversion haligned
  · rw [if_neg hversion]
    exact .otherVersion hversion

/-- A cipher that leaves the text as it is, with its first byte as the tag. -/
def Aead.toy : Aead where
  encrypt _ _ _ plain := (plain, List.replicate tagLen (plain.headD 0))
  decrypt _ _ _ tag cipher := if tag = List.replicate tagLen (cipher.headD 0) then some cipher else none
  decrypt_encrypt _ _ _ _ := if_pos rfl
  encrypt_decrypt {_ _ _ tag cipher plain} h := by
    split_ifs at h with htag
    cases h
    rw [htag]
  length_tag _ _ _ _ := List.length_replicate

def toyDevice : Device where
  crypto := Crypto.plain fun _ => false
  aead := Aead.toy
  key := []
  swapTag := []
  isDeveloper := false
  boot1 := SignatureInFlash.read (fun _ => 0) 0
  write _ := .done

/-- An image with one page of zeros, by its first byte, its tag and the offset of the tags. -/
def toyImage (first : UInt8) (macOffset : Nat → UInt8) : Memory := fun x =>
  if x = 2 ∨ x = 3 then 1
  else if 12 ≤ x ∧ x < 16 then macOffset (x - 12)
  else if x = 0x1000 ∨ 0x2000 ≤ x ∧ x < 0x2010 then first
  else 0

def onePage (i : Nat) : UInt8 := if i = 1 then 0x10 else 0

/-- The offsets and lengths of the header are in range, as far as a run gets to use them. -/
def Sound (dev : Device) (f : Memory) : Prop :=
  (head f).version = swapVersion →
    (head f).macOffset % sectorLen = 0 ∧
      (∀ q < (head f).pages, (∀ r < q, Passes dev f r) → InBounds f q) ∧
      ((∀ q < (head f).pages, Passes dev f q) → Acceptable dev f → TailInBounds dev f)

/-- The run ends with a result or an error, for want of power, or because of the developer key. -/
def Returns (o : Outcome Stop Flash Unit) : Prop := ∃ s, o = .ok () s ∨ ∃ e, e ≠ .panicked ∧ o = .err e s

theorem not_returns_panicked (s : Flash) : ¬ Returns (.err .panicked s) := by
  rintro ⟨s', h | ⟨e, he, h⟩⟩
  · cases h
  · cases h
    exact he rfl

theorem CommitEnd.returns {o : Outcome Stop Flash Unit} (h : CommitEnd dev f o) : Returns o := by
  cases h with
  | finished s h => exact ⟨s, .inl rfl⟩
  | stopped k s e hk h hwrite => exact ⟨s, .inr ⟨e, by rcases hwrite with rfl | ⟨-, rfl⟩ <;> decide, rfl⟩⟩

/-- A run panics exactly when an offset or length of the header that it uses is out of range. -/
theorem returns_iff_sound (dev : Device) (f : Memory) : Returns (run dev f) ↔ Sound dev f := by
  have hend := run_end dev f
  generalize run dev f = o at hend
  cases hend with
  | otherVersion hversion => exact ⟨fun _ h => absurd h hversion, fun _ => ⟨_, .inr ⟨_, by decide, rfl⟩⟩⟩
  | misaligned hversion hout =>
    exact ⟨fun h => absurd h (not_returns_panicked _), fun h => absurd (h hversion).1 hout⟩
  | panicked q s acc hversion hq hpasses hout _ =>
    exact ⟨fun h => absurd h (not_returns_panicked _), fun h => absurd ((h hversion).2.1 q hq hpasses) hout⟩
  | stopped q s acc o haligned hq _ hfails hbounds _ ho =>
    refine ⟨fun _ _ => ⟨haligned, fun r hr hpasses => ?_, fun hpasses => absurd (hpasses q hq) hfails⟩, fun _ => ⟨s, ho⟩⟩
    exact hbounds r (Nat.le_of_not_lt fun hlt => hfails (hpasses q hlt))
  | finished s acc o hversion haligned hpasses hbounds _ ho =>
    have hsound : (Acceptable dev f → TailInBounds dev f) → Sound dev f :=
      fun hfine _ => ⟨haligned, fun q hq _ => hbounds q hq, fun _ => hfine⟩
    cases ho with
    | panicked hok hout => exact ⟨fun h => absurd h (not_returns_panicked _), fun h => absurd ((h hversion).2.2 hpasses hok) hout⟩
    | stopped e hfine he => exact ⟨fun _ => hsound hfine, fun _ => ⟨s, .inr ⟨e, he, rfl⟩⟩⟩
    | committed o hfine _ h => exact ⟨fun _ => hsound fun _ => hfine, fun _ => h.returns⟩

/-- The additional data of this image would be longer than its field. -/
theorem not_returns_long_aad : ¬ Returns (run toyDevice fun x => if x = 16 then 65 else toyImage 7 onePage x) := by
  have hpanic : (run toyDevice fun x => if x = 16 then 65 else toyImage 7 onePage x).errs (fun e _ => e == .panicked) =
      true := by
    decide +kernel
  obtain ⟨e, s, hrun, he⟩ := Outcome.exists_of_errs hpanic
  rw [hrun, eq_of_beq he]
  exact not_returns_panicked s

/-- The flash that a run leaves. -/
def Final (o : Outcome Stop Flash Unit) (s : Flash) : Prop := o = .ok () s ∨ ∃ e, o = .err e s

theorem final_ok {s' : Flash} (h : Final (.ok () s) s') : s' = s := by
  rcases h with h | ⟨e, h⟩ <;> cases h
  rfl

theorem final_err {e : Stop} {s' : Flash} (h : Final (.err e s) s') : s' = s := by
  rcases h with h | ⟨e', h⟩ <;> cases h
  rfl

theorem Final.of_errs {o : Outcome Stop Flash Unit} {test : Stop → Flash → Bool} (h : Final o s)
    (htest : o.errs test = true) : ∃ e, test e s = true := by
  rcases h with rfl | ⟨e, rfl⟩
  · cases htest
  · exact ⟨e, htest⟩

section

variable (dev : Device)

/-- The first page opens neither under the zero key nor under the key of the device. -/
def Unusable (mem : Memory) : Prop := openAt dev mem zeroKey 0 = none ∧ openAt dev mem dev.key 0 = none

/-- Outside the data pages are only tags of pages signed as they were read; a run that fails has
written nothing, or leaves the first page unusable. -/
structure Safe (f : Memory) (o : Outcome Stop Flash Unit) : Prop where
  tags : ∀ s, Final o s → ∀ x,
    x < 0x1000 ∨ 0x1000 + sectorLen * max 1 (head f).pages ≤ x →
      s.mem x = f x ∨
        Verified dev f ∧ (head f).imageMacStart ≤ x ∧ s.mem x = (tagBytes dev f).getD (x - (head f).imageMacStart) 0
  spoils : ∀ e s, o = .err (.error e) s → s.written = 0 ∨ Unusable dev s.mem

/-- Zeros in place of the first page make it unusable; only the first page of tags may be refused,
and then the new first page does not go with the old tag. -/
structure Careful (f : Memory) : Prop where
  spoils : 0 < (head f).pages → Passes dev f 0 → Unusable dev (store f 0x1000 [])
  commits : ∀ k < blocks f, (∀ q < (head f).pages, Passes dev f q) → Verified dev f →
    dev.write ((head f).pages + 1 + k) = .refused → k = 0 ∧ Unusable dev (store f 0x1000 (resealed dev f 0).1)

end

/-- One run after another, each on the flash that the run before has left. -/
def AllSafe : List Device → Memory → Prop
  | [], _ => True
  | dev :: rest, f => Safe dev f (run dev f) ∧
      ∀ s, Final (run dev f) s → AllSafe rest s.mem

def AllCareful : List Device → Memory → Prop
  | [], _ => True
  | dev :: rest, f => Careful dev f ∧
      ∀ s, Final (run dev f) s → AllCareful rest s.mem

theorem head_congr (h : ∀ x < 0x1000, m x = m' x) : head m = head m' := by
  have hbytes : ∀ a len, a + len ≤ 0x1000 → readBytes m a len = readBytes m' a len := fun a len hlen =>
    readBytes_congr fun i hi => h _ (by omega)
  simp only [head, SwapSourceHeader.read, u32At]
  rw [hbytes 0 4 (by decide), hbytes 4 8 (by decide), hbytes 12 4 (by decide), hbytes 16 4 (by decide),
    hbytes 20 64 (by decide)]

theorem openAt_congr (key : Bytes) (hhead : ∀ x < 0x1000, m x = m' x)
    (hpage : ∀ i < sectorLen, m (0x1000 + i) = m' (0x1000 + i))
    (htag : ∀ i < tagLen, m ((head m').tagLoc 0 + i) = m' ((head m').tagLoc 0 + i)) :
    openAt dev m key 0 = openAt dev m' key 0 := by
  rw [openAt, openAt, tagAt, tagAt, cipherAt, cipherAt, head_congr hhead, readBytes_congr htag, Nat.mul_zero,
    Nat.add_zero, readBytes_congr hpage]

theorem Unusable.of_page {page : Bytes} (h : Unusable dev (store f 0x1000 page))
    (hpos : 0 < (head f).pages) (hhead : ∀ x < 0x1000, m x = f x)
    (hpage : ∀ i < sectorLen, m (0x1000 + i) = page.getD i 0)
    (htag : ∀ x, (head f).imageMacStart ≤ x → x < (head f).imageMacStart + tagLen → m x = f x) : Unusable dev m := by
  have hpages := pages_le f hpos
  have hone : sectorLen ≤ sectorLen * (head f).pages := Nat.le_mul_of_pos_right _ hpos
  have hlow : ∀ x < 0x1000, store f 0x1000 page x = f x := fun x hx => if_neg (by omega)
  have hloc : (head (store f 0x1000 page)).tagLoc 0 = (head f).imageMacStart := by
    have hlt : (head f).imageMacStart < 2 ^ 32 := usizeAdd_lt _ _
    rw [head_congr hlow, tagLoc, Nat.zero_mul, usizeAdd, Nat.add_zero, Nat.mod_eq_of_lt hlt]
  have hcongr : ∀ key, openAt dev m key 0 = openAt dev (store f 0x1000 page) key 0 := fun key =>
    openAt_congr key (fun x hx => (hhead x hx).trans (hlow x hx).symm) (fun i hi => by
        simp only [store]
        rw [hpage i hi, if_pos (by omega), Nat.add_sub_cancel_left])
      fun i hi => by
        simp only [hloc, store]
        rw [htag _ (by omega) (by omega), if_neg (by omega)]
  exact ⟨(hcongr _).trans h.1, (hcongr _).trans h.2⟩

theorem Converting.unusable (h : Converting dev f p s acc) (hp : p ≤ (head f).pages) (hcareful : Careful dev f)
    (hpasses : ∀ q < p, Passes dev f q) : s.written = 0 ∨ Unusable dev s.mem := by
  rcases Nat.eq_zero_or_pos p with rfl | hpos
  · exact .inl h.written
  · have hpages := pages_le f (by omega)
    have hmul : sectorLen * p ≤ sectorLen * (head f).pages := Nat.mul_le_mul_left sectorLen hp
    exact .inr ((hcareful.spoils (by omega) (hpasses 0 hpos)).of_page (by omega) (fun x hx => h.rest x (.inl hx))
      (fun i hi => by rw [h.spoiled hpos i hi]; rfl) fun x hx _ => h.rest x (.inr (by omega)))

theorem Converting.unchanged (h : Converting dev f p s acc) (hp : p ≤ (head f).pages) {x : Nat}
    (hx : x < 0x1000 ∨ 0x1000 + sectorLen * max 1 (head f).pages ≤ x) : s.mem x = f x := by
  have hall : sectorLen * p ≤ sectorLen * max 1 (head f).pages :=
    Nat.mul_le_mul_left sectorLen (hp.trans (Nat.le_max_right 1 _))
  exact h.rest x (by omega)

theorem CommitEnd.safe {o : Outcome Stop Flash Unit} (h : CommitEnd dev f o) (hverified : Verified dev f)
    (hpasses : ∀ q < (head f).pages, Passes dev f q) (hcareful : Careful dev f) : Safe dev f o := by
  have htags : ∀ {k s}, Committed dev f k s → ∀ x, x < 0x1000 ∨ 0x1000 + sectorLen * max 1 (head f).pages ≤ x →
      s.mem x = f x ∨ Verified dev f ∧ (head f).imageMacStart ≤ x ∧
        s.mem x = (tagBytes dev f).getD (x - (head f).imageMacStart) 0 := by
    intro k s h x hx
    rw [h.rest x hx]
    by_cases hin : (head f).imageMacStart ≤ x ∧ x < (head f).imageMacStart + sectorLen * k
    · rw [if_pos hin]
      exact .inr ⟨hverified, hin.1, rfl⟩
    · exact .inl (if_neg hin)
  cases h with
  | finished s h => exact ⟨fun s' hs' => final_ok hs' ▸ htags h, fun e s' hs' => by cases hs'⟩
  | stopped k s e hk h hwrite =>
    refine ⟨fun s' hs' => final_err hs' ▸ htags h, fun e' s' hs' => ?_⟩
    · cases hs'
      obtain ⟨hrefused, -⟩ : dev.write ((head f).pages + 1 + k) = .refused ∧ _ := hwrite.resolve_left (by simp)
      obtain ⟨rfl, hstale⟩ := hcareful.commits k hk hpasses hverified hrefused
      obtain ⟨hpos, hpages⟩ := pages_of_block hk
      have hmax : max 1 (head f).pages = (head f).pages := Nat.max_eq_right hpos
      refine .inr (hstale.of_page hpos (fun x hx => ?_) (fun i hi => ?_) fun x hx _ => ?_)
      · rw [h.rest x (.inl hx), if_neg (by omega)]
      · rw [h.first i hi, if_neg (by omega)]
      · rw [h.rest x (.inr (by rw [hmax]; omega)), if_neg (by omega)]

theorem safe_of_careful (hcareful : Careful dev f) : Safe dev f (run dev f) := by
  have hkept : ∀ {q s acc o}, Converting dev f q s acc → q ≤ (head f).pages → (∀ r < q, Passes dev f r) →
      Final o s → Safe dev f o := by
    intro q s acc o h hq hpasses ho
    have hsame : ∀ s', Final o s' → s' = s := by
      rcases ho with rfl | ⟨e, rfl⟩
      · exact fun _ => final_ok
      · exact fun _ => final_err
    exact ⟨fun s' hs' x hx => .inl (hsame s' hs' ▸ h.unchanged hq hx),
      fun e s' hs' => hsame s' (.inr ⟨_, hs'⟩) ▸ h.unusable hq hcareful hpasses⟩
  have hend := run_end dev f
  generalize run dev f = o at hend
  cases hend with
  | otherVersion hversion | misaligned hversion hout =>
    exact ⟨fun s hs x _ => .inl (by rw [final_err hs]), fun e s hs => .inl (by rw [final_err (.inr ⟨_, hs⟩)])⟩
  | panicked q s acc hversion hq hpasses hout h => exact hkept h hq.le hpasses (.inr ⟨_, rfl⟩)
  | stopped q s acc o haligned hq hpasses hfails hbounds h ho =>
    exact hkept h hq.le hpasses (ho.imp_right fun ⟨e, _, he⟩ => ⟨e, he⟩)
  | finished s acc o hversion haligned hpasses hbounds h ho =>
    cases ho with
    | panicked hok hout | stopped e hfine he => exact hkept h le_rfl hpasses (.inr ⟨_, rfl⟩)
    | committed o hfine hverified h => exact h.safe hverified hpasses hcareful

/-- Runs that are careful on the flash they find are safe, one after another and whatever their writes do. -/
theorem allSafe_of_allCareful (devs : List Device) (f : Memory) (h : AllCareful devs f) : AllSafe devs f := by
  induction devs generalizing f with
  | nil => trivial
  | cons dev rest ih => exact ⟨safe_of_careful h.1, fun s hs => ih s.mem (h.2 s hs)⟩

/-- The toy device, with a fate for its first write. -/
def firstWrite (fate : WriteOutcome) : Device := { toyDevice with write n := if n = 0 then fate else .done }

theorem careful_of_write (hwrite : dev.write 0 ≠ .done) : Careful dev f where
  spoils _ hpasses := absurd hpasses.2 hwrite
  commits _ hk hpasses _ _ := absurd (hpasses 0 (pages_of_block hk).1).2 hwrite

/-- The first run loses power and the next is refused its write; the last spoils the first page, for
the image is not signed. -/
theorem interrupted_runs_are_safe : AllSafe [firstWrite .lost, firstWrite .refused, toyDevice] (toyImage 7 onePage) := by
  have hruns : (run (firstWrite .lost) (toyImage 7 onePage)).errs (fun e s => e == .powerLoss &&
      (run (firstWrite .refused) s.mem).errs fun e s => e == .error .internalError &&
        openAt toyDevice (store s.mem 0x1000 []) zeroKey 0 == none &&
        openAt toyDevice (store s.mem 0x1000 []) toyDevice.key 0 == none) = true := by
    decide +kernel
  refine allSafe_of_allCareful _ _ ⟨careful_of_write (by simp [firstWrite]), fun s hs =>
    ⟨careful_of_write (by simp [firstWrite]), fun s' hs' => ⟨⟨fun _ _ => ?_, fun _ _ _ _ h => by cases h⟩, fun _ _ => trivial⟩⟩⟩
  obtain ⟨e, htest⟩ := hs.of_errs hruns
  obtain ⟨e', htest'⟩ := hs'.of_errs (Bool.and_eq_true_iff.mp htest).2
  simp only [Bool.and_eq_true, beq_iff_eq] at htest'
  exact ⟨htest'.1.2, htest'.2⟩

/-- A first page of zeros that opens under the zero key is not spoiled by zeros. -/
theorem not_allSafe_zeros : ¬ AllSafe [toyDevice] (toyImage 0 onePage) := by
  have hfails : (run toyDevice (toyImage 0 onePage)).errs (fun e s =>
      e == .error .invalidArgument && s.written == 1 && (openAt toyDevice s.mem zeroKey 0).isSome) = true := by
    decide +kernel
  obtain ⟨e, s, hrun, htest⟩ := Outcome.exists_of_errs hfails
  simp only [Bool.and_eq_true, beq_iff_eq] at htest
  obtain ⟨⟨rfl, hwritten⟩, hopen⟩ := htest
  intro hsafe
  rcases hsafe.1.spoils _ _ hrun with hzero | hunusable
  · rw [hwritten] at hzero
    cases hzero
  · rw [hunusable.1] at hopen
    cases hopen

end BaochipXous.SwapCrypt
