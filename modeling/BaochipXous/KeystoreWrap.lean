import BaochipXous.LibProg

/-!
Key wrapping through the keystore, in a buffer of fixed length and under the key of a domain. The
client of an unwrap checks that what is past the length it expects is zero. The wrap is a parameter,
with an output as long as RFC 5649 has it. Blocks for AES go the same way, one at a time or sixteen
together.
-/

namespace BaochipXous.Keys

open Prog

def maxWrapData : Nat := 2048

inductive KwError where
  | integrityCheckFailed
  | invalidDataSize
  | invalidKekSize (size : Nat)
  | invalidOutputSize (expected : Nat)

/-- `KeywrapError`, without the migration notice that only the older keystore raises. -/
inductive KeywrapError where
  | invalidDataSize
  | invalidKekSize
  | invalidOutputSize
  | integrityCheckFailed
  | noDomainSeperator

/-- The client's name for an error of the wrapping crate. -/
def KwError.toKeywrapError : KwError → KeywrapError
  | .integrityCheckFailed => .integrityCheckFailed
  | .invalidDataSize => .invalidDataSize
  | .invalidKekSize _ => .invalidKekSize
  | .invalidOutputSize _ => .invalidOutputSize

structure KeyWrap (Key : Type) where
  wrapWithPadding : Key → List UInt8 → Except KwError (List UInt8)
  unwrapWithPadding : Key → List UInt8 → Except KwError (List UInt8)
  /-- What is wrapped is padded to whole words of eight bytes, and one word goes in front. -/
  wraps (key : Key) (data : List UInt8) (hpos : 1 ≤ data.length) (hlen : data.length < 2 ^ 32) :
    ∃ w, wrapWithPadding key data = .ok w ∧ w.length = 8 * ((data.length + 7) / 8) + 8
  unwraps {key : Key} {data w : List UInt8} (h : wrapWithPadding key data = .ok w) :
    unwrapWithPadding key w = .ok data

inductive KeyWrapOp where
  | wrap
  | unwrap

/-- The record that goes to the server and back. -/
structure KeyWrapper where
  data : Vector UInt8 (maxWrapData + 8)
  /-- How much of `data` is in use. -/
  len : Nat
  domain : String
  op : KeyWrapOp
  result : Option KeywrapError
  expectedLen : Nat

/-- The server's side: what `aes_kwp` reads of it. -/
structure KeyStore (Key : Type) where
  masterKey : Option Key

structure Keystore where
  domain : Option String

inductive XousError where
  | useBeforeInit

/-- The loop that copies a slice to the front of a buffer, as far as the shorter one goes. -/
def copyInto {n : Nat} (src : List UInt8) (dst : Vector UInt8 n) : Vector UInt8 n :=
  Vector.ofFn fun i => src.getD i dst[i]

/-- The slice `data[lo..hi]`, with its bounds checks. -/
def sliceOf {ε σ : Type} {n : Nat} (data : Vector UInt8 n) (lo hi : Nat) : Prog ε σ (List UInt8) := do
  assert (lo ≤ hi && hi ≤ n)
  pure ((data.toList.take hi).drop lo)

theorem take_copyInto {n : Nat} (src : List UInt8) (dst : Vector UInt8 n) (h : src.length ≤ n) :
    (copyInto src dst).toList.take src.length = src := by
  apply List.ext_getElem
  · simpa using h
  · intro i hi hi'
    simp [copyInto, List.getElem?_eq_getElem hi']

theorem sliceOf_copyInto {ε σ : Type} {n : Nat} (src : List UInt8) (dst : Vector UInt8 n) (h : src.length ≤ n) (s : σ) :
    (sliceOf (copyInto src dst) 0 src.length : Prog ε σ (List UInt8)) s = .ok src s := by
  simp [sliceOf, Prog.assert, h, bind_apply, take_copyInto]

section Server

variable {Key : Type} (W : KeyWrap Key)

/-- What both operations do with the result of the wrapping crate. -/
def KeyWrapper.answer (kwp : KeyWrapper) : Except KwError (List UInt8) → KeyWrapper
  | .ok wrapped =>
    { kwp with
      data := copyInto wrapped kwp.data
      len := wrapped.length % 2 ^ 32
      result := none
      expectedLen := wrapped.length % 2 ^ 32 }
  | .error e => { kwp with result := some e.toKeywrapError }

def aesKwp (kwp : KeyWrapper) : Prog XousError (KeyStore Key) KeyWrapper := do
  let key ← ofOption .useBeforeInit (← gets KeyStore.masterKey)
  let input ← sliceOf kwp.data 0 kwp.len
  match kwp.op with
  | .wrap => pure (kwp.answer (W.wrapWithPadding key input))
  | .unwrap => pure (kwp.answer (W.unwrapWithPadding key input))

/-- Lend the record to the server, whose handler expects `aes_kwp` to succeed. -/
def lendMut (kwp : KeyWrapper) : Prog KeywrapError (KeyStore Key) KeyWrapper := fun s =>
  match unwrap (aesKwp W kwp) s with
  | .ok kwp s => .ok kwp s
  | .err _ _ => .panic
  | .panic => .panic

/-- The record before it is lent: the input at the front of a zeroed buffer. -/
def KeyWrapper.request (op : KeyWrapOp) (domain : String) (input : List UInt8) (expectedLen : Nat) :
    KeyWrapper where
  data := copyInto input (Vector.replicate _ 0)
  len := input.length % 2 ^ 32
  domain := domain
  op := op
  result := some .integrityCheckFailed
  expectedLen := expectedLen % 2 ^ 32

def Keystore.wrapKey (self : Keystore) (input : List UInt8) :
    Prog KeywrapError (KeyStore Key) (List UInt8) := do
  if input.length > maxWrapData then fail .invalidDataSize
  else match self.domain with
  | some domain => do
    let ret ← lendMut W (.request .wrap domain input 0)
    match ret.result with
    | none => sliceOf ret.data 0 ret.len
    | some err => fail err
  | none => fail .noDomainSeperator

def Keystore.unwrapKey (self : Keystore) (wrapped : List UInt8) (expectedLen : Nat) :
    Prog KeywrapError (KeyStore Key) (List UInt8) := do
  if wrapped.length > maxWrapData + 8 then fail .invalidDataSize
  else match self.domain with
  | some domain => do
    let ret ← lendMut W (.request .unwrap domain wrapped expectedLen)
    match ret.result with
    | none =>
      if ret.len ≠ expectedLen then
        if ret.len < expectedLen then fail .invalidOutputSize
        else do
          let excess ← sliceOf ret.data expectedLen ret.len
          if excess.all (· == 0) then sliceOf ret.data 0 expectedLen
          else fail .invalidDataSize
      else sliceOf ret.data 0 expectedLen
    | some err => fail err
  | none => fail .noDomainSeperator

def KeyWrapOp.run (op : KeyWrapOp) (key : Key) (input : List UInt8) : Except KwError (List UInt8) :=
  match op with
  | .wrap => W.wrapWithPadding key input
  | .unwrap => W.unwrapWithPadding key input

theorem lendMut_request (op : KeyWrapOp) (domain : String) (input : List UInt8) (expectedLen : Nat)
    (key : Key) (h : input.length ≤ maxWrapData + 8) :
    lendMut W (.request op domain input expectedLen) ⟨some key⟩ =
      .ok ((KeyWrapper.request op domain input expectedLen).answer (op.run W key input)) ⟨some key⟩ := by
  have hmod : input.length % 2 ^ 32 = input.length := Nat.mod_eq_of_lt (by simp [maxWrapData] at h; omega)
  have hslice := sliceOf_copyInto (ε := XousError) (σ := KeyStore Key) input
    (Vector.replicate (maxWrapData + 8) 0) h ⟨some key⟩
  cases op <;> simp only [lendMut, unwrap, aesKwp, bind_apply, gets_apply, ofOption, pure_apply,
      KeyWrapper.request, hmod, hslice, KeyWrapOp.run]

theorem lendMut_request_ok (op : KeyWrapOp) (domain : String) (input : List UInt8) (expectedLen : Nat)
    (key : Key) {out : List UInt8} (h : input.length ≤ maxWrapData + 8)
    (hout : out.length ≤ maxWrapData + 8) (hrun : op.run W key input = .ok out) :
    ∃ ret, lendMut W (.request op domain input expectedLen) ⟨some key⟩ = .ok ret ⟨some key⟩ ∧
      ret.result = none ∧ ret.len = out.length ∧
      ∀ s : KeyStore Key, (sliceOf ret.data 0 out.length : Prog KeywrapError _ _) s = .ok out s := by
  refine ⟨_, lendMut_request W op domain input expectedLen key h, ?_, ?_, fun s => ?_⟩
  · rw [hrun, KeyWrapper.answer]
  · rw [hrun]
    exact Nat.mod_eq_of_lt (by simp [maxWrapData] at hout; omega)
  · rw [hrun]
    exact sliceOf_copyInto out _ hout s

theorem wrapKey_ok (domain : String) (key : Key) (input : List UInt8) (hpos : 1 ≤ input.length)
    (hmax : input.length ≤ maxWrapData) :
    ∃ w, W.wrapWithPadding key input = .ok w ∧ w.length ≤ maxWrapData + 8 ∧
      Keystore.wrapKey W ⟨some domain⟩ input ⟨some key⟩ = .ok w ⟨some key⟩ := by
  obtain ⟨w, hw, hlen⟩ := W.wraps key input hpos (by simp [maxWrapData] at hmax; omega)
  have hfit : w.length ≤ maxWrapData + 8 := by
    simp only [maxWrapData] at hmax ⊢
    omega
  obtain ⟨ret, hret, hnone, hlen', hslice⟩ :=
    lendMut_request_ok W .wrap domain input 0 key (by omega) hfit hw
  refine ⟨w, hw, hfit, ?_⟩
  simp only [Keystore.wrapKey, bind_apply, Nat.not_lt.mpr hmax, ↓reduceIte, hret, hnone, hlen', hslice]

theorem unwrapKey_of_wrap (domain : String) (key : Key) {input w : List UInt8}
    (hmax : input.length ≤ maxWrapData) (hw : W.wrapWithPadding key input = .ok w)
    (hfit : w.length ≤ maxWrapData + 8) :
    Keystore.unwrapKey W ⟨some domain⟩ w input.length ⟨some key⟩ = .ok input ⟨some key⟩ := by
  obtain ⟨ret, hret, hnone, hlen, hslice⟩ :=
    lendMut_request_ok W .unwrap domain w input.length key hfit (by omega) (W.unwraps hw)
  simp only [Keystore.unwrapKey, Nat.not_lt.mpr hfit, ↓reduceIte, bind_apply, hret, hnone, hlen,
    ne_eq, not_true_eq_false, hslice]

/-- What wrapping for a domain promises: the key comes back under that domain, and an unwrap under
another one fails. -/
def Separated (key : Key) (domain other : String) (input : List UInt8) : Prop :=
  ∃ w, Keystore.wrapKey W ⟨some domain⟩ input ⟨some key⟩ = .ok w ⟨some key⟩ ∧
    Keystore.unwrapKey W ⟨some domain⟩ w input.length ⟨some key⟩ = .ok input ⟨some key⟩ ∧
    (other ≠ domain →
      ∃ e, Keystore.unwrapKey W ⟨some other⟩ w input.length ⟨some key⟩ = .err e ⟨some key⟩)

/-- The server wraps every domain under the one master key, so that a key is kept from no other
domain. -/
theorem separated_iff_same_domain (key : Key) (domain other : String) (input : List UInt8)
    (hpos : 1 ≤ input.length) (hmax : input.length ≤ maxWrapData) :
    Separated W key domain other input ↔ other = domain := by
  obtain ⟨w, hw, hfit, hwrap⟩ := wrapKey_ok W domain key input hpos hmax
  constructor
  · rintro ⟨w', hwrap', -, hother⟩
    obtain rfl : w' = w := by
      rw [hwrap] at hwrap'
      exact (Outcome.ok.inj hwrap').1.symm
    by_contra hne
    obtain ⟨e, he⟩ := hother hne
    rw [unwrapKey_of_wrap W other key hmax hw hfit] at he
    exact absurd he (by nofun)
  · intro heq
    exact ⟨w, hwrap, unwrapKey_of_wrap W domain key hmax hw hfit, fun hne => absurd heq hne⟩

end Server

def padding (data : List UInt8) : Nat := (8 - data.length % 8) % 8

/-- The word in front of the wrapped data: the key it is bound to, and the length of the padding. -/
def header (key : UInt8) (pad : Nat) : List UInt8 := [key, UInt8.ofNat pad, 0, 0, 0, 0, 0, 0]

/-- A wrap that carries its key, to show that the laws can be met. -/
def tagged : KeyWrap UInt8 where
  wrapWithPadding key data :=
    .ok (header key (padding data) ++ (data ++ List.replicate (padding data) 0))
  unwrapWithPadding
    | key, k :: pad :: rest =>
      if k = key then .ok ((rest.drop 6).take (rest.length - 6 - pad.toNat))
      else .error .integrityCheckFailed
    | _, _ => .error .invalidDataSize
  wraps key data hpos hlen := by
    refine ⟨_, rfl, ?_⟩
    simp only [header, padding, List.length_append, List.length_cons, List.length_nil,
      List.length_replicate]
    omega
  unwraps := by
    rintro key data w h
    cases h
    have hpad : padding data % 256 = padding data := Nat.mod_eq_of_lt (by simp only [padding]; omega)
    simp [header, hpad]

theorem separated_pddb : Separated tagged 7 "pddb" "pddb" [1, 2, 3] :=
  (separated_iff_same_domain tagged 7 "pddb" "pddb" [1, 2, 3] (by decide) (by decide)).mpr rfl

/-- A key wrapped for the PDDB is handed to a client that asks for it as a password. -/
theorem not_separated_password : ¬ Separated tagged 7 "pddb" "password" [1, 2, 3] := by
  rintro ⟨w, hwrap, -, hother⟩
  obtain ⟨w', hw', hfit, hwrap'⟩ := wrapKey_ok tagged "pddb" 7 [1, 2, 3] (by decide) (by decide)
  obtain rfl : w' = w := by
    rw [hwrap] at hwrap'
    exact (Outcome.ok.inj hwrap').1.symm
  obtain ⟨e, he⟩ := hother (by decide)
  rw [unwrapKey_of_wrap tagged "password" 7 (by decide) hw' hfit] at he
  exact absurd he (by nofun)

abbrev Block := Fin 16 → UInt8

abbrev ParBlocks := Fin 16 → Block

inductive AesOpType where
  | decrypt
  | encrypt

inductive AesBlockType where
  | singleBlock (b : Block)
  | parBlock (pb : ParBlocks)

structure AesOp where
  domain : String
  block : AesBlockType
  aesOp : AesOpType

/-- The derivation of a domain's key, and AES-256 under it. -/
structure Aes (Key : Type) where
  expand : Key → String → Key
  encryptBlock : Key → Block → Block
  decryptBlock : Key → Block → Block
  decrypts (key : Key) (b : Block) : decryptBlock key (encryptBlock key b) = b

section Oracle

variable {Key : Type} (A : Aes Key) (self : Keystore) (op : AesOpType)

def Aes.run : Key → Block → Block :=
  match op with
  | .decrypt => A.decryptBlock
  | .encrypt => A.encryptBlock

def aesOp (aes : AesOp) : Prog XousError (KeyStore Key) AesOp := do
  let okm := A.expand (← ofOption .useBeforeInit (← gets KeyStore.masterKey)) aes.domain
  match aes.block with
  | .singleBlock b =>
    -- the block is converted by value: the cipher works on a temporary, which is dropped
    let _temporary := A.run aes.aesOp okm b
    pure { aes with block := .singleBlock b }
  | .parBlock pb => pure { aes with block := .parBlock fun i => A.run aes.aesOp okm (pb i) }

/-- `proc_block` of `KeystoreEnc` and of `KeystoreDec`: what is in `out` afterwards. -/
def Keystore.procBlock (block out : Block) : Prog XousError (KeyStore Key) Block := do
  match self.domain with
  | some domain =>
    match (← unwrap (aesOp A ⟨domain, .singleBlock block, op⟩)).block with
    | .singleBlock b => pure b
    | .parBlock _ => pure out
  | none => pure out

def Keystore.procParBlocks (blocks out : ParBlocks) : Prog XousError (KeyStore Key) ParBlocks := do
  match self.domain with
  | some domain =>
    match (← unwrap (aesOp A ⟨domain, .parBlock blocks, op⟩)).block with
    | .parBlock pb => pure pb
    | .singleBlock _ => pure out
  | none => pure out

variable (key : Key) (domain : String) (b : Block)

theorem procBlock_eq (out : Block) :
    Keystore.procBlock A ⟨some domain⟩ op b out ⟨some key⟩ = .ok b ⟨some key⟩ := rfl

theorem procParBlocks_eq (pb out : ParBlocks) :
    Keystore.procParBlocks A ⟨some domain⟩ op pb out ⟨some key⟩ =
      .ok (fun i => A.run op (A.expand key domain) (pb i)) ⟨some key⟩ := rfl

/-- What the oracle promises of a block: alone and as any member of a batch it becomes what the
cipher makes of it under the key of the domain, and decryption undoes encryption. -/
def Ciphers : Prop :=
  let single := Keystore.procBlock A ⟨some domain⟩
  let batch := Keystore.procParBlocks A ⟨some domain⟩
  (∀ out, single op b out ⟨some key⟩ = .ok (A.run op (A.expand key domain) b) ⟨some key⟩) ∧
  (∀ pb out i, pb i = b → ∃ pb', batch op pb out ⟨some key⟩ = .ok pb' ⟨some key⟩ ∧
    pb' i = A.run op (A.expand key domain) b) ∧
  (∀ out, (single .encrypt b out >>= (single .decrypt · out)) ⟨some key⟩ = .ok b ⟨some key⟩) ∧
  ∀ pb out, (batch .encrypt pb out >>= (batch .decrypt · out)) ⟨some key⟩ = .ok pb ⟨some key⟩

/-- A single block comes back as it was sent, so that the oracle is right only about a block that the
cipher fixes. -/
theorem ciphers_iff_fixed : Ciphers A op key domain b ↔ A.run op (A.expand key domain) b = b := by
  constructor
  · rintro ⟨hsingle, -⟩
    have heq := hsingle b
    rw [procBlock_eq] at heq
    exact (Outcome.ok.inj heq).1.symm
  · intro hfixed
    refine ⟨fun out => ?_, fun pb out i hi => ?_, fun out => rfl, fun pb out => ?_⟩
    · rw [procBlock_eq, hfixed]
    · exact ⟨_, procParBlocks_eq A op key domain pb out, by rw [hi]⟩
    · rw [bind_apply, procParBlocks_eq]
      dsimp only
      rw [procParBlocks_eq]
      congr 1
      exact funext fun i => A.decrypts _ (pb i)

end Oracle

/-- A cipher that adds its key to each byte, to show that the law can be met. -/
def shift : Aes UInt8 where
  expand key _ := key
  encryptBlock key b i := b i + key
  decryptBlock key b i := b i - key
  decrypts key b := by simp

theorem zero_block_is_not_ciphered : ¬ Ciphers shift .encrypt 1 "pddb" fun _ => 0 := by
  rintro ⟨hsingle, -⟩
  have heq := hsingle fun _ => 0
  rw [procBlock_eq] at heq
  exact absurd (Outcome.ok.inj heq).1 (by decide)

end BaochipXous.Keys
