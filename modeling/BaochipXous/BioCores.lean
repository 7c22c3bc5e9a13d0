import Mathlib.Tactic

/-!
The registers that the four cores of the BIO share, and the calls that set up and shut down one
core, taken from any state. The instruction memory is filled word by word; the clock is chosen in
registers with a field for each core.
-/

namespace BaochipXous.Bio

open Function

abbrev Core := Fin 4

inductive ClockMode where
  | fixedDivider (divInt : UInt16) (divFrac : UInt8)
  | targetFreqFrac (target : UInt32)
  | targetFreqInt (target : UInt32)
  | externalPin (pin : BitVec 5)

inductive BioError where
  | resourceInUse

structure BioSharedState where
  imem : Core → Nat → BitVec 32
  ctrl : BitVec 32
  qdiv : Core → BitVec 32
  extclkGpio : Core → BitVec 5
  useExtclk : BitVec 4
  coreConfig : Core → Option ClockMode
  fclkFreqHz : Nat

variable (chunk : List UInt8)

/-- The bytes of a word, the lowest first; missing ones are zero. -/
def leWord : BitVec 32 := BitVec.ofNat 32 (chunk.foldr (fun b n => b.toNat + 256 * n) 0)

/-- The word that is built from the last bytes when they do not fill one. -/
def raggedWord : BitVec 32 :=
  BitVec.ofNat 32 (chunk.zipIdx.foldl (fun w x => w ||| x.1.toNat <<< (4 - chunk.length + x.2)) 0)

/-- The words of a program, with a last word that is not full built by `ragged`. -/
def codeWords (ragged : List UInt8 → BitVec 32) : List UInt8 → List (BitVec 32)
  | b₀ :: b₁ :: b₂ :: b₃ :: rest => leWord [b₀, b₁, b₂, b₃] :: codeWords ragged rest
  | [] => []
  | chunk => [ragged chunk]

/-- The run, restart and divider bits of a core. -/
def coreMask (core : Core) : BitVec 32 :=
  1#32 <<< core.val ||| 1#32 <<< (core.val + 4) ||| 1#32 <<< (core.val + 8)

variable (s : BioSharedState)

def stopCore (core : Core) : BioSharedState := { s with ctrl := s.ctrl &&& ~~~coreMask core }

variable (words : Nat)

/-- The code goes to a memory of `words` words; `none` is an index past its end. -/
def loadCode (s : BioSharedState) (code : List UInt8) (pad : Option (BitVec 32)) (core : Core) :
    Option BioSharedState :=
  let prog := pad.toList ++ codeWords raggedWord code
  if words < prog.length then none
  else some { stopCore s core with
    imem := update s.imem core fun i => prog[i]?.getD (s.imem core i) }

def computeFreq (fclk divInt divFrac : Nat) : Nat :=
  let divisor := divInt * 256 + divFrac
  if divisor = 0 then fclk else (fclk * 256 + divisor / 2) / divisor % 2 ^ 32

def absDiff (a b : Nat) : Nat := max a b - min a b

/-- The dividers and the frequency they give; `none` is a division by zero. -/
def computeDividers (fclk target : Nat) (allowFrac : Bool) : Option (Nat × Nat × Nat) :=
  if fclk ≤ target then some (0, 0, fclk)
  else if target = 0 then none
  else
    -- integer dividers are those in steps of 256
    let unit := if allowFrac then 1 else 256
    let maxDiv := if allowFrac then 65535 * 256 + 255 else 65535 * 256
    let div₁ := if allowFrac then fclk * 256 / target else max (fclk / target) 1 * 256
    if maxDiv < div₁ then some (maxDiv / 256, maxDiv % 256, computeFreq fclk (maxDiv / 256) (maxDiv % 256))
    else
      let div₂ := min (div₁ + unit) maxDiv
      let freq₁ := computeFreq fclk (div₁ / 256) (div₁ % 256)
      let freq₂ := computeFreq fclk (div₂ / 256) (div₂ % 256)
      if absDiff freq₁ target ≤ absDiff freq₂ target then some (div₁ / 256, div₁ % 256, freq₁)
      else some (div₂ / 256, div₂ % 256, freq₂)

/-- What is left of the external clock selection; the last mask is a hexadecimal number in the source. -/
def extclkMask : Core → BitVec 32
  | 0 => 0b1110
  | 1 => 0b1101
  | 2 => 0b1011
  | 3 => 0xb0111

def setDivider (core : Core) (divInt divFrac : Nat) : BioSharedState :=
  { s with
    qdiv := update s.qdiv core (BitVec.ofNat 32 (divInt * 2 ^ 16 + divFrac * 2 ^ 8))
    useExtclk := (s.useExtclk.setWidth 32 &&& extclkMask core).setWidth 4 }

def applyConfig (core : Core) : ClockMode → Option (Option Nat × BioSharedState)
  | .fixedDivider i f =>
    some (some (computeFreq s.fclkFreqHz i.toNat f.toNat), setDivider s core i.toNat f.toNat)
  | .targetFreqFrac t =>
    (computeDividers s.fclkFreqHz t.toNat true).map fun d => (some d.2.2, setDivider s core d.1 d.2.1)
  | .targetFreqInt t =>
    (computeDividers s.fclkFreqHz t.toNat false).map fun d => (some d.2.2, setDivider s core d.1 d.2.1)
  | .externalPin pin =>
    some (none, { s with
      qdiv := update s.qdiv core 0
      extclkGpio := update s.extclkGpio core pin
      useExtclk := 1#4 <<< core.val ||| s.useExtclk })

def initCore (s : BioSharedState) (core : Core) (code : List UInt8) (pad : Option (BitVec 32))
    (mode : ClockMode) : Option (Except BioError (Option Nat) × BioSharedState) :=
  if (s.coreConfig core).isSome then some (.error .resourceInUse, s)
  else do
    let s ← loadCode words { s with coreConfig := update s.coreConfig core (some mode) } code pad core
    let (freq, s) ← applyConfig s core mode
    return (.ok freq, s)

def deInitCore (core : Core) : BioSharedState :=
  { stopCore s core with coreConfig := update s.coreConfig core none }

/-- The cores in use get their clock again under the new frequency, in their order. -/
def updateBioFreq (freq : UInt32) : Option BioSharedState :=
  (List.finRange 4).foldlM (fun s' core => match s.coreConfig core with
    | some mode => (applyConfig s' core mode).map Prod.snd
    | none => some s') { s with fclkFreqHz := freq.toNat }

inductive Call where
  | initCore (core : Core) (code : List UInt8) (pad : Option (BitVec 32)) (mode : ClockMode)
  | deInitCore (core : Core)
  | updateBioFreq (freq : UInt32)

def call (s : BioSharedState) : Call → Option BioSharedState
  | .initCore core code pad mode => (initCore words s core code pad mode).map Prod.snd
  | .deInitCore core => some (deInitCore s core)
  | .updateBioFreq freq => updateBioFreq s freq

/-- Nothing of another core changed. -/
structure Only (core : Core) (s s' : BioSharedState) : Prop where
  imem : ∀ c ≠ core, s'.imem c = s.imem c
  run : ∀ i, i ≠ core.val → i ≠ core.val + 4 → i ≠ core.val + 8 → s'.ctrl.getLsbD i = s.ctrl.getLsbD i
  qdiv : ∀ c ≠ core, s'.qdiv c = s.qdiv c
  gpio : ∀ c ≠ core, s'.extclkGpio c = s.extclkGpio c
  use : ∀ c ≠ core, s'.useExtclk.getLsbD c.val = s.useExtclk.getLsbD c.val
  config : ∀ c ≠ core, s'.coreConfig c = s.coreConfig c
  fclk : s'.fclkFreqHz = s.fclkFreqHz

variable {s s' : BioSharedState} {core : Core} {mode : ClockMode}

theorem stopCore_run (s : BioSharedState) (core : Core) {i : Nat} (h0 : i ≠ core.val) (h4 : i ≠ core.val + 4)
    (h8 : i ≠ core.val + 8) : (stopCore s core).ctrl.getLsbD i = s.ctrl.getLsbD i := by
  have hmask : (coreMask core).getLsbD i = false := by
    simp only [coreMask, BitVec.getLsbD_or, BitVec.getLsbD_shiftLeft, BitVec.getLsbD_one]
    simp
    omega
  rw [stopCore, BitVec.getLsbD_and, BitVec.getLsbD_not, hmask, Bool.not_false, Bool.and_true]
  by_cases hi : i < 32
  · rw [decide_eq_true hi, Bool.and_true]
  · rw [BitVec.getLsbD_of_ge _ _ (not_lt.mp hi), Bool.false_and]

theorem Only.symm {a b : BioSharedState} (h : Only core a b) : Only core b a :=
  ⟨fun c hc => (h.imem c hc).symm, fun i h0 h4 h8 => (h.run i h0 h4 h8).symm, fun c hc => (h.qdiv c hc).symm,
    fun c hc => (h.gpio c hc).symm, fun c hc => (h.use c hc).symm, fun c hc => (h.config c hc).symm, h.fclk.symm⟩

theorem Only.trans {a b c : BioSharedState} (h : Only core a b) (h' : Only core b c) : Only core a c :=
  ⟨fun c hc => (h'.imem c hc).trans (h.imem c hc), fun i h0 h4 h8 => (h'.run i h0 h4 h8).trans (h.run i h0 h4 h8),
    fun c hc => (h'.qdiv c hc).trans (h.qdiv c hc), fun c hc => (h'.gpio c hc).trans (h.gpio c hc),
    fun c hc => (h'.use c hc).trans (h.use c hc), fun c hc => (h'.config c hc).trans (h.config c hc),
    h'.fclk.trans h.fclk⟩

theorem only_deInitCore (s : BioSharedState) (core : Core) : Only core s (deInitCore s core) :=
  ⟨fun _ _ => rfl, fun _ => stopCore_run s core, fun _ _ => rfl, fun _ _ => rfl, fun _ _ => rfl,
    fun _ hc => update_of_ne hc _ _, rfl⟩

/-- The target frequency can be divided by. -/
def ClockMode.Divides (fclk : Nat) : ClockMode → Prop
  | .targetFreqFrac t | .targetFreqInt t => t = 0 → fclk = 0
  | _ => True

theorem computeDividers_eq_none {fclk : Nat} {target : UInt32} {allowFrac : Bool} :
    computeDividers fclk target.toNat allowFrac = none ↔ ¬ (target = 0 → fclk = 0) := by
  have hzero : target.toNat = 0 ↔ target = 0 := by rw [← UInt32.toNat_inj]; rfl
  rw [← hzero, computeDividers]
  by_cases hle : fclk ≤ target.toNat
  · simp only [if_pos hle, reduceCtorEq, false_iff, not_not]
    omega
  · by_cases h0 : target.toNat = 0
    · simp only [if_neg hle, if_pos h0, true_iff]
      omega
    · simp only [if_neg hle, if_neg h0]
      split_ifs <;> simp [h0]

/-- The clock of another core loses its selection only to the mask of core 3. -/
def Spares (s : BioSharedState) (core : Core) (mode : ClockMode) : Prop :=
  core = 3 → (∃ pin, mode = .externalPin pin) ∨ s.useExtclk.getLsbD 1 = false ∧ s.useExtclk.getLsbD 2 = false

theorem setDivider_use (s : BioSharedState) (core : Core) (i f : Nat) (c : Core) :
    (setDivider s core i f).useExtclk.getLsbD c.val =
      (s.useExtclk.getLsbD c.val && (extclkMask core).getLsbD c.val) := by
  simp only [setDivider, BitVec.getLsbD_setWidth, BitVec.getLsbD_and]
  have hc := c.isLt
  simp [show c.val < 32 by omega]

theorem setDivider_use_iff (s : BioSharedState) (core : Core) (i f : Nat) :
    (∀ c ≠ core, (setDivider s core i f).useExtclk.getLsbD c.val = s.useExtclk.getLsbD c.val) ↔
      (core = 3 → s.useExtclk.getLsbD 1 = false ∧ s.useExtclk.getLsbD 2 = false) := by
  simp only [setDivider_use]
  fin_cases core <;> simp [extclkMask, Fin.forall_fin_succ, BitVec.getLsbD_ofNat, Nat.testBit]

theorem applyConfig_eq_none : applyConfig s core mode = none ↔ ¬ mode.Divides s.fclkFreqHz := by
  cases mode <;> simp [applyConfig, ClockMode.Divides, computeDividers_eq_none]

theorem only_setDivider_iff (i f : Nat) (hmode : ∀ pin, mode ≠ .externalPin pin) :
    Only core s (setDivider s core i f) ↔ Spares s core mode := by
  have hspares : Spares s core mode ↔ (core = 3 → s.useExtclk.getLsbD 1 = false ∧ s.useExtclk.getLsbD 2 = false) := by
    simp [Spares, hmode]
  rw [hspares, ← setDivider_use_iff s core i f]
  exact ⟨Only.use, fun h => ⟨fun _ _ => rfl, fun _ _ _ _ => rfl, fun _ hc => update_of_ne hc _ _,
    fun _ _ => rfl, h, fun _ _ => rfl, rfl⟩⟩

theorem applyConfig_some {freq : Option Nat} (h : applyConfig s core mode = some (freq, s')) :
    (Only core s s' ↔ Spares s core mode) ∧ s'.imem = s.imem := by
  cases mode with
  | fixedDivider i f =>
    cases h
    exact ⟨only_setDivider_iff _ _ nofun, rfl⟩
  | targetFreqFrac t | targetFreqInt t =>
    obtain ⟨d, -, hd⟩ := Option.map_eq_some_iff.mp h
    cases hd
    exact ⟨only_setDivider_iff _ _ nofun, rfl⟩
  | externalPin pin =>
    cases h
    refine ⟨iff_of_true ⟨fun _ _ => rfl, fun _ _ _ _ => rfl, fun _ hc => update_of_ne hc _ _,
      fun _ hc => update_of_ne hc _ _, fun c hc => ?_, fun _ _ => rfl, rfl⟩ fun _ => .inl ⟨pin, rfl⟩, rfl⟩
    have hbit : (1#4 <<< core.val).getLsbD c.val = false := by
      have hval : c.val ≠ core.val := Fin.val_ne_of_ne hc
      rw [BitVec.getLsbD_shiftLeft, BitVec.getLsbD_one]
      simp
      omega
    rw [BitVec.getLsbD_or, hbit, Bool.false_or]

/-- The bytes that do not fill a word. -/
def lastBytes : List UInt8 → List UInt8
  | _ :: _ :: _ :: _ :: rest => lastBytes rest
  | chunk => chunk

theorem length_codeWords (f g : List UInt8 → BitVec 32) (code : List UInt8) :
    (codeWords f code).length = (codeWords g code).length := by
  fun_induction codeWords f code <;> simp_all [codeWords]

theorem length_lastBytes (code : List UInt8) : (lastBytes code).length < 4 := by
  fun_induction lastBytes code with
  | case1 _ _ _ _ rest ih => exact ih
  | case2 chunk hshort =>
    match chunk, hshort with
    | [], _ | [_], _ | [_, _], _ | [_, _, _], _ => simp
    | b₀ :: b₁ :: b₂ :: b₃ :: rest, hshort => exact (hshort b₀ b₁ b₂ b₃ rest rfl).elim

theorem codeWords_eq_iff (code : List UInt8) :
    codeWords raggedWord code = codeWords leWord code ↔ raggedWord (lastBytes code) = leWord (lastBytes code) := by
  fun_induction codeWords raggedWord code with
  | case1 b₀ b₁ b₂ b₃ rest ih => rw [codeWords, List.cons.injEq, ih, lastBytes]; simp
  | case2 => exact iff_of_true rfl rfl
  | case3 chunk _ _ => simp_all [codeWords, lastBytes]

/-- The bytes that the shift by single bits leaves as they are: zeros, and two patterns by chance. -/
def Unharmed : Prop := (∀ b ∈ chunk, b = 0) ∨ chunk = [0xF8, 3] ∨ chunk = [0xFC, 1, 0]

theorem unharmed_two {a b : Nat} (ha : a < 256) (hb : b < 256) :
    a <<< 2 ||| b <<< 3 = a + 256 * b ↔ a = 0 ∧ b = 0 ∨ a = 248 ∧ b = 3 := by
  have hlt : a <<< 2 ||| b <<< 3 < 2 ^ 11 := Nat.or_lt_two_pow (by omega) (by omega)
  by_cases hb8 : b < 8
  · have hall : ∀ a < 256, ∀ b < 8, a <<< 2 ||| b <<< 3 = a + 256 * b ↔ a = 0 ∧ b = 0 ∨ a = 248 ∧ b = 3 := by
      decide +kernel
    exact hall a ha b hb8
  · omega

theorem unharmed_three {a b c : Nat} (ha : a < 256) (hb : b < 256) (hc : c < 256) :
    a <<< 1 ||| b <<< 2 ||| c <<< 3 = a + 256 * (b + 256 * c) ↔ a = 0 ∧ b = 0 ∧ c = 0 ∨ a = 252 ∧ b = 1 ∧ c = 0 := by
  have hlt : a <<< 1 ||| b <<< 2 ||| c <<< 3 < 2 ^ 11 :=
    Nat.or_lt_two_pow (Nat.or_lt_two_pow (by omega) (by omega)) (by omega)
  by_cases hb8 : b < 8 ∧ c = 0
  · have hall : ∀ a < 256, ∀ b < 8, a <<< 1 ||| b <<< 2 = a + 256 * b ↔ a = 0 ∧ b = 0 ∨ a = 252 ∧ b = 1 := by
      decide +kernel
    obtain ⟨hb8, rfl⟩ := hb8
    simpa using hall a ha b hb8
  · omega

theorem raggedWord_eq_iff {chunk : List UInt8} (hlen : chunk.length < 4) :
    raggedWord chunk = leWord chunk ↔ Unharmed chunk := by
  have hinj : ∀ {x y : Nat}, x < 2 ^ 32 → y < 2 ^ 32 → (BitVec.ofNat 32 x = BitVec.ofNat 32 y ↔ x = y) := by
    intro x y hx hy
    rw [← BitVec.toNat_inj, BitVec.toNat_ofNat, BitVec.toNat_ofNat, Nat.mod_eq_of_lt hx, Nat.mod_eq_of_lt hy]
  have heq : ∀ b n : UInt8, b = n ↔ b.toNat = n.toNat := fun _ _ => UInt8.toNat_inj.symm
  match chunk, hlen with
  | [], _ => simp [raggedWord, leWord, Unharmed]
  | [a], _ =>
    have ha := a.toNat_lt
    have hshift : 0 ||| a.toNat <<< 3 = a.toNat * 8 := by rw [Nat.zero_or, Nat.shiftLeft_eq]
    change BitVec.ofNat 32 (0 ||| a.toNat <<< 3) = BitVec.ofNat 32 (a.toNat + 256 * 0) ↔ _
    rw [hshift, hinj (by omega) (by omega)]
    simp only [Unharmed, List.forall_mem_singleton, heq, List.cons.injEq, reduceCtorEq, and_false, or_false]
    change _ ↔ a.toNat = 0
    omega
  | [a, b], _ =>
    have ha := a.toNat_lt
    have hb := b.toNat_lt
    have hlt : a.toNat <<< 2 ||| b.toNat <<< 3 < 2 ^ 32 := Nat.or_lt_two_pow (by omega) (by omega)
    change BitVec.ofNat 32 (0 ||| a.toNat <<< 2 ||| b.toNat <<< 3) =
      BitVec.ofNat 32 (a.toNat + 256 * (b.toNat + 256 * 0)) ↔ _
    rw [Nat.zero_or, hinj hlt (by omega), Nat.mul_zero, Nat.add_zero, unharmed_two ha hb]
    simp only [Unharmed, List.forall_mem_cons, List.cons.injEq, heq]
    simp
  | [a, b, c], _ =>
    have ha := a.toNat_lt
    have hb := b.toNat_lt
    have hc := c.toNat_lt
    have hlt : a.toNat <<< 1 ||| b.toNat <<< 2 ||| c.toNat <<< 3 < 2 ^ 32 :=
      Nat.or_lt_two_pow (Nat.or_lt_two_pow (by omega) (by omega)) (by omega)
    change BitVec.ofNat 32 (0 ||| a.toNat <<< 1 ||| b.toNat <<< 2 ||| c.toNat <<< 3) =
      BitVec.ofNat 32 (a.toNat + 256 * (b.toNat + 256 * (c.toNat + 256 * 0))) ↔ _
    rw [Nat.zero_or, hinj hlt (by omega), Nat.mul_zero, Nat.add_zero, unharmed_three ha hb hc]
    simp only [Unharmed, List.forall_mem_cons, List.cons.injEq, heq]
    simp

/-- The memory starts with the words. -/
def Holds (mem : Nat → BitVec 32) (ws : List (BitVec 32)) : Prop := ∀ i w, ws[i]? = some w → mem i = w

theorem holds_iff {ws ws' : List (BitVec 32)} (mem : Nat → BitVec 32) (hlen : ws.length = ws'.length) :
    Holds (fun i => ws[i]?.getD (mem i)) ws' ↔ ws = ws' := by
  constructor
  · intro h
    refine List.ext_getElem hlen fun i hi hi' => ?_
    have hw := h i _ (List.getElem?_eq_getElem hi')
    simpa only [List.getElem?_eq_getElem hi, Option.getD_some] using hw
  · rintro rfl i w hw
    simp only [hw, Option.getD_some]

theorem loadCode_eq_none {words : Nat} {code : List UInt8} {pad : Option (BitVec 32)} :
    loadCode words s code pad core = none ↔ ¬ (pad.toList ++ codeWords leWord code).length ≤ words := by
  simp [loadCode, length_codeWords raggedWord leWord]

theorem loadCode_some {words : Nat} {code : List UInt8} {pad : Option (BitVec 32)}
    (h : loadCode words s code pad core = some s') : Only core s s' ∧ s'.useExtclk = s.useExtclk ∧
      (Holds (s'.imem core) (pad.toList ++ codeWords leWord code) ↔ Unharmed (lastBytes code)) := by
  obtain ⟨-, h⟩ := Option.ite_none_left_eq_some.mp h
  cases h
  refine ⟨⟨fun _ hc => update_of_ne hc _ _, fun _ => stopCore_run s core, fun _ _ => rfl, fun _ _ => rfl,
    fun _ _ => rfl, fun _ _ => rfl, rfl⟩, rfl, ?_⟩
  have hlen : (pad.toList ++ codeWords raggedWord code).length = (pad.toList ++ codeWords leWord code).length := by
    rw [List.length_append, List.length_append, length_codeWords raggedWord leWord]
  rw [← raggedWord_eq_iff (length_lastBytes code), ← codeWords_eq_iff, ← List.append_right_inj pad.toList,
    ← holds_iff (s.imem core) hlen]
  simp only [update_self]

/-- A call that sets up or shuts down a core does so for that core and nothing else, and the code is loaded as
it was given. -/
def Isolated (s : BioSharedState) : Call → Prop
  | .initCore core code pad mode => ∃ r s', initCore words s core code pad mode = some (r, s') ∧ Only core s s' ∧
      ∀ freq, r = .ok freq → Holds (s'.imem core) (pad.toList ++ codeWords leWord code)
  | .deInitCore core => Only core s (deInitCore s core)
  | .updateBioFreq _ => True

/-- The core is in use already, or the code with its pad word fits, the frequency can be divided by,
the last bytes stay, and core 3 does not take another's clock. -/
def Careful (s : BioSharedState) : Call → Prop
  | .initCore core code pad mode => (s.coreConfig core).isSome ∨
      (pad.toList ++ codeWords leWord code).length ≤ words ∧ mode.Divides s.fclkFreqHz ∧
        Unharmed (lastBytes code) ∧ Spares s core mode
  | _ => True

/-- Every call of the sequence meets the condition in the state it is made in. -/
def Each (words : Nat) (P : BioSharedState → Call → Prop) : BioSharedState → List Call → Prop
  | _, [] => True
  | s, c :: rest => P s c ∧ ∀ s', call words s c = some s' → Each words P s' rest

theorem isolated_iff (s : BioSharedState) (c : Call) : Isolated words s c ↔ Careful words s c := by
  cases c with
  | updateBioFreq freq => exact Iff.rfl
  | deInitCore core => exact iff_of_true (only_deInitCore s core) trivial
  | initCore core code pad mode =>
  rw [Isolated, Careful, initCore]
  by_cases hused : (s.coreConfig core).isSome
  · exact iff_of_true ⟨_, s, if_pos hused, ⟨fun _ _ => rfl, fun _ _ _ _ => rfl, fun _ _ => rfl, fun _ _ => rfl,
      fun _ _ => rfl, fun _ _ => rfl, rfl⟩, nofun⟩ (.inl hused)
  rw [if_neg hused, or_iff_right hused]
  have hreserved : Only core s { s with coreConfig := update s.coreConfig core (some mode) } :=
    ⟨fun _ _ => rfl, fun _ _ _ _ => rfl, fun _ _ => rfl, fun _ _ => rfl, fun _ _ => rfl,
      fun _ hc => update_of_ne hc _ _, rfl⟩
  cases hload : loadCode words { s with coreConfig := update s.coreConfig core (some mode) } code pad core with
  | none => exact iff_of_false (by rintro ⟨_, _, h, -⟩; cases h) fun h => loadCode_eq_none.mp hload h.1
  | some s1 =>
    have hfits : (pad.toList ++ codeWords leWord code).length ≤ words := not_not.mp fun h => by
      rw [loadCode_eq_none.mpr h] at hload
      cases hload
    obtain ⟨honly, huse, hmem⟩ := loadCode_some hload
    have hs1 := hreserved.trans honly
    have hspares : Spares s1 core mode ↔ Spares s core mode := by rw [Spares, Spares, huse]
    rw [← hs1.fclk, ← hspares, ← hmem, and_iff_right hfits]
    cases happly : applyConfig s1 core mode with
    | none =>
      refine iff_of_false ?_ fun h => applyConfig_eq_none.mp happly h.1
      rintro ⟨_, _, h, -⟩
      simp [happly] at h
    | some x =>
      obtain ⟨freq, s'⟩ := x
      have hdiv : mode.Divides s1.fclkFreqHz := not_not.mp fun h => by
        rw [applyConfig_eq_none.mpr h] at happly
        cases happly
      obtain ⟨hclock, himem⟩ := applyConfig_some happly
      rw [and_iff_right hdiv, ← hclock, ← himem, and_comm]
      constructor
      · rintro ⟨r, s'', h, hs, hok⟩
        obtain ⟨rfl, rfl⟩ : .ok freq = r ∧ s' = s'' := by simpa [happly] using h
        exact ⟨hs1.symm.trans hs, hok freq rfl⟩
      · rintro ⟨hs, hholds⟩
        exact ⟨.ok freq, s', by simp [happly], hs1.trans hs, fun _ _ => hholds⟩

/-- Every call isolated, exactly when every call is careful. -/
theorem sequence_isolated_iff (words : Nat) (s : BioSharedState) (calls : List Call) :
    Each words (Isolated words) s calls ↔ Each words (Careful words) s calls := by
  induction calls generalizing s with
  | nil => exact Iff.rfl
  | cons c rest ih => exact and_congr (isolated_iff words s c) (forall₂_congr fun s' _ => ih s')

/-- All cores off, at 700 MHz. -/
def idle : BioSharedState := ⟨fun _ _ => 0, 0, fun _ => 0, fun _ => 0, 0, fun _ => none, 700000000⟩

/-- One byte of code comes out shifted, and core 3 takes the external clock of core 1. -/
theorem not_isolated_idle : ¬ Each 1024 (Isolated 1024) idle [.initCore 0 [1] none (.fixedDivider 1 0)] ∧
    ¬ Each 1024 (Isolated 1024) idle
      [.initCore 1 [] none (.externalPin 5), .initCore 3 [] none (.fixedDivider 1 0)] := by
  constructor
  · intro h
    obtain h | ⟨-, -, h, -⟩ := (isolated_iff _ _ _).mp h.1
    · cases h
    · revert h
      simp [Unharmed, lastBytes]
  · intro h
    obtain h | ⟨-, -, -, h⟩ := (isolated_iff _ _ _).mp (h.2 _ rfl).1
    · cases h
    · obtain ⟨_, h⟩ | ⟨h, -⟩ := h rfl <;> cases h

/-- The frequency under a divisor in 256ths, rounded. -/
def rounded (fclk d : Nat) : Nat := (fclk * 256 + d / 2) / d

/-- A divider setting of the kind, not both zero, whose frequency a word holds. -/
structure Legal (fclk : Nat) (allowFrac : Bool) (divInt divFrac : Nat) : Prop where
  int : divInt < 2 ^ 16
  frac : divFrac < 2 ^ 8
  pos : 0 < divInt * 256 + divFrac
  kind : allowFrac = false → divFrac = 0
  fits : rounded fclk (divInt * 256 + divFrac) < 2 ^ 32

theorem Legal.computeFreq {fclk i f : Nat} {allowFrac : Bool} (h : Legal fclk allowFrac i f) :
    computeFreq fclk i f = rounded fclk (i * 256 + f) := by
  rw [Bio.computeFreq, if_neg h.pos.ne', ← rounded, Nat.mod_eq_of_lt h.fits]

section
variable (fclk : Nat) {target d d' : Nat}

theorem rounded_anti (hd : 0 < d) (hle : d ≤ d') : rounded fclk d' ≤ rounded fclk d := by
  have hq := Nat.div_mul_le_self (fclk * 256 + d' / 2) d'
  rw [rounded, rounded, Nat.le_div_iff_mul_le hd]
  generalize (fclk * 256 + d' / 2) / d' = q at *
  cases q with
  | zero => simp
  | succ q =>
    -- twice the quotient less one, times the divisor, is at most twice the clock
    have hmono : (2 * q + 1) * d ≤ (2 * q + 1) * d' := Nat.mul_le_mul_left _ hle
    have hbound : (2 * q + 1) * d' ≤ 2 * (fclk * 256) := by grind
    grind

variable {fclk}

theorem le_rounded (hd : 0 < d) (h : target * d ≤ fclk * 256) : target ≤ rounded fclk d := by
  rw [rounded, Nat.le_div_iff_mul_le hd]
  exact h.trans (Nat.le_add_right _ _)

theorem rounded_le (hd : 0 < d) (h : fclk * 256 < target * d) : rounded fclk d ≤ target := by
  rw [rounded, ← Nat.lt_succ_iff, Nat.div_lt_iff_lt_mul hd, Nat.succ_mul]
  exact Nat.add_lt_add_of_lt_of_le h (Nat.div_le_self d 2)

theorem rounded_lt (hfclk : fclk < 2 ^ 32) (hd : 256 ≤ d) : rounded fclk d < 2 ^ 32 := by
  rw [rounded, Nat.div_lt_iff_lt_mul (by omega)]
  omega

theorem computeDividers_nearest (hfclk : fclk < 2 ^ 32) (ht : target ≠ 0) (hlt : target < fclk) (allowFrac : Bool) :
    ∃ d, computeDividers fclk target allowFrac = some (d / 256, d % 256, computeFreq fclk (d / 256) (d % 256)) ∧
      Legal fclk allowFrac (d / 256) (d % 256) ∧ ∀ i f, Legal fclk allowFrac i f →
        absDiff (rounded fclk d) target ≤ absDiff (rounded fclk (i * 256 + f)) target := by
  rw [computeDividers, if_neg (by omega), if_neg ht]
  extract_lets unit maxDiv div₁ div₂ freq₁ freq₂
  have hmax : 256 ≤ maxDiv ∧ maxDiv ≤ 65535 * 256 + 255 ∧ (allowFrac = false → maxDiv % 256 = 0) := by
    cases allowFrac <;> simp [maxDiv]
  have hdiv : 256 ≤ div₁ ∧ target * div₁ ≤ fclk * 256 ∧ fclk * 256 < target * (div₁ + unit) ∧
      (allowFrac = false → div₁ % 256 = 0 ∧ unit = 256) := by
    have htarget := Nat.pos_of_ne_zero ht
    cases allowFrac with
    | true =>
      refine ⟨(Nat.le_div_iff_mul_le htarget).2 (by omega), Nat.mul_div_le _ _, Nat.lt_mul_div_succ _ htarget, ?_⟩
      simp
    | false =>
      have hone : 1 ≤ fclk / target := Nat.div_pos hlt.le htarget
      have hfloor := Nat.mul_div_le fclk target
      have hceil := Nat.lt_mul_div_succ fclk htarget
      have hdiv₁ : div₁ = fclk / target * 256 := by simp [div₁, hone]
      have hunit : unit = 256 := rfl
      rw [hdiv₁, hunit]
      grind
  have hlegal : ∀ d, 256 ≤ d → d ≤ maxDiv → (allowFrac = false → d % 256 = 0) →
      Legal fclk allowFrac (d / 256) (d % 256) := by
    intro d hd hle hkind
    refine ⟨by omega, by omega, by omega, hkind, ?_⟩
    rw [Nat.div_add_mod']
    exact rounded_lt hfclk hd
  -- a legal divisor is on one side of the two that are tried
  have hside : ∀ i f, Legal fclk allowFrac i f → i * 256 + f ≤ maxDiv ∧
      (div₁ < i * 256 + f → div₁ + unit ≤ i * 256 + f) := by
    rintro i f ⟨hi, hf, -, hkind, -⟩
    cases allowFrac with
    | true => simp [maxDiv, unit]; omega
    | false =>
      have := hkind rfl
      have := hdiv.2.2.2 rfl
      simp [maxDiv]; omega
  clear_value unit maxDiv div₁
  by_cases hclamp : maxDiv < div₁
  · refine ⟨maxDiv, if_pos hclamp, hlegal maxDiv hmax.1 le_rfl hmax.2.2, fun i f h => ?_⟩
    have hanti := rounded_anti fclk h.pos (hside i f h).1
    have hfloor := le_rounded (by omega) ((Nat.mul_le_mul_left target hclamp.le).trans hdiv.2.1)
    unfold absDiff
    omega
  have hlegal₁ := hlegal div₁ hdiv.1 (by omega) fun hint => (hdiv.2.2.2 hint).1
  have hlegal₂ := hlegal div₂ (by omega) (by omega) fun hint => by
    have := hmax.2.2 hint
    have := hdiv.2.2.2 hint
    omega
  have hfreq₁ : freq₁ = rounded fclk div₁ := by rw [← Nat.div_add_mod' div₁ 256, ← hlegal₁.computeFreq]
  have hfreq₂ : freq₂ = rounded fclk div₂ := by rw [← Nat.div_add_mod' div₂ 256, ← hlegal₂.computeFreq]
  have hnear : ∀ i f, Legal fclk allowFrac i f → absDiff freq₁ target ≤ absDiff (rounded fclk (i * 256 + f)) target ∨
        absDiff freq₂ target ≤ absDiff (rounded fclk (i * 256 + f)) target := by
    intro i f h
    obtain ⟨hle, hstep⟩ := hside i f h
    rw [hfreq₁, hfreq₂]
    unfold absDiff
    by_cases hbelow : i * 256 + f ≤ div₁
    · have hanti := rounded_anti fclk h.pos hbelow
      have hfloor := le_rounded (by omega) hdiv.2.1
      omega
    · have hdiv₂ : div₂ = div₁ + unit := by omega
      have hanti := rounded_anti fclk (by omega) (hdiv₂.trans_le (hstep (by omega)))
      have hceil := rounded_le (by omega) (hdiv₂ ▸ hdiv.2.2.1)
      omega
  rw [if_neg hclamp]
  split_ifs with hfirst
  · refine ⟨div₁, rfl, hlegal₁, fun i f h => ?_⟩
    have := hnear i f h
    rw [← hfreq₁]
    omega
  · refine ⟨div₂, rfl, hlegal₂, fun i f h => ?_⟩
    have := hnear i f h
    rw [← hfreq₂]
    omega

end

/-- The dividers are the closest ones for every target but zero; zero is divided by unless the clock is off. -/
theorem dividers_closest_iff (fclk target : UInt32) (allowFrac : Bool) :
    (∃ i f freq, computeDividers fclk.toNat target.toNat allowFrac = some (i, f, freq) ∧
      (target < fclk → Legal fclk.toNat allowFrac i f ∧ freq = computeFreq fclk.toNat i f ∧
        ∀ i' f', Legal fclk.toNat allowFrac i' f' →
          absDiff freq target.toNat ≤ absDiff (computeFreq fclk.toNat i' f') target.toNat)) ↔
      (target = 0 → fclk.toNat = 0) := by
  constructor
  · rintro ⟨i, f, freq, hrun, -⟩
    by_contra hzero
    rw [computeDividers_eq_none.2 hzero] at hrun
    cases hrun
  · intro hzero
    by_cases hle : fclk ≤ target
    · exact ⟨0, 0, fclk.toNat, if_pos hle, fun hlt => absurd hle (UInt32.not_le.2 hlt)⟩
    · have hlt := UInt32.not_le.1 hle
      have htarget : target.toNat ≠ 0 := by
        intro h
        have := hzero (UInt32.toNat_inj.1 h)
        exact absurd (UInt32.lt_iff_toNat_lt.1 hlt) (by omega)
      obtain ⟨d, hrun, hlegal, hbest⟩ := computeDividers_nearest fclk.toNat_lt htarget hlt allowFrac
      refine ⟨_, _, _, hrun, fun _ => ⟨hlegal, rfl, fun i f h => ?_⟩⟩
      rw [hlegal.computeFreq, h.computeFreq, Nat.div_add_mod']
      exact hbest i f h

theorem no_divider_for_zero : computeDividers 700000000 0 true = none := rfl

end BaochipXous.Bio
