import Mathlib

/-!
The seeds of the random number generator. For the first one every word of a hardware value is copied
over every chunk of its half, so that only the last word is left; a new seed takes in all words.
-/

namespace BaochipXous.Trng

/-- A random value of 128 bits from the hardware, drawn as a server ID. -/
abbrev ServerId := Fin 4 → BitVec 32

abbrev Chunk := Fin 4 → BitVec 8

abbrev Seed := Fin (4 + 4) → Chunk

def reseedInterval : Nat := 128

def toLeBytes (word : BitVec 32) : Chunk := fun j => word.extractLsb' (8 * j) 8

/-- A word is added to a chunk by exclusive or; the byte order of the target is the little-endian one. -/
def mix (chunk : Chunk) (word : BitVec 32) : Chunk := fun j => chunk j ^^^ toLeBytes word j

def copyWords (chunk : Chunk) (words : ServerId) : Chunk :=
  (List.ofFn words).foldl (fun _ s => toLeBytes s) chunk

section

variable (av : Fin (4 + 4) → BitVec 32) (seedL seedH seedL' seedH' : ServerId) (counter : Nat) (seed : Seed)

/-- The seed in `HwTrng::new`, with the words of the second generator. -/
def newSeed : Seed := fun i =>
  mix (Fin.append (fun _ => copyWords 0 seedL) (fun _ => copyWords 0 seedH) i) (av i)

def reseed : Nat × Seed :=
  if reseedInterval < counter then
    (0, fun i => mix (mix (seed i) (Fin.append seedL seedH i)) (av i))
  else ((counter + 1) % 2 ^ 32, seed)

theorem toLeBytes_injective : Function.Injective toLeBytes := by
  intro v w heq
  apply BitVec.eq_of_getLsbD_eq
  intro i hi
  have hbyte := congrArg (fun chunk : Chunk => (chunk ⟨i / 8, by omega⟩).getLsbD (i % 8)) heq
  simpa [toLeBytes, BitVec.getLsbD_extractLsb', Nat.mod_lt, Nat.div_add_mod] using hbyte

theorem mix_left_inj {c c' : Chunk} {w : BitVec 32} : mix c w = mix c' w ↔ c = c' := by
  simp only [mix, funext_iff, BitVec.xor_left_inj]

theorem mix_right_inj {c : Chunk} {v w : BitVec 32} : mix c v = mix c w ↔ v = w := by
  rw [← toLeBytes_injective.eq_iff]
  simp only [mix, funext_iff, BitVec.xor_right_inj]

theorem newSeed_eq_iff : newSeed av seedL seedH = newSeed av seedL' seedH' ↔
    seedL 3 = seedL' 3 ∧ seedH 3 = seedH' 3 := by
  have hcopy : ∀ words, copyWords 0 words = toLeBytes (words 3) := fun _ => rfl
  rw [funext_iff, Fin.forall_fin_add]
  simp only [newSeed, mix_left_inj, Fin.append_left, Fin.append_right, hcopy, toLeBytes_injective.eq_iff, forall_const]

theorem reseed_eq_iff (hcounter : reseedInterval < counter) :
    (reseed av seedL seedH counter seed).2 = (reseed av seedL' seedH' counter seed).2 ↔
      seedL = seedL' ∧ seedH = seedH' := by
  simp only [reseed, if_pos hcounter]
  rw [funext_iff, Fin.forall_fin_add]
  simp only [mix_left_inj, mix_right_inj, Fin.append_left, Fin.append_right]
  exact and_congr funext_iff.symm funext_iff.symm

/-- Two different draws give different seeds just when the last word of a value differs. -/
theorem draws_reach_seeds_iff (hdraws : (seedL, seedH) ≠ (seedL', seedH')) :
    (newSeed av seedL seedH ≠ newSeed av seedL' seedH' ∧ ∀ counter seed, reseedInterval < counter →
      (reseed av seedL seedH counter seed).2 ≠ (reseed av seedL' seedH' counter seed).2) ↔
        seedL 3 ≠ seedL' 3 ∨ seedH 3 ≠ seedH' 3 := by
  rw [ne_eq, newSeed_eq_iff, not_and_or, and_iff_left_iff_imp]
  intro _ counter seed hcounter heq
  rw [reseed_eq_iff _ _ _ _ _ _ _ hcounter] at heq
  exact hdraws (Prod.ext heq.1 heq.2)

end

/-- Draws that differ in the last word of the second value. -/
theorem last_words_reach_seeds : newSeed 0 0 0 ≠ newSeed 0 0 ![0, 0, 0, 1] ∧
    ∀ seed, (reseed 0 0 0 129 seed).2 ≠ (reseed 0 0 ![0, 0, 0, 1] 129 seed).2 := by
  have hseeds := (draws_reach_seeds_iff 0 0 0 0 ![0, 0, 0, 1] (by decide)).mpr (.inr (by decide))
  exact ⟨hseeds.1, fun seed => hseeds.2 129 seed (by decide)⟩

theorem first_words_are_lost :
    (0 : ServerId) ≠ ![1, 2, 3, 0] ∧ newSeed 0 0 0 = newSeed 0 ![1, 2, 3, 0] 0 :=
  ⟨by decide, (newSeed_eq_iff 0 0 0 _ 0).mpr ⟨rfl, rfl⟩⟩

end BaochipXous.Trng
