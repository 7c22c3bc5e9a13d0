import Mathlib.Tactic

/-!
UTF-8 as a decoder that replaces what is invalid reads it: a text falls into pieces, each one
character or the longest start of one that cannot go on. With no invalid piece the decoded text is
the text itself.
-/

namespace Utf8

def isCont (b : UInt8) : Bool :=
  0x80 ≤ b && b ≤ 0xBF

/-- The bytes that may follow the first byte of a character of three bytes. -/
def second3 (b c : UInt8) : Bool :=
  if b = 0xE0 then 0xA0 ≤ c && c ≤ 0xBF
  else if b = 0xED then 0x80 ≤ c && c ≤ 0x9F
  else isCont c

/-- The bytes that may follow the first byte of a character of four bytes. -/
def second4 (b c : UInt8) : Bool :=
  if b = 0xF0 then 0x90 ≤ c && c ≤ 0xBF
  else if b = 0xF4 then 0x80 ≤ c && c ≤ 0x8F
  else isCont c

/-- How many bytes follow the first one of a piece, and whether the piece is a character. -/
def headPiece (b : UInt8) (rest : List UInt8) : Nat × Bool :=
  let next := fun i => rest.getD i 0
  if b ≤ 0x7F then (0, true)
  else if 0xC2 ≤ b ∧ b ≤ 0xDF then if isCont (next 0) then (1, true) else (0, false)
  else if 0xE0 ≤ b ∧ b ≤ 0xEF then
    if second3 b (next 0) then if isCont (next 1) then (2, true) else (1, false) else (0, false)
  else if 0xF0 ≤ b ∧ b ≤ 0xF4 then
    if second4 b (next 0) then
      if isCont (next 1) then if isCont (next 2) then (3, true) else (2, false) else (1, false)
    else (0, false)
  else (0, false)

/-- A piece of a text, and whether it is a character. -/
structure Piece where
  bytes : List UInt8
  valid : Bool

/-- The pieces of the text, as many as the fuel allows. -/
def piecesUpTo : Nat → List UInt8 → List Piece
  | 0, _ => []
  | _, [] => []
  | fuel + 1, b :: rest =>
    { bytes := b :: rest.take (headPiece b rest).1, valid := (headPiece b rest).2 } ::
      piecesUpTo fuel (rest.drop (headPiece b rest).1)

variable (text : List UInt8)

def pieces : List Piece :=
  piecesUpTo text.length text

theorem flatMap_piecesUpTo (fuel : Nat) (text : List UInt8) (hfuel : text.length ≤ fuel) :
    (piecesUpTo fuel text).flatMap (·.bytes) = text := by
  induction fuel generalizing text with
  | zero =>
    rw [List.eq_nil_of_length_eq_zero (Nat.le_zero.mp hfuel)]
    rfl
  | succ fuel ih =>
    cases text with
    | nil => rfl
    | cons b rest =>
      have hrest : (rest.drop (headPiece b rest).1).length ≤ fuel := by
        rw [List.length_drop]
        rw [List.length_cons] at hfuel
        omega
      rw [piecesUpTo, List.flatMap_cons, ih _ hrest, List.cons_append, List.take_append_drop]

theorem flatMap_pieces : (pieces text).flatMap (·.bytes) = text :=
  flatMap_piecesUpTo text.length text le_rfl

def isValid : Bool :=
  (pieces text).all (·.valid)

/-- The text with every invalid piece replaced by U+FFFD. -/
def lossy : List UInt8 :=
  (pieces text).flatMap fun piece => if piece.valid then piece.bytes else [0xEF, 0xBF, 0xBD]

theorem lossy_of_isValid {text : List UInt8} (h : isValid text = true) : lossy text = text := by
  have hall := List.all_eq_true.mp h
  calc
    lossy text = (pieces text).flatMap (·.bytes) := List.flatMap_congr fun piece hpiece =>
      if_pos (hall piece hpiece)
    _ = text := flatMap_pieces text

end Utf8
