import Inventory.Decimal.Shortest

/-!
# Decimal — layouts

How the digits of a number are set out: where positional writing ends, what
follows a whole number, and which way a tie between two shortest decimals goes.
-/

namespace Inventory.Decimal

/-! ## Layouts -/

/-- The choices that a written number leaves open. -/
structure Layout where
  /-- Which of two equally near shortest decimals is written. -/
  tie : Tie
  /-- What follows the digits of a whole number. -/
  wholeMark : String
  /-- The positions of the point that are written without an exponent;
  `none` admits every position. -/
  positional : Option (Int × Int)

/-- Digits only: no exponent and no mark on whole numbers. -/
def Layout.plain : Layout := ⟨.up, "", none⟩

/-- Whole numbers end in `.0`, and an exponent is used from `1e16` up and below `1e-5`. -/
def Layout.interchange : Layout := ⟨.even, ".0", some (-4, 16)⟩

/-! ## Writing -/

/-- So many zeros. -/
def zeros (n : Nat) : String :=
  String.ofList (List.replicate n '0')

/-- Digits with the point after the first `point` of them. -/
def positionalText (l : Layout) (digits : List Char) (point : Int) : String :=
  let count : Int := digits.length
  if count ≤ point then
    String.ofList digits ++ zeros (point - count).toNat ++ l.wholeMark
  else if 0 < point then
    String.ofList (digits.take point.toNat) ++ "." ++ String.ofList (digits.drop point.toNat)
  else
    "0." ++ zeros (-point).toNat ++ String.ofList digits

/-- Digits with the point after the first one, and an exponent. -/
def exponentText (digits : List Char) (point : Int) : String :=
  let head := String.ofList (digits.take 1)
  let tail := String.ofList (digits.drop 1)
  let power := point - 1
  head ++ (if digits.length ≤ 1 then "" else "." ++ tail) ++ "e"
    ++ (if power < 0 then "-" else "") ++ toString power.natAbs

/-- The text of a decimal in a layout. -/
def Layout.digitsText (l : Layout) (d : Digits) : String :=
  let digits := Nat.toDigits 10 d.coefficient
  let point : Int := digits.length + d.exponent
  let positional := match l.positional with
    | none => true
    | some (low, high) => d.coefficient == 0 || (low ≤ point && point ≤ high)
  if positional then positionalText l digits point else exponentText digits point

/-- The text of a double in a layout: its shortest decimal, or a word. -/
def Layout.text (l : Layout) (x : Float) : String :=
  match Binary.ofFloat? x with
  | some b => (if b.negative then "-" else "") ++ l.digitsText (b.shortest l.tie)
  | none => if x.isNaN then "NaN" else if x < 0 then "-inf" else "inf"

end Inventory.Decimal
