import Inventory.Toml.Text

/-!
# Toml — numbers

Whole numbers of 64 signed bits in four bases, doubles, and the words for
infinity and for what is no number. Single underscores may stand between digits.
-/

namespace Inventory.Toml

/-! ## Digits -/

/-- The digits of a number; single underscores may stand between digits. -/
def grouped? (isDigit : Char → Bool) : List Char → Option (List Char)
  | [] => none
  | [c] => if isDigit c then some [c] else none
  | c :: '_' :: rest => if isDigit c then (grouped? isDigit rest).map (c :: ·) else none
  | c :: rest => if isDigit c then (grouped? isDigit rest).map (c :: ·) else none

/-- The value of digits in a base. -/
def numeral (base : Nat) (digits : List Char) : Nat :=
  digits.foldl (fun n c => n * base + (Json.hexDigit? c).getD 0) 0

/-! ## Numbers -/

/-- A whole number of 64 signed bits. -/
def wholeNumber? (n : Int) : Option Json.Number :=
  if Word.isSigned n then some (.whole n) else none

/-- A number in a base other than ten. -/
def based? (base : Nat) (digits : List Char) : Option Json.Number := do
  let isDigit (c : Char) : Bool := (Json.hexDigit? c).any (· < base)
  wholeNumber? (numeral base (← grouped? isDigit digits))

/-- Decimal digits without a leading zero. -/
def decimalPart? (digits : List Char) : Option (List Char) := do
  match ← grouped? Char.isDigit digits with
  | '0' :: _ :: _ => none
  | digits => some digits

/-- The exponent of a double, zero when there is none. -/
def power? : Option (List Char) → Option Int
  | none => some 0
  | some ('-' :: digits) => (grouped? Char.isDigit digits).map fun ds => -(numeral 10 ds : Int)
  | some ('+' :: digits) => (grouped? Char.isDigit digits).map fun ds => (numeral 10 ds : Int)
  | some digits => (grouped? Char.isDigit digits).map fun ds => (numeral 10 ds : Int)

/-- The double nearest to digits scaled by a power of ten. Beyond four hundred
places on either side of the digits nothing but infinity and zero is left. -/
def nearest (digits : List Char) (e : Int) : Float :=
  let e := max (-(digits.length + 400 : Int)) (min 400 e)
  Float.ofScientific (numeral 10 digits) (e < 0) e.natAbs

/-- A double with the fraction and the exponent it was written with. Only below
zero may it be beyond all finite doubles. -/
def real? (negative : Bool) (whole fraction : List Char) (e : Option (List Char)) :
    Option Json.Number := do
  let x := nearest (whole ++ fraction) ((← power? e) - fraction.length)
  if negative then some (.real (-x))
  else if x.isInf then none
  else some (.real x)

/-- A decimal number without its sign. -/
def decimal? (negative : Bool) (cs : List Char) : Option Json.Number := do
  let mantissa := cs.takeWhile fun c => c != 'e' && c != 'E'
  let e := match cs.dropWhile fun c => c != 'e' && c != 'E' with
    | [] => none
    | _ :: rest => some rest
  match mantissa.dropWhile (· != '.'), e with
  | [], none =>
    let n := numeral 10 (← decimalPart? mantissa)
    wholeNumber? (if negative then -n else n)
  | [], e => real? negative (← decimalPart? mantissa) [] e
  | _ :: fraction, e =>
    real? negative (← decimalPart? (mantissa.takeWhile (· != '.')))
      (← grouped? Char.isDigit fraction) e

/-- A number from the characters it is written with. -/
def number? : List Char → Option Json.Number
  | '0' :: 'x' :: digits => based? 16 digits
  | '0' :: 'o' :: digits => based? 8 digits
  | '0' :: 'b' :: digits => based? 2 digits
  | '-' :: cs => signed? true cs
  | '+' :: cs => signed? false cs
  | cs => signed? false cs
where
  /-- A number after its sign. -/
  signed? (negative : Bool) : List Char → Option Json.Number
    | ['i', 'n', 'f'] => some (.real (if negative then -(1.0 / 0.0) else 1.0 / 0.0))
    | ['n', 'a', 'n'] => some (.real (0.0 / 0.0))
    | cs => decimal? negative cs

/-- Characters that numbers and words are made of. -/
def isWordChar (c : Char) : Bool := c.isAlphanum || c == '_' || c == '-' || c == '+' || c == '.'

end Inventory.Toml
