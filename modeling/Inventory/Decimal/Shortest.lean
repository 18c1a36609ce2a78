/-!
# Decimal — the shortest decimal of a binary number

A finite double is `mantissa * 2 ^ exponent`. The reals that round to it form
an interval, closed when the mantissa is even. Of the decimals in the interval
the shortest is wanted, and of several equally short ones the nearest. The
search tries the value's two neighbours on ever finer decimal grids, in exact
arithmetic.
-/

namespace Inventory.Decimal

/-! ## Binary numbers -/

/-- A finite double, taken apart. -/
structure Binary where
  negative : Bool
  mantissa : Nat
  exponent : Int
  /-- The gap below the number is half the gap above it. -/
  narrowBelow : Bool
  deriving DecidableEq, Repr

/-- Take a double apart; nothing for infinities and NaN. -/
def Binary.ofFloat? (x : Float) : Option Binary :=
  let bits : Nat := x.toBits.toNat
  let leading := Nat.pow 2 52
  let fraction := bits % leading
  let biased := bits / leading % 2048
  let negative := bits / Nat.pow 2 63 == 1
  if biased = 2047 then none
  else if biased = 0 then some ⟨negative, fraction, -1074, false⟩
  else some ⟨negative, fraction + leading, (biased : Int) - 1075, fraction == 0 && biased != 1⟩

/-! ## Decimal grids -/

/-- The number `coefficient * 10 ^ exponent`. -/
structure Digits where
  coefficient : Nat
  exponent : Int
  deriving DecidableEq, Repr

/-- Which way an exact tie between two neighbours goes. -/
inductive Tie where
  | even
  | up
  deriving DecidableEq, Repr

/-- Weights that put `c * 10 ^ t` and `a * 2 ^ q` on one integer scale:
`c * (weights t q).1` compares with `a * (weights t q).2`. -/
def weights (t q : Int) : Nat × Nat :=
  (Nat.pow 10 t.toNat * Nat.pow 2 (-q).toNat, Nat.pow 2 q.toNat * Nat.pow 10 (-t).toNat)

/-- Quarter units of the binary number: its own value and the two ends of its
interval, all times `2 ^ (exponent - 2)`. -/
def Binary.quarters (b : Binary) : Nat × Nat × Nat :=
  (4 * b.mantissa, 4 * b.mantissa - (if b.narrowBelow then 1 else 2), 4 * b.mantissa + 2)

/-- The better of the value's two neighbours on the grid of step `10 ^ t`, when
at least one of them rounds back to the value. -/
def Binary.onGrid? (b : Binary) (tie : Tie) (t : Int) : Option Digits :=
  let (dec, bin) := weights t (b.exponent - 2)
  let (value, low, high) := b.quarters
  let inside (c : Nat) : Bool :=
    if b.mantissa % 2 = 0 then low * bin ≤ c * dec && c * dec ≤ high * bin
    else low * bin < c * dec && c * dec < high * bin
  let below := value * bin / dec
  let above := below + 1
  match inside below, inside above with
  | false, false => none
  | true, false => some ⟨below, t⟩
  | false, true => some ⟨above, t⟩
  | true, true =>
    let down := value * bin - below * dec
    let up := above * dec - value * bin
    if down < up then some ⟨below, t⟩
    else if up < down then some ⟨above, t⟩
    else match tie with
      | .up => some ⟨above, t⟩
      | .even => some ⟨if below % 2 = 0 then below else above, t⟩

/-! ## The search -/

/-- The least `k`, from `start` on and within `fuel` steps, with the value below `10 ^ k`. -/
def Binary.decadeFrom (b : Binary) : Nat → Int → Int
  | 0, k => k
  | fuel + 1, k =>
    let (dec, bin) := weights k b.exponent
    if b.mantissa * bin < dec then k else b.decadeFrom fuel (k + 1)

/-- The `k` with `10 ^ (k - 1) ≤ value < 10 ^ k`; the logarithm of the leading
bit is at most one decade short. -/
def Binary.decade (b : Binary) : Int :=
  b.decadeFrom 4 (((b.mantissa.log2 : Int) + b.exponent) * 30103 / 100000)

/-- Move zeros at the end of the coefficient into the exponent. -/
def Digits.stripped : Nat → Digits → Digits
  | 0, d => d
  | fuel + 1, d =>
    if d.coefficient ≠ 0 ∧ d.coefficient % 10 = 0 then
      Digits.stripped fuel ⟨d.coefficient / 10, d.exponent + 1⟩
    else d

/-- The shortest decimal that reads back as the number, the nearest of those. -/
def Binary.shortest (b : Binary) (tie : Tie) : Digits :=
  if b.mantissa = 0 then ⟨0, 0⟩
  else
    let k := b.decade
    let found := (List.range 17).findSome? fun n : Nat => b.onGrid? tie (k - 1 - (n : Int))
    (found.getD ⟨b.mantissa, b.exponent⟩).stripped 20

end Inventory.Decimal
