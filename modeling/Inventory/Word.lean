/-!
# Word — numbers of 32 and 64 bits

Where a number is kept in a word, these are the first numbers that no longer
fit, the integers that fit a word whose first bit is the sign, and the doubles
that words are rounded to.
-/

namespace Inventory.Word

/-! ## Bounds -/

/-- The first number beyond 32 bits. -/
def bound32 : Nat := 4294967296

/-- The first number beyond 63 bits, where signed numbers of 64 bits end. -/
def bound63 : Nat := 9223372036854775808

/-- The first number beyond 64 bits. -/
def bound64 : Nat := 18446744073709551616

/-! ## Signed words -/

/-- Whether 64 bits, one of them the sign, hold an integer. -/
def isSigned (n : Int) : Bool := decide (-(bound63 : Int) ≤ n ∧ n < bound63)

theorem isSigned_iff {n : Int} :
    isSigned n = true ↔ -9223372036854775808 ≤ n ∧ n < 9223372036854775808 :=
  decide_eq_true_iff

/-! ## Doubles -/

/-- The double nearest to a number of 64 bits. -/
def toReal (n : Nat) : Float := n.toUInt64.toFloat

end Inventory.Word
