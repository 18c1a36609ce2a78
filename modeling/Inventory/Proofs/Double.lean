import Mathlib
import Inventory.Word

/-!
# Double — operations that stay finite

A double is packed from a number with a sign, a mantissa and an exponent, and the
result is infinite exactly where that exponent is too large. So an operation stays
finite when what it rounds leaves room above it. Rounding raises the exponent by
one at most; a quotient by a power of ten comes down far enough for that.
-/

namespace Inventory.Double

open Float.Model (UnpackedFloat Format totalExponent)
open Float.Model.UnpackedFloat

/-! ## Packing -/

/-- Zero, or a number whose exponent a double can have. -/
def Fits : UnpackedFloat → Prop
  | .zero _ => True
  | .finite _ _ e _ => e ≤ 971
  | _ => False

theorem isFinite_unpack {b : BitVec Format.binary64.numBits} :
    (unpack .binary64 b).isFinite = true ↔ unpackExponent b ≠ -1#_ := by
  fun_cases unpack with
  | case1 _ _ _ _ h | case2 _ _ h => exact iff_of_false Bool.false_ne_true (not_not_intro h)
  | case3 _ _ _ _ h | case4 _ _ _ _ _ h | case5 _ _ _ _ _ h => exact iff_of_true rfl h

theorem isInf_unpack_packedInfinity (s : Sign) :
    (unpack .binary64 (packedInfinity .binary64 s)).isInf = true := by
  cases s <;> decide

/-- A number is packed as infinity only when it is too large. -/
theorem pack_cases {u : UnpackedFloat} (hu : u ≠ .notANumber) :
    (¬ Fits u ∧ ∃ s, pack .binary64 u = packedInfinity .binary64 s) ∨
      unpackExponent (pack .binary64 u) ≠ -1#_ := by
  fun_cases pack with
  | case1 => exact absurd rfl hu
  | case2 s => exact .inl ⟨id, s, rfl⟩
  | case3 s =>
    refine .inr ?_
    rw [packedZero, unpackExponent_packComponents]
    decide
  | case4 s m e hm biased hbiased =>
    refine .inl ⟨fun he : e ≤ 971 => ?_, s, rfl⟩
    have hover : 2 ^ 11 ≤ (e + 1023 + 52).toNat + 1 := hbiased
    omega
  | case5 s m e hm _ biased hbiased =>
    refine .inr fun hones => ?_
    rw [unpackExponent_packComponents] at hones
    have hunder : ¬ 2 ^ 11 ≤ biased + 1 := hbiased
    have htop : biased % 2 ^ 11 = 2 ^ 11 - 1 := by
      rw [← BitVec.toNat_ofNat]
      exact congrArg BitVec.toNat hones
    omega
  | case6 =>
    refine .inr ?_
    rw [unpackExponent_packComponents]
    decide

/-- A number that is not too large is packed as a finite one. -/
theorem isFinite_pack {u : UnpackedFloat} (h : Fits u) :
    (Float.ofModel (.pack u)).isFinite = true := by
  have hu : u ≠ .notANumber := by rintro rfl; exact h
  rcases pack_cases hu with ⟨hlarge, -⟩ | hexponent
  · exact absurd h hlarge
  · exact isFinite_unpack.mpr hexponent

/-- Any number is packed as a finite one or as infinity. -/
theorem isFinite_pack_of_not_isInf {u : UnpackedFloat} (hu : u ≠ .notANumber)
    (h : ¬ (Float.ofModel (.pack u)).isInf = true) : (Float.ofModel (.pack u)).isFinite = true := by
  rcases pack_cases hu with ⟨-, s, hs⟩ | hexponent
  · refine absurd ?_ h
    show (unpack .binary64 (pack .binary64 u)).isInf = true
    rw [hs, isInf_unpack_packedInfinity]
  · exact isFinite_unpack.mpr hexponent

/-! ## What a double holds -/

/-- Where the first digit of a number stands; zero has none. -/
def topPlace : UnpackedFloat → Int
  | .finite _ m e _ => totalExponent m e
  | _ => 0

/-- Only a finite double has a first digit. -/
theorem isFinite_of_topPlace_ne_zero {x : Float} (h : topPlace x.toModel.unpack ≠ 0) :
    x.isFinite = true := by
  show x.toModel.unpack.isFinite = true
  revert h
  cases x.toModel.unpack with
  | finite => exact fun _ => rfl
  | _ => exact fun h => absurd rfl h

theorem toNat_leadingOne_pos {n : Nat} (b : BitVec n) : 0 < (1#1 ++ b).toNat := by simp

/-- The number of a finite double is not too large, nor is its first digit too far up. -/
theorem fits_unpack {x : Float} (h : x.isFinite = true) :
    Fits x.toModel.unpack ∧ topPlace x.toModel.unpack ≤ 1024 := by
  have hbias : Format.binary64.exponentBias = 1023 := rfl
  have hfinite : (unpack .binary64 x.toModel.toBits.toBitVec).isFinite = true := h
  rw [Float.Model.unpack]
  revert hfinite
  fun_cases unpack with
  | case1 | case2 => exact nofun
  | case3 =>
    refine fun _ => ⟨trivial, ?_⟩
    show (0 : Int) ≤ 1024
    decide
  | case4 mant expo e _ _ _ hexpo hmant =>
    intro _
    have hne : mant.toNat ≠ 0 := fun h => hmant (BitVec.eq_of_toNat_eq h)
    have hlog : mant.toNat.log2 < 52 := (Nat.log2_lt hne).mpr mant.isLt
    have hzero : expo.toNat = 0 := congrArg BitVec.toNat hexpo
    simp only [Fits, topPlace, totalExponent, e, hbias, hzero]
    omega
  | case5 mant expo e _ _ hones hexpo =>
    intro _
    have hlog : (1#1 ++ mant).toNat.log2 < 53 :=
      (Nat.log2_lt (Nat.ne_of_gt (toNat_leadingOne_pos mant))).mpr (1#1 ++ mant).isLt
    have hlt : expo.toNat < 2048 := expo.isLt
    have hmax : expo.toNat ≠ 2047 := fun h => hones (BitVec.eq_of_toNat_eq h)
    simp only [Fits, topPlace, totalExponent, e, hbias]
    omega

/-! ## Rounding -/

theorem mantissa_shiftRight (em : ExtendedMantissa) (n : Nat) :
    (em >>> n).mantissa = em.mantissa / 2 ^ n := by
  show (n.repeat ExtendedMantissa.shiftRightOne em).mantissa = _
  induction n with
  | zero => simp [Nat.repeat]
  | succ n ih =>
    rw [Nat.repeat, ExtendedMantissa.shiftRightOne, ih, Nat.div_div_eq_div_mul, Nat.pow_succ]

theorem mantissa_ofMantissaAndAccuracy (m : Nat) (a : Accuracy) :
    (ExtendedMantissa.ofMantissaAndAccuracy m a).mantissa = m := by
  fun_cases ExtendedMantissa.ofMantissaAndAccuracy <;> rfl

theorem roundedMantissa_le (em : ExtendedMantissa) : em.roundedMantissa ≤ em.mantissa + 1 := by
  unfold ExtendedMantissa.roundedMantissa Accuracy.roundToNearestEven
  split <;> omega

theorem targetExponent_eq (k : Int) : Format.binary64.targetExponent k = max (k - 53) (-1074) := rfl

/-- A shift drops the digits below the exponent of the format, and no others. -/
theorem shiftToTargetExponent_eq (m : Nat) (e : Int) (a : Accuracy) :
    ∃ n : Nat, (shiftToTargetExponent .binary64 m e a).1.mantissa = m / 2 ^ n ∧
      (shiftToTargetExponent .binary64 m e a).2 = e + n ∧
      e + n = max e (max (totalExponent m e - 53) (-1074)) := by
  refine ⟨(Format.binary64.targetExponent (totalExponent m e) - e).toNat, ?_, rfl, ?_⟩
  · rw [shiftToTargetExponent, shiftToExponent, mantissa_shiftRight, mantissa_ofMantissaAndAccuracy]
  · rw [targetExponent_eq]
    omega

/-! ### Digits -/

theorem log2_le_of_le_pow {r k : Nat} (h : r ≤ 2 ^ k) : r.log2 ≤ k := by
  by_cases hzero : r = 0
  · rw [hzero, Nat.log2_zero]
    exact Nat.zero_le k
  · refine Nat.le_of_lt_succ ((Nat.log2_lt hzero).mpr (Nat.lt_of_le_of_lt h ?_))
    exact Nat.pow_lt_pow_right (by decide) (Nat.lt_succ_self k)

/-- A shift gives a number as many digits, and a divisor takes as many away. -/
theorem shift_div_lt (m n : Nat) {d k : Nat} (hd : 2 ^ k ≤ d) :
    m <<< n / d < 2 ^ (m.log2 + 1 + n - k) := by
  refine Nat.div_lt_of_lt_mul ?_
  calc m <<< n = m * 2 ^ n := Nat.shiftLeft_eq m n
    _ < 2 ^ (m.log2 + 1) * 2 ^ n :=
      Nat.mul_lt_mul_of_pos_right Nat.lt_log2_self (Nat.two_pow_pos n)
    _ ≤ 2 ^ k * 2 ^ (m.log2 + 1 + n - k) := by
      rw [← Nat.pow_add, ← Nat.pow_add]
      exact Nat.pow_le_pow_right Nat.two_pos (by omega)
    _ ≤ d * 2 ^ (m.log2 + 1 + n - k) := Nat.mul_le_mul_right _ hd

/-! ### The rounded number -/

/-- Where there is room for one more digit, a number is rounded to one that fits:
rounding up may carry into a new first digit, and then once more into the exponent. -/
theorem fits_roundWithAccuracy {s : Sign} {m : Nat} {e : Int} {a : Accuracy} (he : e ≤ 970)
    (hplace : totalExponent m e ≤ 1023) : Fits (roundWithAccuracy .binary64 s m e a) := by
  obtain ⟨n, hmant, hexp, hn⟩ := shiftToTargetExponent_eq m e a
  rw [roundWithAccuracy]
  generalize shiftToTargetExponent .binary64 m e a = first at hmant hexp
  obtain ⟨em, e₁⟩ := first
  subst hexp
  have hlog : em.roundedMantissa.log2 ≤ m.log2 + 1 - n := by
    refine log2_le_of_le_pow (Nat.le_trans (roundedMantissa_le em) ?_)
    rw [hmant]
    exact shift_div_lt m 0 (Nat.le_refl (2 ^ n))
  obtain ⟨k, -, hexp', hk⟩ := shiftToTargetExponent_eq em.roundedMantissa (e + n) .exact
  dsimp only
  split_ifs
  · trivial
  · rw [Fits, hexp', hk, totalExponent]
    rw [totalExponent] at hn hplace
    omega

/-! ## Operations -/

theorem roundWithAccuracy_ne_notANumber {s : Sign} {m : Nat} {e : Int} {a : Accuracy} :
    roundWithAccuracy .binary64 s m e a ≠ .notANumber := by
  rw [roundWithAccuracy]
  dsimp only
  split_ifs <;> nofun

theorem isFinite_neg {x : Float} (h : x.isFinite = true) : (-x).isFinite = true := by
  refine isFinite_pack (u := x.toModel.unpack.neg) ?_
  have hx := (fits_unpack h).1
  generalize x.toModel.unpack = u at hx
  cases u with
  | zero s => trivial
  | finite s m e hm => exact hx
  | infinity s => exact hx.elim
  | notANumber => exact hx.elim

/-- A product of finite doubles is finite unless it is infinite. -/
theorem isFinite_mul {x y : Float} (hx : x.isFinite = true) (hy : y.isFinite = true)
    (h : ¬ (x * y).isInf = true) : (x * y).isFinite = true := by
  refine isFinite_pack_of_not_isInf (u := mul .binary64 x.toModel.unpack y.toModel.unpack) ?_ h
  have hx' := (fits_unpack hx).1
  have hy' := (fits_unpack hy).1
  generalize x.toModel.unpack = u at hx'
  generalize y.toModel.unpack = v at hy'
  fun_cases mul .binary64 u v <;> simp_all [Fits, roundWithAccuracy_ne_notANumber]

/-- How far up a quotient reaches: its exponent is that of the format, and its first
digit stands at most two places above the difference of places. -/
theorem divCore_bounds {m₁ m₂ m : Nat} {e₁ e₂ e : Int} {a : Accuracy} (hm₂ : 0 < m₂)
    (h : divCore .binary64 m₁ e₁ m₂ e₂ = (m, e, a)) :
    e ≤ max (totalExponent m₁ e₁ - totalExponent m₂ e₂ - 53) (-1074) ∧
      totalExponent m e ≤ max (totalExponent m₁ e₁ - totalExponent m₂ e₂ + 2) (e + 1) := by
  have hpow : 2 ^ m₂.log2 ≤ m₂ := Nat.log2_self_le (Nat.ne_of_gt hm₂)
  obtain ⟨rfl, he, -⟩ : m₁ <<< (e₁ - e₂ - e).toNat / m₂ = m ∧
      min (e₁ - e₂) (max (totalExponent m₁ e₁ - totalExponent m₂ e₂ - 53) (-1074)) = e ∧ True := by
    cases h
    exact ⟨rfl, rfl, trivial⟩
  have hlog := log2_le_of_le_pow (Nat.le_of_lt (shift_div_lt m₁ (e₁ - e₂ - e).toNat hpow))
  simp only [totalExponent] at he ⊢
  omega

/-- A finite double over one whose first digit stands at the third place or above is finite. -/
theorem isFinite_div {x y : Float} (hx : x.isFinite = true) (hy : 3 ≤ topPlace y.toModel.unpack) :
    (x / y).isFinite = true := by
  refine isFinite_pack (u := div .binary64 x.toModel.unpack y.toModel.unpack) ?_
  obtain ⟨hx', hplace⟩ := fits_unpack hx
  generalize x.toModel.unpack = u at hx' hplace
  generalize y.toModel.unpack = v at hy
  fun_cases div .binary64 u v with
  | case11 s₁ m₁ e₁ hm₁ s₂ m₂ e₂ hm₂ m e a hdiv =>
    obtain ⟨he, hfirst⟩ := divCore_bounds hm₂ hdiv
    simp only [topPlace] at hy hplace
    exact fits_roundWithAccuracy (by omega) (by omega)
  | _ => simp_all [Fits, topPlace]

/-- A number of 64 bits is rounded to a finite double. -/
theorem isFinite_toReal (n : Nat) : (Word.toReal n).isFinite = true := by
  refine isFinite_pack (u := ofUInt64 .binary64 n.toUInt64) ?_
  generalize n.toUInt64 = w
  have hw : w.toNat.log2 ≤ 64 := log2_le_of_le_pow (Nat.le_of_lt w.toNat_lt)
  unfold ofUInt64 ofNat ofInt UnpackedFloat.normalize
  split
  · next hlt => exact absurd (Int.compare_eq_lt.mp hlt) (by omega)
  · trivial
  · rw [Int.toNat_natCast, UnpackedFloat.round, decreaseExponent]
    generalize (0 - Format.binary64.targetExponent (totalExponent w.toNat 0)).toNat = k
    have hlog := log2_le_of_le_pow (Nat.le_of_lt (shift_div_lt w.toNat k (Nat.le_refl (2 ^ 0))))
    rw [Nat.pow_zero, Nat.div_one] at hlog
    refine fits_roundWithAccuracy (by omega) ?_
    rw [totalExponent]
    omega

end Inventory.Double
