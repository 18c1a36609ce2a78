import Inventory.Json.Number
import Inventory.Json.Writer

/-!
# Json — numbers read back

What follows a number does not change how it is read, as long as it cannot be taken
for more of the number. So a number that is read from its own text is read in every
text it is written in. Whole numbers of 64 bits always are; whether a double is
depends on how its digits are rounded.
-/

namespace Inventory.Json

/-! ## Parts of a number -/

/-- An exponent whose sign is already taken. -/
def exponentDigits? (negative : Bool) (cs : List Char) : Option (Int × List Char) :=
  match leadingDigits cs with
  | ([], _) => none
  | (ds, rest) =>
    let n : Nat := ds.foldl (fun n d => n * 10 + d) 0
    some (if negative then -(n : Int) else n, rest)

/-- The rest of a number whose digits before the point are already taken. -/
def afterDigits? (negative : Bool) (ds : List Nat) (rest : List Char) :
    Option (Option Number × List Char) :=
  let (significand, excess) := packed 0 ds
  match rest with
  | '.' :: rest =>
    match leadingDigits rest with
    | ([], _) => none
    | (fraction, rest) =>
      let (significand, left) := packed significand fraction
      let places : Int := (excess.length : Int) - ((fraction.length : Int) - left.length)
      withExponent? negative significand places rest
  | 'e' :: _ | 'E' :: _ => withExponent? negative significand excess.length rest
  | _ =>
    if excess.isEmpty then some (some (wholeNumber negative significand), rest)
    else withExponent? negative significand excess.length rest

/-- The number of digits that neither a point nor an exponent follows. -/
def ofDigits (negative : Bool) (ds : List Nat) : Option Number :=
  let (significand, excess) := packed 0 ds
  if excess.isEmpty then some (wholeNumber negative significand)
  else double? negative significand excess.length

/-- A text does not start with one of some characters. -/
def StartsWithout (marks : List Char) (cs : List Char) : Prop := ∀ c ∈ cs.head?, c ∉ marks

section

variable {negative : Bool} {c : Char} {cs : List Char}

theorem startsWithout_nil {marks : List Char} : StartsWithout marks [] := nofun

theorem startsWithout_cons {marks : List Char} (h : c ∉ marks) : StartsWithout marks (c :: cs) := by
  rintro _ ⟨⟩
  exact h

theorem exponent?_unsigned (h : StartsWithout ['+', '-'] cs) :
    exponent? cs = exponentDigits? false cs := by
  unfold exponent?
  split
  rename_i heq
  split at heq
  · exact absurd (by decide) (h _ rfl)
  · exact absurd (by decide) (h _ rfl)
  · cases heq
    rfl

theorem withExponent?_mark {significand : Nat} {places : Int} (hc : c ∈ ['e', 'E']) :
    withExponent? negative significand places (c :: cs) =
      (exponent? cs).map fun r => (double? negative significand (places + r.1), r.2) := by
  obtain rfl | rfl : c = 'e' ∨ c = 'E' := by simpa using hc
  all_goals
    rw [withExponent?]
    cases exponent? cs <;> rfl

theorem withExponent?_plain {significand : Nat} {places : Int}
    (h : StartsWithout ['e', 'E'] cs) :
    withExponent? negative significand places cs =
      some (double? negative significand places, cs) := by
  unfold withExponent?
  split
  · exact absurd (by decide) (h _ rfl)
  · exact absurd (by decide) (h _ rfl)
  · rfl

theorem afterDigits?_mark {ds : List Nat} (hc : c ∈ ['e', 'E']) :
    afterDigits? negative ds (c :: cs) =
      withExponent? negative (packed 0 ds).1 (packed 0 ds).2.length (c :: cs) := by
  obtain rfl | rfl : c = 'e' ∨ c = 'E' := by simpa using hc
  all_goals rfl

theorem afterDigits?_plain {ds : List Nat} (h : StartsWithout ['.', 'e', 'E'] cs) :
    afterDigits? negative ds cs = some (ofDigits negative ds, cs) := by
  have he : StartsWithout ['e', 'E'] cs := fun c hc hm => h c hc (List.mem_cons_of_mem _ hm)
  simp only [afterDigits?, ofDigits]
  split
  · exact absurd (by decide) (h _ rfl)
  · exact absurd (by decide) (h _ rfl)
  · exact absurd (by decide) (h _ rfl)
  · split
    · rfl
    · exact withExponent?_plain he

theorem unsigned?_eq : unsigned? negative cs =
    match leadingDigits cs with
    | ([], _) => none
    | (0 :: _ :: _, _) => none
    | (ds, rest) => afterDigits? negative ds rest := by
  rfl

theorem number?_unsigned (h : StartsWithout ['-'] cs) : number? cs = unsigned? false cs := by
  unfold number?
  split
  · exact absurd (by decide) (h _ rfl)
  · rfl

end

/-! ## What follows a number -/

/-- Nothing at the start of a text continues a number. -/
def EndsNumber (rest : List Char) : Prop :=
  ∀ c ∈ rest.head?, digit? c = none ∧ c ∉ ['.', 'e', 'E']

section

variable {cs tail rest : List Char} {negative : Bool} (h : EndsNumber rest)

include h

theorem leadingDigits_append (cs : List Char) :
    leadingDigits (cs ++ rest) = ((leadingDigits cs).1, (leadingDigits cs).2 ++ rest) := by
  induction cs with
  | nil =>
      cases rest with
      | nil => rfl
      | cons c rest => simp [leadingDigits, (h c rfl).1]
  | cons c cs ih =>
      rw [List.cons_append, leadingDigits, leadingDigits, ih]
      cases digit? c <;> rfl

theorem exponentDigits?_append {e : Int} (he : exponentDigits? negative cs = some (e, tail)) :
    exponentDigits? negative (cs ++ rest) = some (e, tail ++ rest) := by
  rw [exponentDigits?] at he ⊢
  rw [leadingDigits_append h]
  generalize leadingDigits cs = r at he ⊢
  obtain ⟨_ | ⟨d, ds⟩, after⟩ := r
  · cases he
  · cases he
    rfl

theorem exponent?_append {e : Int} (he : exponent? cs = some (e, tail)) :
    exponent? (cs ++ rest) = some (e, tail ++ rest) := by
  match cs, he with
  | [], he => cases he
  | c :: cs, he =>
      by_cases hc : c ∈ ['+', '-']
      · obtain rfl | rfl : c = '+' ∨ c = '-' := by simpa using hc
        all_goals exact exponentDigits?_append h he
      · rw [exponent?_unsigned (startsWithout_cons hc)] at he
        rw [List.cons_append, exponent?_unsigned (startsWithout_cons hc), ← List.cons_append]
        exact exponentDigits?_append h he

theorem withExponent?_append {significand : Nat} {places : Int} {n : Option Number}
    (hn : withExponent? negative significand places cs = some (n, tail)) :
    withExponent? negative significand places (cs ++ rest) = some (n, tail ++ rest) := by
  match cs, hn with
  | [], hn =>
      cases hn
      exact withExponent?_plain fun c hc hm => (h c hc).2 (List.mem_cons_of_mem _ hm)
  | c :: cs, hn =>
      by_cases hc : c ∈ ['e', 'E']
      · rw [withExponent?_mark hc] at hn
        obtain ⟨⟨e, after⟩, he, hn⟩ := Option.map_eq_some_iff.mp hn
        cases hn
        rw [List.cons_append, withExponent?_mark hc, exponent?_append h he, Option.map_some]
      · rw [withExponent?_plain (startsWithout_cons hc)] at hn
        cases hn
        exact withExponent?_plain (startsWithout_cons hc)

theorem afterDigits?_append {ds : List Nat} {n : Option Number}
    (hn : afterDigits? negative ds cs = some (n, tail)) :
    afterDigits? negative ds (cs ++ rest) = some (n, tail ++ rest) := by
  match cs, hn with
  | [], hn =>
      rw [afterDigits?_plain startsWithout_nil] at hn
      cases hn
      exact afterDigits?_plain fun c hc => (h c hc).2
  | c :: cs, hn =>
      by_cases hpoint : c = '.'
      · subst hpoint
        simp only [afterDigits?, List.cons_append] at hn ⊢
        rw [leadingDigits_append h]
        generalize leadingDigits cs = r at hn ⊢
        obtain ⟨_ | ⟨d, ds⟩, after⟩ := r
        · cases hn
        · exact withExponent?_append h hn
      · by_cases hc : c ∈ ['e', 'E']
        · rw [afterDigits?_mark hc] at hn
          rw [List.cons_append, afterDigits?_mark hc]
          exact withExponent?_append h hn
        · have hplain : c ∉ ['.', 'e', 'E'] := by simpa using ⟨hpoint, by simpa using hc⟩
          rw [afterDigits?_plain (startsWithout_cons hplain)] at hn
          cases hn
          exact afterDigits?_plain (startsWithout_cons hplain)

theorem unsigned?_append {n : Option Number} (hn : unsigned? negative cs = some (n, tail)) :
    unsigned? negative (cs ++ rest) = some (n, tail ++ rest) := by
  rw [unsigned?_eq] at hn ⊢
  rw [leadingDigits_append h]
  generalize leadingDigits cs = r at hn ⊢
  obtain ⟨ds, after⟩ := r
  match ds, hn with
  | [], hn => cases hn
  | [0], hn => exact afterDigits?_append h hn
  | [_ + 1], hn => exact afterDigits?_append h hn
  | 0 :: _ :: _, hn => cases hn
  | (_ + 1) :: _ :: _, hn => exact afterDigits?_append h hn

theorem number?_append {n : Option Number} (hn : number? cs = some (n, tail)) :
    number? (cs ++ rest) = some (n, tail ++ rest) := by
  match cs, hn with
  | [], hn => cases hn
  | c :: cs, hn =>
      by_cases hc : c ∈ ['-']
      · obtain rfl : c = '-' := by simpa using hc
        exact unsigned?_append h hn
      · rw [number?_unsigned (startsWithout_cons hc)] at hn
        rw [List.cons_append, number?_unsigned (startsWithout_cons hc)]
        exact unsigned?_append h hn

end

/-! ## Numbers read back -/

/-- The number is read from its text. -/
def Number.ReadsBack (n : Number) : Prop := number? n.written.toList = some (some n, [])

instance (n : Number) : Decidable n.ReadsBack := inferInstanceAs (Decidable (_ = _))

/-- A number that is read from its text is read wherever its text ends. -/
theorem Number.ReadsBack.append {n : Number} (hn : n.ReadsBack) {rest : List Char}
    (h : EndsNumber rest) : number? (n.written.toList ++ rest) = some (some n, rest) :=
  number?_append h hn

/-- A double that is read back is finite; the others have no written form. -/
theorem Number.ReadsBack.isFinite {x : Float} (h : (Number.real x).ReadsBack) :
    x.isFinite = true := by
  cases hx : x.isFinite with
  | true => rfl
  | false =>
      have hnull : number? "null".toList = none := by decide
      rw [Number.ReadsBack, Number.written, hx, if_neg Bool.false_ne_true, hnull] at h
      cases h

/-- A number starts with its sign or its first digit. -/
theorem head_of_number? {cs : List Char} (h : (number? cs).isSome) :
    ∃ c rest, cs = c :: rest ∧ (c = '-' ∨ (digit? c).isSome) := by
  match cs, h with
  | c :: cs, h =>
      refine ⟨c, cs, rfl, ?_⟩
      by_cases hc : c = '-'
      · exact .inl hc
      · right
        rw [number?_unsigned (startsWithout_cons (by simpa using hc)), unsigned?_eq,
          leadingDigits] at h
        cases hd : digit? c with
        | none =>
          rw [hd] at h
          cases h
        | some d => rfl

/-! ## Whole numbers -/

theorem digit?_of_isDigit {c : Char} (h : c.isDigit) : digit? c = some (c.toNat - '0'.toNat) := by
  have hbounds : '0' ≤ c ∧ c ≤ '9' := by simpa [Char.isDigit, Char.le_def] using h
  exact if_pos hbounds

theorem leadingDigits_digits {cs : List Char} (h : ∀ c ∈ cs, c.isDigit) :
    leadingDigits cs = (cs.map fun c => c.toNat - '0'.toNat, []) := by
  induction cs with
  | nil => rfl
  | cons c cs ih =>
      rw [leadingDigits, digit?_of_isDigit (h c List.mem_cons_self)]
      simp only [ih fun c hc => h c (List.mem_cons_of_mem _ hc), List.map_cons]

theorem le_ofDigitChars (cs : List Char) (n : Nat) : n ≤ Nat.ofDigitChars 10 cs n := by
  rw [Nat.ofDigitChars_eq_ofDigitChars_zero]
  have := Nat.le_mul_of_pos_left n (Nat.pow_pos (n := cs.length) (a := 10) (by decide))
  omega

/-- All digits of a number of 64 bits fit the significand. -/
theorem packed_digits (cs : List Char) (n : Nat)
    (h : Nat.ofDigitChars 10 cs n < Word.bound64) :
    packed n (cs.map fun c => c.toNat - '0'.toNat) = (Nat.ofDigitChars 10 cs n, []) := by
  induction cs generalizing n with
  | nil => rw [Nat.ofDigitChars_nil]; rfl
  | cons c cs ih =>
      rw [Nat.ofDigitChars_cons] at h ⊢
      have hfits : n * 10 + (c.toNat - '0'.toNat) < Word.bound64 := by
        rw [Nat.mul_comm]
        exact Nat.lt_of_le_of_lt (le_ofDigitChars cs _) h
      rw [List.map_cons, packed, if_pos hfits, Nat.mul_comm n 10]
      exact ih _ h

/-- The first digit of a number is zero only when it is the only one. -/
theorem head_toDigits {n : Nat} (hn : 0 < n) :
    ∃ c cs, Nat.toDigits 10 n = c :: cs ∧ c.toNat - '0'.toNat ≠ 0 := by
  induction n using Nat.strongRecOn with
  | ind n ih =>
      by_cases hlow : n < 10
      · refine ⟨n.digitChar, [], Nat.toDigits_of_lt_base hlow, ?_⟩
        have := Nat.toNat_digitChar_sub_48_of_lt_ten hlow
        exact this.symm ▸ Nat.ne_of_gt hn
      · have hhigh : 10 ≤ n := by omega
        obtain ⟨c, cs, hcs, hc⟩ := ih (n / 10) (by omega) (by omega)
        refine ⟨c, cs ++ [(n % 10).digitChar], ?_, hc⟩
        rw [Nat.toDigits_of_base_le (by decide) hhigh, hcs, List.cons_append]

theorem unsigned?_repr {negative : Bool} {n : Nat} (hn : n < Word.bound64) :
    unsigned? negative n.repr.toList = some (some (wholeNumber negative n), []) := by
  have hdigits : ∀ c ∈ Nat.toDigits 10 n, c.isDigit :=
    fun c hc => Nat.isDigit_of_mem_toDigits (by decide) (by decide) hc
  have hvalue : packed 0 ((Nat.toDigits 10 n).map fun c => c.toNat - '0'.toNat) = (n, []) := by
    have := packed_digits (Nat.toDigits 10 n) 0
    rw [Nat.ofDigitChars_ten_toDigits] at this
    exact this hn
  have hafter : afterDigits? negative
      ((Nat.toDigits 10 n).map fun c => c.toNat - '0'.toNat) [] =
        some (some (wholeNumber negative n), []) := by
    rw [afterDigits?_plain startsWithout_nil, ofDigits, hvalue]
    rfl
  rw [Nat.toList_repr, unsigned?_eq, leadingDigits_digits hdigits]
  rcases Nat.eq_zero_or_pos n with rfl | hpos
  · exact hafter
  · obtain ⟨c, cs, hcs, hc⟩ := head_toDigits hpos
    rw [hcs, List.map_cons] at hafter ⊢
    generalize c.toNat - '0'.toNat = d at hafter hc ⊢
    match d, cs, hc with
    | _ + 1, [], _ => exact hafter
    | _ + 1, _ :: _, _ => exact hafter

theorem startsWithout_repr {n : Nat} : StartsWithout ['-'] n.repr.toList := by
  intro c hc hminus
  obtain rfl : c = '-' := by simpa using hminus
  have hdigit := Nat.isDigit_of_mem_toDigits (b := 10) (n := n) (by decide) (by decide)
    (Nat.toList_repr ▸ List.mem_of_mem_head? hc)
  exact absurd hdigit (by decide)

/-- Every integer that 64 bits hold, with or without a sign, is read back. -/
theorem readsBack_whole {n : Int} (hlow : -(Word.bound63 : Int) ≤ n) (hhigh : n < Word.bound64) :
    (Number.whole n).ReadsBack := by
  rw [Number.ReadsBack, Number.written, Int.toString_eq_repr]
  cases n with
  | ofNat m =>
      have hm : m < Word.bound64 := Int.ofNat_lt.mp hhigh
      rw [Int.repr, number?_unsigned startsWithout_repr, unsigned?_repr hm]
      rfl
  | negSucc m =>
      have hm : m.succ ≤ Word.bound63 := by omega
      have hfits : m.succ < Word.bound64 := Nat.lt_of_le_of_lt hm (by decide)
      have hsigned : m.succ ≠ 0 ∧ m.succ ≤ Word.bound63 := ⟨Nat.succ_ne_zero m, hm⟩
      rw [Int.repr, String.toList_append]
      show unsigned? true m.succ.repr.toList = _
      rw [unsigned?_repr hfits, wholeNumber, if_neg (by decide), if_pos hsigned]
      rfl

end Inventory.Json
