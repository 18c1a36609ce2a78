import Mathlib.Tactic.SplitIfs
import Inventory.Json.Reader
import Inventory.Json.Writer

/-!
# Json — texts read back

Every text can be written between quotes, and reading takes from the written form
exactly its characters: each is read as itself or behind a backslash, and the first
quote that stands alone ends the text.
-/

namespace Inventory.Json

/-! ## Characters -/

theorem hexDigit?_digitChar : ∀ d, d < 16 → hexDigit? (Nat.digitChar d) = some d := by decide

/-- A control character is read from its code unit. -/
theorem escapedPiece?_control {c : Char} (hc : c.toNat < 0x20) (cs : List Char) :
    escapedPiece? ('0' :: '0' :: Nat.digitChar (c.toNat / 16) ::
      Nat.digitChar (c.toNat % 16) :: cs) = some (.whole c, cs) := by
  have hhigh := hexDigit?_digitChar (c.toNat / 16) (by omega)
  have hlow := hexDigit?_digitChar (c.toNat % 16) (by omega)
  have hzero : hexDigit? '0' = some 0 := by decide
  have hunit : ((0 * 16 + 0) * 16 + c.toNat / 16) * 16 + c.toNat % 16 = c.toNat := by omega
  have hwhole : ¬ (0xD800 ≤ c.toNat ∧ c.toNat ≤ 0xDFFF) := by omega
  simp only [escapedPiece?, codeUnit?, hzero, hhigh, hlow, bind, Option.bind_some, hunit,
    Option.map_some, if_neg hwhole, Char.ofNat_toNat]

section

variable {c e : Char} (fuel : Nat) (cs : List Char)

theorem textBody?_control (hc : c.toNat < 0x20) :
    textBody? (fuel + 1) ('\\' :: 'u' :: '0' :: '0' :: Nat.digitChar (c.toNat / 16) ::
      Nat.digitChar (c.toNat % 16) :: cs) =
        (textBody? fuel cs).map fun r => (.whole c :: r.1, r.2) := by
  rw [textBody?, escapedPiece?_control hc]
  simp only [bind, Option.bind_some]
  cases textBody? fuel cs <;> rfl

theorem textBody?_escaped (he : simpleEscape? e = some c) :
    textBody? (fuel + 1) ('\\' :: e :: cs) =
      (textBody? fuel cs).map fun r => (.whole c :: r.1, r.2) := by
  have hu : e ≠ 'u' := by
    rintro rfl
    cases he
  rw [textBody?, he]
  · cases textBody? fuel cs <;> rfl
  · exact fun h => hu h

theorem textBody?_plain (hquote : c ≠ '"') (hslash : c ≠ '\\') (hc : ¬ c.toNat < 0x20) :
    textBody? (fuel + 1) (c :: cs) =
      (textBody? fuel cs).map fun r => (.whole c :: r.1, r.2) := by
  rw [textBody?, if_neg hquote, if_neg (not_or.mpr ⟨hslash, hc⟩)]
  · cases textBody? fuel cs <;> rfl
  · exact fun _ h _ => absurd h hslash
  · exact fun _ _ h _ => absurd h hslash

/-- A written character is read as itself. -/
theorem textBody?_writtenChar :
    textBody? (fuel + 1) (writtenChar c ++ cs) =
      (textBody? fuel cs).map fun r => (.whole c :: r.1, r.2) := by
  unfold writtenChar
  split_ifs with hquote hslash hn hr ht hb hf hc
  · subst hquote
    exact textBody?_escaped fuel cs rfl
  · subst hslash
    exact textBody?_escaped fuel cs rfl
  · subst hn
    exact textBody?_escaped fuel cs rfl
  · subst hr
    exact textBody?_escaped fuel cs rfl
  · subst ht
    exact textBody?_escaped fuel cs rfl
  · subst hb
    exact textBody?_escaped fuel cs rfl
  · subst hf
    exact textBody?_escaped fuel cs rfl
  · exact textBody?_control fuel cs hc
  · exact textBody?_plain fuel cs hquote hslash hc

end

/-! ## Texts -/

/-- The written characters are read up to the quote behind them. -/
theorem textBody?_written {fuel : Nat} (s rest : List Char) (h : s.length < fuel) :
    textBody? fuel (s.flatMap writtenChar ++ '"' :: rest) = some (s.map .whole, rest) := by
  induction s generalizing fuel with
  | nil =>
      obtain _ | fuel := fuel
      · cases h
      · rfl
  | cons c s ih =>
      obtain _ | fuel := fuel
      · cases h
      · rw [List.flatMap_cons, List.append_assoc, textBody?_writtenChar,
          ih (Nat.lt_of_succ_lt_succ h), Option.map_some, List.map_cons]

theorem assembled?_whole (cs : List Char) : assembled? (cs.map .whole) = some cs := by
  induction cs with
  | nil => rfl
  | cons c cs ih => rw [List.map_cons, assembled?, ih, Option.map_some]

theorem writtenChar_ne_nil (c : Char) : writtenChar c ≠ [] := by
  unfold writtenChar
  split_ifs <;> exact List.cons_ne_nil _ _

theorem length_le_flatMap_writtenChar (s : List Char) :
    s.length ≤ (s.flatMap writtenChar).length := by
  induction s with
  | nil => exact Nat.le_refl _
  | cons c s ih =>
      have hc := List.length_pos_iff.mpr (writtenChar_ne_nil c)
      rw [List.flatMap_cons, List.length_append, List.length_cons]
      omega

/-- What stands behind the opening quote of a written text. -/
def closing (s : String) : List Char := s.toList.flatMap writtenChar ++ ['"']

theorem toList_writtenText (s : String) : (writtenText s).toList = '"' :: closing s := by
  rw [writtenText, Text.inQuotes, String.toList_ofList, closing, List.cons_append]

/-- A written text is read as itself, whatever follows. -/
theorem textToken?_closing (s : String) (rest : List Char) :
    textToken? (closing s ++ rest) = some (some s, rest) := by
  have hlong : s.toList.length < (closing s ++ rest).length + 1 := by
    have := length_le_flatMap_writtenChar s.toList
    rw [closing, List.length_append, List.length_append]
    omega
  rw [textToken?]
  have hbody : textBody? ((closing s ++ rest).length + 1) (closing s ++ rest) =
      some (s.toList.map .whole, rest) := by
    have := textBody?_written s.toList rest hlong
    rwa [closing, List.append_assoc, List.singleton_append] at this ⊢
  simp only [hbody, Option.map_some, assembled?_whole, String.ofList_toList]

end Inventory.Json
