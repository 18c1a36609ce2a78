/-!
# Text — characters, blanks and pieces

Classes of characters, texts between quotes, blank characters, trimming, and
cutting a text at a separator. The laws say that nothing but the separator is
lost.
-/

namespace Inventory.Text

/-! ## Spans of code points -/

/-- The code points from `first` to `last`, both included. -/
structure Span where
  first : Nat
  last : Nat

/-- Whether a character lies in a span. -/
def Span.holds (s : Span) (c : Char) : Bool :=
  s.first ≤ c.toNat && c.toNat ≤ s.last

/-- Whether a character belongs to a class, given by its spans. -/
def within (table : List Span) (c : Char) : Bool :=
  table.any (·.holds c)

/-! ## Quotes -/

/-- A text between double quotes, each of its characters as `written` has it. -/
def inQuotes (written : Char → List Char) (s : String) : String :=
  String.ofList ('"' :: s.toList.flatMap written ++ ['"'])

/-! ## Blanks -/

/-- The characters with the White_Space property. -/
def isBlank (c : Char) : Bool :=
  let n := c.toNat
  (0x09 ≤ n && n ≤ 0x0D) || n == 0x20 || n == 0x85 || n == 0xA0 || n == 0x1680
    || (0x2000 ≤ n && n ≤ 0x200A) || n == 0x2028 || n == 0x2029 || n == 0x202F
    || n == 0x205F || n == 0x3000

/-- Drop the blanks at both ends. -/
def trimmed (cs : List Char) : List Char :=
  ((cs.dropWhile isBlank).reverse.dropWhile isBlank).reverse

/-- A text without the blanks at both ends. -/
def trim (s : String) : String :=
  String.ofList (trimmed s.toList)

/-! ## Pieces -/

/-- The pieces between the separators; there is always at least one. -/
def pieces (sep : Char) : List Char → List (List Char)
  | [] => [[]]
  | c :: cs =>
    if c = sep then [] :: pieces sep cs
    else match pieces sep cs with
      | p :: ps => (c :: p) :: ps
      | [] => [[c]]

/-- What stands before and after the first separator, if there is one. -/
def cutAt (sep : Char) : List Char → Option (List Char × List Char)
  | [] => none
  | c :: cs =>
    if c = sep then some ([], cs)
    else (cutAt sep cs).map fun (l, r) => (c :: l, r)

/-- The texts before and after the first separator, if there is one. -/
def cut (sep : Char) (s : String) : Option (String × String) :=
  (cutAt sep s.toList).map fun (l, r) => (String.ofList l, String.ofList r)

/-- The texts between the separators. -/
def split (sep : Char) (s : String) : List String :=
  (pieces sep s.toList).map String.ofList

/-- The texts one after another with `sep` between neighbours. -/
def joined (sep : String) : List String → String
  | [] => ""
  | [s] => s
  | s :: t :: rest => s ++ sep ++ joined sep (t :: rest)

/-! ## Laws -/

theorem pieces_ne_nil (sep : Char) (cs : List Char) : pieces sep cs ≠ [] := by
  cases cs with
  | nil => simp [pieces]
  | cons c cs =>
    unfold pieces
    split
    · simp
    · split <;> simp

/-- Cutting loses the separator only, and cuts at the first one. -/
theorem cutAt_eq_some {sep : Char} {cs l r : List Char} (h : cutAt sep cs = some (l, r)) :
    cs = l ++ sep :: r ∧ sep ∉ l := by
  induction cs generalizing l with
  | nil => simp [cutAt] at h
  | cons c cs ih =>
    unfold cutAt at h
    split at h
    · next hc => simp at h; obtain ⟨rfl, rfl⟩ := h; simp [hc]
    · next hc =>
      obtain ⟨⟨l', r'⟩, h', e⟩ := Option.map_eq_some_iff.1 h
      simp at e
      obtain ⟨rfl, rfl⟩ := e
      obtain ⟨rfl, hl⟩ := ih h'
      exact ⟨rfl, by simp [hl, Ne.symm hc]⟩

/-- A text is left whole exactly when the separator does not occur. -/
theorem cutAt_eq_none_iff {sep : Char} {cs : List Char} :
    cutAt sep cs = none ↔ sep ∉ cs := by
  induction cs with
  | nil => simp [cutAt]
  | cons c cs ih =>
    unfold cutAt
    split
    · next hc => simp [hc]
    · next hc => simp [ih, Ne.symm hc]

end Inventory.Text
