import Inventory.Text.LetterCase.Class
import Inventory.Text.LetterCase.Table

/-!
# Text — letter case

Upper and lower case of a whole text by the full mappings: a letter may grow
into several (`ß` becomes `SS`), and a capital sigma that ends a word becomes
the final sigma. ASCII letters never consult the tables.
-/

namespace Inventory.Text

open LetterCase

/-! ## One letter -/

/-- Move a letter along the first run that covers it. -/
def shifted (table : List Shift) (c : Char) : Char :=
  match table.find? (·.covers c.toNat) with
  | some s => Char.ofNat (Int.toNat (c.toNat + s.distance))
  | none => c

/-- The upper-case form of one letter. -/
def upperLetter (c : Char) : List Char :=
  if c.toNat < 0x80 then [c.toUpper]
  else match upperExpansions.lookup c.toNat with
    | some letters => letters.map Char.ofNat
    | none => [shifted upperShifts c]

/-- The lower-case form of one letter outside any word. -/
def lowerLetter (c : Char) : List Char :=
  if c.toNat < 0x80 then [c.toLower]
  else if c.toNat = 0x130 then ['i', Char.ofNat 0x307]
  else [shifted lowerShifts c]

/-! ## Words -/

/-- Marks, controls and modifiers do not break a word. -/
def isCaseIgnorable (c : Char) : Bool := within ignorable c

/-- Whether the first letter that is not ignorable has a case. -/
def meetsCased (cs : List Char) : Bool :=
  match cs.dropWhile isCaseIgnorable with
  | c :: _ => within cased c
  | [] => false

/-- A place ends a word when letters come before it and none after;
`before` is read backwards. -/
def endsWord (before after : List Char) : Bool :=
  meetsCased before && !meetsCased after

/-! ## Whole texts -/

/-- Lower case of `cs`, met after the letters `before` (last one first). -/
def lowerAfter (before : List Char) : List Char → List Char
  | [] => []
  | c :: rest =>
    let low := if c.toNat = 0x3A3 then
        [Char.ofNat (if endsWord before rest then 0x3C2 else 0x3C3)]
      else lowerLetter c
    low ++ lowerAfter (c :: before) rest

/-- A text in lower case, in which a sigma depends on the letters around it. -/
def lowercase (s : String) : String :=
  String.ofList (lowerAfter [] s.toList)

/-- A text in upper case; a letter may become several. -/
def uppercase (s : String) : String :=
  String.ofList (s.toList.flatMap upperLetter)

end Inventory.Text
