import Inventory.Json.Number

/-!
# Json — reading

Values from text; nothing but blanks may follow the value. A part that is well
formed but has no value does no harm where it is not read. A value that is read
as a whole has no such part and nests at most 127 deep.
-/

namespace Inventory.Json

/-! ## Blanks and words -/

/-- Drop the blanks that may stand between tokens. -/
def skipBlanks (cs : List Char) : List Char :=
  cs.dropWhile fun c => c == ' ' || c == '\n' || c == '\t' || c == '\r'

/-- What follows a word at the start of a text. -/
def afterWord? : List Char → List Char → Option (List Char)
  | [], cs => some cs
  | w :: ws, c :: cs => if w = c then afterWord? ws cs else none
  | _ :: _, [] => none

/-! ## Texts -/

/-- The value of a hexadecimal digit in either letter case. -/
def hexDigit? (c : Char) : Option Nat :=
  if '0' ≤ c ∧ c ≤ '9' then some (c.toNat - '0'.toNat)
  else if 'a' ≤ c ∧ c ≤ 'f' then some (c.toNat - 'a'.toNat + 10)
  else if 'A' ≤ c ∧ c ≤ 'F' then some (c.toNat - 'A'.toNat + 10)
  else none

/-- Four hexadecimal digits, and the rest. -/
def codeUnit? : List Char → Option (Nat × List Char)
  | a :: b :: c :: d :: rest => do
    let a ← hexDigit? a
    let b ← hexDigit? b
    let c ← hexDigit? c
    let d ← hexDigit? d
    some (((a * 16 + b) * 16 + c) * 16 + d, rest)
  | _ => none

/-- The character that a letter after a backslash stands for. -/
def simpleEscape? : Char → Option Char
  | '"' => some '"'
  | '\\' => some '\\'
  | '/' => some '/'
  | 'b' => some '\x08'
  | 'f' => some '\x0c'
  | 'n' => some '\n'
  | 'r' => some '\r'
  | 't' => some '\t'
  | _ => none

/-- A piece of a text: a character, or half a pair of code units. -/
inductive TextPiece where
  | whole (c : Char)
  | half (unit : Nat)

/-- The piece named after `\u`. -/
def escapedPiece? (cs : List Char) : Option (TextPiece × List Char) :=
  (codeUnit? cs).map fun (n, rest) =>
    (if 0xD800 ≤ n ∧ n ≤ 0xDFFF then .half n else .whole (Char.ofNat n), rest)

/-- The characters of a text, whose halves must stand in pairs. -/
def assembled? : List TextPiece → Option (List Char)
  | [] => some []
  | .whole c :: rest => (assembled? rest).map (c :: ·)
  | .half high :: .half low :: rest =>
    if high < 0xDC00 ∧ 0xDC00 ≤ low then
      (assembled? rest).map
        (Char.ofNat (0x10000 + (high - 0xD800) * 0x400 + (low - 0xDC00)) :: ·)
    else none
  | .half _ :: _ => none

/-- The pieces up to the closing quote, and the rest. -/
def textBody? : Nat → List Char → Option (List TextPiece × List Char)
  | 0, _ => none
  | _ + 1, [] => none
  | fuel + 1, '\\' :: 'u' :: rest => do
    let (p, rest) ← escapedPiece? rest
    let (ps, rest) ← textBody? fuel rest
    some (p :: ps, rest)
  | fuel + 1, '\\' :: e :: rest => do
    let c ← simpleEscape? e
    let (ps, rest) ← textBody? fuel rest
    some (.whole c :: ps, rest)
  | fuel + 1, c :: rest =>
    if c = '"' then some ([], rest)
    else if c = '\\' ∨ c.toNat < 0x20 then none
    else do
      let (ps, rest) ← textBody? fuel rest
      some (.whole c :: ps, rest)

/-- A text whose opening quote is already read, if it has characters, and the rest. -/
def textToken? (cs : List Char) : Option (Option String × List Char) :=
  (textBody? (cs.length + 1) cs).map fun (ps, rest) => ((assembled? ps).map String.ofList, rest)

/-! ## Values -/

/-- A number that may have no value. -/
def ofNumber? : Option Number → Json
  | some n => .num n
  | none => .unreadable

/-- A text that may have no characters. -/
def ofText? : Option String → Json
  | some s => .str s
  | none => .unreadable

/-- An object with the members of one more name, which may have no characters. -/
def withMember (name : Option String) (v : Json) : Json → Json
  | .obj members =>
    match name with
    | some name => .obj ((name, v) :: members)
    | none => .unreadable
  | other => other

mutual

/-- A value at the start of a text. -/
def value? : Nat → List Char → Option (Json × List Char)
  | 0, _ => none
  | fuel + 1, cs =>
    match skipBlanks cs with
    | 'n' :: rest => (afterWord? ['u', 'l', 'l'] rest).map (.null, ·)
    | 't' :: rest => (afterWord? ['r', 'u', 'e'] rest).map (.bool true, ·)
    | 'f' :: rest => (afterWord? ['a', 'l', 's', 'e'] rest).map (.bool false, ·)
    | '"' :: rest => (textToken? rest).map fun (s, rest) => (ofText? s, rest)
    | '[' :: rest =>
      match skipBlanks rest with
      | ']' :: rest => some (.arr [], rest)
      | rest => (items? fuel rest).map fun (vs, rest) => (.arr vs, rest)
    | '{' :: rest =>
      match skipBlanks rest with
      | '}' :: rest => some (.obj [], rest)
      | rest => object? fuel rest
    | rest => (number? rest).map fun (n, rest) => (ofNumber? n, rest)

/-- The items of an array up to its closing bracket. -/
def items? : Nat → List Char → Option (List Json × List Char)
  | 0, _ => none
  | fuel + 1, cs => do
    let (v, rest) ← value? fuel cs
    match skipBlanks rest with
    | ',' :: rest => (items? fuel rest).map fun (vs, rest) => (v :: vs, rest)
    | ']' :: rest => some ([v], rest)
    | _ => none

/-- An object from its first member up to its closing brace. -/
def object? : Nat → List Char → Option (Json × List Char)
  | 0, _ => none
  | fuel + 1, cs =>
    match skipBlanks cs with
    | '"' :: rest => do
      let (name, rest) ← textToken? rest
      match skipBlanks rest with
      | ':' :: rest => do
        let (v, rest) ← value? fuel rest
        match skipBlanks rest with
        | ',' :: rest => (object? fuel rest).map fun (o, rest) => (withMember name v o, rest)
        | '}' :: rest => some (withMember name v (.obj []), rest)
        | _ => none
      | _ => none
    | _ => none

end

/-- The value of a text. What cannot be read in it is left as it is. -/
def parse (s : String) : Option Json :=
  let cs := s.toList
  match value? (2 * cs.length + 2) cs with
  | some (v, rest) => if (skipBlanks rest).isEmpty then some v else none
  | none => none

/-- How deep a value may nest that is read as a whole. -/
def maxHeight : Nat := 127

/-- The value of a text that can be read as a whole. -/
def parseWhole (s : String) : Option Json :=
  (parse s).filter fun v => v.isReadable && v.height ≤ maxHeight

end Inventory.Json
