import Inventory.Json.Basic
import Inventory.Decimal.Layout
import Inventory.Text.Blank

/-!
# Json — writing

A value on one line, or spread over lines with two spaces of indentation per
level. Doubles are written with the fewest digits that read back.
-/

namespace Inventory.Json

/-! ## Scalars -/

/-- How a text writes one character. -/
def writtenChar (c : Char) : List Char :=
  if c = '"' then ['\\', '"']
  else if c = '\\' then ['\\', '\\']
  else if c = '\n' then ['\\', 'n']
  else if c = '\r' then ['\\', 'r']
  else if c = '\t' then ['\\', 't']
  else if c = '\x08' then ['\\', 'b']
  else if c = '\x0c' then ['\\', 'f']
  else if c.toNat < 0x20 then
    '\\' :: 'u' :: '0' :: '0' :: Nat.digitChar (c.toNat / 16) :: [Nat.digitChar (c.toNat % 16)]
  else [c]

/-- A text as the format writes it. -/
def writtenText (s : String) : String := Text.inQuotes writtenChar s

/-- A number; infinities and NaN have no written form and become `null`. -/
def Number.written : Number → String
  | .whole n => toString n
  | .real x => if x.isFinite then Decimal.Layout.interchange.text x else "null"

/-! ## Layout -/

/-- Where a container breaks its lines. -/
inductive Spread where
  | line
  | lines (depth : Nat)

/-- The layout one level further in. -/
def Spread.deeper : Spread → Spread
  | .line => .line
  | .lines d => .lines (d + 1)

/-- The break before an item at this level. -/
def Spread.break : Spread → String
  | .line => ""
  | .lines d => "\n" ++ String.ofList (List.replicate (2 * d) ' ')

/-- What stands between a member's name and its value. -/
def Spread.colon : Spread → String
  | .line => ":"
  | .lines _ => ": "

/-! ## Values -/

mutual

/-- The text of a value. -/
def write (spread : Spread) : Json → String
  | .null | .unreadable => "null"
  | .bool true => "true"
  | .bool false => "false"
  | .num n => n.written
  | .str s => writtenText s
  | .arr [] => "[]"
  | .arr (v :: vs) => "[" ++ writeItems spread.deeper (v :: vs) ++ spread.break ++ "]"
  | .obj [] => "\x7b\x7d"
  | .obj (m :: ms) => "\x7b" ++ writeMembers spread.deeper (m :: ms) ++ spread.break ++ "\x7d"

/-- The items of an array, a comma between neighbours. -/
def writeItems (spread : Spread) : List Json → String
  | [] => ""
  | [v] => spread.break ++ write spread v
  | v :: w :: rest => spread.break ++ write spread v ++ "," ++ writeItems spread (w :: rest)

/-- The members of an object, a comma between neighbours. -/
def writeMembers (spread : Spread) : List (String × Json) → String
  | [] => ""
  | [(n, v)] => spread.break ++ writtenText n ++ spread.colon ++ write spread v
  | (n, v) :: m :: rest =>
    spread.break ++ writtenText n ++ spread.colon ++ write spread v ++ "," ++ writeMembers spread (m :: rest)

end

/-- The text of a value on one line. -/
def compact (v : Json) : String := write .line v

/-- The text of a value spread over lines. -/
def pretty (v : Json) : String := write (.lines 0) v

end Inventory.Json
