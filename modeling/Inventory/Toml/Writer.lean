import Inventory.Toml.Text
import Inventory.Json.Writer

/-!
# Toml — writing

An object becomes a document: first the keys with plain values, then a table
for every object and a series of tables for every array of objects. A member
that is `null` is left out.
-/

namespace Inventory.Toml

/-! ## Keys and plain values -/

/-- How a text writes one character. -/
def writtenChar (c : Char) : List Char :=
  if c.toNat = 0x7F then ['\\', 'u', '0', '0', '7', 'F'] else Json.writtenChar c

/-- A text as a document writes it. -/
def writtenText (s : String) : String := Text.inQuotes writtenChar s

/-- One part of a key, without quotes where they are not needed. -/
def writtenKey (k : String) : String :=
  if k ≠ "" ∧ k.toList.all isBare then k else writtenText k

/-- The parts of a key between dots. -/
def writtenPath (path : List String) : String := Text.joined "." (path.map writtenKey)

/-- A number; infinities and NaN are words. -/
def writtenNumber : Json.Number → String
  | .whole n => toString n
  | .real x =>
    if x.isNaN then "nan"
    else if x.isInf then (if x < 0 then "-inf" else "inf")
    else Decimal.Layout.interchange.text x

mutual

/-- A value within a line. -/
def inline : Json → String
  | .null | .unreadable => "\"\""
  | .bool b => if b then "true" else "false"
  | .num n => writtenNumber n
  | .str s => writtenText s
  | .arr items => "[" ++ Text.joined ", " (inlineItems items) ++ "]"
  | .obj members => "\x7b" ++ Text.joined ", " (inlineMembers members) ++ "\x7d"

/-- The items of an array within a line. -/
def inlineItems : List Json → List String
  | [] => []
  | v :: rest => inline v :: inlineItems rest

/-- The members of a table within a line, without those that are `null`. -/
def inlineMembers : List (String × Json) → List String
  | [] => []
  | (_, .null) :: rest => inlineMembers rest
  | (k, v) :: rest => (writtenKey k ++ " = " ++ inline v) :: inlineMembers rest

end

/-! ## Tables -/

/-- Whether a value is written as a table. -/
def isTable : Json → Bool
  | .obj _ => true
  | _ => false

/-- Whether a value is written under a heading of its own. -/
def hasHeading : Json → Bool
  | .obj _ => true
  | .arr items => !items.isEmpty && items.all isTable
  | _ => false

/-- The members with plain values, a line for each. -/
def plainLines (members : List (String × Json)) : String :=
  Text.joined "" ((inlineMembers (members.filter fun m => !hasHeading m.2)).map (· ++ "\n"))

/-- The line above the table at a path. -/
def heading (path : List String) : String := "\n[" ++ writtenPath path ++ "]\n"

/-- The line above each table of the series at a path. -/
def seriesHeading (path : List String) : String := "\n[[" ++ writtenPath path ++ "]]\n"

mutual

/-- What a value under a heading adds to a document. -/
def headed (path : List String) : Json → String
  | .obj members => heading path ++ plainLines members ++ sections path members
  | .arr items => if !items.isEmpty && items.all isTable then seriesOf path items else ""
  | _ => ""

/-- The tables and series among the members of a table. -/
def sections (path : List String) : List (String × Json) → String
  | [] => ""
  | (k, v) :: rest => headed (path ++ [k]) v ++ sections path rest

/-- What the tables of a series add to a document. -/
def seriesOf (path : List String) : List Json → String
  | [] => ""
  | .obj members :: rest =>
    seriesHeading path ++ plainLines members ++ sections path members ++ seriesOf path rest
  | _ :: rest => seriesOf path rest

end

/-- The document of an object. -/
def write : Json → String
  | .obj members => plainLines members ++ sections [] members
  | _ => ""

end Inventory.Toml
