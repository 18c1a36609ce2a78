import Inventory.Json.Record
import Inventory.Decimal.Layout
import Inventory.Text.Blank

/-!
# Property — property values

A property of a vertex or an edge is a truth value, a 64-bit integer, a double,
a text or a set of texts. It can be shown, read as a flag or a list, and
compared with a text.
-/

namespace Inventory

/-! ## Values -/

/-- What a property of a vertex or an edge may be. -/
inductive Property where
  | bool (b : Bool)
  | int (n : Int64)
  | real (x : Float)
  | text (s : String)
  | set (items : List String)
  deriving DecidableEq

namespace Property

/-- The word for the kind of a value. -/
def kind : Property → String
  | .bool _ => "bool"
  | .int _ => "int"
  | .real _ => "float"
  | .text _ => "text"
  | .set _ => "set"

/-! ## Readings -/

/-- The text that shows the value. -/
def shown : Property → String
  | .bool b => if b then "true" else "false"
  | .int n => toString n.toInt
  | .real x => Decimal.Layout.plain.text x
  | .text s => s
  | .set items => "[" ++ Text.joined "," items ++ "]"

/-- The value when it is a text, and no other rendering. -/
def text? : Property → Option String
  | .text s => some s
  | _ => none

/-- The value as a flag: a truth value, or one of the words for true and false. -/
def flag? : Property → Option Bool
  | .bool b => some b
  | .text s =>
    if s ∈ ["T", "t", "true", "TRUE", "Y"] then some true
    else if s ∈ ["F", "f", "false", "FALSE", "N"] then some false
    else none
  | _ => none

/-- The value as a list: the members of a set, or the one value as shown. -/
def toList : Property → List String
  | .set items => items
  | p => [p.shown]

/-- Whether the value equals a text: for a set some member does, for any other
value what it shows. -/
def agrees (p : Property) (s : String) : Bool :=
  match p with
  | .set items => items.contains s
  | p => p.shown == s

/-! ## Data format -/

/-- The value in the data format; each kind has a form of its own. -/
def toJson : Property → Json
  | .bool b => .bool b
  | .int n => .num (.whole n.toInt)
  | .real x => if x.isFinite then .num (.real x) else .null
  | .text s => .str s
  | .set items => Json.texts items

/-- Whole numbers that do not fit 64 signed bits are read as doubles. -/
def ofNumber : Json.Number → Property
  | .whole n =>
    if Word.isSigned n then .int (Int64.ofInt n)
    else .real (if n < 0 then -(Word.toReal n.natAbs) else Word.toReal n.natAbs)
  | .real x => .real x

/-- The value of a form. An array must hold texts only; `null` and an object are no value. -/
def ofJson? : Json → Option Property
  | .bool b => some (.bool b)
  | .num n => some (ofNumber n)
  | .str s => some (.text s)
  | .arr items => (items.mapM Json.text?).map .set
  | _ => none

/-- Whether the form of a value is read as a value again. Only doubles that are not
finite have a form that is not: `null`. -/
def isReadable (p : Property) : Bool := (ofJson? p.toJson).isSome

end Property

/-- The properties of one vertex or edge, by name. -/
abbrev Properties := Table Property

namespace Properties

/-- The properties as an object. -/
def toJson (ps : Properties) : Json := Json.ofTable Property.toJson ps

/-- The properties of an object, each of which must have a value. -/
def ofJson? : Json → Option Properties := Json.table? Property.ofJson?

end Properties

end Inventory
