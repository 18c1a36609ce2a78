import Inventory.Json.Basic
import Inventory.Table
import Inventory.Word

/-!
# Json — records

How the fields of a record are given: by name in an object, where unknown names
are ignored, or by position in an array. A field with a default may be left
out; `null` is a value only of an optional field.
-/

namespace Inventory.Json

variable {α β : Type}

/-! ## Scalars -/

/-- The value when it is a text. -/
def text? : Json → Option String
  | .str s => some s
  | _ => none

/-- The value when it is a truth value. -/
def truth? : Json → Option Bool
  | .bool b => some b
  | _ => none

/-- A whole number from 0 up to `bound`, which is excluded. -/
def below? (bound : Nat) : Json → Option Nat
  | .num (.whole n) => if 0 ≤ n ∧ n < bound then some n.toNat else none
  | _ => none

/-- A whole number of 32 bits without a sign. -/
def word32? : Json → Option Nat := below? Word.bound32

/-- A whole number of 64 bits without a sign. -/
def word64? : Json → Option Nat := below? Word.bound64

/-! ## Conventions -/

/-- What a format lets stand where a record or a named value is read. -/
structure Conventions where
  /-- The array of a record may have items beyond its fields. -/
  spareItems : Bool
  /-- What may stand beside a name that needs nothing beside it. -/
  isVoid : Json → Bool

/-- Whether a value is `null`. -/
def isNull : Json → Bool
  | .null => true
  | _ => false

/-- The conventions of the data format itself. -/
def Conventions.strict : Conventions := ⟨false, isNull⟩

/-- One of finitely many named values: its name, or an object with that one
member, which is void. -/
def Conventions.choice? (c : Conventions) (named : String → Option α) : Json → Option α
  | .str s => named s
  | .obj [(s, v)] => if c.isVoid v then named s else none
  | _ => none

/-- A named value in the data format itself. -/
def choice? (named : String → Option α) : Json → Option α := Conventions.strict.choice? named

/-! ## Containers -/

/-- An array under one decoder. -/
def list? (f : Json → Option α) : Json → Option (List α)
  | .arr items => items.mapM f
  | _ => none

/-- A value or `null`. -/
def nullable? (f : Json → Option α) : Json → Option (Option α)
  | .null => some none
  | v => (f v).map some

/-- An array of exactly two values. -/
def pair? (f : Json → Option α) (g : Json → Option β) : Json → Option (α × β)
  | .arr [a, b] => do some (← f a, ← g b)
  | _ => none

/-- An object as a table; of members with one name the last counts. -/
def table? (f : Json → Option α) : Json → Option (Table α)
  | .obj members => (members.mapM fun m => (f m.2).map (m.1, ·)).map Table.ofList
  | _ => none

/-- A table as an object. -/
def ofTable (f : α → Json) (t : Table α) : Json :=
  .obj (t.entries.map fun e => (e.1, f e.2))

/-! ## Fields -/

/-- The given fields of a record that declares `names`, in this order. -/
def Conventions.fields? (c : Conventions) (names : List String) :
    Json → Option (List (String × Json))
  | .obj members =>
    let known := members.filter fun m => names.contains m.1
    if (known.map (·.1)).Nodup then some known else none
  | .arr items =>
    if c.spareItems ∨ items.length ≤ names.length then some (names.zip items) else none
  | _ => none

/-- The given fields of a record in the data format itself. -/
def fields? (names : List String) : Json → Option (List (String × Json)) :=
  Conventions.strict.fields? names

/-- A field that must be given. -/
def required (f : Json → Option α) (name : String) (fields : List (String × Json)) : Option α :=
  (fields.lookup name).bind f

/-- A field with a default. -/
def optional (f : Json → Option α) (name : String) (default : α)
    (fields : List (String × Json)) : Option α :=
  match fields.lookup name with
  | some v => f v
  | none => some default

end Inventory.Json
