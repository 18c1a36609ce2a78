/-!
# Json — values

The data format of graph files and of everything that is printed for programs.
A number is an integer of 64 bits, signed or unsigned, or a double; an object
keeps its members in the order they were written, repeated names included.
-/

namespace Inventory

/-! ## Values -/

namespace Json

/-- A number: whole when it was written without point and exponent and fits 64 bits. -/
inductive Number where
  | whole (n : Int)
  | real (x : Float)
  deriving DecidableEq, Repr

end Json

/-- A value of the format. -/
inductive Json where
  | null
  | bool (b : Bool)
  | num (n : Json.Number)
  | str (s : String)
  | arr (items : List Json)
  | obj (members : List (String × Json))
  /-- What is well formed and yet no value: a number beyond all doubles, a text
  with half a pair of code units, an object with such a text for a name. It may
  only stand where nothing is read. -/
  | unreadable
  deriving Repr, Inhabited

namespace Json

variable {α : Type}

/-! ## Shorthands -/

/-- A natural number as a value. -/
def nat (n : Nat) : Json := .num (.whole n)

/-- An optional value, `null` when absent. -/
def option (f : α → Json) : Option α → Json
  | some a => f a
  | none => .null

/-- A list as an array. -/
def list (f : α → Json) (xs : List α) : Json := .arr (xs.map f)

/-- Texts as an array. -/
def texts (xs : List String) : Json := list .str xs

/-! ## Height -/

mutual

/-- How deep the value nests. -/
def height : Json → Nat
  | .arr items => heightAll items + 1
  | .obj members => heightMembers members + 1
  | _ => 0

/-- The greatest height of the items. -/
def heightAll : List Json → Nat
  | [] => 0
  | v :: rest => max v.height (heightAll rest)

/-- The greatest height of the members. -/
def heightMembers : List (String × Json) → Nat
  | [] => 0
  | (_, v) :: rest => max v.height (heightMembers rest)

end

/-! ## Readable values -/

mutual

/-- Whether the value can be read in all its parts. -/
def isReadable : Json → Bool
  | .arr items => allReadable items
  | .obj members => membersReadable members
  | .unreadable => false
  | _ => true

/-- Whether all items can be read. -/
def allReadable : List Json → Bool
  | [] => true
  | v :: rest => v.isReadable && allReadable rest

/-- Whether all members can be read; their names always can. -/
def membersReadable : List (String × Json) → Bool
  | [] => true
  | (_, v) :: rest => v.isReadable && membersReadable rest

end

/-! ## Repeated names -/

/-- Set a member: an old one of that name is replaced where it stands. -/
def setMember (name : String) (v : Json) : List (String × Json) → List (String × Json)
  | [] => [(name, v)]
  | (n, w) :: rest => if n = name then (name, v) :: rest else (n, w) :: setMember name v rest

mutual

/-- The value with one member per name, the last one written. -/
def lastWins : Json → Json
  | .arr items => .arr (lastWinsAll items)
  | .obj members => .obj (lastWinsMembers [] members)
  | v => v

/-- The items with one member per name each. -/
def lastWinsAll : List Json → List Json
  | [] => []
  | v :: rest => v.lastWins :: lastWinsAll rest

/-- Members written after `kept` override it. -/
def lastWinsMembers (kept : List (String × Json)) :
    List (String × Json) → List (String × Json)
  | [] => kept
  | (n, v) :: rest => lastWinsMembers (setMember n v.lastWins kept) rest

end

end Json

end Inventory
