import Inventory.Definition.Model

/-!
# Definition — element sets and their replacement

An element may connect to a set of elements to choose from. Constraints replace
such a set by another one for everything below the element that uses them; the
outermost constraint for a set wins.
-/

namespace Inventory

open Definition

/-! ## Sets -/

/-- A set of elements that constraints may replace. -/
structure ElementSet where
  vertexId : VertexId
  uuid : String
  deriving DecidableEq

/-- Read an element set from its vertex. -/
def ElementSet.ofVertex (v : Vertex) : Outcome ElementSet := do
  expectType .invalidModel v elementSetType
  .ok ⟨v.id, ← requiredText .invalidModel v "constrained-element-set-uuid"⟩

/-- A part of an element set. -/
structure ChoiceSet where
  vertexId : VertexId
  deriving DecidableEq

namespace ChoiceSet

/-- Read a choice set from its vertex. -/
def ofVertex (v : Vertex) : Outcome ChoiceSet := do
  expectType .invalidModel v choiceSetType
  .ok ⟨v.id⟩

/-- The elements of a choice set, in order. -/
def members (g : Graph) (c : ChoiceSet) : Outcome (List Element) := do
  (← targets g c.vertexId has).mapM Element.ofVertex

end ChoiceSet

/-- The choice sets of an element set, in order. -/
def ElementSet.choices (g : Graph) (s : ElementSet) : Outcome (List ChoiceSet) := do
  (← targets g s.vertexId uses).mapM ChoiceSet.ofVertex

/-! ## Constraints -/

/-- The replacement of one element set by another. -/
structure SetConstraint where
  replaced : String
  replacement : ElementSet
  deriving DecidableEq

/-- Read a constraint, and the set it puts in the place of another. -/
def SetConstraint.ofVertex (g : Graph) (v : Vertex) : Outcome SetConstraint := do
  expectType .invalidModel v setConstraintType
  let replaced ← requiredText .invalidModel v "constrained-element-set-uuid-to-replace"
  let target ← singleTarget .invalidModel g v.id uses
  .ok ⟨replaced, ← ElementSet.ofVertex target⟩

/-- The constraints that an element uses, in order. -/
def Element.constraints (g : Graph) (e : Element) : Outcome (List SetConstraint) := do
  ((← targets g e.vertexId uses).filter (·.nodeType == setConstraintType)).mapM
    (SetConstraint.ofVertex g)

/-! ## Scopes -/

/-- The replacements in force, by the uuid of the replaced set. -/
structure Scope where
  replacements : Table ElementSet := ∅

namespace Scope

/-- Add a constraint unless its set already has a replacement. -/
def add (s : Scope) (c : SetConstraint) : Scope :=
  if s.replacements.contains c.replaced then s
  else ⟨s.replacements.put c.replaced c.replacement⟩

/-- The scope below an element with these constraints. -/
def extend (s : Scope) (cs : List SetConstraint) : Scope := cs.foldl add s

/-- The set that replaces the one of a uuid. -/
def replacement? (s : Scope) (uuid : String) : Option ElementSet := s.replacements.get? uuid

/-- Whether no replacement is in force. -/
def isEmpty (s : Scope) : Bool := s.replacements.isEmpty

/-- The set that stands for a set. -/
def effective (s : Scope) (set : ElementSet) : ElementSet := (s.replacement? set.uuid).getD set

end Scope

/-! ## Connections -/

/-- What an element may connect to. -/
inductive Connection where
  | element (e : Element)
  | set (s : ElementSet)
  | choice (c : ChoiceSet)
  deriving DecidableEq

namespace Connection

/-- Read what a vertex is by its node type; no other type may be connected to. -/
def ofVertex (v : Vertex) : Outcome Connection :=
  if v.nodeType = elementType then (Element.ofVertex v).map .element
  else if v.nodeType = elementSetType then (ElementSet.ofVertex v).map .set
  else if v.nodeType = choiceSetType then (ChoiceSet.ofVertex v).map .choice
  else .error (.invalidModel (.misplaced v.nodeType v.id))

/-- The elements a connection stands for under a scope. -/
def resolve (g : Graph) (scope : Scope) : Connection → Outcome (List Element)
  | .element e => .ok [e]
  | .choice c => c.members g
  | .set s => do
    let choices ← (scope.effective s).choices g
    .ok (← choices.mapM (ChoiceSet.members g)).flatten

end Connection

/-- What an element connects to, in order. -/
def Element.connections (g : Graph) (e : Element) : Outcome (List Connection) := do
  (← targets g e.vertexId connectsTo).mapM Connection.ofVertex

end Inventory
