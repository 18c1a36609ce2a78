import Inventory.Edge
import Inventory.Error

/-!
# Rule — which node types may connect

An edge rule joins two node types under a label. Its multiplicity says on which
side an instance may have at most one partner, and it may make the target
dependent: its instances go when their source goes.
-/

namespace Inventory

/-! ## Multiplicities -/

/-- How many instances stand on each side, read from source to target. -/
inductive Multiplicity where
  | oneToOne
  | oneToMany
  | manyToOne
  | manyToMany
  deriving DecidableEq

namespace Multiplicity

/-- A source reaches at most one target. -/
def singleTarget (m : Multiplicity) : Bool := m == .oneToOne || m == .manyToOne

/-- A target is reached by at most one source. -/
def singleSource (m : Multiplicity) : Bool := m == .oneToOne || m == .oneToMany

/-- The word for a multiplicity in the data format. -/
def name : Multiplicity → String
  | .oneToOne => "ONE2ONE"
  | .oneToMany => "ONE2MANY"
  | .manyToOne => "MANY2ONE"
  | .manyToMany => "MANY2MANY"

/-- The multiplicity of a word; a second spelling is read as well. -/
def ofName? (s : String) : Option Multiplicity :=
  if s = "ONE2ONE" ∨ s = "One2One" then some .oneToOne
  else if s = "ONE2MANY" ∨ s = "One2Many" then some .oneToMany
  else if s = "MANY2ONE" ∨ s = "Many2One" then some .manyToOne
  else if s = "MANY2MANY" ∨ s = "Many2Many" then some .manyToMany
  else none

end Multiplicity

/-! ## Rules -/

/-- One rule for a pair of node types. -/
structure EdgeRule where
  source : NodeType
  target : NodeType
  label : String
  /-- How the stored edge runs, seen from the source. -/
  direction : Direction := .outgoing
  multiplicity : Multiplicity
  /-- Targets cannot exist without their source. -/
  dependent : Bool := false
  deriving DecidableEq

namespace EdgeRule

/-- Whether the rule is given for a pair in this order. -/
def isFor (r : EdgeRule) (a b : NodeType) : Bool := r.source == a && r.target == b

/-- The rule in the data format. -/
def toJson (r : EdgeRule) : Json :=
  .obj [("from", .str r.source), ("to", .str r.target), ("label", .str r.label),
    ("direction", .str r.direction.name), ("multiplicity", .str r.multiplicity.name),
    ("dependent", .bool r.dependent)]

/-- A rule runs outwards and makes nothing dependent unless it says so. -/
def read? (c : Json.Conventions) (j : Json) : Option EdgeRule := do
  let fs ← c.fields? ["from", "to", "label", "direction", "multiplicity", "dependent"] j
  let source ← Json.required Json.text? "from" fs
  let target ← Json.required Json.text? "to" fs
  let label ← Json.required Json.text? "label" fs
  let direction ← Json.optional (Direction.read? c) "direction" .outgoing fs
  let multiplicity ← Json.required (c.choice? Multiplicity.ofName?) "multiplicity" fs
  let dependent ← Json.optional Json.truth? "dependent" false fs
  some ⟨source, target, label, direction, multiplicity, dependent⟩

/-- A rule from the data format. -/
def ofJson? : Json → Option EdgeRule := read? .strict

end EdgeRule

end Inventory
