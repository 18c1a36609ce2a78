import Inventory.Definition.Model
import Inventory.ResultTree

/-!
# Definition — named queries

A named query is a tree of query elements, each an instance of a model. An
element may restrict what is visited by property constraints, join in other
vertices by related lookups, and say what of its instances is shown.
-/

namespace Inventory

open Definition

/-! ## Property constraints -/

/-- Whether a property has to agree with a value or must not. -/
inductive Comparison where
  | equals
  | notEquals
  deriving DecidableEq

/-- The comparison of a word in any letter case. -/
def Comparison.parse (s : String) : Outcome Comparison :=
  let up := Text.uppercase s
  if up = "EQUALS" then .ok .equals
  else if up = "NOT-EQUALS" then .ok .notEquals
  else .error (.invalidNamedQuery (.unknownConstraint up))

/-- A test that an instance must pass. -/
structure PropertyConstraint where
  comparison : Comparison
  name : String
  value : String
  deriving DecidableEq

namespace PropertyConstraint

/-- Read a constraint from its vertex. -/
def ofVertex (v : Vertex) : Outcome PropertyConstraint := do
  expectType .invalidNamedQuery v propertyConstraintType
  let comparison ← Comparison.parse (← requiredText .invalidNamedQuery v "constraint-type")
  let name ← requiredText .invalidNamedQuery v "property-name"
  let value ← requiredText .invalidNamedQuery v "property-value"
  .ok ⟨comparison, name, value⟩

/-- Whether a vertex passes; an absent property agrees with nothing. -/
def holds (c : PropertyConstraint) (v : Vertex) : Bool :=
  match c.comparison with
  | .equals => v.agrees c.name c.value
  | .notEquals => !v.agrees c.name c.value

end PropertyConstraint

/-! ## Related lookups -/

/-- A join with vertices of another type by equal properties. -/
structure RelatedLookup where
  sourceType : NodeType
  sourceProperty : String
  targetType : NodeType
  targetProperty : String
  /-- The target's properties that are joined in. -/
  collect : List String
  deriving DecidableEq

/-- Read a lookup from its vertex. -/
def RelatedLookup.ofVertex (v : Vertex) : Outcome RelatedLookup := do
  expectType .invalidNamedQuery v relatedLookupType
  let sourceType ← requiredText .invalidNamedQuery v "source-node-type"
  let sourceProperty ← requiredText .invalidNamedQuery v "source-node-property"
  let targetType ← requiredText .invalidNamedQuery v "target-node-type"
  let targetProperty ← requiredText .invalidNamedQuery v "target-node-property"
  .ok ⟨sourceType, sourceProperty, targetType, targetProperty, v.list "property-collect-list"⟩

/-! ## Query elements -/

/-- An element of a named query. -/
structure QueryElement where
  vertexId : VertexId
  doNotOutput : Bool
  /-- The properties shown instead of all. -/
  collect : List String
  propertyLimit : Option PropertyLimit
  deriving DecidableEq

namespace QueryElement

/-- Read a query element from its vertex. -/
def ofVertex (v : Vertex) : Outcome QueryElement := do
  expectType .invalidNamedQuery v queryElementType
  let limit ← (v.text? "property-limit-desc").mapM PropertyLimit.parse
  .ok ⟨v.id, v.flag "do-not-output", v.list "property-collect-list", limit⟩

/-- The model the element is an instance of. -/
def model (g : Graph) (e : QueryElement) : Outcome Model := do
  Model.ofVertex (← singleTarget .invalidNamedQuery g e.vertexId isA)

/-- The elements right below an element. -/
def children (g : Graph) (e : QueryElement) : Outcome (List QueryElement) := do
  (← targets g e.vertexId connectsTo).mapM ofVertex

/-- The constraints that an element uses, in order. -/
def constraints (g : Graph) (e : QueryElement) : Outcome (List PropertyConstraint) := do
  ((← targets g e.vertexId uses).filter (·.nodeType == propertyConstraintType)).mapM
    PropertyConstraint.ofVertex

/-- The lookups that an element uses, in order. -/
def lookups (g : Graph) (e : QueryElement) : Outcome (List RelatedLookup) := do
  ((← targets g e.vertexId uses).filter (·.nodeType == relatedLookupType)).mapM
    RelatedLookup.ofVertex

end QueryElement

/-! ## Named queries -/

/-- A named query, as its vertex gives it. -/
structure NamedQuery where
  vertexId : VertexId
  uuid : String
  name : Option String
  deriving DecidableEq

namespace NamedQuery

/-- Read a named query from its vertex; a name is not needed. -/
def ofVertex (v : Vertex) : Outcome NamedQuery := do
  expectType .invalidNamedQuery v namedQueryType
  let uuid ← requiredText .invalidNamedQuery v "named-query-uuid"
  .ok ⟨v.id, uuid, v.text? "named-query-name"⟩

/-- The element a named query starts with. -/
def topElement (g : Graph) (q : NamedQuery) : Outcome QueryElement := do
  QueryElement.ofVertex (← singleTarget .invalidNamedQuery g q.vertexId startsWith)

/-- The one named query with a property of this value, if there is any. -/
def findBy (g : Graph) (property value : String) : Outcome (Option NamedQuery) :=
  match g.find namedQueryType [(property, value)] with
  | [v] => (ofVertex v).map some
  | [] => .ok none
  | vs => .error (.invalidNamedQuery (.ambiguousQuery value vs.length))

/-- The named query of a uuid or, when there is none, of a name. -/
def find (g : Graph) (query : String) : Outcome NamedQuery := do
  match ← findBy g "named-query-uuid" query with
  | some q => .ok q
  | none => match ← findBy g "named-query-name" query with
    | some q => .ok q
    | none => .error (.namedQueryNotFound query)

end NamedQuery

end Inventory
