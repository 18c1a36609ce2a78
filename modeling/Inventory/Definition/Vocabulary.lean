import Inventory.Graph.Basic

/-!
# Definition — the words of definitions

Models and named queries are vertices of the graph, joined by a few labelled
edges:

* a model *startsWith* an element, and an element *isA* model;
* an element *connectsTo* elements and element sets, and *uses* constraints;
* a constraint *uses* the element set that replaces another one;
* an element set *uses* choice sets, and a choice set *has* elements;
* a named query *startsWith* a query element, which *isA* model, *connectsTo*
  query elements and *uses* property constraints and related lookups.
-/

namespace Inventory.Definition

/-! ## Node types -/

def modelType : NodeType := "model"
def elementType : NodeType := "model-element"
def setConstraintType : NodeType := "model-constraint"
def elementSetType : NodeType := "constrained-element-set"
def choiceSetType : NodeType := "element-choice-set"
def namedQueryType : NodeType := "named-query"
def queryElementType : NodeType := "named-query-element"
def propertyConstraintType : NodeType := "property-constraint"
def relatedLookupType : NodeType := "related-lookup"

/-! ## Labels -/

def startsWith : String := "startsWith"
def isA : String := "isA"
def connectsTo : String := "connectsTo"
def uses : String := "uses"
def has : String := "has"

/-! ## Reading -/

/-- The vertices that edges of a label lead to. -/
def targets (g : Graph) (id : VertexId) (label : String) : Outcome (List Vertex) :=
  g.adjacent id .outgoing (.label label)

/-- The one vertex that an edge of a label leads to. -/
def singleTarget (invalid : DefinitionFault → Error) (g : Graph) (id : VertexId)
    (label : String) : Outcome Vertex := do
  match ← targets g id label with
  | [v] => .ok v
  | [] => .error (invalid (.noEdge id label))
  | vs => .error (invalid (.severalEdges id vs.length label))

/-- Insist on the node type of a vertex. -/
def expectType (invalid : DefinitionFault → Error) (v : Vertex) (t : NodeType) : Outcome Unit :=
  if v.nodeType = t then .ok () else .error (invalid (.wrongType v.id v.nodeType t))

/-- Insist on a text property. -/
def requiredText (invalid : DefinitionFault → Error) (v : Vertex) (name : String) :
    Outcome String :=
  match v.text? name with
  | some s => .ok s
  | none => .error (invalid (.lacks v.nodeType v.id name))

end Inventory.Definition
