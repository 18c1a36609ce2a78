import Inventory.Definition.Vocabulary
import Inventory.Trail

/-!
# Definition — models and their elements

A widget model stands for a node type; resource and service models are composed
of elements, each of which is an instance of some model. An element may end at
linkage points, paths that lead into other topologies.
-/

namespace Inventory

open Definition

/-! ## Models -/

/-- What a model stands for. -/
inductive ModelKind where
  /-- Stands for a node type. -/
  | widget
  | resource
  | service
  deriving DecidableEq

namespace ModelKind

/-- Whether models of the kind are composed of elements. -/
def isComposite (k : ModelKind) : Bool := k != .widget

/-- The kind of a word in any letter case. -/
def parse (s : String) : Outcome ModelKind :=
  let low := Text.lowercase s
  if low = "widget" then .ok .widget
  else if low = "resource" then .ok .resource
  else if low = "service" then .ok .service
  else .error (.invalidModel (.unknownModelType low))

end ModelKind

/-- A model definition, as its vertex gives it. -/
structure Model where
  vertexId : VertexId
  modelId : String
  modelVersion : String
  modelName : Option String
  kind : ModelKind
  deriving DecidableEq

namespace Model

/-- Read a model from its vertex; a widget must have a name. -/
def ofVertex (v : Vertex) : Outcome Model := do
  expectType .invalidModel v modelType
  let kind ← ModelKind.parse (← requiredText .invalidModel v "model-type")
  let name := v.text? "model-name"
  if kind = .widget ∧ name = none then
    .error (.invalidModel (.unnamedWidget v.id "model-name"))
  else
    let id ← requiredText .invalidModel v "model-id"
    let version ← requiredText .invalidModel v "model-version"
    .ok ⟨v.id, id, version, name, kind⟩

/-- The persona of the model's instances. -/
def persona (m : Model) : Persona := ⟨m.modelId, m.modelVersion⟩

/-- The node type a widget stands for. -/
def widgetType? (m : Model) : Option NodeType :=
  if m.kind = .widget then m.modelName else none

/-- The model of an id and a version, which must be defined once. -/
def find (g : Graph) (modelId modelVersion : String) : Outcome Model :=
  match g.find modelType [("model-id", modelId), ("model-version", modelVersion)] with
  | [v] => ofVertex v
  | [] => .error (.modelNotFound modelId modelVersion)
  | vs => .error (.invalidModel (.repeatedModel modelId modelVersion vs.length))

end Model

/-! ## Linkage points -/

/-- A path of node types that attaches an element to another topology. -/
structure LinkagePath where
  steps : List NodeType
  deriving DecidableEq

/-- Read a path: node types between bars, blanks and empty ones left out. -/
def LinkagePath.parse (s : String) : Outcome LinkagePath :=
  match ((Text.split '|' s).map Text.trim).filter (· ≠ "") with
  | [] => .error (.invalidModel (.emptyLinkage s))
  | steps => .ok ⟨steps⟩

/-! ## Elements -/

/-- An element of a composite model. -/
structure Element where
  vertexId : VertexId
  uuid : Option String
  /-- Whether instances at this place may be deleted. -/
  deletable : Bool
  linkagePoints : List LinkagePath
  deriving DecidableEq

namespace Element

/-- Read an element from its vertex; instances may be deleted only where a flag says so. -/
def ofVertex (v : Vertex) : Outcome Element := do
  expectType .invalidModel v elementType
  let points ← (v.list "linkage-points").mapM LinkagePath.parse
  .ok ⟨v.id, v.text? "model-element-uuid", v.flag "new-data-del-flag", points⟩

/-- The model the element is an instance of. -/
def model (g : Graph) (e : Element) : Outcome Model := do
  Model.ofVertex (← singleTarget .invalidModel g e.vertexId isA)

end Element

/-- The element a composite model starts with. -/
def Model.topElement (g : Graph) (m : Model) : Outcome Element := do
  Element.ofVertex (← singleTarget .invalidModel g m.vertexId startsWith)

end Inventory
