import Inventory.Property

/-!
# Vertex — vertices and model identity

A vertex has an id, a node type and properties. Two of its properties may bind
it to the model it was created from, its persona; one carries the version that
guards concurrent changes.
-/

namespace Inventory

/-- The text that names a vertex. -/
abbrev VertexId := String

/-- The tag that says what kind of thing a vertex is. -/
abbrev NodeType := String

/-- The model and version an instance is bound to. -/
structure Persona where
  modelId : String
  modelVersion : String
  deriving DecidableEq

/-- A vertex of the inventory graph. -/
structure Vertex where
  id : VertexId
  nodeType : NodeType
  properties : Properties := ∅
  deriving DecidableEq

/-- A property name with the text its value must agree with. -/
abbrev PropertyFilter := String × String

namespace Vertex

/-! ## Property names -/

/-- The property that holds the id of the model an instance was created from. -/
def personaModelId : String := "persona-model-id"

/-- The property that holds the version of that model. -/
def personaModelVersion : String := "persona-model-version"

/-- The property that holds the version of the vertex itself. -/
def resourceVersionName : String := "resource-version"

/-! ## Building -/

/-- The vertex with a property set. -/
def withProperty (v : Vertex) (name : String) (p : Property) : Vertex :=
  { v with properties := v.properties.put name p }

/-- The vertex bound to a model. -/
def withPersona (v : Vertex) (p : Persona) : Vertex :=
  (v.withProperty personaModelId (.text p.modelId)).withProperty
    personaModelVersion (.text p.modelVersion)

/-! ## Reading -/

/-- The property of a name, if the vertex has one. -/
def property? (v : Vertex) (name : String) : Option Property := v.properties.get? name

/-- The property of a name when it is a text. -/
def text? (v : Vertex) (name : String) : Option String := (v.property? name).bind Property.text?

/-- A flag; absent or unreadable means false. -/
def flag (v : Vertex) (name : String) : Bool :=
  ((v.property? name).bind Property.flag?).getD false

/-- A list; absent means empty. -/
def list (v : Vertex) (name : String) : List String :=
  ((v.property? name).map Property.toList).getD []

/-- The version of the vertex, when it is a text. -/
def resourceVersion? (v : Vertex) : Option String := v.text? resourceVersionName

/-- The model the vertex is bound to, when both of its properties are texts. -/
def persona? (v : Vertex) : Option Persona :=
  match v.text? personaModelId, v.text? personaModelVersion with
  | some id, some version => some ⟨id, version⟩
  | _, _ => none

/-- Whether a property is present and agrees with a text. -/
def agrees (v : Vertex) (name value : String) : Bool :=
  ((v.property? name).map (·.agrees value)).getD false

/-- Whether all filters agree with the properties. -/
def meets (v : Vertex) (filters : List PropertyFilter) : Bool :=
  filters.all fun f => v.agrees f.1 f.2

/-- The node type and the id, as reports name a vertex. -/
def described (v : Vertex) : String := v.nodeType ++ " " ++ v.id

/-! ## Data format -/

/-- The vertex in the data format, its properties last. -/
def toJson (v : Vertex) : Json :=
  .obj [("id", .str v.id), ("node_type", .str v.nodeType),
    ("properties", Properties.toJson v.properties)]

/-- A vertex from the data format; only the properties may be left out. -/
def ofJson? (j : Json) : Option Vertex := do
  let fs ← Json.fields? ["id", "node_type", "properties"] j
  let id ← Json.required Json.text? "id" fs
  let nodeType ← Json.required Json.text? "node_type" fs
  let properties ← Json.optional Properties.ofJson? "properties" ∅ fs
  some ⟨id, nodeType, properties⟩

end Vertex

namespace Persona

/-- The persona in the data format. -/
def toJson (p : Persona) : Json :=
  .obj [("model_id", .str p.modelId), ("model_version", .str p.modelVersion)]

/-- A persona from the data format. -/
def ofJson? (j : Json) : Option Persona := do
  let fs ← Json.fields? ["model_id", "model_version"] j
  let id ← Json.required Json.text? "model_id" fs
  let version ← Json.required Json.text? "model_version" fs
  some ⟨id, version⟩

end Persona

end Inventory
