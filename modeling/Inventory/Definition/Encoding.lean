import Inventory.Topology.OfQuery

/-!
# Definition — definitions in the data format

How models, their elements, named queries and directives are written for
programs.
-/

namespace Inventory

/-! ## Models -/

/-- The word for a kind in the data format. -/
def ModelKind.name : ModelKind → String
  | .widget => "Widget"
  | .resource => "Resource"
  | .service => "Service"

/-- A model, with what follows from its kind. -/
def Model.toJson (m : Model) : Json :=
  .obj [("vertex_id", .str m.vertexId), ("model_id", .str m.modelId),
    ("model_version", .str m.modelVersion), ("model_name", Json.option .str m.modelName),
    ("kind", .str m.kind.name), ("composite", .bool m.kind.isComposite),
    ("persona", m.persona.toJson), ("widget", Json.option .str m.widgetType?)]

/-- An element with its flag and its linkage points. -/
def Element.toJson (e : Element) : Json :=
  .obj [("vertex_id", .str e.vertexId), ("uuid", Json.option .str e.uuid),
    ("del", .bool e.deletable),
    ("linkage", Json.list (fun p => Json.texts p.steps) e.linkagePoints)]

/-- A set by its vertex and uuid, without its members. -/
def ElementSet.toJson (s : ElementSet) : Json :=
  .obj [("vertex_id", .str s.vertexId), ("uuid", .str s.uuid)]

/-- A connection under the word for what it is. -/
def Connection.toJson : Connection → Json
  | .element e => .obj [("element", e.toJson)]
  | .set s => .obj [("set", s.toJson)]
  | .choice c => .obj [("choice", .obj [("vertex_id", .str c.vertexId)])]

/-- A replacement of an element set. -/
def SetConstraint.toJson (c : SetConstraint) : Json :=
  .obj [("replace", .str c.replaced), ("with", c.replacement.toJson)]

/-! ## Named queries -/

/-- What a query element says about its instances. -/
def QueryElement.toJson (e : QueryElement) : Json :=
  .obj [("vertex_id", .str e.vertexId), ("do_not_output", .bool e.doNotOutput),
    ("collect", Json.texts e.collect),
    ("limit", Json.option (fun l => .str l.name) e.propertyLimit)]

/-- The word for a comparison in the data format. -/
def Comparison.name : Comparison → String
  | .equals => "Equals"
  | .notEquals => "NotEquals"

/-- The fields of a property constraint. -/
def PropertyConstraint.fields (c : PropertyConstraint) : List (String × Json) :=
  [("type", .str c.comparison.name), ("name", .str c.name), ("value", .str c.value)]

/-- A property constraint as an object. -/
def PropertyConstraint.toJson (c : PropertyConstraint) : Json := .obj c.fields

/-- A lookup: its source, its target, and what is joined in. -/
def RelatedLookup.toJson (l : RelatedLookup) : Json :=
  .obj [("source", Json.texts [l.sourceType, l.sourceProperty]),
    ("target", Json.texts [l.targetType, l.targetProperty]), ("collect", Json.texts l.collect)]

/-- A directive with its constraints and lookups in order. -/
def Directive.toJson (d : Directive) : Json :=
  .obj [("element", d.element.toJson),
    ("constraints", Json.list PropertyConstraint.toJson d.constraints),
    ("lookups", Json.list RelatedLookup.toJson d.lookups)]

end Inventory
