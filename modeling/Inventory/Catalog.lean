import Inventory.Rule.Table
import Inventory.Limits

/-!
# Catalog — what is known about node types

The rule table and, per node type, whether its instances carry a persona and
which properties are its keys. A context joins a catalog with the limits that
queries run under.
-/

namespace Inventory

/-! ## Node types -/

/-- What is known about one node type. -/
structure NodeTypeInfo where
  /-- Instances are bound to the model they were created from. -/
  persona : Bool := false
  keyProperties : List String := []
  uniqueProperties : List String := []
  indexedProperties : List String := []
  deriving DecidableEq

namespace NodeTypeInfo

/-- All four fields, under the names of the data format. -/
def toJson (i : NodeTypeInfo) : Json :=
  .obj [("persona", .bool i.persona), ("key_properties", Json.texts i.keyProperties),
    ("unique_properties", Json.texts i.uniqueProperties),
    ("indexed_properties", Json.texts i.indexedProperties)]

/-- Every field may be left out; a type about which nothing is said has no persona. -/
def read? (c : Json.Conventions) (j : Json) : Option NodeTypeInfo := do
  let fs ← c.fields? ["persona", "key_properties", "unique_properties", "indexed_properties"] j
  let texts := Json.list? Json.text?
  let persona ← Json.optional Json.truth? "persona" false fs
  let keys ← Json.optional texts "key_properties" [] fs
  let uniques ← Json.optional texts "unique_properties" [] fs
  let indexed ← Json.optional texts "indexed_properties" [] fs
  some ⟨persona, keys, uniques, indexed⟩

end NodeTypeInfo

/-! ## Catalogs -/

/-- What a catalog is built from. -/
structure CatalogSource where
  edgeRules : List EdgeRule := []
  nodeTypes : Table NodeTypeInfo := ∅
  deriving DecidableEq

namespace CatalogSource

/-- The rules in their order, and the node types by name. -/
def toJson (c : CatalogSource) : Json :=
  .obj [("edge_rules", Json.list EdgeRule.toJson c.edgeRules),
    ("node_types", Json.ofTable NodeTypeInfo.toJson c.nodeTypes)]

/-- Rules and node types may be left out; whether the rules agree is not asked here. -/
def read? (c : Json.Conventions) (j : Json) : Option CatalogSource := do
  let fs ← c.fields? ["edge_rules", "node_types"] j
  let rules ← Json.optional (Json.list? (EdgeRule.read? c)) "edge_rules" [] fs
  let types ← Json.optional (Json.table? (NodeTypeInfo.read? c)) "node_types" ∅ fs
  some ⟨rules, types⟩

/-- A catalog source from the data format. -/
def ofJson? : Json → Option CatalogSource := read? .strict

end CatalogSource

/-- The rule table and the node types. -/
structure Catalog where
  rules : RuleTable := .empty
  nodeTypes : Table NodeTypeInfo := ∅

namespace Catalog

/-- The catalog of a source whose rules agree. -/
def ofSource (s : CatalogSource) : Outcome Catalog := do
  let rules ← RuleTable.ofList s.edgeRules
  .ok ⟨rules, s.nodeTypes⟩

/-- What is known about a node type, if anything. -/
def info? (c : Catalog) (t : NodeType) : Option NodeTypeInfo := c.nodeTypes.get? t

/-- Whether instances of a type are bound to models; an unknown type is not. -/
def supportsPersona (c : Catalog) (t : NodeType) : Bool :=
  ((c.info? t).map (·.persona)).getD false

/-- The properties that tell instances of a type apart; an unknown type has none. -/
def keyProperties (c : Catalog) (t : NodeType) : List String :=
  ((c.info? t).map (·.keyProperties)).getD []

end Catalog

/-! ## Contexts -/

/-- What every query needs besides the graph. -/
structure Context where
  catalog : Catalog := {}
  limits : Limits := {}

/-- How many levels may still be entered at a depth. -/
def Context.levelsFrom (ctx : Context) (depth : Nat) : Nat := ctx.limits.levels + 1 - depth

/-- The context of a source under valid limits; the limits are checked first. -/
def Context.build (source : CatalogSource) (limits : Limits) : Outcome Context := do
  limits.validate
  let catalog ← Catalog.ofSource source
  .ok ⟨catalog, limits⟩

end Inventory
