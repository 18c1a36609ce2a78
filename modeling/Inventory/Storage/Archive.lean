import Inventory.Storage.Store

/-!
# Storage — the archive of a store

A durable store is kept as a text from which exactly the same store is read
back: vertices and edges in the data format, but doubles by their bits.
-/

namespace Inventory

/-! ## Properties -/

namespace Property

/-- A property in the archive: a double by its bits, any other value as in the data format. -/
def archived : Property → Json
  | .real x => .obj [("bits", .nat x.toBits.toNat)]
  | p => p.toJson

/-- The property of its archived form. -/
def ofArchived? : Json → Option Property
  | .obj [("bits", v)] => (Json.word64? v).map fun n => .real (Float.ofBits n.toUInt64)
  | v => ofJson? v

end Property

/-! ## Stores -/

namespace Store

/-- A vertex in the archive, by position. -/
def archivedVertex (v : Vertex) : Json :=
  .arr [.str v.id, .str v.nodeType, Json.ofTable Property.archived v.properties]

/-- The vertex of its archived form. -/
def vertexOfArchived? : Json → Option Vertex
  | .arr [.str id, .str nodeType, ps] =>
    (Json.table? Property.ofArchived? ps).map fun ps => ⟨id, nodeType, ps⟩
  | _ => none

/-- An edge in the archive, by position. -/
def archivedEdge (e : Edge) : Json :=
  .arr [.str e.id, .str e.outId, .str e.inId, .str e.label,
    Json.ofTable Property.archived e.properties]

/-- The edge of its archived form. -/
def edgeOfArchived? : Json → Option Edge
  | .arr [.str id, .str outId, .str inId, .str label, ps] =>
    (Json.table? Property.ofArchived? ps).map fun ps => ⟨id, outId, inId, label, ps⟩
  | _ => none

/-- The text of a store. -/
def archive (s : Store) : String :=
  (Json.arr [Json.list archivedVertex s.vertices.values,
    Json.list archivedEdge s.edges.values]).compact

/-- The store of a text, if it is an archive. -/
def ofArchive? (text : String) : Option Store :=
  match Json.parse text with
  | some (.arr [vs, es]) => do
    let vertices ← Json.list? vertexOfArchived? vs
    let edges ← Json.list? edgeOfArchived? es
    some (edges.foldl putEdge (vertices.foldl putVertex {}))
  | _ => none

end Store

end Inventory
