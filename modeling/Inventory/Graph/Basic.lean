import Inventory.Edge
import Inventory.Error

/-!
# Graph — the property graph

Vertices and edges by id, and for each vertex the ids of the edges at it in the
order they were added. An edge can only be added between vertices that are
there; removing a vertex removes the edges listed at it.
-/

namespace Inventory

/-- A property graph. -/
structure Graph where
  vertices : Table Vertex
  edges : Table Edge
  /-- For each vertex the ids of edges added at it, oldest first. -/
  incident : Table (List EdgeId)
  deriving DecidableEq

namespace Graph

/-- The graph without vertices. -/
def empty : Graph := ⟨∅, ∅, ∅⟩

instance : Inhabited Graph := ⟨empty⟩

/-! ## Reading -/

/-- Whether a vertex is there. -/
def contains (g : Graph) (id : VertexId) : Bool := g.vertices.contains id

/-- The vertex of an id that must be there. -/
def vertex (g : Graph) (id : VertexId) : Outcome Vertex :=
  match g.vertices.get? id with
  | some v => .ok v
  | none => .error (.vertexNotFound id)

/-- The vertices of a type that meet every filter, by rising id. -/
def find (g : Graph) (nodeType : NodeType) (filters : List PropertyFilter) : List Vertex :=
  g.vertices.values.filter fun v => v.nodeType == nodeType && v.meets filters

/-- The edges at a vertex that run in a direction, in the order of their ids' listing. -/
def edgesOf (g : Graph) (id : VertexId) (d : Direction) : Outcome (List Edge) :=
  match g.incident.get? id with
  | some ids => .ok ((ids.filterMap g.edges.get?).filter (·.runs id d))
  | none => .error (.vertexNotFound id)

/-- The vertices at the other ends of the edges that a filter accepts, one
entry per edge. -/
def adjacent (g : Graph) (id : VertexId) (d : Direction) (f : EdgeFilter) :
    Outcome (List Vertex) := do
  let es ← g.edgesOf id d
  ((es.filter f.accepts).filterMap (·.otherEnd? id)).mapM g.vertex

/-! ## Growing -/

/-- Add a vertex or replace the one of its id; the edges listed at it stay. -/
def addVertex (g : Graph) (v : Vertex) : Graph :=
  { g with
    vertices := g.vertices.put v.id v
    incident := if g.incident.contains v.id then g.incident else g.incident.put v.id [] }

/-- The lists with one more edge at the end of one of them. -/
def listAt (incident : Table (List EdgeId)) (id : VertexId) (e : EdgeId) : Table (List EdgeId) :=
  incident.put id ((incident.get? id).getD [] ++ [e])

/-- Add an edge between vertices that are there; the out end is looked for first. -/
def addEdge (g : Graph) (e : Edge) : Outcome Graph :=
  if !g.contains e.outId then .error (.vertexNotFound e.outId)
  else if !g.contains e.inId then .error (.vertexNotFound e.inId)
  else
    let atOut := listAt g.incident e.outId e.id
    .ok { g with
      edges := g.edges.put e.id e
      incident := if e.inId = e.outId then atOut else listAt atOut e.inId e.id }

/-- Build a graph from vertices and edges, in order. -/
def ofParts (vertices : List Vertex) (edges : List Edge) : Outcome Graph :=
  edges.foldlM addEdge (vertices.foldl addVertex empty)

/-! ## Shrinking -/

/-- Remove one edge listed at a vertex that is going: the edge itself, and its
id from the list of the other end. -/
def dropEdge (id : VertexId) (g : Graph) (eid : EdgeId) : Graph :=
  match g.edges.get? eid with
  | none => g
  | some e =>
    let incident := match e.otherEnd? id with
      | none => g.incident
      | some other => match g.incident.get? other with
        | none => g.incident
        | some ids => g.incident.put other (ids.filter (· != eid))
    { g with edges := g.edges.erase eid, incident }

/-- Remove a vertex and the edges listed at it. -/
def removeVertex (g : Graph) (id : VertexId) : Outcome (Vertex × Graph) :=
  match g.vertices.get? id with
  | none => .error (.vertexNotFound id)
  | some v =>
    let ids := (g.incident.get? id).getD []
    let rest := { g with vertices := g.vertices.erase id, incident := g.incident.erase id }
    .ok (v, ids.foldl (dropEdge id) rest)

/-! ## Counts -/

/-- The number of vertices. -/
def vertexCount (g : Graph) : Nat := g.vertices.size

/-- The number of edges. -/
def edgeCount (g : Graph) : Nat := g.edges.size

end Graph

end Inventory
