import Inventory.Graph.Basic

/-!
# Graph — snapshots and transactions

A snapshot lists what a graph holds, by rising id. A transaction works on a
copy of a graph that replaces the graph only when it is committed.
-/

namespace Inventory

/-! ## Snapshots -/

/-- The contents of a graph as lists. -/
structure Snapshot where
  vertices : List Vertex := []
  edges : List Edge := []
  deriving DecidableEq

namespace Snapshot

/-- The snapshot in the data format, the vertices first. -/
def toJson (s : Snapshot) : Json :=
  .obj [("vertices", Json.list Vertex.toJson s.vertices), ("edges", Json.list Edge.toJson s.edges)]

/-- The edges of an array; an edge without an id is given one by its place. -/
def edgesOfJson? (freshId : Nat → EdgeId) : Json → Option (List Edge)
  | .arr items => items.zipIdx.mapM fun (j, n) => Edge.ofJson? (freshId n) j
  | _ => none

/-- A snapshot from the data format. -/
def ofJson? (freshId : Nat → EdgeId) (j : Json) : Option Snapshot := do
  let fs ← Json.fields? ["vertices", "edges"] j
  let vertices ← Json.optional (Json.list? Vertex.ofJson?) "vertices" [] fs
  let edges ← Json.optional (edgesOfJson? freshId) "edges" [] fs
  some ⟨vertices, edges⟩

end Snapshot

namespace Graph

/-- Vertices and edges by rising id. -/
def snapshot (g : Graph) : Snapshot := ⟨g.vertices.values, g.edges.values⟩

/-- The graph that a snapshot lists, if its edges end at its vertices. -/
def ofSnapshot (s : Snapshot) : Outcome Graph := ofParts s.vertices s.edges

end Graph

/-! ## Transactions -/

/-- Changes in progress: the graph they started from and the changed copy. -/
structure Transaction where
  base : Graph
  staged : Graph

namespace Graph

/-- Start a transaction. -/
def transaction (g : Graph) : Transaction := ⟨g, g⟩

end Graph

namespace Transaction

/-- The graph after the changes are accepted. -/
def commit (t : Transaction) : Graph := t.staged

/-- The graph after the changes are given up. -/
def rollback (t : Transaction) : Graph := t.base

/-- Remove a vertex from the copy; the graph it started from stays. -/
def removeVertex (t : Transaction) (id : VertexId) : Outcome (Vertex × Transaction) := do
  let (v, staged) ← t.staged.removeVertex id
  .ok (v, { t with staged })

end Transaction

end Inventory
