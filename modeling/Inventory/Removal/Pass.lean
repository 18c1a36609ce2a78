import Inventory.Graph.Snapshot
import Inventory.Topology.Descent
import Inventory.Walk.Collector

/-!
# Removal — planning and passing

A plan is the instance tree of a model in which every node says whether its
vertex is to be deleted. A pass removes the marked vertices of such a tree,
those below before those above. Before a vertex goes, the neighbours whose types
depend on its type go. The root is checked before anything is removed.
-/

namespace Inventory

/-! ## Plans -/

/-- Mark a node with the flag of its trail, false when there is none. -/
def DeleteFlags.mark (flags : DeleteFlags) (n : ResultNode) : ResultNode :=
  { n with delete := (flags.get? n.trail).getD false }

/-- The instance tree under a root, marked by flags. -/
def collectFlagged (g : Graph) (ctx : Context) (topology : Topology) (flags : DeleteFlags)
    (root : Vertex) : Outcome ResultTree :=
  collectDecorated g ctx topology flags.mark root

/-- What a delete of a model instance would remove. -/
def planDelete (g : Graph) (ctx : Context) (root : Vertex) (m : Model) : Outcome ResultTree := do
  let topology ← Topology.ofModel g ctx m
  let flags ← DeleteFlags.ofModel g ctx m
  collectFlagged g ctx topology flags root

/-! ## Single vertices -/

/-- For the id of every removed vertex, its description. -/
abbrev Removed := Table String

/-- The state of a pass. -/
structure DeletePass where
  graph : Graph
  /-- The vertices the pass has dealt with. -/
  processed : List VertexId := []
  removed : Removed := ∅

/-- Remove a vertex after everything that depends on it. Vertices dealt with
before and vertices that are not there are passed over; a failure among the
dependents does not keep the vertex. `fuel` bounds the chain of dependence, in
which no vertex occurs twice. -/
def DeletePass.remove (rules : RuleTable) : Nat → VertexId → DeletePass → Outcome Unit × DeletePass
  | 0, _, p => (.ok (), p)
  | fuel + 1, id, p =>
    if id ∈ p.processed then (.ok (), p)
    else
      let p := { p with processed := id :: p.processed }
      match p.graph.vertices.get? id with
      | none => (.ok (), p)
      | some v =>
        let types := rules.dependentTypes v.nodeType
        match if types.isEmpty then .ok [] else p.graph.adjacent id .both .any with
        | .error e => (.error e, p)
        | .ok neighbours =>
          let dependents := neighbours.filter fun w => types.contains w.nodeType
          let p := dependents.foldl (fun p w => (DeletePass.remove rules fuel w.id p).2) p
          match p.graph.removeVertex id with
          | .error e => (.error e, p)
          | .ok (v, g) => (.ok (), { p with graph := g, removed := p.removed.put v.id v.described })

/-! ## Whole trees -/

/-- The ids of the marked nodes below the top, children before parents. -/
def ResultTree.marked (t : ResultTree) : List VertexId :=
  ((ResultTree.postorderAll t.children).filter (·.delete)).map (·.vertex.id)

/-- Remove the marked vertices of a tree from a graph. With a version given,
the root must have that version. -/
def executeDelete (g : Graph) (rules : RuleTable) (t : ResultTree) (version : Option String) :
    Outcome Removed × Graph :=
  let id := t.top.vertex.id
  match g.vertices.get? id with
  | none => (.error (.rootAlreadyRemoved id), g)
  | some root =>
    let found := root.resourceVersion?.getD ""
    match version.filter (· ≠ found) with
    | some expected => (.error (.resourceVersionMismatch id expected found), g)
    | none =>
      let fuel := g.vertexCount + 1
      let p := t.marked.foldl (fun p id => (p.remove rules fuel id).2) { graph := g }
      if t.top.delete then
        match DeletePass.remove rules fuel id p with
        | (.error e, p) => (.error e, p.graph)
        | (.ok (), p) => (.ok p.removed, p.graph)
      else (.ok p.removed, p.graph)

/-! ## Model instances -/

/-- Plan and delete one model instance; on an error the graph stays as it was. -/
def deleteInstance (g : Graph) (ctx : Context) (rootId : VertexId) (m : Model)
    (version : Option String) : Outcome Removed × Graph :=
  match g.vertex rootId >>= (planDelete g ctx · m) with
  | .error e => (.error e, g)
  | .ok t =>
    let tx := g.transaction
    match executeDelete tx.staged ctx.catalog.rules t version with
    | (.ok removed, staged) => (.ok removed, { tx with staged }.commit)
    | (.error e, staged) => (.error e, { tx with staged }.rollback)

end Inventory
