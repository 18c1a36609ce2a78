import Inventory.Topology
import Inventory.ResultTree

/-!
# Walk — collecting instances

A walk starts at a vertex and follows a topology: below each node it looks for
neighbours that fit one of the legal next steps. No vertex is met twice under
one root. A hook looks at every node before its neighbours and may decorate it,
make it a leaf, or drop it.
-/

namespace Inventory

/-! ## Hooks -/

/-- How a walk goes on from a node. -/
inductive Visit where
  /-- Keep the node and look below it. -/
  | expand
  /-- Keep the node as a leaf. -/
  | leaf
  /-- Leave the node out with everything below it. -/
  | drop
  deriving DecidableEq

/-- What is done at each node; the state of a hook outlives an error. A hook answers
the node alone, vertex and trail included. The node has no children yet, and a hook
that would hang children of its own on it is not expressed: what stands below a node
is what the walk finds there. -/
abbrev Hook (σ : Type) := Graph → ResultNode → σ → Outcome (Visit × ResultNode) × σ

/-- The hook that leaves every node as it is. -/
def Hook.plain : Hook Unit := fun _ n s => (.ok (.expand, n), s)

/-- A hook without state that only decorates. -/
def Hook.decorate (f : ResultNode → ResultNode) : Hook Unit :=
  fun _ n s => (.ok (.expand, f n), s)

/-! ## Collectors -/

/-- The state of a collector: the vertices met under the current root, the
nodes counted under all roots, and the hook's own state. -/
structure Collector (σ : Type) where
  visited : List VertexId := []
  count : Nat := 0
  hook : σ

/-- The vertices to look at below a node, step by step, each with the step it fits. -/
def moves (steps : List TrailStep) (neighbours : List Vertex) : List (TrailStep × Vertex) :=
  steps.flatMap fun s => (neighbours.filter s.fits).map (s, ·)

section

variable {σ : Type}

/-- Visit every move whose vertex was not met before, one step below a trail. -/
def collectMoves (visit : Vertex → Trail → Collector σ → Outcome (Option ResultTree) × Collector σ)
    (trail : Trail) :
    List (TrailStep × Vertex) → Collector σ → Outcome (List ResultTree) × Collector σ
  | [], c => (.ok [], c)
  | (s, w) :: rest, c =>
    if w.id ∈ c.visited then collectMoves visit trail rest c
    else
      match visit w (trail.extend s) { c with visited := w.id :: c.visited } with
      | (.error e, c) => (.error e, c)
      | (.ok found, c) =>
        match collectMoves visit trail rest c with
        | (.error e, c) => (.error e, c)
        | (.ok trees, c) => (.ok (found.toList ++ trees), c)

/-- Collect the tree under a vertex that stands at a trail. A node counts
before the hook sees it. Below the root, a vertex that fits the root step again
is a leaf. -/
def collect (g : Graph) (ctx : Context) (topology : Topology) (hook : Hook σ) :
    Nat → Vertex → Trail → Collector σ → Outcome (Option ResultTree) × Collector σ
  | 0, _, _, c => (.error (.depthExceeded ctx.limits.levels), c)
  | levels + 1, v, trail, c =>
    let c := { c with count := c.count + 1 }
    if ctx.limits.resultCount < c.count then
      (.error (.resultLimitExceeded ctx.limits.resultCount), c)
    else
      match hook g { vertex := v, trail := trail.key } c.hook with
      | (.error e, s) => (.error e, { c with hook := s })
      | (.ok (.drop, _), s) => (.ok none, { c with hook := s })
      | (.ok (.leaf, n), s) => (.ok (some (.node n [])), { c with hook := s })
      | (.ok (.expand, n), s) =>
        let c := { c with hook := s }
        let steps := topology.next trail
        if (trail.below ≠ [] ∧ topology.root.fits n.vertex) ∨ steps = [] then
          (.ok (some (.node n [])), c)
        else
          match g.adjacent n.vertex.id .both .any with
          | .error e => (.error e, c)
          | .ok neighbours =>
            match collectMoves (collect g ctx topology hook levels) trail
                (moves steps neighbours) c with
            | (.error e, c) => (.error e, c)
            | (.ok children, c) => (.ok (some (.node n children)), c)

/-- Collect the tree under a root, which must be of the root's node type.
Nothing is collected when the hook drops the root. -/
def collectFrom (g : Graph) (ctx : Context) (topology : Topology) (hook : Hook σ)
    (root : Vertex) (c : Collector σ) : Outcome (Option ResultTree) × Collector σ :=
  if root.nodeType ≠ topology.root.nodeType then
    (.error (.rootTypeMismatch topology.root.nodeType root.nodeType), c)
  else
    collect g ctx topology hook (ctx.levelsFrom 0) root topology.rootTrail
      { c with visited := [root.id] }

/-- Collect the trees under several roots, one after another; the count goes on. -/
def collectAll (g : Graph) (ctx : Context) (topology : Topology) (hook : Hook σ) :
    List Vertex → Collector σ → Outcome (List ResultTree) × Collector σ
  | [], c => (.ok [], c)
  | root :: rest, c =>
    match collectFrom g ctx topology hook root c with
    | (.error e, c) => (.error e, c)
    | (.ok found, c) =>
      match collectAll g ctx topology hook rest c with
      | (.error e, c) => (.error e, c)
      | (.ok trees, c) => (.ok (found.toList ++ trees), c)

end

/-! ## One instance -/

/-- The tree under a root whose nodes a function decorates. -/
def collectDecorated (g : Graph) (ctx : Context) (topology : Topology)
    (f : ResultNode → ResultNode) (root : Vertex) : Outcome ResultTree :=
  match (collectFrom g ctx topology (Hook.decorate f) root { hook := () }).1 with
  | .ok (some t) => .ok t
  | .ok none => .error (.internal (root.described ++ " dropped from its own walk"))
  | .error e => .error e

/-- The instance tree under a root. -/
def collectInstance (g : Graph) (ctx : Context) (topology : Topology) (root : Vertex) :
    Outcome ResultTree :=
  collectDecorated g ctx topology id root

end Inventory
