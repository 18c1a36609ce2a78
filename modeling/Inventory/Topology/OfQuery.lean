import Inventory.Definition.Query
import Inventory.Topology.Place

/-!
# Topology — named queries

The topology of a named query, together with a directive for every trail: what
the query elements placed there ask of the instances found there.
-/

namespace Inventory

/-! ## Directives -/

/-- What is asked of the instances at a trail: the first element placed there
says what is shown, and the constraints and lookups of all of them apply. -/
structure Directive where
  element : QueryElement
  constraints : List PropertyConstraint := []
  lookups : List RelatedLookup := []
  deriving DecidableEq

/-- A compiled named query. -/
structure QueryTopology where
  topology : Topology
  directives : Table Directive := ∅

/-! ## The descent -/

/-- What a descent through a named query has recorded. -/
structure QueryDescent where
  compiled : QueryTopology
  /-- The elements visited, each with the key of its trail. -/
  seen : List (VertexId × String) := []

namespace QueryDescent

/-- Record an element placed at a trail, with what it asks of the instances there. -/
def see (d : QueryDescent) (e : QueryElement) (trail : Trail)
    (constraints : List PropertyConstraint) (lookups : List RelatedLookup) : QueryDescent :=
  let old := (d.compiled.directives.get? trail.key).getD ⟨e, [], []⟩
  let new := { old with
    constraints := old.constraints ++ constraints
    lookups := old.lookups ++ lookups }
  { compiled := { d.compiled with directives := d.compiled.directives.put trail.key new }
    seen := (e.vertexId, trail.key) :: d.seen }

/-- Let a step follow a trail. -/
def allow (d : QueryDescent) (trail : Trail) (s : TrailStep) : QueryDescent :=
  { d with compiled := { d.compiled with topology := d.compiled.topology.insert trail s } }

end QueryDescent

/-- Visit a query element placed at a trail, then the elements below it. -/
def descendQuery (g : Graph) (ctx : Context) :
    Nat → List VertexId → QueryElement → Trail → QueryDescent → Outcome QueryDescent
  | 0, _, _, _, _ => .error (.modelTooDeep ctx.limits.levels)
  | levels + 1, ancestors, e, trail, d =>
    if e.vertexId ∈ ancestors then .error (.modelCycle e.vertexId)
    else if (e.vertexId, trail.key) ∈ d.seen then .ok d
    else do
      let constraints ← e.constraints g
      let lookups ← e.lookups g
      let d := d.see e trail constraints lookups
      (← e.children g).foldlM (fun d child => do
        let step ← (← child.model g).step g ctx levels
        let _ ← ctx.catalog.rules.require trail.last.nodeType step.nodeType
        descendQuery g ctx levels (e.vertexId :: ancestors) child (trail.extend step)
          (d.allow trail step)) d

/-- The topology and the directives of a named query. -/
def QueryTopology.ofQuery (g : Graph) (ctx : Context) (q : NamedQuery) :
    Outcome QueryTopology := do
  let top ← q.topElement g
  let root ← (← top.model g).stepAt g ctx 0
  let d ← descendQuery g ctx (ctx.levelsFrom 0) [] top ⟨root, []⟩
    { compiled := { topology := ⟨root, ∅⟩ } }
  .ok d.compiled

end Inventory
