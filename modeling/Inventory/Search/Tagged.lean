import Inventory.Search.StartFilter
import Inventory.ResultTree
import Inventory.Trail

/-!
# Search — walks over tagged edges

A tag names one logical direction: a walk in a direction follows edges with the
tag that way and edges with the reverse tag the opposite way. A search climbs
from start vertices to the vertices of a top type; a collection gathers
everything below one vertex.
-/

namespace Inventory

/-! ## One hop -/

/-- The vertices that are not in `seen`, each id once, in order. -/
def keepFirst (seen : List VertexId) : List Vertex → List Vertex
  | [] => []
  | v :: rest =>
    if v.id ∈ seen then keepFirst seen rest else v :: keepFirst (v.id :: seen) rest

/-- The vertices one tagged hop away, each once. -/
def taggedNeighbours (g : Graph) (id : VertexId) (tag : String) (d : Direction) :
    SearchOutcome (List Vertex) := do
  let forward ← (g.adjacent id d (.tag tag)).toSearch
  let backward ← (g.adjacent id d.opposite (.reverseTag tag)).toSearch
  .ok (keepFirst [] (forward ++ backward))

/-! ## Top vertices -/

/-- What a climb looks for. -/
structure Climb where
  top : NodeType
  tag : String
  direction : Direction
  maxLevels : Nat

/-- The state of a climb: the vertices met from one start, and the top vertices found. -/
structure Climbed where
  visited : List VertexId := []
  found : Table Vertex := ∅

/-- Climb from a vertex. A top vertex is not passed, and too high a level is an
error even at a vertex met before. -/
def climb (g : Graph) (q : Climb) : Nat → Vertex → Climbed → SearchOutcome Climbed
  | 0, _, _ => .error (.maxLevelsExceeded q.maxLevels)
  | levels + 1, v, c =>
    if v.id ∈ c.visited then .ok c
    else
      let c := { c with visited := v.id :: c.visited }
      if v.nodeType = q.top then .ok { c with found := c.found.put v.id v }
      else do
        (← taggedNeighbours g v.id q.tag q.direction).foldlM (fun c w => climb g q levels w c) c

/-- The top vertices above all start vertices, by rising id. -/
def findTops (g : Graph) (f : StartFilter) (q : Climb) : SearchOutcome (List Vertex) := do
  let starts ← f.starts g
  let found ← starts.foldlM (fun found v => do
    let c ← climb g q (q.maxLevels + 1) v { found }
    .ok c.found) ∅
  .ok found.values

/-! ## Collections -/

/-- At vertices of a type nothing is looked for below, except at one of them. -/
structure PruneRule where
  nodeType : NodeType
  keepId : VertexId
  deriving DecidableEq

/-- How a collection goes. -/
structure CollectOptions where
  tag : String
  direction : Direction
  maxLevels : Nat
  /-- Node types that are left out. -/
  trim : List NodeType := []
  prune : Option PruneRule := none
  deriving DecidableEq

namespace CollectOptions

/-- Whether a vertex is left out. -/
def trims (o : CollectOptions) (v : Vertex) : Bool := o.trim.contains v.nodeType

/-- Whether nothing is looked for below a vertex. -/
def prunes (o : CollectOptions) (v : Vertex) : Bool :=
  match o.prune with
  | some p => p.nodeType == v.nodeType && p.keepId != v.id
  | none => false

/-- A prune rule from the data format. -/
def pruneOfJson? (j : Json) : Option PruneRule := do
  let fs ← Json.fields? ["node_type", "keep_id"] j
  let nodeType ← Json.required Json.text? "node_type" fs
  let keepId ← Json.required Json.text? "keep_id" fs
  some ⟨nodeType, keepId⟩

/-- Options from the data format; the direction is both unless given. -/
def ofJson? (j : Json) : Option CollectOptions := do
  let fs ← Json.fields? ["edge_tag", "direction", "max_levels", "trim", "prune"] j
  let tag ← Json.required Json.text? "edge_tag" fs
  let direction ← Json.optional Direction.ofJson? "direction" .both fs
  let maxLevels ← Json.required Json.word32? "max_levels" fs
  let trim ← Json.optional (Json.list? Json.text?) "trim" [] fs
  let prune ← Json.optional (Json.nullable? pruneOfJson?) "prune" none fs
  some ⟨tag, direction, maxLevels, trim, prune⟩

end CollectOptions

/-- Gather below a trail every neighbour that is not left out and was not met. -/
def gatherEach
    (visit : Vertex → Trail → List VertexId → SearchOutcome (ResultTree × List VertexId))
    (o : CollectOptions) (trail : Trail) :
    List Vertex → List VertexId → SearchOutcome (List ResultTree × List VertexId)
  | [], visited => .ok ([], visited)
  | w :: rest, visited =>
    if w.id ∈ visited ∨ o.trims w then gatherEach visit o trail rest visited
    else do
      let (t, visited) ← visit w (trail.extend ⟨w.nodeType, none⟩) visited
      let (ts, visited) ← gatherEach visit o trail rest visited
      .ok (t :: ts, visited)

/-- Gather the tree under a vertex that stands at a trail; `visited` are the
vertices met so far. -/
def gather (g : Graph) (o : CollectOptions) :
    Nat → Vertex → Trail → List VertexId → SearchOutcome (ResultTree × List VertexId)
  | 0, _, _, _ => .error (.maxLevelsExceeded o.maxLevels)
  | levels + 1, v, trail, visited => do
    let visited := v.id :: visited
    let node : ResultNode := { vertex := v, trail := trail.key }
    if o.prunes v then .ok (.node node [], visited)
    else
      let neighbours ← taggedNeighbours g v.id o.tag o.direction
      let (children, visited) ← gatherEach (gather g o levels) o trail neighbours visited
      .ok (.node node children, visited)

/-- Everything below a vertex over tagged edges. -/
def collectTagged (g : Graph) (top : Vertex) (o : CollectOptions) : SearchOutcome ResultTree := do
  let (t, _) ← gather g o (o.maxLevels + 1) top ⟨⟨top.nodeType, none⟩, []⟩ []
  .ok t

end Inventory
