import Inventory.NamedQuery
import Inventory.Removal.Pass

/-!
# Service — queries by model

What a user asks of a graph under a context: each question names a model by id
and version, which is looked up first.
-/

namespace Inventory

/-- A graph with the context its queries run under. -/
structure Service where
  graph : Graph
  context : Context

namespace Service

/-- The topology of a model. -/
def compile (s : Service) (modelId modelVersion : String) : Outcome Topology := do
  Topology.ofModel s.graph s.context (← Model.find s.graph modelId modelVersion)

/-- The instance of a model under a root. -/
def collect (s : Service) (rootId : VertexId) (modelId modelVersion : String) :
    Outcome ResultTree := do
  let topology ← s.compile modelId modelVersion
  collectInstance s.graph s.context topology (← s.graph.vertex rootId)

/-- The results of a named query. -/
def query (s : Service) (r : QueryRequest) : Outcome (List ResultTree) :=
  evaluateQuery s.graph s.context r

/-- The delete flags of a model. -/
def flags (s : Service) (modelId modelVersion : String) : Outcome DeleteFlags := do
  DeleteFlags.ofModel s.graph s.context (← Model.find s.graph modelId modelVersion)

/-- What deleting the instance under a root would remove. -/
def plan (s : Service) (rootId : VertexId) (modelId modelVersion : String) :
    Outcome ResultTree := do
  let m ← Model.find s.graph modelId modelVersion
  planDelete s.graph s.context (← s.graph.vertex rootId) m

/-- Delete the instance under a root. -/
def delete (s : Service) (rootId : VertexId) (modelId modelVersion : String)
    (version : Option String) : Outcome Removed × Service :=
  match Model.find s.graph modelId modelVersion with
  | .error e => (.error e, s)
  | .ok m =>
    let (removed, graph) := deleteInstance s.graph s.context rootId m version
    (removed, { s with graph })

end Service

end Inventory
