import Inventory.Storage.Store
import Inventory.Service

/-!
# Storage — changes of a stored graph

A user changes a stored graph in two ways: by taking in the vertices and edges
of a graph file, and by deleting a model instance. Either change is checked on
the loaded graph first and then saved as a whole.
-/

namespace Inventory

/-! ## Faults -/

/-- Why a stored graph is not changed. -/
inductive ChangeFault where
  /-- The store already holds so many vertices. -/
  | occupied (count : Nat)
  | store (e : StoreError)
  | engine (e : Error)
  deriving DecidableEq

/-- The refusal in words, as a user sees it. -/
def ChangeFault.message : ChangeFault → String
  | .occupied n =>
    "Store already holds " ++ toString n ++ " vertices. Use --merge to add to existing data."
  | .store e => e.message
  | .engine e => e.message

namespace Store

/-! ## Taking in -/

/-- Save vertices and then edges durably. -/
def saveParts (s : Store) (parts : Snapshot) : Except StoreError Unit × Store :=
  Backend.durable.saveEdges parts.edges (parts.vertices.foldl Backend.durable.saveVertex s)

/-- Take in the vertices and edges of a snapshot. A store that is not empty is
only added to when asked for, and every edge must end at known vertices. -/
def takeIn (s : Store) (incoming : Snapshot) (merge : Bool) : Except ChangeFault Unit × Store :=
  match Backend.durable.loadGraph s with
  | .error e => (.error (.store e), s)
  | .ok stored =>
    if 0 < stored.vertexCount ∧ !merge then (.error (.occupied stored.vertexCount), s)
    else
      match incoming.edges.foldlM Graph.addEdge (incoming.vertices.foldl Graph.addVertex stored) with
      | .error e => (.error (.engine e), s)
      | .ok _ => let (r, s) := s.saveParts incoming; (r.mapError .store, s)

/-! ## Deleting -/

/-- Delete the instance of a model under a root from the loaded graph, and the
vertices that went from the store. -/
def deleteInstance (s : Store) (ctx : Context) (rootId : VertexId)
    (modelId modelVersion : String) (version : Option String) :
    Except ChangeFault Removed × Store :=
  match Backend.durable.loadGraph s with
  | .error e => (.error (.store e), s)
  | .ok graph =>
    match ((⟨graph, ctx⟩ : Service).delete rootId modelId modelVersion version).1 with
    | .error e => (.error (.engine e), s)
    | .ok removed =>
      let (r, s) := Backend.durable.deleteVertices removed.keys s
      ((r.mapError .store).map fun _ => removed, s)

end Store

end Inventory
