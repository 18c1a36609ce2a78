import Inventory.Graph.Basic
import Inventory.Proofs.Outcome

/-!
# Graph — the order of listings

Two graphs with the same vertices and edges may list the edges of a vertex in
different orders. They have the same neighbours, in some order.
-/

namespace Inventory.Graph

/-- The graphs differ only in the order in which edges are listed. -/
structure Reordered (g g' : Graph) : Prop where
  vertices : g.vertices = g'.vertices
  edges : g.edges = g'.edges
  incident : ∀ id, Option.Rel List.Perm (g.incident.get? id) (g'.incident.get? id)

theorem Reordered.symm {g g' : Graph} (h : Reordered g g') : Reordered g' g where
  vertices := h.vertices.symm
  edges := h.edges.symm
  incident id := by
    have hp := h.incident id
    generalize g.incident.get? id = ids at hp ⊢
    generalize g'.incident.get? id = ids' at hp ⊢
    cases hp with
    | none => exact .none
    | some hp => exact .some hp.symm

theorem Reordered.edgesOf {g g' : Graph} (h : Reordered g g') {id : VertexId} {d : Direction}
    {es : List Edge} (he : g.edgesOf id d = .ok es) :
    ∃ es', g'.edgesOf id d = .ok es' ∧ es.Perm es' := by
  have hp := h.incident id
  unfold Graph.edgesOf at he ⊢
  split at he
  · next ids hids =>
      cases he
      rw [hids] at hp
      cases hids' : g'.incident.get? id with
      | none => rw [hids'] at hp; cases hp
      | some ids' =>
          rw [hids'] at hp
          cases hp with
          | some hp => exact ⟨_, rfl, by rw [h.edges]; exact (hp.filterMap _).filter _⟩
  · cases he

theorem Reordered.adjacent {g g' : Graph} (h : Reordered g g') {id : VertexId} {d : Direction}
    {f : EdgeFilter} {ws : List Vertex} (hw : g.adjacent id d f = .ok ws) :
    ∃ ws', g'.adjacent id d f = .ok ws' ∧ ws.Perm ws' := by
  obtain ⟨es, hes, hw⟩ := Outcome.bind_eq_ok.mp hw
  obtain ⟨es', hes', hperm⟩ := h.edgesOf hes
  have hread : g.vertex = g'.vertex := by
    funext x
    unfold Graph.vertex
    rw [h.vertices]
  obtain ⟨ws', hws', hws⟩ := Outcome.mapM_perm ((hperm.filter f.accepts).filterMap _) hw
  rw [hread] at hws'
  exact ⟨ws', Outcome.bind_eq_ok.mpr ⟨es', hes', hws'⟩, hws⟩

end Inventory.Graph
