import Inventory.Search.Tagged
import Inventory.Proofs.Graph.Reachable

/-!
# Search — tagged hops

A tagged hop follows an edge with the tag in the direction of a search, or an
edge with the reverse tag in the opposite one. The neighbours that a search
finds are the vertices one such hop away, each once.
-/

namespace Inventory

theorem Outcome.eq_graph_of_toSearch {α : Type} {x : Outcome α} {e : SearchError}
    (h : x.toSearch = .error e) : ∃ e', e = .graph e' := by
  obtain ⟨e', -, rfl⟩ := Outcome.mapError_eq_error.mp h
  exact ⟨e', rfl⟩

/-! ## Edges in a direction -/

namespace Edge

/-- Whether the edge leads from one vertex to another in a direction. -/
def Leads (e : Edge) : Direction → VertexId → VertexId → Prop
  | .outgoing, a, b => e.outId = a ∧ e.inId = b
  | .incoming, a, b => e.inId = a ∧ e.outId = b
  | .both, a, b => e.Joins a b

theorem leads_iff {e : Edge} {d : Direction} {a b : VertexId} :
    e.Leads d a b ↔ e.runs a d = true ∧ e.Joins a b := by
  cases d with
  | outgoing =>
      simp only [Leads, runs, Joins, beq_iff_eq]
      constructor
      · rintro ⟨hout, hin⟩
        exact ⟨hout, .inl ⟨hout, hin⟩⟩
      · rintro ⟨hout, ⟨-, hin⟩ | ⟨hback, hin⟩⟩
        · exact ⟨hout, hin⟩
        · exact ⟨hout, hin.trans (hout.symm.trans hback)⟩
  | incoming =>
      simp only [Leads, runs, Joins, beq_iff_eq]
      constructor
      · rintro ⟨hin, hout⟩
        exact ⟨hin, .inr ⟨hout, hin⟩⟩
      · rintro ⟨hin, ⟨hout, hback⟩ | ⟨hout, -⟩⟩
        · exact ⟨hin, hout.trans (hin.symm.trans hback)⟩
        · exact ⟨hin, hout⟩
  | both => exact ⟨fun h => ⟨h.runs_both, h⟩, fun h => h.2⟩

end Edge

namespace Graph

/-- One tagged hop leads from one vertex to another: over an edge with the tag
in the direction, or over one with the reverse tag in the opposite direction. -/
def Hops (g : Graph) (tag : String) (d : Direction) (a b : VertexId) : Prop :=
  ∃ e, g.edges.get? e.id = some e ∧
    (e.hasTag tag = true ∧ e.Leads d a b ∨
      e.hasTag (tag ++ reverseMark) = true ∧ e.Leads d.opposite a b)

/-- Hops lead on from stored vertices. -/
theorem WellFormed.contains_of_hops {g : Graph} (wf : g.WellFormed) {tag : String} {d : Direction}
    {a b : VertexId} (h : g.Hops tag d a b) : g.contains a = true := by
  obtain ⟨e, he, hway⟩ := h
  have hjoins : e.Joins a b := by
    rcases hway with ⟨-, hleads⟩ | ⟨-, hleads⟩ <;> exact (Edge.leads_iff.mp hleads).2
  exact wf.has_end he hjoins.touches

/-! ## Neighbours -/

/-- Where an id stands for one vertex, keeping the first of each id loses no
vertex that was not seen. -/
theorem mem_keepFirst {vs : List Vertex} (hone : ∀ v ∈ vs, ∀ w ∈ vs, v.id = w.id → v = w)
    {seen : List VertexId} {w : Vertex} : w ∈ keepFirst seen vs ↔ w ∈ vs ∧ w.id ∉ seen := by
  induction vs generalizing seen with
  | nil => simp [keepFirst]
  | cons v vs ih =>
      have hrest : ∀ v ∈ vs, ∀ w ∈ vs, v.id = w.id → v = w := fun x hx y hy =>
        hone x (List.mem_cons_of_mem _ hx) y (List.mem_cons_of_mem _ hy)
      have hv : ∀ w ∈ vs, v.id = w.id → v = w := fun y hy =>
        hone v List.mem_cons_self y (List.mem_cons_of_mem _ hy)
      rw [keepFirst]
      split
      · next hseen =>
          rw [ih hrest, List.mem_cons]
          constructor
          · rintro ⟨hw, hnew⟩
            exact ⟨.inr hw, hnew⟩
          · rintro ⟨rfl | hw, hnew⟩
            · exact absurd hseen hnew
            · exact ⟨hw, hnew⟩
      · next hnew =>
          rw [List.mem_cons, ih hrest, List.mem_cons, List.mem_cons, not_or]
          constructor
          · rintro (rfl | ⟨hw, -, hnew'⟩)
            · exact ⟨.inl rfl, hnew⟩
            · exact ⟨.inr hw, hnew'⟩
          · rintro ⟨rfl | hw, hnew'⟩
            · exact .inl rfl
            · by_cases hid : w.id = v.id
              · exact .inl (hv w hw hid.symm).symm
              · exact .inr ⟨hw, hid, hnew'⟩

theorem stored_of_edgesOf {g : Graph} (wf : g.WellFormed) {id : VertexId} {d : Direction}
    {es : List Edge} (h : g.edgesOf id d = .ok es) : ∃ v, g.vertices.get? id = some v := by
  unfold edgesOf at h
  split at h
  · next ids hids =>
      rw [← Option.isSome_iff_exists, ← wf.has_list, hids]
      rfl
  · cases h

/-- The neighbours of a stored vertex are found. -/
theorem WellFormed.taggedNeighbours_total {g : Graph} (wf : g.WellFormed) {id : VertexId}
    (hid : g.contains id = true) (tag : String) (d : Direction) :
    ∃ ws, taggedNeighbours g id tag d = .ok ws := by
  obtain ⟨v, hv⟩ := contains_iff.mp hid
  obtain ⟨forward, hforward, -⟩ := wf.adjacent hv d (.tag tag)
  obtain ⟨backward, hbackward, -⟩ := wf.adjacent hv d.opposite (.reverseTag tag)
  exact ⟨_, by simp only [taggedNeighbours, hforward, hbackward]; rfl⟩

/-- Only stored vertices have neighbours. -/
theorem WellFormed.contains_of_taggedNeighbours {g : Graph} (wf : g.WellFormed) {id : VertexId}
    {tag : String} {d : Direction} {ws : List Vertex}
    (h : taggedNeighbours g id tag d = .ok ws) : g.contains id = true := by
  obtain ⟨_, hforward, -⟩ := Outcome.bind_eq_ok.mp h
  obtain ⟨_, hes, -⟩ := Outcome.bind_eq_ok.mp (Outcome.mapError_eq_ok.mp hforward)
  exact contains_iff.mpr (stored_of_edgesOf wf hes)

/-- A search for neighbours fails as the graph does. -/
theorem taggedNeighbours_eq_error {g : Graph} {id : VertexId} {tag : String} {d : Direction}
    {e : SearchError} (h : taggedNeighbours g id tag d = .error e) : ∃ e', e = .graph e' := by
  rcases Outcome.bind_eq_error.mp h with h | ⟨_, -, h⟩
  · exact Outcome.eq_graph_of_toSearch h
  · rcases Outcome.bind_eq_error.mp h with h | ⟨_, -, h⟩
    · exact Outcome.eq_graph_of_toSearch h
    · cases h

/-- The neighbours that are found are the vertices one tagged hop away. -/
theorem WellFormed.mem_taggedNeighbours {g : Graph} (wf : g.WellFormed) {id : VertexId}
    {tag : String} {d : Direction} {ws : List Vertex}
    (h : taggedNeighbours g id tag d = .ok ws) (w : Vertex) :
    w ∈ ws ↔ g.vertices.get? w.id = some w ∧ g.Hops tag d id w.id := by
  obtain ⟨v, hv⟩ := contains_iff.mp (wf.contains_of_taggedNeighbours h)
  unfold taggedNeighbours at h
  obtain ⟨forward, hforward, h⟩ := Outcome.bind_eq_ok.mp h
  obtain ⟨backward, hbackward, h⟩ := Outcome.bind_eq_ok.mp h
  cases h
  have hforward : g.adjacent id d (.tag tag) = .ok forward := Outcome.mapError_eq_ok.mp hforward
  have hbackward : g.adjacent id d.opposite (.reverseTag tag) = .ok backward :=
    Outcome.mapError_eq_ok.mp hbackward
  obtain ⟨ws, hws, hmem⟩ := wf.adjacent hv d (.tag tag)
  rw [hforward] at hws
  cases hws
  obtain ⟨ws', hws', hmem'⟩ := wf.adjacent hv d.opposite (.reverseTag tag)
  rw [hbackward] at hws'
  cases hws'
  have hstored : ∀ v ∈ forward ++ backward, g.vertices.get? v.id = some v := by
    intro v hv
    rcases List.mem_append.mp hv with hv | hv
    · exact ((hmem v).mp hv).1
    · exact ((hmem' v).mp hv).1
  have hone : ∀ v ∈ forward ++ backward, ∀ w ∈ forward ++ backward, v.id = w.id → v = w :=
    fun v hv w hw => eq_of_id_eq (hstored v hv) (hstored w hw)
  rw [mem_keepFirst hone, List.mem_append, hmem, hmem']
  constructor
  · rintro ⟨⟨hw, e, he, hr, ht, hj⟩ | ⟨hw, e, he, hr, ht, hj⟩, -⟩
    · exact ⟨hw, e, he, .inl ⟨ht, Edge.leads_iff.mpr ⟨hr, hj⟩⟩⟩
    · exact ⟨hw, e, he, .inr ⟨ht, Edge.leads_iff.mpr ⟨hr, hj⟩⟩⟩
  · rintro ⟨hw, e, he, ⟨ht, hl⟩ | ⟨ht, hl⟩⟩
    · obtain ⟨hr, hj⟩ := Edge.leads_iff.mp hl
      exact ⟨.inl ⟨hw, e, he, hr, ht, hj⟩, List.not_mem_nil⟩
    · obtain ⟨hr, hj⟩ := Edge.leads_iff.mp hl
      exact ⟨.inr ⟨hw, e, he, hr, ht, hj⟩, List.not_mem_nil⟩

end Graph

end Inventory
