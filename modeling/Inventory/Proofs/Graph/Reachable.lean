import Inventory.Graph.Basic
import Inventory.Proofs.Outcome

/-!
# Graph — the graphs that histories build

A graph is reachable when additions and removals lead to it from the empty
graph. Every reachable graph is well formed: vertices and edges stand under
their own ids, and an edge is listed at both of its ends, which are there. The
converse does not hold: an edge whose id was used again may still be listed at
ends it no longer has.
-/

namespace Inventory

/-! ## Ends -/

namespace Edge

/-- Whether the edge runs between two vertices, either way. -/
def Joins (e : Edge) (a b : VertexId) : Prop :=
  (e.outId = a ∧ e.inId = b) ∨ (e.outId = b ∧ e.inId = a)

theorem Joins.symm {e : Edge} {a b : VertexId} (h : e.Joins a b) : e.Joins b a :=
  Or.symm h

theorem otherEnd?_eq_some {e : Edge} {a b : VertexId} :
    e.otherEnd? a = some b ↔ e.Joins a b := by
  unfold otherEnd? Joins
  split
  · next h => subst h; simp only [Option.some.injEq, true_and]; grind
  · next h =>
      split
      · next h' => subst h'; simp only [Option.some.injEq]; grind
      · next h' => simp [h, h']

theorem touches_iff {e : Edge} {a : VertexId} :
    e.touches a = true ↔ e.outId = a ∨ e.inId = a := by
  simp [touches]

theorem touches_of_runs {e : Edge} {a : VertexId} {d : Direction}
    (h : e.runs a d = true) : e.touches a = true := by
  cases d <;> simp_all [runs, touches]

theorem Joins.touches {e : Edge} {a b : VertexId} (h : e.Joins a b) :
    e.touches a = true := by
  rcases h with ⟨h, _⟩ | ⟨_, h⟩ <;> simp [Edge.touches, h]

theorem Joins.runs_both {e : Edge} {a b : VertexId} (h : e.Joins a b) :
    e.runs a .both = true := h.touches

end Edge

namespace Graph

/-! ## Histories -/

/-- The graphs that additions and removals build from nothing. An addition may
use an id again, which replaces the vertex or the edge that had it. -/
inductive Reachable : Graph → Prop where
  | empty : Reachable .empty
  | addVertex {g : Graph} (v : Vertex) : Reachable g → Reachable (g.addVertex v)
  | addEdge {g g' : Graph} {e : Edge} : Reachable g → g.addEdge e = .ok g' → Reachable g'
  | removeVertex {g g' : Graph} {id : VertexId} {v : Vertex} :
      Reachable g → g.removeVertex id = .ok (v, g') → Reachable g'

/-! ## Well-formed graphs -/

/-- The edge ids listed at a vertex. -/
def listed (g : Graph) (id : VertexId) : List EdgeId := (g.incident.get? id).getD []

/-- Entries stand under their own ids, and edges are listed at their ends. -/
structure WellFormed (g : Graph) : Prop where
  vertex_id : ∀ {id v}, g.vertices.get? id = some v → v.id = id
  edge_id : ∀ {i e}, g.edges.get? i = some e → e.id = i
  has_list : ∀ id, (g.incident.get? id).isSome = (g.vertices.get? id).isSome
  has_end : ∀ {i e id}, g.edges.get? i = some e → e.touches id = true →
    (g.vertices.get? id).isSome = true
  lists : ∀ {i e id}, g.edges.get? i = some e → e.touches id = true → i ∈ g.listed id

/-- A stored edge is misfiled at a vertex that lists it without being an end of
it. -/
def Misfiled (g : Graph) (e : Edge) (x : VertexId) : Prop :=
  g.edges.get? e.id = some e ∧ e.id ∈ g.listed x ∧ e.touches x = false

theorem wellFormed_empty : WellFormed .empty where
  vertex_id h := by simp [empty, EmptyCollection.emptyCollection, Table.get?_empty] at h
  edge_id h := by simp [empty, EmptyCollection.emptyCollection, Table.get?_empty] at h
  has_list _ := rfl
  has_end h := by simp [empty, EmptyCollection.emptyCollection, Table.get?_empty] at h
  lists h := by simp [empty, EmptyCollection.emptyCollection, Table.get?_empty] at h

theorem contains_iff {g : Graph} {id : VertexId} :
    g.contains id = true ↔ ∃ v, g.vertices.get? id = some v := by
  simp [contains, Table.contains, Option.isSome_iff_exists]

/-- An id stands for one stored vertex. -/
theorem eq_of_id_eq {g : Graph} {v w : Vertex} (hv : g.vertices.get? v.id = some v)
    (hw : g.vertices.get? w.id = some w) (hid : v.id = w.id) : v = w :=
  Option.some.inj (hv.symm.trans (hid ▸ hw))

theorem WellFormed.vertices_rising {g : Graph} (wf : g.WellFormed) :
    g.vertices.values.Pairwise fun v w => v.id < w.id :=
  Table.values_rising fun h => wf.vertex_id h

theorem WellFormed.mem_vertices {g : Graph} (wf : g.WellFormed) {v : Vertex} :
    v ∈ g.vertices.values ↔ g.vertices.get? v.id = some v := by
  rw [Table.mem_values]
  refine ⟨fun ⟨id, hid⟩ => ?_, fun h => ⟨_, h⟩⟩
  rw [wf.vertex_id hid]
  exact hid

/-- A vertex of the type is stored under the id. -/
def Holds (g : Graph) (t : NodeType) (id : VertexId) : Prop :=
  ∃ v, g.vertices.get? id = some v ∧ v.nodeType = t

theorem Holds.type_unique {g : Graph} {t t' : NodeType} {id : VertexId} (h : g.Holds t id)
    (h' : g.Holds t' id) : t = t' := by
  obtain ⟨v, hv, rfl⟩ := h
  obtain ⟨v', hv', rfl⟩ := h'
  cases hv.symm.trans hv'
  rfl

/-! ### Additions -/

theorem incident_addVertex (g : Graph) (v : Vertex) (id : VertexId) :
    (g.addVertex v).incident.get? id =
      if id = v.id ∧ g.incident.get? id = none then some [] else g.incident.get? id := by
  unfold addVertex Table.contains
  cases h : g.incident.get? v.id with
  | none =>
      simp only [Option.isSome_none, Bool.false_eq_true, if_false, Table.get?_put]
      by_cases hid : id = v.id
      · subst hid; simp [h]
      · simp [hid]
  | some l =>
      simp only [Option.isSome_some, if_true]
      by_cases hid : id = v.id
      · subst hid; simp [h]
      · simp [hid]

theorem listed_addVertex (g : Graph) (v : Vertex) (id : VertexId) :
    (g.addVertex v).listed id = g.listed id := by
  unfold listed
  rw [incident_addVertex]
  split
  · next h => simp [h.2]
  · rfl

theorem WellFormed.addVertex {g : Graph} (wf : g.WellFormed) (v : Vertex) :
    (g.addVertex v).WellFormed where
  vertex_id {id w} h := by
    simp only [Graph.addVertex, Table.get?_put] at h
    split at h
    · next hid => cases h; exact hid.symm
    · exact wf.vertex_id h
  edge_id h := wf.edge_id h
  has_list id := by
    have := wf.has_list id
    rw [incident_addVertex]
    simp only [Graph.addVertex, Table.get?_put]
    by_cases hid : id = v.id
    · cases h : g.incident.get? id <;> simp [hid]
    · simp [hid, this]
  has_end {i e id} h ht := by
    have := wf.has_end h ht
    simp only [Graph.addVertex, Table.get?_put]
    split <;> simp [this]
  lists h ht := by rw [listed_addVertex]; exact wf.lists h ht

theorem listed_listAt (incident : Table (List EdgeId)) (id x : VertexId) (e : EdgeId) :
    ((listAt incident id e).get? x).getD [] =
      if x = id then (incident.get? x).getD [] ++ [e] else (incident.get? x).getD [] := by
  unfold listAt
  rw [Table.get?_put]
  split
  · next h => simp [h]
  · rfl

theorem isSome_listAt (incident : Table (List EdgeId)) (id x : VertexId) (e : EdgeId) :
    ((listAt incident id e).get? x).isSome = (decide (x = id) || (incident.get? x).isSome) := by
  unfold listAt
  rw [Table.get?_put]
  split
  · next h => simp [h]
  · next h => simp [h]

/-- What adding an edge does, when its ends are there. -/
theorem addEdge_eq_ok {g g' : Graph} {e : Edge} (h : g.addEdge e = .ok g') :
    (g.contains e.outId = true ∧ g.contains e.inId = true) ∧
      g'.vertices = g.vertices ∧ g'.edges = g.edges.put e.id e ∧
      ∀ x, g'.listed x = g.listed x ++ (if e.touches x then [e.id] else []) ∧
        (g'.incident.get? x).isSome = (e.touches x || (g.incident.get? x).isSome) := by
  unfold addEdge at h
  split at h
  · cases h
  · next hout =>
      split at h
      · cases h
      · next hin =>
          cases h
          refine ⟨⟨by simpa using hout, by simpa using hin⟩, rfl, rfl, fun x => ?_⟩
          unfold listed Edge.touches
          -- a loop is listed once, any other edge at both of its ends
          by_cases hloop : e.inId = e.outId
          · simp only [hloop, if_true, listed_listAt, isSome_listAt]
            grind
          · simp only [hloop, if_false, listed_listAt, isSome_listAt]
            grind

theorem WellFormed.addEdge {g g' : Graph} {e : Edge} (wf : g.WellFormed)
    (h : g.addEdge e = .ok g') : g'.WellFormed := by
  obtain ⟨⟨hout, hin⟩, hv, he, hl⟩ := addEdge_eq_ok h
  have hend : ∀ {x}, e.touches x = true → (g.vertices.get? x).isSome = true := by
    intro x hx
    rcases Edge.touches_iff.mp hx with rfl | rfl
    · exact hout
    · exact hin
  refine ⟨?_, ?_, ?_, ?_, ?_⟩
  · intro id v hid
    rw [hv] at hid
    exact wf.vertex_id hid
  · intro i e' hi
    rw [he, Table.get?_put] at hi
    split at hi
    · next heq => cases hi; exact heq.symm
    · exact wf.edge_id hi
  · intro id
    rw [(hl id).2, hv, wf.has_list id]
    cases ht : e.touches id
    · rfl
    · simpa using hend ht
  · intro i e' id hi ht
    rw [he, Table.get?_put] at hi
    rw [hv]
    split at hi
    · cases hi; exact hend ht
    · exact wf.has_end hi ht
  · intro i e' id hi ht
    rw [he, Table.get?_put] at hi
    rw [(hl id).1]
    split at hi
    · next heq => cases hi; simp [ht, heq]
    · exact List.mem_append_left _ (wf.lists hi ht)

/-! ### Removals -/

/-- A graph that lacks some edges of another, and lists no more than it did. -/
structure Lacks (ids : List EdgeId) (g g' : Graph) : Prop where
  vertices : g'.vertices = g.vertices
  edges : ∀ i, g'.edges.get? i = if i ∈ ids then none else g.edges.get? i
  has_list : ∀ x, (g'.incident.get? x).isSome = (g.incident.get? x).isSome
  listed_of : ∀ {x i}, i ∈ g'.listed x → i ∈ g.listed x
  keeps : ∀ {x i}, i ∈ g.listed x → i ∉ ids → i ∈ g'.listed x

theorem lacks_dropEdge (id : VertexId) (g : Graph) (i₀ : EdgeId) :
    Lacks [i₀] g (dropEdge id g i₀) := by
  unfold dropEdge
  split
  · next h =>
      refine ⟨rfl, fun i => ?_, fun _ => rfl, fun h => h, fun h _ => h⟩
      by_cases hi : i = i₀ <;> simp [hi, h]
  · next e _ =>
      have hedges : ∀ i, (g.edges.erase i₀).get? i
          = if i ∈ [i₀] then none else g.edges.get? i := by simp
      dsimp only
      split
      · exact ⟨rfl, hedges, fun _ => rfl, fun h => h, fun h _ => h⟩
      · next other _ =>
          split
          · exact ⟨rfl, hedges, fun _ => rfl, fun h => h, fun h _ => h⟩
          · next ids hlist =>
              refine ⟨rfl, hedges, fun x => ?_, fun {x i} => ?_, fun {x i} => ?_⟩
              -- only the list at the other end changes, and only by the edge's id
              all_goals
                simp only [listed, Table.get?_put]
                by_cases hx : x = other
                · subst hx; simp +contextual [hlist]
                · simp +contextual [hx]

theorem Lacks.trans {is js : List EdgeId} {g g' g'' : Graph} (h : Lacks is g g')
    (h' : Lacks js g' g'') : Lacks (is ++ js) g g'' where
  vertices := h'.vertices.trans h.vertices
  edges i := by
    rw [h'.edges, h.edges]
    by_cases hi : i ∈ is <;> by_cases hj : i ∈ js <;> simp [hi, hj]
  has_list x := (h'.has_list x).trans (h.has_list x)
  listed_of hi := h.listed_of (h'.listed_of hi)
  keeps hi hn := by
    simp only [List.mem_append, not_or] at hn
    exact h'.keeps (h.keeps hi hn.1) hn.2

theorem lacks_foldl_dropEdge (id : VertexId) (ids : List EdgeId) (g : Graph) :
    Lacks ids g (ids.foldl (dropEdge id) g) := by
  induction ids generalizing g with
  | nil => exact ⟨rfl, fun _ => rfl, fun _ => rfl, fun h => h, fun h _ => h⟩
  | cons i ids ih => exact (lacks_dropEdge id g i).trans (ih _)

/-- A removal of a vertex that is there: the vertex goes, and with it every
edge that is listed at it. -/
theorem removeVertex_spec {g : Graph} {id : VertexId} {v : Vertex}
    (h : g.vertices.get? id = some v) :
    ∃ g', g.removeVertex id = .ok (v, g') ∧
      (∀ x, g'.vertices.get? x = if x = id then none else g.vertices.get? x) ∧
      (∀ i, g'.edges.get? i = if i ∈ g.listed id then none else g.edges.get? i) ∧
      (∀ x, (g'.incident.get? x).isSome = (decide (x ≠ id) && (g.incident.get? x).isSome)) ∧
      ∀ x i, (i ∈ g'.listed x → i ∈ g.listed x) ∧
        (x ≠ id → i ∈ g.listed x → i ∉ g.listed id → i ∈ g'.listed x) := by
  have hl := lacks_foldl_dropEdge id (g.listed id)
    { g with vertices := g.vertices.erase id, incident := g.incident.erase id }
  refine ⟨_, by simp only [removeVertex, h]; rfl, fun x => ?_, hl.edges, fun x => ?_,
    fun x i => ⟨fun hi => ?_, fun hx hi hn => hl.keeps ?_ hn⟩⟩
  · rw [hl.vertices]
    simp
  · rw [hl.has_list]
    by_cases hx : x = id <;> simp [hx]
  · have := hl.listed_of hi
    unfold listed at this ⊢
    by_cases hx : x = id
    · simp [hx] at this
    · simpa [hx] using this
  · simpa [listed, hx] using hi

/-- What a removal that succeeds has done. -/
theorem removeVertex_eq_ok {g g' : Graph} {id : VertexId} {v : Vertex}
    (h : g.removeVertex id = .ok (v, g')) :
    g.vertices.get? id = some v ∧
      (∀ x, g'.vertices.get? x = if x = id then none else g.vertices.get? x) ∧
      (∀ i, g'.edges.get? i = if i ∈ g.listed id then none else g.edges.get? i) ∧
      (∀ x, (g'.incident.get? x).isSome = (decide (x ≠ id) && (g.incident.get? x).isSome)) ∧
      ∀ x i, (i ∈ g'.listed x → i ∈ g.listed x) ∧
        (x ≠ id → i ∈ g.listed x → i ∉ g.listed id → i ∈ g'.listed x) := by
  cases hv : g.vertices.get? id with
  | none => simp [removeVertex, hv] at h
  | some v₀ =>
      obtain ⟨g₁, h₁, hdone⟩ := removeVertex_spec hv
      rw [h] at h₁
      cases h₁
      exact ⟨rfl, hdone⟩

theorem WellFormed.removeVertex {g g' : Graph} {id : VertexId} {v : Vertex}
    (wf : g.WellFormed) (h : g.removeVertex id = .ok (v, g')) : g'.WellFormed := by
  obtain ⟨-, hvs, hes, hhas, hls⟩ := removeVertex_eq_ok h
  have hkept : ∀ {i e}, g'.edges.get? i = some e →
      g.edges.get? i = some e ∧ i ∉ g.listed id := by
    intro i e hi
    rw [hes] at hi
    split at hi
    · cases hi
    · next hn => exact ⟨hi, hn⟩
  -- an edge at the vertex that goes is listed there, so it does not stay
  have hne : ∀ {i e x}, g'.edges.get? i = some e → e.touches x = true → x ≠ id := by
    rintro i e x hi ht rfl
    obtain ⟨hi, hn⟩ := hkept hi
    exact hn (wf.lists hi ht)
  refine ⟨?_, ?_, ?_, ?_, ?_⟩
  · intro x w hx
    rw [hvs] at hx
    split at hx
    · cases hx
    · exact wf.vertex_id hx
  · exact fun hi => wf.edge_id (hkept hi).1
  · intro x
    rw [hhas, hvs, wf.has_list]
    by_cases hx : x = id <;> simp [hx]
  · intro i e x hi ht
    rw [hvs, if_neg (hne hi ht)]
    exact wf.has_end (hkept hi).1 ht
  · intro i e x hi ht
    exact (hls x i).2 (hne hi ht) (wf.lists (hkept hi).1 ht) (hkept hi).2

/-- **Reachable graphs are well formed.** -/
theorem Reachable.wellFormed {g : Graph} (h : Reachable g) : g.WellFormed := by
  induction h with
  | empty => exact wellFormed_empty
  | addVertex v _ ih => exact ih.addVertex v
  | addEdge _ h ih => exact ih.addEdge h
  | removeVertex _ h ih => exact ih.removeVertex h

theorem Reachable.addVertices {g : Graph} (hg : g.Reachable) (vs : List Vertex) :
    (vs.foldl Graph.addVertex g).Reachable := by
  induction vs generalizing g with
  | nil => exact hg
  | cons v vs ih => exact ih (hg.addVertex v)

/-- Vertices and then edges are added to a reachable graph. -/
theorem Reachable.addParts {vs : List Vertex} {es : List Edge} {g g' : Graph} (hg : g.Reachable)
    (h : es.foldlM Graph.addEdge (vs.foldl Graph.addVertex g) = .ok g') : g'.Reachable :=
  Outcome.foldlM_keeps (fun _ _ {_ _} h hg => hg.addEdge h) h (hg.addVertices vs)

theorem reachable_ofParts {vs : List Vertex} {es : List Edge} {g : Graph}
    (h : ofParts vs es = .ok g) : g.Reachable := Reachable.empty.addParts h

/-! ## Reading a well-formed graph -/

theorem vertex_eq_ok {g : Graph} {id : VertexId} {v : Vertex} :
    g.vertex id = .ok v ↔ g.vertices.get? id = some v := by
  unfold vertex
  cases g.vertices.get? id <;> simp

/-- Whether some stored edge runs between two vertices, either way. -/
def Adjacent (g : Graph) (a b : VertexId) : Prop :=
  ∃ e, g.edges.get? e.id = some e ∧ e.Joins a b

/-- The edges at a vertex are those that run as the direction asks. -/
theorem WellFormed.edgesOf {g : Graph} (wf : g.WellFormed) {id : VertexId} {v : Vertex}
    (h : g.vertices.get? id = some v) (d : Direction) :
    ∃ es, g.edgesOf id d = .ok es ∧
      ∀ e, e ∈ es ↔ g.edges.get? e.id = some e ∧ e.runs id d = true := by
  obtain ⟨ids, hids⟩ : ∃ ids, g.incident.get? id = some ids := by
    rw [← Option.isSome_iff_exists, wf.has_list, h]; rfl
  refine ⟨_, by simp only [Graph.edgesOf, hids]; rfl, fun e => ?_⟩
  simp only [List.mem_filter, List.mem_filterMap]
  constructor
  · rintro ⟨⟨i, _, hi⟩, hr⟩
    rw [wf.edge_id hi]
    exact ⟨hi, hr⟩
  · rintro ⟨he, hr⟩
    have := wf.lists he (Edge.touches_of_runs hr)
    rw [listed, hids] at this
    exact ⟨⟨e.id, this, he⟩, hr⟩

/-- The neighbours of a vertex are found, and are the vertices at the other
ends of its edges. -/
theorem WellFormed.adjacent {g : Graph} (wf : g.WellFormed) {id : VertexId} {v : Vertex}
    (h : g.vertices.get? id = some v) (d : Direction) (f : EdgeFilter) :
    ∃ ws, g.adjacent id d f = .ok ws ∧
      ∀ w, w ∈ ws ↔ g.vertices.get? w.id = some w ∧
        ∃ e, g.edges.get? e.id = some e ∧ e.runs id d = true ∧ f.accepts e = true ∧
          e.Joins id w.id := by
  obtain ⟨es, hes, hmem⟩ := wf.edgesOf h d
  -- every edge has both its ends, so no read of a neighbour fails
  have htotal : ∀ x ∈ (es.filter f.accepts).filterMap (·.otherEnd? id),
      ∃ w, g.vertex x = .ok w := by
    intro x hx
    obtain ⟨e, he, hx⟩ := List.mem_filterMap.mp hx
    have he := (hmem e).mp (List.mem_filter.mp he).1
    have := wf.has_end he.1 (Edge.otherEnd?_eq_some.mp hx).symm.touches
    obtain ⟨w, hw⟩ := Option.isSome_iff_exists.mp this
    exact ⟨w, vertex_eq_ok.mpr hw⟩
  obtain ⟨ws, hws⟩ := Outcome.mapM_total htotal
  refine ⟨ws, by simp only [Graph.adjacent, hes]; exact hws, fun w => ?_⟩
  rw [Outcome.mem_mapM hws]
  constructor
  · rintro ⟨x, hx, hw⟩
    obtain ⟨e, he, hx⟩ := List.mem_filterMap.mp hx
    obtain ⟨he, hf⟩ := List.mem_filter.mp he
    have hw := vertex_eq_ok.mp hw
    have hid := wf.vertex_id hw
    rw [hid]
    exact ⟨hw, e, ((hmem e).mp he).1, ((hmem e).mp he).2, hf, Edge.otherEnd?_eq_some.mp hx⟩
  · rintro ⟨hw, e, he, hr, hf, hj⟩
    refine ⟨w.id, List.mem_filterMap.mpr ⟨e, List.mem_filter.mpr ⟨(hmem e).mpr ⟨he, hr⟩, hf⟩,
      Edge.otherEnd?_eq_some.mpr hj⟩, vertex_eq_ok.mpr hw⟩

/-- The neighbours over any edge are the adjacent vertices. -/
theorem WellFormed.neighbours {g : Graph} (wf : g.WellFormed) {id : VertexId} {v : Vertex}
    (h : g.vertices.get? id = some v) :
    ∃ ws, g.adjacent id .both .any = .ok ws ∧
      ∀ w, w ∈ ws ↔ g.vertices.get? w.id = some w ∧ g.Adjacent id w.id := by
  obtain ⟨ws, hws, hmem⟩ := wf.adjacent h .both .any
  refine ⟨ws, hws, fun w => ?_⟩
  rw [hmem]
  constructor
  · rintro ⟨hw, e, he, _, _, hj⟩
    exact ⟨hw, e, he, hj⟩
  · rintro ⟨hw, e, he, hj⟩
    exact ⟨hw, e, he, hj.runs_both, rfl, hj⟩

end Graph

end Inventory
