import Mathlib.Data.List.Nodup
import Mathlib.Data.List.Perm.Basic
import Inventory.Graph.Snapshot
import Inventory.Proofs.Graph.Reachable
import Inventory.Proofs.Graph.Reordered

/-!
# Graph — reading a graph back

A graph that is rebuilt from its snapshot has the same vertices and edges. When
no edge id was used again while it was taken, every list names exactly the
edges at its vertex, each once, so the rebuilt lists hold the same ids by
rising id: the two graphs differ in the order of their listings only.
-/

namespace Inventory

namespace Graph

/-! ## Histories without a repeated edge id -/

/-- The graphs that additions and removals build from nothing when no edge is
added under an id that is taken. -/
inductive BuiltOnce : Graph → Prop where
  | empty : BuiltOnce .empty
  | addVertex {g : Graph} (v : Vertex) : BuiltOnce g → BuiltOnce (g.addVertex v)
  | addEdge {g g' : Graph} {e : Edge} : BuiltOnce g → g.edges.get? e.id = none →
      g.addEdge e = .ok g' → BuiltOnce g'
  | removeVertex {g g' : Graph} {id : VertexId} {v : Vertex} :
      BuiltOnce g → g.removeVertex id = .ok (v, g') → BuiltOnce g'

theorem BuiltOnce.reachable {g : Graph} (h : BuiltOnce g) : g.Reachable := by
  induction h with
  | empty => exact .empty
  | addVertex v _ ih => exact ih.addVertex v
  | addEdge _ _ h ih => exact ih.addEdge h
  | removeVertex _ h ih => exact ih.removeVertex h

/-! ## Exact lists -/

/-- Every list names edges at its vertex only, each once. -/
structure Exact (g : Graph) : Prop where
  once : ∀ x, (g.listed x).Nodup
  stored : ∀ {x i}, i ∈ g.listed x → ∃ e, g.edges.get? i = some e ∧ e.touches x = true

theorem listed_empty (x : VertexId) : Graph.empty.listed x = [] := rfl

theorem exact_empty : Exact .empty where
  once x := by simp [listed_empty]
  stored h := by simp [listed_empty] at h

theorem Exact.addVertex {g : Graph} (h : g.Exact) (v : Vertex) : (g.addVertex v).Exact where
  once x := by
    rw [listed_addVertex]
    exact h.once x
  stored {x i} hi := by
    rw [listed_addVertex] at hi
    exact h.stored hi

theorem Exact.addEdge {g g' : Graph} {e : Edge} (h : g.Exact) (hfree : g.edges.get? e.id = none)
    (hadd : g.addEdge e = .ok g') : g'.Exact := by
  obtain ⟨-, -, hedges, hlisted⟩ := addEdge_eq_ok hadd
  have hnew : ∀ x, e.id ∉ g.listed x := by
    intro x hx
    obtain ⟨e', he', -⟩ := h.stored hx
    rw [hfree] at he'
    cases he'
  refine ⟨fun x => ?_, fun {x i} hi => ?_⟩
  · rw [(hlisted x).1]
    cases e.touches x
    · simpa using h.once x
    · simp only [if_true]
      refine List.nodup_append.mpr ⟨h.once x, List.nodup_singleton _, ?_⟩
      intro i hi j hj hij
      rw [List.mem_singleton.mp hj] at hij
      exact hnew x (hij ▸ hi)
  · rw [hedges, Table.get?_put]
    rw [(hlisted x).1, List.mem_append] at hi
    rcases hi with hi | hi
    · obtain ⟨e', he', ht⟩ := h.stored hi
      have hne : i ≠ e.id := fun hid => hnew x (hid ▸ hi)
      rw [if_neg hne]
      exact ⟨e', he', ht⟩
    · cases ht : e.touches x with
      | false => simp [ht] at hi
      | true =>
          rw [ht, if_pos rfl, List.mem_singleton] at hi
          rw [if_pos hi]
          exact ⟨e, rfl, ht⟩

/-! ### Removals -/

theorem listed_dropEdge_sublist (id : VertexId) (g : Graph) (i : EdgeId) (x : VertexId) :
    ((dropEdge id g i).listed x).Sublist (g.listed x) := by
  unfold dropEdge
  split
  · exact .refl _
  · dsimp only
    split
    · exact .refl _
    · next other _ =>
        split
        · exact .refl _
        · next ids hids =>
            unfold listed
            rw [Table.get?_put]
            split
            · next hx =>
                rw [hx, hids]
                exact List.filter_sublist
            · exact .refl _

/-- Dropping an edge takes its id from the list of its other end. -/
theorem not_mem_listed_dropEdge {id x : VertexId} {g : Graph} {i : EdgeId} {e : Edge}
    (he : g.edges.get? i = some e) (hj : e.Joins id x) : i ∉ (dropEdge id g i).listed x := by
  have hother : e.otherEnd? id = some x := Edge.otherEnd?_eq_some.mpr hj
  unfold dropEdge listed
  cases hx : g.incident.get? x with
  | none => simp [he, hother, hx]
  | some ids => simp [he, hother, hx]

theorem foldl_dropEdge_listed (id : VertexId) (ids : List EdgeId) (g : Graph) (x : VertexId) :
    ((ids.foldl (dropEdge id) g).listed x).Sublist (g.listed x) ∧
      ∀ i ∈ ids, ∀ {e}, g.edges.get? i = some e → e.Joins id x →
        i ∉ (ids.foldl (dropEdge id) g).listed x := by
  induction ids generalizing g with
  | nil => exact ⟨.refl _, by simp⟩
  | cons i ids ih =>
      obtain ⟨hsub, hgone⟩ := ih (dropEdge id g i)
      rw [List.foldl_cons]
      refine ⟨hsub.trans (listed_dropEdge_sublist id g i x), fun i' hi' e he hj => ?_⟩
      by_cases hid : i' = i
      · rw [hid] at he ⊢
        exact fun h => not_mem_listed_dropEdge he hj (hsub.subset h)
      · have he' : (dropEdge id g i).edges.get? i' = some e := by
          rw [(lacks_dropEdge id g i).edges, if_neg (by simpa using hid), he]
        exact hgone i' (List.mem_of_ne_of_mem hid hi') he' hj

/-- The graph without a vertex and its list; other lists still name its edges. -/
def withoutVertex (g : Graph) (id : VertexId) : Graph :=
  { g with vertices := g.vertices.erase id, incident := g.incident.erase id }

theorem listed_withoutVertex (g : Graph) (id x : VertexId) :
    (g.withoutVertex id).listed x = if x = id then [] else g.listed x := by
  unfold withoutVertex listed
  rw [Table.get?_erase]
  split <;> rfl

theorem eq_of_removeVertex {g g' : Graph} {id : VertexId} {v : Vertex}
    (h : g.removeVertex id = .ok (v, g')) :
    g' = (g.listed id).foldl (dropEdge id) (g.withoutVertex id) := by
  unfold Graph.removeVertex at h
  split at h
  · cases h
  · cases h
    rfl

/-- A removal only takes ids from the lists. -/
theorem listed_removeVertex_sublist {g g' : Graph} {id : VertexId} {v : Vertex}
    (h : g.removeVertex id = .ok (v, g')) (x : VertexId) :
    (g'.listed x).Sublist (if x = id then [] else g.listed x) := by
  rw [eq_of_removeVertex h, ← listed_withoutVertex]
  exact (foldl_dropEdge_listed id _ _ x).1

theorem Exact.removeVertex {g g' : Graph} {id : VertexId} {v : Vertex} (h : g.Exact)
    (hremove : g.removeVertex id = .ok (v, g')) : g'.Exact := by
  obtain ⟨-, -, hedges, -, -⟩ := removeVertex_eq_ok hremove
  refine ⟨fun x => ?_, fun {x i} hi => ?_⟩
  · refine List.Nodup.sublist (listed_removeVertex_sublist hremove x) ?_
    split
    · exact List.nodup_nil
    · exact h.once x
  · have hmem := (listed_removeVertex_sublist hremove x).subset hi
    split at hmem
    · cases hmem
    · next hx =>
        obtain ⟨e, he, ht⟩ := h.stored hmem
        -- an edge at both vertices was taken from the list that stays
        have hstays : i ∉ g.listed id := by
          intro hid
          obtain ⟨e', he', ht'⟩ := h.stored hid
          obtain rfl : e = e' := Option.some.inj (he.symm.trans he')
          have hj : e.Joins id x := by
            rcases Edge.touches_iff.mp ht with h | h <;>
              rcases Edge.touches_iff.mp ht' with h' | h'
            · exact absurd (h.symm.trans h') hx
            · exact .inr ⟨h, h'⟩
            · exact .inl ⟨h', h⟩
            · exact absurd (h.symm.trans h') hx
          rw [eq_of_removeVertex hremove] at hi
          exact (foldl_dropEdge_listed id _ (g.withoutVertex id) x).2 i hid he hj hi
        rw [hedges, if_neg hstays]
        exact ⟨e, he, ht⟩

theorem BuiltOnce.exact {g : Graph} (h : BuiltOnce g) : g.Exact := by
  induction h with
  | empty => exact exact_empty
  | addVertex v _ ih => exact ih.addVertex v
  | addEdge _ hfree h ih => exact ih.addEdge hfree h
  | removeVertex _ h ih => exact ih.removeVertex h

/-! ## Rebuilding -/

theorem foldl_put_values {α : Type} {key : α → String} {t : Table α}
    (hkey : ∀ {k x}, t.get? k = some x → key x = k) :
    t.values.foldl (fun t x => t.put (key x) x) ∅ = t := by
  have hentries : t.values.map (fun x => (key x, x)) = t.entries := by
    unfold Table.values
    rw [List.map_map]
    refine (List.map_congr_left fun e he => ?_).trans (List.map_id _)
    exact Prod.ext (hkey (Table.get?_eq_some_iff.mpr he)) rfl
  calc t.values.foldl (fun t x => t.put (key x) x) ∅
      = Table.ofList (t.values.map fun x => (key x, x)) := by
        rw [Table.ofList, Table.putAll, List.foldl_map]
        rfl
    _ = t := by rw [hentries, Table.ofList_entries]

theorem foldl_addVertex (vs : List Vertex) (g : Graph) :
    (vs.foldl addVertex g).vertices = vs.foldl (fun t v => t.put v.id v) g.vertices ∧
      (vs.foldl addVertex g).edges = g.edges ∧
      ∀ x, (vs.foldl addVertex g).listed x = g.listed x := by
  induction vs generalizing g with
  | nil => exact ⟨rfl, rfl, fun _ => rfl⟩
  | cons v vs ih =>
      obtain ⟨hvertices, hedges, hlisted⟩ := ih (g.addVertex v)
      exact ⟨hvertices, hedges, fun x => (hlisted x).trans (listed_addVertex g v x)⟩

theorem builtOnce_ofParts {vs : List Vertex} {es : List Edge} {g : Graph}
    (hids : (es.map (·.id)).Nodup) (h : ofParts vs es = .ok g) : BuiltOnce g := by
  have hvs : ∀ {g₀ : Graph}, BuiltOnce g₀ → BuiltOnce (vs.foldl Graph.addVertex g₀) := by
    clear h
    induction vs with
    | nil => exact fun h => h
    | cons v vs ih => exact fun h => ih (h.addVertex v)
  have hes : ∀ {g₀ : Graph}, BuiltOnce g₀ → (∀ e ∈ es, g₀.edges.get? e.id = none) →
      es.foldlM Graph.addEdge g₀ = .ok g → BuiltOnce g := by
    clear h
    induction es with
    | nil => intro g₀ h₀ _ h; cases h; exact h₀
    | cons e es ih =>
        intro g₀ h₀ hfree h
        obtain ⟨he, hrest⟩ := List.forall_mem_cons.mp hfree
        rw [List.map_cons, List.nodup_cons] at hids
        obtain ⟨g₁, h₁, h⟩ := Outcome.foldlM_cons_eq_ok.mp h
        refine ih hids.2 (h₀.addEdge he h₁) (fun e' he' => ?_) h
        have hne : e'.id ≠ e.id := fun hid => hids.1 (hid ▸ List.mem_map_of_mem he')
        rw [(addEdge_eq_ok h₁).2.2.1, Table.get?_put, if_neg hne]
        exact hrest e' he'
  refine hes (hvs .empty) (fun e _ => ?_) h
  rw [(foldl_addVertex vs Graph.empty).2.1]
  rfl

theorem addEdge_total {g : Graph} {e : Edge}
    (h : ∀ {x}, e.touches x = true → g.contains x = true) : ∃ g', g.addEdge e = .ok g' := by
  have hout := h (Edge.touches_iff.mpr (.inl rfl))
  have hin := h (Edge.touches_iff.mpr (.inr rfl))
  exact ⟨_, by simp only [Graph.addEdge, hout, hin]; rfl⟩

/-- Edges whose ends are there are all added, each at the end of the lists of its ends. -/
theorem foldlM_addEdge {es : List Edge} {g : Graph}
    (h : ∀ e ∈ es, ∀ {x}, e.touches x = true → g.contains x = true) :
    ∃ g', es.foldlM addEdge g = .ok g' ∧ g'.vertices = g.vertices ∧
      g'.edges = es.foldl (fun t e => t.put e.id e) g.edges ∧
      ∀ x, g'.listed x = g.listed x ++ (es.filter (·.touches x)).map (·.id) := by
  induction es generalizing g with
  | nil => exact ⟨g, rfl, rfl, rfl, fun x => by simp⟩
  | cons e es ih =>
      obtain ⟨he, hes⟩ := List.forall_mem_cons.mp h
      obtain ⟨g₁, hadd⟩ := addEdge_total he
      obtain ⟨-, hvertices₁, hedges₁, hlisted₁⟩ := addEdge_eq_ok hadd
      have hends : ∀ e ∈ es, ∀ {x}, e.touches x = true → g₁.contains x = true := by
        intro e' he' x ht
        rw [contains, hvertices₁]
        exact hes e' he' ht
      obtain ⟨g', hg', hvertices, hedges, hlisted⟩ := ih hends
      refine ⟨g', Outcome.foldlM_cons_eq_ok.mpr ⟨g₁, hadd, hg'⟩, hvertices.trans hvertices₁, ?_,
        fun x => ?_⟩
      · rw [hedges, hedges₁]
        rfl
      · rw [hlisted, (hlisted₁ x).1, List.append_assoc]
        cases ht : e.touches x <;> simp [ht]

/-- Edges are added only between vertices that are there; one takes the place of
an earlier one of its id. -/
theorem foldlM_addEdge_eq_ok {es : List Edge} {g g' : Graph} (h : es.foldlM addEdge g = .ok g') :
    g'.vertices = g.vertices ∧ g'.edges = es.foldl (fun t e => t.put e.id e) g.edges ∧
      ∀ e ∈ es, g.contains e.outId = true ∧ g.contains e.inId = true := by
  induction es generalizing g with
  | nil =>
      cases h
      exact ⟨rfl, rfl, by simp⟩
  | cons e es ih =>
      obtain ⟨g₁, h₁, h⟩ := Outcome.foldlM_cons_eq_ok.mp h
      obtain ⟨hends₁, hvertices₁, hedges₁, -⟩ := addEdge_eq_ok h₁
      obtain ⟨hvertices, hedges, hends⟩ := ih h
      refine ⟨hvertices.trans hvertices₁, by rw [hedges, hedges₁]; rfl, ?_⟩
      refine List.forall_mem_cons.mpr ⟨hends₁, fun e' he' => ?_⟩
      rw [contains, contains, ← hvertices₁]
      exact hends e' he'

/-- What is built from parts are the parts, the last one of each id. -/
theorem ofParts_eq_ok {vs : List Vertex} {es : List Edge} {g : Graph}
    (h : ofParts vs es = .ok g) :
    g.vertices = vs.foldl (fun t v => t.put v.id v) ∅ ∧
      g.edges = es.foldl (fun t e => t.put e.id e) ∅ := by
  obtain ⟨hvertices, hedges, -⟩ := foldlM_addEdge_eq_ok h
  obtain ⟨hvertices₀, hedges₀, -⟩ := foldl_addVertex vs Graph.empty
  exact ⟨hvertices.trans hvertices₀, hedges.trans (by rw [hedges₀]; rfl)⟩

/-- No key of a value is repeated in a table whose values stand under their keys. -/
theorem nodup_map_values {α : Type} {key : α → String} {t : Table α}
    (hkey : ∀ {k x}, t.get? k = some x → key x = k) : (t.values.map key).Nodup := by
  have hkeys : t.values.map key = t.keys := by
    unfold Table.values
    rw [List.map_map]
    exact List.map_congr_left fun e he => hkey (Table.get?_eq_some_iff.mpr he)
  rw [hkeys]
  exact t.nodup_keys

/-- Tables whose values stand under their ids make up a graph when both ends of
every edge are among the vertices; its lists are by rising id. -/
theorem ofParts_values {vs : Table Vertex} {es : Table Edge}
    (hvs : ∀ {id v}, vs.get? id = some v → v.id = id)
    (hes : ∀ {i e}, es.get? i = some e → e.id = i)
    (hends : ∀ {i e}, es.get? i = some e → ∀ {x}, e.touches x = true → vs.contains x = true) :
    ∃ g, ofParts vs.values es.values = .ok g ∧ g.vertices = vs ∧ g.edges = es ∧
      ∀ x, g.listed x = (es.values.filter (·.touches x)).map (·.id) := by
  obtain ⟨hvertices₀, hedges₀, hlisted₀⟩ := foldl_addVertex vs.values Graph.empty
  have hfound : ∀ e ∈ es.values, ∀ {x}, e.touches x = true →
      (vs.values.foldl Graph.addVertex Graph.empty).contains x = true := by
    intro e he x ht
    obtain ⟨i, hi⟩ := Table.mem_values.mp he
    rw [contains, hvertices₀]
    exact (congrArg (·.contains x) (foldl_put_values hvs)).trans (hends hi ht)
  obtain ⟨g, hg, hvertices, hedges, hlisted⟩ := foldlM_addEdge hfound
  refine ⟨g, hg, ?_, ?_, fun x => ?_⟩
  · rw [hvertices, hvertices₀]
    exact foldl_put_values hvs
  · rw [hedges, hedges₀]
    exact foldl_put_values hes
  · rw [hlisted, hlisted₀]
    rfl

/-- The ids of the edges at a vertex, by rising id. -/
def rising (g : Graph) (x : VertexId) : List EdgeId :=
  (g.edges.values.filter (·.touches x)).map (·.id)

/-- A graph is rebuilt from its snapshot with its vertices and edges, and its
lists by rising id. -/
theorem WellFormed.ofSnapshot {g : Graph} (wf : g.WellFormed) :
    ∃ g', ofSnapshot g.snapshot = .ok g' ∧ g'.vertices = g.vertices ∧ g'.edges = g.edges ∧
      ∀ x, g'.listed x = g.rising x :=
  ofParts_values wf.vertex_id wf.edge_id fun hi _ ht => wf.has_end hi ht

/-- In a graph that was built without repeating an edge id the list of a vertex
names the edges at it. -/
theorem BuiltOnce.mem_listed {g : Graph} (h : BuiltOnce g) {x : VertexId} {i : EdgeId} :
    i ∈ g.listed x ↔ ∃ e, g.edges.get? i = some e ∧ e.touches x = true :=
  ⟨h.exact.stored, fun ⟨_, he, ht⟩ => h.reachable.wellFormed.lists he ht⟩

/-- Two graphs with the same vertices and edges that were built without
repeating an edge id, in whatever order, differ only in their listings. -/
theorem BuiltOnce.reordered_of_eq {g g' : Graph} (h : BuiltOnce g) (h' : BuiltOnce g')
    (hvertices : g.vertices = g'.vertices) (hedges : g.edges = g'.edges) : Reordered g g' := by
  refine ⟨hvertices, hedges, fun x => ?_⟩
  have hperm : (g.listed x).Perm (g'.listed x) := by
    refine (List.perm_ext_iff_of_nodup (h.exact.once x) (h'.exact.once x)).mpr fun i => ?_
    rw [h.mem_listed, h'.mem_listed, hedges]
  have hhas : (g.incident.get? x).isSome = (g'.incident.get? x).isSome := by
    rw [h.reachable.wellFormed.has_list, h'.reachable.wellFormed.has_list, hvertices]
  unfold listed at hperm
  generalize g.incident.get? x = ids at hhas hperm ⊢
  generalize g'.incident.get? x = ids' at hhas hperm ⊢
  cases ids <;> cases ids' <;> simp at hhas
  · exact .none
  · exact .some hperm

/-- **Reading a graph back.** A graph built without repeating an edge id is
rebuilt from its snapshot up to the order of its lists. -/
theorem BuiltOnce.reordered {g : Graph} (h : BuiltOnce g) :
    ∃ g', Graph.ofSnapshot g.snapshot = .ok g' ∧ Reordered g g' := by
  have wf := h.reachable.wellFormed
  obtain ⟨g', hg', hvertices, hedges, -⟩ := wf.ofSnapshot
  have hbuilt : BuiltOnce g' := builtOnce_ofParts (nodup_map_values wf.edge_id) hg'
  exact ⟨g', hg', h.reordered_of_eq hbuilt hvertices.symm hedges.symm⟩

end Graph

end Inventory
