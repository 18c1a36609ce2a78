import Inventory.Proofs.Storage.Loading

/-!
# Storage — operations that are refused

A refused operation leaves the store as it was, with one exception: a batch of
edges is saved in memory edge by edge up to the first one that ends nowhere, and
the edges before that one stay. So a refused batch changes nothing there exactly
when what it leaves of these edges was stored already.
-/

namespace Inventory

/-! ## What a store lists -/

namespace Store

/-- Asked for all vertices and for all edges, the stores answer alike. -/
def ListsAlike (b : Backend) (s s' : Store) : Prop :=
  (b.run s' .allVertices).1 = (b.run s .allVertices).1 ∧
    (b.run s' .allEdges).1 = (b.run s .allEdges).1

/-- What a store in memory lists is all it holds. -/
theorem Filed.listsAlike_memory_iff {s s' : Store} (hs : s.Filed) (hs' : s'.Filed) :
    ListsAlike .memory s s' ↔ s' = s := by
  have hlists : ∀ s : Store, (Backend.memory.run s .allVertices).1 =
      .ok (.vertices s.vertices.values) ∧
      (Backend.memory.run s .allEdges).1 = .ok (.edges s.edges.values) := by
    intro s
    rw [Backend.run, Backend.run, s.readable_memory.vertices_eq, s.readable_memory.edges_eq]
    exact ⟨rfl, rfl⟩
  constructor
  · rintro ⟨hvertices, hedges⟩
    rw [(hlists s).1, (hlists s').1] at hvertices
    rw [(hlists s).2, (hlists s').2] at hedges
    have hvs : s'.vertices.values = s.vertices.values := by simpa using hvertices
    have hes : s'.edges.values = s.edges.values := by simpa using hedges
    calc s' = ⟨s'.vertices, s'.edges⟩ := rfl
      _ = s := by
        rw [Table.eq_of_values_eq hs'.vertex_id hs.vertex_id hvs,
          Table.eq_of_values_eq hs'.edge_id hs.edge_id hes]
  · rintro rfl
    exact ⟨rfl, rfl⟩

/-! ## The part of a batch that is saved -/

/-- The edges of a batch before the first one that ends nowhere. -/
def anchoredUntil (s : Store) (es : List Edge) : List Edge :=
  es.takeWhile fun e => (s.missingEnd? e).isNone

theorem anchoredUntil_cons_of_anchored {s : Store} {e : Edge} (h : s.missingEnd? e = none)
    (es : List Edge) : s.anchoredUntil (e :: es) = e :: s.anchoredUntil es :=
  List.takeWhile_cons_of_pos (by simp [h])

theorem anchoredUntil_cons_of_missing {s : Store} {e : Edge} {id : VertexId}
    (h : s.missingEnd? e = some id) (es : List Edge) : s.anchoredUntil (e :: es) = [] :=
  List.takeWhile_cons_of_neg (by simp [h])

/-- Putting edges changes nothing exactly when the lasting ones are stored as they are. -/
theorem putEdges_eq_self_iff {s : Store} {es : List Edge} :
    es.foldl putEdge s = s ↔ ∀ e ∈ lasting Edge.id es, s.edges.get? e.id = some e := by
  constructor
  · intro h e he
    have hput : (es.foldl putEdge s).edges.get? e.id = some e :=
      edges_putEdges.mpr (.inl ⟨he, rfl⟩)
    rwa [h] at hput
  · intro h
    have hedges : (es.foldl putEdge s).edges = s.edges := by
      refine Table.ext fun i => Option.ext fun e' => edges_putEdges.trans ⟨?_, fun hi => ?_⟩
      · rintro (⟨he', rfl⟩ | ⟨-, hi⟩)
        · exact h e' he'
        · exact hi
      · by_cases hmem : ∃ e ∈ es, e.id = i
        · obtain ⟨e, he, rfl⟩ := hmem
          obtain ⟨f, hf, hid⟩ := exists_lasting Edge.id he
          -- the lasting edge of the id is the one that is stored
          obtain rfl : e' = f := Option.some.inj (hi.symm.trans (hid ▸ h f hf))
          exact .inl ⟨hf, hid⟩
        · exact .inr ⟨fun e he hid => hmem ⟨e, he, hid⟩, hi⟩
    calc es.foldl putEdge s
        = ⟨(es.foldl putEdge s).vertices, (es.foldl putEdge s).edges⟩ := rfl
      _ = s := by rw [hedges, foldl_putEdge]

end Store

/-- Of the edges before the first one that ends nowhere, the batch leaves behind
only such as are stored already. -/
def StoreOperation.Repeats (s : Store) : StoreOperation → Prop
  | .saveEdges es => ∀ e ∈ lasting Edge.id (s.anchoredUntil es), s.edges.get? e.id = some e
  | _ => True

namespace Backend

open Store

/-- In memory a batch of edges is saved up to the first one that ends nowhere. -/
theorem saveEdges_memory (es : List Edge) (s : Store) :
    (memory.saveEdges es s).2 = (s.anchoredUntil es).foldl putEdge s := by
  show (memory.saveEdgesUntil es s).2 = _
  induction es generalizing s with
  | nil => rfl
  | cons e es ih =>
      cases he : s.missingEnd? e with
      | some id =>
          rw [saveEdgesUntil, memory.saveEdge_of_missing he, anchoredUntil_cons_of_missing he]
          rfl
      | none =>
          rw [saveEdgesUntil, memory.saveEdge_of_anchored he, anchoredUntil_cons_of_anchored he]
          exact ih (s.putEdge e)

/-- A graph is never refused. -/
theorem saveGraph_ok (b : Backend) {g : Graph} (hg : g.Reachable) : (b.saveGraph g).1 = .ok () := by
  cases b with
  | memory =>
      exact congrArg Prod.fst
        (saveEdges_memory_of_hasEnds (hasEnds_saveVertices hg.wellFormed memory))
  | durable => rfl

/-- A refused operation has changed nothing, except perhaps a batch of edges in memory. -/
theorem run_refused {b : Backend} {s : Store} {op : StoreOperation} {f : StoreError}
    (hbuilt : ∀ g, op = .saveGraph g → g.Reachable) (h : (b.run s op).1 = .error f) :
    (b.run s op).2 = s ↔ (b = .memory → op.Repeats s) := by
  cases op with
  | saveEdges es =>
      cases b with
      | memory =>
          show (memory.saveEdges es s).2 = s ↔ _
          rw [saveEdges_memory, putEdges_eq_self_iff]
          exact ⟨fun h _ => h, fun h => h rfl⟩
      | durable => cases h
  | deleteVertex id =>
      refine iff_of_true ?_ fun _ => trivial
      show (b.deleteVertex id s).2 = s
      have hrefused : ((b.deleteVertex id s).1.map fun _ => StoreAnswer.done) = .error f := h
      rcases b.deleteVertex_cases id s with hdelete | ⟨f', hdelete⟩
      · rw [hdelete] at hrefused
        cases hrefused
      · rw [hdelete]
  | saveEdge e =>
      refine iff_of_true ?_ fun _ => trivial
      rw [run] at h ⊢
      split at h
      · cases h
      · rfl
  | deleteVertices ids =>
      refine iff_of_true ?_ fun _ => trivial
      show (b.deleteVertices ids s).2 = s
      have hrefused : ((b.deleteVertices ids s).1.map fun _ => StoreAnswer.done) = .error f := h
      rcases b.deleteVertices_cases ids s with hdelete | ⟨f', hdelete⟩
      · rw [hdelete] at hrefused
        cases hrefused
      · rw [hdelete]
  | saveGraph g =>
      have hok : ((b.saveGraph g).1.map fun _ => StoreAnswer.done) = .error f := h
      rw [saveGraph_ok b (hbuilt g rfl)] at hok
      cases hok
  | getVertex _ | allVertices | edgesFor _ | allEdges | loadGraph =>
      exact iff_of_true rfl fun _ => trivial
  | saveVertex _ | deleteEdge _ | clear | saveVertices _ => cases h

/-- **What a refused operation leaves.** Whatever was done to a store before, a
refused operation leaves all vertices and all edges listed as they were: on the
durable backend always, and in memory exactly when it is not a batch that leaves
behind an edge which was not stored before. -/
theorem refused_listsAlike_iff {b : Backend} {ops : List StoreOperation} {op : StoreOperation}
    {f : StoreError} (hbuilt : ∀ g, op = .saveGraph g → g.Reachable)
    (h : (b.run (b.runAll ops {}).2 op).1 = .error f) :
    ListsAlike b (b.runAll ops {}).2 (b.run (b.runAll ops {}).2 op).2 ↔
      (b = .memory → op.Repeats (b.runAll ops {}).2) := by
  have hfiled : (b.runAll ops {}).2.Filed := filed_runAll filed_empty b ops
  have hsame := run_refused hbuilt h
  cases b with
  | memory =>
      rw [hfiled.listsAlike_memory_iff (filed_run hfiled memory op)]
      exact hsame
  | durable =>
      -- nothing has changed, so what can be listed and what cannot is the same
      refine iff_of_true ?_ nofun
      rw [hsame.mpr nofun]
      exact ⟨rfl, rfl⟩

/-! ### A batch with an edge that ends nowhere -/

/-- An edge to a vertex that is not stored. -/
def stray : Edge := ⟨"f", "a", "c", "has", ∅⟩

/-- A server and its disk, joined. -/
def joined : List StoreOperation := [.saveVertices [webServer, disk], .saveEdges [mount]]

/-- A batch that repeats a stored edge before the stray one changes nothing. -/
theorem refused_listsAlike_joined :
    (memory.run (memory.runAll joined {}).2 (.saveEdges [mount, stray])).1 =
        .error (.vertexNotFound "c") ∧
      (StoreOperation.saveEdges [mount, stray]).Repeats (memory.runAll joined {}).2 ∧
      ListsAlike memory (memory.runAll joined {}).2
        (memory.run (memory.runAll joined {}).2 (.saveEdges [mount, stray])).2 := by
  have hrefused : (memory.run (memory.runAll joined {}).2 (.saveEdges [mount, stray])).1 =
      .error (.vertexNotFound "c") := by rfl
  have hrepeats : (StoreOperation.saveEdges [mount, stray]).Repeats
      (memory.runAll joined {}).2 := by
    unfold StoreOperation.Repeats
    decide
  exact ⟨hrefused, hrepeats,
    (refused_listsAlike_iff (by simp) hrefused).mpr fun _ => hrepeats⟩

/-- Two vertices that no edge joins yet. -/
def apart : List StoreOperation := [.saveVertices [webServer, disk]]

/-- Durably a delete is refused when some edge cannot be read, and the vertex stays. -/
example :
    (durable.runAll (apart ++ [.saveEdge { mount with properties := unmeasured.properties },
      .deleteVertex "b", .getVertex "b"]) {}).1 =
      [.ok .done, .ok .done, .error .unreadable, .ok (.vertex (some disk))] := by
  decide +kernel

/-- In memory a batch is refused for its second edge, and its first one stays. -/
theorem not_listsAlike_apart :
    (memory.run (memory.runAll apart {}).2 (.saveEdges [mount, stray])).1 =
        .error (.vertexNotFound "c") ∧
      (memory.run (memory.runAll apart {}).2 .allEdges).1 = .ok (.edges []) ∧
      (memory.run (memory.run (memory.runAll apart {}).2 (.saveEdges [mount, stray])).2
        .allEdges).1 = .ok (.edges [mount]) ∧
      ¬ ListsAlike memory (memory.runAll apart {}).2
        (memory.run (memory.runAll apart {}).2 (.saveEdges [mount, stray])).2 := by
  have hbefore : (memory.run (memory.runAll apart {}).2 .allEdges).1 = .ok (.edges []) := by rfl
  have hafter : (memory.run (memory.run (memory.runAll apart {}).2
      (.saveEdges [mount, stray])).2 .allEdges).1 = .ok (.edges [mount]) := by rfl
  refine ⟨by rfl, hbefore, hafter, fun hlists => ?_⟩
  have hsame := hlists.2
  rw [hbefore, hafter] at hsame
  cases hsame

end Backend

end Inventory
