import Inventory.Proofs.Storage.Loading

/-!
# Storage — a graph saved and loaded again

Saving a graph clears the store, so nothing that was stored before, open edges
included, comes back with it. The edges of a graph end at its vertices, which
are saved first: no edge is refused, and the stored graph can be loaded. What is
loaded lists what was saved, in the form in which the backend keeps it.
-/

namespace Inventory

namespace Table

theorem values_map {α β : Type} (t : Table α) (f : α → β) : (t.map f).values = t.values.map f := by
  simp [values, map]

theorem map_eq_self {α : Type} {t : Table α} {f : α → α} (h : ∀ x ∈ t.values, f x = x) :
    t.map f = t := by
  refine ext fun k => ?_
  rw [get?_map]
  cases hk : t.get? k with
  | none => rfl
  | some x => exact congrArg some (h x (mem_values.mpr ⟨k, hk⟩))

end Table

/-! ## What a backend keeps -/

namespace Backend

/-- Edges between stored vertices are all saved. -/
theorem saveEdges_of_hasEnds {b : Backend} {es : List Edge} {s : Store} (h : s.HasEnds es) :
    b.saveEdges es s = (.ok (), (es.map b.keptEdge).foldl Store.putEdge s) := by
  cases b with
  | memory =>
      have hkept : es.map memory.keptEdge = es := List.map_id es
      rw [hkept, saveEdges_memory_of_hasEnds h]
  | durable => exact saveEdges_durable es s

end Backend

/-! ## Stores of graphs -/

namespace Store

/-- A filed store is rebuilt from what it lists. -/
theorem Filed.rebuilt {s : Store} (hs : s.Filed) :
    s.edges.values.foldl Store.putEdge (s.vertices.values.foldl Store.putVertex {}) = s := by
  rw [foldl_putVertex, foldl_putEdge]
  exact congrArg₂ Store.mk (Graph.foldl_put_values hs.vertex_id)
    (Graph.foldl_put_values hs.edge_id)

end Store

namespace Graph

/-- The store that holds a graph. -/
def storedIn (g : Graph) (b : Backend) : Store :=
  ⟨g.vertices.map b.keptVertex, g.edges.map b.keptEdge⟩

theorem WellFormed.filed_storedIn {g : Graph} (wf : g.WellFormed) (b : Backend) :
    (g.storedIn b).Filed where
  vertex_id {id w} h := by
    obtain ⟨v, hv, rfl⟩ := Option.map_eq_some_iff.mp ((Table.get?_map ..).symm.trans h)
    exact (wf.vertex_id hv : v.id = id)
  edge_id {i f} h := by
    obtain ⟨e, he, rfl⟩ := Option.map_eq_some_iff.mp ((Table.get?_map ..).symm.trans h)
    exact (wf.edge_id he : e.id = i)

theorem storedIn_of_kept {b : Backend} {g : Graph}
    (hkept : ∀ ps ∈ (StoreOperation.saveGraph g).properties, b.kept ps = ps) :
    g.storedIn b = ⟨g.vertices, g.edges⟩ := by
  have hvs : ∀ v ∈ g.vertices.values, b.keptVertex v = v := fun v hv => by
    rw [Backend.keptVertex, hkept _ (List.mem_append_left _ (List.mem_map_of_mem hv))]
  have hes : ∀ e ∈ g.edges.values, b.keptEdge e = e := fun e he => by
    rw [Backend.keptEdge, hkept _ (List.mem_append_right _ (List.mem_map_of_mem he))]
  rw [storedIn, Table.map_eq_self hvs, Table.map_eq_self hes]

theorem readable_of_reads {b : Backend} {g : Graph}
    (hread : ∀ ps ∈ (StoreOperation.saveGraph g).properties, b.reads ps = true) :
    Store.Readable ⟨g.vertices, g.edges⟩ b :=
  Store.readable_iff.mpr
    ⟨fun _ hv => hread _ (List.mem_append_left _ (List.mem_map_of_mem hv)),
      fun _ he => hread _ (List.mem_append_right _ (List.mem_map_of_mem he))⟩

end Graph

namespace Backend

/-- No edge of a graph is refused when the graph is saved, and the store holds
the graph and nothing else. -/
theorem saveGraph_eq (b : Backend) {g : Graph} (wf : g.WellFormed) :
    b.saveGraph g = (.ok (), g.storedIn b) := by
  have hends : (g.vertices.values.foldl b.saveVertex {}).HasEnds g.edges.values :=
    Store.hasEnds_saveVertices wf b
  show b.saveEdges g.edges.values (g.vertices.values.foldl b.saveVertex {}) = _
  rw [saveEdges_of_hasEnds hends, saveVertices_kept, ← Table.values_map, ← Table.values_map]
  exact congrArg (Prod.mk _) (wf.filed_storedIn b).rebuilt

/-- A saved graph can be loaded when it can be read. -/
theorem loadGraph_storedIn {b : Backend} {g : Graph} (wf : g.WellFormed)
    (hread : (g.storedIn b).Readable b) :
    ∃ g', b.loadGraph (g.storedIn b) = .ok g' ∧ g'.vertices = (g.storedIn b).vertices ∧
      g'.edges = (g.storedIn b).edges := by
  have hfiled : (g.storedIn b).Filed := wf.filed_storedIn b
  have hclosed : (g.storedIn b).Closed := by
    have hsaved := Store.closed_saveGraph wf b
    rwa [saveGraph_eq b wf] at hsaved
  obtain ⟨g', hload⟩ := hfiled.loadable_iff.mpr ⟨hclosed, hread⟩
  obtain ⟨hvertices, hedges, -⟩ := hfiled.loadGraph_eq_ok hload
  exact ⟨g', hload, hvertices, hedges⟩

/-- **A graph comes back as it was saved.** Whatever a store holds, each of its
backends saves a graph whose values it reads back as they were, first its vertices and
then every one of its edges; the store then holds the graph alone, and what is
loaded from it lists the same vertices and edges. -/
theorem load_after_save {b : Backend} {g : Graph} (hg : g.Reachable)
    (hback : ∀ ps ∈ (StoreOperation.saveGraph g).properties, b.ReadsBack ps) (s : Store) :
    (∃ g', b.runAll [.saveGraph g, .loadGraph] s =
        ([.ok .done, .ok (.graph g')], ⟨g.vertices, g.edges⟩) ∧ g'.snapshot = g.snapshot) ∧
      b.runAll [.clear, .saveVertices g.snapshot.vertices, .saveEdges g.snapshot.edges] s =
        ([.ok .done, .ok .done, .ok .done], ⟨g.vertices, g.edges⟩) := by
  have wf : g.WellFormed := hg.wellFormed
  have hstored : g.storedIn b = ⟨g.vertices, g.edges⟩ :=
    Graph.storedIn_of_kept fun ps hps => (hback ps hps).2
  have hread : (g.storedIn b).Readable b :=
    hstored ▸ Graph.readable_of_reads fun ps hps => (hback ps hps).1
  have hsave : b.saveGraph g = (.ok (), ⟨g.vertices, g.edges⟩) := hstored ▸ saveGraph_eq b wf
  obtain ⟨g', hload, hvertices, hedges⟩ := loadGraph_storedIn wf hread
  rw [hstored] at hload hvertices hedges
  refine ⟨⟨g', ?_, by rw [Graph.snapshot, hvertices, hedges, Graph.snapshot]⟩, ?_⟩
  · simp only [runAll, run, hsave, hload]
    rfl
  · have hbatch : b.saveEdges g.snapshot.edges (g.snapshot.vertices.foldl b.saveVertex {}) =
        (.ok (), ⟨g.vertices, g.edges⟩) := hsave
    simp only [runAll, run, hbatch]
    rfl

/-- A machine whose disk was first joined the other way round, under the same id. -/
def rejoined : Graph :=
  (Graph.ofParts [webServer, disk] [{ mount with outId := "b", inId := "a" }, mount]).toOption.getD
    .empty

/-- It replaces a vertex and an edge that ends nowhere. -/
theorem load_after_save_rejoined :
    rejoined.Reachable ∧ rejoined.edges.values = [mount] ∧
      (∀ ps ∈ (StoreOperation.saveGraph rejoined).properties, durable.ReadsBack ps) ∧
      ¬ (durable.runAll dangling {}).2.Closed ∧
      (∃ g', durable.runAll [.saveGraph rejoined, .loadGraph] (durable.runAll dangling {}).2 =
          ([.ok .done, .ok (.graph g')], ⟨rejoined.vertices, rejoined.edges⟩) ∧
        g'.snapshot = rejoined.snapshot) := by
  have hbuilt : rejoined.Reachable :=
    Graph.reachable_ofParts (show Graph.ofParts [webServer, disk]
      [{ mount with outId := "b", inId := "a" }, mount] = .ok rejoined from rfl)
  have hback : ∀ ps ∈ (StoreOperation.saveGraph rejoined).properties, durable.ReadsBack ps := by
    decide
  have hopen : ¬ (durable.runAll dangling {}).2.Closed := fun hclosed => by
    have hends := hclosed "e" mount rfl
    exact absurd hends (by decide)
  exact ⟨hbuilt, rfl, hback, hopen, (load_after_save hbuilt hback _).1⟩

end Backend

end Inventory
