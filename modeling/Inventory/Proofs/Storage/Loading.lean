import Inventory.Proofs.Storage.Backends

/-!
# Storage — stores that can be loaded

A stored graph can be loaded exactly when its store is closed, that is, both ends
of every stored edge are stored, and every entry can be read. One operation may
open a closed store, the saving of a batch of edges on the durable backend, and it
does so exactly when the batch leaves an edge behind that ends nowhere. An edge
that a later edge of the batch replaces is not left behind. And every operation
that saves on the durable backend may leave an entry that cannot be read.
-/

namespace Inventory

/-- A table whose values stand under their keys is determined by its values. -/
theorem Table.eq_of_values_eq {α : Type} {key : α → String} {t t' : Table α}
    (ht : ∀ {k x}, t.get? k = some x → key x = k)
    (ht' : ∀ {k x}, t'.get? k = some x → key x = k) (h : t.values = t'.values) : t = t' := by
  rw [← Graph.foldl_put_values ht, h, Graph.foldl_put_values ht']

/-! ## Closed stores -/

namespace Store

/-- Both ends of every stored edge are stored. -/
def Closed (s : Store) : Prop := ∀ i e, s.edges.get? i = some e → s.missingEnd? e = none

/-- Vertices and edges stand under their own ids. -/
structure Filed (s : Store) : Prop where
  vertex_id : ∀ {id v}, s.vertices.get? id = some v → v.id = id
  edge_id : ∀ {i e}, s.edges.get? i = some e → e.id = i

theorem closed_empty : Closed {} := by
  intro i e h
  cases h

theorem filed_empty : Filed {} where
  vertex_id h := by cases h
  edge_id h := by cases h

theorem missingEnd?_eq_none_iff {s : Store} {e : Edge} :
    s.missingEnd? e = none ↔ ∀ {x}, e.touches x = true → s.vertices.contains x = true := by
  rw [missingEnd?_eq_none]
  constructor
  · rintro ⟨hout, hin⟩ x ht
    rcases Edge.touches_iff.mp ht with rfl | rfl
    · exact hout
    · exact hin
  · intro h
    exact ⟨h (Edge.touches_iff.mpr (.inl rfl)), h (Edge.touches_iff.mpr (.inr rfl))⟩

/-- Where both ends stay stored, none goes missing. -/
theorem missingEnd?_mono {s s' : Store} {e : Edge} (h : s.missingEnd? e = none)
    (hs : ∀ {x}, e.touches x = true → s.vertices.contains x = true →
      s'.vertices.contains x = true) : s'.missingEnd? e = none := by
  rw [missingEnd?_eq_none_iff] at h ⊢
  intro x ht
  exact hs ht (h ht)

/-! ### Loading -/

/-- What is loaded from a filed store is what is stored, built without a
repeated edge id. -/
theorem Filed.loadGraph_eq_ok {s : Store} (hs : s.Filed) {b : Backend} {g : Graph}
    (h : b.loadGraph s = .ok g) :
    g.vertices = s.vertices ∧ g.edges = s.edges ∧ g.BuiltOnce := by
  obtain ⟨-, hg⟩ := loadGraph_eq_ok_iff.mp h
  obtain ⟨hvertices, hedges⟩ := Graph.ofParts_eq_ok hg
  refine ⟨?_, ?_, Graph.builtOnce_ofParts (Graph.nodup_map_values hs.edge_id) hg⟩
  · rw [hvertices]
    exact Graph.foldl_put_values hs.vertex_id
  · rw [hedges]
    exact Graph.foldl_put_values hs.edge_id

/-- A filed store can be loaded exactly when it is closed and can be read. -/
theorem Filed.loadable_iff {s : Store} (hs : s.Filed) {b : Backend} :
    (∃ g, b.loadGraph s = .ok g) ↔ s.Closed ∧ s.Readable b := by
  constructor
  · rintro ⟨g, h⟩
    refine ⟨fun i e he => ?_, (loadGraph_eq_ok_iff.mp h).1⟩
    obtain ⟨hvertices, hedges, hg⟩ := hs.loadGraph_eq_ok h
    rw [missingEnd?_eq_none_iff]
    intro x ht
    rw [← hedges] at he
    rw [← hvertices]
    exact hg.reachable.wellFormed.has_end he ht
  · rintro ⟨hc, hr⟩
    obtain ⟨g, hg, -⟩ := Graph.ofParts_values hs.vertex_id hs.edge_id
      fun hi _ ht => missingEnd?_eq_none_iff.mp (hc _ _ hi) ht
    exact ⟨g, loadGraph_eq_ok_iff.mpr ⟨hr, hg⟩⟩

/-! ### Single writes -/

theorem Filed.putVertex {s : Store} (hs : s.Filed) (v : Vertex) : (s.putVertex v).Filed where
  vertex_id {id w} h := by
    rw [Store.putVertex, Table.get?_put] at h
    split at h
    · next hid =>
        cases h
        exact hid.symm
    · exact hs.vertex_id h
  edge_id := hs.edge_id

theorem Filed.putEdge {s : Store} (hs : s.Filed) (e : Edge) : (s.putEdge e).Filed where
  vertex_id := hs.vertex_id
  edge_id {i e'} h := by
    rw [Store.putEdge, Table.get?_put] at h
    split at h
    · next hi =>
        cases h
        exact hi.symm
    · exact hs.edge_id h

theorem Filed.dropVertices {s : Store} (hs : s.Filed) (ids : List VertexId) :
    (s.dropVertices ids).Filed where
  vertex_id h := by
    rw [Store.dropVertices, Table.get?_filter] at h
    exact hs.vertex_id (Option.filter_eq_some_iff.mp h).1
  edge_id h := by
    rw [Store.dropVertices, Table.get?_filter] at h
    exact hs.edge_id (Option.filter_eq_some_iff.mp h).1

theorem Filed.dropEdge {s : Store} (hs : s.Filed) (i : EdgeId) :
    Filed { s with edges := s.edges.erase i } where
  vertex_id := hs.vertex_id
  edge_id h := by
    rw [Table.get?_erase] at h
    split at h
    · cases h
    · exact hs.edge_id h

theorem Closed.putVertex {s : Store} (hs : s.Closed) (v : Vertex) : (s.putVertex v).Closed := by
  intro i e h
  refine missingEnd?_mono (hs i e h) fun {x} _ hx => ?_
  rw [Store.putVertex, Table.contains, Table.get?_put]
  split
  · rfl
  · exact hx

theorem Closed.putEdge {s : Store} (hs : s.Closed) {e : Edge} (he : s.missingEnd? e = none) :
    (s.putEdge e).Closed := by
  intro i e' h
  rw [Store.putEdge, Table.get?_put] at h
  split at h
  · cases h
    exact he
  · exact hs i e' h

/-- With vertices go the edges at them. -/
theorem Closed.dropVertices {s : Store} (hs : s.Closed) (ids : List VertexId) :
    (s.dropVertices ids).Closed := by
  intro i e h
  rw [Store.dropVertices, Table.get?_filter, Option.filter_eq_some_iff, Bool.and_eq_true] at h
  obtain ⟨he, hout, hin⟩ := h
  refine missingEnd?_mono (hs i e he) fun {x} ht hx => ?_
  have hkept : (!ids.contains x) = true := by
    rcases Edge.touches_iff.mp ht with rfl | rfl
    · exact hout
    · exact hin
  obtain ⟨v, hv⟩ := Option.isSome_iff_exists.mp hx
  rw [Store.dropVertices, Table.contains, Table.get?_filter, hv]
  simp only [Option.filter, hkept, if_true, Option.isSome_some]

theorem Closed.dropEdge {s : Store} (hs : s.Closed) (i : EdgeId) :
    Closed { s with edges := s.edges.erase i } := by
  intro j e h
  rw [Table.get?_erase] at h
  split at h
  · cases h
  · exact hs j e h

end Store

/-! ## Batches -/

theorem Backend.contains_saveVertices {b : Backend} {vs : List Vertex} {s : Store}
    {id : VertexId} :
    (vs.foldl b.saveVertex s).vertices.contains id = true ↔
      s.vertices.contains id = true ∨ ∃ v ∈ vs, v.id = id := by
  rw [saveVertices_kept, Store.contains_putVertices]
  simp [keptVertex]

namespace Store

open Backend

theorem Filed.saveVertices {s : Store} (hs : s.Filed) (b : Backend) (vs : List Vertex) :
    (vs.foldl b.saveVertex s).Filed :=
  saveVertices_keeps (fun _ hs => hs.putVertex _) vs hs

theorem Filed.saveEdges {s : Store} (hs : s.Filed) (b : Backend) (es : List Edge) :
    (b.saveEdges es s).2.Filed := by
  cases b with
  | memory =>
      refine saveEdgesUntil_keeps (fun h hs => ?_) es hs
      rw [(saveEdge_eq_ok h).2]
      exact hs.putEdge _
  | durable =>
      rw [saveEdges_durable]
      generalize es.map durable.keptEdge = es
      induction es generalizing s with
      | nil => exact hs
      | cons e es ih => exact ih (hs.putEdge e)

theorem Closed.saveVertices {s : Store} (hs : s.Closed) (b : Backend) (vs : List Vertex) :
    (vs.foldl b.saveVertex s).Closed :=
  saveVertices_keeps (fun _ hs => hs.putVertex _) vs hs

theorem Closed.saveEdges_memory {s : Store} (hs : s.Closed) (es : List Edge) :
    (memory.saveEdges es s).2.Closed := by
  show (memory.saveEdgesUntil es s).2.Closed
  refine saveEdgesUntil_keeps (fun h hs => ?_) es hs
  obtain ⟨hends, rfl⟩ := saveEdge_eq_ok h
  exact hs.putEdge hends

/-- A batch on the durable backend leaves a closed store closed exactly when
its lasting edges end at stored vertices. -/
theorem Closed.saveEdges_durable_iff {s : Store} (hs : s.Closed) {es : List Edge} :
    (durable.saveEdges es s).2.Closed ↔ s.HasEnds (lasting Edge.id es) := by
  have hends : ∀ e, (durable.saveEdges es s).2.missingEnd? e = s.missingEnd? e := by
    intro e
    rw [missingEnd?, missingEnd?, vertices_saveEdges_durable]
  constructor
  · intro h e he
    have hnone := h e.id _ (edges_saveEdges_durable.mpr (.inl ⟨e, he, rfl, rfl⟩))
    rw [hends] at hnone
    exact hnone
  · intro h i e' he'
    rw [hends]
    rcases edges_saveEdges_durable.mp he' with ⟨e, he, -, rfl⟩ | ⟨-, hold⟩
    · exact h e he
    · exact hs i e' hold

/-- A graph is saved with both ends of every edge. -/
theorem hasEnds_saveVertices {g : Graph} (wf : g.WellFormed) (b : Backend) :
    (g.vertices.values.foldl b.saveVertex {}).HasEnds g.edges.values := by
  intro e he
  refine missingEnd?_mono (hasEnds_of_wellFormed wf e he) fun {x} _ hx => ?_
  exact contains_saveVertices.mpr (contains_putVertices.mp hx)

theorem closed_saveGraph {g : Graph} (wf : g.WellFormed) (b : Backend) :
    (b.saveGraph g).2.Closed := by
  have hclosed : (g.vertices.values.foldl b.saveVertex {}).Closed := closed_empty.saveVertices b _
  cases b with
  | memory => exact hclosed.saveEdges_memory _
  | durable =>
      refine hclosed.saveEdges_durable_iff.mpr fun e he => ?_
      exact hasEnds_saveVertices wf durable e (mem_of_mem_lasting he)

end Store

/-! ## Operations -/

/-- The edges that a batch leaves behind end at stored vertices. -/
def StoreOperation.Anchored (s : Store) : StoreOperation → Prop
  | .saveEdges es => s.HasEnds (lasting Edge.id es)
  | _ => True

namespace Backend

open Store

/-- Whatever is asked for, entries stand under their own ids. -/
theorem filed_run {s : Store} (hs : s.Filed) (b : Backend) (op : StoreOperation) :
    (b.run s op).2.Filed := by
  cases op with
  | saveVertex v => exact hs.putVertex _
  | deleteVertex id => exact deleteVertex_keeps (P := Filed) hs hs.dropVertices id
  | saveEdge e =>
      rw [run]
      split
      · next s' h =>
          rw [(saveEdge_eq_ok h).2]
          exact hs.putEdge _
      · exact hs
  | deleteEdge i => exact hs.dropEdge i
  | clear => exact filed_empty
  | saveVertices vs => exact hs.saveVertices b vs
  | deleteVertices ids => exact deleteVertices_keeps (P := Filed) hs hs.dropVertices ids
  | saveEdges es => exact hs.saveEdges b es
  | saveGraph g => exact (filed_empty.saveVertices b _).saveEdges b _
  | getVertex _ | allVertices | edgesFor _ | allEdges | loadGraph => exact hs

/-- One operation leaves a closed store closed, unless it is a batch of edges on
the durable backend that leaves an edge behind which ends nowhere. -/
theorem closed_run_iff {s : Store} (hs : s.Closed) {b : Backend} {op : StoreOperation}
    (hbuilt : ∀ g, op = .saveGraph g → g.Reachable) :
    (b.run s op).2.Closed ↔ (b = .durable → op.Anchored s) := by
  cases op with
  | saveVertex v => exact iff_of_true (hs.putVertex _) fun _ => trivial
  | deleteVertex id =>
      refine iff_of_true ?_ fun _ => trivial
      exact deleteVertex_keeps (P := Closed) hs hs.dropVertices id
  | saveEdge e =>
      refine iff_of_true ?_ fun _ => trivial
      rw [run]
      split
      · next s' h =>
          obtain ⟨hends, heq⟩ := saveEdge_eq_ok h
          rw [heq]
          exact hs.putEdge hends
      · exact hs
  | deleteEdge i => exact iff_of_true (hs.dropEdge i) fun _ => trivial
  | clear => exact iff_of_true closed_empty fun _ => trivial
  | saveVertices vs => exact iff_of_true (hs.saveVertices b vs) fun _ => trivial
  | deleteVertices ids =>
      refine iff_of_true ?_ fun _ => trivial
      exact deleteVertices_keeps (P := Closed) hs hs.dropVertices ids
  | saveEdges es =>
      cases b with
      | memory => exact iff_of_true (hs.saveEdges_memory es) fun h => by cases h
      | durable =>
          show (durable.saveEdges es s).2.Closed ↔ _
          rw [hs.saveEdges_durable_iff]
          exact ⟨fun h _ => h, fun h => h rfl⟩
  | saveGraph g =>
      exact iff_of_true (closed_saveGraph (hbuilt g rfl).wellFormed b) fun _ => trivial
  | getVertex _ | allVertices | edgesFor _ | allEdges | loadGraph =>
      exact iff_of_true hs fun _ => trivial

/-! ## Sequences of operations -/

theorem filed_runAll {s : Store} (hs : s.Filed) (b : Backend) (ops : List StoreOperation) :
    (b.runAll ops s).2.Filed := by
  induction ops generalizing s with
  | nil => exact hs
  | cons op rest ih => exact ih (filed_run hs b op)

theorem along_of_forall {b : Backend} {C : Store → StoreOperation → Prop} (h : ∀ s op, C s op)
    (ops : List StoreOperation) (s : Store) : b.Along C ops s := by
  induction ops generalizing s with
  | nil => trivial
  | cons op rest ih => exact ⟨h s op, ih _⟩

theorem along_and {b : Backend} {C C' : Store → StoreOperation → Prop}
    {ops : List StoreOperation} {s : Store} :
    b.Along (fun s op => C s op ∧ C' s op) ops s ↔ b.Along C ops s ∧ b.Along C' ops s := by
  induction ops generalizing s with
  | nil => exact (and_self_iff).symm
  | cons op rest ih => exact (and_congr_right fun _ => ih).trans and_and_and_comm

/-- What holds at the start holds after every operation exactly when every operation
meets the condition under which it is kept. -/
theorem runAll_iff_along {b : Backend} {P : Store → Prop} {C : Store → StoreOperation → Prop}
    {D : StoreOperation → Prop}
    (hstep : ∀ {s op}, P s → D op → (P (b.run s op).2 ↔ C s op))
    {ops : List StoreOperation} (hops : ∀ op ∈ ops, D op) {s : Store} (hs : P s) :
    (∀ ops', ops' <+: ops → P (b.runAll ops' s).2) ↔ b.Along C ops s := by
  induction ops generalizing s with
  | nil =>
      refine iff_of_true (fun ops' hops' => ?_) trivial
      rw [List.prefix_nil.mp hops']
      exact hs
  | cons op rest ih =>
      obtain ⟨hop, hrest⟩ := List.forall_mem_cons.mp hops
      constructor
      · intro h
        have hone : P (b.run s op).2 := h [op] ⟨rest, rfl⟩
        refine ⟨(hstep hs hop).mp hone, (ih hrest hone).mp fun ops' hops' => ?_⟩
        exact h (op :: ops') ((List.prefix_cons_inj op).mpr hops')
      · rintro ⟨hmeets, hrest'⟩ ops' hops'
        rcases List.prefix_cons_iff.mp hops' with rfl | ⟨later, rfl, hlater⟩
        · exact hs
        · exact (ih hrest ((hstep hs hop).mpr hmeets)).mpr hrest' later hlater

/-- Every batch of edges is anchored in the durable store that it finds. -/
def AllAnchored : List StoreOperation → Store → Prop := durable.Along StoreOperation.Anchored

/-- What every operation leaves in the durable store that it finds can be read. -/
def AllReadable : List StoreOperation → Store → Prop :=
  durable.Along StoreOperation.LeavesReadable

/-- **When a store can be loaded.** After any operations on an empty store, it can
be loaded exactly when both ends of every stored edge are stored and every entry can
be read. In memory this is so after every operation. On the durable backend every
edge has both ends after every operation exactly when every batch of edges is
anchored, and the store can be loaded exactly when moreover no operation leaves a
double that is infinite or not a number. -/
theorem loadable_iff_allAnchored {ops : List StoreOperation}
    (hbuilt : ∀ g, .saveGraph g ∈ ops → g.Reachable) :
    (∀ (b : Backend) ops', ops' <+: ops →
        ((∃ g, b.loadGraph (b.runAll ops' {}).2 = .ok g) ↔
          (b.runAll ops' {}).2.Closed ∧ (b.runAll ops' {}).2.Readable b)) ∧
      (∀ ops', ops' <+: ops → (memory.runAll ops' {}).2.Closed ∧
        ∃ g, memory.loadGraph (memory.runAll ops' {}).2 = .ok g) ∧
      ((∀ ops', ops' <+: ops → (durable.runAll ops' {}).2.Closed) ↔ AllAnchored ops {}) ∧
      ((∀ ops', ops' <+: ops → ∃ g, durable.loadGraph (durable.runAll ops' {}).2 = .ok g) ↔
        AllAnchored ops {} ∧ AllReadable ops {}) := by
  have hops : ∀ op ∈ ops, ∀ g, op = .saveGraph g → g.Reachable := by
    rintro op hop g rfl
    exact hbuilt g hop
  have hloadable : ∀ (b : Backend) ops', (∃ g, b.loadGraph (b.runAll ops' {}).2 = .ok g) ↔
      (b.runAll ops' {}).2.Closed ∧ (b.runAll ops' {}).2.Readable b :=
    fun b ops' => (filed_runAll filed_empty b ops').loadable_iff
  have hclosed : ∀ ops', ops' <+: ops → (memory.runAll ops' {}).2.Closed := by
    have hstep : ∀ {s : Store} {op : StoreOperation}, s.Closed →
        (∀ g, op = .saveGraph g → g.Reachable) → ((memory.run s op).2.Closed ↔ True) :=
      fun hs hop => iff_true_intro ((closed_run_iff hs hop).mpr nofun)
    exact (runAll_iff_along hstep hops closed_empty).mpr (along_of_forall (fun _ _ => trivial) _ _)
  have hanchored : ∀ {s : Store} {op : StoreOperation}, s.Closed →
      (∀ g, op = .saveGraph g → g.Reachable) →
      ((durable.run s op).2.Closed ↔ op.Anchored s) :=
    fun hs hop => (closed_run_iff hs hop).trans ⟨fun h => h rfl, fun h _ => h⟩
  refine ⟨fun b ops' _ => hloadable b ops', fun ops' hops' => ?_,
    runAll_iff_along hanchored hops closed_empty, ?_⟩
  · have hc := hclosed ops' hops'
    exact ⟨hc, (hloadable memory ops').mpr ⟨hc, readable_memory _⟩⟩
  · have hboth := runAll_iff_along
      (P := fun s => s.Closed ∧ s.Readable .durable)
      (C := fun s op => op.Anchored s ∧ op.LeavesReadable s)
      (fun hs hop => and_congr (hanchored hs.1 hop) (readable_run_iff hs.2 hop))
      hops ⟨closed_empty, readable_empty .durable⟩
    calc (∀ ops', ops' <+: ops → ∃ g, durable.loadGraph (durable.runAll ops' {}).2 = .ok g)
        ↔ ∀ ops', ops' <+: ops → (durable.runAll ops' {}).2.Closed ∧
            (durable.runAll ops' {}).2.Readable .durable :=
          forall₂_congr fun ops' _ => hloadable durable ops'
      _ ↔ AllAnchored ops {} ∧ AllReadable ops {} := hboth.trans along_and

/-! ### Batches that leave no edge open and one that does -/

/-- A server under a load that is no number. -/
def unmeasured : Vertex := ⟨"a", "server", Table.ofList [("load", .real (0.0 / 0.0))]⟩

/-- A batch whose entry that cannot be read and whose open edge are replaced within
it, an edge that is refused, a delete that is refused, and a graph in place of them
all. -/
def anchored : List StoreOperation :=
  [.saveVertices [unmeasured, webServer, disk], .saveEdges [{ mount with inId := "c" }, mount],
    .saveEdge ⟨"f", "b", "c", "has", ∅⟩, .deleteVertices ["a", "c"], .deleteVertex "b",
    .saveGraph machine, .deleteEdge "e"]

theorem loadable_iff_allAnchored_anchored :
    (∀ g, .saveGraph g ∈ anchored → g.Reachable) ∧
      (AllAnchored anchored {} ∧ AllReadable anchored {}) ∧
      (∀ (b : Backend) ops', ops' <+: anchored →
        ((∃ g, b.loadGraph (b.runAll ops' {}).2 = .ok g) ↔
          (b.runAll ops' {}).2.Closed ∧ (b.runAll ops' {}).2.Readable b)) ∧
      (∀ ops', ops' <+: anchored → (memory.runAll ops' {}).2.Closed ∧
        ∃ g, memory.loadGraph (memory.runAll ops' {}).2 = .ok g) ∧
      ((∀ ops', ops' <+: anchored → (durable.runAll ops' {}).2.Closed) ↔
        AllAnchored anchored {}) ∧
      ((∀ ops', ops' <+: anchored →
          ∃ g, durable.loadGraph (durable.runAll ops' {}).2 = .ok g) ↔
        AllAnchored anchored {} ∧ AllReadable anchored {}) := by
  have hbuilt : ∀ g, .saveGraph g ∈ anchored → g.Reachable := by
    intro g hg
    obtain rfl : g = machine := by simpa [anchored] using hg
    exact Graph.reachable_ofParts
      (show Graph.ofParts [webServer, disk] [mount] = .ok machine from rfl)
  refine ⟨hbuilt, ⟨?_, ?_⟩, loadable_iff_allAnchored hbuilt⟩
  · have hbatch : (durable.run {} (.saveVertices [unmeasured, webServer, disk])).2.HasEnds
        (lasting Edge.id [{ mount with inId := "c" }, mount]) := by
      unfold Store.HasEnds
      decide
    exact ⟨trivial, hbatch, trivial, trivial, trivial, trivial, trivial, trivial⟩
  · have hvertices : ∀ ps ∈ (lasting Vertex.id [unmeasured, webServer, disk]).map (·.properties),
        durable.reads ps = true := by decide
    have hedges : ∀ ps ∈ (lasting Edge.id [{ mount with inId := "c" }, mount]).map (·.properties),
        durable.reads ps = true := by decide
    have hgraph : ∀ ps ∈ (StoreOperation.saveGraph machine).properties,
        durable.reads ps = true := by decide
    exact ⟨hvertices, hedges, nofun, nofun, nofun, hgraph, nofun, trivial⟩

/-- A load that is no number is saved; the vertex and the graph cannot be read then,
and a vertex that is stored beside it can. -/
example :
    (durable.runAll [.saveVertices [unmeasured, disk], .getVertex "a", .getVertex "b",
      .loadGraph] {}).1 =
      [.ok .done, .error .unreadable, .ok (.vertex (some disk)), .error .unreadable] := by
  decide +kernel

/-- A stored edge that a batch makes end nowhere. -/
def rewired : List StoreOperation :=
  [.saveVertices [webServer, disk], .saveEdge mount, .saveEdges [{ mount with inId := "c" }]]

/-- The batch is accepted durably, and the store cannot be loaded after it. In
memory the batch is refused. -/
theorem not_closed_rewired :
    (durable.runAll rewired {}).1 = [.ok .done, .ok .done, .ok .done] ∧
      ¬ (durable.runAll rewired {}).2.Closed ∧
      durable.loadGraph (durable.runAll rewired {}).2 =
        .error (.inconsistent (.vertexNotFound "c")) ∧
      (memory.runAll rewired {}).1 =
        [.ok .done, .ok .done, .error (.vertexNotFound "c")] := by
  have hload : durable.loadGraph (durable.runAll rewired {}).2 =
      .error (.inconsistent (.vertexNotFound "c")) := by rfl
  refine ⟨by rfl, fun hclosed => ?_, hload, by rfl⟩
  have hends := hclosed "e" { mount with inId := "c" } rfl
  exact absurd hends (by decide)

end Backend

end Inventory
