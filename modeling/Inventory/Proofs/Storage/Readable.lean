import Inventory.Proofs.DataFormat.Finite
import Inventory.Proofs.Graph.Reload
import Inventory.Proofs.Storage.Batches

/-!
# Storage — entries that can be read

In memory every entry can be read. The durable backend reads an entry exactly when
its doubles are finite, and keeping an entry does not change that. One entry that
cannot be read is enough for everything that reads all vertices or all edges to be
refused, and a store is changed by nothing else than what is put and taken away.
-/

namespace Inventory

/-! ## Values -/

theorem isReadable_rereadReal (x : Float) : (rereadReal x).isReadable = x.isFinite := by
  rw [rereadReal]
  split
  · next n hread =>
    cases hx : x.isFinite with
    | true => exact Property.isReadable_ofNumber (Json.isFinite_parse hread)
    | false =>
      -- its form is `null`, which is no number
      rw [Property.toJson, if_neg (Bool.eq_false_iff.mp hx)] at hread
      have hnull : Json.parse Json.null.compact = some .null := Json.parse_write .line trivial
      cases hread.symm.trans hnull
  · exact Property.isReadable_real x

theorem Property.isReadable_reread (p : Property) : p.reread.isReadable = p.isReadable := by
  cases p with
  | real x => rw [reread, isReadable_rereadReal, isReadable_real]
  | _ => rfl

namespace Backend

@[simp] theorem reads_memory (ps : Properties) : memory.reads ps = true := rfl

theorem reads_durable_iff {ps : Properties} :
    durable.reads ps = true ↔ ∀ x ∈ ps.reals, x.isFinite = true := by
  rw [Properties.isFinite_reals_iff, reads, List.all_eq_true]

theorem reads_kept (b : Backend) (ps : Properties) : b.reads (b.kept ps) = b.reads ps := by
  cases b with
  | memory => rfl
  | durable =>
    rw [reads, reads, kept, Table.values, Table.map, Table.values, List.map_map, List.all_map,
      List.all_map]
    exact congrArg (List.all _) (funext fun e => e.2.isReadable_reread)

/-- The properties come back as they were given. -/
def ReadsBack (b : Backend) (ps : Properties) : Prop := b.reads ps = true ∧ b.kept ps = ps

instance (b : Backend) (ps : Properties) : Decidable (b.ReadsBack ps) :=
  inferInstanceAs (Decidable (_ ∧ _))

end Backend

/-! ## Stores -/

namespace Store

/-- Every entry can be read. -/
structure Readable (s : Store) (b : Backend) : Prop where
  vertex : ∀ {id v}, s.vertices.get? id = some v → b.reads v.properties = true
  edge : ∀ {i e}, s.edges.get? i = some e → b.reads e.properties = true

variable {s : Store} {b : Backend}

theorem readable_memory (s : Store) : s.Readable .memory := ⟨fun _ => rfl, fun _ => rfl⟩

theorem readable_empty (b : Backend) : Readable {} b where
  vertex h := by cases h
  edge h := by cases h

/-! ### Taking entries away -/

theorem Readable.dropVertices (hs : s.Readable b) (ids : List VertexId) :
    (s.dropVertices ids).Readable b where
  vertex h := by
    rw [Store.dropVertices, Table.get?_filter] at h
    exact hs.vertex (Option.filter_eq_some_iff.mp h).1
  edge h := by
    rw [Store.dropVertices, Table.get?_filter] at h
    exact hs.edge (Option.filter_eq_some_iff.mp h).1

theorem Readable.dropEdge (hs : s.Readable b) (i : EdgeId) :
    Readable { s with edges := s.edges.erase i } b where
  vertex := hs.vertex
  edge h := by
    rw [Table.get?_erase] at h
    split at h
    · cases h
    · exact hs.edge h

end Store

/-! ## Reading all entries -/

namespace Backend

variable {s : Store} {b : Backend}

/-- Entries are read as they are kept, all or none. -/
theorem readAll_eq_ok_iff {α : Type} {properties : α → Properties} {entries xs : List α} :
    b.readAll properties entries = .ok xs ↔
      (∀ x ∈ entries, b.reads (properties x) = true) ∧ entries = xs := by
  have hall : (entries.all fun x => b.reads (properties x)) = true ↔
      ∀ x ∈ entries, b.reads (properties x) = true := List.all_eq_true
  rw [readAll, ← hall]
  split
  · next h => simp [h]
  · next h => simp [h]

theorem vertices_eq_ok_iff {vs : List Vertex} :
    b.vertices s = .ok vs ↔
      (∀ v ∈ s.vertices.values, b.reads v.properties = true) ∧ s.vertices.values = vs :=
  readAll_eq_ok_iff

theorem edges_eq_ok_iff {es : List Edge} :
    b.edges s = .ok es ↔
      (∀ e ∈ s.edges.values, b.reads e.properties = true) ∧ s.edges.values = es :=
  readAll_eq_ok_iff

end Backend

namespace Store

variable {s : Store} {b : Backend}

theorem readable_iff :
    s.Readable b ↔ (∀ v ∈ s.vertices.values, b.reads v.properties = true) ∧
      ∀ e ∈ s.edges.values, b.reads e.properties = true := by
  constructor
  · intro hs
    refine ⟨fun v hv => ?_, fun e he => ?_⟩
    · obtain ⟨id, hid⟩ := Table.mem_values.mp hv
      exact hs.vertex hid
    · obtain ⟨i, hi⟩ := Table.mem_values.mp he
      exact hs.edge hi
  · rintro ⟨hvs, hes⟩
    exact ⟨fun hid => hvs _ (Table.mem_values.mpr ⟨_, hid⟩),
      fun hi => hes _ (Table.mem_values.mpr ⟨_, hi⟩)⟩

theorem Readable.vertices_eq (hs : s.Readable b) : b.vertices s = .ok s.vertices.values :=
  Backend.vertices_eq_ok_iff.mpr ⟨(readable_iff.mp hs).1, rfl⟩

theorem Readable.edges_eq (hs : s.Readable b) : b.edges s = .ok s.edges.values :=
  Backend.edges_eq_ok_iff.mpr ⟨(readable_iff.mp hs).2, rfl⟩

theorem Readable.vertex?_eq (hs : s.Readable b) (id : VertexId) :
    b.vertex? s id = .ok (s.vertices.get? id) := by
  rw [Backend.vertex?]
  split
  · next h => rw [h]
  · next v h => rw [if_pos (hs.vertex h), h]

theorem Readable.edgesFor_eq (hs : s.Readable b) (id : VertexId) :
    b.edgesFor s id = .ok (s.edges.values.filter (·.touches id)) := by
  rw [Backend.edgesFor, hs.edges_eq]
  rfl

theorem Readable.loadGraph_eq (hs : s.Readable b) :
    b.loadGraph s = (Graph.ofParts s.vertices.values s.edges.values).mapError .inconsistent := by
  rw [Backend.loadGraph, hs.vertices_eq, hs.edges_eq]
  rfl

theorem Readable.dropVertices_eq (hs : s.Readable b) (ids : List VertexId) :
    b.dropVertices ids s = (.ok (), s.dropVertices ids) := by
  rw [Backend.dropVertices, hs.edges_eq]

theorem Readable.deleteVertex_eq (hs : s.Readable b) (id : VertexId) :
    b.deleteVertex id s =
      if s.vertices.contains id then (.ok (), s.dropVertices [id])
      else (.error (.vertexNotFound id), s) := by
  rw [Backend.deleteVertex, hs.dropVertices_eq]

/-- From a store that can be read vertices are deleted unless one of them is missing. -/
theorem Readable.deleteVertices_eq (hs : s.Readable b) (ids : List VertexId) :
    b.deleteVertices ids s =
      match b.missingVertex? s ids with
      | some id => (.error (.vertexNotFound id), s)
      | none => (.ok (), s.dropVertices ids) := by
  rw [Backend.deleteVertices, hs.dropVertices_eq]
  cases b.missingVertex? s ids with
  | some id => rfl
  | none =>
    dsimp only
    split
    · next hnil => rw [List.isEmpty_iff.mp hnil, dropVertices_nil]
    · rfl

/-- A store is loaded when every entry can be read and every edge ends at a vertex. -/
theorem loadGraph_eq_ok_iff {g : Graph} :
    b.loadGraph s = .ok g ↔
      s.Readable b ∧ Graph.ofParts s.vertices.values s.edges.values = .ok g := by
  constructor
  · intro h
    obtain ⟨vs, hvs, h⟩ := Outcome.bind_eq_ok.mp h
    obtain ⟨es, hes, h⟩ := Outcome.bind_eq_ok.mp h
    obtain ⟨hvertices, rfl⟩ := Backend.vertices_eq_ok_iff.mp hvs
    obtain ⟨hedges, rfl⟩ := Backend.edges_eq_ok_iff.mp hes
    exact ⟨readable_iff.mpr ⟨hvertices, hedges⟩, Outcome.mapError_eq_ok.mp h⟩
  · rintro ⟨hs, hg⟩
    rw [hs.loadGraph_eq]
    exact Outcome.mapError_eq_ok.mpr hg

/-! ### Batches -/

/-- A batch of vertices can be read when the lasting ones can. -/
theorem Readable.saveVertices_iff (hs : s.Readable b) (vs : List Vertex) :
    (vs.foldl b.saveVertex s).Readable b ↔
      ∀ v ∈ lasting Vertex.id vs, b.reads v.properties = true := by
  constructor
  · intro h v hv
    have hkept := h.vertex (Backend.vertices_saveVertices.mpr (.inl ⟨v, hv, rfl, rfl⟩))
    exact (Backend.reads_kept b v.properties).symm.trans hkept
  · intro h
    refine ⟨fun {id w} hw => ?_, fun {i e} he => ?_⟩
    · rcases Backend.vertices_saveVertices.mp hw with ⟨v, hv, -, rfl⟩ | ⟨-, hold⟩
      · exact (Backend.reads_kept b v.properties).trans (h v hv)
      · exact hs.vertex hold
    · rw [Backend.edges_saveVertices] at he
      exact hs.edge he

/-- A batch of edges on the durable backend can be read when the lasting ones can. -/
theorem Readable.saveEdges_durable_iff (hs : s.Readable .durable) (es : List Edge) :
    (Backend.durable.saveEdges es s).2.Readable .durable ↔
      ∀ e ∈ lasting Edge.id es, Backend.durable.reads e.properties = true := by
  constructor
  · intro h e he
    have hkept := h.edge (Backend.edges_saveEdges_durable.mpr (.inl ⟨e, he, rfl, rfl⟩))
    exact (Backend.reads_kept .durable e.properties).symm.trans hkept
  · intro h
    refine ⟨fun {id v} hv => ?_, fun {i f} hf => ?_⟩
    · rw [Backend.vertices_saveEdges_durable] at hv
      exact hs.vertex hv
    · rcases Backend.edges_saveEdges_durable.mp hf with ⟨e, he, -, rfl⟩ | ⟨-, hold⟩
      · exact (Backend.reads_kept .durable e.properties).trans (h e he)
      · exact hs.edge hold

end Store

/-! ## Operations -/

namespace StoreOperation

/-- The properties an operation hands over. -/
def properties : StoreOperation → List Properties
  | .saveVertex v => [v.properties]
  | .saveEdge e => [e.properties]
  | .saveVertices vs => vs.map (·.properties)
  | .saveEdges es => es.map (·.properties)
  | .saveGraph g => g.vertices.values.map (·.properties) ++ g.edges.values.map (·.properties)
  | _ => []

/-- The properties an operation leaves in a durable store: not those of an entry that
a later one of the same batch replaces, nor those of an edge that is refused. -/
def leaves (s : Store) : StoreOperation → List Properties
  | .saveEdge e => if s.missingEnd? e = none then [e.properties] else []
  | .saveVertices vs => (lasting Vertex.id vs).map (·.properties)
  | .saveEdges es => (lasting Edge.id es).map (·.properties)
  | op => op.properties

/-- What an operation leaves in a durable store can be read. -/
def LeavesReadable (s : Store) (op : StoreOperation) : Prop :=
  ∀ ps ∈ op.leaves s, Backend.durable.reads ps = true

theorem mem_properties_of_mem_leaves {s : Store} {op : StoreOperation} {ps : Properties}
    (h : ps ∈ op.leaves s) : ps ∈ op.properties := by
  cases op with
  | saveEdge e =>
    rw [leaves] at h
    split at h
    · exact h
    · cases h
  | saveVertices vs | saveEdges es =>
    obtain ⟨x, hx, rfl⟩ := List.mem_map.mp h
    exact List.mem_map_of_mem (mem_of_mem_lasting hx)
  | _ => exact h

end StoreOperation

namespace Backend

open Store

variable {s : Store}

/-- A graph is saved in a form that can be read when all its entries can. -/
theorem readable_saveGraph_iff {g : Graph} (wf : g.WellFormed) :
    (durable.saveGraph g).2.Readable .durable ↔
      ∀ ps ∈ (StoreOperation.saveGraph g).properties, durable.reads ps = true := by
  have hvs : lasting Vertex.id g.vertices.values = g.vertices.values :=
    lasting_of_nodup (Graph.nodup_map_values wf.vertex_id)
  have hes : lasting Edge.id g.edges.values = g.edges.values :=
    lasting_of_nodup (Graph.nodup_map_values wf.edge_id)
  have hempty : Readable {} .durable := readable_empty .durable
  show (durable.saveEdges g.edges.values
    (g.vertices.values.foldl durable.saveVertex {})).2.Readable .durable ↔ _
  rw [StoreOperation.properties, List.forall_mem_append, List.forall_mem_map, List.forall_mem_map]
  constructor
  · intro h
    have hvertices : (g.vertices.values.foldl durable.saveVertex {}).Readable .durable := by
      refine ⟨fun {id v} hv => ?_, fun {i e} he => ?_⟩
      · rw [← vertices_saveEdges_durable g.edges.values] at hv
        exact h.vertex hv
      · rw [edges_saveVertices] at he
        cases he
    exact ⟨hvs ▸ (hempty.saveVertices_iff _).mp hvertices,
      hes ▸ (hvertices.saveEdges_durable_iff _).mp h⟩
  · rintro ⟨hv, he⟩
    have hvertices : (g.vertices.values.foldl durable.saveVertex {}).Readable .durable :=
      (hempty.saveVertices_iff _).mpr (hvs.symm ▸ hv)
    exact (hvertices.saveEdges_durable_iff _).mpr (hes.symm ▸ he)

/-- One operation on a durable store that can be read leaves one that can be read
exactly when the entries can be read that it leaves. -/
theorem readable_run_iff (hs : s.Readable .durable) {op : StoreOperation}
    (hbuilt : ∀ g, op = .saveGraph g → g.Reachable) :
    (durable.run s op).2.Readable .durable ↔ op.LeavesReadable s := by
  have hnone : ∀ {op : StoreOperation}, op.leaves s = [] → op.LeavesReadable s :=
    fun h ps hps => absurd hps (h ▸ List.not_mem_nil)
  cases op with
  | saveVertex v =>
    have hone : (durable.saveVertex s v).Readable .durable ↔
        ∀ w ∈ [v], durable.reads w.properties = true := hs.saveVertices_iff [v]
    rw [List.forall_mem_singleton] at hone
    show _ ↔ ∀ ps ∈ [v.properties], durable.reads ps = true
    rw [List.forall_mem_singleton]
    exact hone
  | saveEdge e =>
    have hone : (s.putEdge (durable.keptEdge e)).Readable .durable ↔
        ∀ f ∈ [e], durable.reads f.properties = true := hs.saveEdges_durable_iff [e]
    rw [List.forall_mem_singleton] at hone
    cases hends : s.missingEnd? e with
    | none =>
      rw [run, StoreOperation.LeavesReadable, StoreOperation.leaves, if_pos hends,
        durable.saveEdge_of_anchored hends, List.forall_mem_singleton]
      exact hone
    | some id =>
      rw [run, durable.saveEdge_of_missing hends]
      refine iff_of_true hs (hnone ?_)
      rw [StoreOperation.leaves, hends]
      rfl
  | saveVertices vs =>
    rw [StoreOperation.LeavesReadable, StoreOperation.leaves, List.forall_mem_map]
    exact hs.saveVertices_iff vs
  | saveEdges es =>
    rw [StoreOperation.LeavesReadable, StoreOperation.leaves, List.forall_mem_map]
    exact hs.saveEdges_durable_iff es
  | saveGraph g => exact readable_saveGraph_iff (hbuilt g rfl).wellFormed
  | deleteVertex id =>
    refine iff_of_true ?_ (hnone rfl)
    exact deleteVertex_keeps (P := (Readable · .durable)) hs hs.dropVertices id
  | deleteVertices ids =>
    refine iff_of_true ?_ (hnone rfl)
    exact deleteVertices_keeps (P := (Readable · .durable)) hs hs.dropVertices ids
  | deleteEdge i => exact iff_of_true (hs.dropEdge i) (hnone rfl)
  | clear => exact iff_of_true (readable_empty _) (hnone rfl)
  | getVertex _ | allVertices | edgesFor _ | allEdges | loadGraph =>
    exact iff_of_true hs (hnone rfl)

end Backend

end Inventory
