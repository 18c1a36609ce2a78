import Inventory.Proofs.Storage.Readable

/-!
# Storage — two backends, one store

The durable backend does not look for the ends of the edges it saves as a
batch, and takes the second mention of an id in a batch delete for an id that
is not stored. These two apart, no sequence of operations tells the backends
from each other: they give the same answers as long as no such batch is asked
for, and answer the first such batch differently.
-/

namespace Inventory

namespace Store

/-! ## Ends of edges -/

/-- Both ends of every edge are stored. -/
def HasEnds (s : Store) (es : List Edge) : Prop := ∀ e ∈ es, s.missingEnd? e = none

theorem missingEnd?_eq_none {s : Store} {e : Edge} :
    s.missingEnd? e = none ↔
      s.vertices.contains e.outId = true ∧ s.vertices.contains e.inId = true := by
  simp [missingEnd?]

theorem contains_putVertices {vs : List Vertex} {s : Store} {id : VertexId} :
    (vs.foldl putVertex s).vertices.contains id = true ↔
      s.vertices.contains id = true ∨ ∃ v ∈ vs, v.id = id := by
  induction vs generalizing s with
  | nil => simp
  | cons v vs ih =>
      have hput : (s.putVertex v).vertices.contains id = true ↔
          s.vertices.contains id = true ∨ v.id = id := by
        simp only [putVertex, Table.contains, Table.get?_put]
        by_cases hid : id = v.id
        · simp [hid]
        · simp [hid, Ne.symm hid]
      rw [List.foldl_cons, ih, hput, or_assoc, List.exists_mem_cons_iff]

/-- The vertices of a graph hold both ends of each of its edges. -/
theorem hasEnds_of_wellFormed {g : Graph} (wf : g.WellFormed) :
    (g.vertices.values.foldl putVertex {}).HasEnds g.edges.values := by
  intro e he
  obtain ⟨i, hi⟩ := Table.mem_values.mp he
  have hend : ∀ {id}, e.touches id = true →
      (g.vertices.values.foldl putVertex {}).vertices.contains id = true := by
    intro id ht
    obtain ⟨v, hv⟩ := Option.isSome_iff_exists.mp (wf.has_end hi ht)
    exact contains_putVertices.mpr
      (.inr ⟨v, Table.mem_values.mpr ⟨id, hv⟩, wf.vertex_id hv⟩)
  exact missingEnd?_eq_none.mpr
    ⟨hend (Edge.touches_iff.mpr (.inl rfl)), hend (Edge.touches_iff.mpr (.inr rfl))⟩

/-! ## Ids of a batch -/

/-- The ids up to the first one that is not stored. -/
def storedUntil (s : Store) (ids : List VertexId) : List VertexId :=
  ids.takeWhile s.vertices.contains

/-- No id is named again before the first one that is not stored. -/
def NamesOnce (s : Store) (ids : List VertexId) : Prop := (s.storedUntil ids).Nodup

/-- The store without one vertex; edges stay. -/
def eraseVertex (s : Store) (id : VertexId) : Store := { s with vertices := s.vertices.erase id }

theorem contains_eraseVertex (s : Store) (id x : VertexId) :
    (s.eraseVertex id).vertices.contains x = (decide (x ≠ id) && s.vertices.contains x) := by
  simp only [eraseVertex, Table.contains, Table.get?_erase]
  by_cases hx : x = id <;> simp [hx]

theorem storedUntil_cons_of_stored {s : Store} {id : VertexId} (h : s.vertices.contains id = true)
    (ids : List VertexId) : s.storedUntil (id :: ids) = id :: s.storedUntil ids :=
  List.takeWhile_cons_of_pos h

theorem storedUntil_cons_of_missing {s : Store} {id : VertexId}
    (h : ¬ s.vertices.contains id = true) (ids : List VertexId) :
    s.storedUntil (id :: ids) = [] :=
  List.takeWhile_cons_of_neg h

theorem storedUntil_eraseVertex {s : Store} {id : VertexId} {ids : List VertexId}
    (h : id ∉ s.storedUntil ids) : (s.eraseVertex id).storedUntil ids = s.storedUntil ids := by
  induction ids with
  | nil => rfl
  | cons x ids ih =>
      by_cases hx : s.vertices.contains x = true
      · rw [storedUntil_cons_of_stored hx, List.mem_cons, not_or] at h
        have hx' : (s.eraseVertex id).vertices.contains x = true := by
          simp [contains_eraseVertex, hx, Ne.symm h.1]
        rw [storedUntil_cons_of_stored hx, storedUntil_cons_of_stored hx', ih h.2]
      · have hx' : ¬ (s.eraseVertex id).vertices.contains x = true := by
          simp [contains_eraseVertex, hx]
        rw [storedUntil_cons_of_missing hx, storedUntil_cons_of_missing hx']

end Store

namespace Backend

/-! ## Ids that cannot be removed -/

theorem missingVertex?_cons_of_missing (b : Backend) {s : Store} {id : VertexId}
    (h : ¬ s.vertices.contains id = true) (ids : List VertexId) :
    b.missingVertex? s (id :: ids) = some id := by
  unfold missingVertex?
  simp [h]

theorem missingVertex?_memory_cons {s : Store} {id : VertexId}
    (h : s.vertices.contains id = true) (ids : List VertexId) :
    memory.missingVertex? s (id :: ids) = memory.missingVertex? s ids := by
  rw [missingVertex?]
  simp [h]

theorem missingVertex?_durable_cons {s : Store} {id : VertexId}
    (h : s.vertices.contains id = true) (ids : List VertexId) :
    durable.missingVertex? s (id :: ids) = durable.missingVertex? (s.eraseVertex id) ids := by
  rw [missingVertex?]
  simp [h, Store.eraseVertex]

theorem not_stored_of_missingVertex?_memory {s : Store} {ids : List VertexId} {id : VertexId}
    (h : memory.missingVertex? s ids = some id) : ¬ s.vertices.contains id = true := by
  induction ids with
  | nil => cases h
  | cons x ids ih =>
      by_cases hx : s.vertices.contains x = true
      · rw [missingVertex?_memory_cons hx] at h
        exact ih h
      · rw [missingVertex?_cons_of_missing _ hx] at h
        cases h
        exact hx

/-- A vertex that is not among the stored ones of a batch may be erased before it. -/
theorem missingVertex?_memory_eraseVertex {s : Store} {id : VertexId} {ids : List VertexId}
    (h : id ∉ s.storedUntil ids) :
    memory.missingVertex? (s.eraseVertex id) ids = memory.missingVertex? s ids := by
  induction ids with
  | nil => rfl
  | cons x ids ih =>
      by_cases hx : s.vertices.contains x = true
      · rw [Store.storedUntil_cons_of_stored hx, List.mem_cons, not_or] at h
        have hx' : (s.eraseVertex id).vertices.contains x = true := by
          simp [Store.contains_eraseVertex, hx, Ne.symm h.1]
        rw [missingVertex?_memory_cons hx, missingVertex?_memory_cons hx', ih h.2]
      · have hx' : ¬ (s.eraseVertex id).vertices.contains x = true := by
          simp [Store.contains_eraseVertex, hx]
        rw [missingVertex?_cons_of_missing _ hx, missingVertex?_cons_of_missing _ hx']

/-- A vertex among the stored ones of a batch is missed when it is erased before it. -/
theorem missingVertex?_memory_of_erased {s : Store} {id : VertexId} {ids : List VertexId}
    (h : id ∈ s.storedUntil ids) :
    ∃ x, memory.missingVertex? (s.eraseVertex id) ids = some x ∧ s.vertices.contains x = true := by
  induction ids with
  | nil => cases h
  | cons x ids ih =>
      by_cases hx : s.vertices.contains x = true
      · by_cases hid : x = id
        · have hx' : ¬ (s.eraseVertex id).vertices.contains x = true := by
            simp [Store.contains_eraseVertex, hid]
          exact ⟨x, missingVertex?_cons_of_missing _ hx' _, hx⟩
        · have hx' : (s.eraseVertex id).vertices.contains x = true := by
            simp [Store.contains_eraseVertex, hid, hx]
          rw [Store.storedUntil_cons_of_stored hx] at h
          rw [missingVertex?_memory_cons hx']
          exact ih (List.mem_of_ne_of_mem (Ne.symm hid) h)
      · rw [Store.storedUntil_cons_of_missing hx] at h
        cases h

/-- A batch that names its ids once misses the same id in both backends. -/
theorem missingVertex?_of_namesOnce {s : Store} {ids : List VertexId} (h : s.NamesOnce ids) :
    durable.missingVertex? s ids = memory.missingVertex? s ids := by
  induction ids generalizing s with
  | nil => rfl
  | cons x ids ih =>
      by_cases hx : s.vertices.contains x = true
      · rw [Store.NamesOnce, Store.storedUntil_cons_of_stored hx, List.nodup_cons] at h
        have hrest : (s.eraseVertex x).NamesOnce ids := by
          rw [Store.NamesOnce, Store.storedUntil_eraseVertex h.1]
          exact h.2
        rw [missingVertex?_durable_cons hx, missingVertex?_memory_cons hx, ih hrest,
          missingVertex?_memory_eraseVertex h.1]
      · rw [missingVertex?_cons_of_missing _ hx, missingVertex?_cons_of_missing _ hx]

/-- A batch that names a stored id again misses a stored id in the durable backend. -/
theorem missingVertex?_durable_of_not_namesOnce {s : Store} {ids : List VertexId}
    (h : ¬ s.NamesOnce ids) :
    ∃ id, durable.missingVertex? s ids = some id ∧ s.vertices.contains id = true := by
  induction ids generalizing s with
  | nil => exact absurd List.nodup_nil h
  | cons x ids ih =>
      by_cases hx : s.vertices.contains x = true
      · rw [Store.NamesOnce, Store.storedUntil_cons_of_stored hx, List.nodup_cons] at h
        rw [missingVertex?_durable_cons hx]
        by_cases hrest : (s.eraseVertex x).NamesOnce ids
        · -- then the first id is the one that is named again
          have hmem : x ∈ s.storedUntil ids := by
            by_contra hmem
            rw [Store.NamesOnce, Store.storedUntil_eraseVertex hmem] at hrest
            exact h ⟨hmem, hrest⟩
          rw [missingVertex?_of_namesOnce hrest]
          exact missingVertex?_memory_of_erased hmem
        · obtain ⟨id, hmissing, hid⟩ := ih hrest
          rw [Store.contains_eraseVertex, Bool.and_eq_true] at hid
          exact ⟨id, hmissing, hid.2⟩
      · rw [Store.NamesOnce, Store.storedUntil_cons_of_missing hx] at h
        exact absurd List.nodup_nil h

/-- The backends miss the same id exactly when the batch names its ids once. -/
theorem missingVertex?_eq_iff {s : Store} {ids : List VertexId} :
    memory.missingVertex? s ids = durable.missingVertex? s ids ↔ s.NamesOnce ids := by
  refine ⟨fun h => ?_, fun h => (missingVertex?_of_namesOnce h).symm⟩
  by_contra hn
  obtain ⟨id, hmissing, hid⟩ := missingVertex?_durable_of_not_namesOnce hn
  exact not_stored_of_missingVertex?_memory (h.trans hmissing) hid

/-! ## Values that are kept -/

theorem saveVertices_eq {b : Backend} {vs : List Vertex}
    (h : ∀ v ∈ vs, b.kept v.properties = v.properties) (s : Store) :
    vs.foldl b.saveVertex s = vs.foldl Store.putVertex s :=
  List.foldl_ext _ _ _ fun _ v hv => by rw [saveVertex, h v hv]

theorem saveEdges_durable_eq {es : List Edge}
    (h : ∀ e ∈ es, durable.kept e.properties = e.properties) (s : Store) :
    durable.saveEdges es s = (.ok (), es.foldl Store.putEdge s) := by
  have hfold :
      es.foldl (fun s e => s.putEdge { e with properties := durable.kept e.properties }) s =
        es.foldl Store.putEdge s :=
    List.foldl_ext _ _ _ fun _ e he => by rw [h e he]
  rw [saveEdges, hfold]

/-! ## Batches of edges in memory -/

theorem saveEdges_memory_of_hasEnds {es : List Edge} {s : Store} (h : s.HasEnds es) :
    memory.saveEdges es s = (.ok (), es.foldl Store.putEdge s) := by
  show memory.saveEdgesUntil es s = _
  induction es generalizing s with
  | nil => rfl
  | cons e es ih =>
      obtain ⟨he, hes⟩ := List.forall_mem_cons.mp h
      rw [saveEdgesUntil, memory.saveEdge_of_anchored he]
      exact ih hes

theorem saveEdges_memory_of_not_hasEnds {es : List Edge} {s : Store} (h : ¬ s.HasEnds es) :
    ∃ f, (memory.saveEdges es s).1 = .error f := by
  show ∃ f, (memory.saveEdgesUntil es s).1 = .error f
  induction es generalizing s with
  | nil => exact absurd (fun e he => absurd he List.not_mem_nil) h
  | cons e es ih =>
      cases he : s.missingEnd? e with
      | some id => exact ⟨_, by rw [saveEdgesUntil, memory.saveEdge_of_missing he]⟩
      | none =>
          rw [saveEdgesUntil, memory.saveEdge_of_anchored he]
          exact ih fun hes => h (List.forall_mem_cons.mpr ⟨he, hes⟩)

end Backend

/-! ## One operation -/

namespace StoreOperation

/-- What an operation hands over is read back from its written form as it was,
and a graph is one that additions and removals build. -/
structure Proper (op : StoreOperation) : Prop where
  readsBack : ∀ ps ∈ op.properties, Backend.durable.ReadsBack ps
  built : ∀ g, op = .saveGraph g → g.Reachable

theorem Proper.kept {op : StoreOperation} (h : op.Proper) :
    ∀ ps ∈ op.properties, Backend.durable.kept ps = ps :=
  fun ps hps => (h.readsBack ps hps).2

theorem Proper.leavesReadable {op : StoreOperation} (h : op.Proper) (s : Store) :
    op.LeavesReadable s :=
  fun ps hps => (h.readsBack ps (mem_properties_of_mem_leaves hps)).1

/-- Edges are saved as a batch between stored vertices only, and a batch delete
names no stored id again. -/
def Regular (s : Store) : StoreOperation → Prop
  | .saveEdges es => s.HasEnds es
  | .deleteVertices ids => s.NamesOnce ids
  | _ => True

end StoreOperation

namespace Backend

open StoreOperation

variable {op : StoreOperation} {s : Store} (hs : s.Readable .durable)

include hs

/-- On a store that can be read the backends answer a regular operation alike and
change the store alike. -/
theorem run_eq_of_regular (hop : op.Proper) (h : op.Regular s) :
    memory.run s op = durable.run s op := by
  have hkept := hop.kept
  have hm : s.Readable .memory := s.readable_memory
  cases op with
  | saveVertex v =>
      have hv : durable.kept v.properties = v.properties := hkept _ (by simp [properties])
      simp only [run, saveVertex, hv]
      rfl
  | saveEdge e =>
      have he : durable.kept e.properties = e.properties := hkept _ (by simp [properties])
      simp only [run, saveEdge, he]
      rfl
  | saveVertices vs =>
      have hvs : ∀ v ∈ vs, durable.kept v.properties = v.properties :=
        fun v hv => hkept _ (List.mem_map_of_mem hv)
      simp only [run, saveVertices_eq hvs, saveVertices_eq (b := memory) fun _ _ => rfl]
  | saveEdges es =>
      have hes : ∀ e ∈ es, durable.kept e.properties = e.properties :=
        fun e he => hkept _ (List.mem_map_of_mem he)
      simp only [run, saveEdges_memory_of_hasEnds h, saveEdges_durable_eq hes]
  | deleteVertex id => simp only [run, hm.deleteVertex_eq, hs.deleteVertex_eq]
  | deleteVertices ids =>
      simp only [run, hm.deleteVertices_eq, hs.deleteVertices_eq, missingVertex?_of_namesOnce h]
  | saveGraph g =>
      have hvs : ∀ v ∈ g.vertices.values, durable.kept v.properties = v.properties :=
        fun v hv => hkept _ (List.mem_append_left _ (List.mem_map_of_mem hv))
      have hes : ∀ e ∈ g.edges.values, durable.kept e.properties = e.properties :=
        fun e he => hkept _ (List.mem_append_right _ (List.mem_map_of_mem he))
      have hends := Store.hasEnds_of_wellFormed (hop.built g rfl).wellFormed
      simp only [run, saveGraph, Graph.snapshot, saveVertices_eq hvs,
        saveVertices_eq (b := memory) fun _ _ => rfl, saveEdges_memory_of_hasEnds hends,
        saveEdges_durable_eq hes]
  | getVertex id => simp only [run, hm.vertex?_eq, hs.vertex?_eq]
  | allVertices => simp only [run, hm.vertices_eq, hs.vertices_eq]
  | edgesFor id => simp only [run, hm.edgesFor_eq, hs.edgesFor_eq]
  | allEdges => simp only [run, hm.edges_eq, hs.edges_eq]
  | loadGraph => simp only [run, hm.loadGraph_eq, hs.loadGraph_eq]
  | deleteEdge _ | clear => rfl

/-- An operation that is not regular is answered differently. -/
theorem run_ne_of_not_regular (h : ¬ op.Regular s) :
    (memory.run s op).1 ≠ (durable.run s op).1 := by
  have hm : s.Readable .memory := s.readable_memory
  cases op with
  | saveEdges es =>
      obtain ⟨f, hf⟩ := saveEdges_memory_of_not_hasEnds h
      simp only [run, hf]
      simp [saveEdges, Except.map]
  | deleteVertices ids =>
      have hne : memory.missingVertex? s ids ≠ durable.missingVertex? s ids :=
        fun heq => h (missingVertex?_eq_iff.mp heq)
      simp only [run, hm.deleteVertices_eq, hs.deleteVertices_eq]
      intro heq
      cases hmissing : memory.missingVertex? s ids <;>
        cases hmissing' : durable.missingVertex? s ids <;> simp_all [Except.map]
  | _ => exact absurd trivial h

omit hs

/-! ## Sequences of operations -/

/-- Every operation meets a condition in the store that it finds. -/
def Along (b : Backend) (C : Store → StoreOperation → Prop) : List StoreOperation → Store → Prop
  | [], _ => True
  | op :: rest, s => C s op ∧ Along b C rest (b.run s op).2

/-- Every operation is regular in the store that it finds in memory. -/
def AllRegular : List StoreOperation → Store → Prop := memory.Along Regular

theorem runAll_cons (b : Backend) (op : StoreOperation) (rest : List StoreOperation) (s : Store) :
    b.runAll (op :: rest) s =
      ((b.run s op).1 :: (b.runAll rest (b.run s op).2).1, (b.runAll rest (b.run s op).2).2) := rfl

variable {ops : List StoreOperation}

theorem runAll_eq_of_allRegular (hs : s.Readable .durable) (hops : ∀ op ∈ ops, op.Proper)
    (h : AllRegular ops s) : memory.runAll ops s = durable.runAll ops s := by
  induction ops generalizing s with
  | nil => rfl
  | cons op rest ih =>
      obtain ⟨hop, hrest⟩ := List.forall_mem_cons.mp hops
      have hrun : memory.run s op = durable.run s op := run_eq_of_regular hs hop h.1
      have hs' : (memory.run s op).2.Readable .durable :=
        hrun ▸ (readable_run_iff hs hop.built).mpr (hop.leavesReadable s)
      rw [runAll_cons, runAll_cons, ← hrun, ih hs' hrest h.2]

theorem allRegular_of_answers_eq (hs : s.Readable .durable) (hops : ∀ op ∈ ops, op.Proper)
    (h : (memory.runAll ops s).1 = (durable.runAll ops s).1) : AllRegular ops s := by
  induction ops generalizing s with
  | nil => trivial
  | cons op rest ih =>
      obtain ⟨hop, hrest⟩ := List.forall_mem_cons.mp hops
      rw [runAll_cons, runAll_cons] at h
      obtain ⟨hfirst, hlater⟩ := List.cons.inj h
      have hregular : op.Regular s := by
        by_contra hn
        exact run_ne_of_not_regular hs hn hfirst
      -- up to the first operation that is not regular the stores are the same
      have hrun : memory.run s op = durable.run s op := run_eq_of_regular hs hop hregular
      have hs' : (memory.run s op).2.Readable .durable :=
        hrun ▸ (readable_run_iff hs hop.built).mpr (hop.leavesReadable s)
      rw [← hrun] at hlater
      exact ⟨hregular, ih hs' hrest hlater⟩

/-- **Where the backends are interchangeable.** On values that are read back as
they were written, the backends give the same answers to a sequence of
operations exactly when every batch of edges ends at vertices stored by then
and no batch delete names a stored id again; and then they also keep the same. -/
theorem answers_eq_iff_allRegular (hs : s.Readable .durable) (hops : ∀ op ∈ ops, op.Proper) :
    ((memory.runAll ops s).1 = (durable.runAll ops s).1 ↔ AllRegular ops s) ∧
      (AllRegular ops s → memory.runAll ops s = durable.runAll ops s) := by
  have hsame : AllRegular ops s → memory.runAll ops s = durable.runAll ops s :=
    runAll_eq_of_allRegular hs hops
  exact ⟨⟨allRegular_of_answers_eq hs hops, fun h => congrArg Prod.fst (hsame h)⟩, hsame⟩

/-! ### Batches that pass and batches that do not -/

/-- A server with a name. -/
def webServer : Vertex := ⟨"a", "server", Table.ofList [("name", .text "web")]⟩

def disk : Vertex := ⟨"b", "disk", ∅⟩

/-- The server has a disk. -/
def mount : Edge := ⟨"e", "a", "b", "has", Table.ofList [("tag", .bool true)]⟩

/-- A server and its disk. -/
def machine : Graph := (Graph.ofParts [webServer, disk] [mount]).toOption.getD .empty

/-- Two vertices that a batch joins, a batch delete that names an id again after
one that is not stored, and a graph in place of them. -/
def passing : List StoreOperation :=
  [.saveVertices [webServer, disk], .saveEdges [mount], .deleteVertices ["a", "c", "a"],
    .edgesFor "a", .deleteVertex "a", .loadGraph, .saveGraph machine, .loadGraph]

theorem answers_eq_iff_passing :
    Store.Readable {} .durable ∧ (∀ op ∈ passing, op.Proper) ∧
      ((memory.runAll passing {}).1 = (durable.runAll passing {}).1 ∧ AllRegular passing {}) ∧
      ((memory.runAll passing {}).1 = (durable.runAll passing {}).1 ↔ AllRegular passing {}) ∧
      (AllRegular passing {} → memory.runAll passing {} = durable.runAll passing {}) := by
  have hread : ∀ op ∈ passing, ∀ ps ∈ op.properties, durable.ReadsBack ps := by decide
  have hops : ∀ op ∈ passing, op.Proper := by
    refine fun op hop => ⟨hread op hop, ?_⟩
    rintro g rfl
    obtain rfl : g = machine := by simpa [passing] using hop
    exact Graph.reachable_ofParts
      (show Graph.ofParts [webServer, disk] [mount] = .ok machine from rfl)
  have hsame : (memory.runAll passing {}).1 = (durable.runAll passing {}).1 := by rfl
  have hempty : Store.Readable {} .durable := Store.readable_empty .durable
  have hiff := answers_eq_iff_allRegular hempty hops
  exact ⟨hempty, hops, ⟨hsame, hiff.1.mp hsame⟩, hiff⟩

/-- A batch with an edge that ends nowhere. -/
def dangling : List StoreOperation := [.saveVertex webServer, .saveEdges [mount], .loadGraph]

/-- A batch delete that names a stored id twice. -/
def repeating : List StoreOperation := [.saveVertex webServer, .deleteVertices ["a", "a"]]

/-- The edge that ends nowhere is refused in memory only, and the durable store
cannot be loaded after it. The id that is named twice is refused durably only. -/
theorem answers_ne_dangling_repeating :
    (∀ op ∈ dangling ++ repeating, op.Proper) ∧
      (memory.runAll dangling {}).1 = [.ok .done, .error (.vertexNotFound "b"),
        .ok (.graph (Graph.empty.addVertex webServer))] ∧
      (durable.runAll dangling {}).1 = [.ok .done, .ok .done,
        .error (.inconsistent (.vertexNotFound "b"))] ∧
      (memory.runAll repeating {}).1 = [.ok .done, .ok .done] ∧
      (durable.runAll repeating {}).1 = [.ok .done, .error (.vertexNotFound "a")] := by
  have hread : ∀ op ∈ dangling ++ repeating, ∀ ps ∈ op.properties, durable.ReadsBack ps := by
    decide
  refine ⟨fun op hop => ⟨hread op hop, ?_⟩, by rfl, by rfl, by rfl, by rfl⟩
  rintro g rfl
  simp [dangling, repeating] at hop

end Backend

end Inventory
