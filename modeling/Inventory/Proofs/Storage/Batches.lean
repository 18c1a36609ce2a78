import Inventory.Storage.Store

/-!
# Storage — what saving and deleting leave

Of entries that are saved one after another the last one of every id stays, and
what was stored before under other ids. Vertices are deleted with all edges at
them, or the delete is refused and nothing is.
-/

namespace Inventory

/-! ## Lists in which later members replace earlier ones -/

section

variable {α β : Type} {key : α → String} {xs : List α} {x y : α}

/-- The members of a list whose key no later member has. -/
def lasting (key : α → String) : List α → List α
  | [] => []
  | x :: xs => if xs.any (key · == key x) then lasting key xs else x :: lasting key xs

theorem mem_of_mem_lasting (h : x ∈ lasting key xs) : x ∈ xs := by
  induction xs with
  | nil => cases h
  | cons y xs ih =>
      rw [lasting] at h
      split at h
      · exact List.mem_cons_of_mem _ (ih h)
      · rcases List.mem_cons.mp h with rfl | h
        · exact List.mem_cons_self
        · exact List.mem_cons_of_mem _ (ih h)

/-- A member lasts when none after it has its key. -/
theorem mem_lasting_cons :
    x ∈ lasting key (y :: xs) ↔ (x = y ∧ ∀ z ∈ xs, key z ≠ key x) ∨ x ∈ lasting key xs := by
  have hany : xs.any (key · == key y) = true ↔ ¬ ∀ z ∈ xs, key z ≠ key y := by simp
  rw [lasting]
  split
  · next h =>
      have hno := hany.mp h
      constructor
      · exact .inr
      · rintro (⟨rfl, hnew⟩ | hmem)
        · exact absurd hnew hno
        · exact hmem
  · next h =>
      have hnew : ∀ z ∈ xs, key z ≠ key y :=
        Decidable.not_not.mp (mt hany.mpr h)
      rw [List.mem_cons]
      constructor
      · rintro (rfl | hmem)
        · exact .inl ⟨rfl, hnew⟩
        · exact .inr hmem
      · rintro (⟨rfl, -⟩ | hmem)
        · exact .inl rfl
        · exact .inr hmem

/-- A member that does not last is replaced by one that does. -/
theorem exists_lasting (key : α → String) (h : x ∈ xs) : ∃ y ∈ lasting key xs, key y = key x := by
  induction xs generalizing x with
  | nil => cases h
  | cons y xs ih =>
      by_cases hlater : ∃ z ∈ xs, key z = key x
      · obtain ⟨z, hz, hkey⟩ := hlater
        obtain ⟨l, hl, hkey'⟩ := ih hz
        exact ⟨l, mem_lasting_cons.mpr (.inr hl), hkey'.trans hkey⟩
      · rcases List.mem_cons.mp h with rfl | h
        · refine ⟨x, mem_lasting_cons.mpr (.inl ⟨rfl, fun z hz hkey => ?_⟩), rfl⟩
          exact hlater ⟨z, hz, hkey⟩
        · exact absurd ⟨x, h, rfl⟩ hlater

/-- Which members last is a matter of their keys. -/
theorem lasting_map {f : α → α} (hf : ∀ x, key (f x) = key x) (xs : List α) :
    lasting key (xs.map f) = (lasting key xs).map f := by
  induction xs with
  | nil => rfl
  | cons x xs ih =>
      have hany : (xs.map f).any (key · == key (f x)) = xs.any (key · == key x) := by
        simp [hf, Function.comp_def]
      rw [List.map_cons, lasting, lasting, hany, ih]
      split <;> rfl

/-- Where keys are different all members last. -/
theorem lasting_of_nodup (h : (xs.map key).Nodup) : lasting key xs = xs := by
  induction xs with
  | nil => rfl
  | cons x xs ih =>
      rw [List.map_cons, List.nodup_cons] at h
      have hany : ¬ xs.any (key · == key x) = true := by
        simpa using fun y hy heq => h.1 (List.mem_map.mpr ⟨y, hy, heq⟩)
      rw [lasting, if_neg hany, ih h.2]

/-- The last member of a key is the one that lasts. -/
theorem find?_reverse_eq_some {k : String} :
    xs.reverse.find? (key · == k) = some x ↔ x ∈ lasting key xs ∧ key x = k := by
  induction xs with
  | nil => simp [lasting]
  | cons y xs ih =>
      rw [List.reverse_cons, List.find?_append, Option.or_eq_some_iff, ih, List.find?_eq_none,
        List.find?_singleton, mem_lasting_cons]
      simp only [List.mem_reverse, beq_iff_eq, Option.ite_none_right_eq_some, Option.some.injEq]
      constructor
      · rintro (⟨hmem, hkey⟩ | ⟨hnew, hkey, rfl⟩)
        · exact ⟨.inr hmem, hkey⟩
        · exact ⟨.inl ⟨rfl, fun z hz hz' => hnew z hz (hz'.trans hkey)⟩, hkey⟩
      · rintro ⟨⟨rfl, hnew⟩ | hmem, hkey⟩
        · exact .inr ⟨fun z hz hz' => hnew z hz (hz'.trans hkey.symm), hkey, rfl⟩
        · exact .inl ⟨hmem, hkey⟩

theorem Table.get?_foldl_put (key : α → String) (xs : List α) (t : Table α) (k : String) :
    (xs.foldl (fun t x => t.put (key x) x) t).get? k =
      (xs.reverse.find? (key · == k)).or (t.get? k) := by
  induction xs generalizing t with
  | nil => rfl
  | cons x xs ih =>
      rw [List.foldl_cons, ih, Table.get?_put, List.reverse_cons, List.find?_append,
        List.find?_singleton, Option.or_assoc]
      by_cases hk : key x = k
      · simp [hk]
      · simp [hk, Ne.symm hk]

/-- Of entries that are put one after another the lasting ones stand in the table,
and what stood there before under other keys. -/
theorem Table.get?_foldl_put_eq_some {t : Table α} {k : String} :
    (xs.foldl (fun t x => t.put (key x) x) t).get? k = some x ↔
      (x ∈ lasting key xs ∧ key x = k) ∨ (∀ y ∈ xs, key y ≠ k) ∧ t.get? k = some x := by
  rw [Table.get?_foldl_put, Option.or_eq_some_iff, find?_reverse_eq_some, List.find?_eq_none]
  simp

end

theorem Table.filter_true {α : Type} (t : Table α) : t.filter (fun _ _ => true) = t := by
  refine ext fun k => ?_
  rw [get?_filter]
  cases t.get? k <;> rfl

/-! ## Entries that are put -/

namespace Store

theorem foldl_putVertex (vs : List Vertex) (s : Store) :
    vs.foldl putVertex s =
      { s with vertices := vs.foldl (fun t v => t.put v.id v) s.vertices } := by
  induction vs generalizing s with
  | nil => rfl
  | cons v vs ih => exact ih (s.putVertex v)

theorem foldl_putEdge (es : List Edge) (s : Store) :
    es.foldl putEdge s = { s with edges := es.foldl (fun t e => t.put e.id e) s.edges } := by
  induction es generalizing s with
  | nil => rfl
  | cons e es ih => exact ih (s.putEdge e)

theorem vertices_putVertices {vs : List Vertex} {s : Store} {id : VertexId} {v : Vertex} :
    (vs.foldl putVertex s).vertices.get? id = some v ↔
      (v ∈ lasting Vertex.id vs ∧ v.id = id) ∨
        (∀ w ∈ vs, w.id ≠ id) ∧ s.vertices.get? id = some v := by
  rw [foldl_putVertex]
  exact Table.get?_foldl_put_eq_some

theorem edges_putEdges {es : List Edge} {s : Store} {i : EdgeId} {e : Edge} :
    (es.foldl putEdge s).edges.get? i = some e ↔
      (e ∈ lasting Edge.id es ∧ e.id = i) ∨ (∀ f ∈ es, f.id ≠ i) ∧ s.edges.get? i = some e := by
  rw [foldl_putEdge]
  exact Table.get?_foldl_put_eq_some

/-- Without ids nothing is taken away. -/
theorem dropVertices_nil (s : Store) : s.dropVertices [] = s := by
  show (⟨s.vertices.filter fun _ _ => true, s.edges.filter fun _ _ => true⟩ : Store) = s
  rw [Table.filter_true, Table.filter_true]

end Store

/-! ## Entries that are saved -/

namespace Backend

/-- A vertex in the form in which it is kept. -/
def keptVertex (b : Backend) (v : Vertex) : Vertex := { v with properties := b.kept v.properties }

/-- An edge in the form in which it is kept. -/
def keptEdge (b : Backend) (e : Edge) : Edge := { e with properties := b.kept e.properties }

theorem saveVertices_kept (b : Backend) (vs : List Vertex) (s : Store) :
    vs.foldl b.saveVertex s = (vs.map b.keptVertex).foldl Store.putVertex s := by
  rw [List.foldl_map]
  rfl

theorem saveEdges_durable (es : List Edge) (s : Store) :
    durable.saveEdges es s = (.ok (), (es.map durable.keptEdge).foldl Store.putEdge s) := by
  rw [List.foldl_map]
  rfl

theorem saveEdge_of_anchored (b : Backend) {s : Store} {e : Edge} (h : s.missingEnd? e = none) :
    b.saveEdge s e = .ok (s.putEdge (b.keptEdge e)) := by
  have hends : s.missingEnd? (b.keptEdge e) = none := h
  show s.saveEdge (b.keptEdge e) = _
  rw [Store.saveEdge, hends]

theorem saveEdge_of_missing (b : Backend) {s : Store} {e : Edge} {id : VertexId}
    (h : s.missingEnd? e = some id) : b.saveEdge s e = .error (.vertexNotFound id) := by
  have hends : s.missingEnd? (b.keptEdge e) = some id := h
  show s.saveEdge (b.keptEdge e) = _
  rw [Store.saveEdge, hends]

theorem saveEdge_eq_ok {b : Backend} {s s' : Store} {e : Edge} (h : b.saveEdge s e = .ok s') :
    s.missingEnd? e = none ∧ s' = s.putEdge (b.keptEdge e) := by
  cases hends : s.missingEnd? e with
  | none =>
      rw [b.saveEdge_of_anchored hends] at h
      cases h
      exact ⟨rfl, rfl⟩
  | some id =>
      rw [b.saveEdge_of_missing hends] at h
      cases h

/-- What each save of one vertex keeps, saves one after another keep. -/
theorem saveVertices_keeps {b : Backend} {P : Store → Prop}
    (hstep : ∀ {s} v, P s → P (b.saveVertex s v)) (vs : List Vertex) {s : Store} (hs : P s) :
    P (vs.foldl b.saveVertex s) := by
  induction vs generalizing s with
  | nil => exact hs
  | cons v vs ih => exact ih (hstep v hs)

/-- What each save of one edge keeps, saves one after another keep. -/
theorem saveEdgesUntil_keeps {b : Backend} {P : Store → Prop}
    (hstep : ∀ {s s' e}, b.saveEdge s e = .ok s' → P s → P s') (es : List Edge) {s : Store}
    (hs : P s) : P (b.saveEdgesUntil es s).2 := by
  induction es generalizing s with
  | nil => exact hs
  | cons e es ih =>
      rw [saveEdgesUntil]
      split
      · next s' h => exact ih (hstep h hs)
      · exact hs

/-- What a batch of vertices stores: the lasting ones, and what was stored before
under other ids. -/
theorem vertices_saveVertices {b : Backend} {vs : List Vertex} {s : Store} {id : VertexId}
    {w : Vertex} :
    (vs.foldl b.saveVertex s).vertices.get? id = some w ↔
      (∃ v ∈ lasting Vertex.id vs, v.id = id ∧ b.keptVertex v = w) ∨
        (∀ v ∈ vs, v.id ≠ id) ∧ s.vertices.get? id = some w := by
  have hlasting : lasting Vertex.id (vs.map b.keptVertex) =
      (lasting Vertex.id vs).map b.keptVertex :=
    lasting_map (f := b.keptVertex) (fun _ => rfl) vs
  rw [saveVertices_kept, Store.vertices_putVertices, hlasting]
  refine or_congr ⟨?_, ?_⟩ (by simp [keptVertex])
  · rintro ⟨hw, hid⟩
    obtain ⟨v, hv, rfl⟩ := List.mem_map.mp hw
    exact ⟨v, hv, hid, rfl⟩
  · rintro ⟨v, hv, hid, rfl⟩
    exact ⟨List.mem_map_of_mem hv, hid⟩

theorem edges_saveVertices (b : Backend) (vs : List Vertex) (s : Store) :
    (vs.foldl b.saveVertex s).edges = s.edges :=
  saveVertices_keeps (P := fun s' => s'.edges = s.edges) (fun _ hs => hs) vs rfl

theorem vertices_saveEdges_durable (es : List Edge) (s : Store) :
    (durable.saveEdges es s).2.vertices = s.vertices := by
  rw [saveEdges_durable, Store.foldl_putEdge]

/-- What a batch of edges on the durable backend stores: the lasting ones, and what
was stored before under other ids. -/
theorem edges_saveEdges_durable {es : List Edge} {s : Store} {i : EdgeId} {f : Edge} :
    (durable.saveEdges es s).2.edges.get? i = some f ↔
      (∃ e ∈ lasting Edge.id es, e.id = i ∧ durable.keptEdge e = f) ∨
        (∀ e ∈ es, e.id ≠ i) ∧ s.edges.get? i = some f := by
  have hlasting : lasting Edge.id (es.map durable.keptEdge) =
      (lasting Edge.id es).map durable.keptEdge :=
    lasting_map (f := durable.keptEdge) (fun _ => rfl) es
  rw [saveEdges_durable, Store.edges_putEdges, hlasting]
  refine or_congr ⟨?_, ?_⟩ (by simp [keptEdge])
  · rintro ⟨hf, hi⟩
    obtain ⟨e, he, rfl⟩ := List.mem_map.mp hf
    exact ⟨e, he, hi, rfl⟩
  · rintro ⟨e, he, hi, rfl⟩
    exact ⟨List.mem_map_of_mem he, hi⟩

/-! ## Entries that are deleted -/

theorem dropVertices_cases (b : Backend) (ids : List VertexId) (s : Store) :
    b.dropVertices ids s = (.ok (), s.dropVertices ids) ∨
      ∃ f, b.dropVertices ids s = (.error f, s) := by
  rw [dropVertices]
  cases b.edges s with
  | ok _ => exact .inl rfl
  | error f => exact .inr ⟨f, rfl⟩

theorem deleteVertex_cases (b : Backend) (id : VertexId) (s : Store) :
    b.deleteVertex id s = (.ok (), s.dropVertices [id]) ∨
      ∃ f, b.deleteVertex id s = (.error f, s) := by
  rw [deleteVertex]
  split
  · exact b.dropVertices_cases [id] s
  · exact .inr ⟨_, rfl⟩

theorem deleteVertices_cases (b : Backend) (ids : List VertexId) (s : Store) :
    b.deleteVertices ids s = (.ok (), s.dropVertices ids) ∨
      ∃ f, b.deleteVertices ids s = (.error f, s) := by
  rw [deleteVertices]
  split
  · exact .inr ⟨_, rfl⟩
  · split
    · next hnil =>
        obtain rfl := List.isEmpty_iff.mp hnil
        exact .inl (congrArg (Prod.mk _) s.dropVertices_nil.symm)
    · exact b.dropVertices_cases ids s

/-- What is kept when vertices are taken away is kept when one is deleted or that is
refused. -/
theorem deleteVertex_keeps {b : Backend} {P : Store → Prop} {s : Store} (hs : P s)
    (hdrop : ∀ ids, P (s.dropVertices ids)) (id : VertexId) : P (b.deleteVertex id s).2 := by
  rcases b.deleteVertex_cases id s with h | ⟨f, h⟩
  · exact h ▸ hdrop [id]
  · exact h ▸ hs

theorem deleteVertices_keeps {b : Backend} {P : Store → Prop} {s : Store} (hs : P s)
    (hdrop : ∀ ids, P (s.dropVertices ids)) (ids : List VertexId) : P (b.deleteVertices ids s).2 := by
  rcases b.deleteVertices_cases ids s with h | ⟨f, h⟩
  · exact h ▸ hdrop ids
  · exact h ▸ hs

end Backend

end Inventory
