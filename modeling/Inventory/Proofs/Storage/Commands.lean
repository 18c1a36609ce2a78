import Inventory.Proofs.CommandLine.Performing
import Inventory.Proofs.Storage.Saving

/-!
# Storage — one command after another

A command that changes a store works on the loaded graph and then saves without
looking at the ends of edges. What keeps the store loadable is that only what the
loaded graph has accepted is saved, and that vertices are deleted with the edges
at them. What was taken in is stored id by id as it was merged, but each value as
it is read back from its text.
-/

namespace Inventory

/-! ## What taking in leaves -/

/-- Tables in which the same entries are replaced, in one of them in another form,
are equal exactly when that form is the same. -/
theorem Table.eq_iff_of_replaced {α : Type} {t t' t₀ : Table α} {f : α → α}
    {last? : String → Option α} (ht : ∀ k, t.get? k = ((last? k).map f).or (t₀.get? k))
    (ht' : ∀ k, t'.get? k = (last? k).or (t₀.get? k)) :
    t = t' ↔ ∀ {k x}, last? k = some x → f x = x := by
  constructor
  · rintro rfl k x hx
    have hk := (ht k).symm.trans (ht' k)
    rw [hx] at hk
    exact Option.some.inj hk
  · refine fun h => Table.ext fun k => ?_
    rw [ht, ht']
    cases hx : last? k with
    | none => rfl
    | some x => exact congrArg some (h hx)

namespace Snapshot

open Backend (durable)

/-- The last vertex of an id. -/
def lastVertex? (p : Snapshot) (id : VertexId) : Option Vertex :=
  p.vertices.reverse.find? (·.id == id)

/-- The last edge of an id. -/
def lastEdge? (p : Snapshot) (i : EdgeId) : Option Edge := p.edges.reverse.find? (·.id == i)

/-- The last vertex and edge of every id are read back as they were written. -/
structure ReadsBack (p : Snapshot) : Prop where
  vertex : ∀ {id v}, p.lastVertex? id = some v → durable.keptVertex v = v
  edge : ∀ {i e}, p.lastEdge? i = some e → durable.keptEdge e = e

end Snapshot

namespace Store

open Backend (durable)

/-- Entries stand under their ids and can be read, and edges end at stored vertices. -/
structure Consistent (s : Store) : Prop where
  filed : s.Filed
  closed : s.Closed
  readable : s.Readable durable

theorem consistent_empty : Consistent {} := ⟨filed_empty, closed_empty, readable_empty durable⟩

theorem Consistent.loadable {s : Store} (hs : s.Consistent) : ∃ g, durable.loadGraph s = .ok g :=
  hs.filed.loadable_iff.mpr ⟨hs.closed, hs.readable⟩

theorem saveParts_eq (s : Store) (parts : Snapshot) :
    s.saveParts parts = (.ok (),
      ⟨(parts.vertices.map durable.keptVertex).foldl (fun t v => t.put v.id v) s.vertices,
        (parts.edges.map durable.keptEdge).foldl (fun t e => t.put e.id e) s.edges⟩) := by
  rw [saveParts, Backend.saveVertices_kept, Backend.saveEdges_durable, foldl_putVertex,
    foldl_putEdge]

/-- The graph that a snapshot is merged into. -/
theorem merged_eq {stored merged : Graph} {incoming : Snapshot}
    (h : incoming.edges.foldlM Graph.addEdge (incoming.vertices.foldl Graph.addVertex stored) =
      .ok merged) :
    (∀ id, merged.vertices.get? id =
        (incoming.lastVertex? id).or (stored.vertices.get? id)) ∧
      ∀ i, merged.edges.get? i = (incoming.lastEdge? i).or (stored.edges.get? i) := by
  obtain ⟨hvertices, hedges, -⟩ := Graph.foldlM_addEdge_eq_ok h
  obtain ⟨hvertices₀, hedges₀, -⟩ := Graph.foldl_addVertex incoming.vertices stored
  rw [hvertices, hedges, hvertices₀, hedges₀]
  exact ⟨Table.get?_foldl_put _ _ _, Table.get?_foldl_put _ _ _⟩

/-- What the store `s'` is after a snapshot was taken in by the store `s`. -/
structure TakesIn (s : Store) (incoming : Snapshot) (s' : Store) : Prop where
  /-- The last incoming vertex of an id stands in the place of the one before. -/
  vertex : ∀ id, s'.vertices.get? id =
    ((incoming.lastVertex? id).map durable.keptVertex).or (s.vertices.get? id)
  edge : ∀ i, s'.edges.get? i =
    ((incoming.lastEdge? i).map durable.keptEdge).or (s.edges.get? i)
  /-- The snapshot was merged into the loaded graph; what is loaded afterwards is the
  merged graph exactly when what was taken in is read back as it was written. -/
  merged : ∃ stored merged loaded, durable.loadGraph s = .ok stored ∧
    incoming.edges.foldlM Graph.addEdge (incoming.vertices.foldl Graph.addVertex stored) =
      .ok merged ∧
    durable.loadGraph s' = .ok loaded ∧ (loaded.snapshot = merged.snapshot ↔ incoming.ReadsBack)

theorem vertices_saveParts (s : Store) (parts : Snapshot) (id : VertexId) :
    (s.saveParts parts).2.vertices.get? id =
      ((parts.lastVertex? id).map durable.keptVertex).or (s.vertices.get? id) := by
  rw [saveParts_eq, Table.get?_foldl_put, ← List.map_reverse, List.find?_map]
  rfl

theorem edges_saveParts (s : Store) (parts : Snapshot) (i : EdgeId) :
    (s.saveParts parts).2.edges.get? i =
      ((parts.lastEdge? i).map durable.keptEdge).or (s.edges.get? i) := by
  rw [saveParts_eq, Table.get?_foldl_put, ← List.map_reverse, List.find?_map]
  rfl

section

variable {s : Store} {incoming : Snapshot} {stored merged : Graph}

/-- A snapshot whose doubles are finite is saved in a form that can be read. -/
theorem Readable.saveParts (hs : s.Readable durable)
    (hfinite : ∀ x ∈ incoming.reals, x.isFinite = true) :
    (s.saveParts incoming).2.Readable durable := by
  have hvertices : (incoming.vertices.foldl durable.saveVertex s).Readable durable :=
    (hs.saveVertices_iff _).mpr fun v hv => Backend.reads_durable_iff.mpr fun x hx =>
      hfinite x (Snapshot.mem_reals_of_vertex (mem_of_mem_lasting hv) hx)
  exact (hvertices.saveEdges_durable_iff _).mpr fun e he => Backend.reads_durable_iff.mpr
    fun x hx => hfinite x (Snapshot.mem_reals_of_edge (mem_of_mem_lasting he) hx)

variable (hs : s.Consistent) (hfinite : ∀ x ∈ incoming.reals, x.isFinite = true)
  (hload : durable.loadGraph s = .ok stored)
  (hmerged : incoming.edges.foldlM Graph.addEdge
    (incoming.vertices.foldl Graph.addVertex stored) = .ok merged)

include hs hfinite hload hmerged

/-- What the loaded graph has accepted leaves the store consistent. -/
theorem Consistent.saveParts : (s.saveParts incoming).2.Consistent := by
  refine ⟨(hs.filed.saveVertices _ _).saveEdges _ _, ?_, hs.readable.saveParts hfinite⟩
  refine (hs.closed.saveVertices _ _).saveEdges_durable_iff.mpr fun e he => ?_
  obtain ⟨hout, hin⟩ := (Graph.foldlM_addEdge_eq_ok hmerged).2.2 e (mem_of_mem_lasting he)
  -- the store holds vertices under the ids under which the graph does
  have hcontains : ∀ {id},
      (incoming.vertices.foldl Graph.addVertex stored).contains id = true →
        (incoming.vertices.foldl durable.saveVertex s).vertices.contains id = true := by
    intro id hid
    rw [Graph.contains, (Graph.foldl_addVertex incoming.vertices stored).1,
      (hs.filed.loadGraph_eq_ok hload).1] at hid
    refine Backend.contains_saveVertices.mpr (contains_putVertices.mp ?_)
    rwa [foldl_putVertex]
  exact missingEnd?_eq_none.mpr ⟨hcontains hout, hcontains hin⟩

theorem Consistent.takesIn : s.TakesIn incoming (s.saveParts incoming).2 := by
  have hs' : (s.saveParts incoming).2.Consistent := hs.saveParts hfinite hload hmerged
  obtain ⟨loaded, hloaded⟩ := hs'.loadable
  refine ⟨vertices_saveParts s incoming, edges_saveParts s incoming,
    stored, merged, loaded, hload, hmerged, hloaded, ?_⟩
  obtain ⟨hstored, hstored', hbuilt⟩ := hs.filed.loadGraph_eq_ok hload
  obtain ⟨hvertices, hedges, -⟩ := hs'.filed.loadGraph_eq_ok hloaded
  have wf : merged.WellFormed := (hbuilt.reachable.addParts hmerged).wellFormed
  have hmergedVertices := (merged_eq hmerged).1
  have hmergedEdges := (merged_eq hmerged).2
  rw [hstored] at hmergedVertices
  rw [hstored'] at hmergedEdges
  have hsame : loaded.snapshot = merged.snapshot ↔
      (s.saveParts incoming).2.vertices = merged.vertices ∧
        (s.saveParts incoming).2.edges = merged.edges := by
    rw [Graph.snapshot, Graph.snapshot, hvertices, hedges, Snapshot.mk.injEq]
    constructor
    · rintro ⟨hvs, hes⟩
      exact ⟨Table.eq_of_values_eq hs'.filed.vertex_id wf.vertex_id hvs,
        Table.eq_of_values_eq hs'.filed.edge_id wf.edge_id hes⟩
    · rintro ⟨hvs, hes⟩
      exact ⟨congrArg _ hvs, congrArg _ hes⟩
  rw [hsame, Table.eq_iff_of_replaced (vertices_saveParts s incoming) hmergedVertices,
    Table.eq_iff_of_replaced (edges_saveParts s incoming) hmergedEdges]
  exact ⟨fun h => ⟨h.1, h.2⟩, fun h => ⟨h.vertex, h.edge⟩⟩

end

/-! ## What a change does -/

/-- A snapshot is taken in as a whole, after the loaded graph has accepted it, or
not at all. -/
theorem takeIn_cases (s : Store) (incoming : Snapshot) (merge : Bool) :
    (∃ f, s.takeIn incoming merge = (.error f, s)) ∨
      ∃ stored merged, durable.loadGraph s = .ok stored ∧
        incoming.edges.foldlM Graph.addEdge
          (incoming.vertices.foldl Graph.addVertex stored) = .ok merged ∧
        s.takeIn incoming merge = (.ok (), (s.saveParts incoming).2) := by
  rw [takeIn]
  cases hload : durable.loadGraph s with
  | error e => exact .inl ⟨_, rfl⟩
  | ok stored =>
      dsimp only
      split
      · exact .inl ⟨_, rfl⟩
      · cases hmerged : incoming.edges.foldlM Graph.addEdge
            (incoming.vertices.foldl Graph.addVertex stored) with
        | error e => exact .inl ⟨_, rfl⟩
        | ok merged =>
            refine .inr ⟨stored, merged, rfl, hmerged, ?_⟩
            rw [saveParts_eq]
            rfl

/-- Of an instance all vertices that are removed go, or none. -/
theorem deleteInstance_cases (s : Store) (ctx : Context) (rootId : VertexId)
    (modelId modelVersion : String) (version : Option String) :
    (∃ f, s.deleteInstance ctx rootId modelId modelVersion version = (.error f, s)) ∨
      ∃ removed, s.deleteInstance ctx rootId modelId modelVersion version =
        (.ok removed, s.dropVertices removed.keys) := by
  rw [deleteInstance]
  cases durable.loadGraph s with
  | error e => exact .inl ⟨_, rfl⟩
  | ok graph =>
      dsimp only
      split
      · exact .inl ⟨_, rfl⟩
      · next removed _ =>
          rcases durable.deleteVertices_cases removed.keys s with h | ⟨f, h⟩
          · exact .inr ⟨removed, by rw [h]; rfl⟩
          · exact .inl ⟨_, by rw [h]; rfl⟩

end Store

namespace CommandLine

/-- The doubles of a snapshot that a file holds are finite. -/
theorem Surroundings.isFinite_snapshot {w : Surroundings} {file : String} {parts : Snapshot}
    (h : w.snapshot file = .ok parts) : ∀ x ∈ parts.reals, x.isFinite = true := by
  obtain ⟨text, -, h⟩ := Outcome.bind_eq_ok.mp h
  split at h
  · cases h
  · next hread =>
    cases h
    obtain ⟨j, hj, hparts⟩ := Option.bind_eq_some_iff.mp hread
    exact Snapshot.isFinite_ofJson? (Json.isFinite_parse hj) hparts

namespace StoreCommand

open Backend (durable)

variable {w : Surroundings} {s : Store}

/-- Whatever a command does, it keeps the store, takes a snapshot in, or deletes. -/
theorem change_cases (c : StoreCommand) (w : Surroundings) (s : Store) :
    (∃ e, c.change w s = (.error e, s)) ∨
      (∃ file merge incoming stored merged, c = .takeIn file merge ∧
        w.snapshot file = .ok incoming ∧ durable.loadGraph s = .ok stored ∧
        incoming.edges.foldlM Graph.addEdge
          (incoming.vertices.foldl Graph.addVertex stored) = .ok merged ∧
        c.change w s = (.ok (), (s.saveParts incoming).2)) ∨
      ∃ rootId m version, c = .delete rootId m version ∧
        ∃ ids, c.change w s = (.ok (), s.dropVertices ids) := by
  cases c with
  | takeIn file merge =>
      rw [change]
      cases hparts : w.snapshot file with
      | error e => exact .inl ⟨_, rfl⟩
      | ok incoming =>
          rcases s.takeIn_cases incoming merge with ⟨f, h⟩ | ⟨stored, merged, hload, hmerged, h⟩
          · exact .inl ⟨_, congrArg ended h⟩
          · exact .inr (.inl ⟨file, merge, incoming, stored, merged, rfl, hparts, hload, hmerged,
              congrArg ended h⟩)
  | delete rootId m version =>
      rw [change]
      cases w.settings.context with
      | error e => exact .inl ⟨_, rfl⟩
      | ok ctx =>
          rcases s.deleteInstance_cases ctx rootId m.id m.version version with ⟨f, h⟩ | ⟨removed, h⟩
          · exact .inl ⟨_, congrArg ended h⟩
          · exact .inr (.inr ⟨rootId, m, version, rfl, removed.keys, congrArg ended h⟩)

/-- One command leaves a consistent store consistent. -/
theorem consistent_change (hs : s.Consistent) (c : StoreCommand) :
    (c.change w s).2.Consistent := by
  rcases c.change_cases w s with ⟨e, h⟩ | ⟨file, merge, incoming, stored, merged, -, hparts, hload,
    hmerged, h⟩ | ⟨rootId, m, version, -, ids, h⟩
  · rw [h]
    exact hs
  · rw [h]
    exact hs.saveParts (Surroundings.isFinite_snapshot hparts) hload hmerged
  · rw [h]
    exact ⟨hs.filed.dropVertices ids, hs.closed.dropVertices ids, hs.readable.dropVertices ids⟩

/-- The store after commands, each in its surroundings. -/
def changeAll : List (Surroundings × StoreCommand) → Store → Store
  | [], s => s
  | (w, c) :: rest, s => changeAll rest (c.change w s).2

theorem consistent_changeAll (hs : s.Consistent) (past : List (Surroundings × StoreCommand)) :
    (changeAll past s).Consistent := by
  induction past generalizing s with
  | nil => exact hs
  | cons first rest ih => exact ih (consistent_change hs first.2)

/-- What a command does in a store. -/
structure Keeps (w : Surroundings) (s : Store) (c : StoreCommand) : Prop where
  /-- The program ends as the change does, and writes the changed store or nothing. -/
  performed : ∀ format path, EndsAs w.files path
    (c.command.run w.freshId format w.settings ⟨path, s⟩) (c.change w s)
  loadable : ∃ g, durable.loadGraph (c.change w s).2 = .ok g
  /-- A command that fails changes nothing. -/
  refused : ∀ {e}, (c.change w s).1 = .error e → (c.change w s).2 = s
  /-- A file is taken in as the loaded graph was merged with it. -/
  takenIn : ∀ {file merge}, c = .takeIn file merge → (c.change w s).1 = .ok () →
    ∃ incoming, w.snapshot file = .ok incoming ∧ s.TakesIn incoming (c.change w s).2

/-- **Commands keep a store.** Whatever commands have changed an empty store, in
whatever surroundings, the next one leaves a store that can be loaded: what it was
when the command fails, and what the merged graph holds, id by id, when a file was
taken in. -/
theorem changeAll_keeps (past : List (Surroundings × StoreCommand)) (w : Surroundings)
    (c : StoreCommand) : c.Keeps w (changeAll past {}) := by
  have hs : (changeAll past {}).Consistent := consistent_changeAll Store.consistent_empty past
  generalize changeAll past {} = s at hs
  refine ⟨fun format path => endsAs_change c w format ⟨path, s⟩,
    (consistent_change hs c).loadable, fun {e} he => ?_, fun {file merge} hc hok => ?_⟩
  · rcases c.change_cases w s with ⟨f, h⟩ | ⟨_, _, _, _, _, -, -, -, -, h⟩ | ⟨_, _, _, -, _, h⟩
    · rw [h]
    · rw [h] at he
      cases he
    · rw [h] at he
      cases he
  · rcases c.change_cases w s with ⟨f, h⟩ |
      ⟨file', merge', incoming, stored, merged, hc', hparts, hload, hmerged, h⟩ |
      ⟨_, _, _, hc', -⟩
    · rw [h] at hok
      cases hok
    · obtain ⟨rfl, rfl⟩ := StoreCommand.takeIn.inj (hc.symm.trans hc')
      rw [h]
      exact ⟨incoming, hparts,
        hs.takesIn (Surroundings.isFinite_snapshot hparts) hload hmerged⟩
    · rw [hc] at hc'
      cases hc'

/-! ### A value that is not read back as it was written -/

/-- A file that gives the load of a server in more digits than a double has. -/
def measured : Surroundings where
  files path :=
    if path = "in.json" then
      .ok (.text ("\x7b\"vertices\": [\x7b\"id\": \"a\", \"node_type\": \"server\", " ++
        "\"properties\": \x7b\"load\": 0.1027437522425906531\x7d\x7d], \"edges\": []\x7d"))
    else .error .missing
  settings := {}
  freshId n := toString n

/-- A server under a load. -/
def underLoad (x : Float) : Snapshot :=
  ⟨[⟨"a", "server", Table.ofList [("load", .real x)]⟩], []⟩

/-- The load is merged as one double and loaded as the one before it: the text of a
double is read in two roundings. -/
theorem not_readsBack_measured :
    measured.snapshot "in.json" = .ok (underLoad 0.10274375224259065) ∧
      ((takeIn "in.json" false).change measured {}).1 = .ok () ∧
      (Graph.ofSnapshot (underLoad 0.10274375224259065)).map Graph.snapshot =
        .ok (underLoad 0.10274375224259065) ∧
      (durable.loadGraph ((takeIn "in.json" false).change measured {}).2).map Graph.snapshot =
        .ok (underLoad 0.10274375224259064) ∧
      underLoad 0.10274375224259064 ≠ underLoad 0.10274375224259065 := by
  have hread : measured.snapshot "in.json" = .ok (underLoad 0.10274375224259065) := by
    decide +kernel
  have hloaded :
      (durable.loadGraph ((takeIn "in.json" false).change measured {}).2).map Graph.snapshot =
        .ok (underLoad 0.10274375224259064) := by
    decide +kernel
  exact ⟨hread, by decide +kernel, by decide +kernel, hloaded, by decide +kernel⟩

end StoreCommand

end CommandLine

end Inventory
