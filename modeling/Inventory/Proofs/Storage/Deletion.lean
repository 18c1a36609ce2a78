import Inventory.Storage.Change
import Inventory.Proofs.Removal.Calls
import Inventory.Proofs.Storage.Loading

/-!
# Storage — a delete in the store

An instance that is deleted from a stored graph is removed twice. From the
loaded graph its vertices go one after another, each with the edges listed at
it; from the store they go as one batch, with the edges that end at one of them.
The two leave the same, because the lists of a loaded graph name exactly the
edges at their vertices.
-/

namespace Inventory

/-! ## What a delete leaves -/

/-- A graph that has lost some of the vertices of another, and the edges at
them. -/
structure Graph.Loses (g : Graph) (ids : List VertexId) (g' : Graph) : Prop where
  stored : ∀ id ∈ ids, g.contains id = true
  vertices : g'.vertices = g.vertices.filter fun id _ => !ids.contains id
  edges : g'.edges = g.edges.filter fun _ e => !ids.contains e.outId && !ids.contains e.inId

section

variable {g g' : Graph} {rules : RuleTable} {t : ResultTree} {removed : Removed}
  {version : Option String}

theorem DeletePass.gone_iff {p : DeletePass} {id : VertexId} :
    p.Gone id ↔ p.removed.keys.contains id = true := by
  rw [List.contains_iff_mem, Table.mem_keys]
  rfl

/-- Where lists are exact, an edge goes only with one of its ends. -/
theorem DeletePass.Sound.loses {D : VertexId → Prop} {p : DeletePass} (hs : p.Sound g rules D)
    (hg : g.Exact) : g.Loses p.removed.keys p.graph where
  stored id hid := by
    obtain ⟨text, htext⟩ := Option.isSome_iff_exists.mp (Table.mem_keys.mp hid)
    obtain ⟨v, hv, -⟩ := hs.described htext
    exact Graph.contains_iff.mpr ⟨v, hv⟩
  vertices := by
    refine Table.ext fun id => ?_
    rw [Table.get?_filter]
    by_cases hgone : p.Gone id
    · rw [hs.gone hgone, gone_iff.mp hgone]
      cases g.vertices.get? id <;> rfl
    · rw [hs.stays hgone, Bool.eq_false_iff.mpr (mt gone_iff.mpr hgone)]
      cases g.vertices.get? id <;> rfl
  edges := by
    refine Table.ext fun i => Option.ext fun e => ?_
    rw [Table.get?_filter, Option.filter_eq_some_iff]
    have hkept : (!p.removed.keys.contains e.outId && !p.removed.keys.contains e.inId) = true ↔
        ∀ x, e.touches x = true → ¬ p.Gone x := by
      simp only [Edge.touches_iff, gone_iff, Bool.and_eq_true, Bool.not_eq_true', or_imp,
        forall_and, forall_eq', Bool.not_eq_true]
    rw [hkept]
    constructor
    · intro he
      refine ⟨hs.edge_of he, fun x ht hgone => ?_⟩
      have hend := hs.wf.has_end he ht
      rw [hs.gone hgone] at hend
      cases hend
    · rintro ⟨he, hends⟩
      cases hi : p.graph.edges.get? i with
      | some e' => exact (hs.edge_of hi).symm.trans he
      | none =>
          obtain ⟨x, hgone, hlisted⟩ := hs.lost he hi
          obtain ⟨e', he', ht⟩ := hg.stored hlisted
          obtain rfl : e = e' := Option.some.inj (he.symm.trans he')
          exact absurd hgone (hends x ht)

theorem executeDelete_loses (hg : g.BuiltOnce) (hrules : rules.OnePerPair)
    (h : executeDelete g rules t version = (.ok removed, g')) : g.Loses removed.keys g' := by
  obtain ⟨p, hdeals, rfl, rfl⟩ := executeDelete_eq_ok hg.reachable.wellFormed hrules h
  exact hdeals.sound.loses hg.exact

end

/-! ### Instances -/

section

variable {g g' : Graph} {ctx : Context} {rootId : VertexId} {m : Model}
  {version : Option String}

theorem deleteInstance_loses (hg : g.BuiltOnce) (hrules : ctx.catalog.rules.OnePerPair)
    {removed : Removed} (h : deleteInstance g ctx rootId m version = (.ok removed, g')) :
    g.Loses removed.keys g' := by
  unfold deleteInstance at h
  split at h
  · cases h
  · next t _ =>
      dsimp only [Graph.transaction] at h
      split at h
      · next removed' staged hrun =>
          cases h
          exact executeDelete_loses hg hrules hrun
      · cases h

/-- A delete that fails leaves the graph as it was. -/
theorem deleteInstance_error {e : Error}
    (h : deleteInstance g ctx rootId m version = (.error e, g')) : g' = g := by
  unfold deleteInstance at h
  split at h
  · cases h
    rfl
  · dsimp only [Graph.transaction] at h
    split at h
    · cases h
    · cases h
      rfl

end

/-! ## What is left in the store -/

namespace Backend

theorem missingVertex?_memory_of_stored {s : Store} {ids : List VertexId}
    (h : ∀ id ∈ ids, s.vertices.contains id = true) : memory.missingVertex? s ids = none := by
  induction ids with
  | nil => rfl
  | cons id ids ih =>
      obtain ⟨hid, hids⟩ := List.forall_mem_cons.mp h
      rw [missingVertex?_memory_cons hid]
      exact ih hids

/-- From a store that can be read, stored vertices that are each named once are deleted. -/
theorem deleteVertices_durable {s : Store} (hs : s.Readable .durable) {ids : List VertexId}
    (honce : ids.Nodup) (h : ∀ id ∈ ids, s.vertices.contains id = true) :
    durable.deleteVertices ids s = (.ok (), s.dropVertices ids) := by
  have hnames : s.NamesOnce ids := honce.sublist (List.takeWhile_sublist _)
  rw [hs.deleteVertices_eq, missingVertex?_of_namesOnce hnames,
    missingVertex?_memory_of_stored h]

end Backend

namespace Store

/-- The store loses as a batch what the graph loaded from it has lost. -/
theorem Filed.deleteVertices_of_loses {s : Store} (hs : s.Filed) {g g' : Graph}
    (hload : Backend.durable.loadGraph s = .ok g) {ids : List VertexId} (honce : ids.Nodup)
    (h : g.Loses ids g') :
    ∃ s' g'', Backend.durable.deleteVertices ids s = (.ok (), s') ∧
      Backend.durable.loadGraph s' = .ok g'' ∧ g''.snapshot = g'.snapshot := by
  obtain ⟨hvertices, hedges, -⟩ := hs.loadGraph_eq_ok hload
  have hstored : ∀ id ∈ ids, s.vertices.contains id = true := by
    intro id hid
    rw [← hvertices]
    exact h.stored id hid
  have hdropped : (s.dropVertices ids).Filed := hs.dropVertices ids
  obtain ⟨hclosed, hread⟩ := hs.loadable_iff.mp ⟨g, hload⟩
  obtain ⟨g'', hg''⟩ :=
    hdropped.loadable_iff.mpr ⟨hclosed.dropVertices ids, hread.dropVertices ids⟩
  obtain ⟨hvertices'', hedges'', -⟩ := hdropped.loadGraph_eq_ok hg''
  refine ⟨_, g'', Backend.deleteVertices_durable hread honce hstored, hg'', ?_⟩
  rw [Graph.snapshot, Graph.snapshot, hvertices'', hedges'', h.vertices, h.edges, hvertices, hedges]
  rfl

/-- What becomes of a store `s` when an instance is deleted from the graph `g`
that was loaded from it. -/
structure Follows (s : Store) (g : Graph) (ctx : Context) (rootId : VertexId) (m : Model)
    (version : Option String) : Prop where
  /-- What the graph loses is deleted from the store, which then holds what the
  graph holds. -/
  removed : ∀ {removed g'},
    Inventory.deleteInstance g ctx rootId m version = (.ok removed, g') →
    ∃ s' g'', Backend.durable.deleteVertices removed.keys s = (.ok (), s') ∧
      Backend.durable.loadGraph s' = .ok g'' ∧ g''.snapshot = g'.snapshot ∧
      ∀ {id ver}, Model.find g id ver = .ok m →
        s.deleteInstance ctx rootId id ver version = (.ok removed, s')
  /-- A delete that fails changes neither. -/
  refused : ∀ {e g'}, Inventory.deleteInstance g ctx rootId m version = (.error e, g') →
    g' = g ∧ ∀ {id ver}, Model.find g id ver = .ok m →
      s.deleteInstance ctx rootId id ver version = (.error (.engine e), s)

/-- **A delete in the store.** Whatever was done to a durable store, an instance
that is deleted from the graph loaded from it is deleted from the store alike. -/
theorem follows_deleteInstance {ops : List StoreOperation} {g : Graph}
    (hload : Backend.durable.loadGraph (Backend.durable.runAll ops {}).2 = .ok g) {ctx : Context}
    {source : CatalogSource} (hc : Catalog.ofSource source = .ok ctx.catalog)
    (rootId : VertexId) (m : Model) (version : Option String) :
    (Backend.durable.runAll ops {}).2.Follows g ctx rootId m version := by
  have hs : (Backend.durable.runAll ops {}).2.Filed := Backend.filed_runAll filed_empty _ ops
  generalize (Backend.durable.runAll ops {}).2 = s at hload hs
  obtain ⟨-, -, hg⟩ := hs.loadGraph_eq_ok hload
  constructor
  case removed =>
    intro removed g' h
    have hloses := deleteInstance_loses hg (RuleTable.onePerPair_ofSource hc) h
    obtain ⟨s', g'', hdelete, hg'', hsnapshot⟩ :=
      hs.deleteVertices_of_loses hload removed.nodup_keys hloses
    refine ⟨s', g'', hdelete, hg'', hsnapshot, fun {id ver} hm => ?_⟩
    rw [Store.deleteInstance, hload]
    simp only [Service.delete, hm, h, hdelete]
    rfl
  case refused =>
    intro e g' h
    refine ⟨deleteInstance_error h, fun {id ver} hm => ?_⟩
    rw [Store.deleteInstance, hload]
    simp only [Service.delete, hm, h]

/-! ### A server with its disk -/

open Backend (durable webServer disk mount)

/-- The model of servers. -/
def serverModel : Model := ⟨"m", "server-model", "1", some "server", .widget⟩

def serverModelVertex : Vertex :=
  ⟨"m", Definition.modelType, Table.ofList [("model-id", .text "server-model"),
    ("model-version", .text "1"), ("model-type", .text "widget"), ("model-name", .text "server")]⟩

/-- A server with a disk and a tenant, beside the model of servers. -/
def tenanted : List StoreOperation :=
  [.saveVertices [serverModelVertex, webServer, disk, ⟨"t", "tenant", ∅⟩],
    .saveEdges [mount, ⟨"f", "a", "t", "owned-by", ∅⟩]]

/-- The graph that is loaded after them. -/
def tenantedGraph : Graph :=
  (durable.loadGraph (durable.runAll tenanted {}).2).toOption.getD .empty

/-- Disks depend on their server. -/
def diskSource : CatalogSource where
  edgeRules := [{
    source := "server", target := "disk", label := "has", multiplicity := .oneToMany,
    dependent := true }]

/-- Deletes go by the rule of disks. -/
def diskContext : Context := ⟨⟨⟨diskSource.edgeRules⟩, ∅⟩, {}⟩

/-- With the server its disk goes, the tenant stays, here and there. -/
theorem follows_deleteInstance_tenanted :
    durable.loadGraph (durable.runAll tenanted {}).2 = .ok tenantedGraph ∧
      Catalog.ofSource diskSource = .ok diskContext.catalog ∧
      Model.find tenantedGraph "server-model" "1" = .ok serverModel ∧
      (Inventory.deleteInstance tenantedGraph diskContext "a" serverModel none).1 =
        .ok (Table.ofList [("a", "server a"), ("b", "disk b")]) ∧
      (durable.runAll tenanted {}).2.Follows tenantedGraph diskContext "a" serverModel none := by
  have hload : durable.loadGraph (durable.runAll tenanted {}).2 = .ok tenantedGraph := by rfl
  have hsource : Catalog.ofSource diskSource = .ok diskContext.catalog := rfl
  exact ⟨hload, hsource, by decide +kernel, by decide +kernel,
    follows_deleteInstance hload hsource "a" serverModel none⟩

end Store

end Inventory
