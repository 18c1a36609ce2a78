import Inventory.Proofs.Removal.Invariant
import Inventory.Proofs.ResultTree

/-!
# Removal — what a delete removes

A delete is owed the least set of vertices that holds the marked ones and, with
every vertex, those that depend on it. `executeDelete_removes` says what a
delete does on every reachable graph: it succeeds, removes nothing but that
set, and leaves the rest as it was. It removes all of the set exactly when no
vertex of it is stranded, that is, cut off by edges that were listed at a
vertex which is not one of their ends. Such a listing stays behind when the id
of an edge is used again between other vertices.
-/

namespace Inventory

/-! ## What is owed -/

/-- The vertices that must go when a marked tree is deleted: those of the
marked nodes, and whatever depends on one that must go. -/
inductive Doomed (g : Graph) (rules : RuleTable) (t : ResultTree) : VertexId → Prop where
  | marked {n : ResultNode} : n ∈ t.preorder → n.delete = true →
      g.contains n.vertex.id = true → Doomed g rules t n.vertex.id
  | dependent {v w : VertexId} : Doomed g rules t v → g.Depends rules v w →
      Doomed g rules t w

/-- A vertex is stranded by a delete that leaves it behind although it depends
on a removed vertex, every edge between the two being misfiled at a removed
vertex. -/
def Graph.Stranded (g : Graph) (rules : RuleTable) (removed : Removed) (w : VertexId) : Prop :=
  removed.contains w = false ∧ ∃ v, removed.contains v = true ∧ g.Depends rules v w ∧
    g.CutOff (removed.contains · = true) v w

/-- What a delete of a marked tree from `g` has done when it reports `removed`
and leaves `g'`. -/
structure Removes (g : Graph) (rules : RuleTable) (t : ResultTree) (removed : Removed)
    (g' : Graph) : Prop where
  /-- Nothing goes that need not go. -/
  only : ∀ id, removed.contains id = true → Doomed g rules t id
  /-- All that must go goes, exactly when nothing is stranded. -/
  all_iff : (∀ id, removed.contains id = true ↔ Doomed g rules t id) ↔
    ∀ w, ¬ g.Stranded rules removed w
  /-- In particular all of it goes when every edge listed at a vertex that must
  go has that vertex as an end. -/
  all_of_filed : (∀ e x, Doomed g rules t x → ¬ g.Misfiled e x) →
    ∀ id, removed.contains id = true ↔ Doomed g rules t id
  vertices : ∀ id, g'.vertices.get? id =
    if removed.contains id = true then none else g.vertices.get? id
  edges : ∀ i e id, g'.edges.get? i = some e → removed.contains id = true →
    e.touches id = false
  described : ∀ id text, removed.get? id = some text →
    ∃ v, g.vertices.get? id = some v ∧ text = v.nodeType ++ " " ++ v.id ∧ v.id = id

/-! ## The delete -/

/-- The ids of all marked nodes, in the order in which a delete calls for them. -/
def ResultTree.flagged (t : ResultTree) : List VertexId :=
  (t.postorder.filter (·.delete)).map (·.vertex.id)

theorem ResultTree.mem_flagged {t : ResultTree} {id : VertexId} :
    id ∈ t.flagged ↔ ∃ n ∈ t.preorder, n.delete = true ∧ n.vertex.id = id := by
  simp only [flagged, List.mem_map, List.mem_filter, mem_postorder, and_assoc]

theorem ResultTree.flagged_eq (t : ResultTree) :
    t.flagged = t.marked ++ if t.top.delete = true then [t.top.vertex.id] else [] := by
  obtain ⟨n, cs⟩ := t
  simp only [flagged, marked, postorder, top, children, List.filter_append, List.map_append]
  by_cases h : n.delete = true <;> simp [h]

section

variable {g : Graph} {rules : RuleTable} {t : ResultTree}

theorem ready_flagged (wf : g.WellFormed) {id : VertexId} (hid : id ∈ t.flagged) :
    DeletePass.Ready g rules (Doomed g rules t) (g.vertexCount + 1) id { graph := g } where
  sound := DeletePass.sound_start wf rules _
  allowed hg := by
    obtain ⟨n, hn, hd, rfl⟩ := ResultTree.mem_flagged.mp hid
    exact .marked hn hd hg
  fueled := Nat.lt_succ_of_le (DeletePass.unprocessed_le g _)

theorem deals_remove (hrules : rules.OnePerPair) {fuel : Nat} {id : VertexId} {p : DeletePass}
    (h : DeletePass.Ready g rules (Doomed g rules t) fuel id p) :
    DeletePass.Deals g rules (Doomed g rules t) [id] p (p.remove rules fuel id).2 :=
  (DeletePass.remove_spec hrules (fun hv hd => Doomed.dependent hv hd) fuel id p h).2

theorem deals_flagged (wf : g.WellFormed) (hrules : rules.OnePerPair) (ids : List VertexId)
    (hids : ∀ id ∈ ids, id ∈ t.flagged) :
    DeletePass.Deals g rules (Doomed g rules t) ids { graph := g }
      (DeletePass.removeAll rules (g.vertexCount + 1) ids { graph := g }) :=
  DeletePass.deals_removeAll (fun _ _ h => deals_remove hrules h) ids
    (DeletePass.sound_start wf rules _) fun id hid => ready_flagged wf (hids id hid)

/-- A delete that passes its checks calls for the marked vertices, if the last
call, for the top, succeeds. -/
theorem executeDelete_eq_removeAll {version : Option String} {root : Vertex}
    (hroot : g.vertices.get? t.top.vertex.id = some root)
    (hversion : ∀ expected, version = some expected →
      root.resourceVersion?.getD "" = expected)
    (hlast : t.top.delete = true → (DeletePass.remove rules (g.vertexCount + 1) t.top.vertex.id
      (DeletePass.removeAll rules (g.vertexCount + 1) t.marked { graph := g })).1 = .ok ()) :
    executeDelete g rules t version =
      (.ok (DeletePass.removeAll rules (g.vertexCount + 1) t.flagged { graph := g }).removed,
        (DeletePass.removeAll rules (g.vertexCount + 1) t.flagged { graph := g }).graph) := by
  have hfilter : version.filter (· ≠ root.resourceVersion?.getD "") = none := by
    cases version with
    | none => rfl
    | some expected => simp [Option.filter, hversion expected rfl]
  rw [ResultTree.flagged_eq]
  unfold executeDelete
  simp only [hroot, hfilter, DeletePass.removeAll, List.foldl_append] at hlast ⊢
  by_cases htop : t.top.delete = true
  · have hok := hlast htop
    simp only [htop, if_true, List.foldl_cons, List.foldl_nil]
    split
    · next h => exact absurd (congrArg Prod.fst h) (by rw [hok]; simp)
    · next h => rw [h]
  · simp [htop]

/-- The calls of a delete that passes its checks deal with the marked vertices. -/
theorem executeDelete_calls (wf : g.WellFormed) (hrules : rules.OnePerPair)
    (version : Option String) {root : Vertex}
    (hroot : g.vertices.get? t.top.vertex.id = some root)
    (hversion : ∀ expected, version = some expected →
      root.resourceVersion?.getD "" = expected) :
    ∃ p, DeletePass.removeAll rules (g.vertexCount + 1) t.flagged { graph := g } = p ∧
      DeletePass.Deals g rules (Doomed g rules t) t.flagged { graph := g } p ∧
      executeDelete g rules t version = (.ok p.removed, p.graph) := by
  refine ⟨_, rfl, deals_flagged wf hrules t.flagged fun _ h => h,
    executeDelete_eq_removeAll hroot hversion fun htop => ?_⟩
  have htop : t.top.vertex.id ∈ t.flagged := by simp [ResultTree.flagged_eq, htop]
  have hbelow := deals_flagged (t := t) wf hrules t.marked
    fun id hid => by simp [ResultTree.flagged_eq, hid]
  exact (DeletePass.remove_spec hrules (fun hv hd => Doomed.dependent hv hd) _ _ _
    ((ready_flagged wf htop).later hbelow)).1

/-- The last state of a delete that passes its checks. -/
theorem executeDelete_eq (wf : g.WellFormed) (hrules : rules.OnePerPair)
    {version : Option String} {root : Vertex}
    (hroot : g.vertices.get? t.top.vertex.id = some root)
    (hversion : ∀ expected, version = some expected →
      root.resourceVersion?.getD "" = expected) :
    ∃ p : DeletePass, executeDelete g rules t version = (.ok p.removed, p.graph) ∧
      p.Sound g rules (Doomed g rules t) ∧
      DeletePass.Advances g { graph := g } p ∧
      ∀ n ∈ t.preorder, n.delete = true → n.vertex.id ∈ p.processed := by
  obtain ⟨p, -, hdeals, hrun⟩ := executeDelete_calls wf hrules version hroot hversion
  exact ⟨p, hrun, hdeals.sound, hdeals.advances, fun n hn hd =>
    hdeals.dealt (ResultTree.mem_flagged.mpr ⟨n, hn, hd, rfl⟩)⟩

/-- A dependent of a removed vertex goes unless it is stranded. -/
theorem DeletePass.Sound.gone_of_not_stranded {p : DeletePass} {D : VertexId → Prop}
    (hs : p.Sound g rules D) (hadv : DeletePass.Advances g { graph := g } p)
    {v w : VertexId} (hv : p.Gone v) (hd : g.Depends rules v w)
    (hw : ¬ g.Stranded rules p.removed w) : p.Gone w := by
  rcases hs.closed hv hd with h | h
  · obtain ⟨_, b, _, hb, _⟩ := hd
    rcases hadv.done h (Graph.contains_iff.mpr ⟨b, hb⟩) with h | ⟨h, _⟩
    · exact h
    · cases h
  · by_contra hnot
    exact hw ⟨by simpa [DeletePass.Gone] using hnot, v, hv, hd, h⟩

/-- **A delete removes the marked vertices with what depends on them.** -/
theorem executeDelete_removes (hg : g.Reachable) {source : CatalogSource} {c : Catalog}
    (hc : Catalog.ofSource source = .ok c) (t : ResultTree) (version : Option String)
    {root : Vertex} (hroot : g.vertices.get? t.top.vertex.id = some root)
    (hversion : ∀ expected, version = some expected →
      root.resourceVersion?.getD "" = expected) :
    ∃ removed g', executeDelete g c.rules t version = (.ok removed, g') ∧
      Removes g c.rules t removed g' := by
  have hrules := RuleTable.onePerPair_ofSource hc
  obtain ⟨p, hrun, hs, hadv, hmarked⟩ := executeDelete_eq hg.wellFormed hrules hroot hversion
  have hall : (∀ w, ¬ g.Stranded c.rules p.removed w) →
      ∀ id, p.removed.contains id = true ↔ Doomed g c.rules t id := by
    refine fun hno id => ⟨hs.allowed, fun h => ?_⟩
    -- along the chain of dependence that dooms the vertex
    induction h with
    | @marked n hn hd hin =>
        rcases hadv.done (hmarked n hn hd) hin with h | ⟨h, _⟩
        · exact h
        · cases h
    | dependent _ hd ih => exact hs.gone_of_not_stranded hadv ih hd (hno _)
  refine ⟨p.removed, p.graph, hrun, ?_⟩
  exact {
    only := fun _ h => hs.allowed h
    all_iff := by
      refine ⟨fun h w hw => ?_, hall⟩
      -- a stranded vertex is doomed and stays
      obtain ⟨hw, v, hv, hd, _⟩ := hw
      have := (h w).mpr (.dependent ((h v).mp hv) hd)
      rw [hw] at this
      cases this
    all_of_filed := by
      refine fun hfiled => hall fun w hw => ?_
      obtain ⟨_, v, _, ⟨_, _, _, _, ⟨e, he, hj⟩, _⟩, hcut⟩ := hw
      obtain ⟨x, hx, hm⟩ := hcut e he hj
      exact hfiled e x (hs.allowed hx) hm
    vertices := fun id => by
      split
      · next h => exact hs.gone h
      · next h => exact hs.stays h
    edges := fun i e id he hid => by
      cases ht : e.touches id
      · rfl
      · have := hs.wf.has_end he ht
        rw [hs.gone hid] at this
        cases this
    described := fun id text h => by
      obtain ⟨v, hv, rfl⟩ := hs.described h
      exact ⟨v, hv, rfl, hg.wellFormed.vertex_id hv⟩ }

end

/-! ### A ring of dependence -/

namespace Removal

/-- Nodes depend on the nodes they are linked to. -/
def ringSource : CatalogSource where
  edgeRules := [{
    source := "node", target := "node", label := "link", multiplicity := .manyToMany,
    dependent := true }]

def ringCatalog : Catalog := ⟨⟨ringSource.edgeRules⟩, ∅⟩

def ringVertices : List Vertex :=
  [⟨"a", "node", ∅⟩, ⟨"b", "node", ∅⟩, ⟨"c", "node", ∅⟩, ⟨"z", "tenant", ∅⟩]

def ringEdges : List Edge :=
  [⟨"1", "a", "b", "link", ∅⟩, ⟨"2", "b", "c", "link", ∅⟩, ⟨"3", "c", "a", "link", ∅⟩,
    ⟨"4", "a", "z", "link", ∅⟩]

/-- Three nodes in a ring, and a tenant beside them. -/
def ring : Graph := (Graph.ofParts ringVertices ringEdges).toOption.getD .empty

/-- A tree that names one node of the ring twice, and a vertex that is not there. -/
def ringTree : ResultTree :=
  .node { vertex := ⟨"a", "node", ∅⟩, trail := "node" } [
    .node { vertex := ⟨"gone", "node", ∅⟩, trail := "node|node", delete := true } [],
    .node { vertex := ⟨"b", "node", ∅⟩, trail := "node|node", delete := true } [
      .node { vertex := ⟨"b", "node", ∅⟩, trail := "node|node|node", delete := true } []]]

/-- The whole ring goes, the tenant stays. -/
theorem executeDelete_removes_ring :
    ring.Reachable ∧ Catalog.ofSource ringSource = .ok ringCatalog ∧
      (∃ root, ring.vertices.get? ringTree.top.vertex.id = some root) ∧
      (executeDelete ring ringCatalog.rules ringTree none).1 =
        .ok (Table.ofList [("a", "node a"), ("b", "node b"), ("c", "node c")]) ∧
      ∃ removed g', executeDelete ring ringCatalog.rules ringTree none = (.ok removed, g') ∧
        Removes ring ringCatalog.rules ringTree removed g' := by
  have hring : ring.Reachable :=
    Graph.reachable_ofParts (show Graph.ofParts ringVertices ringEdges = .ok ring from rfl)
  have hsource : Catalog.ofSource ringSource = .ok ringCatalog := rfl
  have hroot : ring.vertices.get? ringTree.top.vertex.id = some ⟨"a", "node", ∅⟩ := by decide
  exact ⟨hring, hsource, ⟨_, hroot⟩, by decide +kernel,
    executeDelete_removes hring hsource ringTree none hroot (by simp)⟩

/-! ### An edge id used again -/

/-- Interfaces depend on their server. -/
def serverSource : CatalogSource where
  edgeRules := [{
    source := "vserver", target := "l-interface", label := "has", multiplicity := .oneToMany,
    dependent := true }]

def serverCatalog : Catalog := ⟨⟨serverSource.edgeRules⟩, ∅⟩

def serverVertices : List Vertex :=
  [⟨"v1", "vserver", ∅⟩, ⟨"i1", "l-interface", ∅⟩, ⟨"t1", "tenant", ∅⟩]

def serverEdges : List Edge :=
  [⟨"e1", "v1", "t1", "owned-by", ∅⟩, ⟨"e1", "v1", "i1", "has", ∅⟩]

/-- A server with an interface, over an edge whose id was first used for its
tenant. The tenant still lists the id. -/
def server : Graph := (Graph.ofParts serverVertices serverEdges).toOption.getD .empty

/-- The server and below it the tenant, both marked. -/
def serverTree : ResultTree :=
  .node { vertex := ⟨"v1", "vserver", ∅⟩, trail := "vserver", delete := true } [
    .node { vertex := ⟨"t1", "tenant", ∅⟩, trail := "vserver|tenant", delete := true } []]

/-- The tenant takes the edge of the interface with it, so that the interface
stays although its server goes. -/
theorem executeDelete_strands_interface :
    server.Reachable ∧ Catalog.ofSource serverSource = .ok serverCatalog ∧
      (∃ root, server.vertices.get? serverTree.top.vertex.id = some root) ∧
      Doomed server serverCatalog.rules serverTree "i1" ∧
      ∃ removed g', executeDelete server serverCatalog.rules serverTree none = (.ok removed, g') ∧
        removed.contains "i1" = false := by
  have hserver : server.Reachable :=
    Graph.reachable_ofParts (show Graph.ofParts serverVertices serverEdges = .ok server from rfl)
  have hrun : (executeDelete server serverCatalog.rules serverTree none).1 =
      .ok (Table.ofList [("t1", "tenant t1"), ("v1", "vserver v1")]) := by decide +kernel
  refine ⟨hserver, rfl, ⟨⟨"v1", "vserver", ∅⟩, by decide⟩, ?_, _, _, Prod.ext hrun rfl, by decide⟩
  have hv1 : Doomed server serverCatalog.rules serverTree "v1" :=
    .marked (n := serverTree.top) (by simp [serverTree, ResultTree.preorder, ResultTree.top])
      rfl (by decide)
  exact hv1.dependent ⟨⟨"v1", "vserver", ∅⟩, ⟨"i1", "l-interface", ∅⟩, by decide, by decide,
    ⟨⟨"e1", "v1", "i1", "has", ∅⟩, by decide, .inl ⟨rfl, rfl⟩⟩, by decide⟩

end Removal

end Inventory
