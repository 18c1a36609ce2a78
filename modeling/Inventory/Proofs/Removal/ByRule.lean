import Mathlib.Logic.Relation
import Inventory.Proofs.Removal.Calls

/-!
# Removal — cascades and rules

A rule names the label of its edges and how they run. A cascade looks at
neither: it passes over every edge whose ends have types of which one depends on
the other. `cascadesByRule_iff` says from which graphs all that goes still goes
by rule. Where types are joined by edges of several labels, or depend on
themselves, other vertices go too.
-/

namespace Inventory

open Relation (ReflTransGen)

/-! ## Dependence by rule -/

namespace Graph

/-- A vertex depends on another by rule when they are joined by an edge of the
dependent rule for their types: one that has the rule's label and runs as the
rule says. -/
def DependsByRule (g : Graph) (rules : RuleTable) (v w : VertexId) : Prop :=
  ∃ a b r e, g.vertices.get? v = some a ∧ g.vertices.get? w = some b ∧
    rules.direct? a.nodeType b.nodeType = some r ∧ r.dependent = true ∧
    g.edges.get? e.id = some e ∧ e.Joins v w ∧ e.label = r.label ∧
    e.runs v r.direction = true

/-- Every delete from the graph goes by rule: a vertex that it removes although
no node marks it depends by rule on another removed vertex. -/
def CascadesByRule (g : Graph) (rules : RuleTable) : Prop :=
  ∀ t version removed g', executeDelete g rules t version = (.ok removed, g') →
    ∀ w, removed.contains w = true → w ∉ t.flagged →
      ∃ v, v ≠ w ∧ removed.contains v = true ∧ g.DependsByRule rules v w

/-- What a chain of dependence leads to depends by rule on another vertex that
the start leads to. -/
def ChainsByRule (g : Graph) (rules : RuleTable) : Prop :=
  ∀ v w, v ≠ w → ReflTransGen (g.Depends rules) v w →
    ∃ x, x ≠ w ∧ ReflTransGen (g.Depends rules) v x ∧ g.DependsByRule rules x w

variable {g : Graph} {rules : RuleTable}

theorem contains_of_chain {v w : VertexId} (hne : v ≠ w)
    (h : ReflTransGen (g.Depends rules) v w) : g.contains v = true := by
  rcases h.cases_head with heq | ⟨_, hd, -⟩
  · exact absurd heq hne
  · obtain ⟨a, _, ha, -⟩ := hd
    exact contains_iff.mpr ⟨a, ha⟩

end Graph

/-! ## Chains from the marked vertices -/

/-- One marked vertex and nothing below it. -/
def ResultTree.only (v : Vertex) : ResultTree :=
  .node { vertex := v, trail := v.nodeType, delete := true } []

@[simp] theorem ResultTree.flagged_only (v : Vertex) : (only v).flagged = [v.id] := by
  simp [flagged, only, postorder, postorderAll]

section

variable {g : Graph} {rules : RuleTable} {t : ResultTree} {D : VertexId → Prop}
  {ids : List VertexId} {p : DeletePass}

theorem Doomed.exists_chain {w : VertexId} (h : Doomed g rules t w) :
    ∃ v ∈ t.flagged, g.contains v = true ∧ ReflTransGen (g.Depends rules) v w := by
  induction h with
  | @marked n hn hd hin =>
      exact ⟨_, ResultTree.mem_flagged.mpr ⟨n, hn, hd, rfl⟩, hin, .refl⟩
  | dependent _ hd ih =>
      obtain ⟨v, hv, hin, hchain⟩ := ih
      exact ⟨v, hv, hin, hchain.tail hd⟩

namespace DeletePass

theorem Deals.gone_of_mem (h : Deals g rules D ids { graph := g } p) {id : VertexId}
    (hid : id ∈ ids) (hin : g.contains id = true) : p.Gone id := by
  rcases h.advances.done (h.dealt hid) hin with hgone | ⟨hmet, -⟩
  · exact hgone
  · cases hmet

theorem Deals.caused (h : Deals g rules D ids { graph := g } p) {w : VertexId} (hw : p.Gone w)
    (hnot : w ∉ ids) : p.Caused g rules w := by
  rcases h.traced hw with hbefore | hcalled | hcaused
  · cases hbefore
  · exact absurd hcalled hnot
  · exact hcaused

/-- Where edges are listed at their ends only, a chain of dependence takes along
all it leads to. -/
theorem Deals.gone_of_chain (hfiled : ∀ e x, ¬ g.Misfiled e x)
    (h : Deals g rules D ids { graph := g } p) {v w : VertexId} (hv : p.Gone v)
    (hchain : ReflTransGen (g.Depends rules) v w) : p.Gone w := by
  induction hchain with
  | refl => exact hv
  | tail _ hd ih =>
      refine h.sound.gone_of_not_stranded h.advances ih hd fun hstranded => ?_
      obtain ⟨-, _, -, ⟨_, _, _, _, ⟨e, he, hj⟩, _⟩, hcut⟩ := hstranded
      obtain ⟨x, -, hmisfiled⟩ := hcut e he hj
      exact hfiled e x hmisfiled

end DeletePass

/-! ## Deletes by rule -/

/-- Whatever goes without a mark goes because of another vertex. -/
theorem executeDelete_caused (wf : g.WellFormed) (hrules : rules.OnePerPair)
    {version : Option String} {removed : Removed} {g' : Graph}
    (h : executeDelete g rules t version = (.ok removed, g')) {w : VertexId}
    (hw : removed.contains w = true) (hnot : w ∉ t.flagged) :
    ∃ v, v ≠ w ∧ removed.contains v = true ∧ g.Depends rules v w := by
  obtain ⟨p, hdeals, rfl, -⟩ := executeDelete_eq_ok wf hrules h
  exact hdeals.caused hw hnot

theorem Graph.ChainsByRule.cascadesByRule (wf : g.WellFormed) (hrules : rules.OnePerPair)
    (hfiled : ∀ e x, ¬ g.Misfiled e x) (h : g.ChainsByRule rules) : g.CascadesByRule rules := by
  intro t version removed g' hrun w hw hnot
  obtain ⟨p, hdeals, rfl, -⟩ := executeDelete_eq_ok wf hrules hrun
  -- the vertex is at the end of a chain from a marked one
  obtain ⟨v, hv, hin, hchain⟩ := (hdeals.sound.allowed hw).exists_chain
  have hne : v ≠ w := fun heq => hnot (heq ▸ hv)
  obtain ⟨x, hxw, hx, hrule⟩ := h v w hne hchain
  exact ⟨x, hxw, hdeals.gone_of_chain hfiled (hdeals.gone_of_mem hv hin) hx, hrule⟩

theorem Graph.CascadesByRule.chainsByRule (wf : g.WellFormed) (hrules : rules.OnePerPair)
    (hfiled : ∀ e x, ¬ g.Misfiled e x) (h : g.CascadesByRule rules) : g.ChainsByRule rules := by
  intro v w hne hchain
  have hin := contains_of_chain hne hchain
  obtain ⟨a, ha⟩ := contains_iff.mp hin
  obtain rfl := wf.vertex_id ha
  -- delete the start of the chain alone
  obtain ⟨p, -, hdeals, hrun⟩ :=
    executeDelete_calls (t := .only a) wf hrules none ha (by simp)
  rw [ResultTree.flagged_only] at hdeals
  have hw := hdeals.gone_of_chain hfiled (hdeals.gone_of_mem (List.mem_singleton_self _) hin) hchain
  obtain ⟨x, hxw, hx, hrule⟩ := h _ _ _ _ hrun w hw (by simpa using Ne.symm hne)
  obtain ⟨v, hv, -, hx⟩ := (hdeals.sound.allowed hx).exists_chain
  rw [ResultTree.flagged_only, List.mem_singleton] at hv
  exact ⟨x, hxw, hv ▸ hx, hrule⟩

/-- **What goes by rule.** A vertex that a delete removes without a mark depends,
over some edge, on another removed vertex. Where every such dependence is by
rule, so are the deletes. And where edges are listed at their ends only, all
deletes go by rule exactly when chains of dependence do. -/
theorem cascadesByRule_iff (hg : g.Reachable) {source : CatalogSource} {c : Catalog}
    (hc : Catalog.ofSource source = .ok c) :
    (∀ t version removed g', executeDelete g c.rules t version = (.ok removed, g') →
        ∀ w, removed.contains w = true → w ∉ t.flagged →
          ∃ v, v ≠ w ∧ removed.contains v = true ∧ g.Depends c.rules v w) ∧
      ((∀ v w, v ≠ w → g.Depends c.rules v w → g.DependsByRule c.rules v w) →
        g.CascadesByRule c.rules) ∧
      ((∀ e x, ¬ g.Misfiled e x) → (g.CascadesByRule c.rules ↔ g.ChainsByRule c.rules)) := by
  have wf := hg.wellFormed
  have hrules := RuleTable.onePerPair_ofSource hc
  refine ⟨fun t version removed g' h w hw hnot => executeDelete_caused wf hrules h hw hnot,
    fun hlocal t version removed g' h w hw hnot => ?_, fun hfiled => ⟨?_, ?_⟩⟩
  · obtain ⟨v, hne, hv, hd⟩ := executeDelete_caused wf hrules h hw hnot
    exact ⟨v, hne, hv, hlocal v w hne hd⟩
  · exact fun h => h.chainsByRule wf hrules hfiled
  · exact fun h => h.cascadesByRule wf hrules hfiled

end

namespace Removal

/-! ### A server with an interface -/

def machineEdges : List Edge := [⟨"1", "v1", "i1", "has", ∅⟩, ⟨"2", "v1", "t1", "owned-by", ∅⟩]

/-- A server with an interface and a tenant. -/
def machine : Graph := (Graph.ofParts serverVertices machineEdges).toOption.getD .empty

theorem dependsByRule_machine {v w : VertexId} (h : machine.Depends serverCatalog.rules v w) :
    machine.DependsByRule serverCatalog.rules v w := by
  obtain ⟨a, b, ha, hb, -, hdep⟩ := h
  have hentries : machine.vertices.entries = [("i1", ⟨"i1", "l-interface", ∅⟩),
      ("t1", ⟨"t1", "tenant", ∅⟩), ("v1", ⟨"v1", "vserver", ∅⟩)] := by decide
  rw [Table.get?_eq_some_iff, hentries] at ha hb
  simp only [List.mem_cons, Prod.mk.injEq, List.not_mem_nil, or_false] at ha hb
  -- of all pairs of types only one is dependent
  rcases ha with ⟨rfl, rfl⟩ | ⟨rfl, rfl⟩ | ⟨rfl, rfl⟩ <;>
    rcases hb with ⟨rfl, rfl⟩ | ⟨rfl, rfl⟩ | ⟨rfl, rfl⟩ <;>
    try exact absurd hdep (by decide)
  exact ⟨⟨"v1", "vserver", ∅⟩, ⟨"i1", "l-interface", ∅⟩, _, ⟨"1", "v1", "i1", "has", ∅⟩,
    by decide, by decide, rfl, rfl, by decide, .inl ⟨rfl, rfl⟩, rfl, by decide⟩

/-- All that goes with the server goes by rule. -/
theorem cascadesByRule_machine :
    machine.Reachable ∧ Catalog.ofSource serverSource = .ok serverCatalog ∧
      (executeDelete machine serverCatalog.rules (.only ⟨"v1", "vserver", ∅⟩) none).1 =
        .ok (Table.ofList [("i1", "l-interface i1"), ("v1", "vserver v1")]) ∧
      machine.CascadesByRule serverCatalog.rules := by
  have hmachine : machine.Reachable :=
    Graph.reachable_ofParts (show Graph.ofParts serverVertices machineEdges = .ok machine from rfl)
  have hsource : Catalog.ofSource serverSource = .ok serverCatalog := rfl
  obtain ⟨-, hlocal, -⟩ := cascadesByRule_iff hmachine hsource
  exact ⟨hmachine, hsource, by decide +kernel, hlocal fun _ _ _ h => dependsByRule_machine h⟩

/-! ### Nodes linked and mirrored -/

def linkedVertices : List Vertex := [⟨"p", "node", ∅⟩, ⟨"c", "node", ∅⟩, ⟨"m", "node", ∅⟩]

def linkedEdges : List Edge := [⟨"1", "p", "c", "link", ∅⟩, ⟨"2", "c", "m", "mirrors", ∅⟩]

/-- A node that is linked to another, which mirrors a third one. -/
def linked : Graph := (Graph.ofParts linkedVertices linkedEdges).toOption.getD .empty

theorem eq_of_dependsByRule_linked {v w : VertexId}
    (h : linked.DependsByRule ringCatalog.rules v w) : v = "p" ∧ w = "c" := by
  obtain ⟨_, _, r, e, -, -, hr, -, he, hj, hlabel, hruns⟩ := h
  obtain ⟨hrule, -⟩ := RuleTable.mem_of_direct? hr
  have hentries : linked.edges.entries =
      [("1", ⟨"1", "p", "c", "link", ∅⟩), ("2", ⟨"2", "c", "m", "mirrors", ∅⟩)] := by decide
  rw [Table.get?_eq_some_iff, hentries] at he
  simp only [ringCatalog, ringSource, List.mem_cons, Prod.mk.injEq, List.not_mem_nil,
    or_false] at hrule he
  subst hrule
  rcases he with ⟨-, rfl⟩ | ⟨-, rfl⟩
  · -- the link is followed from the end it leaves
    rcases hj with ⟨hv, hw⟩ | ⟨hw, hv⟩
    · exact ⟨hv.symm, hw.symm⟩
    · rw [← hv] at hruns
      exact absurd hruns (by decide)
  · exact absurd hlabel (by decide)

/-- With the node in the middle both others go, the one that it is linked from
and the one that it mirrors. -/
theorem not_cascadesByRule_linked :
    linked.Reachable ∧ Catalog.ofSource ringSource = .ok ringCatalog ∧
      (executeDelete linked ringCatalog.rules (.only ⟨"c", "node", ∅⟩) none).1 =
        .ok (Table.ofList [("c", "node c"), ("m", "node m"), ("p", "node p")]) ∧
      (∀ v, ¬ linked.DependsByRule ringCatalog.rules v "p") ∧
      (∀ v, ¬ linked.DependsByRule ringCatalog.rules v "m") ∧
      ¬ linked.CascadesByRule ringCatalog.rules := by
  have hlinked : linked.Reachable :=
    Graph.reachable_ofParts (show Graph.ofParts linkedVertices linkedEdges = .ok linked from rfl)
  have hrun : (executeDelete linked ringCatalog.rules (.only ⟨"c", "node", ∅⟩) none).1 =
      .ok (Table.ofList [("c", "node c"), ("m", "node m"), ("p", "node p")]) := by decide +kernel
  have hp : ∀ v, ¬ linked.DependsByRule ringCatalog.rules v "p" := by
    intro v h
    exact absurd (eq_of_dependsByRule_linked h).2 (by decide)
  have hm : ∀ v, ¬ linked.DependsByRule ringCatalog.rules v "m" := by
    intro v h
    exact absurd (eq_of_dependsByRule_linked h).2 (by decide)
  refine ⟨hlinked, rfl, hrun, hp, hm, fun h => ?_⟩
  obtain ⟨v, -, -, hrule⟩ := h _ none _ _ (Prod.ext hrun rfl) "p" (by decide) (by simp)
  exact hp v hrule

end Removal

end Inventory
