import Inventory.Proofs.Graph.Reload
import Inventory.Proofs.Rule.Accepted

/-!
# Rule — graphs whose edges were checked when they were added

An edge is added when neither of its ends is on a single-valued side of the rule
with a partner already. The multiplicity of every rule is kept that way, except
the one sidedness that the check cannot see: a rule of a type with itself is
always found in its own order, so that one target has at most one source is never
asked for it.
-/

namespace Inventory

/-! ## Partners -/

namespace Graph

/-- Two vertices are the ends of a stored edge with a label, either way. -/
def JoinedOver (g : Graph) (label : String) (a b : VertexId) : Prop :=
  ∃ e, g.edges.get? e.id = some e ∧ e.label = label ∧ e.Joins a b

theorem JoinedOver.symm {g : Graph} {label : String} {a b : VertexId}
    (h : g.JoinedOver label a b) : g.JoinedOver label b a := by
  obtain ⟨e, he, hlabel, hjoins⟩ := h
  exact ⟨e, he, hlabel, hjoins.symm⟩

/-- The first vertex stands on the source side of a rule and the second on its
target side, over the label of the rule. For a rule of a type with itself the out
end of the edge is the source. -/
def Relates (g : Graph) (r : EdgeRule) (a b : VertexId) : Prop :=
  g.Holds r.source a ∧ g.Holds r.target b ∧
    ∃ e, g.edges.get? e.id = some e ∧ e.label = r.label ∧
      if r.source = r.target then e.outId = a ∧ e.inId = b else e.Joins a b

theorem Relates.joinedOver {g : Graph} {r : EdgeRule} {a b : VertexId} (h : g.Relates r a b) :
    g.JoinedOver r.label a b := by
  obtain ⟨-, -, e, he, hlabel, hends⟩ := h
  refine ⟨e, he, hlabel, ?_⟩
  split at hends
  · exact .inl hends
  · exact hends

/-- A stored edge between vertices of a type relates its ends by a rule of that type
with itself. -/
theorem relates_of_stored {g : Graph} {r : EdgeRule} {e : Edge} (hself : r.source = r.target)
    (he : g.edges.get? e.id = some e) (hlabel : e.label = r.label)
    (hout : g.Holds r.source e.outId) (hin : g.Holds r.source e.inId) :
    g.Relates r e.outId e.inId := by
  refine ⟨hout, hself ▸ hin, e, he, hlabel, ?_⟩
  rw [if_pos hself]
  exact ⟨rfl, rfl⟩

/-- The graph keeps to the multiplicity of a rule. -/
structure Respects (g : Graph) (r : EdgeRule) : Prop where
  /-- No source has two targets. -/
  target : r.multiplicity = .oneToOne ∨ r.multiplicity = .manyToOne →
    ∀ {a b b'}, g.Relates r a b → g.Relates r a b' → b = b'
  /-- No target has two sources. -/
  source : r.multiplicity = .oneToOne ∨ r.multiplicity = .oneToMany →
    ∀ {a a' b}, g.Relates r a b → g.Relates r a' b → a = a'

/-- No vertex of one type has two partners of the other over a label. -/
def UniquePartner (g : Graph) (label : String) (x y : NodeType) : Prop :=
  ∀ {a b b'}, g.Holds x a → g.Holds y b → g.Holds y b' →
    g.JoinedOver label a b → g.JoinedOver label a b' → b = b'

/-- A pair that is joined after an edge was added was joined before, or the new
edge joins it. -/
theorem joinedOver_addEdge {g g' : Graph} {e : Edge} {label : String} {a b : VertexId}
    (hadd : g.addEdge e = .ok g') (h : g'.JoinedOver label a b) :
    g.JoinedOver label a b ∨ (e.label = label ∧ e.Joins a b) := by
  obtain ⟨-, -, hedges, -⟩ := addEdge_eq_ok hadd
  obtain ⟨e', he', hlabel, hjoins⟩ := h
  rw [hedges, Table.get?_put] at he'
  split at he'
  · cases he'
    exact .inr ⟨hlabel, hjoins⟩
  · exact .inl ⟨e', he', hlabel, hjoins⟩

theorem holds_addEdge {g g' : Graph} {e : Edge} {id : VertexId} {x : NodeType}
    (hadd : g.addEdge e = .ok g') : g'.Holds x id ↔ g.Holds x id := by
  unfold Holds
  rw [(addEdge_eq_ok hadd).2.1]

end Graph

/-! ## Guarded insertions -/

namespace RuleTable

/-- The edge has the label of the rule for the types of its ends, and the check
passes at both ends. -/
def Admits (t : RuleTable) (g : Graph) (e : Edge) : Prop :=
  ∃ u w m, g.vertex e.outId = .ok u ∧ g.vertex e.inId = .ok w ∧
    t.lookup u.nodeType w.nodeType = some m ∧ e.label = m.rule.label ∧
    t.breaksFor g e.outId w.nodeType = .ok false ∧ t.breaksFor g e.inId u.nodeType = .ok false

/-- The graphs that are built from vertices alone by adding edges that are
admitted. -/
inductive Guarded (t : RuleTable) : Graph → Prop where
  | vertices (vs : List Vertex) : t.Guarded (vs.foldl Graph.addVertex .empty)
  | addEdge {g g' : Graph} {e : Edge} :
      t.Guarded g → t.Admits g e → g.addEdge e = .ok g' → t.Guarded g'

variable {t : RuleTable} {g g' : Graph} {e : Edge} {r : EdgeRule} {m : RuleMatch}
  {a b b' : VertexId} {x y : NodeType}

theorem Guarded.wellFormed (h : t.Guarded g) : g.WellFormed := by
  induction h with
  | vertices vs => exact (Graph.Reachable.empty.addVertices vs).wellFormed
  | addEdge _ _ hadd ih => exact ih.addEdge hadd

/-! ## What the check sees -/

/-- The check passes at a vertex of a single-valued side only when no vertex of the
other type is joined to it. -/
theorem not_joinedOver_of_breaksFor (wf : g.WellFormed) (ha : g.Holds x a)
    (hsingle : t.singleValued x y = .ok true) (hlookup : t.lookup x y = some m)
    (hguard : t.breaksFor g a y = .ok false) (hb : g.Holds y b) :
    ¬ g.JoinedOver m.rule.label a b := by
  intro ⟨e, he, hlabel, hjoins⟩
  obtain ⟨v, hv, rfl⟩ := ha
  obtain ⟨w, hw, rfl⟩ := hb
  obtain ⟨partners, hpartners, hmem⟩ := wf.adjacent hv .both (.label m.rule.label)
  have hpartner : w ∈ partners := by
    rw [hmem, wf.vertex_id hw]
    exact ⟨hw, e, he, hjoins.runs_both, by simpa [EdgeFilter.accepts] using hlabel, hjoins⟩
  have hbreaks : t.breaksFor g a w.nodeType = .ok (partners.any (·.nodeType == w.nodeType)) := by
    unfold breaksFor
    simp [Graph.vertex, hv, hsingle, require_eq_ok.mpr hlookup, hpartners, bind, Except.bind]
  rw [hbreaks, Except.ok.injEq, List.any_eq_false] at hguard
  exact hguard w hpartner (by simp)

/-- An end of an admitted edge that is on a single-valued side has no partner yet,
whichever end of the edge it is. -/
theorem Admits.not_joinedOver (h : t.Admits g e) (wf : g.WellFormed) (hjoins : e.Joins a b)
    (ha : g.Holds x a) (hb : g.Holds y b) (hsingle : t.singleValued x y = .ok true)
    (hlookup : t.lookup x y = some m) (hb' : g.Holds y b') :
    ¬ g.JoinedOver m.rule.label a b' := by
  obtain ⟨u, w, -, hu, hw, -, -, hout, hin⟩ := h
  rw [Graph.vertex_eq_ok] at hu hw
  obtain ⟨v, hv, rfl⟩ := hb
  rcases hjoins with ⟨rfl, rfl⟩ | ⟨rfl, rfl⟩
  · cases hw.symm.trans hv
    exact not_joinedOver_of_breaksFor wf ha hsingle hlookup hout hb'
  · cases hu.symm.trans hv
    exact not_joinedOver_of_breaksFor wf ha hsingle hlookup hin hb'

/-! ## What guarded insertions keep -/

/-- **Step**: an admitted edge leaves every vertex of a single-valued side with one
partner. -/
theorem Admits.uniquePartner (h : t.Admits g e) (wf : g.WellFormed)
    (hadd : g.addEdge e = .ok g') (hsingle : t.singleValued x y = .ok true)
    (hlookup : t.lookup x y = some m) (hunique : g.UniquePartner m.rule.label x y) :
    g'.UniquePartner m.rule.label x y := by
  intro a b b' ha hb hb' hab hab'
  rw [Graph.holds_addEdge hadd] at ha hb hb'
  rcases Graph.joinedOver_addEdge hadd hab with hab | ⟨-, hnew⟩
  · rcases Graph.joinedOver_addEdge hadd hab' with hab' | ⟨-, hnew'⟩
    · exact hunique ha hb hb' hab hab'
    · exact absurd hab (h.not_joinedOver wf hnew' ha hb' hsingle hlookup hb)
  · rcases Graph.joinedOver_addEdge hadd hab' with hab' | ⟨-, hnew'⟩
    · exact absurd hab' (h.not_joinedOver wf hnew ha hb hsingle hlookup hb')
    · -- one edge has one other end
      have hother := Edge.otherEnd?_eq_some.mpr hnew
      rw [Edge.otherEnd?_eq_some.mpr hnew'] at hother
      exact (Option.some.inj hother).symm

/-- **Run**: in a graph of guarded insertions a vertex of a single-valued side has
one partner over the label of the rule. -/
theorem Guarded.uniquePartner (h : t.Guarded g) (hsingle : t.singleValued x y = .ok true)
    (hlookup : t.lookup x y = some m) : g.UniquePartner m.rule.label x y := by
  induction h with
  | vertices vs =>
      intro a b b' _ _ _ ⟨e, he, _⟩
      rw [(Graph.foldl_addVertex vs .empty).2.1] at he
      simp [Graph.empty, EmptyCollection.emptyCollection, Table.get?_empty] at he
  | addEdge hg hadmits hadd ih => exact hadmits.uniquePartner hg.wellFormed hadd hsingle hlookup ih

/-! ## The multiplicity of a rule -/

/-- A rule is found for its own types in its own order. -/
theorem OnePerPair.lookup_own (ht : t.OnePerPair) (hr : r ∈ t.rules) :
    t.lookup r.source r.target = some ⟨r, false⟩ :=
  ht.lookup_eq_some.mpr ⟨hr, rfl, rfl⟩

/-- The other order of a rule between two types is found reversed. -/
theorem OnePerPair.lookup_reversed (ht : t.OnePerPair) (hr : r ∈ t.rules)
    (hself : r.source ≠ r.target) : t.lookup r.target r.source = some ⟨r, true⟩ :=
  ht.lookup_eq_some.mpr ⟨hr, rfl, rfl, hself.symm⟩

theorem singleValued_of_lookup (h : t.lookup x y = some m) :
    t.singleValued x y = .ok (if m.reversed then m.rule.multiplicity.singleSource
      else m.rule.multiplicity.singleTarget) := by
  unfold singleValued
  rw [require_eq_ok.mpr h]
  rfl

/-- Guarded insertions keep a rule, unless it lets a vertex of a type have many
others of that type and these only one. -/
theorem Guarded.respects (h : t.Guarded g) (ht : t.OnePerPair) (hr : r ∈ t.rules)
    (hseen : ¬ (r.source = r.target ∧ r.multiplicity = .oneToMany)) : g.Respects r where
  target hmultiplicity {a b b'} hab hab' := by
    have hlookup := ht.lookup_own hr
    have hsingle : t.singleValued r.source r.target = .ok true := by
      rw [singleValued_of_lookup hlookup]
      rcases hmultiplicity with h | h <;> simp [h, Multiplicity.singleTarget]
    exact h.uniquePartner hsingle hlookup hab.1 hab.2.1 hab'.2.1 hab.joinedOver hab'.joinedOver
  source hmultiplicity {a a' b} hab hab' := by
    by_cases hself : r.source = r.target
    · -- a one-to-one rule of a type with itself is single-valued in its own order
      have hone : r.multiplicity = .oneToOne :=
        hmultiplicity.resolve_right fun hmany => hseen ⟨hself, hmany⟩
      have hlookup := ht.lookup_own hr
      have hsingle : t.singleValued r.source r.target = .ok true := by
        rw [singleValued_of_lookup hlookup]
        simp [hone, Multiplicity.singleTarget]
      exact h.uniquePartner hsingle hlookup (hself ▸ hab.2.1) (hself ▸ hab.1) (hself ▸ hab'.1)
        hab.joinedOver.symm hab'.joinedOver.symm
    · have hlookup := ht.lookup_reversed hr hself
      have hsingle : t.singleValued r.target r.source = .ok true := by
        rw [singleValued_of_lookup hlookup]
        rcases hmultiplicity with h | h <;> simp [h, Multiplicity.singleSource]
      exact h.uniquePartner hsingle hlookup hab.2.1 hab.1 hab'.1 hab.joinedOver.symm
        hab'.joinedOver.symm

/-- The rule of a type with itself that gives one target one source is never asked
for it: every edge between vertices of the type is admitted. -/
theorem OnePerPair.admits_of_self (ht : t.OnePerPair) (hr : r ∈ t.rules)
    (hself : r.source = r.target) (hmany : r.multiplicity = .oneToMany)
    (hout : g.Holds r.source e.outId) (hin : g.Holds r.source e.inId)
    (hlabel : e.label = r.label) : t.Admits g e := by
  obtain ⟨u, hu, hutype⟩ := hout
  obtain ⟨w, hw, hwtype⟩ := hin
  have hlookup : t.lookup r.source r.source = some ⟨r, false⟩ := by
    simpa [← hself] using ht.lookup_own hr
  have hsingle : t.singleValued r.source r.source = .ok false := by
    rw [singleValued_of_lookup hlookup]
    simp [hmany, Multiplicity.singleTarget]
  have hpasses : ∀ {id v}, g.vertices.get? id = some v → v.nodeType = r.source →
      t.breaksFor g id r.source = .ok false := by
    intro id v hv hvtype
    unfold breaksFor
    simp [Graph.vertex_eq_ok.mpr hv, hvtype, hsingle, bind, Except.bind]
  refine ⟨u, w, ⟨r, false⟩, Graph.vertex_eq_ok.mpr hu, Graph.vertex_eq_ok.mpr hw, ?_, hlabel,
    ?_, ?_⟩
  · rw [hutype, hwtype, hlookup]
  · rw [hwtype]
    exact hpasses hu hutype
  · rw [hutype]
    exact hpasses hw hwtype

/-- An admitted edge can be added. -/
theorem Admits.exists_addEdge (h : t.Admits g e) : ∃ g', g.addEdge e = .ok g' := by
  obtain ⟨u, w, -, hu, hw, -⟩ := h
  apply Graph.addEdge_total
  intro x hx
  rcases Edge.touches_iff.mp hx with rfl | rfl
  · exact Graph.contains_iff.mpr ⟨u, Graph.vertex_eq_ok.mp hu⟩
  · exact Graph.contains_iff.mpr ⟨w, Graph.vertex_eq_ok.mp hw⟩

/-- Two vertices of the type of such a rule can be joined to a third one. -/
theorem OnePerPair.exists_two_sources (ht : t.OnePerPair) (hr : r ∈ t.rules)
    (hself : r.source = r.target) (hmany : r.multiplicity = .oneToMany) :
    ∃ g, t.Guarded g ∧ g.Relates r "a" "c" ∧ g.Relates r "b" "c" := by
  let vertex (id : VertexId) : Vertex := { id, nodeType := r.source }
  let g₀ : Graph := ["a", "b", "c"].map vertex |>.foldl Graph.addVertex .empty
  have hheld : g₀.Holds r.source "a" ∧ g₀.Holds r.source "b" ∧ g₀.Holds r.source "c" := by
    refine ⟨⟨vertex "a", ?_, rfl⟩, ⟨vertex "b", ?_, rfl⟩, ⟨vertex "c", ?_, rfl⟩⟩ <;>
      simp [g₀, vertex, Graph.addVertex, Table.get?_put]
  let e₁ : Edge := ⟨"1", "a", "c", r.label, ∅⟩
  let e₂ : Edge := ⟨"2", "b", "c", r.label, ∅⟩
  have hadmits₁ : t.Admits g₀ e₁ := ht.admits_of_self hr hself hmany hheld.1 hheld.2.2 rfl
  obtain ⟨g₁, hadd₁⟩ := hadmits₁.exists_addEdge
  have hadmits₂ : t.Admits g₁ e₂ := ht.admits_of_self hr hself hmany
    ((Graph.holds_addEdge hadd₁).mpr hheld.2.1) ((Graph.holds_addEdge hadd₁).mpr hheld.2.2) rfl
  obtain ⟨g₂, hadd₂⟩ := hadmits₂.exists_addEdge
  have hheld₂ : ∀ {id}, g₀.Holds r.source id → g₂.Holds r.source id := by
    intro id h
    rw [Graph.holds_addEdge hadd₂, Graph.holds_addEdge hadd₁]
    exact h
  have hedges : ∀ e, e = e₁ ∨ e = e₂ → g₂.edges.get? e.id = some e := by
    intro e he
    rw [(Graph.addEdge_eq_ok hadd₂).2.2.1, (Graph.addEdge_eq_ok hadd₁).2.2.1]
    rcases he with rfl | rfl <;> simp [Table.get?_put, e₁, e₂]
  refine ⟨g₂, ((Guarded.vertices _).addEdge hadmits₁ hadd₁).addEdge hadmits₂ hadd₂, ?_, ?_⟩
  · exact Graph.relates_of_stored hself (hedges e₁ (.inl rfl)) rfl (hheld₂ hheld.1)
      (hheld₂ hheld.2.2)
  · exact Graph.relates_of_stored hself (hedges e₂ (.inr rfl)) rfl (hheld₂ hheld.2.1)
      (hheld₂ hheld.2.2)

/-- **Guarded insertions keep the multiplicity of a rule**, over all graphs built
that way, exactly when it is not a one-to-many rule of a type with itself. -/
theorem guarded_respects_iff {rs : List EdgeRule} (h : ofList rs = .ok t) (hr : r ∈ rs) :
    (∀ g, t.Guarded g → g.Respects r) ↔
      ¬ (r.source = r.target ∧ r.multiplicity = .oneToMany) := by
  have ht : t.OnePerPair := onePerPair_ofList h
  have hmem : r ∈ t.rules := (mem_ofList h r).mpr hr
  constructor
  · intro hall ⟨hself, hmany⟩
    obtain ⟨g, hg, hac, hbc⟩ := ht.exists_two_sources hmem hself hmany
    have hsame := (hall g hg).source (.inr hmany) hac hbc
    simp at hsame
  · intro hseen g hg
    exact hg.respects ht hmem hseen

/-- A host keeps its ports to itself, in every graph of guarded insertions. -/
theorem guarded_respects_owning :
    ofList [owningRule, linkRule] = .ok ⟨[owningRule, linkRule]⟩ ∧
      owningRule ∈ [owningRule, linkRule] ∧
      ∀ g, RuleTable.Guarded ⟨[owningRule, linkRule]⟩ g → g.Respects owningRule := by
  have hbuilt : ofList [owningRule, linkRule] = .ok ⟨[owningRule, linkRule]⟩ := by decide
  exact ⟨hbuilt, by simp, (guarded_respects_iff hbuilt (by simp)).mpr (by decide)⟩

/-! ### A second parent -/

/-- A node is the parent of many nodes, and each has one parent. -/
def parentRule : EdgeRule :=
  { source := "node", target := "node", label := "link", multiplicity := .oneToMany }

def parentTable : RuleTable := ⟨[parentRule]⟩

/-- Three nodes, of which the first is the parent of the last. -/
def family : Graph :=
  Graph.ofParts [⟨"a", "node", ∅⟩, ⟨"b", "node", ∅⟩, ⟨"c", "node", ∅⟩]
    [⟨"1", "a", "c", "link", ∅⟩] |>.toOption.getD .empty

/-- The check lets a node become the second parent of another. -/
theorem guarded_second_parent :
    ofList [parentRule] = .ok parentTable ∧ parentTable.Guarded family ∧
      parentTable.breaksFor family "b" "node" = .ok false ∧
      parentTable.breaksFor family "c" "node" = .ok false ∧
      ∃ g, family.addEdge ⟨"2", "b", "c", "link", ∅⟩ = .ok g ∧ parentTable.Guarded g ∧
        g.Relates parentRule "a" "c" ∧ g.Relates parentRule "b" "c" ∧ ¬ g.Respects parentRule := by
  have hfamily : parentTable.Guarded family := by
    refine (Guarded.vertices [⟨"a", "node", ∅⟩, ⟨"b", "node", ∅⟩, ⟨"c", "node", ∅⟩]).addEdge
      (e := ⟨"1", "a", "c", "link", ∅⟩) ?_ rfl
    exact ⟨_, _, ⟨parentRule, false⟩, rfl, rfl, rfl, rfl, rfl, rfl⟩
  have hadmits : parentTable.Admits family ⟨"2", "b", "c", "link", ∅⟩ :=
    ⟨_, _, ⟨parentRule, false⟩, rfl, rfl, rfl, rfl, rfl, rfl⟩
  obtain ⟨g, hadd⟩ := hadmits.exists_addEdge
  have hedges := (Graph.addEdge_eq_ok hadd).2.2.1
  have hheld : ∀ {id}, family.Holds "node" id → g.Holds "node" id :=
    (Graph.holds_addEdge hadd).mpr
  have hac : g.Relates parentRule "a" "c" := by
    apply Graph.relates_of_stored (e := ⟨"1", "a", "c", "link", ∅⟩) rfl _ rfl
      (hheld ⟨_, rfl, rfl⟩) (hheld ⟨_, rfl, rfl⟩)
    rw [hedges]
    rfl
  have hbc : g.Relates parentRule "b" "c" := by
    apply Graph.relates_of_stored (e := ⟨"2", "b", "c", "link", ∅⟩) rfl _ rfl
      (hheld ⟨_, rfl, rfl⟩) (hheld ⟨_, rfl, rfl⟩)
    rw [hedges]
    rfl
  refine ⟨rfl, hfamily, rfl, rfl, g, hadd, hfamily.addEdge hadmits hadd, hac, hbc, ?_⟩
  intro h
  have hsame := h.source (.inr rfl) hac hbc
  simp at hsame

end RuleTable

end Inventory
