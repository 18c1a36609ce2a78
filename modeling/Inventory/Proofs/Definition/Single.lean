import Inventory.Proofs.Definition.Reading
import Inventory.Proofs.Graph.Listing

/-!
# Definition — single targets and well-formed vertices

A single target is found where one stored edge of a label leaves a vertex, and
the vertex lists it once: an edge that was added again under its id is listed
again, and then read as several. A vertex is read as a model or as an element
exactly when it says what such a vertex must say, which is put down here without
the readers.
-/

namespace Inventory

open Definition

/-! ## Single edges -/

namespace Graph

/-- The one stored edge of a label that leaves a vertex. -/
structure Sole (g : Graph) (label : String) (a : VertexId) (e : Edge) : Prop where
  stored : g.edges.get? e.id = some e
  labelled : e.label = label
  leaves : e.outId = a
  only : ∀ {e'}, g.edges.get? e'.id = some e' → e'.label = label → e'.outId = a → e' = e

/-- A single stored edge of a label leaves a vertex, and leads to another. -/
def LeadsAlone (g : Graph) (label : String) (a b : VertexId) : Prop :=
  ∃ e, g.Sole label a e ∧ e.inId = b

/-- A single stored edge of a label leaves a vertex, which lists it once. -/
def LeadsOnce (g : Graph) (label : String) (a b : VertexId) : Prop :=
  ∃ e, g.Sole label a e ∧ e.inId = b ∧ (g.listed a).count e.id = 1

variable {g : Graph} {label : String} {a b b' : VertexId}

/-- Whether an edge is the only one can be seen from the edges in order. -/
theorem WellFormed.sole_iff (wf : g.WellFormed) {e : Edge} :
    g.Sole label a e ↔ (e ∈ g.edges.values ∧ e.label = label ∧ e.outId = a) ∧
      ∀ e' ∈ g.edges.values, e'.label = label → e'.outId = a → e' = e := by
  simp only [wf.stored_of_mem_values]
  constructor
  · rintro ⟨hstored, hlabel, hout, honly⟩
    exact ⟨⟨hstored, hlabel, hout⟩, fun _ => honly⟩
  · rintro ⟨⟨hstored, hlabel, hout⟩, honly⟩
    exact ⟨hstored, hlabel, hout, honly _⟩

theorem LeadsOnce.alone (h : g.LeadsOnce label a b) : g.LeadsAlone label a b := by
  obtain ⟨e, he, hin, -⟩ := h
  exact ⟨e, he, hin⟩

theorem FiledOnce.leadsOnce (h : g.FiledOnce a) (hlead : g.LeadsAlone label a b) :
    g.LeadsOnce label a b := by
  obtain ⟨e, he, hin⟩ := hlead
  exact ⟨e, he, hin, h e he.stored (Edge.touches_iff.mpr (.inl he.leaves))⟩

theorem LeadsAlone.unique (h : g.LeadsAlone label a b) (h' : g.LeadsAlone label a b') : b = b' := by
  obtain ⟨e, he, rfl⟩ := h
  obtain ⟨e', he', rfl⟩ := h'
  rw [he.only he'.stored he'.labelled he'.leaves]

theorem singleTarget_eq_ok {invalid : DefinitionFault → Error} {w : Vertex} :
    singleTarget invalid g a label = .ok w ↔ targets g a label = .ok [w] := by
  unfold singleTarget
  rw [Outcome.bind_eq_ok]
  constructor
  · rintro ⟨ws, hws, h⟩
    split at h
    · cases h
      exact hws
    · cases h
    · cases h
  · intro h
    exact ⟨[w], h, rfl⟩

/-- The targets of a vertex are read off a list of the edges that lead there. -/
theorem WellFormed.edges_of_targets (wf : g.WellFormed) {v : Vertex}
    (hv : g.vertices.get? a = some v) {ws : List Vertex}
    (h : Definition.targets g a label = .ok ws) :
    ∃ es : List Edge, ws.map (·.id) = es.map (·.inId) ∧
      (∀ e, e ∈ es ↔ g.edges.get? e.id = some e ∧ e.label = label ∧ e.outId = a) ∧
      ∀ e ∈ es, es.count e = (g.listed a).count e.id := by
  obtain ⟨es, hes, hstored⟩ := wf.edgesOf hv .outgoing
  have hmem : ∀ e, e ∈ es.filter (EdgeFilter.label label).accepts ↔
      g.edges.get? e.id = some e ∧ e.label = label ∧ e.outId = a := by
    intro e
    rw [List.mem_filter, hstored]
    simp only [Edge.runs, EdgeFilter.accepts, beq_iff_eq]
    exact and_assoc.trans (and_congr_right fun _ => and_comm)
  refine ⟨es.filter (EdgeFilter.label label).accepts, ?_, hmem, fun e he => ?_⟩
  · rw [wf.ids_adjacent hes h]
    refine List.filterMap_eq_map_iff_forall_eq_some.mpr fun e he => ?_
    obtain ⟨-, -, hout⟩ := (hmem e).mp he
    simp [Edge.otherEnd?, hout]
  · obtain ⟨hes₁, haccepts⟩ := List.mem_filter.mp he
    obtain ⟨hget, hruns⟩ := (hstored e).mp hes₁
    rw [List.count_filter haccepts, wf.count_edgesOf hes hget hruns]

/-- **Single targets.** What is found is the vertex that the one edge leads to,
when it is listed once. -/
theorem WellFormed.singleTarget_eq_ok_iff (wf : g.WellFormed) {v w : Vertex}
    (hv : g.vertices.get? a = some v) {invalid : DefinitionFault → Error} :
    Definition.singleTarget invalid g a label = .ok w ↔
      g.vertices.get? w.id = some w ∧ g.LeadsOnce label a w.id := by
  obtain ⟨ws, hws, hstored, -⟩ := wf.targets hv label
  obtain ⟨es, hids, hmem, hcount⟩ := wf.edges_of_targets hv hws
  rw [singleTarget_eq_ok, hws, Except.ok.injEq]
  constructor
  · rintro rfl
    obtain ⟨e, rfl⟩ : ∃ e, es = [e] := by
      rw [← List.length_eq_one_iff]
      simpa using (congrArg List.length hids).symm
    obtain ⟨hget, hlabel, hout⟩ := (hmem e).mp (by simp)
    refine ⟨hstored w (by simp), e, ⟨hget, hlabel, hout, ?_⟩, by simpa using hids.symm, ?_⟩
    · intro e' hget' hlabel' hout'
      exact List.mem_singleton.mp ((hmem e').mpr ⟨hget', hlabel', hout'⟩)
    · rw [← hcount e (by simp), List.count_singleton_self]
  · rintro ⟨hw, e, he, hin, hlisted⟩
    have hin' : e ∈ es := (hmem e).mpr ⟨he.stored, he.labelled, he.leaves⟩
    -- every entry is the one edge, which is counted once
    have hall : ∀ e' ∈ es, e = e' := by
      intro e' he'
      obtain ⟨hget, hlabel, hout⟩ := (hmem e').mp he'
      exact (he.only hget hlabel hout).symm
    have hlength : es.length = 1 := by
      rw [← List.count_eq_length.mpr hall, hcount e hin', hlisted]
    obtain ⟨e', rfl⟩ := List.length_eq_one_iff.mp hlength
    cases hall e' (by simp)
    obtain ⟨w', rfl⟩ : ∃ w', ws = [w'] := by
      rw [← List.length_eq_one_iff]
      simpa using congrArg List.length hids
    have hid : w'.id = w.id := by
      rw [← hin]
      simpa using hids
    rw [eq_of_id_eq (hstored w' (by simp)) hw hid]

/-- What a single target is read as stands for the vertex that the edge leads to. -/
theorem WellFormed.readSingle_eq_ok_iff (wf : g.WellFormed) {v : Vertex}
    (hv : g.vertices.get? a = some v) {invalid : DefinitionFault → Error} {α : Type}
    {read : Vertex → Outcome α} {key : α → VertexId} {x : α}
    (hread : ∀ {w x}, g.vertices.get? w.id = some w → read w = .ok x → key x = w.id) :
    (Definition.singleTarget invalid g a label >>= read) = .ok x ↔
      g.LeadsOnce label a (key x) ∧ ∃ w, g.vertices.get? (key x) = some w ∧ read w = .ok x := by
  rw [Outcome.bind_eq_ok]
  constructor
  · rintro ⟨w, hw, hx⟩
    obtain ⟨hstored, hleads⟩ := (wf.singleTarget_eq_ok_iff hv).mp hw
    rw [hread hstored hx]
    exact ⟨hleads, w, hstored, hx⟩
  · rintro ⟨hleads, w, hw, hx⟩
    have hid : w.id = key x := wf.vertex_id hw
    rw [← hid] at hw hleads
    exact ⟨w, (wf.singleTarget_eq_ok_iff hv).mpr ⟨hw, hleads⟩, hx⟩

end Graph

/-! ## What vertices must say -/

/-- The word for a kind of model. -/
def ModelKind.word : ModelKind → String
  | .widget => "widget"
  | .resource => "resource"
  | .service => "service"

/-- A model says of which kind it is, in any letter case, and has an id and a
version; a widget also has a name. -/
structure Vertex.DescribesModel (v : Vertex) (k : ModelKind) : Prop where
  type : v.nodeType = modelType
  kind : ∃ s, v.text? "model-type" = some s ∧ Text.lowercase s = k.word
  identified : ∃ id, v.text? "model-id" = some id
  versioned : ∃ version, v.text? "model-version" = some version
  named : k = .widget → ∃ name, v.text? "model-name" = some name

/-- Every linkage path of an element has some piece between bars that is not blank. -/
structure Vertex.DescribesElement (v : Vertex) : Prop where
  type : v.nodeType = elementType
  linked : ∀ s ∈ v.list "linkage-points", ∃ piece ∈ Text.split '|' s, Text.trim piece ≠ ""

theorem ModelKind.parse_eq_ok_iff {s : String} {k : ModelKind} :
    ModelKind.parse s = .ok k ↔ Text.lowercase s = k.word := by
  unfold ModelKind.parse
  dsimp only
  split
  · next h => cases k <;> simp [h, word]
  · next hwidget =>
      split
      · next h => cases k <;> simp [h, word]
      · next hresource =>
          split
          · next h => cases k <;> simp [h, word]
          · next hservice => cases k <;> simp [word, hwidget, hresource, hservice]

section

variable {v : Vertex}

theorem expectType_eq_ok {invalid : DefinitionFault → Error} {t : NodeType} {u : Unit} :
    expectType invalid v t = .ok u ↔ v.nodeType = t := by
  unfold expectType
  split <;> simp [*]

theorem requiredText_eq_ok {invalid : DefinitionFault → Error} {name s : String} :
    requiredText invalid v name = .ok s ↔ v.text? name = some s := by
  unfold requiredText
  cases v.text? name <;> simp

/-- A vertex is read as a model exactly when it describes one, and as that one. -/
theorem Model.ofVertex_eq_ok_iff {m : Model} :
    Model.ofVertex v = .ok m ↔ v.DescribesModel m.kind ∧ m.vertexId = v.id ∧
      v.text? "model-id" = some m.modelId ∧ v.text? "model-version" = some m.modelVersion ∧
      v.text? "model-name" = m.modelName := by
  unfold Model.ofVertex
  simp only [Outcome.bind_eq_ok, expectType_eq_ok, requiredText_eq_ok, ModelKind.parse_eq_ok_iff]
  constructor
  · rintro ⟨-, htype, s, hs, kind, hkind, h⟩
    split at h
    · cases h
    · next hnamed =>
        obtain ⟨id, hid, h⟩ := Outcome.bind_eq_ok.mp h
        obtain ⟨version, hversion, h⟩ := Outcome.bind_eq_ok.mp h
        cases h
        rw [requiredText_eq_ok] at hid hversion
        refine ⟨⟨htype, ⟨s, hs, hkind⟩, ⟨id, hid⟩, ⟨version, hversion⟩, fun hwidget => ?_⟩,
          rfl, hid, hversion, rfl⟩
        exact Option.ne_none_iff_exists'.mp fun hnone => hnamed ⟨hwidget, hnone⟩
  · rintro ⟨hdescribes, hvertex, hid, hversion, hname⟩
    obtain ⟨s, hs, hkind⟩ := hdescribes.kind
    refine ⟨(), hdescribes.type, s, hs, m.kind, hkind, ?_⟩
    rw [if_neg]
    · simp only [Outcome.bind_eq_ok, requiredText_eq_ok]
      refine ⟨_, hid, _, hversion, ?_⟩
      rw [hname, ← hvertex]
    · rintro ⟨hwidget, hnone⟩
      obtain ⟨name, hname'⟩ := hdescribes.named hwidget
      cases hname'.symm.trans hnone

theorem Vertex.DescribesModel.exists_ofVertex {k : ModelKind} (h : v.DescribesModel k) :
    ∃ m, Model.ofVertex v = .ok m ∧ m.kind = k := by
  obtain ⟨id, hid⟩ := h.identified
  obtain ⟨version, hversion⟩ := h.versioned
  exact ⟨⟨v.id, id, version, v.text? "model-name", k⟩,
    Model.ofVertex_eq_ok_iff.mpr ⟨h, rfl, hid, hversion, rfl⟩, rfl⟩

theorem LinkagePath.exists_parse_iff {s : String} :
    (∃ path, LinkagePath.parse s = .ok path) ↔ ∃ piece ∈ Text.split '|' s, Text.trim piece ≠ "" := by
  unfold LinkagePath.parse
  split
  · next hnil =>
      refine iff_of_false (by simp) ?_
      rintro ⟨piece, hpiece, hne⟩
      have hmem : Text.trim piece ∈ ((Text.split '|' s).map Text.trim).filter (· ≠ "") :=
        List.mem_filter.mpr ⟨List.mem_map_of_mem hpiece, by simpa using hne⟩
      rw [hnil] at hmem
      cases hmem
  · next steps hsteps =>
      refine iff_of_true ⟨_, rfl⟩ ?_
      obtain ⟨step, hstep⟩ := List.exists_mem_of_ne_nil _ hsteps
      obtain ⟨hmem, hne⟩ := List.mem_filter.mp hstep
      obtain ⟨piece, hpiece, rfl⟩ := List.mem_map.mp hmem
      exact ⟨piece, hpiece, by simpa using hne⟩

/-- A vertex is read as an element exactly when it describes one. -/
theorem Element.exists_ofVertex_iff : (∃ e, Element.ofVertex v = .ok e) ↔ v.DescribesElement := by
  unfold Element.ofVertex
  simp only [Outcome.bind_eq_ok, expectType_eq_ok]
  constructor
  · rintro ⟨e, -, htype, points, hpoints, -⟩
    refine ⟨htype, fun s hs => LinkagePath.exists_parse_iff.mp ?_⟩
    obtain ⟨path, -, hpath⟩ := Outcome.mapM_reads hpoints hs
    exact ⟨path, hpath⟩
  · intro h
    obtain ⟨points, hpoints⟩ :=
      Outcome.mapM_total fun s hs => LinkagePath.exists_parse_iff.mpr (h.linked s hs)
    exact ⟨_, (), h.type, points, hpoints, rfl⟩

end

end Inventory
