import Inventory.Definition.Query
import Inventory.Definition.Scope
import Inventory.Proofs.Graph.Reachable

/-!
# Definition — what is read from a graph

In a well-formed graph every reading of a definition finds the vertices that
the stored edges lead to, or fails because the definition is wrong. Which
elements an element leads to is thereby a matter of the stored edges alone.
-/

namespace Inventory

open Definition

/-! ## Wrong definitions -/

/-- The error blames a definition, for anything but a cycle. -/
structure Error.Blames (e : Error) : Prop where
  kind : e.kind = .configuration
  acyclic : ∀ id, e ≠ .modelCycle id

theorem Error.blames_invalidModel (f : DefinitionFault) : (invalidModel f).Blames :=
  ⟨rfl, by simp⟩

theorem Error.blames_invalidNamedQuery (f : DefinitionFault) : (invalidNamedQuery f).Blames :=
  ⟨rfl, by simp⟩

/-! ## Edges of definitions -/

namespace Graph

/-- Some stored edge of a label leads from a vertex to another. -/
def Leads (g : Graph) (label : String) (a b : VertexId) : Prop :=
  ∃ e, g.edges.get? e.id = some e ∧ e.label = label ∧ e.outId = a ∧ e.inId = b

variable {g : Graph} {id : VertexId} {label : String}

/-- The targets of a stored vertex are the vertices that its edges lead to. -/
theorem WellFormed.targets (wf : g.WellFormed) {v : Vertex} (h : g.vertices.get? id = some v)
    (label : String) :
    ∃ ws, targets g id label = .ok ws ∧ (∀ w ∈ ws, g.vertices.get? w.id = some w) ∧
      ∀ y, g.Leads label id y ↔ ∃ w ∈ ws, w.id = y := by
  obtain ⟨ws, hws, hmem⟩ := wf.adjacent h .outgoing (.label label)
  refine ⟨ws, hws, fun w hw => ((hmem w).mp hw).1, fun y => ⟨?_, ?_⟩⟩
  · rintro ⟨e, he, hlabel, hout, hin⟩
    have htouches : e.touches y = true := Edge.touches_iff.mpr (.inr hin)
    obtain ⟨w, hw⟩ := Option.isSome_iff_exists.mp (wf.has_end he htouches)
    have hid := wf.vertex_id hw
    refine ⟨w, (hmem w).mpr ⟨hid ▸ hw, e, he, ?_, ?_, .inl ⟨hout, hid ▸ hin⟩⟩, hid⟩
    · simpa [Edge.runs] using hout
    · simpa [EdgeFilter.accepts] using hlabel
  · rintro ⟨w, hw, rfl⟩
    obtain ⟨-, e, he, hruns, hlabel, hjoins⟩ := (hmem w).mp hw
    have hout : e.outId = id := by simpa [Edge.runs] using hruns
    refine ⟨e, he, by simpa [EdgeFilter.accepts] using hlabel, hout, ?_⟩
    -- a loop leads back to the vertex itself
    rcases hjoins with ⟨-, hin⟩ | ⟨hout', hin⟩
    · exact hin
    · exact hin.trans (hout.symm.trans hout')

/-- What the targets of a vertex are read as stands for the vertices that its
edges lead to. -/
theorem WellFormed.readTargets (wf : g.WellFormed) {v : Vertex}
    (h : g.vertices.get? id = some v) {α : Type} {read : Vertex → Outcome α} {key : α → VertexId}
    {Good : α → Prop} (hread : ∀ {w}, g.vertices.get? w.id = some w →
      (read w).Meets (fun a => key a = w.id ∧ Good a) Error.Blames) :
    Outcome.Meets (Definition.targets g id label >>= fun ws => ws.mapM read)
      (fun as => (∀ a ∈ as, Good a) ∧ ∀ y, g.Leads label id y ↔ ∃ a ∈ as, key a = y)
      Error.Blames := by
  obtain ⟨ws, hws, hstored, hleads⟩ := wf.targets h label
  rw [hws]
  refine Outcome.Meets.imp (.mapM fun w hw => hread (hstored w hw)) ?_ fun he => he
  rintro as ⟨hback, hforth⟩
  refine ⟨fun a ha => ?_, fun y => ?_⟩
  · obtain ⟨w, hw, -, hgood⟩ := hback a ha
    exact hgood
  · rw [hleads]
    constructor
    · rintro ⟨w, hw, rfl⟩
      obtain ⟨a, ha, hkey, -⟩ := hforth w hw
      exact ⟨a, ha, hkey⟩
    · rintro ⟨a, ha, rfl⟩
      obtain ⟨w, hw, hkey, -⟩ := hback a ha
      exact ⟨w, hw, hkey.symm⟩

/-- A single target is the one vertex that an edge leads to. -/
theorem WellFormed.singleTarget (wf : g.WellFormed) {v : Vertex}
    (h : g.vertices.get? id = some v) {invalid : DefinitionFault → Error}
    (hinvalid : ∀ f, (invalid f).Blames) :
    (singleTarget invalid g id label).Meets
      (fun w => g.vertices.get? w.id = some w ∧ ∀ y, g.Leads label id y ↔ y = w.id)
      Error.Blames := by
  obtain ⟨ws, hws, hstored, hleads⟩ := wf.targets h label
  unfold Definition.singleTarget
  rw [hws]
  match ws with
  | [] => exact hinvalid _
  | [w] =>
      refine ⟨hstored w List.mem_cons_self, fun y => ?_⟩
      rw [hleads]
      simp [eq_comm]
  | _ :: _ :: _ => exact hinvalid _

end Graph

/-! ## Reading vertices -/

section

variable {invalid : DefinitionFault → Error} {v : Vertex}

theorem meets_expectType (hinvalid : ∀ f, (invalid f).Blames) (t : NodeType) :
    (expectType invalid v t).Meets (fun _ => v.nodeType = t) Error.Blames := by
  unfold expectType
  split
  · next h => exact h
  · exact hinvalid _

theorem meets_requiredText (hinvalid : ∀ f, (invalid f).Blames) (name : String) :
    (requiredText invalid v name).Meets (fun _ => True) Error.Blames := by
  unfold requiredText
  split
  · trivial
  · exact hinvalid _

theorem meets_parseKind (s : String) :
    (ModelKind.parse s).Meets (fun _ => True) Error.Blames := by
  unfold ModelKind.parse
  dsimp only
  split
  · trivial
  · split
    · trivial
    · split
      · trivial
      · exact Error.blames_invalidModel _

theorem meets_modelOfVertex :
    (Model.ofVertex v).Meets (fun m => m.vertexId = v.id) Error.Blames := by
  have htext := meets_requiredText (v := v) Error.blames_invalidModel
  unfold Model.ofVertex
  refine (meets_expectType Error.blames_invalidModel _).bind fun _ => (htext _).bind fun _ =>
    (meets_parseKind _).bind fun {kind} _ => ?_
  dsimp only
  split
  · exact Error.blames_invalidModel _
  · exact (htext _).bind fun _ => (htext _).bind fun _ => rfl

theorem meets_parsePath (s : String) :
    (LinkagePath.parse s).Meets (fun _ => True) Error.Blames := by
  unfold LinkagePath.parse
  split
  · exact Error.blames_invalidModel _
  · trivial

end

/-! ## Elements -/

namespace Graph

/-- An element without linkage points: what it leads to belongs to the model. -/
def Open (g : Graph) (id : VertexId) : Prop :=
  ∃ v, g.vertices.get? id = some v ∧ v.list "linkage-points" = []

/-- The elements that the target of a connection stands for when no set is
replaced: itself, the members of a choice set, or those of all choice sets of a
set of elements. -/
inductive Offers (g : Graph) : VertexId → VertexId → Prop where
  | element {y : VertexId} : g.Holds elementType y → Offers g y y
  | choice {c y : VertexId} : g.Holds choiceSetType c → g.Leads has c y → Offers g c y
  | set {s c y : VertexId} : g.Holds elementSetType s → g.Leads uses s c → g.Leads has c y →
      Offers g s y

/-- The model vertex is of a composite model. -/
def Composite (g : Graph) (id : VertexId) : Prop :=
  ∃ v m, g.vertices.get? id = some v ∧ Model.ofVertex v = .ok m ∧ m.kind.isComposite = true

/-- An element is directly below another: over a connection, or as the first
element of the composite model that the other is an instance of. -/
inductive Below (g : Graph) (x : VertexId) : VertexId → Prop where
  | connect {c y : VertexId} : g.Open x → g.Leads connectsTo x c → g.Offers c y → Below g x y
  | graft {m y : VertexId} : g.Open x → g.Leads isA x m → g.Composite m →
      g.Leads startsWith m y → Below g x y

/-- The element uses a constraint that replaces a set. -/
def Constrained (g : Graph) (x : VertexId) : Prop :=
  ∃ y, g.Leads uses x y ∧ g.Holds setConstraintType y

theorem not_constrained {g : Graph} (h : ∀ e ∈ g.edges.values, e.label ≠ uses) (x : VertexId) :
    ¬ g.Constrained x := by
  rintro ⟨y, ⟨e, he, hlabel, -⟩, -⟩
  exact h e (Table.mem_values.mpr ⟨_, he⟩) hlabel

end Graph

/-- The element was read from its vertex. -/
structure Element.Stands (g : Graph) (e : Element) : Prop where
  type : g.Holds elementType e.vertexId
  plain : e.linkagePoints = [] ↔ g.Open e.vertexId

/-- The model was read from its vertex. -/
def Model.Stands (g : Graph) (m : Model) : Prop :=
  ∃ v, g.vertices.get? m.vertexId = some v ∧ Model.ofVertex v = .ok m

section

variable {g : Graph}

theorem meets_elementOfVertex {v : Vertex} (hv : g.vertices.get? v.id = some v) :
    (Element.ofVertex v).Meets (fun e => e.vertexId = v.id ∧ e.Stands g) Error.Blames := by
  unfold Element.ofVertex
  refine (meets_expectType Error.blames_invalidModel _).bind fun htype => ?_
  refine Outcome.Meets.bind (.mapM fun s _ => meets_parsePath s) fun {points} hpoints => ?_
  refine ⟨rfl, ⟨v, hv, htype⟩, ?_⟩
  have hnil : points = [] ↔ v.list "linkage-points" = [] := by
    constructor
    · rintro rfl
      refine List.eq_nil_iff_forall_not_mem.mpr fun s hs => ?_
      obtain ⟨p, hp, -⟩ := hpoints.2 s hs
      cases hp
    · intro h
      refine List.eq_nil_iff_forall_not_mem.mpr fun p hp => ?_
      obtain ⟨s, hs, -⟩ := hpoints.1 p hp
      rw [h] at hs
      cases hs
  constructor
  · intro h
    exact ⟨v, hv, hnil.mp h⟩
  · rintro ⟨v', hv', h⟩
    cases hv.symm.trans hv'
    exact hnil.mpr h

/-- The model of an element is the one that its edge leads to. -/
theorem Graph.WellFormed.model (wf : g.WellFormed) {e : Element} (he : e.Stands g) :
    (e.model g).Meets (fun m => m.Stands g ∧ ∀ y, g.Leads isA e.vertexId y ↔ y = m.vertexId)
      Error.Blames := by
  obtain ⟨v, hv, -⟩ := he.type
  unfold Element.model
  refine (wf.singleTarget hv Error.blames_invalidModel).bind fun {w} hw => ?_
  refine meets_modelOfVertex.eq.imp ?_ fun h => h
  rintro m ⟨hm, hid⟩
  rw [← hid] at hw
  exact ⟨⟨w, hw.1, hm⟩, hw.2⟩

theorem Model.Stands.composite_iff {m : Model} (hm : m.Stands g) :
    g.Composite m.vertexId ↔ m.kind.isComposite = true := by
  obtain ⟨v, hv, hread⟩ := hm
  constructor
  · rintro ⟨v', m', hv', hread', h⟩
    cases hv.symm.trans hv'
    cases hread.symm.trans hread'
    exact h
  · intro h
    exact ⟨v, m, hv, hread, h⟩

/-- The top element of a model is the one that its edge leads to. -/
theorem Graph.WellFormed.topElement (wf : g.WellFormed) {m : Model} (hm : m.Stands g) :
    (m.topElement g).Meets
      (fun e => e.Stands g ∧ ∀ y, g.Leads startsWith m.vertexId y ↔ y = e.vertexId)
      Error.Blames := by
  obtain ⟨v, hv, -⟩ := hm
  unfold Model.topElement
  refine (wf.singleTarget hv Error.blames_invalidModel).bind fun {w} hw => ?_
  refine (meets_elementOfVertex hw.1).imp ?_ fun h => h
  rintro e ⟨hid, he⟩
  exact ⟨he, hid ▸ hw.2⟩

end

/-! ## Connections -/

/-- The id of the vertex that a connection was read from. -/
def Connection.origin : Connection → VertexId
  | .element e => e.vertexId
  | .set s => s.vertexId
  | .choice c => c.vertexId

/-- The connection was read from its vertex. -/
def Connection.Stands (g : Graph) : Connection → Prop
  | .element e => e.Stands g
  | .set s => g.Holds elementSetType s.vertexId
  | .choice c => g.Holds choiceSetType c.vertexId

section

variable {g : Graph}

theorem meets_setOfVertex {v : Vertex} (hv : g.vertices.get? v.id = some v) :
    (ElementSet.ofVertex v).Meets
      (fun s => s.vertexId = v.id ∧ g.Holds elementSetType s.vertexId) Error.Blames := by
  unfold ElementSet.ofVertex
  refine (meets_expectType Error.blames_invalidModel _).bind fun htype => ?_
  exact (meets_requiredText Error.blames_invalidModel _).bind fun _ => ⟨rfl, v, hv, htype⟩

theorem meets_choiceOfVertex {v : Vertex} (hv : g.vertices.get? v.id = some v) :
    (ChoiceSet.ofVertex v).Meets
      (fun c => c.vertexId = v.id ∧ g.Holds choiceSetType c.vertexId) Error.Blames := by
  unfold ChoiceSet.ofVertex
  exact (meets_expectType Error.blames_invalidModel _).bind fun htype => ⟨rfl, v, hv, htype⟩

theorem meets_connectionOfVertex {v : Vertex} (hv : g.vertices.get? v.id = some v) :
    (Connection.ofVertex v).Meets (fun c => c.origin = v.id ∧ c.Stands g) Error.Blames := by
  unfold Connection.ofVertex
  split
  · exact .map (meets_elementOfVertex hv)
  · split
    · exact .map (meets_setOfVertex hv)
    · split
      · exact .map (meets_choiceOfVertex hv)
      · exact Error.blames_invalidModel _

/-- The connections of an element are the vertices that its edges lead to. -/
theorem Graph.WellFormed.connections (wf : g.WellFormed) {e : Element} (he : e.Stands g) :
    (e.connections g).Meets
      (fun cs => (∀ c ∈ cs, c.Stands g) ∧
        ∀ y, g.Leads connectsTo e.vertexId y ↔ ∃ c ∈ cs, c.origin = y) Error.Blames := by
  obtain ⟨v, hv, -⟩ := he.type
  exact wf.readTargets hv meets_connectionOfVertex

theorem Graph.WellFormed.members (wf : g.WellFormed) {c : ChoiceSet}
    (hc : g.Holds choiceSetType c.vertexId) :
    (c.members g).Meets
      (fun es => (∀ e ∈ es, e.Stands g) ∧
        ∀ y, g.Leads has c.vertexId y ↔ ∃ e ∈ es, e.vertexId = y) Error.Blames := by
  obtain ⟨v, hv, -⟩ := hc
  exact wf.readTargets hv meets_elementOfVertex

theorem Graph.WellFormed.choices (wf : g.WellFormed) {s : ElementSet}
    (hs : g.Holds elementSetType s.vertexId) :
    (s.choices g).Meets
      (fun cs => (∀ c ∈ cs, g.Holds choiceSetType c.vertexId) ∧
        ∀ y, g.Leads uses s.vertexId y ↔ ∃ c ∈ cs, c.vertexId = y) Error.Blames := by
  obtain ⟨v, hv, -⟩ := hs
  exact wf.readTargets hv meets_choiceOfVertex

/-- What a connection offers depends on the type of its vertex. -/
theorem offers_iff {c : Connection} (hc : c.Stands g) {y : VertexId} :
    g.Offers c.origin y ↔
      match c with
      | .element e => y = e.vertexId
      | .choice k => g.Leads has k.vertexId y
      | .set s => ∃ k, g.Leads uses s.vertexId k ∧ g.Leads has k y := by
  have htypes : elementType ≠ choiceSetType ∧ elementType ≠ elementSetType ∧
      choiceSetType ≠ elementSetType := by decide
  obtain ⟨hec, hes, hcs⟩ := htypes
  constructor
  · intro h
    cases c with
    | element e =>
        cases h with
        | element => rfl
        | choice hk => exact absurd (hc.type.type_unique hk) hec
        | set hk => exact absurd (hc.type.type_unique hk) hes
    | choice k =>
        cases h with
        | element hk => exact absurd (hk.type_unique hc) hec
        | choice _ hy => exact hy
        | set hk => exact absurd (Graph.Holds.type_unique hc hk) hcs
    | set s =>
        cases h with
        | element hk => exact absurd (hk.type_unique hc) hes
        | choice hk => exact absurd (hk.type_unique hc) hcs
        | set _ hs hy => exact ⟨_, hs, hy⟩
  · intro h
    cases c with
    | element e =>
        cases h
        exact .element hc.type
    | choice k => exact .choice hc h
    | set s =>
        obtain ⟨k, hs, hy⟩ := h
        exact .set hc hs hy

/-- Where no set is replaced, a connection stands for what its vertex offers. -/
theorem Graph.WellFormed.resolve (wf : g.WellFormed) {c : Connection} (hc : c.Stands g) :
    (c.resolve g {}).Meets
      (fun es => (∀ e ∈ es, e.Stands g) ∧
        ∀ y, g.Offers c.origin y ↔ ∃ e ∈ es, e.vertexId = y) Error.Blames := by
  simp only [offers_iff hc]
  cases c with
  | element e =>
      refine Outcome.Meets.ok ⟨fun e' he' => ?_, fun y => ?_⟩
      · rw [List.mem_singleton.mp he']
        exact hc
      · simp [eq_comm]
  | choice k => exact wf.members hc
  | set s =>
      unfold Connection.resolve
      refine Outcome.Meets.bind (wf.choices hc) fun {ks} hks => ?_
      refine Outcome.Meets.bind (.mapM fun k hk => wf.members (hks.1 k hk)) fun {ess} hess => ?_
      refine ⟨fun e he => ?_, fun y => ?_⟩
      · obtain ⟨es, hes, he⟩ := List.mem_flatten.mp he
        obtain ⟨k, hk, hstands, -⟩ := hess.1 es hes
        exact hstands e he
      · constructor
        · rintro ⟨_, hs, hy⟩
          obtain ⟨k, hk, rfl⟩ := (hks.2 _).mp hs
          obtain ⟨es, hes, -, hleads⟩ := hess.2 k hk
          obtain ⟨e, he, rfl⟩ := (hleads y).mp hy
          exact ⟨e, List.mem_flatten.mpr ⟨es, hes, he⟩, rfl⟩
        · rintro ⟨e, he, rfl⟩
          obtain ⟨es, hes, he⟩ := List.mem_flatten.mp he
          obtain ⟨k, hk, -, hleads⟩ := hess.1 es hes
          exact ⟨k.vertexId, (hks.2 _).mpr ⟨k, hk, rfl⟩, (hleads _).mpr ⟨e, he, rfl⟩⟩

/-- An element that uses no constraint has none. -/
theorem Graph.WellFormed.constraints (wf : g.WellFormed) {e : Element} (he : e.Stands g)
    (hfree : ¬ g.Constrained e.vertexId) : e.constraints g = .ok [] := by
  obtain ⟨v, hv, -⟩ := he.type
  obtain ⟨ws, hws, hstored, hleads⟩ := wf.targets hv uses
  have hnone : ws.filter (·.nodeType == setConstraintType) = [] := by
    refine List.filter_eq_nil_iff.mpr fun w hw htype => hfree ⟨w.id, ?_, w, hstored w hw, ?_⟩
    · exact (hleads _).mpr ⟨w, hw, rfl⟩
    · simpa using htype
  unfold Element.constraints
  rw [hws]
  show (ws.filter (·.nodeType == setConstraintType)).mapM _ = _
  rw [hnone]
  rfl

end

/-! ## Elements as they are stored -/

/-- The element is what its vertex is read as. -/
def Element.IsRead (g : Graph) (e : Element) : Prop :=
  ∃ v, g.vertices.get? e.vertexId = some v ∧ Element.ofVertex v = .ok e

section

variable {g : Graph}

/-- A vertex is read as one element. -/
theorem Element.IsRead.eq {e e' : Element} (h : e.IsRead g) (h' : e'.IsRead g)
    (hid : e.vertexId = e'.vertexId) : e = e' := by
  obtain ⟨v, hv, he⟩ := h
  obtain ⟨v', hv', he'⟩ := h'
  rw [hid] at hv
  cases hv.symm.trans hv'
  exact Except.ok.inj (he.symm.trans he')

theorem Element.isRead_ofVertex {v : Vertex} (hv : g.vertices.get? v.id = some v) {e : Element}
    (h : Element.ofVertex v = .ok e) : e.IsRead g := by
  have hid : e.vertexId = v.id := ((meets_elementOfVertex hv).of_ok h).1
  exact ⟨v, hid ▸ hv, h⟩

namespace Graph.WellFormed

theorem stored_of_targets (wf : g.WellFormed) {id : VertexId} {label : String} {ws : List Vertex}
    (h : Definition.targets g id label = .ok ws) {w : Vertex} (hw : w ∈ ws) :
    g.vertices.get? w.id = some w := by
  obtain ⟨es, -, hws⟩ := Outcome.bind_eq_ok.mp h
  obtain ⟨x, -, hx⟩ := (Outcome.mem_mapM hws w).mp hw
  unfold Graph.vertex at hx
  split at hx
  · next v hv =>
      cases hx
      rw [wf.vertex_id hv]
      exact hv
  · cases hx

/-- What the targets of a vertex are read as, each is read as from a stored one. -/
theorem read_of_targets (wf : g.WellFormed) {id : VertexId} {label : String} {α : Type}
    {read : Vertex → Outcome α} {as : List α}
    (h : (Definition.targets g id label >>= fun ws => ws.mapM read) = .ok as) {a : α}
    (ha : a ∈ as) : ∃ w, g.vertices.get? w.id = some w ∧ read w = .ok a := by
  obtain ⟨ws, hws, has⟩ := Outcome.bind_eq_ok.mp h
  obtain ⟨w, hw, hread⟩ := (Outcome.mem_mapM has a).mp ha
  exact ⟨w, wf.stored_of_targets hws hw, hread⟩

theorem stored_of_singleTarget (wf : g.WellFormed) {invalid : DefinitionFault → Error}
    {id : VertexId} {label : String} {w : Vertex}
    (h : Definition.singleTarget invalid g id label = .ok w) : g.vertices.get? w.id = some w := by
  obtain ⟨ws, hws, h⟩ := Outcome.bind_eq_ok.mp h
  split at h
  · cases h
    exact wf.stored_of_targets hws List.mem_cons_self
  · cases h
  · cases h

theorem isRead_topOfModel (wf : g.WellFormed) {m : Model} {e : Element}
    (h : m.topElement g = .ok e) : e.IsRead g := by
  obtain ⟨w, hw, he⟩ := Outcome.bind_eq_ok.mp h
  exact Element.isRead_ofVertex (wf.stored_of_singleTarget hw) he

theorem isRead_members (wf : g.WellFormed) {c : ChoiceSet} {es : List Element}
    (h : c.members g = .ok es) {e : Element} (he : e ∈ es) : e.IsRead g := by
  obtain ⟨w, hw, hread⟩ := wf.read_of_targets h he
  exact Element.isRead_ofVertex hw hread

/-- What a connection stands for are elements as they are stored. -/
theorem isRead_resolve (wf : g.WellFormed) {e : Element} {cs : List Connection} {c : Connection}
    {scope : Scope} {es : List Element} (hcs : e.connections g = .ok cs) (hc : c ∈ cs)
    (h : c.resolve g scope = .ok es) {child : Element} (hchild : child ∈ es) : child.IsRead g := by
  cases c with
  | element e' =>
      cases h
      obtain rfl := List.mem_singleton.mp hchild
      obtain ⟨w, hw, hread⟩ := wf.read_of_targets hcs hc
      unfold Connection.ofVertex at hread
      split at hread
      · cases he : Element.ofVertex w with
        | error f => rw [he] at hread; cases hread
        | ok e₁ =>
            rw [he] at hread
            cases hread
            exact Element.isRead_ofVertex hw he
      · split at hread
        · cases hs : ElementSet.ofVertex w <;> rw [hs] at hread <;> cases hread
        · split at hread
          · cases hk : ChoiceSet.ofVertex w <;> rw [hk] at hread <;> cases hread
          · cases hread
  | choice k => exact wf.isRead_members h hchild
  | set s =>
      obtain ⟨ks, -, h⟩ := Outcome.bind_eq_ok.mp h
      obtain ⟨ess, hess, h⟩ := Outcome.bind_eq_ok.mp h
      cases h
      obtain ⟨es, hes, hmem⟩ := List.mem_flatten.mp hchild
      obtain ⟨k, -, hmembers⟩ := (Outcome.mem_mapM hess es).mp hes
      exact wf.isRead_members hmembers hmem

end Graph.WellFormed

end

/-! ## Query elements -/

/-- The query element was read from its vertex. -/
def QueryElement.Stands (g : Graph) (e : QueryElement) : Prop :=
  g.Holds queryElementType e.vertexId

section

variable {g : Graph}

theorem meets_parseLimit (s : String) :
    (PropertyLimit.parse s).Meets (fun _ => True) Error.Blames := by
  unfold PropertyLimit.parse
  dsimp only
  split
  · trivial
  · exact Error.blames_invalidNamedQuery _

theorem meets_queryElementOfVertex {v : Vertex} (hv : g.vertices.get? v.id = some v) :
    (QueryElement.ofVertex v).Meets (fun e => e.vertexId = v.id ∧ e.Stands g) Error.Blames := by
  unfold QueryElement.ofVertex
  refine (meets_expectType Error.blames_invalidNamedQuery _).bind fun htype => ?_
  have hlimit : Outcome.Meets ((v.text? "property-limit-desc").mapM PropertyLimit.parse)
      (fun _ => True) Error.Blames := by
    cases v.text? "property-limit-desc" with
    | none => trivial
    | some s => exact Outcome.Meets.map ((meets_parseLimit s).imp (fun _ => trivial) fun h => h)
  exact hlimit.bind fun _ => ⟨rfl, v, hv, htype⟩

theorem meets_comparison (s : String) :
    (Comparison.parse s).Meets (fun _ => True) Error.Blames := by
  unfold Comparison.parse
  dsimp only
  split
  · trivial
  · split
    · trivial
    · exact Error.blames_invalidNamedQuery _

theorem meets_constraintOfVertex (v : Vertex) :
    (PropertyConstraint.ofVertex v).Meets (fun _ => True) Error.Blames := by
  have htext := meets_requiredText (v := v) Error.blames_invalidNamedQuery
  unfold PropertyConstraint.ofVertex
  exact (meets_expectType Error.blames_invalidNamedQuery _).bind fun _ => (htext _).bind fun _ =>
    (meets_comparison _).bind fun _ => (htext _).bind fun _ => (htext _).bind fun _ => trivial

theorem meets_lookupOfVertex (v : Vertex) :
    (RelatedLookup.ofVertex v).Meets (fun _ => True) Error.Blames := by
  have htext := meets_requiredText (v := v) Error.blames_invalidNamedQuery
  unfold RelatedLookup.ofVertex
  exact (meets_expectType Error.blames_invalidNamedQuery _).bind fun _ => (htext _).bind fun _ =>
    (htext _).bind fun _ => (htext _).bind fun _ => (htext _).bind fun _ => trivial

theorem meets_queryOfVertex (v : Vertex) :
    (NamedQuery.ofVertex v).Meets (fun q => q.vertexId = v.id) Error.Blames := by
  unfold NamedQuery.ofVertex
  exact (meets_expectType Error.blames_invalidNamedQuery _).bind fun _ =>
    (meets_requiredText Error.blames_invalidNamedQuery _).bind fun _ => rfl

namespace Graph.WellFormed

/-- What a query element uses is read, or its definition is wrong. -/
theorem readUsed (wf : g.WellFormed) {e : QueryElement} (he : e.Stands g) {α : Type}
    {t : NodeType} {read : Vertex → Outcome α}
    (hread : ∀ w, (read w).Meets (fun _ => True) Error.Blames) :
    Outcome.Meets
      (Definition.targets g e.vertexId uses >>= fun ws => (ws.filter (·.nodeType == t)).mapM read)
      (fun _ => True) Error.Blames := by
  obtain ⟨v, hv, -⟩ := he
  obtain ⟨ws, hws, -, -⟩ := wf.targets hv uses
  rw [hws]
  exact Outcome.Meets.imp (.mapM fun w _ => hread w) (fun _ => trivial) fun h => h

theorem queryConstraints (wf : g.WellFormed) {e : QueryElement} (he : e.Stands g) :
    (e.constraints g).Meets (fun _ => True) Error.Blames :=
  wf.readUsed he meets_constraintOfVertex

theorem queryLookups (wf : g.WellFormed) {e : QueryElement} (he : e.Stands g) :
    (e.lookups g).Meets (fun _ => True) Error.Blames :=
  wf.readUsed he meets_lookupOfVertex

theorem queryModel (wf : g.WellFormed) {e : QueryElement} (he : e.Stands g) :
    (e.model g).Meets (fun m => m.Stands g) Error.Blames := by
  obtain ⟨v, hv, -⟩ := he
  unfold QueryElement.model
  refine (wf.singleTarget hv Error.blames_invalidNamedQuery).bind fun {w} hw => ?_
  refine meets_modelOfVertex.eq.imp ?_ fun h => h
  rintro m ⟨hm, hid⟩
  exact ⟨w, hid ▸ hw.1, hm⟩

/-- The children of a query element are the elements that its edges lead to. -/
theorem queryChildren (wf : g.WellFormed) {e : QueryElement} (he : e.Stands g) :
    (e.children g).Meets
      (fun es => (∀ e ∈ es, e.Stands g) ∧
        ∀ y, g.Leads connectsTo e.vertexId y ↔ ∃ e ∈ es, e.vertexId = y) Error.Blames := by
  obtain ⟨v, hv, -⟩ := he
  exact wf.readTargets hv meets_queryElementOfVertex

/-- The top element of a query is the one that its edge leads to. -/
theorem queryTop (wf : g.WellFormed) {v : Vertex} {q : NamedQuery}
    (hv : g.vertices.get? q.vertexId = some v) :
    (q.topElement g).Meets
      (fun e => e.Stands g ∧ ∀ y, g.Leads startsWith q.vertexId y ↔ y = e.vertexId)
      Error.Blames := by
  unfold NamedQuery.topElement
  refine (wf.singleTarget hv Error.blames_invalidNamedQuery).bind fun {w} hw => ?_
  refine (meets_queryElementOfVertex hw.1).imp ?_ fun h => h
  rintro e ⟨hid, he⟩
  exact ⟨he, hid ▸ hw.2⟩

end Graph.WellFormed

end

end Inventory
