import Inventory.Proofs.Definition.Single
import Inventory.Proofs.Topology.Cycle

/-!
# Topology — where models stand

A model comes down to a widget over the first elements of composite models, each
found over a single edge. How many models are passed decides whether the levels
suffice; the persona is that of the outermost model, whatever models are passed.
An edge that is stored once but listed twice is read as two; nothing else keeps a
model that comes down to a widget from its place.
-/

namespace Inventory

open Definition

/-! ## Coming down to a widget -/

namespace Graph

/-- Over the single edges to first elements and to their models, all well formed,
a model comes down to a widget after so many composite models. -/
inductive ComesDown (g : Graph) (single : String → VertexId → VertexId → Prop) :
    VertexId → Nat → NodeType → Prop where
  | widget {x : VertexId} {v : Vertex} {t : NodeType} : g.vertices.get? x = some v →
      v.DescribesModel .widget → v.text? "model-name" = some t → ComesDown g single x 0 t
  | composite {x e y : VertexId} {v w : Vertex} {k : ModelKind} {n : Nat} {t : NodeType} :
      g.vertices.get? x = some v → v.DescribesModel k → k.isComposite = true →
      single startsWith x e → g.vertices.get? e = some w → w.DescribesElement →
      single isA e y → ComesDown g single y n t → ComesDown g single x (n + 1) t

variable {g : Graph} {single single' : String → VertexId → VertexId → Prop} {x : VertexId}
  {n n' : Nat} {t t' : NodeType}

theorem ComesDown.mono (h : g.ComesDown single x n t)
    (hle : ∀ {label a b}, single label a b → single' label a b) : g.ComesDown single' x n t := by
  induction h with
  | widget hv hdescribes hname => exact .widget hv hdescribes hname
  | composite hv hdescribes hcomposite htop hw helement hinner _ ih =>
      exact .composite hv hdescribes hcomposite (hle htop) hw helement (hle hinner) ih

end Graph

/-- A vertex describes models of one kind only. -/
theorem Vertex.DescribesModel.kind_unique {v : Vertex} {k k' : ModelKind} (h : v.DescribesModel k)
    (h' : v.DescribesModel k') : k = k' := by
  obtain ⟨s, hs, hk⟩ := h.kind
  obtain ⟨s', hs', hk'⟩ := h'.kind
  cases hs.symm.trans hs'
  exact Except.ok.inj ((ModelKind.parse_eq_ok_iff.mpr hk).symm.trans
    (ModelKind.parse_eq_ok_iff.mpr hk'))

/-- There is one way to come down. -/
theorem Graph.ComesDown.unique {g : Graph} {x : VertexId} {n n' : Nat} {t t' : NodeType}
    (h : g.ComesDown g.LeadsAlone x n t) (h' : g.ComesDown g.LeadsAlone x n' t') :
    n = n' ∧ t = t' := by
  induction h generalizing n' with
  | widget hv hdescribes hname =>
      cases h' with
      | widget hv' _ hname' =>
          cases hv.symm.trans hv'
          exact ⟨rfl, Option.some.inj (hname.symm.trans hname')⟩
      | composite hv' hdescribes' hcomposite' =>
          cases hv.symm.trans hv'
          cases hdescribes.kind_unique hdescribes'
          cases hcomposite'
  | composite hv hdescribes hcomposite htop _ _ hinner _ ih =>
      cases h' with
      | widget hv' hdescribes' _ =>
          cases hv.symm.trans hv'
          cases hdescribes.kind_unique hdescribes'
          cases hcomposite
      | composite hv' _ _ htop' _ _ hinner' hdown' =>
          cases htop.unique htop'
          cases hinner.unique hinner'
          obtain ⟨rfl, rfl⟩ := ih hdown'
          exact ⟨rfl, rfl⟩

/-! ## Steps of models -/

/-- The step of a model that comes down to a widget of a type: a composite model
gives it its persona when instances of the type carry one. -/
def Model.standing (ctx : Context) (m : Model) (t : NodeType) : TrailStep :=
  ⟨t, if m.kind.isComposite && ctx.catalog.supportsPersona t then some m.persona else none⟩

section

variable {g : Graph} {ctx : Context} {m : Model} {t : NodeType}

theorem Model.Stands.describes (hm : m.Stands g) :
    ∃ v, g.vertices.get? m.vertexId = some v ∧ v.DescribesModel m.kind ∧
      v.text? "model-name" = m.modelName := by
  obtain ⟨v, hv, hread⟩ := hm
  obtain ⟨hdescribes, -, -, -, hname⟩ := Model.ofVertex_eq_ok_iff.mp hread
  exact ⟨v, hv, hdescribes, hname⟩

theorem Model.widgetType?_eq_some {t : NodeType} :
    m.widgetType? = some t ↔ m.kind = .widget ∧ m.modelName = some t := by
  unfold widgetType?
  split <;> simp [*]

/-- A stored model stands for no type exactly when it is composite. -/
theorem Model.Stands.widgetType?_eq_none (hm : m.Stands g) :
    m.widgetType? = none ↔ m.kind.isComposite = true := by
  obtain ⟨v, -, hdescribes, hname⟩ := hm.describes
  unfold Model.widgetType?
  split
  · next hwidget =>
      obtain ⟨name, hname'⟩ := hdescribes.named hwidget
      rw [← hname, hname', hwidget]
      simp [ModelKind.isComposite]
  · next hother =>
      simpa [ModelKind.isComposite] using hother

/-- A widget comes down to its own type, passing no model. -/
theorem Model.Stands.comesDown_widget (hm : m.Stands g) (ht : m.widgetType? = some t) {n : Nat}
    {t' : NodeType} : g.ComesDown g.LeadsOnce m.vertexId n t' ↔ n = 0 ∧ t' = t := by
  obtain ⟨v, hv, hdescribes, hname⟩ := hm.describes
  obtain ⟨hwidget, hmodel⟩ := Model.widgetType?_eq_some.mp ht
  rw [hmodel] at hname
  rw [hwidget] at hdescribes
  have hdown : g.ComesDown g.LeadsOnce m.vertexId 0 t := .widget hv hdescribes hname
  constructor
  · intro h
    exact (h.mono Graph.LeadsOnce.alone).unique (hdown.mono Graph.LeadsOnce.alone)
  · rintro ⟨rfl, rfl⟩
    exact hdown

/-- The first element of a stored model is read from the vertex at the end of its
single edge. -/
theorem Graph.WellFormed.topElement_eq_ok_iff (wf : g.WellFormed) (hm : m.Stands g)
    {top : Element} : m.topElement g = .ok top ↔
      g.LeadsOnce startsWith m.vertexId top.vertexId ∧ top.IsRead g := by
  obtain ⟨v, hv, -⟩ := hm
  exact wf.readSingle_eq_ok_iff hv fun hw hread => ((meets_elementOfVertex hw).of_ok hread).1

/-- The model of a stored element is read from the vertex at the end of its single
edge. -/
theorem Graph.WellFormed.model_eq_ok_iff (wf : g.WellFormed) {e : Element} (he : e.IsRead g) :
    e.model g = .ok m ↔ g.LeadsOnce isA e.vertexId m.vertexId ∧ m.Stands g := by
  obtain ⟨v, hv, -⟩ := he
  exact wf.readSingle_eq_ok_iff hv fun _ hread => meets_modelOfVertex.of_ok hread

theorem Element.IsRead.describes {e : Element} (he : e.IsRead g) :
    ∃ w, g.vertices.get? e.vertexId = some w ∧ w.DescribesElement := by
  obtain ⟨w, hw, hread⟩ := he
  exact ⟨w, hw, Element.exists_ofVertex_iff.mp ⟨e, hread⟩⟩

/-- What describes an element is read as one. -/
theorem Graph.WellFormed.exists_isRead (wf : g.WellFormed) {x : VertexId} {w : Vertex}
    (hw : g.vertices.get? x = some w) (h : w.DescribesElement) :
    ∃ e : Element, e.vertexId = x ∧ e.IsRead g := by
  obtain ⟨e, he⟩ := Element.exists_ofVertex_iff.mpr h
  obtain rfl := wf.vertex_id hw
  exact ⟨e, ((meets_elementOfVertex hw).of_ok he).1, Element.isRead_ofVertex hw he⟩

/-- What comes down is read as a model. -/
theorem Graph.WellFormed.exists_stands (wf : g.WellFormed) {x : VertexId} {n : Nat}
    {single : String → VertexId → VertexId → Prop} (h : g.ComesDown single x n t) :
    ∃ m : Model, m.vertexId = x ∧ m.Stands g := by
  obtain ⟨v, k, hv, hdescribes⟩ : ∃ v k, g.vertices.get? x = some v ∧ v.DescribesModel k := by
    cases h with
    | widget hv hdescribes => exact ⟨_, _, hv, hdescribes⟩
    | composite hv hdescribes => exact ⟨_, _, hv, hdescribes⟩
  obtain ⟨m, hread, -⟩ := hdescribes.exists_ofVertex
  have hid : m.vertexId = x := (meets_modelOfVertex.of_ok hread).trans (wf.vertex_id hv)
  exact ⟨m, hid, v, hid ▸ hv, hread⟩

/-- A composite model comes down as the model of its first element does. -/
theorem Graph.WellFormed.comesDown_composite (wf : g.WellFormed) (hm : m.Stands g)
    (hcomposite : m.kind.isComposite = true) {n : Nat} :
    g.ComesDown g.LeadsOnce m.vertexId n t ↔ ∃ top inner n', m.topElement g = .ok top ∧
      top.model g = .ok inner ∧ g.ComesDown g.LeadsOnce inner.vertexId n' t ∧ n = n' + 1 := by
  obtain ⟨v, hv, hdescribes, -⟩ := hm.describes
  constructor
  · intro h
    cases h with
    | widget hv' hdescribes' =>
        cases hv.symm.trans hv'
        rw [hdescribes.kind_unique hdescribes'] at hcomposite
        cases hcomposite
    | composite _ _ _ hstarts hw helement hisA hdown =>
        obtain ⟨top, rfl, htop⟩ := wf.exists_isRead hw helement
        obtain ⟨inner, rfl, hinner⟩ := wf.exists_stands hdown
        exact ⟨top, inner, _, (wf.topElement_eq_ok_iff hm).mpr ⟨hstarts, htop⟩,
          (wf.model_eq_ok_iff htop).mpr ⟨hisA, hinner⟩, hdown, rfl⟩
  · rintro ⟨top, inner, n', htop, hinner, hdown, rfl⟩
    obtain ⟨hstarts, htop⟩ := (wf.topElement_eq_ok_iff hm).mp htop
    obtain ⟨hisA, -⟩ := (wf.model_eq_ok_iff htop).mp hinner
    obtain ⟨w, hw, helement⟩ := htop.describes
    exact .composite hv hdescribes hcomposite hstarts hw helement hisA hdown

/-- A composite model stands where the model of its first element does, but for
the persona. -/
theorem Model.step_succ_of_composite {levels : Nat} {s : TrailStep} (h : m.widgetType? = none) :
    m.step g ctx (levels + 1) = .ok s ↔ ∃ top inner s', m.topElement g = .ok top ∧
      top.model g = .ok inner ∧ inner.step g ctx levels = .ok s' ∧
      s = if ctx.catalog.supportsPersona s'.nodeType then ⟨s'.nodeType, some m.persona⟩
        else s' := by
  rw [Model.step]
  simp only [h, Outcome.bind_eq_ok, Except.ok.injEq]
  constructor
  · rintro ⟨top, htop, inner, hinner, s', hs', hs⟩
    exact ⟨top, inner, s', htop, hinner, hs', hs.symm⟩
  · rintro ⟨top, inner, s', htop, hinner, hs', hs⟩
    exact ⟨top, htop, inner, hinner, s', hs', hs.symm⟩

/-- A persona from further inside is overridden. -/
theorem Model.standing_of_composite {inner : Model} (h : m.kind.isComposite = true) :
    m.standing ctx t = if ctx.catalog.supportsPersona (inner.standing ctx t).nodeType
      then ⟨(inner.standing ctx t).nodeType, some m.persona⟩ else inner.standing ctx t := by
  unfold standing
  cases ctx.catalog.supportsPersona t <;> simp [h]

/-- **Steps of models.** With so many levels left, a stored model has a step
exactly when it comes down to a widget within them, over edges listed once. -/
theorem Graph.WellFormed.step_eq_ok_iff (wf : g.WellFormed) (hm : m.Stands g) {levels : Nat}
    {s : TrailStep} : m.step g ctx levels = .ok s ↔
      ∃ n t, g.ComesDown g.LeadsOnce m.vertexId n t ∧ n < levels ∧ s = m.standing ctx t := by
  induction levels generalizing m s with
  | zero => simp [Model.step]
  | succ levels ih =>
      cases ht : m.widgetType? with
      | some t =>
          have hplace : m.standing ctx t = ⟨t, none⟩ := by
            simp [Model.standing, (Model.widgetType?_eq_some.mp ht).1, ModelKind.isComposite]
          simp only [Model.step, ht, hm.comesDown_widget ht]
          constructor
          · intro h
            cases h
            exact ⟨0, t, ⟨rfl, rfl⟩, Nat.succ_pos levels, hplace.symm⟩
          · rintro ⟨_, _, ⟨rfl, rfl⟩, -, rfl⟩
            rw [hplace]
      | none =>
          have hcomposite := hm.widgetType?_eq_none.mp ht
          simp only [Model.step_succ_of_composite ht, wf.comesDown_composite hm hcomposite]
          constructor
          · rintro ⟨top, inner, s', htop, hinner, hs', rfl⟩
            obtain ⟨-, hread⟩ := (wf.topElement_eq_ok_iff hm).mp htop
            obtain ⟨-, hstands⟩ := (wf.model_eq_ok_iff hread).mp hinner
            obtain ⟨n, t, hdown, hn, rfl⟩ := (ih hstands).mp hs'
            exact ⟨n + 1, t, ⟨top, inner, n, htop, hinner, hdown, rfl⟩, by omega,
              (Model.standing_of_composite hcomposite).symm⟩
          · rintro ⟨_, t, ⟨top, inner, n, htop, hinner, hdown, rfl⟩, hn, rfl⟩
            obtain ⟨-, hread⟩ := (wf.topElement_eq_ok_iff hm).mp htop
            obtain ⟨-, hstands⟩ := (wf.model_eq_ok_iff hread).mp hinner
            exact ⟨top, inner, _, htop, hinner,
              (ih hstands).mpr ⟨n, t, hdown, by omega, rfl⟩,
              Model.standing_of_composite hcomposite⟩

/-! ## Steps at a depth -/

/-- How the step of a model is found at a depth, over edges that are single in
some sense. -/
structure Model.StepFound (g : Graph) (ctx : Context)
    (single : String → VertexId → VertexId → Prop) (depth : Nat) (m : Model) : Prop where
  found : ∀ s, m.stepAt g ctx depth = .ok s ↔ ∃ n t, g.ComesDown single m.vertexId n t ∧
    depth + n ≤ ctx.limits.levels ∧ s = m.standing ctx t
  refused : (¬ ∃ n t, g.ComesDown single m.vertexId n t ∧ depth + n ≤ ctx.limits.levels) →
    ∃ e, m.stepAt g ctx depth = .error e ∧ e.kind = .configuration

theorem Graph.WellFormed.stepFound (wf : g.WellFormed) (ctx : Context) (hm : m.Stands g)
    (depth : Nat) : m.StepFound g ctx g.LeadsOnce depth := by
  have hlevels : ∀ n, n < ctx.levelsFrom depth ↔ depth + n ≤ ctx.limits.levels := by
    intro n
    unfold Context.levelsFrom
    omega
  have hfound : ∀ s, m.stepAt g ctx depth = .ok s ↔
      ∃ n t, g.ComesDown g.LeadsOnce m.vertexId n t ∧ depth + n ≤ ctx.limits.levels ∧
        s = m.standing ctx t := by
    intro s
    rw [Model.stepAt, wf.step_eq_ok_iff hm]
    simp only [hlevels]
  refine ⟨hfound, fun hnone => ?_⟩
  cases h : m.stepAt g ctx depth with
  | ok s =>
      obtain ⟨n, t, hdown, hn, -⟩ := (hfound s).mp h
      exact absurd ⟨n, t, hdown, hn⟩ hnone
  | error e => exact ⟨e, rfl, ((wf.step hm _).of_error h).kind⟩

/-- Steps are found over the edges that are stored once exactly when those on the
way are listed once. -/
theorem Model.StepFound.alone_iff {depth : Nat} (h : m.StepFound g ctx g.LeadsOnce depth) :
    m.StepFound g ctx g.LeadsAlone depth ↔
      ∀ n t, g.ComesDown g.LeadsAlone m.vertexId n t → depth + n ≤ ctx.limits.levels →
        g.ComesDown g.LeadsOnce m.vertexId n t := by
  constructor
  · intro halone n t hdown hn
    have hs := (halone.found _).mpr ⟨n, t, hdown, hn, rfl⟩
    obtain ⟨n', t', hdown', -, -⟩ := (h.found _).mp hs
    obtain ⟨rfl, rfl⟩ := hdown.unique (hdown'.mono Graph.LeadsOnce.alone)
    exact hdown'
  · intro hlisted
    have hsame : ∀ n t, depth + n ≤ ctx.limits.levels →
        (g.ComesDown g.LeadsAlone m.vertexId n t ↔ g.ComesDown g.LeadsOnce m.vertexId n t) :=
      fun n t hn => ⟨fun hdown => hlisted n t hdown hn, fun hdown => hdown.mono Graph.LeadsOnce.alone⟩
    refine ⟨fun s => (h.found s).trans ?_, fun hnone => h.refused ?_⟩
    · refine exists_congr fun n => exists_congr fun t => ?_
      rw [← and_assoc, ← and_assoc]
      refine and_congr_left fun _ => and_congr_left_iff.mpr fun hn => ?_
      exact (hsame n t hn).symm
    · rintro ⟨n, t, hdown, hn⟩
      exact hnone ⟨n, t, (hsame n t hn).mpr hdown, hn⟩

end

/-- **Where models stand.** At any depth, a stored model of a reachable graph has
a step exactly when it comes down to a widget within the levels: the step is at
the type of that widget, with the persona of the model itself when that is
composite and the type carries one. Otherwise the definition is blamed. The edges
on the way are to be stored and listed once: that they are stored once is enough
exactly when those of the way are also listed once, as they are where no vertex
lists an edge twice. -/
theorem stepAt_found {g : Graph} (hg : g.Reachable) (ctx : Context) {m : Model}
    (hm : m.Stands g) (depth : Nat) :
    m.StepFound g ctx g.LeadsOnce depth ∧
      (m.StepFound g ctx g.LeadsAlone depth ↔
        ∀ n t, g.ComesDown g.LeadsAlone m.vertexId n t → depth + n ≤ ctx.limits.levels →
          g.ComesDown g.LeadsOnce m.vertexId n t) ∧
      ((∀ id, g.FiledOnce id) → m.StepFound g ctx g.LeadsAlone depth) := by
  have honce : m.StepFound g ctx g.LeadsOnce depth := hg.wellFormed.stepFound ctx hm depth
  refine ⟨honce, honce.alone_iff, fun hfiled => honce.alone_iff.mpr fun n t hdown _ => ?_⟩
  exact hdown.mono fun {_ a _} hlead => (hfiled a).leadsOnce hlead

/-! ### A service of a part, and one of itself -/

namespace Nested

open Pinning

def vertices : List Vertex :=
  [modelVertex "svc" "Service" "svc", modelVertex "sub" "resource" "sub",
    modelVertex "node" "widget" "a", modelVertex "loop" "service" "loop",
    elementVertex "top" true, elementVertex "inner" true, elementVertex "again" true]

/-- The service starts with a part that starts with a widget. The other one starts
with itself. -/
def edges : List Edge :=
  [⟨"1", "svc", "top", startsWith, ∅⟩, ⟨"2", "top", "sub", isA, ∅⟩,
    ⟨"3", "sub", "inner", startsWith, ∅⟩, ⟨"4", "inner", "node", isA, ∅⟩,
    ⟨"5", "loop", "again", startsWith, ∅⟩, ⟨"6", "again", "loop", isA, ∅⟩]

def graph : Graph := (Graph.ofParts vertices edges).toOption.getD .empty

/-- Instances of the widget's type carry a persona. -/
def context : Context where
  catalog := { nodeTypes := Table.ofList [("a", { persona := true })] }

/-- The model that starts with itself. -/
def looped : Model := ⟨"loop", "loop", "1", some "loop", .service⟩

/-- The model that starts with itself comes down to no widget. -/
theorem not_comesDown_looped (hg : graph.Reachable) (n : Nat) (t : NodeType) :
    ¬ graph.ComesDown graph.LeadsAlone "loop" n t := by
  have hloop : graph.vertices.get? "loop" = some (modelVertex "loop" "service" "loop") := by decide
  have hdescribes : Vertex.DescribesModel (modelVertex "loop" "service" "loop") .service :=
    (Model.ofVertex_eq_ok_iff (m := looped)).mp (by decide +kernel) |>.1
  have hstarts : graph.LeadsAlone startsWith "loop" "again" :=
    ⟨⟨"5", "loop", "again", startsWith, ∅⟩, hg.wellFormed.sole_iff.mpr (by decide +kernel), rfl⟩
  have hisA : graph.LeadsAlone isA "again" "loop" :=
    ⟨⟨"6", "again", "loop", isA, ∅⟩, hg.wellFormed.sole_iff.mpr (by decide +kernel), rfl⟩
  intro h
  generalize hx : "loop" = x at h
  induction h with
  | widget hv hwidget _ =>
      subst hx
      cases hloop.symm.trans hv
      cases hwidget.kind_unique hdescribes
  | composite _ _ _ htop _ _ hinner _ ih =>
      subst hx
      cases htop.unique hstarts
      exact ih (hinner.unique hisA).symm

/-- Two composite models are passed, so that depth 48 is the last at which 50
levels suffice. No depth suffices for the model that starts with itself. -/
theorem stepAt_found_nested :
    graph.Reachable ∧ service.Stands graph ∧ looped.Stands graph ∧
      service.stepAt graph context 48 = .ok ⟨"a", some ⟨"svc", "1"⟩⟩ ∧
      service.StepFound graph context graph.LeadsAlone 48 ∧
      graph.ComesDown graph.LeadsOnce "svc" 2 "a" ∧
      service.stepAt graph context 49 = .error (.modelTooDeep 50) ∧
      ∃ e, looped.stepAt graph context 0 = .error e ∧ e.kind = .configuration := by
  have hg : graph.Reachable :=
    Graph.reachable_ofParts (show Graph.ofParts vertices edges = .ok graph from rfl)
  have hservice : service.Stands graph :=
    ⟨modelVertex "svc" "Service" "svc", by decide, by decide +kernel⟩
  have hlooped : looped.Stands graph :=
    ⟨modelVertex "loop" "service" "loop", by decide, by decide +kernel⟩
  have hstep : service.stepAt graph context 48 = .ok ⟨"a", some ⟨"svc", "1"⟩⟩ := by
    decide +kernel
  have hdeep : service.stepAt graph context 49 = .error (.modelTooDeep 50) := by decide +kernel
  obtain ⟨honce, halone, -⟩ := stepAt_found hg context hservice 48
  obtain ⟨n, t, hdown, hn, hplace⟩ := (honce.found _).mp hstep
  have hlevels : context.limits.levels = 50 := rfl
  -- with fewer models on the way, the step would be found one level deeper
  have htwo : n = 2 := by
    by_contra hne
    have hless : 49 + n ≤ context.limits.levels := by omega
    have hfound := ((stepAt_found hg context hservice 49).1.found _).mpr ⟨n, t, hdown, hless, rfl⟩
    rw [hdeep] at hfound
    cases hfound
  have htype : "a" = t := congrArg TrailStep.nodeType hplace
  subst htwo htype
  refine ⟨hg, hservice, hlooped, hstep, halone.mpr fun n' t' hdown' _ => ?_, hdown, hdeep,
    (stepAt_found hg context hlooped 0).1.refused ?_⟩
  · obtain ⟨rfl, rfl⟩ := hdown'.unique (hdown.mono Graph.LeadsOnce.alone)
    exact hdown
  · rintro ⟨n', t', hdown', -⟩
    exact not_comesDown_looped hg n' t' (hdown'.mono Graph.LeadsOnce.alone)

end Nested

/-! ### A service whose first element is added twice -/

namespace Relisted

open Pinning

def toTop : Edge := ⟨"1", "svc", "top", startsWith, ∅⟩

def toNode : Edge := ⟨"2", "top", "node", isA, ∅⟩

def vertices : List Vertex :=
  [modelVertex "svc" "service" "svc", modelVertex "node" "widget" "a", elementVertex "top" true]

/-- The edge to the first element is added twice under its id. -/
def graph : Graph := (Graph.ofParts vertices [toTop, toTop, toNode]).toOption.getD .empty

/-- One edge to a first element is stored, and read as two. -/
theorem not_stepFound_relisted :
    graph.Reachable ∧ Model.find graph "svc" "1" = .ok service ∧ service.Stands graph ∧
      graph.edges.values = [toTop, toNode] ∧ graph.ComesDown graph.LeadsAlone "svc" 1 "a" ∧
      service.stepAt graph Nested.context 0 =
        .error (.invalidModel (.severalEdges "svc" 2 startsWith)) ∧
      ¬ service.StepFound graph Nested.context graph.LeadsAlone 0 := by
  have hg : graph.Reachable := Graph.reachable_ofParts
    (show Graph.ofParts vertices [toTop, toTop, toNode] = .ok graph from rfl)
  have hservice : service.Stands graph :=
    ⟨modelVertex "svc" "service" "svc", by decide, by decide +kernel⟩
  have hnode : Vertex.DescribesModel (modelVertex "node" "widget" "a") .widget :=
    (Model.ofVertex_eq_ok_iff (m := ⟨"node", "node", "1", some "a", .widget⟩)).mp
      (by decide +kernel) |>.1
  have hdescribes : Vertex.DescribesModel (modelVertex "svc" "service" "svc") .service :=
    (Model.ofVertex_eq_ok_iff (m := service)).mp (by decide +kernel) |>.1
  have hstarts : graph.LeadsAlone startsWith "svc" "top" :=
    ⟨toTop, hg.wellFormed.sole_iff.mpr (by decide +kernel), rfl⟩
  have hisA : graph.LeadsAlone isA "top" "node" :=
    ⟨toNode, hg.wellFormed.sole_iff.mpr (by decide +kernel), rfl⟩
  have hdown : graph.ComesDown graph.LeadsAlone "svc" 1 "a" :=
    .composite (w := elementVertex "top" true) (by decide) hdescribes rfl hstarts (by decide)
      ⟨rfl, by decide⟩ hisA (.widget (v := modelVertex "node" "widget" "a") (by decide) hnode rfl)
  have hstep : service.stepAt graph Nested.context 0 =
      .error (.invalidModel (.severalEdges "svc" 2 startsWith)) := by decide +kernel
  refine ⟨hg, by decide +kernel, hservice, by decide, hdown, hstep, fun h => ?_⟩
  have hs := (h.found _).mpr ⟨1, "a", hdown, by decide, rfl⟩
  rw [hstep] at hs
  cases hs

end Relisted

end Inventory
