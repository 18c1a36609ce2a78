import Inventory.Proofs.Storage.Deletion
import Inventory.Proofs.Walk.Depth

/-!
# Removal — instances of other models

Every node below the root of a walk stands at a step that its vertex fits, with
its node type and its persona. Of the root the walk asks the node type alone. So
a walk along the topology of a model starts just as well at an instance of
another model, or of none, if that is of the same type; and a delete removes it.
-/

namespace Inventory

open ResultTree Meeting

/-! ## Steps that vertices fit -/

theorem TrailStep.fits_iff {s : TrailStep} {v : Vertex} :
    s.fits v = true ↔ v.nodeType = s.nodeType ∧ (s.persona = none ∨ v.persona? = s.persona) := by
  simp [fits]

namespace Topology

/-- The node's trail leads so many steps below the root of the topology, and the
node's vertex fits the step that it ends in. -/
def Fits (T : Topology) (d : Nat) (n : ResultNode) : Prop :=
  ∃ trail, T.Position trail ∧ trail.key = n.trail ∧ trail.below.length = d ∧
    trail.last.fits n.vertex = true

/-- Every node of the tree, the root included, fits the step that its trail ends in. -/
def FitsAll (T : Topology) (t : ResultTree) : Prop := ∀ d s, t.At d s → T.Fits d s.top

/-- What a walk from a root asks: of the root its type, of what stands below that
it fits. -/
structure Walked (T : Topology) (root : Vertex) (t : ResultTree) : Prop where
  top : t.top.vertex = root ∧ t.top.trail = T.rootTrail.key
  type : root.nodeType = T.root.nodeType
  below : ∀ {d s}, t.At (d + 1) s → T.Fits (d + 1) s.top

variable {T : Topology} {root : Vertex} {t : ResultTree}

/-- The only position that is no step below the root is the root. -/
theorem fits_zero_iff {n : ResultNode} (htrail : n.trail = T.rootTrail.key) :
    T.Fits 0 n ↔ T.root.fits n.vertex = true := by
  constructor
  · intro ⟨trail, hposition, _, hlength, hfits⟩
    cases hposition with
    | root => exact hfits
    | step _ _ => exact absurd (List.length_eq_zero_iff.mp hlength) (Trail.extend_below_ne_nil _ _)
  · intro hfits
    exact ⟨T.rootTrail, .root, htrail.symm, rfl, hfits⟩

/-- All of a walked tree fits exactly when its root has the persona that the root
step asks for, if it asks for one. -/
theorem Walked.fitsAll_iff (h : T.Walked root t) :
    T.FitsAll t ↔ T.root.persona = none ∨ root.persona? = T.root.persona := by
  have hroot : T.Fits 0 t.top ↔ T.root.persona = none ∨ root.persona? = T.root.persona := by
    rw [fits_zero_iff h.top.2, TrailStep.fits_iff, h.top.1]
    exact and_iff_right h.type
  rw [← hroot]
  refine ⟨fun hall => hall 0 t (.here t), fun htop d s hs => ?_⟩
  cases d with
  | zero => cases hs; exact htop
  | succ d => exact h.below hs

end Topology

/-! ## Walks -/

section

variable {g : Graph} {ctx : Context} {T : Topology} {root : Vertex} {t : ResultTree}
  {f : ResultNode → ResultNode}

theorem walked_of_collectDecorated (hg : g.Reachable)
    (hf : ∀ n, (f n).vertex = n.vertex ∧ (f n).trail = n.trail)
    (hroot : g.vertices.get? root.id = some root)
    (h : collectDecorated g ctx T f root = .ok t) : T.Walked root t := by
  have hc := collectDecorated_collects hg hf hroot h
  refine ⟨hc.top, (collectDecorated_eq_ok h).1, fun {d s} hs => ?_⟩
  obtain ⟨trail, hpath, hkey, hlength⟩ := hc.path hs
  have hlegal : Legal g T (T.start root) ⟨s.top.vertex, trail⟩ :=
    Relation.ReflTransGen.mono (fun _ _ h => h.1.1) _ _ hpath
  refine ⟨trail, QueryTopology.position_of_legal hlegal, hkey, hlength, ?_⟩
  -- the last step of the path is one that the vertex it comes to fits
  rcases Relation.ReflTransGen.cases_tail hpath with hstart | ⟨p, -, ⟨⟨hon, -⟩, -⟩⟩
  · cases hstart
    cases hlength
  · obtain ⟨-, -, -, -, hfits⟩ := hon
    rw [Trail.last_extend]
    exact hfits

/-- A walk that has begun does not fail for the type of its root. -/
theorem collect_ne_rootTypeMismatch {σ : Type} {hook : Hook σ} (htotal : hook.Total)
    {levels : Nat} {v : Vertex} {trail : Trail} {c c' : Collector σ} {a b : NodeType} :
    collect g ctx T hook levels v trail c ≠ (.error (.rootTypeMismatch a b), c') := by
  intro h
  induction levels generalizing v trail c c' with
  | zero => cases h
  | succ levels ih =>
      obtain ⟨hlimit, -⟩ | ⟨x, hmissing⟩ | ⟨s, -, w, c₁, hfails⟩ := collect_eq_error htotal h
      · cases hlimit
      · cases hmissing
      · exact ih hfails

/-- A walk is refused for its root exactly when that is of another type. -/
theorem collectDecorated_eq_rootTypeMismatch {a b : NodeType} :
    collectDecorated g ctx T f root = .error (.rootTypeMismatch a b) ↔
      root.nodeType ≠ T.root.nodeType ∧ a = T.root.nodeType ∧ b = root.nodeType := by
  unfold collectDecorated collectFrom
  by_cases htype : root.nodeType = T.root.nodeType
  · rw [if_neg (not_not.mpr htype)]
    refine iff_of_false (fun h => ?_) fun h => h.1 htype
    split at h
    · cases h
    · cases h
    · next hfails =>
        cases h
        exact collect_ne_rootTypeMismatch (Hook.total_decorate f) (Prod.ext hfails rfl)
  · rw [if_pos htype]
    simp only [Except.error.injEq, Error.rootTypeMismatch.injEq, ne_eq, htype, not_false_eq_true,
      true_and, eq_comm]

end

/-! ## Root steps -/

/-- A step of a model has the persona of the model when that is composite and
instances of the step's type carry one, and none otherwise. -/
theorem Model.persona_step {g : Graph} {ctx : Context} {m : Model} {n : Nat} {s : TrailStep}
    (h : m.step g ctx n = .ok s) :
    s.persona = if m.widgetType? = none ∧ ctx.catalog.supportsPersona s.nodeType = true then
      some m.persona else none := by
  induction n generalizing m s with
  | zero => cases h
  | succ n ih =>
      obtain ⟨t, ht, rfl⟩ | ⟨hnone, top, inner, s', -, -, hs', rfl⟩ := step_succ_eq_ok h
      · simp [ht]
      · by_cases hsupports : ctx.catalog.supportsPersona s'.nodeType = true
        · rw [if_pos hsupports, if_pos ⟨hnone, hsupports⟩]
        · rw [if_neg hsupports, if_neg fun h => hsupports h.2, ih hs',
            if_neg fun h => hsupports h.2]

theorem Topology.persona_ofModel {g : Graph} {ctx : Context} {m : Model} {T : Topology}
    (h : ofModel g ctx m = .ok T) :
    T.root.persona =
      if m.widgetType? = none ∧ ctx.catalog.supportsPersona T.root.nodeType = true then
        some m.persona else none := by
  cases hwidget : m.widgetType? with
  | some t =>
      rw [ofModel, hwidget] at h
      cases h
      simp
  | none =>
      obtain ⟨root, top, d, hroot, -, hd, rfl⟩ := (ofModel_eq_ok hwidget).mp h
      rw [(descendFrom_delivers hd).1.1, Model.persona_step hroot, hwidget]

/-! ## Plans and deletes -/

section

variable {g g' : Graph} {ctx : Context} {m : Model} {T : Topology} {root : Vertex}
  {t : ResultTree}

/-- A plan is a walk along the topology of the model. -/
theorem planDelete_eq_ok (hT : Topology.ofModel g ctx m = .ok T)
    (h : planDelete g ctx root m = .ok t) :
    ∃ flags : DeleteFlags, collectDecorated g ctx T flags.mark root = .ok t := by
  obtain ⟨T', hT', h⟩ := Outcome.bind_eq_ok.mp h
  cases hT.symm.trans hT'
  obtain ⟨flags, -, h⟩ := Outcome.bind_eq_ok.mp h
  exact ⟨flags, h⟩

theorem walked_of_planDelete (hg : g.Reachable) (hT : Topology.ofModel g ctx m = .ok T)
    (hroot : g.vertices.get? root.id = some root) (h : planDelete g ctx root m = .ok t) :
    T.Walked root t := by
  obtain ⟨flags, h⟩ := planDelete_eq_ok hT h
  exact walked_of_collectDecorated (f := flags.mark) hg (fun _ => ⟨rfl, rfl⟩) hroot h

/-- A delete that succeeds carries a plan out. -/
theorem deleteInstance_eq_ok {version : Option String} {removed : Removed}
    (hroot : g.vertices.get? root.id = some root)
    (h : deleteInstance g ctx root.id m version = (.ok removed, g')) :
    ∃ t, planDelete g ctx root m = .ok t ∧
      executeDelete g ctx.catalog.rules t version = (.ok removed, g') := by
  unfold deleteInstance at h
  rw [Graph.vertex, hroot] at h
  split at h
  · cases h
  · next t hplan =>
      dsimp only [Graph.transaction] at h
      split at h
      · next hrun => cases h; exact ⟨t, hplan, hrun⟩
      · cases h

end

/-- **Whose instances are walked and deleted.** In the tree of a walk along the
topology of a model, in the plan of a delete and in what a delete carries out,
every node below the root fits the step that its trail ends in. The root does
exactly when the root step has no persona or the root has that persona, which is
the model's own; a walk is refused for its root just when that is of another
type, and then nothing is removed. -/
theorem walks_fitAll_iff {g : Graph} (hg : g.Reachable) {ctx : Context} {m : Model} {T : Topology}
    (hT : Topology.ofModel g ctx m = .ok T) {root : Vertex}
    (hroot : g.vertices.get? root.id = some root) :
    (T.root.persona =
      if m.widgetType? = none ∧ ctx.catalog.supportsPersona T.root.nodeType = true then
        some m.persona else none) ∧
    (∀ t, collectInstance g ctx T root = .ok t ∨ planDelete g ctx root m = .ok t →
      T.Walked root t ∧
        (T.FitsAll t ↔ T.root.persona = none ∨ root.persona? = T.root.persona)) ∧
    (∀ version removed g', deleteInstance g ctx root.id m version = (.ok removed, g') →
      ∃ t, planDelete g ctx root m = .ok t ∧
        executeDelete g ctx.catalog.rules t version = (.ok removed, g')) ∧
    (∀ a b, collectInstance g ctx T root = .error (.rootTypeMismatch a b) ↔
      root.nodeType ≠ T.root.nodeType ∧ a = T.root.nodeType ∧ b = root.nodeType) ∧
    (root.nodeType ≠ T.root.nodeType →
      ∀ version, ∃ e, deleteInstance g ctx root.id m version = (.error e, g)) := by
  refine ⟨Topology.persona_ofModel hT, fun t ht => ?_,
    fun version removed g' h => deleteInstance_eq_ok hroot h,
    fun a b => collectDecorated_eq_rootTypeMismatch, fun htype version => ?_⟩
  · have hwalked : T.Walked root t := by
      rcases ht with h | h
      · exact walked_of_collectDecorated hg (fun _ => ⟨rfl, rfl⟩) hroot h
      · exact walked_of_planDelete hg hT hroot h
    exact ⟨hwalked, hwalked.fitsAll_iff⟩
  · cases hrun : deleteInstance g ctx root.id m version with
    | mk outcome g' =>
        cases outcome with
        | error e => exact ⟨e, by rw [deleteInstance_error hrun]⟩
        | ok removed =>
            obtain ⟨t, hplan, -⟩ := deleteInstance_eq_ok hroot hrun
            exact absurd (walked_of_planDelete hg hT hroot hplan).type htype

/-! ### An instance of another model -/

namespace Foreign

open Definition Pinning

/-- An instance of the service. -/
def ownVertex : Vertex := (⟨"own", "a", ∅⟩ : Vertex).withPersona ⟨"svc", "1"⟩

/-- An instance of another model. -/
def foreignVertex : Vertex := (⟨"foreign", "a", ∅⟩ : Vertex).withPersona ⟨"other", "1"⟩

/-- Two vertices of the type that the service stands at: an instance of the
service, and one of another model. -/
def vertices : List Vertex :=
  [modelVertex "svc" "service" "svc", modelVertex "node" "widget" "a", elementVertex "top" true,
    ownVertex, foreignVertex]

def edges : List Edge :=
  [⟨"1", "svc", "top", startsWith, ∅⟩, ⟨"2", "top", "node", isA, ∅⟩]

def graph : Graph := (Graph.ofParts vertices edges).toOption.getD .empty

def context : Context where
  catalog := ⟨⟨[]⟩, Table.ofList [("a", { persona := true })]⟩

def topology : Topology := ⟨⟨"a", some ⟨"svc", "1"⟩⟩, ∅⟩

/-- What is walked from a vertex of the type, and what is planned to be deleted. -/
def tree (v : Vertex) (delete : Bool) : ResultTree :=
  .node ⟨v, "a,svc,1", delete, false, none, ∅, ∅⟩ []

theorem reachable_graph : graph.Reachable :=
  Graph.reachable_ofParts (show Graph.ofParts vertices edges = .ok graph from rfl)

theorem ofModel_service : Topology.ofModel graph context service = .ok topology := by
  decide +kernel

/-- All of what is deleted of the service's own instance fits. -/
theorem walks_fitAll_own :
    graph.Reachable ∧ Topology.ofModel graph context service = .ok topology ∧
      graph.vertices.get? "own" = some ownVertex ∧
      planDelete graph context ownVertex service = .ok (tree ownVertex true) ∧
      topology.FitsAll (tree ownVertex true) := by
  have hroot : graph.vertices.get? ownVertex.id = some ownVertex := by decide
  have hplan : planDelete graph context ownVertex service = .ok (tree ownVertex true) := by rfl
  obtain ⟨-, hwalks, -⟩ := walks_fitAll_iff reachable_graph ofModel_service hroot
  exact ⟨reachable_graph, ofModel_service, hroot, hplan,
    (hwalks _ (.inr hplan)).2.mpr (.inr (by decide))⟩

/-- The instance of the other model is walked and deleted as one of the service. -/
theorem not_fitsAll_foreign :
    graph.Reachable ∧ Topology.ofModel graph context service = .ok topology ∧
      graph.vertices.get? "foreign" = some foreignVertex ∧
      foreignVertex.persona? = some ⟨"other", "1"⟩ ∧
      collectInstance graph context topology foreignVertex = .ok (tree foreignVertex false) ∧
      planDelete graph context foreignVertex service = .ok (tree foreignVertex true) ∧
      ¬ topology.FitsAll (tree foreignVertex false) ∧
      ¬ topology.FitsAll (tree foreignVertex true) ∧
      (deleteInstance graph context "foreign" service none).1 =
        .ok (Table.ofList [("foreign", "a foreign")]) ∧
      (deleteInstance graph context "foreign" service none).2.vertices.get? "foreign" = none := by
  have hfits : ∀ delete, ¬ topology.FitsAll (tree foreignVertex delete) := by
    intro delete hall
    have htop : topology.root.fits foreignVertex = true :=
      (Topology.fits_zero_iff rfl).mp (hall 0 _ (.here _))
    revert htop
    decide
  exact ⟨reachable_graph, ofModel_service, by decide, by decide, by rfl, by rfl, hfits _, hfits _,
    by decide +kernel, by decide +kernel⟩

end Foreign

end Inventory
