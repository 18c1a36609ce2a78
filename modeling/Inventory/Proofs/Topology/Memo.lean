import Inventory.Proofs.Graph.Reachable
import Inventory.Proofs.Topology.Delivery

/-!
# Topology — visiting each element once per trail

A descent skips an element that it has visited at the same trail, whatever the
replacements in force were then. Compared with the descent that skips nothing
it never fails more often and never records more; what it may miss are records
that one placing of an element adds and another placing of it at the same trail
does not.
-/

namespace Inventory

/-! ## Descents that skip nothing -/

/-- The descent without the check for earlier visits. -/
def descendAll (g : Graph) (ctx : Context) (purpose : Purpose) :
    Nat → List VertexId → Scope → Element → Trail → Descent → Outcome Descent
  | 0, _, _, _, _, _ => .error (.modelTooDeep ctx.limits.levels)
  | levels + 1, ancestors, scope, e, trail, d =>
    if e.vertexId ∈ ancestors then .error (.modelCycle e.vertexId)
    else expand g ctx purpose levels (descendAll g ctx purpose levels (e.vertexId :: ancestors))
      scope e trail d

variable {g : Graph} {ctx : Context} {purpose : Purpose} {levels : Nat}
  {ancestors : List VertexId} {I : Descent → Prop} {missing : Record → Prop} {p : Place}
  {d d' : Descent}

/-- It delivers exactly what the place adds. -/
theorem descendAll_delivers (hI : Descent.Stable I) (hd : I d)
    (h : descendAll g ctx purpose levels ancestors p.scope p.element p.trail d = .ok d') :
    Delivers I (fun _ => False) (p.Adds g ctx purpose) d d' := by
  induction levels generalizing ancestors p d d' with
  | zero => cases h
  | succ levels ih =>
      unfold descendAll at h
      split at h
      · cases h
      · exact expand_delivers hI (fun _ _ _ hd h => ih hd h) hd h

/-! ## Skipping never fails more often -/

/-- A visit succeeds when the visits it leads to succeed wherever others did. -/
theorem expand_total {visit visit' : Scope → Element → Trail → Descent → Outcome Descent}
    (hvisit : ∀ {q : Place} {d d'}, visit q.scope q.element q.trail d = .ok d' →
      ∀ d₁, ∃ d₂, visit' q.scope q.element q.trail d₁ = .ok d₂)
    (h : expand g ctx purpose levels visit p.scope p.element p.trail d = .ok d') (d₁ : Descent) :
    ∃ d₂, expand g ctx purpose levels visit' p.scope p.element p.trail d₁ = .ok d₂ := by
  obtain ⟨_, ms, hfirst, hms, hfold⟩ := expand_eq_ok.mp h
  obtain ⟨d₃, hfirst'⟩ := Place.noteFirst_total hfirst d₁
  obtain ⟨d₂, hfold'⟩ : ∃ d₂, ms.foldlM (p.follow visit') d₃ = .ok d₂ := by
    refine Outcome.foldlM_total (fun m hm b => ?_) d₃
    obtain ⟨_, _, hstep⟩ := Outcome.foldlM_steps hfold hm
    exact hvisit hstep _
  exact ⟨d₂, expand_eq_ok.mpr ⟨d₃, ms, hfirst', hms, hfold'⟩⟩

theorem descend_total
    (h : descendAll g ctx purpose levels ancestors p.scope p.element p.trail d = .ok d')
    (d₁ : Descent) :
    ∃ d₂, descend g ctx purpose levels ancestors p.scope p.element p.trail d₁ = .ok d₂ := by
  induction levels generalizing ancestors p d d' d₁ with
  | zero => cases h
  | succ levels ih =>
      unfold descendAll at h
      rw [descend_succ]
      split at h
      · cases h
      · next hanc =>
          rw [if_neg hanc]
          split
          · exact ⟨d₁, rfl⟩
          · exact expand_total (fun h d₁ => ih h d₁) h _

/-! ## What skipping misses -/

/-- Two placings of one element at one trail key. -/
def Place.Twins (p q : Place) : Prop :=
  p.element.vertexId = q.element.vertexId ∧ p.trail.key = q.trail.key

/-- Of two placings of one element at one trail, below a place, one adds the
record and the other does not. -/
def Place.Splits (g : Graph) (ctx : Context) (purpose : Purpose) (top : Place) (r : Record) :
    Prop :=
  ∃ p q, top.Reaches g ctx purpose p ∧ top.Reaches g ctx purpose q ∧ p.Twins q ∧
    q.Adds g ctx purpose r ∧ ¬ p.Adds g ctx purpose r

theorem Place.Splits.adds {top : Place} {r : Record} (h : top.Splits g ctx purpose r) :
    top.Adds g ctx purpose r := by
  obtain ⟨_, q, _, hq, _, ⟨q', hq', hr⟩, _⟩ := h
  exact ⟨q', hq.trans hq', hr⟩

/-- Every visit that is remembered is either one that is still going on or one
whose records are there, except those that may be missing. -/
def Accounts (g : Graph) (ctx : Context) (purpose : Purpose) (missing : Record → Prop)
    (top : Place) (going : List Place) (d : Descent) : Prop :=
  ∀ {id k}, (id, k) ∈ d.seen →
    (∃ p ∈ going, p.element.vertexId = id ∧ p.trail.key = k) ∨
      ∃ p, top.Reaches g ctx purpose p ∧ p.element.vertexId = id ∧ p.trail.key = k ∧
        ∀ {r}, p.Adds g ctx purpose r → d.Holds r ∨ missing r

theorem stable_accounts (top : Place) (going : List Place) :
    Descent.Stable (Accounts g ctx purpose missing top going) where
  allow trail s h := fun hseen => (h hseen).imp_right fun ⟨p, hp, hid, hk, hr⟩ =>
    ⟨p, hp, hid, hk, fun ha => (hr ha).imp_left ((Descent.stable_holds _).allow trail s)⟩
  flag trail b h := fun hseen => (h hseen).imp_right fun ⟨p, hp, hid, hk, hr⟩ =>
    ⟨p, hp, hid, hk, fun ha => (hr ha).imp_left ((Descent.stable_holds _).flag trail b)⟩

/-- A visit that begins is going on. -/
theorem Accounts.begin {top : Place} {going : List Place}
    (h : Accounts g ctx purpose missing top going d) (p : Place) :
    Accounts g ctx purpose missing top (p :: going) (d.see p.element.vertexId p.trail) := by
  intro id k hseen
  rcases List.mem_cons.mp hseen with heq | hseen
  · cases heq
    exact .inl ⟨p, List.mem_cons_self, rfl, rfl⟩
  · rcases h hseen with ⟨q, hq, hid, hk⟩ | ⟨q, hq, hid, hk, hr⟩
    · exact .inl ⟨q, List.mem_cons_of_mem _ hq, hid, hk⟩
    · exact .inr ⟨q, hq, hid, hk, fun ha => (hr ha).imp_left (Descent.holds_see _ _).mpr⟩

/-- A visit that ends has its records. -/
theorem Accounts.finish {top : Place} {going : List Place}
    (h : Accounts g ctx purpose missing top (p :: going) d) (hp : top.Reaches g ctx purpose p)
    (hadds : ∀ {r}, p.Adds g ctx purpose r → d.Holds r ∨ missing r) :
    Accounts g ctx purpose missing top going d := by
  intro id k hseen
  rcases h hseen with ⟨q, hq, hid, hk⟩ | hdone
  · rcases List.mem_cons.mp hq with rfl | hq
    · exact .inr ⟨q, hp, hid, hk, hadds⟩
    · exact .inl ⟨q, hq, hid, hk⟩
  · exact .inr hdone

/-- **A descent delivers what its place adds**, except for records that twin
places do not both add. No place that is going on can be met again, since its
element is an ancestor of all that is visited meanwhile. -/
theorem descend_delivers {top : Place} {going : List Place} (hI : Descent.Stable I)
    (hsee : ∀ {d} id trail, I d → I (d.see id trail))
    (hsplit : ∀ {r}, top.Splits g ctx purpose r → missing r)
    (hp : top.Reaches g ctx purpose p) (hgoing : ∀ q ∈ going, q.element.vertexId ∈ ancestors)
    (hd : I d) (hacc : Accounts g ctx purpose missing top going d)
    (h : descend g ctx purpose levels ancestors p.scope p.element p.trail d = .ok d') :
    Delivers (fun d => I d ∧ Accounts g ctx purpose missing top going d) missing
      (p.Adds g ctx purpose) d d' := by
  induction levels generalizing ancestors going p d d' with
  | zero => cases h
  | succ levels ih =>
      rw [descend_succ] at h
      split at h
      · cases h
      · next hanc =>
          split at h
          · next hseen =>
              cases h
              -- the earlier visit is over, or its element would be an ancestor
              rcases hacc hseen with ⟨q, hq, hid, _⟩ | ⟨q, hq, hid, hk, hr⟩
              · exact absurd (hid ▸ hgoing q hq) hanc
              · refine ⟨⟨hd, hacc⟩, fun h => h, .inl, fun {r} ha => ?_⟩
                by_cases hqa : q.Adds g ctx purpose r
                · exact hr hqa
                · exact .inr (hsplit ⟨q, p, hq, hp, ⟨hid, hk⟩, ha, hqa⟩)
          · -- the visit goes on while the moves are followed, and is accounted for after
            have hdelivers : Delivers
                (fun d => I d ∧ Accounts g ctx purpose missing top (p :: going) d) missing
                (p.Adds g ctx purpose) (d.see p.element.vertexId p.trail) d' := by
              refine expand_delivers (hI.and (stable_accounts top (p :: going)))
                (fun hm d d' hd h => ih (hp.tail ⟨_, hm⟩) ?_ hd.1 hd.2 h)
                ⟨hsee _ _ hd, hacc.begin p⟩ h
              intro q hq
              rcases List.mem_cons.mp hq with rfl | hq
              · exact List.mem_cons_self
              · exact List.mem_cons_of_mem _ (hgoing q hq)
            obtain ⟨hI', hacc'⟩ := hdelivers.invariant
            exact hdelivers.of_see.imp ⟨hI', hacc'.finish hp hdelivers.complete⟩

/-! ## Whole descents -/

theorem not_holds_start (root : TrailStep) (r : Record) :
    ¬ Descent.Holds { topology := ⟨root, ∅⟩ } r := by
  cases r with
  | step k s => exact List.not_mem_nil
  | marked k => exact Bool.false_ne_true
  | kept k => intro h; cases h

/-- A descent keeps the root of its topology, and keeps it ordered. -/
def Descent.Rooted (root : TrailStep) (d : Descent) : Prop :=
  d.topology.root = root ∧ d.topology.Ordered

theorem stable_rooted (root : TrailStep) : Descent.Stable (Descent.Rooted root) where
  allow trail s h := ⟨h.1, Topology.Ordered.insert h.2 trail s⟩
  flag _ _ h := h

theorem rooted_start (root : TrailStep) : Descent.Rooted root { topology := ⟨root, ∅⟩ } :=
  ⟨rfl, Topology.ordered_root root⟩

/-- The place at which a descent starts. -/
def Place.start (top : Element) (root : TrailStep) : Place := ⟨top, ⟨root, []⟩, {}⟩

/-- What a whole descent records is added below its start, and what it does not
record of that is split between twin places. -/
theorem descendFrom_delivers {top : Element} {root : TrailStep}
    (h : descendFrom g ctx purpose top root = .ok d) :
    d.Rooted root ∧ (∀ {r}, d.Holds r → (Place.start top root).Adds g ctx purpose r) ∧
      ∀ {r}, (Place.start top root).Adds g ctx purpose r →
        d.Holds r ∨ (Place.start top root).Splits g ctx purpose r := by
  have hdelivers : Delivers
      (fun d => d.Rooted root ∧ Accounts g ctx purpose ((Place.start top root).Splits g ctx purpose)
        (Place.start top root) [] d)
      ((Place.start top root).Splits g ctx purpose) ((Place.start top root).Adds g ctx purpose)
      { topology := ⟨root, ∅⟩ } d :=
    descend_delivers (stable_rooted root) (fun _ _ h => h) (fun h => h) .refl (by simp)
      (rooted_start root) (fun hseen => by cases hseen) h
  exact ⟨hdelivers.invariant.1,
    fun hr => (hdelivers.sound hr).resolve_left (not_holds_start root _), hdelivers.complete⟩

/-! ## Topologies of models -/

theorem Topology.ofModel_eq_ok {m : Model} (hw : m.widgetType? = none) {T : Topology} :
    Topology.ofModel g ctx m = .ok T ↔
      ∃ root top d, m.stepAt g ctx 0 = .ok root ∧ m.topElement g = .ok top ∧
        descendFrom g ctx .topology top root = .ok d ∧ d.topology = T := by
  simp only [Topology.ofModel, hw, Outcome.bind_eq_ok, Except.ok.injEq]
  constructor
  · rintro ⟨root, hroot, top, htop, d, hd, hT⟩
    exact ⟨root, top, d, hroot, htop, hd, hT⟩
  · rintro ⟨root, top, d, hroot, htop, hd, hT⟩
    exact ⟨root, hroot, top, htop, d, hd, hT⟩

/-- The topology of a model, by the descent that skips nothing. -/
def Topology.ofModelAll (g : Graph) (ctx : Context) (m : Model) : Outcome Topology :=
  match m.widgetType? with
  | some t => .ok ⟨⟨t, none⟩, ∅⟩
  | none => do
    let root ← m.stepAt g ctx 0
    let top ← m.topElement g
    let d ← descendAll g ctx .topology (ctx.levelsFrom 0) [] {} top ⟨root, []⟩
      { topology := ⟨root, ∅⟩ }
    .ok d.topology

/-- The place at which the descent through a composite model starts. -/
def Model.StartsAt (g : Graph) (ctx : Context) (m : Model) (p : Place) : Prop :=
  m.widgetType? = none ∧ ∃ top root, m.topElement g = .ok top ∧ m.stepAt g ctx 0 = .ok root ∧
    p = .start top root

/-- The step follows the trail key below one placing of an element of the
model, and not below another placing of it at the same trail. -/
def Model.Splits (g : Graph) (ctx : Context) (m : Model) (k : String) (s : TrailStep) : Prop :=
  ∃ p, m.StartsAt g ctx p ∧ p.Splits g ctx .topology (.step k s)

/-- No element of the model stands at one trail in two ways. -/
def Model.Single (g : Graph) (ctx : Context) (m : Model) : Prop :=
  ∀ {s p q}, m.StartsAt g ctx s → s.Reaches g ctx .topology p → s.Reaches g ctx .topology q →
    p.Twins q → p = q

theorem Model.Single.not_splits {m : Model} (h : m.Single g ctx) (k : String) (s : TrailStep) :
    ¬ m.Splits g ctx k s := by
  rintro ⟨top, htop, p, q, hp, hq, htwins, hadds, hnot⟩
  cases h htop hp hq htwins
  exact hnot hadds

theorem Model.StartsAt.splits_iff {m : Model} {p : Place} (h : m.StartsAt g ctx p) {k : String}
    {s : TrailStep} : m.Splits g ctx k s ↔ p.Splits g ctx .topology (.step k s) := by
  refine ⟨?_, fun hs => ⟨p, h, hs⟩⟩
  rintro ⟨p', ⟨_, top', root', htop', hroot', rfl⟩, hs⟩
  obtain ⟨_, top, root, htop, hroot, rfl⟩ := h
  cases htop.symm.trans htop'
  cases hroot.symm.trans hroot'
  exact hs

/-- The steps of the descent that skips nothing are those of the other one and
the split ones. -/
theorem ofModel_steps {m : Model} {all : Topology}
    (h : Topology.ofModelAll g ctx m = .ok all) :
    ∃ t, Topology.ofModel g ctx m = .ok t ∧ (t.root = all.root ∧ t.Ordered ∧ all.Ordered) ∧
      ∀ k s, s ∈ all.stepsAt k ↔ s ∈ t.stepsAt k ∨ m.Splits g ctx k s := by
  unfold Topology.ofModelAll at h
  split at h
  · next t ht =>
      cases h
      refine ⟨_, by simp only [Topology.ofModel, ht],
        ⟨rfl, Topology.ordered_root _, Topology.ordered_root _⟩, fun k s => ?_⟩
      -- a widget's model has no descent, hence nothing to split
      refine (or_iff_left ?_).symm
      rintro ⟨p, ⟨hw, _⟩, _⟩
      cases ht.symm.trans hw
  · next hw =>
      obtain ⟨root, hroot, h⟩ := Outcome.bind_eq_ok.mp h
      obtain ⟨top, htop, h⟩ := Outcome.bind_eq_ok.mp h
      obtain ⟨dall, hall, h⟩ := Outcome.bind_eq_ok.mp h
      cases h
      obtain ⟨d, hd⟩ := descend_total (p := Place.start top root) hall { topology := ⟨root, ∅⟩ }
      have hrun : Topology.ofModel g ctx m = .ok d.topology :=
        (Topology.ofModel_eq_ok hw).mpr ⟨root, top, d, hroot, htop, hd, rfl⟩
      have hstart : m.StartsAt g ctx (.start top root) := ⟨hw, top, root, htop, hroot, rfl⟩
      obtain ⟨⟨hroot_eq, hordered⟩, hsound, hcomplete⟩ := descendFrom_delivers hd
      have hdelivers := descendAll_delivers (p := .start top root) (stable_rooted root)
        (rooted_start root) hall
      have hadds : ∀ {r}, (Place.start top root).Adds g ctx .topology r → dall.Holds r :=
        fun hr => (hdelivers.complete hr).resolve_right id
      refine ⟨d.topology, hrun, ⟨hroot_eq.trans hdelivers.invariant.1.symm, hordered,
        hdelivers.invariant.2⟩, fun k s => ⟨fun hs => ?_, ?_⟩⟩
      · have hs := (hdelivers.sound (r := .step k s) hs).resolve_left (not_holds_start root _)
        exact (hcomplete hs).imp_right hstart.splits_iff.mpr
      · rintro (hs | hs)
        · exact hadds (hsound (r := .step k s) hs)
        · exact hadds (hstart.splits_iff.mp hs).adds

/-- **The steps that the check for earlier visits costs** are those that two
placings of an element at one trail do not both lead to. Whenever the descent
that skips nothing succeeds, so does the one that visits each element once per
trail; the topology has the same root and no further steps, the steps that are
missing are split, and it is the same topology exactly when no split step is
missing, as when no element stands at one trail in two ways. -/
theorem ofModel_of_ofModelAll {m : Model} {all : Topology}
    (h : Topology.ofModelAll g ctx m = .ok all) :
    ∃ t, Topology.ofModel g ctx m = .ok t ∧ t.root = all.root ∧
      (∀ k s, s ∈ all.stepsAt k ↔ s ∈ t.stepsAt k ∨ m.Splits g ctx k s) ∧
      (t = all ↔ ∀ k s, m.Splits g ctx k s → s ∈ t.stepsAt k) ∧
      (m.Single g ctx → t = all) := by
  obtain ⟨t, ht, ⟨hroot, hordered, hordered'⟩, hsteps⟩ := ofModel_steps h
  have hsame : (∀ k s, m.Splits g ctx k s → s ∈ t.stepsAt k) → t = all := by
    intro hkept
    refine hordered.ext hordered' hroot fun k s => ?_
    rw [hsteps]
    exact (or_iff_left_of_imp (hkept k s)).symm
  refine ⟨t, ht, hroot, hsteps, ⟨?_, hsame⟩, fun hsingle => hsame fun k s hs => ?_⟩
  · rintro rfl k s hs
    exact (hsteps k s).mpr (.inr hs)
  · exact absurd hs (hsingle.not_splits k s)

/-! ### An element below two others -/

namespace Pinning

open Definition

/-- A model that is called by its id. -/
def modelVertex (id kind name : String) : Vertex :=
  ⟨id, modelType, Table.ofList [("model-id", .text id), ("model-version", .text "1"),
    ("model-type", .text kind), ("model-name", .text name)]⟩

/-- An element that states its flag. -/
def elementVertex (id : String) (deletable : Bool) : Vertex :=
  ⟨id, elementType, Table.ofList [("new-data-del-flag", .bool deletable)]⟩

def setVertex (id : String) : Vertex :=
  ⟨id, elementSetType, Table.ofList [("constrained-element-set-uuid", .text id)]⟩

def vertices : List Vertex :=
  [modelVertex "svc" "service" "svc", modelVertex "node" "widget" "a", elementVertex "top" true,
    elementVertex "strict" true, elementVertex "lax" true, elementVertex "shared" true,
    elementVertex "usual" false, elementVertex "below" true, elementVertex "pinned" true,
    setVertex "set", setVertex "pin", ⟨"choice", choiceSetType, ∅⟩,
    ⟨"pin-choice", choiceSetType, ∅⟩,
    ⟨"rule", setConstraintType,
      Table.ofList [("constrained-element-set-uuid-to-replace", .text "set")]⟩]

/-- The edge to the element without a constraint. -/
def toLax : Edge := ⟨"1", "top", "lax", connectsTo, ∅⟩

/-- The edge to the element that replaces the set. -/
def toStrict : Edge := ⟨"2", "top", "strict", connectsTo, ∅⟩

/-- Two elements connect to a shared one, which connects to a set: usually of an
element with another one below it, but below the strict one of an element that
ends there. All elements are of one type. -/
def edges : List Edge :=
  [⟨"3", "svc", "top", startsWith, ∅⟩, ⟨"4", "top", "node", isA, ∅⟩,
    ⟨"5", "strict", "node", isA, ∅⟩, ⟨"6", "lax", "node", isA, ∅⟩,
    ⟨"7", "shared", "node", isA, ∅⟩, ⟨"8", "usual", "node", isA, ∅⟩,
    ⟨"9", "below", "node", isA, ∅⟩, ⟨"10", "pinned", "node", isA, ∅⟩,
    ⟨"11", "strict", "shared", connectsTo, ∅⟩, ⟨"12", "lax", "shared", connectsTo, ∅⟩,
    ⟨"13", "shared", "set", connectsTo, ∅⟩, ⟨"14", "usual", "below", connectsTo, ∅⟩,
    ⟨"15", "strict", "rule", uses, ∅⟩, ⟨"16", "rule", "pin", uses, ∅⟩,
    ⟨"17", "set", "choice", uses, ∅⟩, ⟨"18", "choice", "usual", has, ∅⟩,
    ⟨"19", "pin", "pin-choice", uses, ∅⟩, ⟨"20", "pin-choice", "pinned", has, ∅⟩]

/-- The definition with the lax element listed before the strict one. -/
def laxFirst : Graph :=
  (Graph.ofParts vertices (toLax :: toStrict :: edges)).toOption.getD .empty

/-- The definition with the strict element listed before the lax one. -/
def strictFirst : Graph :=
  (Graph.ofParts vertices (toStrict :: toLax :: edges)).toOption.getD .empty

def context : Context where
  catalog := ⟨⟨[{
    source := "a", target := "a", label := "has", multiplicity := .manyToMany }]⟩, ∅⟩

def service : Model := ⟨"svc", "svc", "1", some "svc", .service⟩

/-- A topology in which one step follows each of some trails. -/
def chain (keys : List String) : Topology :=
  ⟨⟨"a", none⟩, Table.ofList (keys.map (·, [⟨"a", none⟩]))⟩

/-- The shared element is met below the lax one first. What it adds below the
strict one is part of that, so nothing is missing. -/
theorem ofModel_of_ofModelAll_laxFirst :
    Topology.ofModelAll laxFirst context service = .ok (chain ["a", "a|a", "a|a|a", "a|a|a|a"]) ∧
      ∃ t, Topology.ofModel laxFirst context service = .ok t ∧
        t.root = ⟨"a", none⟩ ∧
        (∀ k s, s ∈ (chain ["a", "a|a", "a|a|a", "a|a|a|a"]).stepsAt k ↔
          s ∈ t.stepsAt k ∨ service.Splits laxFirst context k s) ∧
        (t = chain ["a", "a|a", "a|a|a", "a|a|a|a"] ↔
          ∀ k s, service.Splits laxFirst context k s → s ∈ t.stepsAt k) ∧
        (service.Single laxFirst context → t = chain ["a", "a|a", "a|a|a", "a|a|a|a"]) := by
  have hall : Topology.ofModelAll laxFirst context service =
      .ok (chain ["a", "a|a", "a|a|a", "a|a|a|a"]) := by decide +kernel
  exact ⟨hall, ofModel_of_ofModelAll hall⟩

/-- The shared element is met below the strict one first. The step to the
element below the usual one is missing. -/
theorem ofModel_lacks_step_strictFirst :
    strictFirst.Reachable ∧ Model.find strictFirst "svc" "1" = .ok service ∧
      Topology.ofModelAll strictFirst context service =
        .ok (chain ["a", "a|a", "a|a|a", "a|a|a|a"]) ∧
      Topology.ofModel strictFirst context service = .ok (chain ["a", "a|a", "a|a|a"]) := by
  have hreach : strictFirst.Reachable :=
    Graph.reachable_ofParts
      (show Graph.ofParts vertices (toStrict :: toLax :: edges) = .ok strictFirst from rfl)
  exact ⟨hreach, by decide +kernel, by decide +kernel, by decide +kernel⟩

end Pinning

end Inventory
