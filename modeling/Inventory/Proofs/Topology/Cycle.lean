import Inventory.Topology.OfQuery
import Inventory.Proofs.Definition.Reading
import Inventory.Proofs.Topology.Memo

/-!
# Topology — cyclic definitions

A descent refuses an element below itself, and passes by what it has visited at
the same trail. What it passes by is either being visited, and then refused, or
was visited to the end, and then nothing below it is below itself: so no cycle
hides behind a visit that is left out.
-/

namespace Inventory

open Definition Relation

/-! ## Chains that end -/

section

variable {r : VertexId → VertexId → Prop}

/-- No chain from here goes on without end. -/
def Ends (r : VertexId → VertexId → Prop) (x : VertexId) : Prop := Acc (fun y x => r x y) x

theorem Ends.of_reflTransGen {x y : VertexId} (h : Ends r x) (hxy : ReflTransGen r x y) :
    Ends r y := by
  induction hxy with
  | refl => exact h
  | tail _ hr ih => exact ih.inv hr

/-- What leads back to itself goes on without end. -/
theorem Ends.not_cyclic {x : VertexId} (h : Ends r x) : ¬ TransGen r x x := by
  induction h with
  | intro x _ ih =>
      intro hcycle
      obtain ⟨y, hxy, hyx⟩ := TransGen.head'_iff.mp hcycle
      exact ih y hxy (TransGen.tail' hyx hxy)

/-- Chains end below everything that was seen and is not being visited. -/
def SeenEnds (r : VertexId → VertexId → Prop) (ancestors : List VertexId)
    (seen : List (VertexId × String)) : Prop :=
  ∀ s ∈ seen, s.1 ∈ ancestors ∨ Ends r s.1

theorem SeenEnds.enter {ancestors : List VertexId} {seen : List (VertexId × String)}
    (h : SeenEnds r ancestors seen) (id : VertexId) (k : String) :
    SeenEnds r (id :: ancestors) ((id, k) :: seen) := by
  refine List.forall_mem_cons.mpr ⟨.inl List.mem_cons_self, fun s hs => ?_⟩
  exact (h s hs).imp_left (List.mem_cons_of_mem _)

theorem SeenEnds.leave {ancestors : List VertexId} {seen : List (VertexId × String)}
    {id : VertexId} (h : SeenEnds r (id :: ancestors) seen) (hid : Ends r id) :
    SeenEnds r ancestors seen := by
  intro s hs
  rcases h s hs with hs | hs
  · rcases List.mem_cons.mp hs with heq | hs
    · exact .inr (heq ▸ hid)
    · exact .inl hs
  · exact .inr hs

/-- The error blames a definition, and calls an element cyclic only when it is
reached and leads back to itself. -/
structure Founded (r : VertexId → VertexId → Prop) (reached : VertexId → Prop) (e : Error) :
    Prop where
  kind : e.kind = .configuration
  cyclic : ∀ id, e = .modelCycle id → reached id ∧ TransGen r id id

theorem Error.Blames.founded {e : Error} (h : e.Blames) (reached : VertexId → Prop) :
    Founded r reached e :=
  ⟨h.kind, fun id he => absurd he (h.acyclic id)⟩

theorem Outcome.Meets.founded {α : Type} {x : Outcome α} {P : α → Prop}
    (h : x.Meets P Error.Blames) (reached : VertexId → Prop) : x.Meets P (Founded r reached) :=
  h.imp id fun he => he.founded reached

/-- What follows a reading may be refused for a cycle, the reading itself not. -/
theorem Outcome.Meets.bind_founded {α β : Type} {x : Outcome α} {f : α → Outcome β}
    {P : α → Prop} {Q : β → Prop} {reached : VertexId → Prop} (h : x.Meets P Error.Blames)
    (hf : ∀ {a}, P a → (f a).Meets Q (Founded r reached)) :
    Outcome.Meets (x >>= f) Q (Founded r reached) :=
  (h.founded reached).bind hf

/-- What a visit of an element leaves behind: below the element chains end. -/
def Visited {δ : Type} (r : VertexId → VertexId → Prop) (seen : δ → List (VertexId × String))
    (ancestors : List VertexId) (reached : VertexId → Prop) (id : VertexId) (x : Outcome δ) :
    Prop :=
  x.Meets (fun d => SeenEnds r ancestors (seen d) ∧ Ends r id) (Founded r reached)

/-- An element is refused below itself and passed by when it was seen; else it
is enough to visit what is below it. -/
theorem visited_of_body {δ : Type} {seen : δ → List (VertexId × String)}
    {ancestors : List VertexId} {reached : VertexId → Prop} {id : VertexId} {k : String} {d : δ}
    {body : Outcome δ} (hreach : reached id) (hup : ∀ a ∈ ancestors, TransGen r a id)
    (hseen : SeenEnds r ancestors (seen d))
    (hbody : body.Meets (fun d => SeenEnds r (id :: ancestors) (seen d) ∧ ∀ y, r id y → Ends r y)
      (Founded r reached)) :
    Visited r seen ancestors reached id
      (if id ∈ ancestors then .error (.modelCycle id)
        else if (id, k) ∈ seen d then .ok d else body) := by
  unfold Visited
  split
  · next hcycle =>
      refine Outcome.Meets.error ⟨rfl, fun id' he => ?_⟩
      cases he
      exact ⟨hreach, hup id hcycle⟩
  · next hnew =>
      split
      · next hpassed =>
          -- it was seen and is not being visited, so it was visited to the end
          exact Outcome.Meets.ok ⟨hseen, (hseen _ hpassed).resolve_left hnew⟩
      · refine hbody.imp (fun {d} hd => ?_) fun he => he
        have hends : Ends r id := Acc.intro id fun y hy => hd.2 y hy
        exact ⟨hd.1.leave hends, hends⟩

end

/-! ## Steps and hops -/

section

variable {g : Graph} {ctx : Context}

theorem Error.blames_modelTooDeep (max : Nat) : (modelTooDeep max).Blames :=
  ⟨rfl, by simp⟩

theorem meets_require (rules : RuleTable) (a b : NodeType) :
    (rules.require a b).Meets (fun _ => True) Error.Blames := by
  unfold RuleTable.require
  split
  · trivial
  · exact ⟨rfl, by simp⟩

/-- The step of a model is found, or its definition is wrong. -/
theorem Graph.WellFormed.step (wf : g.WellFormed) {m : Model} (hm : m.Stands g) (levels : Nat) :
    (m.step g ctx levels).Meets (fun _ => True) Error.Blames := by
  induction levels generalizing m with
  | zero => exact Error.blames_modelTooDeep _
  | succ levels ih =>
      unfold Model.step
      split
      · trivial
      · refine (wf.topElement hm).bind fun htop => (wf.model htop.1).bind fun hinner => ?_
        exact (ih hinner.1).bind fun _ => trivial

theorem meets_hopsAlong (rules : RuleTable) (trail : Trail) (ts : List NodeType) :
    (hopsAlong rules trail ts).Meets (fun _ => True) Error.Blames := by
  induction ts generalizing trail with
  | nil => trivial
  | cons t ts ih =>
      unfold hopsAlong
      exact (meets_require _ _ _).bind fun _ => (ih _).bind fun _ => trivial

theorem seen_recordHops (d : Descent) (e : Element) (trail : Trail) (hops : List Hop) :
    (d.recordHops .topology e trail hops).seen = d.seen := by
  unfold Descent.recordHops
  dsimp only
  induction hops generalizing d with
  | nil => rfl
  | cons h hops ih => exact ih (d.allow h.start h.step)

/-- Linkage points are recorded without a visit. -/
theorem meets_recordLinkage (rules : RuleTable) (d : Descent) (e : Element) (trail : Trail) :
    (d.recordLinkage rules .topology e trail).Meets (fun d' => d'.seen = d.seen)
      Error.Blames := by
  unfold Descent.recordLinkage
  refine Outcome.Meets.imp (.foldlM (I := fun d' => d'.seen = d.seen) (D := fun _ => True)
    (fun path _ {d'} hd' => ?_) rfl) (fun h => h.1) fun h => h
  refine (meets_hopsAlong rules trail (path.beyond trail)).bind fun {hops} _ => ?_
  exact ⟨(seen_recordHops d' e trail hops).trans hd', trivial⟩

/-! ## Models -/

variable {levels : Nat} {reached : VertexId → Prop} {ancestors : List VertexId}

/-- The visits below an element leave behind what they should. -/
def VisitsBelow (g : Graph) (ancestors : List VertexId) (reached : VertexId → Prop)
    (e : Element) (visit : Scope → Element → Trail → Descent → Outcome Descent) : Prop :=
  ∀ {child trail d}, child.Stands g → g.Below e.vertexId child.vertexId →
    SeenEnds g.Below ancestors d.seen →
    Visited g.Below Descent.seen ancestors reached child.vertexId (visit {} child trail d)

variable {visit : Scope → Element → Trail → Descent → Outcome Descent} {e : Element}
  {trail : Trail} {d : Descent}

theorem VisitsBelow.child (hvisit : VisitsBelow g ancestors reached e visit) (wf : g.WellFormed)
    {child : Element} (hchild : child.Stands g) (hbelow : g.Below e.vertexId child.vertexId)
    (hseen : SeenEnds g.Below ancestors d.seen) :
    Visited g.Below Descent.seen ancestors reached child.vertexId
      (visitChild g ctx levels visit {} trail d child) := by
  unfold visitChild
  refine (wf.model hchild).bind_founded fun hm => ?_
  refine (wf.step hm.1 levels).bind_founded fun _ => ?_
  exact (meets_require _ _ _).bind_founded fun _ => hvisit hchild hbelow hseen

/-- All elements that a connection offers are visited. -/
theorem VisitsBelow.over (hvisit : VisitsBelow g ancestors reached e visit) (wf : g.WellFormed)
    (hopen : g.Open e.vertexId) {c : Connection} (hc : c.Stands g)
    (hleads : g.Leads connectsTo e.vertexId c.origin)
    (hseen : SeenEnds g.Below ancestors d.seen) :
    (visitOver g ctx levels visit {} trail d c).Meets
      (fun d' => SeenEnds g.Below ancestors d'.seen ∧
        ∀ y, g.Offers c.origin y → Ends g.Below y) (Founded g.Below reached) := by
  unfold visitOver
  refine (wf.resolve hc).bind_founded fun {children} hchildren => ?_
  have hfold : Outcome.Meets
      (children.foldlM (visitChild g ctx levels visit {} trail) d)
      (fun d' => SeenEnds g.Below ancestors d'.seen ∧
        ∀ child ∈ children, Ends g.Below child.vertexId) (Founded g.Below reached) := by
    refine .foldlM (I := fun d : Descent => SeenEnds g.Below ancestors d.seen)
      (fun child hmem {d} hd => ?_) hseen
    have hoffers : g.Offers c.origin child.vertexId := (hchildren.2 _).mpr ⟨child, hmem, rfl⟩
    exact hvisit.child wf (hchildren.1 child hmem) (.connect hopen hleads hoffers) hd
  refine hfold.imp (fun {d'} hd' => ⟨hd'.1, fun y hy => ?_⟩) fun h => h
  obtain ⟨child, hmem, rfl⟩ := (hchildren.2 y).mp hy
  exact hd'.2 child hmem

/-- All connections of an element are followed. -/
theorem VisitsBelow.connections (hvisit : VisitsBelow g ancestors reached e visit)
    (wf : g.WellFormed) (he : e.Stands g) (hopen : g.Open e.vertexId)
    (hseen : SeenEnds g.Below ancestors d.seen) :
    Outcome.Meets
      (e.connections g >>= fun cs => cs.foldlM (visitOver g ctx levels visit {} trail) d)
      (fun d' => SeenEnds g.Below ancestors d'.seen ∧
        ∀ c y, g.Leads connectsTo e.vertexId c → g.Offers c y → Ends g.Below y)
      (Founded g.Below reached) := by
  refine (wf.connections he).bind_founded fun {cs} hcs => ?_
  have hfold : Outcome.Meets (cs.foldlM (visitOver g ctx levels visit {} trail) d)
      (fun d' => SeenEnds g.Below ancestors d'.seen ∧
        ∀ c ∈ cs, ∀ y, g.Offers c.origin y → Ends g.Below y) (Founded g.Below reached) := by
    refine .foldlM (I := fun d : Descent => SeenEnds g.Below ancestors d.seen)
      (fun c hc {d} hd => ?_) hseen
    exact hvisit.over wf hopen (hcs.1 c hc) ((hcs.2 _).mpr ⟨c, hc, rfl⟩) hd
  refine hfold.imp (fun {d'} hd' => ⟨hd'.1, fun c y hleads hoffers => ?_⟩) fun h => h
  obtain ⟨c, hc, rfl⟩ := (hcs.2 c).mp hleads
  exact hd'.2 c hc y hoffers

/-- A visit of an element that uses no constraint visits all that is below it. -/
theorem VisitsBelow.expand (hvisit : VisitsBelow g ancestors reached e visit) (wf : g.WellFormed)
    (he : e.Stands g) (hfree : ¬ g.Constrained e.vertexId)
    (hseen : SeenEnds g.Below ancestors d.seen) :
    (expand g ctx .topology levels visit {} e trail d).Meets
      (fun d' => SeenEnds g.Below ancestors d'.seen ∧
        ∀ y, g.Below e.vertexId y → Ends g.Below y) (Founded g.Below reached) := by
  unfold Inventory.expand
  split
  · next hlink =>
      -- nothing is below an element with linkage points
      refine ((meets_recordLinkage _ d e trail).founded reached).imp (fun {d'} hd' => ?_) fun h => h
      refine ⟨by rwa [hd'], fun y hy => ?_⟩
      have hopen : g.Open e.vertexId := by
        cases hy <;> assumption
      exact absurd (he.plain.mpr hopen) hlink
  · next hlink =>
      have hopen : g.Open e.vertexId := he.plain.mp (not_not.mp hlink)
      have hnone : (e.constraints g).Meets (· = []) (Founded g.Below reached) := by
        rw [wf.constraints he hfree]
        rfl
      refine hnone.bind fun {cs} hcs => ?_
      subst hcs
      refine (wf.model he).bind_founded fun {m} hm => ?_
      have hrest : ∀ {d : Descent}, SeenEnds g.Below ancestors d.seen →
          (∀ y, g.Composite m.vertexId → g.Leads startsWith m.vertexId y → Ends g.Below y) →
          Outcome.Meets
            (e.connections g >>= fun cs => cs.foldlM (visitOver g ctx levels visit {} trail) d)
            (fun d' => SeenEnds g.Below ancestors d'.seen ∧
              ∀ y, g.Below e.vertexId y → Ends g.Below y) (Founded g.Below reached) := by
        intro d hd hgraft
        refine (hvisit.connections wf he hopen hd).imp (fun {d'} hd' => ⟨hd'.1, ?_⟩) fun h => h
        intro y hy
        cases hy with
        | connect _ hleads hoffers => exact hd'.2 _ y hleads hoffers
        | graft _ hisA hcomposite hstarts =>
            obtain rfl := (hm.2 _).mp hisA
            exact hgraft y hcomposite hstarts
      have henters : Purpose.topology.enters m e = m.kind.isComposite := by
        simp [Purpose.enters]
      dsimp only
      rw [henters, if_neg (show ¬ Purpose.topology = .deletion by decide)]
      split
      · next hcomposite =>
          refine (wf.topElement hm.1).bind_founded fun {sub} hsub => ?_
          have hbelow : g.Below e.vertexId sub.vertexId :=
            .graft hopen ((hm.2 _).mpr rfl) (hm.1.composite_iff.mpr hcomposite)
              ((hsub.2 _).mpr rfl)
          refine Outcome.Meets.bind (hvisit hsub.1 hbelow hseen) fun {d'} hd' => ?_
          refine hrest hd'.1 fun y _ hy => ?_
          rw [(hsub.2 y).mp hy]
          exact hd'.2
      · next hplain =>
          exact hrest hseen fun y hcomposite _ =>
            absurd (hm.1.composite_iff.mp hcomposite) hplain

/-- A descent through unconstrained elements leaves behind what it should. -/
theorem visited_descend (wf : g.WellFormed)
    (hclosed : ∀ {x y}, reached x → g.Below x y → reached y)
    (hfree : ∀ x, reached x → ¬ g.Constrained x) (he : e.Stands g)
    (hreach : reached e.vertexId)
    (hup : ∀ a ∈ ancestors, TransGen g.Below a e.vertexId)
    (hseen : SeenEnds g.Below ancestors d.seen) :
    Visited g.Below Descent.seen ancestors reached e.vertexId
      (descend g ctx .topology levels ancestors {} e trail d) := by
  induction levels generalizing ancestors e trail d with
  | zero => exact (Error.blames_modelTooDeep _).founded reached
  | succ levels ih =>
      rw [descend_succ]
      refine visited_of_body hreach hup hseen ?_
      have hvisit : VisitsBelow g (e.vertexId :: ancestors) reached e
          (descend g ctx .topology levels (e.vertexId :: ancestors)) := by
        intro child trail d hchild hbelow hd
        refine ih hchild (hclosed hreach hbelow) (List.forall_mem_cons.mpr ⟨.single hbelow, ?_⟩) hd
        exact fun a ha => (hup a ha).tail hbelow
      exact hvisit.expand wf he (hfree _ hreach) (hseen.enter _ _)

end

/-! ## Named queries -/

/-- A visit of a query element is remembered with what the element asks; then
its children are visited one step further. -/
def expandQuery (g : Graph) (ctx : Context) (levels : Nat)
    (visit : QueryElement → Trail → QueryDescent → Outcome QueryDescent) (e : QueryElement)
    (trail : Trail) (d : QueryDescent) : Outcome QueryDescent := do
  let constraints ← e.constraints g
  let lookups ← e.lookups g
  (← e.children g).foldlM (fun d child => do
    let step ← (← child.model g).step g ctx levels
    let _ ← ctx.catalog.rules.require trail.last.nodeType step.nodeType
    visit child (trail.extend step) (d.allow trail step)) (d.see e trail constraints lookups)

theorem descendQuery_succ (g : Graph) (ctx : Context) (levels : Nat) (ancestors : List VertexId)
    (e : QueryElement) (trail : Trail) (d : QueryDescent) :
    descendQuery g ctx (levels + 1) ancestors e trail d =
      if e.vertexId ∈ ancestors then .error (.modelCycle e.vertexId)
      else if (e.vertexId, trail.key) ∈ d.seen then .ok d
      else expandQuery g ctx levels (descendQuery g ctx levels (e.vertexId :: ancestors))
        e trail d := rfl

section

variable {g : Graph} {ctx : Context} {levels : Nat} {reached : VertexId → Prop}
  {ancestors : List VertexId} {e : QueryElement} {trail : Trail} {d : QueryDescent}

/-- A visit of a query element visits all its children. -/
theorem meets_expandQuery {visit : QueryElement → Trail → QueryDescent → Outcome QueryDescent}
    (wf : g.WellFormed) (he : e.Stands g)
    (hvisit : ∀ {child trail d}, child.Stands g → g.Leads connectsTo e.vertexId child.vertexId →
      SeenEnds (g.Leads connectsTo) (e.vertexId :: ancestors) d.seen →
      Visited (g.Leads connectsTo) QueryDescent.seen (e.vertexId :: ancestors) reached
        child.vertexId (visit child trail d))
    (hseen : SeenEnds (g.Leads connectsTo) ancestors d.seen) :
    (expandQuery g ctx levels visit e trail d).Meets
      (fun d' => SeenEnds (g.Leads connectsTo) (e.vertexId :: ancestors) d'.seen ∧
        ∀ y, g.Leads connectsTo e.vertexId y → Ends (g.Leads connectsTo) y)
      (Founded (g.Leads connectsTo) reached) := by
  unfold expandQuery
  refine (wf.queryConstraints he).bind_founded fun {constraints} _ => ?_
  refine (wf.queryLookups he).bind_founded fun {lookups} _ => ?_
  refine (wf.queryChildren he).bind_founded fun {children} hchildren => ?_
  have hstart : SeenEnds (g.Leads connectsTo) (e.vertexId :: ancestors)
      (d.see e trail constraints lookups).seen := hseen.enter e.vertexId trail.key
  refine Outcome.Meets.imp (.foldlM
    (I := fun d : QueryDescent =>
      SeenEnds (g.Leads connectsTo) (e.vertexId :: ancestors) d.seen)
    (D := fun child => Ends (g.Leads connectsTo) child.vertexId)
    (fun child hmem {d} hd => ?_) hstart) (fun {d'} hd' => ⟨hd'.1, fun y hy => ?_⟩) fun h => h
  · have hchild : child.Stands g := hchildren.1 child hmem
    have hleads : g.Leads connectsTo e.vertexId child.vertexId :=
      (hchildren.2 _).mpr ⟨child, hmem, rfl⟩
    refine (wf.queryModel hchild).bind_founded fun hm => ?_
    refine (wf.step hm levels).bind_founded fun _ => ?_
    exact (meets_require _ _ _).bind_founded fun _ => hvisit hchild hleads hd
  · obtain ⟨child, hmem, rfl⟩ := (hchildren.2 y).mp hy
    exact hd'.2 child hmem

/-- A descent through a named query leaves behind what it should. -/
theorem visited_descendQuery (wf : g.WellFormed)
    (hclosed : ∀ {x y}, reached x → g.Leads connectsTo x y → reached y) (he : e.Stands g)
    (hreach : reached e.vertexId)
    (hup : ∀ a ∈ ancestors, TransGen (g.Leads connectsTo) a e.vertexId)
    (hseen : SeenEnds (g.Leads connectsTo) ancestors d.seen) :
    Visited (g.Leads connectsTo) QueryDescent.seen ancestors reached e.vertexId
      (descendQuery g ctx levels ancestors e trail d) := by
  induction levels generalizing ancestors e trail d with
  | zero => exact (Error.blames_modelTooDeep _).founded reached
  | succ levels ih =>
      rw [descendQuery_succ]
      refine visited_of_body hreach hup hseen (meets_expandQuery wf he ?_ hseen)
      intro child trail d hchild hleads hd
      refine ih hchild (hclosed hreach hleads) (List.forall_mem_cons.mpr ⟨.single hleads, ?_⟩) hd
      exact fun a ha => (hup a ha).tail hleads

end

/-! ## Compilations -/

/-- A compilation that succeeds has placed no element that leads back to
itself; one that fails blames a definition, and calls no element cyclic that
does not. -/
def Detects {α : Type} (r : VertexId → VertexId → Prop) (places : VertexId → Prop)
    (x : Outcome α) : Prop :=
  x.Meets (fun _ => ∀ id, places id → ¬ TransGen r id id) (Founded r places)

/-- The elements that the walk through a composite model places: its top
element, and all that are below that. -/
def Model.Places (g : Graph) (m : Model) (x : VertexId) : Prop :=
  m.widgetType? = none ∧ ∃ top, g.Leads startsWith m.vertexId top ∧ ReflTransGen g.Below top x

/-- The elements that the walk through a named query places. -/
def NamedQuery.Places (g : Graph) (q : NamedQuery) (x : VertexId) : Prop :=
  ∃ top, g.Leads startsWith q.vertexId top ∧ ReflTransGen (g.Leads connectsTo) top x

section

variable {g : Graph} {ctx : Context}

theorem detects_ofModel (wf : g.WellFormed) {m : Model} (hm : m.Stands g)
    (hfree : ∀ x, m.Places g x → ¬ g.Constrained x) :
    Detects g.Below (m.Places g) (Topology.ofModel g ctx m) := by
  unfold Detects Topology.ofModel
  split
  · next t ht =>
      refine Outcome.Meets.ok fun id hplaces => ?_
      rw [hplaces.1] at ht
      cases ht
  · next hcomposite =>
      have hclosed : ∀ {x y}, m.Places g x → g.Below x y → m.Places g y := by
        rintro x y ⟨hnone, top, htop, hx⟩ hxy
        exact ⟨hnone, top, htop, hx.tail hxy⟩
      refine (wf.step hm _).bind_founded fun {root} _ => ?_
      refine (wf.topElement hm).bind_founded fun {top} htop => ?_
      have hreach : m.Places g top.vertexId :=
        ⟨hcomposite, top.vertexId, (htop.2 _).mpr rfl, .refl⟩
      refine Outcome.Meets.bind (visited_descend wf hclosed hfree htop.1 hreach
        (fun a ha => absurd ha List.not_mem_nil) (fun s hs => absurd hs List.not_mem_nil))
        fun {d} hd => ?_
      rintro id ⟨-, top', htop', hid⟩
      obtain rfl := (htop.2 _).mp htop'
      exact (hd.2.of_reflTransGen hid).not_cyclic

theorem detects_ofQuery (wf : g.WellFormed) {v : Vertex} {q : NamedQuery}
    (hv : g.vertices.get? q.vertexId = some v) :
    Detects (g.Leads connectsTo) (q.Places g) (QueryTopology.ofQuery g ctx q) := by
  unfold Detects QueryTopology.ofQuery
  have hclosed : ∀ {x y}, q.Places g x → g.Leads connectsTo x y → q.Places g y := by
    rintro x y ⟨top, htop, hx⟩ hxy
    exact ⟨top, htop, hx.tail hxy⟩
  refine (wf.queryTop hv).bind_founded fun {top} htop => ?_
  have hreach : q.Places g top.vertexId := ⟨top.vertexId, (htop.2 _).mpr rfl, .refl⟩
  refine (wf.queryModel htop.1).bind_founded fun hm => ?_
  refine (wf.step hm _).bind_founded fun {root} _ => ?_
  refine Outcome.Meets.bind (visited_descendQuery wf hclosed htop.1 hreach
    (fun a ha => absurd ha List.not_mem_nil) (fun s hs => absurd hs List.not_mem_nil))
    fun {d} hd => ?_
  rintro id ⟨top', htop', hid⟩
  obtain rfl := (htop.2 _).mp htop'
  exact (hd.2.of_reflTransGen hid).not_cyclic

end

/-- **Cyclic definitions are detected.** On every reachable graph the
compilation of a named query, and that of a model below whose top element no
element uses a constraint, ends with a topology only when no element that it
places leads back to itself, and otherwise with a configuration error, which
names a cyclic element only when that element is placed and leads back to
itself. -/
theorem compilations_detect_cycles {g : Graph} (hg : g.Reachable) (ctx : Context) :
    (∀ {v m}, g.vertices.get? v.id = some v → Model.ofVertex v = .ok m →
      (∀ x, m.Places g x → ¬ g.Constrained x) →
        Detects g.Below (m.Places g) (Topology.ofModel g ctx m)) ∧
      ∀ {v q}, g.vertices.get? v.id = some v → NamedQuery.ofVertex v = .ok q →
        Detects (g.Leads connectsTo) (q.Places g) (QueryTopology.ofQuery g ctx q) := by
  refine ⟨fun {v m} hv hm hfree => ?_, fun {v q} hv hq => ?_⟩
  · have hid : m.vertexId = v.id := meets_modelOfVertex.of_ok hm
    exact detects_ofModel hg.wellFormed ⟨v, hid ▸ hv, hm⟩ hfree
  · have hid : q.vertexId = v.id := (meets_queryOfVertex v).of_ok hq
    exact detects_ofQuery hg.wellFormed (hid ▸ hv)

/-! ### A ring -/

namespace Ring

open Pinning

def queryVertex (id : String) : Vertex := ⟨id, queryElementType, ∅⟩

def askVertex : Vertex := ⟨"ask", namedQueryType, Table.ofList [("named-query-uuid", .text "ask")]⟩

def vertices : List Vertex :=
  [modelVertex "svc" "service" "svc", modelVertex "node" "widget" "a", elementVertex "top" true,
    elementVertex "next" true, ⟨"choice", choiceSetType, ∅⟩, askVertex, queryVertex "outer",
    queryVertex "inner"]

/-- An element connects to a choice of one that connects back to it. A query
asks for two elements in a row. -/
def edges : List Edge :=
  [⟨"1", "svc", "top", startsWith, ∅⟩, ⟨"2", "top", "node", isA, ∅⟩,
    ⟨"3", "next", "node", isA, ∅⟩, ⟨"4", "top", "choice", connectsTo, ∅⟩,
    ⟨"5", "choice", "next", has, ∅⟩, ⟨"6", "next", "top", connectsTo, ∅⟩,
    ⟨"7", "ask", "outer", startsWith, ∅⟩, ⟨"8", "outer", "node", isA, ∅⟩,
    ⟨"9", "outer", "inner", connectsTo, ∅⟩, ⟨"10", "inner", "node", isA, ∅⟩]

def graph : Graph := (Graph.ofParts vertices edges).toOption.getD .empty

def query : NamedQuery := ⟨"ask", "ask", none⟩

/-- The model is refused for the ring that its top element is on; the query is
compiled, as nothing it asks for leads back. -/
theorem compilations_detect_cycles_ring :
    graph.Reachable ∧ graph.vertices.get? "svc" = some (modelVertex "svc" "service" "svc") ∧
      Model.ofVertex (modelVertex "svc" "service" "svc") = .ok service ∧
      (∀ x, service.Places graph x → ¬ graph.Constrained x) ∧
      Topology.ofModel graph context service = .error (.modelCycle "top") ∧
      (service.Places graph "top" ∧ TransGen graph.Below "top" "top") ∧
      graph.vertices.get? "ask" = some askVertex ∧ NamedQuery.ofVertex askVertex = .ok query ∧
      ∃ t, QueryTopology.ofQuery graph context query = .ok t ∧
        ∀ id, query.Places graph id → ¬ TransGen (graph.Leads connectsTo) id id := by
  have hg : graph.Reachable :=
    Graph.reachable_ofParts (show Graph.ofParts vertices edges = .ok graph from rfl)
  have hmodel : graph.vertices.get? "svc" = some (modelVertex "svc" "service" "svc") := by decide
  have hquery : graph.vertices.get? "ask" = some askVertex := by decide
  have hread : Model.ofVertex (modelVertex "svc" "service" "svc") = .ok service := by rfl
  have hask : NamedQuery.ofVertex askVertex = .ok query := by rfl
  have hfree : ∀ x, service.Places graph x → ¬ graph.Constrained x :=
    fun x _ => Graph.not_constrained (by decide) x
  have hcycle : Topology.ofModel graph context service = .error (.modelCycle "top") := by
    decide +kernel
  obtain ⟨hmodels, hqueries⟩ := compilations_detect_cycles hg context
  have hfounded := (hmodels (v := modelVertex "svc" "service" "svc") hmodel hread hfree).of_error
    hcycle
  have hdetects := hqueries (v := askVertex) hquery hask
  have hcompiles : (QueryTopology.ofQuery graph context query).toOption.isSome := by
    decide +kernel
  obtain ⟨t, ht⟩ : ∃ t, QueryTopology.ofQuery graph context query = .ok t := by
    cases h : QueryTopology.ofQuery graph context query with
    | ok t => exact ⟨t, rfl⟩
    | error e => simp [h, Except.toOption] at hcompiles
  exact ⟨hg, hmodel, hread, hfree, hcycle, hfounded.cyclic "top" rfl, hquery, hask, t, ht,
    hdetects.of_ok ht⟩

end Ring

end Inventory
