import Inventory.Proofs.Rule.Dependence
import Inventory.Proofs.Topology.Cycle

/-!
# Topology — positions

A walk along a topology comes to its root, and from a position to any step that
may follow it. A descent lets a step follow only a trail that is a position by
then. What it asks of the trail and the step before that is therefore true of
every step of the compiled topology and some position, whether the step was noted
for a connection or a linkage path, under a sub-model or for a replaced set: so
there is a rule for every step.
-/

namespace Inventory

/-! ## Positions of a topology -/

namespace Topology

/-- The trails that a walk along a topology can come to. -/
inductive Position (T : Topology) : Trail → Prop where
  | root : Position T T.rootTrail
  | step {t : Trail} {s : TrailStep} : Position T t → s ∈ T.next t → Position T (t.extend s)

/-- Every step that is listed under a key follows a position with that key, as
it may. -/
def Checked (may : Trail → TrailStep → Prop) (T : Topology) : Prop :=
  ∀ k s, s ∈ T.stepsAt k → ∃ t, T.Position t ∧ t.key = k ∧ may t s

/-- Every step that is listed under a key follows a position with that key, and
the rules let its type connect to the one at the end of the position. -/
def RuleChecked (rules : RuleTable) (T : Topology) : Prop :=
  ∀ k s, s ∈ T.stepsAt k →
    ∃ t, T.Position t ∧ t.key = k ∧ rules.Connects t.last.nodeType s.nodeType

/-- A topology from the same root that lets the same steps follow, and more. -/
structure Extends (T T' : Topology) : Prop where
  root : T'.root = T.root
  steps : ∀ {k s}, s ∈ T.stepsAt k → s ∈ T'.stepsAt k

variable {may : Trail → TrailStep → Prop} {T T' T'' : Topology} {t : Trail} {s : TrailStep}

theorem Extends.refl (T : Topology) : T.Extends T := ⟨rfl, id⟩

theorem Extends.trans (h : T.Extends T') (h' : T'.Extends T'') : T.Extends T'' :=
  ⟨h'.root.trans h.root, fun hs => h'.steps (h.steps hs)⟩

theorem extends_insert (T : Topology) (t : Trail) (s : TrailStep) : T.Extends (T.insert t s) :=
  ⟨rfl, fun hs => mem_stepsAt_insert.mpr (.inr hs)⟩

theorem Position.mono (hp : T.Position t) (h : T.Extends T') : T'.Position t := by
  induction hp with
  | root =>
      have hroot : T.rootTrail = T'.rootTrail := by rw [rootTrail, rootTrail, h.root]
      exact hroot ▸ .root
  | step _ hs ih => exact .step ih (h.steps hs)

theorem Position.insert (hp : T.Position t) (s : TrailStep) :
    (T.insert t s).Position (t.extend s) :=
  .step (hp.mono (extends_insert T t s)) (mem_stepsAt_insert.mpr (.inl ⟨rfl, rfl⟩))

theorem checked_root (root : TrailStep) : Checked may ⟨root, ∅⟩ := by
  intro k s hs
  cases hs

theorem Checked.insert (h : T.Checked may) (hp : T.Position t) (hmay : may t s) :
    (T.insert t s).Checked may := by
  intro k s' hs
  rcases mem_stepsAt_insert.mp hs with ⟨rfl, rfl⟩ | hs
  · exact ⟨t, hp.mono (extends_insert T t s'), rfl, hmay⟩
  · obtain ⟨t', hp', hk, hmay'⟩ := h k s' hs
    exact ⟨t', hp'.mono (extends_insert T t s), hk, hmay'⟩

/-- What a part of a descent makes of a topology. -/
structure Grows (may : Trail → TrailStep → Prop) (T T' : Topology) : Prop where
  extension : T.Extends T'
  checked : T'.Checked may

theorem Grows.refl (h : T.Checked may) : T.Grows may T := ⟨.refl T, h⟩

theorem Grows.trans (h : T.Grows may T') (h' : T'.Grows may T'') : T.Grows may T'' :=
  ⟨h.extension.trans h'.extension, h'.checked⟩

theorem Grows.insert (h : T.Grows may T') (hp : T'.Position t) (hmay : may t s) :
    T.Grows may (T'.insert t s) :=
  ⟨h.extension.trans (extends_insert T' t s), h.checked.insert hp hmay⟩

end Topology

/-! ## Descents through models -/

/-- What holds of a place with so many levels left, and on after every move, lets
the steps follow that the place notes. -/
structure Sanctions (g : Graph) (ctx : Context) (may : Trail → TrailStep → Prop)
    (fit : Nat → Place → Prop) : Prop where
  hop : ∀ {n p path hops h}, fit (n + 1) p → path ∈ p.element.linkagePoints →
    linkageHops ctx.catalog.rules p.trail path = .ok hops → h ∈ hops → may h.start h.step
  /-- The visit of the place that the step leads to takes another level. -/
  step : ∀ {n p s q}, fit (n + 2) p → p.Move g ctx .topology (some s) q →
    ctx.catalog.rules.Connects p.trail.last.nodeType s.nodeType → may p.trail s
  move : ∀ {n p o q}, fit (n + 1) p → p.Move g ctx .topology o q → fit n q

section

variable {g : Graph} {ctx : Context} {levels : Nat} {may : Trail → TrailStep → Prop}
  {fit : Nat → Place → Prop} {T : Topology} {d d' : Descent} {p : Place}

/-- Each hop along node types is over a pair that has a rule, and starts before
the types are used up. -/
theorem hop_of_mem {rules : RuleTable} {trail : Trail} {ts : List NodeType} {hops : List Hop}
    (h : hopsAlong rules trail ts = .ok hops) {hop : Hop} (hm : hop ∈ hops) :
    rules.Connects hop.start.last.nodeType hop.step.nodeType ∧
      hop.start.below.length < trail.below.length + ts.length := by
  induction ts generalizing trail hops with
  | nil => cases h; cases hm
  | cons t ts ih =>
      obtain ⟨m, hrule, h⟩ := Outcome.bind_eq_ok.mp h
      obtain ⟨rest, hrest, h⟩ := Outcome.bind_eq_ok.mp h
      cases h
      rcases List.mem_cons.mp hm with rfl | hm
      · exact ⟨RuleTable.connects_of_require hrule, by simp⟩
      · obtain ⟨hconnects, hlength⟩ := ih hrest hm
        refine ⟨hconnects, ?_⟩
        simp only [Trail.extend, List.length_append, List.length_cons, List.length_nil] at hlength ⊢
        omega

/-- Each hop of a linkage path follows the one before it. -/
theorem grows_hops {rules : RuleTable} {trail : Trail} {ts : List NodeType} {hops : List Hop}
    (h : hopsAlong rules trail ts = .ok hops) (hmay : ∀ hop ∈ hops, may hop.start hop.step)
    (hd : T.Grows may d.topology) (hp : d.topology.Position trail) :
    T.Grows may (hops.foldl (fun d h => d.allow h.start h.step) d).topology := by
  induction ts generalizing trail hops d with
  | nil => cases h; exact hd
  | cons t ts ih =>
      obtain ⟨m, -, h⟩ := Outcome.bind_eq_ok.mp h
      obtain ⟨rest, hrest, h⟩ := Outcome.bind_eq_ok.mp h
      cases h
      obtain ⟨hfirst, hlater⟩ := List.forall_mem_cons.mp hmay
      have hallow : T.Grows may (d.allow trail ⟨t, none⟩).topology := hd.insert hp hfirst
      rw [List.foldl_cons]
      exact ih hrest hlater hallow (hp.insert _)

/-- What a place notes first keeps the topology checked. -/
theorem Place.grows_noteFirst {rules : RuleTable} (h : p.noteFirst rules .topology d = .ok d')
    (hmay : ∀ {path hops hop}, path ∈ p.element.linkagePoints →
      linkageHops rules p.trail path = .ok hops → hop ∈ hops → may hop.start hop.step)
    (hd : d.topology.Checked may) (hp : d.topology.Position p.trail) :
    d.topology.Grows may d'.topology := by
  unfold noteFirst at h
  split at h
  · refine Outcome.foldlM_keeps (P := fun d₁ => d.topology.Grows may d₁.topology)
      (fun path hpath d₁ d₂ hstep hd₁ => ?_) h (.refl hd)
    obtain ⟨hops, hhops, rfl⟩ := recordLinkage_step.mp hstep
    exact grows_hops hhops (fun _ => hmay hpath hhops) hd₁ (hp.mono hd₁.extension)
  · cases h
    exact .refl hd

/-- A step that a place moves over has been checked against the rules. -/
theorem Place.connects_of_mem_moves {ms : List (Option TrailStep × Place)} {s : TrailStep}
    {q : Place} (h : p.moves g ctx .topology levels = .ok ms) (hm : (some s, q) ∈ ms) :
    ctx.catalog.rules.Connects p.trail.last.nodeType s.nodeType := by
  unfold moves at h
  split at h
  · cases h
    cases hm
  · obtain ⟨cs, -, h⟩ := Outcome.bind_eq_ok.mp h
    obtain ⟨model, -, h⟩ := Outcome.bind_eq_ok.mp h
    obtain ⟨grafts, hgrafts, h⟩ := Outcome.bind_eq_ok.mp h
    obtain ⟨conns, -, h⟩ := Outcome.bind_eq_ok.mp h
    obtain ⟨onward, hover, h⟩ := Outcome.bind_eq_ok.mp h
    cases h
    rcases List.mem_append.mp hm with hm | hm
    -- no step is taken into a sub-model
    · obtain ⟨-, -, -, hnone, -⟩ := (mem_grafts hgrafts).mp hm
      cases hnone
    · obtain ⟨ms, hms, hm⟩ := List.mem_flatten.mp hm
      obtain ⟨c, -, hms⟩ := (Outcome.mem_mapM hover ms).mp hms
      obtain ⟨children, -, hms⟩ := Outcome.bind_eq_ok.mp hms
      obtain ⟨child, -, hm⟩ := (Outcome.mem_mapM hms _).mp hm
      obtain ⟨m, -, hm⟩ := Outcome.bind_eq_ok.mp hm
      obtain ⟨s', -, hm⟩ := Outcome.bind_eq_ok.mp hm
      obtain ⟨rule, hrule, hm⟩ := Outcome.bind_eq_ok.mp hm
      cases hm
      exact RuleTable.connects_of_require hrule

/-- A visit of a fit place keeps the topology checked when it starts at a position. -/
def VisitsGrow (may : Trail → TrailStep → Prop) (fit : Place → Prop)
    (visit : Scope → Element → Trail → Descent → Outcome Descent) : Prop :=
  ∀ p d d', fit p → d.topology.Checked may → d.topology.Position p.trail →
    visit p.scope p.element p.trail d = .ok d' → d.topology.Grows may d'.topology

variable {visit : Scope → Element → Trail → Descent → Outcome Descent}

/-- Following a move from a position leads to a position. -/
theorem VisitsGrow.follow {next : Place → Prop} (hvisit : VisitsGrow may next visit)
    {o : Option TrailStep} {q : Place} (hm : p.Move g ctx .topology o q)
    (hmay : ∀ s, o = some s → may p.trail s) (hq : next q)
    (hd : T.Grows may d.topology) (hp : d.topology.Position p.trail)
    (h : p.follow visit d (o, q) = .ok d') : T.Grows may d'.topology := by
  cases hm with
  | graft => exact hd.trans (hvisit _ _ _ hq hd.checked hp h)
  | @connect _ _ _ _ _ _ _ s =>
      have hallow : T.Grows may (d.allow p.trail s).topology := hd.insert hp (hmay s rfl)
      exact hallow.trans (hvisit _ _ _ hq hallow.checked (hp.insert s) h)

/-- **A descent from a position keeps the topology checked.** -/
theorem visitsGrow_descend (hs : Sanctions g ctx may fit) (levels : Nat)
    (ancestors : List VertexId) :
    VisitsGrow may (fit levels) (descend g ctx .topology levels ancestors) := by
  induction levels generalizing ancestors with
  | zero =>
      intro p d d' _ _ _ h
      cases h
  | succ levels ih =>
      intro p d d' hfit hd hp h
      rw [descend_succ] at h
      split at h
      · cases h
      · split at h
        -- an element that was visited here before adds nothing
        · cases h
          exact .refl hd
        · obtain ⟨d₁, ms, hfirst, hms, h⟩ := expand_eq_ok.mp h
          have hnotes : d.topology.Grows may d₁.topology :=
            Place.grows_noteFirst (d := d.see p.element.vertexId p.trail) hfirst (hs.hop hfit) hd hp
          refine Outcome.foldlM_keeps (P := fun d₂ => d.topology.Grows may d₂.topology)
            (fun m hm d₂ d₃ hstep hd₂ => ?_) h hnotes
          have hmove := (Place.mem_moves hms).mp hm
          refine (ih (p.element.vertexId :: ancestors)).follow hmove (fun s hsome => ?_)
            (hs.move hfit hmove) hd₂ (hp.mono hd₂.extension) hstep
          -- without a level left the visit beyond the step would have failed
          cases levels with
          | zero => cases hstep
          | succ levels =>
              rw [hsome] at hmove
              exact hs.step hfit hmove
                (Place.connects_of_mem_moves hms (s := s) (q := m.2) (hsome ▸ hm))

theorem checked_ofModel (hs : Sanctions g ctx may fit) {m : Model}
    (hstart : ∀ {p}, m.StartsAt g ctx p → fit (ctx.levelsFrom 0) p)
    (h : Topology.ofModel g ctx m = .ok T) : T.Checked may := by
  unfold Topology.ofModel at h
  split at h
  · cases h
    exact Topology.checked_root _
  · next hcomposite =>
      obtain ⟨root, hroot, h⟩ := Outcome.bind_eq_ok.mp h
      obtain ⟨top, htop, h⟩ := Outcome.bind_eq_ok.mp h
      obtain ⟨d, hd, h⟩ := Outcome.bind_eq_ok.mp h
      cases h
      exact (visitsGrow_descend hs _ _ (.start top root) { topology := ⟨root, ∅⟩ } _
        (hstart ⟨hcomposite, top, root, htop, hroot, rfl⟩) (Topology.checked_root root) .root
        hd).checked

/-- Every pair of types that a descent notes has a rule. -/
theorem sanctions_rules (g : Graph) (ctx : Context) :
    Sanctions g ctx (fun t s => ctx.catalog.rules.Connects t.last.nodeType s.nodeType)
      fun _ _ => True where
  hop _ _ hhops hm := (hop_of_mem hhops hm).1
  step _ _ hconnects := hconnects
  move _ _ := trivial

theorem ruleChecked_ofModel {m : Model} (h : Topology.ofModel g ctx m = .ok T) :
    T.RuleChecked ctx.catalog.rules :=
  checked_ofModel (sanctions_rules g ctx) (fun _ => trivial) h

end

/-! ## Descents through named queries -/

/-- What holds of a trail with so many levels left, and on one step further, lets
steps follow it for which there is a rule. -/
structure QuerySanctions (ctx : Context) (may : Trail → TrailStep → Prop)
    (fit : Nat → Trail → Prop) : Prop where
  step : ∀ {n t s}, fit (n + 2) t →
    ctx.catalog.rules.Connects t.last.nodeType s.nodeType → may t s
  move : ∀ {n t} s, fit (n + 1) t → fit n (t.extend s)

section

variable {g : Graph} {ctx : Context} {may : Trail → TrailStep → Prop} {fit : Nat → Trail → Prop}
  {d d' : QueryDescent}

/-- A descent through a named query from a fit position keeps the topology checked. -/
theorem grows_descendQuery (hs : QuerySanctions ctx may fit) {levels : Nat}
    {ancestors : List VertexId} {e : QueryElement} {trail : Trail} (hfit : fit levels trail)
    (hd : d.compiled.topology.Checked may) (hp : d.compiled.topology.Position trail)
    (h : descendQuery g ctx levels ancestors e trail d = .ok d') :
    d.compiled.topology.Grows may d'.compiled.topology := by
  induction levels generalizing ancestors e trail d d' with
  | zero => cases h
  | succ levels ih =>
      rw [descendQuery_succ] at h
      split at h
      · cases h
      · split at h
        · cases h
          exact .refl hd
        · obtain ⟨constraints, -, h⟩ := Outcome.bind_eq_ok.mp h
          obtain ⟨lookups, -, h⟩ := Outcome.bind_eq_ok.mp h
          obtain ⟨children, -, h⟩ := Outcome.bind_eq_ok.mp h
          refine Outcome.foldlM_keeps (P := fun d₁ : QueryDescent =>
            d.compiled.topology.Grows may d₁.compiled.topology)
            (fun child _ d₁ d₂ hvisit hd₁ => ?_) h (.refl hd)
          obtain ⟨m, -, hvisit⟩ := Outcome.bind_eq_ok.mp hvisit
          obtain ⟨s, -, hvisit⟩ := Outcome.bind_eq_ok.mp hvisit
          obtain ⟨rule, hrule, hvisit⟩ := Outcome.bind_eq_ok.mp hvisit
          have hp₁ : d₁.compiled.topology.Position trail := hp.mono hd₁.extension
          have hmay : may trail s := by
            cases levels with
            | zero => cases hvisit
            | succ levels => exact hs.step hfit (RuleTable.connects_of_require hrule)
          have hallow : d.compiled.topology.Grows may (d₁.allow trail s).compiled.topology :=
            hd₁.insert hp₁ hmay
          exact hallow.trans (ih (hs.move s hfit) hallow.checked (hp₁.insert s) hvisit)

theorem checked_ofQuery (hs : QuerySanctions ctx may fit)
    (hstart : ∀ root, fit (ctx.levelsFrom 0) ⟨root, []⟩) {q : NamedQuery} {c : QueryTopology}
    (h : QueryTopology.ofQuery g ctx q = .ok c) : c.topology.Checked may := by
  obtain ⟨top, -, h⟩ := Outcome.bind_eq_ok.mp h
  obtain ⟨m, -, h⟩ := Outcome.bind_eq_ok.mp h
  obtain ⟨root, -, h⟩ := Outcome.bind_eq_ok.mp h
  obtain ⟨d, hd, h⟩ := Outcome.bind_eq_ok.mp h
  cases h
  exact (grows_descendQuery (d := { compiled := { topology := ⟨root, ∅⟩ } }) hs (hstart root)
    (Topology.checked_root root) .root hd).checked

theorem querySanctions_rules (ctx : Context) :
    QuerySanctions ctx (fun t s => ctx.catalog.rules.Connects t.last.nodeType s.nodeType)
      fun _ _ => True where
  step _ hconnects := hconnects
  move _ _ := trivial

theorem ruleChecked_ofQuery {q : NamedQuery} {c : QueryTopology}
    (h : QueryTopology.ofQuery g ctx q = .ok c) : c.topology.RuleChecked ctx.catalog.rules :=
  checked_ofQuery (querySanctions_rules ctx) (fun _ => trivial) h

end

/-- **Compiled topologies are rooted and checked against the rules.** Whatever
the definitions, every step in the topology of a model or of a named query
follows a trail that leads from the root over steps of the topology, and a rule
is for the pair of types at which trail and step stand. -/
theorem compilations_ruleChecked (g : Graph) (ctx : Context) :
    (∀ {m T}, Topology.ofModel g ctx m = .ok T → T.RuleChecked ctx.catalog.rules) ∧
      ∀ {q c}, QueryTopology.ofQuery g ctx q = .ok c →
        c.topology.RuleChecked ctx.catalog.rules :=
  ⟨ruleChecked_ofModel, ruleChecked_ofQuery⟩

/-! ### A service with a part -/

namespace Fitted

open Definition Pinning Inventory.Ring

def portVertex : Vertex :=
  ⟨"port", elementType, Table.ofList [("linkage-points", .set ["c|d"])]⟩

def vertices : List Vertex :=
  [modelVertex "svc" "service" "svc", modelVertex "sub" "resource" "sub",
    modelVertex "node-a" "widget" "a", modelVertex "node-b" "widget" "b",
    modelVertex "node-c" "widget" "c", modelVertex "node-f" "widget" "f",
    elementVertex "top" true, elementVertex "part" true, elementVertex "inner" true, portVertex,
    elementVertex "pinned" true, setVertex "set", setVertex "pin", ⟨"pin-choice", choiceSetType, ∅⟩,
    ⟨"rule", setConstraintType,
      Table.ofList [("constrained-element-set-uuid-to-replace", .text "set")]⟩,
    askVertex, queryVertex "outer", queryVertex "below"]

/-- A service has a part of its own model, in which a port leads on to another
type, and pins a set of elements down to one. A query asks for the part. -/
def edges : List Edge :=
  [⟨"1", "svc", "top", startsWith, ∅⟩, ⟨"2", "top", "node-a", isA, ∅⟩,
    ⟨"3", "top", "part", connectsTo, ∅⟩, ⟨"4", "part", "sub", isA, ∅⟩,
    ⟨"5", "sub", "inner", startsWith, ∅⟩, ⟨"6", "inner", "node-b", isA, ∅⟩,
    ⟨"7", "inner", "port", connectsTo, ∅⟩, ⟨"8", "port", "node-c", isA, ∅⟩,
    ⟨"9", "top", "set", connectsTo, ∅⟩, ⟨"10", "top", "rule", uses, ∅⟩,
    ⟨"11", "rule", "pin", uses, ∅⟩, ⟨"12", "pin", "pin-choice", uses, ∅⟩,
    ⟨"13", "pin-choice", "pinned", has, ∅⟩, ⟨"14", "pinned", "node-f", isA, ∅⟩,
    ⟨"15", "ask", "outer", startsWith, ∅⟩, ⟨"16", "outer", "node-a", isA, ∅⟩,
    ⟨"17", "outer", "below", connectsTo, ∅⟩, ⟨"18", "below", "sub", isA, ∅⟩]

def graph : Graph := (Graph.ofParts vertices edges).toOption.getD .empty

def rule (source target : NodeType) : EdgeRule where
  source := source
  target := target
  label := "has"
  multiplicity := .manyToMany

/-- Instances of the part's type carry a persona. One rule is given the other way round. -/
def context : Context where
  catalog := ⟨⟨[rule "a" "b", rule "b" "c", rule "c" "d", rule "f" "a"]⟩,
    Table.ofList [("b", { persona := true })]⟩

def part : TrailStep := ⟨"b", some ⟨"sub", "1"⟩⟩

def topology : Topology where
  root := ⟨"a", none⟩
  entries := Table.ofList [("a", [part, ⟨"f", none⟩]), ("a|b,sub,1", [⟨"c", none⟩]),
    ("a|b,sub,1|c", [⟨"d", none⟩])]

/-- The step beyond the port follows the trail through the part, as a rule for
the types of port and step allows. -/
theorem compilations_ruleChecked_fitted :
    Topology.ofModel graph context service = .ok topology ∧
      (∃ t, topology.Position t ∧ t.key = "a|b,sub,1|c" ∧
        context.catalog.rules.Connects t.last.nodeType "d") ∧
      ∃ c, QueryTopology.ofQuery graph context query = .ok c ∧
        c.topology.RuleChecked context.catalog.rules := by
  have hmodel : Topology.ofModel graph context service = .ok topology := by decide +kernel
  have hcompiles : (QueryTopology.ofQuery graph context query).toOption.isSome := by
    decide +kernel
  obtain ⟨hmodels, hqueries⟩ := compilations_ruleChecked graph context
  refine ⟨hmodel, hmodels hmodel "a|b,sub,1|c" ⟨"d", none⟩ (by decide), ?_⟩
  cases h : QueryTopology.ofQuery graph context query with
  | ok c => exact ⟨c, rfl, hqueries h⟩
  | error e => simp [h, Except.toOption] at hcompiles

end Fitted

end Inventory
