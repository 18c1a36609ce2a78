import Mathlib.Data.List.Nodup
import Inventory.Proofs.Topology.Positions
import Inventory.Proofs.Trail

/-!
# Topology — places of query elements

A descent through a named query places query elements at trails. It records for
each place the steps to the elements below, and joins what all elements at one
trail ask into its directive. Its log is the list of visits: each place that can
be reached is on it once, in the order of the visits, and what is recorded is
read off it.
-/

namespace Inventory

open Definition

/-! ## Places -/

/-- The query element was read from its vertex. -/
def QueryElement.IsRead (g : Graph) (e : QueryElement) : Prop :=
  ∃ v, g.vertices.get? e.vertexId = some v ∧ QueryElement.ofVertex v = .ok e

/-- A query element placed at the trails with a key. -/
structure QueryPlace where
  element : QueryElement
  key : String

namespace QueryPlace

/-- What a descent remembers of a visit. -/
def tag (p : QueryPlace) : VertexId × String := (p.element.vertexId, p.key)

/-- The way from a place to one of an element below, with the step that is taken. -/
inductive Move (g : Graph) (ctx : Context) (p : QueryPlace) : TrailStep → QueryPlace → Prop where
  | child {children : List QueryElement} {e : QueryElement} {m : Model} {n : Nat} {s : TrailStep} :
      p.element.children g = .ok children → e ∈ children → e.model g = .ok m →
      m.step g ctx n = .ok s → Move g ctx p s ⟨e, p.key ++ "|" ++ s.render⟩

/-- The places at which a descent from a place arrives. -/
def Reaches (g : Graph) (ctx : Context) : QueryPlace → QueryPlace → Prop :=
  Relation.ReflTransGen fun p q => ∃ s, p.Move g ctx s q

/-- A place is known by its tag. -/
theorem eq_of_tag {g : Graph} {p q : QueryPlace} (hp : p.element.IsRead g)
    (hq : q.element.IsRead g) (h : p.tag = q.tag) : p = q := by
  obtain ⟨e, k⟩ := p
  obtain ⟨e', k'⟩ := q
  obtain ⟨v, hv, he⟩ := hp
  obtain ⟨v', hv', he'⟩ := hq
  obtain ⟨hid, rfl⟩ := Prod.mk.inj h
  dsimp only at hid hv hv' he he'
  rw [hid, hv'] at hv
  cases hv
  rw [he] at he'
  cases he'
  rfl

end QueryPlace

/-- The place at which the descent through a named query starts, with the root
of its topology. -/
def NamedQuery.StartsAt (g : Graph) (ctx : Context) (q : NamedQuery) (root : TrailStep)
    (p : QueryPlace) : Prop :=
  ∃ top m, q.topElement g = .ok top ∧ top.model g = .ok m ∧ m.stepAt g ctx 0 = .ok root ∧
    p = ⟨top, Trail.key ⟨root, []⟩⟩

/-- The named query places the element at the trails with a key. -/
def NamedQuery.PlacesAt (g : Graph) (ctx : Context) (q : NamedQuery) (k : String)
    (e : QueryElement) : Prop :=
  ∃ root p, q.StartsAt g ctx root p ∧ p.Reaches g ctx ⟨e, k⟩

/-! ## Reading query elements -/

theorem QueryElement.isRead_ofVertex {g : Graph} {v : Vertex}
    (hv : g.vertices.get? v.id = some v) {e : QueryElement} (h : QueryElement.ofVertex v = .ok e) :
    e.IsRead g := by
  have hid : e.vertexId = v.id := ((meets_queryElementOfVertex hv).of_ok h).1
  exact ⟨v, hid ▸ hv, h⟩

namespace Graph.WellFormed

variable {g : Graph}

theorem isRead_children (wf : g.WellFormed) {e : QueryElement} {children : List QueryElement}
    (h : e.children g = .ok children) {c : QueryElement} (hc : c ∈ children) : c.IsRead g := by
  obtain ⟨w, hw, hread⟩ := wf.read_of_targets h hc
  exact QueryElement.isRead_ofVertex hw hread

theorem isRead_topElement (wf : g.WellFormed) {q : NamedQuery} {top : QueryElement}
    (h : q.topElement g = .ok top) : top.IsRead g := by
  obtain ⟨v, hv, hread⟩ := Outcome.bind_eq_ok.mp h
  exact QueryElement.isRead_ofVertex (wf.stored_of_singleTarget hv) hread

end Graph.WellFormed

/-! ## What elements at one trail ask -/

namespace QueryElement

/-- The property constraints of an element, none where they cannot be read. -/
def asked (g : Graph) (e : QueryElement) : List PropertyConstraint :=
  (e.constraints g).toOption.getD []

/-- The related lookups of an element, none where they cannot be read. -/
def joined (g : Graph) (e : QueryElement) : List RelatedLookup :=
  (e.lookups g).toOption.getD []

/-- What the element asks can be read. -/
structure Asks (g : Graph) (e : QueryElement) : Prop where
  constraints : e.constraints g = .ok (e.asked g)
  lookups : e.lookups g = .ok (e.joined g)

theorem asks_of_ok {g : Graph} {e : QueryElement} {constraints : List PropertyConstraint}
    {lookups : List RelatedLookup} (hconstraints : e.constraints g = .ok constraints)
    (hlookups : e.lookups g = .ok lookups) : e.Asks g where
  constraints := by rw [asked, hconstraints]; rfl
  lookups := by rw [joined, hlookups]; rfl

end QueryElement

/-- The directive of a trail at which these elements are placed, in this order. -/
def Directive.ofElements (g : Graph) : List QueryElement → Option Directive
  | [] => none
  | e :: es => some ⟨e, (e :: es).flatMap (·.asked g), (e :: es).flatMap (·.joined g)⟩

theorem Directive.ofElements_concat {g : Graph} (es : List QueryElement) {e : QueryElement}
    {constraints : List PropertyConstraint} {lookups : List RelatedLookup}
    (hconstraints : e.constraints g = .ok constraints) (hlookups : e.lookups g = .ok lookups) :
    ofElements g (es ++ [e]) =
      some { (ofElements g es).getD ⟨e, [], []⟩ with
        constraints := ((ofElements g es).getD ⟨e, [], []⟩).constraints ++ constraints
        lookups := ((ofElements g es).getD ⟨e, [], []⟩).lookups ++ lookups } := by
  have hasked : e.asked g = constraints := by rw [QueryElement.asked, hconstraints]; rfl
  have hjoined : e.joined g = lookups := by rw [QueryElement.joined, hlookups]; rfl
  cases es with
  | nil => simp [ofElements, hasked, hjoined]
  | cons e' es => simp [ofElements, hasked, hjoined]

theorem Directive.element_mem_of_ofElements {g : Graph} {es : List QueryElement} {d : Directive}
    (h : ofElements g es = some d) : d.element ∈ es := by
  cases es with
  | nil => cases h
  | cons e es => cases h; exact List.mem_cons_self

/-- The elements that a log places at a key, in the order of their visits. -/
def QueryPlace.elementsAt (log : List QueryPlace) (k : String) : List QueryElement :=
  (log.filter (·.key == k)).map (·.element)

theorem QueryPlace.mem_elementsAt {log : List QueryPlace} {k : String} {e : QueryElement} :
    e ∈ elementsAt log k ↔ ⟨e, k⟩ ∈ log := by
  unfold elementsAt
  rw [List.mem_map]
  constructor
  · rintro ⟨⟨e', k'⟩, hp, rfl⟩
    obtain ⟨hmem, hk⟩ := List.mem_filter.mp hp
    rw [beq_iff_eq] at hk
    exact hk ▸ hmem
  · intro h
    exact ⟨⟨e, k⟩, List.mem_filter.mpr ⟨h, beq_self_eq_true k⟩, rfl⟩

/-! ## Logs -/

namespace QueryDescent

variable {g : Graph} {ctx : Context} {d d₁ d₂ : QueryDescent} {log log₁ log₂ : List QueryPlace}

/-- The places are those that a descent has visited, in order, and its
directives join what the elements placed at each trail ask. -/
structure Logs (g : Graph) (d : QueryDescent) (log : List QueryPlace) : Prop where
  seen : ∀ {t}, t ∈ d.seen ↔ ∃ p ∈ log, p.tag = t
  once : log.Nodup
  read : ∀ p ∈ log, p.element.IsRead g
  asks : ∀ p ∈ log, p.element.Asks g
  directives : ∀ k, d.compiled.directives.get? k =
    Directive.ofElements g (QueryPlace.elementsAt log k)
  ordered : d.compiled.topology.Ordered

theorem logs_start (g : Graph) (root : TrailStep) :
    Logs g { compiled := { topology := ⟨root, ∅⟩ } } [] where
  seen := by simp
  once := List.nodup_nil
  read := by simp
  asks := by simp
  directives _ := rfl
  ordered := Topology.ordered_root root

theorem Logs.allow (h : d.Logs g log) (trail : Trail) (s : TrailStep) :
    (d.allow trail s).Logs g log where
  seen := h.seen
  once := h.once
  read := h.read
  asks := h.asks
  directives := h.directives
  ordered := Topology.Ordered.insert h.ordered trail s

/-- A visit is logged after the earlier ones. -/
theorem Logs.see (h : d.Logs g log) {e : QueryElement} {trail : Trail}
    (hnew : (e.vertexId, trail.key) ∉ d.seen) (he : e.IsRead g)
    {constraints : List PropertyConstraint} {lookups : List RelatedLookup}
    (hconstraints : e.constraints g = .ok constraints) (hlookups : e.lookups g = .ok lookups) :
    (d.see e trail constraints lookups).Logs g (log ++ [⟨e, trail.key⟩]) where
  seen {t} := by
    rw [QueryDescent.see, List.mem_cons, h.seen]
    simp only [List.mem_append, List.mem_singleton, or_and_right, exists_or, exists_eq_left]
    rw [or_comm, eq_comm (a := t)]
    rfl
  once := by
    refine List.nodup_append.mpr ⟨h.once, List.nodup_singleton _, fun p hp q hq hpq => hnew ?_⟩
    rw [List.mem_singleton.mp hq] at hpq
    exact h.seen.mpr ⟨p, hp, by rw [hpq]; rfl⟩
  read p hp := by
    rcases List.mem_append.mp hp with hp | hp
    · exact h.read p hp
    · rw [List.mem_singleton.mp hp]
      exact he
  asks p hp := by
    rcases List.mem_append.mp hp with hp | hp
    · exact h.asks p hp
    · rw [List.mem_singleton.mp hp]
      exact QueryElement.asks_of_ok hconstraints hlookups
  directives k := by
    have hat : QueryPlace.elementsAt (log ++ [⟨e, trail.key⟩]) k =
        QueryPlace.elementsAt log k ++ if trail.key = k then [e] else [] := by
      unfold QueryPlace.elementsAt
      by_cases hk : trail.key = k <;> simp [hk]
    rw [hat, QueryDescent.see]
    simp only [Table.get?_put]
    by_cases hk : k = trail.key
    · rw [if_pos hk, if_pos hk.symm, hk, Directive.ofElements_concat _ hconstraints hlookups,
        h.directives]
    · rw [if_neg hk, if_neg (Ne.symm hk), List.append_nil, h.directives]
  ordered := h.ordered

/-- A place whose visit is remembered is logged. -/
theorem Logs.mem_of_seen (h : d.Logs g log) {p : QueryPlace} (hp : p.element.IsRead g)
    (hseen : p.tag ∈ d.seen) : p ∈ log := by
  obtain ⟨q, hq, htag⟩ := h.seen.mp hseen
  exact QueryPlace.eq_of_tag (h.read q hq) hp htag ▸ hq

/-! ## What a descent adds -/

/-- The steps from a place are recorded, and the places they lead to logged. -/
def Closed (g : Graph) (ctx : Context) (d : QueryDescent) (log : List QueryPlace)
    (p : QueryPlace) : Prop :=
  ∀ {s q}, p.Move g ctx s q → s ∈ d.compiled.topology.stepsAt p.key ∧ q ∈ log

/-- A part of a descent logs places that it can arrive at, and records the steps
from each of them. -/
structure Adds (g : Graph) (ctx : Context) (reached : QueryPlace → Prop) (d : QueryDescent)
    (log : List QueryPlace) (d' : QueryDescent) (log' : List QueryPlace) : Prop where
  logs : d'.Logs g log'
  keeps : ∀ {p}, p ∈ log → p ∈ log'
  fresh : ∀ {p}, p ∈ log' → p ∈ log ∨ (reached p ∧ Closed g ctx d' log' p)
  extension : d.compiled.topology.Extends d'.compiled.topology
  steps : ∀ {k s}, s ∈ d'.compiled.topology.stepsAt k →
    s ∈ d.compiled.topology.stepsAt k ∨ ∃ p q, reached p ∧ p.Move g ctx s q ∧ p.key = k

namespace Adds

variable {R R' : QueryPlace → Prop}

theorem refl (h : d.Logs g log) : Adds g ctx R d log d log where
  logs := h
  keeps hp := hp
  fresh hp := .inl hp
  extension := .refl _
  steps hs := .inl hs

theorem trans (h : Adds g ctx R d log d₁ log₁) (h' : Adds g ctx R d₁ log₁ d₂ log₂) :
    Adds g ctx R d log d₂ log₂ where
  logs := h'.logs
  keeps hp := h'.keeps (h.keeps hp)
  fresh hp := by
    rcases h'.fresh hp with hp | hp
    · refine (h.fresh hp).imp_right fun ⟨hr, hclosed⟩ => ⟨hr, fun hm => ?_⟩
      exact ⟨h'.extension.steps (hclosed hm).1, h'.keeps (hclosed hm).2⟩
    · exact .inr hp
  extension := h.extension.trans h'.extension
  steps hs := (h'.steps hs).elim h.steps .inr

theorem imp (h : Adds g ctx R d log d₁ log₁) (hR : ∀ {p}, R p → R' p) :
    Adds g ctx R' d log d₁ log₁ where
  logs := h.logs
  keeps := h.keeps
  fresh hp := (h.fresh hp).imp_right (And.imp_left hR)
  extension := h.extension
  steps hs := (h.steps hs).imp_right fun ⟨p, q, hp, hm⟩ => ⟨p, q, hR hp, hm⟩

/-- A step is recorded for a move from a place that is reached. -/
theorem allow (h : d.Logs g log) {trail : Trail} {e : QueryElement} {s : TrailStep}
    {q : QueryPlace} (hp : R ⟨e, trail.key⟩) (hm : QueryPlace.Move g ctx ⟨e, trail.key⟩ s q) :
    Adds g ctx R d log (d.allow trail s) log where
  logs := h.allow trail s
  keeps hp := hp
  fresh hp := .inl hp
  extension := Topology.extends_insert _ _ _
  steps hs := by
    rcases Topology.mem_stepsAt_insert.mp hs with ⟨rfl, rfl⟩ | hs
    · exact .inr ⟨_, _, hp, hm, rfl⟩
    · exact .inl hs

end Adds

/-- A visit adds what can be reached from its place, which is logged by then. -/
def VisitsAdd (g : Graph) (ctx : Context)
    (visit : QueryElement → Trail → QueryDescent → Outcome QueryDescent) : Prop :=
  ∀ {e trail d d' log}, e.IsRead g → d.Logs g log → visit e trail d = .ok d' →
    ∃ log', Adds g ctx (QueryPlace.Reaches g ctx ⟨e, trail.key⟩) d log d' log' ∧
      ⟨e, trail.key⟩ ∈ log'

section

variable {visit : QueryElement → Trail → QueryDescent → Outcome QueryDescent} {levels : Nat}
  {e : QueryElement} {trail : Trail} {d' : QueryDescent}

/-- The elements below a place are visited one after another, each one step further. -/
theorem VisitsAdd.foldlM (wf : g.WellFormed) (hvisit : VisitsAdd g ctx visit)
    {children todo : List QueryElement} (hchildren : e.children g = .ok children)
    (htodo : ∀ c ∈ todo, c ∈ children) (hd : d.Logs g log)
    (h : todo.foldlM (fun d child => do
      let step ← (← child.model g).step g ctx levels
      let _ ← ctx.catalog.rules.require trail.last.nodeType step.nodeType
      visit child (trail.extend step) (d.allow trail step)) d = .ok d') :
    ∃ log', Adds g ctx (QueryPlace.Reaches g ctx ⟨e, trail.key⟩) d log d' log' ∧
      ∀ c ∈ todo, ∀ {m n s}, c.model g = .ok m → m.step g ctx n = .ok s →
        s ∈ d'.compiled.topology.stepsAt trail.key ∧
          ⟨c, trail.key ++ "|" ++ s.render⟩ ∈ log' := by
  induction todo generalizing d log with
  | nil => cases h; exact ⟨log, .refl hd, by simp⟩
  | cons c todo ih =>
      obtain ⟨hc, hrest⟩ := List.forall_mem_cons.mp htodo
      obtain ⟨d₁, hstep, h⟩ := Outcome.foldlM_cons_eq_ok.mp h
      obtain ⟨m, hm, hstep⟩ := Outcome.bind_eq_ok.mp hstep
      obtain ⟨s, hs, hstep⟩ := Outcome.bind_eq_ok.mp hstep
      obtain ⟨_, -, hstep⟩ := Outcome.bind_eq_ok.mp hstep
      have hmove : QueryPlace.Move g ctx ⟨e, trail.key⟩ s ⟨c, trail.key ++ "|" ++ s.render⟩ :=
        .child hchildren hc hm hs
      have hallow : Adds g ctx (QueryPlace.Reaches g ctx ⟨e, trail.key⟩) d log
          (d.allow trail s) log := .allow hd .refl hmove
      obtain ⟨log₁, hadds, hmem⟩ := hvisit (wf.isRead_children hchildren hc) hallow.logs hstep
      rw [Trail.key_extend] at hadds hmem
      have hfirst := hallow.trans (hadds.imp fun hr => .head ⟨s, hmove⟩ hr)
      obtain ⟨log₂, hlater, hall⟩ := ih hrest hfirst.logs h
      refine ⟨log₂, hfirst.trans hlater, List.forall_mem_cons.mpr ⟨fun hm' hs' => ?_, hall⟩⟩
      -- the step of the child is found with other levels, but is the same
      cases hm.symm.trans hm'
      cases Model.step_unique hs hs'
      have hrecorded : s ∈ (d.allow trail s).compiled.topology.stepsAt trail.key :=
        Topology.mem_stepsAt_insert.mpr (.inl ⟨rfl, rfl⟩)
      exact ⟨hlater.extension.steps (hadds.extension.steps hrecorded), hlater.keeps hmem⟩

/-- **A descent adds what can be reached from where it starts.** -/
theorem visitsAdd_descendQuery (wf : g.WellFormed) (ancestors : List VertexId) :
    VisitsAdd g ctx (descendQuery g ctx levels ancestors) := by
  induction levels generalizing ancestors with
  | zero => intro e trail d d' log _ _ h; cases h
  | succ levels ih =>
      intro e trail d d' log he hd h
      rw [descendQuery_succ] at h
      split at h
      · cases h
      · split at h
        -- an element that was visited here before adds nothing
        · next hseen => cases h; exact ⟨log, .refl hd, hd.mem_of_seen he hseen⟩
        · next hnew =>
            obtain ⟨constraints, hconstraints, h⟩ := Outcome.bind_eq_ok.mp h
            obtain ⟨lookups, hlookups, h⟩ := Outcome.bind_eq_ok.mp h
            obtain ⟨children, hchildren, h⟩ := Outcome.bind_eq_ok.mp h
            obtain ⟨log', hadds, hall⟩ := VisitsAdd.foldlM wf (ih (e.vertexId :: ancestors))
              hchildren (fun _ hc => hc) (hd.see hnew he hconstraints hlookups) h
            refine ⟨log', ⟨hadds.logs, fun hp => hadds.keeps (List.mem_append_left _ hp),
              fun hp => ?_, hadds.extension, hadds.steps⟩, hadds.keeps (by simp)⟩
            rcases hadds.fresh hp with hp | hp
            · rcases List.mem_append.mp hp with hp | hp
              · exact .inl hp
              -- once its children have been visited, the place itself is closed
              · rw [List.mem_singleton.mp hp]
                refine .inr ⟨.refl, fun hm => ?_⟩
                obtain ⟨hchildren', hc, hm, hs⟩ := hm
                cases hchildren.symm.trans hchildren'
                exact hall _ hc hm hs
            · exact .inr hp

end

end QueryDescent

/-! ## Compiled queries -/

section

variable {g : Graph} {ctx : Context} {q : NamedQuery} {c : QueryTopology}

/-- What is compiled is what the places that can be reached ask: they are logged
once each and have been read, the steps of the topology are the moves between
them, and each directive joins what the elements placed at its trail ask. -/
structure QueryTopology.Compiles (g : Graph) (ctx : Context) (c : QueryTopology)
    (p : QueryPlace) (log : List QueryPlace) : Prop where
  once : log.Nodup
  read : ∀ x ∈ log, x.element.IsRead g
  asks : ∀ x ∈ log, x.element.Asks g
  mem_log : ∀ {x}, x ∈ log ↔ p.Reaches g ctx x
  ordered : c.topology.Ordered
  mem_steps : ∀ {k s}, s ∈ c.topology.stepsAt k ↔
    ∃ x y, p.Reaches g ctx x ∧ x.Move g ctx s y ∧ x.key = k
  directives : ∀ k, c.directives.get? k =
    Directive.ofElements g (QueryPlace.elementsAt log k)

theorem compiles_ofQuery (wf : g.WellFormed) (h : QueryTopology.ofQuery g ctx q = .ok c) :
    ∃ p log, q.StartsAt g ctx c.topology.root p ∧ c.Compiles g ctx p log := by
  obtain ⟨top, htop, h⟩ := Outcome.bind_eq_ok.mp h
  obtain ⟨m, hm, h⟩ := Outcome.bind_eq_ok.mp h
  obtain ⟨root, hroot, h⟩ := Outcome.bind_eq_ok.mp h
  obtain ⟨d, hd, h⟩ := Outcome.bind_eq_ok.mp h
  cases h
  obtain ⟨log, hadds, hmem⟩ := QueryDescent.visitsAdd_descendQuery wf [] (wf.isRead_topElement htop)
    (QueryDescent.logs_start g root) hd
  have hstart : q.StartsAt g ctx d.compiled.topology.root ⟨top, Trail.key ⟨root, []⟩⟩ := by
    rw [hadds.extension.root]
    exact ⟨top, m, htop, hm, hroot, rfl⟩
  have hfresh : ∀ {x}, x ∈ log → QueryPlace.Reaches g ctx ⟨top, Trail.key ⟨root, []⟩⟩ x ∧
      QueryDescent.Closed g ctx d log x :=
    fun hx => (hadds.fresh hx).resolve_left List.not_mem_nil
  -- the log holds the start and is closed, so it holds all that is reached
  have hreached : ∀ {x}, QueryPlace.Reaches g ctx ⟨top, Trail.key ⟨root, []⟩⟩ x → x ∈ log := by
    intro x hx
    induction hx with
    | refl => exact hmem
    | tail _ hxy ih =>
        obtain ⟨s, hxy⟩ := hxy
        exact ((hfresh ih).2 hxy).2
  refine ⟨_, log, hstart, hadds.logs.once, hadds.logs.read, hadds.logs.asks, ⟨fun hx => (hfresh hx).1, hreached⟩,
    hadds.logs.ordered, ⟨fun hs => ?_, ?_⟩, hadds.logs.directives⟩
  · rcases hadds.steps hs with hs | hs
    · cases hs
    · exact hs
  · rintro ⟨x, y, hx, hxy, rfl⟩
    exact ((hfresh (hreached hx)).2 hxy).1

theorem NamedQuery.StartsAt.unique {root root' : TrailStep} {p p' : QueryPlace}
    (h : q.StartsAt g ctx root p) (h' : q.StartsAt g ctx root' p') : root = root' ∧ p = p' := by
  obtain ⟨top, m, htop, hm, hroot, rfl⟩ := h
  obtain ⟨top', m', htop', hm', hroot', rfl⟩ := h'
  cases htop.symm.trans htop'
  cases hm.symm.trans hm'
  cases hroot.symm.trans hroot'
  exact ⟨rfl, rfl⟩

/-- There is a directive for a key exactly when an element is placed there. -/
theorem QueryTopology.Compiles.exists_directive {p : QueryPlace} {log : List QueryPlace}
    (h : c.Compiles g ctx p log) {k : String} :
    (∃ d, c.directives.get? k = some d) ↔ ∃ e, p.Reaches g ctx ⟨e, k⟩ := by
  rw [h.directives]
  constructor
  · intro ⟨d, hd⟩
    have hmem := QueryPlace.mem_elementsAt.mp (Directive.element_mem_of_ofElements hd)
    exact ⟨d.element, h.mem_log.mp hmem⟩
  · intro ⟨e, he⟩
    have hmem := QueryPlace.mem_elementsAt.mpr (h.mem_log.mpr he)
    cases hat : QueryPlace.elementsAt log k with
    | nil => rw [hat] at hmem; cases hmem
    | cons e' es => exact ⟨_, rfl⟩

/-- Every trail to which a walk along a compiled query can come has a directive. -/
theorem QueryTopology.Compiles.directive {p : QueryPlace} {log : List QueryPlace}
    (h : c.Compiles g ctx p log) (hstart : q.StartsAt g ctx c.topology.root p) {t : Trail}
    (ht : c.topology.Position t) : ∃ d, c.directives.get? t.key = some d := by
  apply h.exists_directive.mpr
  cases ht with
  | root =>
      obtain ⟨top, -, -, -, -, rfl⟩ := hstart
      exact ⟨top, .refl⟩
  | @step t s _ hs =>
      obtain ⟨x, y, hx, hxy, hk⟩ := h.mem_steps.mp (Topology.next_eq _ t ▸ hs)
      have hy := hx.tail ⟨s, hxy⟩
      obtain ⟨-, -, -, -⟩ := hxy
      rw [hk, ← Trail.key_extend] at hy
      exact ⟨_, hy⟩

end

end Inventory
