import Mathlib.Data.List.Forall2
import Inventory.NamedQuery
import Inventory.Proofs.Topology.QueryPlaces
import Inventory.Proofs.Walk.Passed

/-!
# NamedQuery — what the results are

A named query walks from each of its start vertices in turn. At every trail of
the walk a directive says what is asked of the vertices there, and the walk goes
on only below vertices that meet it. Afterwards the nodes that are not for
output give way to their children, which moves the others up in their tree but
changes neither their vertices nor their trails.
-/

namespace Inventory

open Meeting ResultTree

/-! ## The hook of a query -/

namespace QueryTopology

variable {q : QueryTopology} {g : Graph}

theorem hook_keeps (q : QueryTopology) : q.hook.Keeps := by
  intro g n s k n' s' h
  unfold hook at h
  split at h <;> cases h <;> exact ⟨rfl, rfl⟩

theorem hook_opens (q : QueryTopology) : q.hook.Opens := by
  intro g n s k n' s' h
  unfold hook at h
  split at h
  · cases h
    exact Visit.noConfusion
  · cases h
    split <;> exact Visit.noConfusion

/-- The vertex meets the constraints of the directive of its trail. -/
def Accepts (q : QueryTopology) (p : Meeting) : Prop :=
  ∃ d, q.directives.get? p.trail.key = some d ∧ ∀ c ∈ d.constraints, c.holds p.vertex = true

/-- What a directive makes of a vertex at a trail whose constraints it meets. -/
def Directed (q : QueryTopology) (g : Graph) (n : ResultNode) : Prop :=
  ∃ d, q.directives.get? n.trail = some d ∧ (∀ c ∈ d.constraints, c.holds n.vertex = true) ∧
    n = d.decorate g { vertex := n.vertex, trail := n.trail }

/-- Where there is a directive, what passes the hook is as it directs. -/
theorem directed_of_passes {n : ResultNode} (h : q.hook.Passes g n) {d : Directive}
    (hd : q.directives.get? n.trail = some d) : q.Directed g n := by
  obtain ⟨v, k, s, how, s', hrun, hkept⟩ := h
  obtain ⟨hvertex, htrail⟩ := q.hook_keeps hrun
  dsimp only at hvertex htrail
  subst hvertex htrail
  simp only [hook, hd] at hrun
  obtain ⟨hhow, hnode⟩ := Prod.mk.inj (Except.ok.inj (Prod.mk.inj hrun).1)
  cases hadmits : d.admits n.vertex with
  | true => exact ⟨d, hd, List.all_eq_true.mp hadmits, hnode.symm⟩
  | false =>
      rw [hadmits] at hhow
      exact absurd hhow.symm hkept

/-! ## Starts -/

/-- A vertex from which a query is walked: a stored one of the root's type that
fits the root step and meets all start filters. -/
structure Starts (q : QueryTopology) (g : Graph) (filters : List PropertyFilter) (v : Vertex) :
    Prop where
  stored : g.vertices.get? v.id = some v
  type : v.nodeType = q.topology.root.nodeType
  fits : q.topology.root.fits v = true
  meets : v.meets filters = true

theorem starts_of_mem (wf : g.WellFormed) {filters : List PropertyFilter} {v : Vertex}
    (h : v ∈ q.starts g filters) : q.Starts g filters v := by
  obtain ⟨h, hfits⟩ := List.mem_filter.mp h
  obtain ⟨h, hfound⟩ := List.mem_filter.mp h
  obtain ⟨k, hk⟩ := Table.mem_values.mp h
  simp only [Bool.and_eq_true, beq_iff_eq] at hfound
  exact ⟨wf.vertex_id hk ▸ hk, hfound.1, hfits, hfound.2⟩

/-- A chain of neighbours leads from a start to a meeting. Each but the start
fits a next step of the trail of the one before it, and meets the constraints of
its own trail. -/
def Leads (q : QueryTopology) (g : Graph) (start : Vertex) : Meeting → Prop :=
  Relation.ReflTransGen (fun p p' => Onward g q.topology p p' ∧ q.Accepts p')
    (q.topology.start start)

end QueryTopology

/-! ## Several starts -/

/-- The trees under several roots are those under each of them, one after another. -/
theorem collectAll_eq_ok {σ : Type} {g : Graph} {ctx : Context} {topology : Topology}
    {hook : Hook σ} {roots : List Vertex} {c c' : Collector σ} {ts : List ResultTree}
    (h : collectAll g ctx topology hook roots c = (.ok ts, c')) :
    ∃ founds : List (Option ResultTree), ts = founds.flatMap Option.toList ∧
      List.Forall₂ (fun root found => ∃ c₁ c₂,
        collectFrom g ctx topology hook root c₁ = (.ok found, c₂)) roots founds := by
  induction roots generalizing c ts with
  | nil => cases h; exact ⟨[], rfl, .nil⟩
  | cons root roots ih =>
      rw [collectAll_cons] at h
      obtain ⟨found, c₁, trees, hfound, hrest, rfl⟩ := followed_eq_ok h
      obtain ⟨founds, rfl, hall⟩ := ih hrest
      exact ⟨found :: founds, rfl, .cons ⟨_, _, hfound⟩ hall⟩

/-- Whether a tree is among the results of a request. -/
def QueryRequest.selects (r : QueryRequest) (t : ResultTree) : Bool :=
  match r.secondary with
  | some f => t.anyMatches f.nodeType f.name f.value
  | none => true

/-- The results that come from what was collected under one start. -/
def QueryRequest.results (r : QueryRequest) (found : Option ResultTree) : List ResultTree :=
  (collapseAll found.toList).filter r.selects

/-- The nodes of results are nodes that were collected and are for output. -/
theorem QueryRequest.results_sublist (r : QueryRequest) (found : Option ResultTree) :
    (preorderAll (r.results found)).Sublist
      ((preorderAll found.toList).filter (!·.doNotOutput)) := by
  rw [← preorderAll_collapseAll]
  exact preorderAll_sublist List.filter_sublist

/-- The results are those of each start, one after another. -/
theorem QueryRequest.results_flatMap (r : QueryRequest) (founds : List (Option ResultTree)) :
    (collapseAll (founds.flatMap Option.toList)).filter r.selects =
      (founds.map r.results).flatten := by
  induction founds with
  | nil => rfl
  | cons found founds ih =>
      rw [List.flatMap_cons, collapseAll_append, List.filter_append, ih]
      rfl

/-! ## Results -/

namespace QueryTopology

variable {q : QueryTopology} {g : Graph} {ctx : Context} {r : QueryRequest}

/-- The results of an evaluation are what was collected under each start. -/
theorem evaluate_eq_ok {results : List ResultTree} (h : q.evaluate g ctx r = .ok results) :
    ∃ founds, results = (founds.map r.results).flatten ∧
      List.Forall₂ (fun start found => ∃ c₁ c₂,
          collectFrom g ctx q.topology q.hook start c₁ = (.ok found, c₂))
        (q.starts g r.startFilters) founds := by
  unfold evaluate at h
  split at h
  · cases h
  · obtain ⟨trees, htrees, h⟩ := Outcome.bind_eq_ok.mp h
    obtain ⟨founds, rfl, hall⟩ := collectAll_eq_ok (Prod.ext htrees rfl)
    refine ⟨founds, ?_, hall⟩
    rw [← r.results_flatMap, ← Except.ok.inj h]
    unfold QueryRequest.selects
    cases r.secondary with
    | none => simp
    | some f => rfl

/-- A node of a result: it is for output and as its directive says, and a chain
of accepted neighbours leads to it from the start. -/
structure Shows (q : QueryTopology) (g : Graph) (start : Vertex) (n : ResultNode) : Prop where
  visible : n.doNotOutput = false
  directed : q.Directed g n
  led : ∃ trail, trail.key = n.trail ∧ q.Leads g start ⟨n.vertex, trail⟩

/-- What one start contributes to the results. -/
structure Contributes (q : QueryTopology) (g : Graph) (ctx : Context) (r : QueryRequest)
    (start : Vertex) (ts : List ResultTree) : Prop where
  starts : q.Starts g r.startFilters start
  accepted : ts ≠ [] → q.Accepts (q.topology.start start)
  walked : ∃ c c' found, collectFrom g ctx q.topology q.hook start c = (.ok found, c') ∧
    ts = r.results found
  /-- No vertex stands twice. -/
  once : (idsAll ts).Nodup
  shown : ∀ n ∈ preorderAll ts, q.Shows g start n

/-- Every trail that a walk can come to has a directive. -/
def Covers (q : QueryTopology) : Prop :=
  ∀ t, q.topology.Position t → ∃ d, q.directives.get? t.key = some d

theorem covers_ofQuery (hg : g.Reachable) {query : NamedQuery}
    (h : QueryTopology.ofQuery g ctx query = .ok q) : q.Covers := by
  obtain ⟨p, log, hstart, hcompiles⟩ := compiles_ofQuery hg.wellFormed h
  exact fun _ ht => hcompiles.directive hstart ht

/-- A legal path comes to a position of the topology. -/
theorem position_of_legal {topology : Topology} {start : Vertex} {p : Meeting}
    (h : Legal g topology (topology.start start) p) : topology.Position p.trail := by
  induction h with
  | refl => exact .root
  | tail _ hpq ih =>
      obtain ⟨-, hs, -, -, -⟩ := hpq
      exact .step ih hs

/-- Every node that is collected under a start is directed and led to. -/
theorem directed_of_collected (wf : g.WellFormed) (hcovers : q.Covers) {start : Vertex}
    (hstart : g.vertices.get? start.id = some start) {t : ResultTree} {c c' : Collector Unit}
    (h : collectFrom g ctx q.topology q.hook start c = (.ok (some t), c')) {n : ResultNode}
    (hn : n ∈ t.preorder) :
    q.Directed g n ∧ ∃ trail, trail.key = n.trail ∧ q.Leads g start ⟨n.vertex, trail⟩ := by
  obtain ⟨-, hvertex, htrail, hgrows⟩ := collectFrom_grows wf q.hook_keeps hstart h
  -- first a path to every node, hence its directive, which the hook has applied
  have hall : ∀ n ∈ t.preorder, q.Directed g n := by
    intro n hn
    obtain ⟨d, s, hs, rfl⟩ := at_of_mem_preorder hn
    obtain ⟨trail, hpath, hkey, -⟩ :=
      hgrows.path (A := fun _ _ => True) hvertex htrail (fun _ _ => trivial) hs
    have hlegal : Legal g q.topology (q.topology.start start) ⟨s.top.vertex, trail⟩ :=
      Relation.ReflTransGen.mono (fun _ _ h => h.1) _ _ hpath
    obtain ⟨d, hd⟩ := hcovers _ (position_of_legal hlegal)
    exact directed_of_passes (collect_passes (collectFrom_eq_ok h).2 hn) (hkey ▸ hd)
  -- then a path of which every vertex is accepted
  refine ⟨hall n hn, ?_⟩
  obtain ⟨d, s, hs, rfl⟩ := at_of_mem_preorder hn
  obtain ⟨trail, hpath, hkey, -⟩ := hgrows.path (A := fun k v => ∃ d,
      q.directives.get? k = some d ∧ ∀ c ∈ d.constraints, c.holds v = true) hvertex htrail
    (fun n hn => (hall n hn).imp fun d hd => ⟨hd.1, hd.2.1⟩) hs
  exact ⟨trail, hkey, hpath⟩

theorem contributes_of_collected (wf : g.WellFormed) (hcovers : q.Covers) {start : Vertex}
    (hstart : q.Starts g r.startFilters start) {found : Option ResultTree} {c c' : Collector Unit}
    (h : collectFrom g ctx q.topology q.hook start c = (.ok found, c')) :
    q.Contributes g ctx r start (r.results found) := by
  have hsub := r.results_sublist found
  refine ⟨hstart, fun hne => ?_, ⟨c, c', found, h, rfl⟩, ?_, fun n hn => ?_⟩
  · cases found with
    | none => exact absurd rfl hne
    | some t =>
        obtain ⟨-, hvertex, htrail, -⟩ := collectFrom_grows wf q.hook_keeps hstart.stored h
        obtain ⟨⟨d, hd, hholds, -⟩, -⟩ := directed_of_collected wf hcovers hstart.stored h
          (At.here t).mem_preorder
        rw [htrail] at hd
        rw [hvertex] at hholds
        exact ⟨d, hd, hholds⟩
  · have honce : (idsAll found.toList).Nodup := by
      cases found with
      | none => exact List.nodup_nil
      | some t => simpa using (collectFrom_grows wf q.hook_keeps hstart.stored h).1
    exact honce.sublist ((hsub.trans List.filter_sublist).map _)
  · obtain ⟨hn, hvisible⟩ := List.mem_filter.mp (hsub.subset hn)
    cases found with
    | none => cases hn
    | some t =>
        have hcollected : n ∈ t.preorder := by simpa [preorderAll] using hn
        obtain ⟨hdirected, hled⟩ :=
          directed_of_collected wf hcovers hstart.stored h hcollected
        exact ⟨by simpa using hvisible, hdirected, hled⟩

end QueryTopology

/-- **The results of a named query respect its constraints.** Whatever the
graph, the compiled query and the request, the results come from the start
vertices one after another: stored vertices of the root's type that fit the root
step and meet every start filter. No vertex stands twice in what comes from one
start. Each node is for output, meets all constraints of the directive of its
trail, and is at the end of a chain of neighbours from the start, each of which
fits the step of its trail and meets all constraints there. -/
theorem evaluate_contributes {g g₀ : Graph} (hg : g.Reachable) (hg₀ : g₀.Reachable)
    {ctx ctx₀ : Context} {query : NamedQuery} {q : QueryTopology}
    (hq : QueryTopology.ofQuery g₀ ctx₀ query = .ok q) {r : QueryRequest}
    {results : List ResultTree} (h : q.evaluate g ctx r = .ok results) :
    ∃ groups, results = groups.flatten ∧
      List.Forall₂ (q.Contributes g ctx r) (q.starts g r.startFilters) groups := by
  obtain ⟨founds, rfl, hall⟩ := QueryTopology.evaluate_eq_ok h
  have hstarts : ∀ v ∈ q.starts g r.startFilters, q.Starts g r.startFilters v :=
    fun _ => QueryTopology.starts_of_mem hg.wellFormed
  have hcovers := QueryTopology.covers_ofQuery hg₀ hq
  refine ⟨founds.map r.results, rfl, ?_⟩
  clear h
  generalize q.starts g r.startFilters = starts at hall hstarts
  induction hall with
  | nil => exact .nil
  | cons hrun _ ih =>
      obtain ⟨hstart, hrest⟩ := List.forall_mem_cons.mp hstarts
      obtain ⟨c₁, c₂, hrun⟩ := hrun
      exact .cons (QueryTopology.contributes_of_collected hg.wellFormed hcovers hstart hrun)
        (ih hrest)

/-! ### A link that is down -/

namespace Downed

open Definition Pinning Inventory.Ring

def upVertex : Vertex :=
  ⟨"up", propertyConstraintType, Table.ofList [("constraint-type", .text "EQUALS"),
    ("property-name", .text "state"), ("property-value", .text "up")]⟩

def host : Vertex := ⟨"host", "host", ∅⟩

def card : Vertex := ⟨"card", "card", ∅⟩

def link : Vertex := ⟨"link", "link", Table.ofList [("state", .text "down")]⟩

def vertices : List Vertex :=
  [modelVertex "host-model" "widget" "host", modelVertex "card-model" "widget" "card",
    modelVertex "link-model" "widget" "link", askVertex, queryVertex "ask-host",
    queryVertex "ask-card", queryVertex "ask-used", queryVertex "ask-link", upVertex,
    host, card, link]

/-- A query asks for the cards of hosts with the links that are up, and for all
links of hosts. A host has a card and a link that is down, which the card uses. -/
def edges : List Edge :=
  [⟨"1", "ask", "ask-host", startsWith, ∅⟩, ⟨"2", "ask-host", "host-model", isA, ∅⟩,
    ⟨"3", "ask-host", "ask-card", connectsTo, ∅⟩, ⟨"4", "ask-card", "card-model", isA, ∅⟩,
    ⟨"5", "ask-card", "ask-used", connectsTo, ∅⟩, ⟨"6", "ask-used", "link-model", isA, ∅⟩,
    ⟨"7", "ask-used", "up", uses, ∅⟩, ⟨"8", "ask-host", "ask-link", connectsTo, ∅⟩,
    ⟨"9", "ask-link", "link-model", isA, ∅⟩, ⟨"10", "host", "card", "has", ∅⟩,
    ⟨"11", "card", "link", "has", ∅⟩, ⟨"12", "host", "link", "has", ∅⟩]

def graph : Graph := (Graph.ofParts vertices edges).toOption.getD .empty

def context : Context where
  catalog := ⟨⟨[Fitted.rule "host" "card", Fitted.rule "host" "link",
    Fitted.rule "card" "link"]⟩, ∅⟩

/-- The constraint that only the link of the card fails. -/
def up : PropertyConstraint := ⟨.equals, "state", "up"⟩

/-- What the query is compiled to: only the links of cards must be up. -/
def compiled : QueryTopology where
  topology := ⟨⟨"host", none⟩, Table.ofList [("host", [⟨"card", none⟩, ⟨"link", none⟩]),
    ("host|card", [⟨"link", none⟩])]⟩
  directives := Table.ofList [("host", ⟨⟨"ask-host", false, [], none⟩, [], []⟩),
    ("host|card", ⟨⟨"ask-card", false, [], none⟩, [], []⟩),
    ("host|card|link", ⟨⟨"ask-used", false, [], none⟩, [up], []⟩),
    ("host|link", ⟨⟨"ask-link", false, [], none⟩, [], []⟩)]

def request : QueryRequest := { query := "ask" }

/-- What is found: the link is dropped where it is met below the card. -/
def found : ResultTree :=
  .node ⟨host, "host", false, false, none, ∅, ∅⟩
    [.node ⟨card, "host|card", false, false, none, ∅, ∅⟩ []]

theorem reachable_graph : graph.Reachable :=
  Graph.reachable_ofParts (show Graph.ofParts vertices edges = .ok graph from rfl)

theorem ofQuery_ask : QueryTopology.ofQuery graph context query = .ok compiled := by rfl

theorem evaluate_ask : compiled.evaluate graph context request = .ok [found] := by rfl

/-- All that comes from the host is accepted at its trail. -/
theorem evaluate_contributes_host :
    graph.Reachable ∧ QueryTopology.ofQuery graph context query = .ok compiled ∧
      compiled.evaluate graph context request = .ok [found] ∧
      ∃ groups, [found] = groups.flatten ∧
        List.Forall₂ (compiled.Contributes graph context request)
          (compiled.starts graph request.startFilters) groups :=
  ⟨reachable_graph, ofQuery_ask, evaluate_ask,
    evaluate_contributes reachable_graph reachable_graph ofQuery_ask evaluate_ask⟩

end Downed

end Inventory
