import Inventory.Proofs.NamedQuery.Results
import Inventory.Proofs.Topology.Depth

/-!
# Walk — walks that do not go too deep

A walk fails for its depth only at the end of a path with a step for each of its
levels. Such a path stands at a position of the topology that it follows. So
where positions stay within the levels no walk goes too deep, whatever the graph.
-/

namespace Inventory

/-! ## Failures -/

/-- The hook never fails. -/
def Hook.Total {σ : Type} (hook : Hook σ) : Prop :=
  ∀ {g n s e s'}, hook g n s ≠ (.error e, s')

theorem Hook.total_decorate (f : ResultNode → ResultNode) : (decorate f).Total := by
  intro g n s e s' h
  cases h

theorem QueryTopology.hook_total (q : QueryTopology) : q.hook.Total := by
  intro g n s e s' h
  unfold hook at h
  split at h <;> cases h

/-- Neighbours are missed only for a vertex that is not there. -/
theorem Graph.vertexNotFound_of_adjacent {g : Graph} {id : VertexId} {d : Direction}
    {f : EdgeFilter} {e : Error} (h : g.adjacent id d f = .error e) :
    ∃ x, e = .vertexNotFound x := by
  have hedges : (g.edgesOf id d).Meets (fun _ => True) fun e => ∃ x, e = .vertexNotFound x := by
    unfold edgesOf
    split
    · trivial
    · exact ⟨_, rfl⟩
  have hvertex : ∀ x, (g.vertex x).Meets (fun _ => True) fun e => ∃ x, e = .vertexNotFound x := by
    intro x
    unfold vertex
    split
    · trivial
    · exact ⟨_, rfl⟩
  have hadjacent : (g.adjacent id d f).Meets (fun _ => True) fun e => ∃ x, e = .vertexNotFound x :=
    hedges.bind fun _ => (Outcome.Meets.mapM fun x _ => hvertex x).imp (fun _ => trivial) fun h => h
  exact hadjacent.of_error h

section

variable {σ : Type} {hook : Hook σ} {g : Graph} {ctx : Context} {topology : Topology}
  {c c' : Collector σ}

/-- Moves fail at one of them, and with it. -/
theorem collectMoves_eq_error
    {visit : Vertex → Trail → Collector σ → Outcome (Option ResultTree) × Collector σ}
    {trail : Trail} {ms : List (TrailStep × Vertex)} {e : Error}
    (h : collectMoves visit trail ms c = (.error e, c')) :
    ∃ m ∈ ms, ∃ c₁, visit m.2 (trail.extend m.1) c₁ = (.error e, c') := by
  induction ms generalizing c with
  | nil => cases h
  | cons m ms ih =>
      rw [collectMoves_cons] at h
      have hlater : ∀ {c₁}, collectMoves visit trail ms c₁ = (.error e, c') →
          ∃ m' ∈ m :: ms, ∃ c₁, visit m'.2 (trail.extend m'.1) c₁ = (.error e, c') := by
        intro c₁ hrest
        obtain ⟨m', hm', hfails⟩ := ih hrest
        exact ⟨m', List.mem_cons_of_mem _ hm', hfails⟩
      split at h
      · exact hlater h
      · rcases followed_eq_error h with hvisit | ⟨c₁, hrest⟩
        · exact ⟨m, List.mem_cons_self, _, hvisit⟩
        · exact hlater hrest

/-- A walk fails when its count passes the limit, for a vertex that is not there,
or with a walk one step below. -/
theorem collect_eq_error (htotal : hook.Total) {levels : Nat} {v : Vertex} {trail : Trail}
    {e : Error} (h : collect g ctx topology hook (levels + 1) v trail c = (.error e, c')) :
    (e = .resultLimitExceeded ctx.limits.resultCount ∧ ctx.limits.resultCount < c'.count) ∨
      (∃ x, e = .vertexNotFound x) ∨
      ∃ s ∈ topology.next trail, ∃ w c₁,
        collect g ctx topology hook levels w (trail.extend s) c₁ = (.error e, c') := by
  unfold collect at h
  dsimp only at h
  split at h
  · next hover => cases h; exact .inl ⟨rfl, hover⟩
  · split at h
    · next hhook => exact absurd hhook htotal
    · cases h
    · cases h
    · split at h
      · cases h
      · split at h
        · next hadjacent => cases h; exact .inr (.inl (Graph.vertexNotFound_of_adjacent hadjacent))
        · split at h
          · next hmoves =>
              cases h
              obtain ⟨⟨s, w⟩, hm, c₁, hfails⟩ := collectMoves_eq_error hmoves
              exact .inr (.inr ⟨s, (mem_moves.mp hm).1, w, c₁, hfails⟩)
          · cases h

/-- A walk that goes too deep has come to a position that takes all its levels. -/
theorem collect_exceeds (htotal : hook.Total) {levels n : Nat} {v : Vertex} {trail : Trail}
    (hp : topology.Position trail)
    (h : collect g ctx topology hook levels v trail c = (.error (.depthExceeded n), c')) :
    ∃ t, topology.Position t ∧ t.below.length = trail.below.length + levels := by
  induction levels generalizing v trail c c' with
  | zero => exact ⟨trail, hp, rfl⟩
  | succ levels ih =>
      obtain ⟨hlimit, -⟩ | ⟨x, hmissing⟩ | ⟨s, hs, w, c₁, hfails⟩ := collect_eq_error htotal h
      · cases hlimit
      · cases hmissing
      · obtain ⟨t, ht, hlength⟩ := ih (hp.step hs) hfails
        refine ⟨t, ht, ?_⟩
        rw [hlength, Trail.extend, List.length_append, List.length_singleton]
        omega

/-- Along a topology within the levels no walk from a root goes too deep. -/
theorem collectFrom_not_exceeds (htotal : hook.Total)
    (hshallow : topology.Shallow ctx.limits.levels) {root : Vertex} {n : Nat} :
    collectFrom g ctx topology hook root c ≠ (.error (.depthExceeded n), c') := by
  intro h
  unfold collectFrom at h
  split at h
  · cases h
  · obtain ⟨t, ht, hlength⟩ := collect_exceeds htotal .root h
    have := hshallow t ht
    simp only [Topology.rootTrail, List.length_nil, Context.levelsFrom] at hlength
    omega

theorem collectAll_not_exceeds (htotal : hook.Total)
    (hshallow : topology.Shallow ctx.limits.levels) {roots : List Vertex} {n : Nat} :
    collectAll g ctx topology hook roots c ≠ (.error (.depthExceeded n), c') := by
  induction roots generalizing c with
  | nil => intro h; cases h
  | cons root roots ih =>
      intro h
      rw [collectAll_cons] at h
      rcases followed_eq_error h with hfrom | ⟨c₁, hrest⟩
      · exact collectFrom_not_exceeds htotal hshallow hfrom
      · exact ih hrest

end

/-! ## Instances and results -/

section

variable {g : Graph} {ctx : Context}

theorem collectDecorated_not_exceeds {topology : Topology}
    (hshallow : topology.Shallow ctx.limits.levels) (f : ResultNode → ResultNode) {root : Vertex}
    {n : Nat} : collectDecorated g ctx topology f root ≠ .error (.depthExceeded n) := by
  intro h
  unfold collectDecorated at h
  split at h
  · cases h
  · cases h
  · next hfrom =>
      cases h
      exact collectFrom_not_exceeds (Hook.total_decorate f) hshallow (Prod.ext hfrom rfl)

theorem evaluate_not_exceeds {q : QueryTopology}
    (hshallow : q.topology.Shallow ctx.limits.levels) {r : QueryRequest} {n : Nat} :
    q.evaluate g ctx r ≠ .error (.depthExceeded n) := by
  intro h
  unfold QueryTopology.evaluate at h
  split at h
  · cases h
  · rcases Outcome.bind_eq_error.mp h with h | ⟨trees, -, h⟩
    · exact collectAll_not_exceeds q.hook_total hshallow (Prod.ext h rfl)
    · cases h

end

/-- **What is compiled within the levels is walked within them.** Along the
topology of a named query, and along that of a model whose linkage paths all end
within the levels, no walk through whatever graph goes too deep under the context
of the compilation, provided the names in the topology hold no separators. -/
theorem compilations_bound_walks (g : Graph) (ctx : Context) :
    (∀ {m T}, Topology.ofModel g ctx m = .ok T → T.Legible → m.LinksWithin g ctx →
      ∀ (i : Graph) root n, collectInstance i ctx T root ≠ .error (.depthExceeded n)) ∧
    ∀ {q c}, QueryTopology.ofQuery g ctx q = .ok c → c.topology.Legible →
      ∀ (i : Graph) r n, c.evaluate i ctx r ≠ .error (.depthExceeded n) :=
  ⟨fun h hT hlinks _ _ _ => collectDecorated_not_exceeds (shallow_ofModel h hT hlinks) id,
    fun h hc _ _ _ => evaluate_not_exceeds (shallow_ofQuery h hc)⟩

/-! ### A service with a linkage path -/

namespace Linked

open Definition Pinning Walk

def linkingVertex : Vertex :=
  ⟨"top", elementType, Table.ofList [("linkage-points", .set ["b|c"])]⟩

def vertices : List Vertex :=
  [modelVertex "svc" "service" "svc", modelVertex "node" "widget" "a", linkingVertex,
    plainVertex "a", plainVertex "b", plainVertex "c"]

/-- The one element of a service ends at a linkage path of two types, and there
is an instance of it. -/
def edges : List Edge :=
  [⟨"1", "svc", "top", startsWith, ∅⟩, ⟨"2", "top", "node", isA, ∅⟩,
    ⟨"3", "a", "b", "has", ∅⟩, ⟨"4", "b", "c", "has", ∅⟩]

def graph : Graph := (Graph.ofParts vertices edges).toOption.getD .empty

def context (levels : Nat) : Context where
  catalog := ⟨⟨[Fitted.rule "a" "b", Fitted.rule "b" "c"]⟩, ∅⟩
  limits := { levels }

def topology : Topology where
  root := ⟨"a", none⟩
  entries := Table.ofList [("a", [⟨"b", none⟩]), ("a|b", [⟨"c", none⟩])]

/-- The element, placed at the root. -/
def start : Place := .start ⟨"top", none, false, [⟨["b", "c"]⟩]⟩ ⟨"a", none⟩

theorem startsAt_service {p : Place} (h : service.StartsAt graph (context 2) p) : p = start := by
  obtain ⟨-, top, root, htop, hroot, rfl⟩ := h
  have htop' : service.topElement graph = .ok start.element := by rfl
  have hroot' : service.stepAt graph (context 2) 0 = .ok ⟨"a", none⟩ := by rfl
  cases htop.symm.trans htop'
  cases hroot.symm.trans hroot'
  rfl

/-- The linkage path takes both levels. -/
theorem linksWithin_service : service.LinksWithin graph (context 2) := by
  intro s p path hs hreach hpath
  obtain rfl := startsAt_service hs
  rcases hreach.cases_head with rfl | ⟨_, ⟨_, hm⟩, -⟩
  · cases List.mem_singleton.mp hpath
    decide
  · cases hm <;> contradiction

/-- What the service with its path, and a query for hosts, are compiled to is walked
within the levels. -/
theorem compilations_bound_walks_linked :
    (Topology.ofModel graph (context 2) service = .ok topology ∧ topology.Legible ∧
      service.LinksWithin graph (context 2) ∧
      ∀ n, collectInstance graph (context 2) topology (plainVertex "a") ≠
        .error (.depthExceeded n)) ∧
    QueryTopology.ofQuery Downed.graph Downed.context Ring.query = .ok Downed.compiled ∧
      Downed.compiled.topology.Legible ∧
      ∀ n, Downed.compiled.evaluate Downed.graph Downed.context Downed.request ≠
        .error (.depthExceeded n) := by
  have hmodel : Topology.ofModel graph (context 2) service = .ok topology := by decide +kernel
  have htopology : topology.Legible := by decide +kernel
  have hcompiled : Downed.compiled.topology.Legible := by decide +kernel
  exact ⟨⟨hmodel, htopology, linksWithin_service,
      (compilations_bound_walks graph (context 2)).1 hmodel htopology linksWithin_service graph _⟩,
    Downed.ofQuery_ask, hcompiled,
    (compilations_bound_walks Downed.graph Downed.context).2 Downed.ofQuery_ask hcompiled
      Downed.graph _⟩

end Linked

/-! ### A version that reads as a trail -/

namespace Versioned

open Definition Pinning Walk

def resourceVertex (id version : String) : Vertex :=
  ⟨id, modelType, Table.ofList [("model-id", .text "x"), ("model-version", .text version),
    ("model-type", .text "resource"), ("model-name", .text "x")]⟩

/-- An instance of the first version of the resource. -/
def instanceVertex : Vertex :=
  ⟨"a", "a", Table.ofList [("persona-model-id", .text "x"), ("persona-model-version", .text "1")]⟩

def vertices : List Vertex :=
  [modelVertex "svc" "service" "svc", modelVertex "node-r" "widget" "r",
    modelVertex "node-a" "widget" "a", modelVertex "node-b" "widget" "b",
    modelVertex "node-c" "widget" "c", resourceVertex "first" "1", resourceVertex "later" "1|b",
    elementVertex "top" true, elementVertex "of-first" true, elementVertex "of-later" true,
    elementVertex "part" true, elementVertex "below-first" true, elementVertex "below-later" true,
    plainVertex "r", instanceVertex, plainVertex "b", plainVertex "c"]

/-- A service has two versions of a resource: the first with an element of type
`b`, the later one with an element of type `c`. A trail through the later version
has the key of one that goes on through the first to type `b`. -/
def edges : List Edge :=
  [⟨"1", "svc", "top", startsWith, ∅⟩, ⟨"2", "top", "node-r", isA, ∅⟩,
    ⟨"3", "top", "of-later", connectsTo, ∅⟩, ⟨"4", "of-later", "later", isA, ∅⟩,
    ⟨"5", "of-later", "below-later", connectsTo, ∅⟩, ⟨"6", "below-later", "node-c", isA, ∅⟩,
    ⟨"7", "top", "of-first", connectsTo, ∅⟩, ⟨"8", "of-first", "first", isA, ∅⟩,
    ⟨"9", "of-first", "below-first", connectsTo, ∅⟩, ⟨"10", "below-first", "node-b", isA, ∅⟩,
    ⟨"11", "later", "part", startsWith, ∅⟩, ⟨"12", "first", "part", startsWith, ∅⟩,
    ⟨"13", "part", "node-a", isA, ∅⟩, ⟨"14", "r", "a", "has", ∅⟩, ⟨"15", "a", "b", "has", ∅⟩,
    ⟨"16", "b", "c", "has", ∅⟩]

def graph : Graph := (Graph.ofParts vertices edges).toOption.getD .empty

def context : Context where
  catalog := ⟨⟨[Fitted.rule "r" "a", Fitted.rule "a" "b", Fitted.rule "a" "c",
    Fitted.rule "b" "c"]⟩, Table.ofList [("a", { persona := true })]⟩
  limits := { levels := 2 }

def first : TrailStep := ⟨"a", some ⟨"x", "1"⟩⟩

def later : TrailStep := ⟨"a", some ⟨"x", "1|b"⟩⟩

def topology : Topology where
  root := ⟨"r", none⟩
  entries := Table.ofList [("r", [first, later]), ("r|a,x,1", [⟨"b", none⟩]),
    ("r|a,x,1|b", [⟨"c", none⟩])]

end Versioned

/-- Walks can go too deep: along a linkage path that ends beyond the levels,
where all names are legible, and, without any linkage path, where the version of
a persona holds a separator. -/
theorem collectInstance_exceeds :
    (Linked.graph.Reachable ∧
      Topology.ofModel Linked.graph (Linked.context 1) Pinning.service = .ok Linked.topology ∧
      Linked.topology.Legible ∧
      collectInstance Linked.graph (Linked.context 1) Linked.topology (Walk.plainVertex "a") =
        .error (.depthExceeded 1)) ∧
    Versioned.graph.Reachable ∧
      (∀ v ∈ Versioned.graph.vertices.values, v.list "linkage-points" = []) ∧
      Topology.ofModel Versioned.graph Versioned.context Pinning.service =
        .ok Versioned.topology ∧
      (∀ s ∈ Versioned.topology.root :: Versioned.topology.entries.values.flatten,
        ',' ∉ s.nodeType.toList ∧ '|' ∉ s.nodeType.toList ∧
          ∀ p ∈ s.persona, ',' ∉ p.modelId.toList ∧ '|' ∉ p.modelId.toList) ∧
      collectInstance Versioned.graph Versioned.context Versioned.topology
        (Walk.plainVertex "r") = .error (.depthExceeded 2) := by
  refine ⟨⟨?_, by decide +kernel, by decide +kernel, by rfl⟩, ?_, by decide +kernel,
    by decide +kernel, by decide +kernel, by rfl⟩
  · exact Graph.reachable_ofParts
      (show Graph.ofParts Linked.vertices Linked.edges = .ok Linked.graph from rfl)
  · exact Graph.reachable_ofParts
      (show Graph.ofParts Versioned.vertices Versioned.edges = .ok Versioned.graph from rfl)

end Inventory
