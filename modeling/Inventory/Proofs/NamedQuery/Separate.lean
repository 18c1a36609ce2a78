import Inventory.Proofs.NamedQuery.Results
import Inventory.Proofs.Walk.Counted

/-!
# NamedQuery — start vertices one by one

A collector takes its visited vertices, its count and the state of its hook from
one root to the next. The visited vertices are forgotten at every root, a hook
that answers without regard to its state is not changed by it, and the count only
matters when it passes the limit. So the results of an evaluation are those that
each start vertex has alone.
-/

namespace Inventory

open ResultTree

/-! ## Hooks that answer regardless of their state -/

/-- What is made of a node does not depend on the hook's state. -/
def Hook.Stateless {σ : Type} (hook : Hook σ) : Prop :=
  ∀ g n s s', (hook g n s).1 = (hook g n s').1

/-- The answers of a hook in one of its states, as a hook without state. -/
def Hook.answersAt {σ : Type} (hook : Hook σ) (s : σ) : Hook Unit :=
  fun g n _ => ((hook g n s).1, ())

theorem Hook.Stateless.restricts {σ : Type} {hook : Hook σ} (h : hook.Stateless) (s : σ) :
    Hook.Restricts (fun _ => ()) hook (hook.answersAt s) := by
  intro g n s'
  rw [h g n s' s]
  rfl

theorem QueryTopology.hook_stateless (q : QueryTopology) : q.hook.Stateless := by
  intro g n s s'
  rfl

/-! ## Used collectors -/

section

variable {σ : Type} {g : Graph} {ctx : Context} {topology : Topology} {hook : Hook σ}

/-- The vertices that were met before do not matter at a root. -/
theorem collectFrom_forgets (root : Vertex) (c : Collector σ) (ids : List VertexId) :
    (collectFrom g ctx topology hook root { c with visited := ids }).1 =
        (collectFrom g ctx topology hook root c).1 ∧
      (collectFrom g ctx topology hook root { c with visited := ids }).2.count =
        (collectFrom g ctx topology hook root c).2.count := by
  unfold collectFrom
  split
  · exact ⟨rfl, rfl⟩
  · exact ⟨rfl, rfl⟩

/-- With a collector that has room left a walk ends as with a new one, or it fails
for the limit, which its count has then passed. -/
theorem collectFrom_used (h : hook.Stateless) (root : Vertex) {c : Collector σ} (s : σ)
    (hc : c.count ≤ ctx.limits.resultCount) :
    (collectFrom g ctx topology hook root c).1 =
        (collectFrom g ctx topology hook root { hook := s }).1 ∨
      (ctx.limits.resultCount < (collectFrom g ctx topology hook root c).2.count ∧
        (collectFrom g ctx topology hook root c).1 =
          .error (.resultLimitExceeded ctx.limits.resultCount)) := by
  -- the same walks with a hook that has no state
  have hplain : ∀ c : Collector σ,
      collectFrom g ctx topology (hook.answersAt s) root (c.withHook fun _ => ()) =
        Outcome.through (fun _ => ()) (collectFrom g ctx topology hook root c) :=
    collectFrom_through (h.restricts s) root
  have hused : (collectFrom g ctx topology (hook.answersAt s) root (c.withHook fun _ => ())).1 =
        (collectFrom g ctx topology hook root c).1 ∧
      (collectFrom g ctx topology (hook.answersAt s) root (c.withHook fun _ => ())).2.count =
        (collectFrom g ctx topology hook root c).2.count := by
    rw [hplain]
    exact ⟨rfl, rfl⟩
  have hfresh : (collectFrom g ctx topology (hook.answersAt s) root { hook := () }).1 =
      (collectFrom g ctx topology hook root { hook := s }).1 := by
    have hthrough := hplain { hook := s }
    exact congrArg Prod.fst hthrough
  have hforgets := @collectFrom_forgets Unit g ctx topology (hook.answersAt s) root
    (c.withHook fun _ => ()) []
  have hcut : CutShort c.count ctx.limits.resultCount
      (collectFrom g ctx topology (hook.answersAt s) root { hook := () })
      (collectFrom g ctx topology (hook.answersAt s) root
        { c.withHook (fun _ => ()) with visited := [] }) :=
    collectFrom_cutShort (c := { hook := () }) (Nat.le_add_left _ _) root hc
  rw [← hused.1, ← hused.2, ← hforgets.1, ← hforgets.2, ← hfresh]
  rcases hcut with ⟨-, hsame⟩ | ⟨-, hover, hfails⟩
  · have hsame := congrArg Prod.fst hsame
    exact .inl hsame
  · exact .inr ⟨hover, hfails⟩

/-- **A used collector is as good as a new one**, as long as its count stays within
the limit. -/
theorem collectFrom_reused (h : hook.Stateless) {root : Vertex} {c : Collector σ} (s : σ)
    (hroom : (collectFrom g ctx topology hook root c).2.count ≤ ctx.limits.resultCount) :
    (collectFrom g ctx topology hook root c).1 =
      (collectFrom g ctx topology hook root { hook := s }).1 := by
  have hc : c.count ≤ ctx.limits.resultCount := Nat.le_trans (count_le_collectFrom root c) hroom
  rcases collectFrom_used h root s hc with hsame | ⟨hover, -⟩
  · exact hsame
  · exact absurd hroom (Nat.not_le.mpr hover)

/-- What is collected from a root with a used collector is collected with a new one. -/
theorem collectFrom_ok_fresh (h : hook.Stateless) {root : Vertex} {c c' : Collector σ} (s : σ)
    {found : Option ResultTree}
    (hrun : collectFrom g ctx topology hook root c = (.ok found, c')) :
    (collectFrom g ctx topology hook root { hook := s }).1 = .ok found := by
  have hroom : c.count + 1 ≤ ctx.limits.resultCount := (collect_eq_ok (collectFrom_eq_ok hrun).2).1
  rcases collectFrom_used h root s (Nat.le_of_succ_le hroom) with hsame | ⟨-, hfails⟩
  · rw [← hsame, hrun]
  · rw [hrun] at hfails
    cases hfails

end

/-! ## One start alone -/

namespace QueryTopology

variable {q : QueryTopology} {g : Graph} {ctx : Context} {r : QueryRequest}

/-- Run a compiled named query from given start vertices. -/
def evaluateFrom (g : Graph) (ctx : Context) (q : QueryTopology) (r : QueryRequest)
    (starts : List Vertex) : Outcome (List ResultTree) :=
  match starts with
  | [] => .error (.noStartVertex q.topology.root.render)
  | starts => do
    let trees ← (collectAll g ctx q.topology q.hook starts { hook := () }).1
    .ok ((collapseAll trees).filter r.selects)

/-- A request is evaluated from its start vertices. -/
theorem evaluate_eq_evaluateFrom :
    q.evaluate g ctx r = q.evaluateFrom g ctx r (q.starts g r.startFilters) := by
  unfold evaluate evaluateFrom
  cases q.starts g r.startFilters with
  | nil => rfl
  | cons start starts =>
      unfold QueryRequest.selects
      cases r.secondary with
      | none => simp
      | some f => rfl

/-- Alone, a start has the results that come from what is collected under it. -/
theorem evaluateFrom_singleton {start : Vertex} {found : Option ResultTree}
    (h : (collectFrom g ctx q.topology q.hook start { hook := () }).1 = .ok found) :
    q.evaluateFrom g ctx r [start] = .ok (r.results found) := by
  cases hrun : collectFrom g ctx q.topology q.hook start { hook := () } with
  | mk outcome c =>
      rw [hrun] at h
      cases h
      show (do
        let trees ← (collectAll g ctx q.topology q.hook [start] { hook := () }).1
        .ok ((collapseAll trees).filter r.selects)) = Except.ok (r.results found)
      rw [collectAll_cons, hrun, followed_ok]
      show Except.ok ((collapseAll (found.toList ++ [])).filter r.selects) = .ok (r.results found)
      rw [List.append_nil]
      rfl

/-- The start vertices rise by their ids. -/
theorem starts_rising (wf : g.WellFormed) (filters : List PropertyFilter) :
    (q.starts g filters).Pairwise (fun v w => v.id < w.id) :=
  (wf.vertices_rising.filter _).filter _

end QueryTopology

/-- **Start vertices do not influence each other.** An evaluation that succeeds
returns, by rising id of the start vertices, what the same evaluation from each of
them alone returns. More generally a collector whose hook answers regardless of
its state collects from a root what a new one collects, whatever it was used for
before, when its count stays within the limit. -/
theorem evaluate_separately {q : QueryTopology} {g : Graph} (hg : g.Reachable) {ctx : Context}
    {r : QueryRequest} {results : List ResultTree} (h : q.evaluate g ctx r = .ok results) :
    (q.starts g r.startFilters).Pairwise (fun v w => v.id < w.id) ∧
      q.evaluateFrom g ctx r (q.starts g r.startFilters) = .ok results ∧
      (∃ groups, results = groups.flatten ∧
        List.Forall₂ (fun start ts => q.evaluateFrom g ctx r [start] = .ok ts)
          (q.starts g r.startFilters) groups) ∧
      ∀ {σ : Type} (topology : Topology) (hook : Hook σ), hook.Stateless →
        ∀ (root : Vertex) (c : Collector σ) (s : σ),
          (collectFrom g ctx topology hook root c).2.count ≤ ctx.limits.resultCount →
          (collectFrom g ctx topology hook root c).1 =
            (collectFrom g ctx topology hook root { hook := s }).1 := by
  refine ⟨QueryTopology.starts_rising hg.wellFormed _, ?_, ?_, ?_⟩
  · rw [← QueryTopology.evaluate_eq_evaluateFrom, h]
  · obtain ⟨founds, rfl, hall⟩ := QueryTopology.evaluate_eq_ok h
    refine ⟨founds.map r.results, rfl, ?_⟩
    rw [List.forall₂_map_right_iff]
    apply hall.imp
    intro start found ⟨c₁, c₂, hrun⟩
    exact QueryTopology.evaluateFrom_singleton (collectFrom_ok_fresh q.hook_stateless () hrun)
  · intro σ topology hook hstateless root c s hroom
    exact collectFrom_reused hstateless s hroom

/-! ### A card that hosts share -/

namespace Shared

def host (id state : String) : Vertex := ⟨id, "host", Table.ofList [("state", .text state)]⟩

def card : Vertex := ⟨"card", "card", ∅⟩

def vertices : List Vertex := [host "a" "up", host "b" "down", host "c" "up", card]

def edges : List Edge :=
  [⟨"1", "a", "card", "has", ∅⟩, ⟨"2", "b", "card", "has", ∅⟩, ⟨"3", "c", "card", "has", ∅⟩]

def graph : Graph := (Graph.ofParts vertices edges).toOption.getD .empty

theorem reachable_graph : graph.Reachable :=
  Graph.reachable_ofParts (show Graph.ofParts vertices edges = .ok graph from rfl)

/-- The cards of the hosts that are up. -/
def compiled : QueryTopology where
  topology := ⟨⟨"host", none⟩, Table.ofList [("host", [⟨"card", none⟩])]⟩
  directives := Table.ofList
    [("host", ⟨⟨"ask-host", false, [], none⟩, [⟨.equals, "state", "up"⟩], []⟩),
      ("host|card", ⟨⟨"ask-card", false, [], none⟩, [], []⟩)]

/-- A host with the card below it. -/
def tree (id : String) : ResultTree :=
  .node ⟨host id "up", "host", false, false, none, ∅, ∅⟩
    [.node ⟨card, "host|card", false, false, none, ∅, ∅⟩ []]

def request : QueryRequest := { query := "ask" }

theorem evaluate_shared : compiled.evaluate graph {} request = .ok [tree "a", tree "c"] := by rfl

/-- The card is found under both hosts that are up, as it is for each alone, and the
host that is dropped between them changes nothing. -/
theorem evaluate_separately_shared :
    graph.Reachable ∧ compiled.evaluate graph {} request = .ok [tree "a", tree "c"] ∧
      ∃ groups, [tree "a", tree "c"] = groups.flatten ∧
        List.Forall₂ (fun start ts => compiled.evaluateFrom graph {} request [start] = .ok ts)
          (compiled.starts graph request.startFilters) groups := by
  obtain ⟨-, -, hgroups, -⟩ := evaluate_separately reachable_graph evaluate_shared
  exact ⟨reachable_graph, evaluate_shared, hgroups⟩

end Shared

end Inventory
