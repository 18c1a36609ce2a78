import Inventory.Proofs.NamedQuery.Directed
import Inventory.Proofs.Walk.Counted

/-!
# NamedQuery — what the result limit limits

The limit on the result count is one on the nodes that an evaluation looks at. A
vertex that fails a constraint is counted before it is dropped, so a query may
pass the limit by vertices that are in no result.
-/

namespace Inventory

open ResultTree

/-! ## Evaluations under a limit -/

namespace QueryTopology

variable {q : QueryTopology} {g : Graph} {ctx : Context} {r : QueryRequest}

/-- What the walks from the start vertices of a request end with, before hidden
nodes give way. -/
def collected (q : QueryTopology) (g : Graph) (ctx : Context) (r : QueryRequest) :
    Outcome (List ResultTree) × Collector Unit :=
  collectAll g ctx q.topology q.hook (q.starts g r.startFilters) { hook := () }

/-- Only evaluations of trees with more nodes than the limit fail for it. -/
def LimitsResults (q : QueryTopology) (g : Graph) (ctx : Context) (r : QueryRequest)
    (ts : List ResultTree) : Prop :=
  ∀ limit, q.evaluate g (ctx.within limit) r = .error (.resultLimitExceeded limit) →
    limit < sizeAll ts

/-- An evaluation fails for the limit exactly when its walks do. -/
theorem evaluate_eq_limit_iff {n : Nat} :
    q.evaluate g ctx r = .error (.resultLimitExceeded n) ↔
      (q.collected g ctx r).1 = .error (.resultLimitExceeded n) := by
  unfold evaluate collected
  cases q.starts g r.startFilters with
  | nil =>
      constructor
      · intro h; cases h
      · intro h; cases h
  | cons start starts =>
      constructor
      · intro h
        rcases Outcome.bind_eq_error.mp h with h | ⟨trees, -, h⟩
        · exact h
        · cases h
      · intro h
        exact Outcome.bind_eq_error.mpr (.inl h)

theorem evaluate_within_iff {limit : Nat} (hlimit : limit ≤ ctx.limits.resultCount) :
    q.evaluate g (ctx.within limit) r = .error (.resultLimitExceeded limit) ↔
      limit < (q.collected g ctx r).2.count :=
  evaluate_eq_limit_iff.trans (collectAll_limit_iff q.hook_total hlimit (Nat.zero_le _))

/-- Under a lower limit than that of the walks, it is passed by the nodes that
they look at. -/
theorem evaluate_within_iff_sightings {limit : Nat} (hlimit : limit < ctx.limits.resultCount) :
    q.evaluate g (ctx.within limit) r = .error (.resultLimitExceeded limit) ↔
      limit < (q.sightings g ctx r).length := by
  rw [evaluate_within_iff (Nat.le_of_lt hlimit)]
  have hcount : ((q.collected g ctx r).2.count = (q.sightings g ctx r).length ∧
        (q.sightings g ctx r).length ≤ ctx.limits.resultCount) ∨
      ((q.collected g ctx r).2.count = (q.sightings g ctx r).length + 1 ∧
        (q.sightings g ctx r).length = ctx.limits.resultCount) :=
    count_of_sightings rfl
  omega

/-- Walks that succeed fail under no limit but those below their count. -/
theorem evaluate_limit_iff {ts : List ResultTree} {c : Collector Unit}
    (h : q.collected g ctx r = (.ok ts, c)) (limit : Nat) :
    q.evaluate g (ctx.within limit) r = .error (.resultLimitExceeded limit) ↔
      limit < c.count := by
  by_cases hlimit : limit ≤ ctx.limits.resultCount
  · rw [evaluate_within_iff hlimit, h]
  -- under a higher limit the walks are the same
  · have hcapped : Capped ctx.limits.resultCount (q.collected g (ctx.within limit) r)
        (q.collected g ctx r) :=
      collectAll_capped (Nat.le_of_lt (Nat.lt_of_not_le hlimit)) _ (Nat.zero_le _)
    rw [h] at hcapped
    rcases hcapped with ⟨hroom, hsame⟩ | ⟨-, hfails⟩
    · rw [← hsame] at hroom
      apply iff_of_false
      · intro hfails
        have hfails := evaluate_eq_limit_iff.mp hfails
        rw [← hsame] at hfails
        cases hfails
      · dsimp only at hroom
        omega
    · cases hfails

end QueryTopology

/-- **The result limit counts what is looked at.** Whatever the hook, walks that
succeed one after another have counted the nodes of their trees and those that
the hook has dropped. So an evaluation fails under a lower limit exactly when it
looks at more nodes than that. When the trees of an evaluation are built, the
limits under which it fails are those below the number of their nodes and of the
dropped ones together. Only trees of more nodes than the limit fail for it exactly
when nothing is dropped. -/
theorem limit_counts_drops (g : Graph) (ctx : Context) (q : QueryTopology) (r : QueryRequest) :
    (∀ {σ : Type} (topology : Topology) (hook : Hook σ) (roots : List Vertex) (s : σ)
        {ts : List ResultTree} {c : Collector σ},
      collectAll g ctx topology hook roots { hook := s } = (.ok ts, c) →
        c.count = sizeAll ts +
          (sightings g ctx topology hook roots s).countP Sighting.isDrop) ∧
      (∀ limit, limit < ctx.limits.resultCount →
        (q.evaluate g (ctx.within limit) r = .error (.resultLimitExceeded limit) ↔
          limit < (q.sightings g ctx r).length)) ∧
      ∀ {ts c}, q.collected g ctx r = (.ok ts, c) →
        (∀ limit, q.evaluate g (ctx.within limit) r = .error (.resultLimitExceeded limit) ↔
          limit < sizeAll ts + (q.sightings g ctx r).countP Sighting.isDrop) ∧
        (q.LimitsResults g ctx r ts ↔ ∀ x ∈ q.sightings g ctx r, x.isDrop = false) := by
  refine ⟨fun topology hook roots s ts c h => count_of_collectAll h,
    fun limit hlimit => QueryTopology.evaluate_within_iff_sightings hlimit, ?_⟩
  intro ts c h
  have hcount : c.count = sizeAll ts + (q.sightings g ctx r).countP Sighting.isDrop :=
    count_of_collectAll h
  have hfails : ∀ limit,
      q.evaluate g (ctx.within limit) r = .error (.resultLimitExceeded limit) ↔
        limit < sizeAll ts + (q.sightings g ctx r).countP Sighting.isDrop := by
    intro limit
    rw [← hcount]
    exact QueryTopology.evaluate_limit_iff h limit
  refine ⟨hfails, ?_⟩
  have hdrops : (∀ x ∈ q.sightings g ctx r, x.isDrop = false) ↔
      (q.sightings g ctx r).countP Sighting.isDrop = 0 := by
    simp [List.countP_eq_zero]
  rw [hdrops]
  constructor
  · intro hlimits
    -- the limit of the nodes of the trees is not passed by them
    have hself := mt (hlimits (sizeAll ts)) (Nat.lt_irrefl _)
    rw [hfails] at hself
    omega
  · intro hnone limit hlimit
    have hover := (hfails limit).mp hlimit
    omega

namespace Downed

/-- The host and its card are collected, the link is looked at too. -/
theorem collected_ask : compiled.collected graph context request =
    (.ok [found], ⟨["link", "card", "host"], 3, ()⟩) := by rfl

/-- The one link that is dropped is counted. -/
theorem limit_counts_drops_link :
    ∃ c, compiled.collected graph context request = (.ok [found], c) ∧
      c.count = sizeAll [found] + 1 ∧
      ∀ limit, compiled.evaluate graph (context.within limit) request =
        .error (.resultLimitExceeded limit) ↔ limit < sizeAll [found] + 1 := by
  have hdrops : (compiled.sightings graph context request).countP Sighting.isDrop = 1 := by rfl
  obtain ⟨hcount, -, hcollected⟩ := limit_counts_drops graph context compiled request
  have htotal : 3 = sizeAll [found] +
      (compiled.sightings graph context request).countP Sighting.isDrop :=
    hcount compiled.topology compiled.hook (compiled.starts graph request.startFilters) ()
      collected_ask
  have hfails := (hcollected collected_ask).1
  rw [hdrops] at htotal hfails
  exact ⟨_, collected_ask, htotal, hfails⟩

/-- Two nodes are found, yet a limit of two is passed. -/
theorem not_limitsResults_link :
    graph.Reachable ∧ QueryTopology.ofQuery graph context Inventory.Ring.query = .ok compiled ∧
      (∃ c, compiled.collected graph context request = (.ok [found], c) ∧
        c.count = 3 ∧ sizeAll [found] = 2) ∧
      compiled.evaluate graph (context.within 2) request = .error (.resultLimitExceeded 2) ∧
      ¬ compiled.LimitsResults graph context request [found] := by
  have hfails : compiled.evaluate graph (context.within 2) request =
      .error (.resultLimitExceeded 2) := by rfl
  refine ⟨reachable_graph, ofQuery_ask, ⟨_, collected_ask, rfl, rfl⟩, hfails, ?_⟩
  intro hlimits
  have htwo : 2 < sizeAll [found] := hlimits 2 hfails
  exact absurd htwo (by decide)

end Downed

end Inventory
