import Inventory.Proofs.NamedQuery.Results

/-!
# NamedQuery — vertices that are left out

A vertex is met once under each start, at the trail at which the walk comes to
it first. When it fails a constraint there it is dropped, and it is not met
again at other trails, although it may fit them and pass all their constraints.
So what the walk looks at is found unless it fails at some trail at which the
walk looks at it, and no constraint of one trail hides a vertex at another
exactly when every vertex that is left out fails at all of these trails.
-/

namespace Inventory

open ResultTree

namespace QueryTopology

variable {q : QueryTopology} {g : Graph}

/-- The vertex fails a constraint of the directive of a trail. -/
def Rejects (q : QueryTopology) (v : Vertex) (k : String) : Prop :=
  ∃ d, q.directives.get? k = some d ∧ ∃ c ∈ d.constraints, c.holds v = false

theorem rejects_of_drops {v : Vertex} {k : String} (h : q.hook.Drops g v k) : q.Rejects v k := by
  obtain ⟨s, n, s', hrun⟩ := h
  unfold hook at hrun
  split at hrun
  · cases hrun
  · next d hd =>
      obtain ⟨hhow, -⟩ := Prod.mk.inj (Except.ok.inj (Prod.mk.inj hrun).1)
      cases hadmits : d.admits v with
      | true => rw [hadmits] at hhow; cases hhow
      | false =>
          obtain ⟨c, hc, hfails⟩ := List.all_eq_false.mp hadmits
          exact ⟨d, hd, c, hc, Bool.eq_false_iff.mpr hfails⟩

/-- Every vertex at which the walk looks is in the tree, or fails a constraint at
the very trail. -/
def HidesNothing (q : QueryTopology) (g : Graph) (t : ResultTree) : Prop :=
  ∀ w k, LooksAt g q.topology False t w k → w.id ∈ t.ids ∨ q.Rejects w k

end QueryTopology

/-- **What a constraint can hide.** Whatever the graph, the query and the start,
every vertex at which the walk looks from an expanded node is in the tree that is
built for the start, or fails a constraint of the directive of some trail at
which the walk looks at it. It is always that of the very trail exactly when no
vertex outside the tree fails at one such trail and passes at another. -/
theorem collectFrom_found_or_rejected {g : Graph} (hg : g.Reachable) {ctx : Context}
    {q : QueryTopology} {start : Vertex} (hstart : g.vertices.get? start.id = some start)
    {t : ResultTree} {c c' : Collector Unit}
    (h : collectFrom g ctx q.topology q.hook start c = (.ok (some t), c')) :
    (∀ {w k}, LooksAt g q.topology False t w k →
      w.id ∈ t.ids ∨ ∃ k', LooksAt g q.topology False t w k' ∧ q.Rejects w k') ∧
    (q.HidesNothing g t ↔ ∀ {w k k'}, w.id ∉ t.ids → LooksAt g q.topology False t w k →
      LooksAt g q.topology False t w k' → q.Rejects w k → q.Rejects w k') := by
  have hfound : ∀ {w k}, LooksAt g q.topology False t w k →
      w.id ∈ t.ids ∨ ∃ k', LooksAt g q.topology False t w k' ∧ q.Rejects w k' := by
    intro w k hl
    refine (collectFrom_looksAt hg.wellFormed q.hook_keeps q.hook_opens hstart h hl).imp_right ?_
    rintro ⟨k', hl', hdrop⟩
    exact ⟨k', hl', QueryTopology.rejects_of_drops hdrop⟩
  refine ⟨hfound, fun hhides w k k' hout _ hl' _ => ?_, fun hagree w k hl => ?_⟩
  · exact (hhides w k' hl').resolve_left hout
  · by_cases hin : w.id ∈ t.ids
    · exact .inl hin
    · obtain ⟨k', hl', hrejects⟩ := (hfound hl).resolve_left hin
      exact .inr (hagree hin hl' hl hrejects)

/-! ### The link of the host -/

namespace Downed

theorem collectFrom_host :
    collectFrom graph context compiled.topology compiled.hook host { hook := () } =
      (.ok (some found), { visited := ["link", "card", "host"], count := 3, hook := () }) := by rfl

/-- From the host, which has it, the walk looks at the link. -/
theorem looksAt_link : LooksAt graph compiled.topology False found link "host|link" := by
  have hstep : ⟨"link", none⟩ ∈ compiled.topology.stepsAt found.top.trail := by decide
  exact .step (.here _) (by simp) hstep (by decide)
    ⟨⟨"12", "host", "link", "has", ∅⟩, by decide, .inl (by decide)⟩ (by decide)

/-- The link is not found, so it fails somewhere: below the card. -/
theorem collectFrom_found_or_rejected_link :
    graph.Reachable ∧ graph.vertices.get? host.id = some host ∧
      (∃ c', collectFrom graph context compiled.topology compiled.hook host { hook := () } =
        (.ok (some found), c')) ∧
      LooksAt graph compiled.topology False found link "host|link" ∧ "link" ∉ found.ids ∧
      ∃ k, LooksAt graph compiled.topology False found link k ∧ compiled.Rejects link k := by
  have hhost : graph.vertices.get? host.id = some host := by decide
  have hout : "link" ∉ found.ids := by decide
  obtain ⟨hfound, -⟩ := collectFrom_found_or_rejected reachable_graph hhost collectFrom_host
  exact ⟨reachable_graph, hhost, ⟨_, collectFrom_host⟩, looksAt_link, hout,
    (hfound looksAt_link).resolve_left hout⟩

/-- The link is not found, although the walk looks at it straight from the host,
where nothing is asked of it. -/
theorem collectFrom_hides_link :
    graph.Reachable ∧ QueryTopology.ofQuery graph context Ring.query = .ok compiled ∧
      compiled.starts graph request.startFilters = [host] ∧
      (∃ c', collectFrom graph context compiled.topology compiled.hook host { hook := () } =
        (.ok (some found), c')) ∧
      LooksAt graph compiled.topology False found link "host|link" ∧ "link" ∉ found.ids ∧
      ¬ compiled.Rejects link "host|link" ∧ ¬ compiled.HidesNothing graph found := by
  have hout : "link" ∉ found.ids := by decide
  have hpasses : ¬ compiled.Rejects link "host|link" := by
    rintro ⟨d, hd, c, hc, -⟩
    rw [show compiled.directives.get? "host|link" =
      some ⟨⟨"ask-link", false, [], none⟩, [], []⟩ from rfl] at hd
    cases hd
    cases hc
  exact ⟨reachable_graph, ofQuery_ask, by rfl, ⟨_, collectFrom_host⟩, looksAt_link, hout, hpasses,
    fun hhides => (hhides _ _ looksAt_link).elim hout hpasses⟩

end Downed

end Inventory
