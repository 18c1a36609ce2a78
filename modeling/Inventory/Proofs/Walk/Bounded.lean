import Mathlib.Data.List.Nodup
import Inventory.Proofs.Walk.Legal

/-!
# Walk — walks that stay within their limits

A walk that only decorates fails for three reasons: the root is of the wrong
type, a vertex is met too deep, or too many vertices are met. Where no legal
path leads too deep or to too many vertices, it succeeds. The invariant counts
what was met: each node that counts was met once, and all are known vertices.
-/

namespace Inventory

open Meeting

/-- No legal path leads deeper than the levels allow, and the known ids, which
are those of all vertices that such paths lead to, are within the result count. -/
structure Within (g : Graph) (ctx : Context) (topology : Topology) (root : Vertex)
    (ids : List VertexId) : Prop where
  levels : ∀ {p}, Roams g topology root p → p.trail.below.length ≤ ctx.limits.levels
  known : ∀ {p}, Roams g topology root p → p.vertex.id ∈ ids
  count : ids.length ≤ ctx.limits.resultCount

/-- What was met is known and not fewer than what was counted. -/
structure Collector.Tallies (c : Collector Unit) (root : Vertex) (ids : List VertexId) : Prop where
  once : c.visited.Nodup
  known : ∀ id ∈ c.visited, id ∈ ids
  met : root.id ∈ c.visited
  counted : c.count ≤ c.visited.length

namespace Collector.Tallies

variable {c : Collector Unit} {root : Vertex} {ids : List VertexId}

theorem length_le (h : c.Tallies root ids) : c.visited.length ≤ ids.length :=
  (List.subperm_of_subset h.once h.known).length_le

/-- A known vertex is met. -/
theorem meet (h : c.Tallies root ids) {id : VertexId} (hnew : id ∉ c.visited) (hid : id ∈ ids) :
    Collector.Tallies { c with visited := id :: c.visited } root ids where
  once := List.nodup_cons.mpr ⟨hnew, h.once⟩
  known := List.forall_mem_cons.mpr ⟨hid, h.known⟩
  met := List.mem_cons_of_mem _ h.met
  counted := Nat.le_succ_of_le h.counted

/-- One of the vertices that were met is counted. -/
theorem count (h : c.Tallies root ids) (hroom : c.count < c.visited.length) :
    (c.counted ()).Tallies root ids where
  once := h.once
  known := h.known
  met := h.met
  counted := hroom

end Collector.Tallies

section

variable {g : Graph} {ctx : Context} {topology : Topology} {root : Vertex} {ids : List VertexId}
  {f : ResultNode → ResultNode}

/-- Legal moves are all made when the visits below succeed. -/
theorem collectMoves_total
    {visit : Vertex → Trail → Collector Unit → Outcome (Option ResultTree) × Collector Unit}
    {v : Vertex} {trail : Trail}
    (hwithin : Within g ctx topology root ids) (hv : Roams g topology root ⟨v, trail⟩)
    (hvisit : ∀ {w s c}, Roams g topology root ⟨w, trail.extend s⟩ → c.Tallies root ids →
      c.count < c.visited.length →
      ∃ t c', visit w (trail.extend s) c = (.ok (some t), c') ∧ c'.Tallies root ids)
    {ms : List (TrailStep × Vertex)}
    (hms : ∀ m ∈ ms, Onward g topology ⟨v, trail⟩ ⟨m.2, trail.extend m.1⟩) {c : Collector Unit}
    (hc : c.Tallies root ids) :
    ∃ ts c', collectMoves visit trail ms c = (.ok ts, c') ∧ c'.Tallies root ids := by
  induction ms generalizing c with
  | nil => exact ⟨[], c, rfl, hc⟩
  | cons m ms ih =>
      obtain ⟨s, w⟩ := m
      obtain ⟨hm, hrest⟩ := List.forall_mem_cons.mp hms
      unfold collectMoves
      by_cases hmet : w.id ∈ c.visited
      · rw [if_pos hmet]
        exact ih hrest hc
      · -- the root was met before, so the path does not come back to it
        have hne : w.id ≠ root.id := by
          intro hid
          exact hmet (hid ▸ hc.met)
        have hw : Roams g topology root ⟨w, trail.extend s⟩ := hv.tail ⟨hm, hne⟩
        have hroom : c.count < (w.id :: c.visited).length := Nat.lt_succ_of_le hc.counted
        obtain ⟨t, c₁, ht, hc₁⟩ := hvisit hw (hc.meet hmet (hwithin.known hw)) hroom
        obtain ⟨ts, c₂, hts, hc₂⟩ := ih hrest hc₁
        rw [if_neg hmet, ht]
        dsimp only
        rw [hts]
        exact ⟨_, c₂, rfl, hc₂⟩

/-- A visit succeeds when levels and count suffice for every legal path. -/
theorem collect_total (wf : g.WellFormed) (hroot : g.vertices.get? root.id = some root)
    (hwithin : Within g ctx topology root ids)
    (hf : ∀ n, (f n).vertex = n.vertex ∧ (f n).trail = n.trail) {levels : Nat} {v : Vertex}
    {trail : Trail} {c : Collector Unit}
    (hlevels : trail.below.length + levels = ctx.limits.levels + 1)
    (hv : Roams g topology root ⟨v, trail⟩) (hc : c.Tallies root ids)
    (hroom : c.count < c.visited.length) :
    ∃ t c', collect g ctx topology (Hook.decorate f) levels v trail c = (.ok (some t), c') ∧
      c'.Tallies root ids := by
  induction levels generalizing v trail c with
  | zero =>
      have hdepth : trail.below.length ≤ ctx.limits.levels := hwithin.levels hv
      omega
  | succ levels ih =>
      have hlimit : ¬ ctx.limits.resultCount < c.count + 1 := by
        have hknown := hc.length_le
        have hcount := hwithin.count
        omega
      have hvertex : (f ⟨v, trail.key, false, false, none, ∅, ∅⟩).vertex = v := (hf _).1
      have hstored : g.vertices.get? v.id = some v := hv.stored hroot
      obtain ⟨ns, hns, hmem⟩ := wf.neighbours hstored
      have hbelow : ∀ s, (trail.extend s).below.length + levels = ctx.limits.levels + 1 := by
        intro s
        simp only [Trail.extend, List.length_append, List.length_singleton]
        omega
      unfold collect
      dsimp only [Hook.decorate]
      rw [if_neg hlimit, hvertex]
      split
      · exact ⟨_, _, rfl, hc.count hroom⟩
      · next hopen =>
          have honward : ∀ m ∈ moves (topology.next trail) ns,
              Onward g topology ⟨v, trail⟩ ⟨m.2, trail.extend m.1⟩ := by
            rintro ⟨s, w⟩ hm
            obtain ⟨hs, hw, hfits⟩ := mem_moves.mp hm
            obtain ⟨hw, hadj⟩ := (hmem w).mp hw
            refine .step ?_ hs hw hadj hfits
            by_cases hnil : trail.below = []
            · exact .inl hnil
            · exact .inr (Bool.eq_false_iff.mpr fun hfit => hopen (.inl ⟨hnil, hfit⟩))
          obtain ⟨ts, c', hts, hc'⟩ := collectMoves_total hwithin hv
            (fun hw hc hroom => ih (hbelow _) hw hc hroom) honward (hc.count hroom)
          rw [hns]
          dsimp only
          rw [show ({ visited := c.visited, count := c.count + 1, hook := () } : Collector Unit) =
            c.counted () from rfl, hts]
          exact ⟨_, c', rfl, hc'⟩

/-- **Walks within their limits succeed.** -/
theorem collectDecorated_total (wf : g.WellFormed) (hroot : g.vertices.get? root.id = some root)
    (htype : root.nodeType = topology.root.nodeType) (hwithin : Within g ctx topology root ids)
    (hf : ∀ n, (f n).vertex = n.vertex ∧ (f n).trail = n.trail) :
    ∃ t, collectDecorated g ctx topology f root = .ok t := by
  have hstart : Roams g topology root (topology.start root) := .refl
  have hroot_known : root.id ∈ ids := hwithin.known hstart
  have htallies : Collector.Tallies { visited := [root.id], hook := () } root ids :=
    ⟨List.nodup_singleton _, by simpa using hroot_known, List.mem_singleton_self _,
      Nat.zero_le _⟩
  have hlevels : topology.rootTrail.below.length + ctx.levelsFrom 0 = ctx.limits.levels + 1 :=
    Nat.zero_add _
  obtain ⟨t, c', ht, -⟩ :=
    collect_total wf hroot hwithin hf hlevels hstart htallies (Nat.zero_lt_one)
  refine ⟨t, ?_⟩
  unfold collectDecorated collectFrom
  rw [if_neg (not_not.mpr htype), ht]

end

end Inventory
