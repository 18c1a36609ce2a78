import Inventory.Proofs.Walk.Depth
import Inventory.Proofs.Walk.Noted

/-!
# Walk — what the count counts

A node is counted before the hook sees it, so the count is that of the nodes
that were shown to the hook: those that are in the trees and those that the hook
dropped. A walk with a lower limit is the same walk until its count passes the
limit.
-/

namespace Inventory

open ResultTree

/-! ## Trees and dropped nodes -/

section

variable {σ : Type} {g : Graph} {ctx : Context} {topology : Topology} {hook : Hook σ}
  {c c' c₁ c₂ : Collector (List Sighting × σ)}

/-- How many of the nodes that were noted have been dropped. -/
def Collector.drops (c : Collector (List Sighting × σ)) : Nat := c.hook.1.countP Sighting.isDrop

/-- The count has grown by the nodes of these trees and by those that were dropped. -/
def Balances (c c' : Collector (List Sighting × σ)) (ts : List ResultTree) : Prop :=
  c'.count + c.drops = c.count + sizeAll ts + c'.drops

theorem Balances.followed {first : Outcome (Option ResultTree) × Collector (List Sighting × σ)}
    {rest : Collector (List Sighting × σ) →
      Outcome (List ResultTree) × Collector (List Sighting × σ)} {ts : List ResultTree}
    (h : followed first rest = (.ok ts, c'))
    (hfirst : ∀ {found c₁}, first = (.ok found, c₁) → Balances c c₁ found.toList)
    (hrest : ∀ {c₁ us}, rest c₁ = (.ok us, c') → Balances c₁ c' us) : Balances c c' ts := by
  obtain ⟨found, c₁, us, hfound, hus, rfl⟩ := followed_eq_ok h
  have hsize : sizeAll (found.toList ++ us) = sizeAll found.toList + sizeAll us := by
    cases found <;> simp
  have hfirst := hfirst hfound
  have hlater := hrest hus
  unfold Balances at *
  omega

theorem collectMoves_balances
    {visit : Vertex → Trail → Collector (List Sighting × σ) →
      Outcome (Option ResultTree) × Collector (List Sighting × σ)}
    (hvisit : ∀ {w trail c c' found}, visit w trail c = (.ok found, c') →
      Balances c c' found.toList)
    {trail : Trail} {ms : List (TrailStep × Vertex)} {ts : List ResultTree}
    (h : collectMoves visit trail ms c = (.ok ts, c')) : Balances c c' ts := by
  induction ms generalizing c ts with
  | nil => cases h; rfl
  | cons m ms ih =>
      obtain ⟨step, w⟩ := m
      rw [collectMoves_cons] at h
      split at h
      · exact ih h
      · apply Balances.followed h _ ih
        intro found c₁ hfound
        have hbalances := hvisit hfound
        exact hbalances

theorem Hook.noting_eq_ok {n n' : ResultNode} {s s' : List Sighting × σ} {k : Visit}
    (h : hook.noting g n s = (.ok (k, n'), s')) : s'.1 = ⟨n, some k⟩ :: s.1 := by
  unfold noting at h
  obtain ⟨hanswer, hstate⟩ := Prod.mk.inj h
  rw [← hstate, hanswer]
  rfl

/-- **The step lemma**: a node counts once, and is dropped or on top of the trees
that its moves lead to. -/
theorem collect_balances {levels : Nat} {v : Vertex} {trail : Trail} {found : Option ResultTree}
    (h : collect g ctx topology hook.noting levels v trail c = (.ok found, c')) :
    Balances c c' found.toList := by
  induction levels generalizing v trail c c' found with
  | zero => cases h
  | succ levels ih =>
      obtain ⟨-, k, n, s, hhook, hways⟩ := collect_eq_ok h
      have hcount : (c.counted s).count = c.count + 1 := rfl
      have hnoted : (c.counted s).drops = c.drops + if k = .drop then 1 else 0 := by
        rw [Collector.drops, Collector.counted, Hook.noting_eq_ok hhook, List.countP_cons]
        cases k <;> rfl
      rcases hways with ⟨rfl, rfl, rfl⟩ | ⟨hk, rfl, rfl, -⟩ | ⟨ns, cs, rfl, -, -, hmoves, rfl⟩
      · rw [if_pos rfl] at hnoted
        simp only [Balances, hcount, hnoted, Option.toList_none, sizeAll_nil]
        omega
      · rw [if_neg hk] at hnoted
        simp only [Balances, hcount, hnoted, Option.toList_some, sizeAll_cons, size_node,
          sizeAll_nil]
        omega
      · have hbelow : Balances (c.counted s) c' cs := collectMoves_balances ih hmoves
        rw [if_neg Visit.noConfusion] at hnoted
        simp only [Balances, hcount, hnoted] at hbelow
        simp only [Balances, Option.toList_some, sizeAll_cons, size_node, sizeAll_nil]
        omega

theorem collectFrom_balances {root : Vertex} {found : Option ResultTree}
    (h : collectFrom g ctx topology hook.noting root c = (.ok found, c')) :
    Balances c c' found.toList :=
  collect_balances (c := { c with visited := [root.id] }) (collectFrom_eq_ok h).2

/-- Over successful walks from some roots, the count grows by the nodes of their
trees and by those that were dropped. -/
theorem collectAll_balances {roots : List Vertex} {ts : List ResultTree}
    (h : collectAll g ctx topology hook.noting roots c = (.ok ts, c')) : Balances c c' ts := by
  induction roots generalizing c ts with
  | nil => cases h; rfl
  | cons root roots ih =>
      rw [collectAll_cons] at h
      exact Balances.followed h collectFrom_balances ih

end

section

variable {σ : Type} {g : Graph} {ctx : Context} {topology : Topology} {hook : Hook σ}
  {roots : List Vertex} {s : σ}

/-- A walk that succeeds has counted the nodes of its trees and those that its
hook has dropped. -/
theorem count_of_collectAll {ts : List ResultTree} {c : Collector σ}
    (h : collectAll g ctx topology hook roots { hook := s } = (.ok ts, c)) :
    c.count = sizeAll ts + (sightings g ctx topology hook roots s).countP Sighting.isDrop := by
  rw [collectAll_noting] at h
  cases hrun : collectAll g ctx topology hook.noting roots { hook := ([], s) } with
  | mk r c' =>
      rw [hrun] at h
      cases h
      have hbalances := collectAll_balances hrun
      rw [sightings, hrun]
      simp only [Balances, Collector.drops, List.countP_nil] at hbalances
      show c'.count = sizeAll ts + c'.hook.1.countP Sighting.isDrop
      omega

/-- A walk has counted the nodes that its hook was shown and, when it has failed
for the limit, one more. -/
theorem count_of_sightings {c : Collector σ} {r : Outcome (List ResultTree)}
    (h : collectAll g ctx topology hook roots { hook := s } = (r, c)) :
    let n := (sightings g ctx topology hook roots s).length
    (c.count = n ∧ n ≤ ctx.limits.resultCount) ∨
      (c.count = n + 1 ∧ n = ctx.limits.resultCount) := by
  have hinvariant : Collector.Invariant g ctx topology hook.noting fun c =>
      c.count = c.hook.1.length ∧ c.count ≤ ctx.limits.resultCount := by
    constructor
    · intro c ids hc
      exact hc
    · intro c v trail _ hroom hc
      exact ⟨congrArg (· + 1) hc.1, hroom⟩
  have hkeeps : Keeps ctx _ (collectAll g ctx topology hook.noting roots { hook := ([], s) }) :=
    collectAll_keeps hinvariant ⟨rfl, Nat.zero_le _⟩
  rw [collectAll_noting] at h
  obtain ⟨-, rfl⟩ := Prod.mk.inj h
  rcases hkeeps with ⟨hcount, hroom⟩ | ⟨-, c, ⟨hcount, hroom⟩, hover, hc⟩
  · exact .inl ⟨hcount, hcount ▸ hroom⟩
  · simp only [sightings, Collector.withHook, hc]
    omega

end

/-! ## Walks that go on counting -/

section

variable {σ : Type} {g : Graph} {ctx : Context} {topology : Topology} {hook : Hook σ}
  {c : Collector σ}

theorem count_le_followed {first : Outcome (Option ResultTree) × Collector σ}
    {rest : Collector σ → Outcome (List ResultTree) × Collector σ}
    (hrest : ∀ c, c.count ≤ (rest c).2.count) : first.2.count ≤ (followed first rest).2.count := by
  obtain ⟨r, c⟩ := first
  cases r with
  | error e => exact Nat.le_refl _
  | ok found =>
      rw [followed_ok]
      exact hrest c

theorem count_le_collectMoves
    {visit : Vertex → Trail → Collector σ → Outcome (Option ResultTree) × Collector σ}
    (hvisit : ∀ w trail c, c.count ≤ (visit w trail c).2.count) (trail : Trail)
    (ms : List (TrailStep × Vertex)) (c : Collector σ) :
    c.count ≤ (collectMoves visit trail ms c).2.count := by
  induction ms generalizing c with
  | nil => exact Nat.le_refl _
  | cons m ms ih =>
      obtain ⟨step, w⟩ := m
      rw [collectMoves_cons]
      split
      · exact ih c
      · have hfirst := hvisit w (trail.extend step) { c with visited := w.id :: c.visited }
        exact Nat.le_trans hfirst (count_le_followed ih)

/-- Where a level is left the node itself is counted. -/
theorem count_le_collect (levels : Nat) (v : Vertex) (trail : Trail) (c : Collector σ) :
    c.count + min levels 1 ≤ (collect g ctx topology hook levels v trail c).2.count := by
  induction levels generalizing v trail c with
  | zero => exact Nat.le_refl _
  | succ levels ih =>
      have hone : min (levels + 1) 1 = 1 := by omega
      have hbelow : ∀ ms (c : Collector σ),
          c.count ≤ (collectMoves (collect g ctx topology hook levels) trail ms c).2.count :=
        count_le_collectMoves
          (fun w trail c => Nat.le_trans (Nat.le_add_right _ _) (ih w trail c)) trail
      rw [hone]
      unfold collect
      dsimp only
      split
      · exact Nat.le_refl _
      · split
        · exact Nat.le_refl _
        · exact Nat.le_refl _
        · exact Nat.le_refl _
        · next s _ =>
            split
            · exact Nat.le_refl _
            · split
              · exact Nat.le_refl _
              · next neighbours _ =>
                  have hmoves := hbelow (moves (topology.next trail) neighbours) (c.counted s)
                  rw [Collector.counted] at hmoves
                  split
                  · next hfails => rwa [hfails] at hmoves
                  · next hchildren => rwa [hchildren] at hmoves

theorem count_le_collectFrom (root : Vertex) (c : Collector σ) :
    c.count ≤ (collectFrom g ctx topology hook root c).2.count := by
  unfold collectFrom
  split
  · exact Nat.le_refl _
  · exact Nat.le_trans (Nat.le_add_right _ _)
      (count_le_collect _ root topology.rootTrail { c with visited := [root.id] })

theorem count_le_collectAll (roots : List Vertex) (c : Collector σ) :
    c.count ≤ (collectAll g ctx topology hook roots c).2.count := by
  induction roots generalizing c with
  | nil => exact Nat.le_refl _
  | cons root roots ih =>
      rw [collectAll_cons]
      exact Nat.le_trans (count_le_collectFrom root c) (count_le_followed ih)

end

/-! ## Lower limits -/

/-- The context with another limit on the result count. -/
def Context.within (ctx : Context) (limit : Nat) : Context :=
  { ctx with limits := { ctx.limits with resultCount := limit } }

section

variable {σ : Type} {g : Graph} {ctx : Context} {topology : Topology} {hook : Hook σ}
  {c c' : Collector σ} {limit : Nat}

/-- The same collector after some nodes were counted beforehand. -/
def Collector.ahead (k : Nat) (c : Collector σ) : Collector σ := { c with count := k + c.count }

/-- A call that comes after `k` counted nodes is the same but for its count, or
fails when that count passes the limit. -/
def CutShort {α : Type} (k limit : Nat) (full cut : Outcome α × Collector σ) : Prop :=
  (k + full.2.count ≤ limit ∧ cut = (full.1, full.2.ahead k)) ∨
    (limit < k + full.2.count ∧ limit < cut.2.count ∧ cut.1 = .error (.resultLimitExceeded limit))

theorem CutShort.map {α β : Type} {k : Nat} {full cut : Outcome α × Collector σ}
    (h : CutShort k limit full cut) (f : α → β) :
    CutShort k limit (full.1.map f, full.2) (cut.1.map f, cut.2) := by
  rcases h with ⟨hroom, rfl⟩ | ⟨hover, hcount, hcut⟩
  · exact .inl ⟨hroom, rfl⟩
  · apply Or.inr
    rw [hcut]
    exact ⟨hover, hcount, rfl⟩

theorem CutShort.followed {k : Nat} {full cut : Outcome (Option ResultTree) × Collector σ}
    {rest rest' : Collector σ → Outcome (List ResultTree) × Collector σ}
    (hfirst : CutShort k limit full cut) (hgrows : ∀ c, c.count ≤ (rest c).2.count)
    (hrest : ∀ {c}, k + c.count ≤ limit → CutShort k limit (rest c) (rest' (c.ahead k))) :
    CutShort k limit (followed full rest) (followed cut rest') := by
  rcases hfirst with ⟨hroom, rfl⟩ | ⟨hover, hcount, hcut⟩
  · obtain ⟨r, c⟩ := full
    cases r with
    | error e => exact .inl ⟨hroom, rfl⟩
    | ok found =>
        rw [followed_ok, followed_ok]
        exact (hrest hroom).map _
  · have hlater : full.2.count ≤ (Inventory.followed full rest).2.count :=
      count_le_followed hgrows
    obtain ⟨r, c⟩ := cut
    cases hcut
    exact .inr ⟨by omega, hcount, rfl⟩

theorem collectMoves_cutShort {k : Nat}
    {full cut : Vertex → Trail → Collector σ → Outcome (Option ResultTree) × Collector σ}
    (hgrows : ∀ w trail c, c.count ≤ (full w trail c).2.count)
    (hvisit : ∀ w trail {c}, k + c.count ≤ limit →
      CutShort k limit (full w trail c) (cut w trail (c.ahead k)))
    {trail : Trail} {ms : List (TrailStep × Vertex)} (hc : k + c.count ≤ limit) :
    CutShort k limit (collectMoves full trail ms c) (collectMoves cut trail ms (c.ahead k)) := by
  induction ms generalizing c with
  | nil => exact .inl ⟨hc, rfl⟩
  | cons m ms ih =>
      obtain ⟨step, w⟩ := m
      rw [collectMoves_cons, collectMoves_cons]
      by_cases hmet : w.id ∈ c.visited
      · rw [if_pos hmet, if_pos (show w.id ∈ (c.ahead k).visited from hmet)]
        exact ih hc
      · rw [if_neg hmet, if_neg (show w.id ∉ (c.ahead k).visited from hmet)]
        have hfirst := hvisit w (trail.extend step)
          (c := { c with visited := w.id :: c.visited }) hc
        exact hfirst.followed (count_le_collectMoves hgrows trail ms) ih

/-- **The step lemma**: a call with less room goes the same way until the count
passes the limit. -/
theorem collect_cutShort {k : Nat} (hlimit : limit ≤ k + ctx.limits.resultCount) {levels : Nat}
    (v : Vertex) (trail : Trail) (hc : k + c.count ≤ limit) :
    CutShort k limit (collect g ctx topology hook levels v trail c)
      (collect g (ctx.within limit) topology hook levels v trail (c.ahead k)) := by
  induction levels generalizing v trail c with
  | zero => exact .inl ⟨hc, rfl⟩
  | succ levels ih =>
      by_cases hlast : limit < k + c.count + 1
      -- the node is one too many
      · have hcount : c.count + min (levels + 1) 1 ≤
            (collect g ctx topology hook (levels + 1) v trail c).2.count :=
          count_le_collect (levels + 1) v trail c
        apply Or.inr
        refine ⟨by omega, ?_⟩
        unfold collect
        rw [if_pos (show (ctx.within limit).limits.resultCount < (c.ahead k).count + 1 from hlast)]
        exact ⟨hlast, rfl⟩
      · have hroom : k + (c.count + 1) ≤ limit := Nat.le_of_not_lt hlast
        unfold collect
        dsimp only
        rw [if_neg (show ¬ (ctx.within limit).limits.resultCount < (c.ahead k).count + 1
            from hlast),
          if_neg (show ¬ ctx.limits.resultCount < c.count + 1 by omega),
          show (c.ahead k).hook = c.hook from rfl]
        cases hook g { vertex := v, trail := trail.key } c.hook with
        | mk r s =>
          cases r with
          | error e => exact .inl ⟨hroom, rfl⟩
          | ok answer =>
              obtain ⟨how, n⟩ := answer
              cases how with
              | drop => exact .inl ⟨hroom, rfl⟩
              | leaf => exact .inl ⟨hroom, rfl⟩
              | expand =>
                  dsimp only
                  split
                  · exact .inl ⟨hroom, rfl⟩
                  · cases g.adjacent n.vertex.id .both .any with
                    | error e => exact .inl ⟨hroom, rfl⟩
                    | ok neighbours =>
                        have hmoves : CutShort k limit
                            (collectMoves (collect g ctx topology hook levels) trail
                              (moves (topology.next trail) neighbours) (c.counted s))
                            (collectMoves (collect g (ctx.within limit) topology hook levels) trail
                              (moves (topology.next trail) neighbours) ((c.counted s).ahead k)) :=
                          collectMoves_cutShort
                            (fun w trail c => Nat.le_trans (Nat.le_add_right _ _)
                              (count_le_collect levels w trail c))
                            (fun w trail c hc => ih w trail hc) hroom
                        have hnode := hmoves.map fun cs => some (ResultTree.node n cs)
                        dsimp only [Collector.counted, Collector.ahead] at hnode ⊢
                        generalize collectMoves (collect g ctx topology hook levels) trail
                          (moves (topology.next trail) neighbours) _ = full at hnode ⊢
                        generalize collectMoves (collect g (ctx.within limit) topology hook levels)
                          trail (moves (topology.next trail) neighbours) _ = cut at hnode ⊢
                        obtain ⟨r, c₁⟩ := full
                        obtain ⟨r', c₂⟩ := cut
                        cases r <;> cases r' <;> exact hnode

theorem collectFrom_cutShort {k : Nat} (hlimit : limit ≤ k + ctx.limits.resultCount)
    (root : Vertex) (hc : k + c.count ≤ limit) :
    CutShort k limit (collectFrom g ctx topology hook root c)
      (collectFrom g (ctx.within limit) topology hook root (c.ahead k)) := by
  unfold collectFrom
  split
  · exact .inl ⟨hc, rfl⟩
  · exact collect_cutShort (c := { c with visited := [root.id] }) hlimit root _ hc

/-- Walks from roots with less room are the same until the count passes the limit. -/
theorem collectAll_cutShort {k : Nat} (hlimit : limit ≤ k + ctx.limits.resultCount)
    (roots : List Vertex) (hc : k + c.count ≤ limit) :
    CutShort k limit (collectAll g ctx topology hook roots c)
      (collectAll g (ctx.within limit) topology hook roots (c.ahead k)) := by
  induction roots generalizing c with
  | nil => exact .inl ⟨hc, rfl⟩
  | cons root roots ih =>
      rw [collectAll_cons, collectAll_cons]
      exact (collectFrom_cutShort hlimit root hc).followed (count_le_collectAll roots) ih

/-- A call under a lower limit is the same, or fails when the count passes it. -/
def Capped {α : Type} (limit : Nat) (full cut : Outcome α × Collector σ) : Prop :=
  (full.2.count ≤ limit ∧ cut = full) ∨
    (limit < full.2.count ∧ cut.1 = .error (.resultLimitExceeded limit))

/-- Walks from roots under a lower limit are the same until the count passes it. -/
theorem collectAll_capped (hlimit : limit ≤ ctx.limits.resultCount) (roots : List Vertex)
    (hc : c.count ≤ limit) :
    Capped limit (collectAll g ctx topology hook roots c)
      (collectAll g (ctx.within limit) topology hook roots c) := by
  have hnone : ∀ c : Collector σ, c.ahead 0 = c := by
    intro c
    simp [Collector.ahead]
  have hcut : CutShort 0 limit (collectAll g ctx topology hook roots c)
      (collectAll g (ctx.within limit) topology hook roots (c.ahead 0)) :=
    collectAll_cutShort (by omega) roots (by omega)
  rw [hnone] at hcut
  rcases hcut with ⟨hroom, hsame⟩ | ⟨hover, -, hcut⟩
  · rw [hnone] at hsame
    exact .inl ⟨by omega, hsame⟩
  · exact .inr ⟨by omega, hcut⟩

/-! ## Failures for the limit -/

/-- A walk fails for the limit only when its count passes it. -/
theorem collect_limit {levels n : Nat} {v : Vertex} {trail : Trail}
    (h : collect g ctx topology hook levels v trail c = (.error (.resultLimitExceeded n), c'))
    (htotal : hook.Total) :
    n = ctx.limits.resultCount ∧ n < c'.count := by
  induction levels generalizing v trail c with
  | zero => cases h
  | succ levels ih =>
      obtain ⟨hlimit, hover⟩ | ⟨x, hmissing⟩ | ⟨s, -, w, c₁, hfails⟩ := collect_eq_error htotal h
      · cases hlimit
        exact ⟨rfl, hover⟩
      · cases hmissing
      · exact ih hfails

theorem collectFrom_limit {n : Nat} {root : Vertex}
    (h : collectFrom g ctx topology hook root c = (.error (.resultLimitExceeded n), c'))
    (htotal : hook.Total) :
    n = ctx.limits.resultCount ∧ n < c'.count := by
  unfold collectFrom at h
  split at h
  · cases h
  · exact collect_limit h htotal

theorem collectAll_limit {n : Nat} {roots : List Vertex}
    (h : collectAll g ctx topology hook roots c = (.error (.resultLimitExceeded n), c'))
    (htotal : hook.Total) :
    n = ctx.limits.resultCount ∧ n < c'.count := by
  induction roots generalizing c with
  | nil => cases h
  | cons root roots ih =>
      rw [collectAll_cons] at h
      rcases followed_eq_error h with h | ⟨c₁, h⟩
      · exact collectFrom_limit h htotal
      · exact ih h

/-- Walks under a lower limit fail for it exactly when the count passes it under
the higher one. -/
theorem collectAll_limit_iff (htotal : hook.Total) (hlimit : limit ≤ ctx.limits.resultCount)
    {roots : List Vertex} (hc : c.count ≤ limit) :
    (collectAll g (ctx.within limit) topology hook roots c).1 =
        .error (.resultLimitExceeded limit) ↔
      limit < (collectAll g ctx topology hook roots c).2.count := by
  rcases collectAll_capped hlimit roots hc with ⟨hroom, hsame⟩ | ⟨hover, hcut⟩
  · apply iff_of_false
    · intro hfails
      have hover := (collectAll_limit (Prod.ext hfails rfl) htotal).2
      rw [hsame] at hover
      exact absurd hover (Nat.not_lt.mpr hroom)
    · exact Nat.not_lt.mpr hroom
  · exact iff_of_true hcut hover

end

end Inventory
