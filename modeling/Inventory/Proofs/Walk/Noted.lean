import Inventory.Proofs.Topology.Positions
import Inventory.Proofs.Walk.Passed

/-!
# Walk — the nodes that a hook is shown

A hook may note every node that it is shown, with what it makes of it. The notes
change nothing in the walk, so they say which nodes a walk visits, those included
that it drops and those after which it fails. All of them stand at positions of
the topology.
-/

namespace Inventory

open ResultTree

/-! ## Notes -/

/-- A node as it was shown to a hook, with what the hook made of it: nothing when
it failed. -/
structure Sighting where
  node : ResultNode
  answer : Option Visit

/-- The hook has left the node out. -/
def Sighting.isDrop (s : Sighting) : Bool := s.answer == some .drop

/-- The hook that notes all that it is shown, the latest first. -/
def Hook.noting {σ : Type} (hook : Hook σ) : Hook (List Sighting × σ) := fun g n s =>
  let (answer, s') := hook g n s.2
  (answer, (⟨n, answer.toOption.map (·.1)⟩ :: s.1, s'))

/-- The nodes that the walks from some roots show to a hook. -/
def sightings {σ : Type} (g : Graph) (ctx : Context) (topology : Topology) (hook : Hook σ)
    (roots : List Vertex) (s : σ) : List Sighting :=
  (collectAll g ctx topology hook.noting roots { hook := ([], s) }).2.hook.1

/-! ## The walk without the notes -/

/-- The same collector over a part of the state of its hook. -/
def Collector.withHook {σ τ : Type} (p : τ → σ) (c : Collector τ) : Collector σ :=
  { visited := c.visited, count := c.count, hook := p c.hook }

/-- On a part of its state a hook does what another hook does. -/
def Hook.Restricts {σ τ : Type} (p : τ → σ) (hook' : Hook τ) (hook : Hook σ) : Prop :=
  ∀ g n s, hook g n (p s) = ((hook' g n s).1, p (hook' g n s).2)

theorem Hook.restricts_noting {σ : Type} (hook : Hook σ) :
    Hook.Restricts Prod.snd hook.noting hook := by
  intro g n s
  rfl

section

variable {σ τ : Type} {p : τ → σ} {hook' : Hook τ} {hook : Hook σ} {g : Graph} {ctx : Context}
  {topology : Topology}

/-- What a call ends with, seen through a part of the hook's state. -/
def Outcome.through {α : Type} (p : τ → σ) (r : Outcome α × Collector τ) :
    Outcome α × Collector σ := (r.1, r.2.withHook p)

theorem followed_through {first' : Outcome (Option ResultTree) × Collector τ}
    {rest' : Collector τ → Outcome (List ResultTree) × Collector τ}
    {rest : Collector σ → Outcome (List ResultTree) × Collector σ}
    (hrest : ∀ c, rest (c.withHook p) = Outcome.through p (rest' c)) :
    followed (Outcome.through p first') rest = Outcome.through p (followed first' rest') := by
  obtain ⟨r, c⟩ := first'
  cases r with
  | error e => rfl
  | ok found =>
      rw [followed_ok, Outcome.through, followed_ok, hrest]
      rfl

theorem collectMoves_through
    {visit' : Vertex → Trail → Collector τ → Outcome (Option ResultTree) × Collector τ}
    {visit : Vertex → Trail → Collector σ → Outcome (Option ResultTree) × Collector σ}
    (hvisit : ∀ w trail c, visit w trail (c.withHook p) = Outcome.through p (visit' w trail c))
    (trail : Trail) (ms : List (TrailStep × Vertex)) (c : Collector τ) :
    collectMoves visit trail ms (c.withHook p) =
      Outcome.through p (collectMoves visit' trail ms c) := by
  induction ms generalizing c with
  | nil => rfl
  | cons m ms ih =>
      obtain ⟨step, w⟩ := m
      rw [collectMoves_cons, collectMoves_cons]
      by_cases hmet : w.id ∈ c.visited
      · rw [if_pos hmet, if_pos (show w.id ∈ (c.withHook p).visited from hmet)]
        exact ih c
      · rw [if_neg hmet, if_neg (show w.id ∉ (c.withHook p).visited from hmet),
          ← followed_through ih, ← hvisit]
        rfl

theorem collect_through (h : Hook.Restricts p hook' hook) (levels : Nat) (v : Vertex)
    (trail : Trail) (c : Collector τ) :
    collect g ctx topology hook levels v trail (c.withHook p) =
      Outcome.through p (collect g ctx topology hook' levels v trail c) := by
  induction levels generalizing v trail c with
  | zero => rfl
  | succ levels ih =>
      have hshown := h g { vertex := v, trail := trail.key } c.hook
      have hmoves := collectMoves_through ih trail
      unfold collect
      simp only [Collector.withHook, hshown]
      split
      · rfl
      · cases hook' g { vertex := v, trail := trail.key } c.hook with
        | mk r s =>
          cases r with
          | error e => rfl
          | ok answer =>
              obtain ⟨how, n⟩ := answer
              cases how with
              | drop => rfl
              | leaf => rfl
              | expand =>
                  dsimp only
                  split
                  · rfl
                  · cases g.adjacent n.vertex.id .both .any with
                    | error e => rfl
                    | ok neighbours =>
                        have hbelow := hmoves (moves (topology.next trail) neighbours)
                          { visited := c.visited, count := c.count + 1, hook := s }
                        simp only [Collector.withHook] at hbelow
                        simp only [hbelow]
                        cases collectMoves (collect g ctx topology hook' levels) trail
                          (moves (topology.next trail) neighbours)
                          { visited := c.visited, count := c.count + 1, hook := s } with
                        | mk r c' => cases r <;> rfl

theorem collectFrom_through (h : Hook.Restricts p hook' hook) (root : Vertex) (c : Collector τ) :
    collectFrom g ctx topology hook root (c.withHook p) =
      Outcome.through p (collectFrom g ctx topology hook' root c) := by
  unfold collectFrom
  split
  · rfl
  · exact collect_through h _ root topology.rootTrail { c with visited := [root.id] }

/-- A hook that does the same on a part of its state leads to the same walks. -/
theorem collectAll_through (h : Hook.Restricts p hook' hook) (roots : List Vertex)
    (c : Collector τ) :
    collectAll g ctx topology hook roots (c.withHook p) =
      Outcome.through p (collectAll g ctx topology hook' roots c) := by
  induction roots generalizing c with
  | nil => rfl
  | cons root roots ih =>
      rw [collectAll_cons, collectAll_cons, collectFrom_through h, followed_through ih]

/-- Taking notes changes nothing. -/
theorem collectAll_noting (hook : Hook σ) (roots : List Vertex) (s : σ) :
    collectAll g ctx topology hook roots { hook := s } =
      Outcome.through Prod.snd
        (collectAll g ctx topology hook.noting roots { hook := ([], s) }) :=
  collectAll_through hook.restricts_noting roots { hook := ([], s) }

end

/-! ## What a walk keeps -/

section

variable {σ : Type} {g : Graph} {ctx : Context} {topology : Topology} {hook : Hook σ}
  {I : Collector σ → Prop} {c : Collector σ}

/-- What does not hang on the visited vertices and is kept when a node at a
position is counted and shown to the hook. -/
structure Collector.Invariant (g : Graph) (ctx : Context) (topology : Topology) (hook : Hook σ)
    (I : Collector σ → Prop) : Prop where
  meet : ∀ {c} ids, I c → I { c with visited := ids }
  look : ∀ {c v trail}, topology.Position trail → c.count + 1 ≤ ctx.limits.resultCount → I c →
    I (c.counted (hook g { vertex := v, trail := trail.key } c.hook).2)

/-- A call has kept a property, or has stopped at the node with which the count
has passed the limit, and which the hook has not seen. -/
def Keeps {α : Type} (ctx : Context) (I : Collector σ → Prop) (r : Outcome α × Collector σ) :
    Prop :=
  I r.2 ∨ r.1 = .error (.resultLimitExceeded ctx.limits.resultCount) ∧
    ∃ c, I c ∧ ctx.limits.resultCount < c.count + 1 ∧ r.2 = { c with count := c.count + 1 }

theorem Keeps.of_ok {α : Type} {a : α} (h : Keeps ctx I (.ok a, c)) : I c := by
  rcases h with h | ⟨h, -⟩
  · exact h
  · cases h

theorem Keeps.error {α β : Type} {e : Error}
    (h : Keeps ctx I ((.error e : Outcome α), c)) : Keeps ctx I ((.error e : Outcome β), c) := by
  rcases h with h | ⟨h, hover⟩
  · exact .inl h
  · cases h
    exact .inr ⟨rfl, hover⟩

theorem Keeps.map {α β : Type} {r : Outcome α × Collector σ} (h : Keeps ctx I r) (f : α → β) :
    Keeps ctx I (r.1.map f, r.2) := by
  rcases h with h | ⟨herror, hover⟩
  · exact .inl h
  · apply Or.inr
    rw [herror]
    exact ⟨rfl, hover⟩

theorem Keeps.followed {first : Outcome (Option ResultTree) × Collector σ}
    {rest : Collector σ → Outcome (List ResultTree) × Collector σ} (hfirst : Keeps ctx I first)
    (hrest : ∀ {c}, I c → Keeps ctx I (rest c)) : Keeps ctx I (followed first rest) := by
  obtain ⟨r, c⟩ := first
  cases r with
  | error e => exact hfirst.error
  | ok found =>
      rw [followed_ok]
      exact (hrest hfirst.of_ok).map _

theorem collectMoves_keeps (h : Collector.Invariant g ctx topology hook I)
    {visit : Vertex → Trail → Collector σ → Outcome (Option ResultTree) × Collector σ}
    {trail : Trail} {ms : List (TrailStep × Vertex)}
    (hvisit : ∀ m ∈ ms, ∀ {c}, I c → Keeps ctx I (visit m.2 (trail.extend m.1) c)) (hc : I c) :
    Keeps ctx I (collectMoves visit trail ms c) := by
  induction ms generalizing c with
  | nil => exact .inl hc
  | cons m ms ih =>
      obtain ⟨step, w⟩ := m
      have hrest : ∀ {c}, I c → Keeps ctx I (collectMoves visit trail ms c) :=
        ih fun m hm => hvisit m (List.mem_cons_of_mem _ hm)
      rw [collectMoves_cons]
      split
      · exact hrest hc
      · exact (hvisit (step, w) List.mem_cons_self (h.meet _ hc)).followed hrest

/-- **The step lemma**: whatever it ends with, a call below a position keeps what
is kept by every node that it shows to the hook. -/
theorem collect_keeps (h : Collector.Invariant g ctx topology hook I) {levels : Nat} {v : Vertex}
    {trail : Trail} (hp : topology.Position trail) (hc : I c) :
    Keeps ctx I (collect g ctx topology hook levels v trail c) := by
  induction levels generalizing v trail c with
  | zero => exact .inl hc
  | succ levels ih =>
      unfold collect
      dsimp only
      split
      · next hover => exact .inr ⟨rfl, c, hc, hover, rfl⟩
      · next hroom =>
          have hseen := h.look (v := v) hp (Nat.le_of_not_lt hroom) hc
          split
          · next hhook => rw [hhook] at hseen; exact .inl hseen
          · next hhook => rw [hhook] at hseen; exact .inl hseen
          · next hhook => rw [hhook] at hseen; exact .inl hseen
          · next hhook =>
              rw [hhook] at hseen
              split
              · exact .inl hseen
              · split
                · exact .inl hseen
                · next neighbours _ =>
                  have hmoves : Keeps ctx I (collectMoves (collect g ctx topology hook levels) trail
                      (moves (topology.next trail) neighbours) _) :=
                    collectMoves_keeps h
                      (fun m hm _ hc => ih (hp.step (mem_moves.mp hm).1) hc) hseen
                  split
                  · next hfails =>
                      rw [Collector.counted, hfails] at hmoves
                      exact hmoves.error
                  · next hchildren =>
                      rw [Collector.counted, hchildren] at hmoves
                      exact .inl hmoves.of_ok

theorem collectFrom_keeps (h : Collector.Invariant g ctx topology hook I) {root : Vertex}
    (hc : I c) : Keeps ctx I (collectFrom g ctx topology hook root c) := by
  unfold collectFrom
  split
  · exact .inl hc
  · exact collect_keeps h .root (h.meet [root.id] hc)

/-- Walks from roots keep it one after another. -/
theorem collectAll_keeps (h : Collector.Invariant g ctx topology hook I) {roots : List Vertex}
    (hc : I c) : Keeps ctx I (collectAll g ctx topology hook roots c) := by
  induction roots generalizing c with
  | nil => exact .inl hc
  | cons root roots ih =>
      rw [collectAll_cons]
      exact (collectFrom_keeps h hc).followed ih

/-- Every node that a hook is shown stands at a position of the topology. -/
theorem position_of_sightings {roots : List Vertex} {s : σ} {x : Sighting}
    (hx : x ∈ sightings g ctx topology hook roots s) :
    ∃ t, topology.Position t ∧ t.key = x.node.trail := by
  have hinvariant : Collector.Invariant g ctx topology hook.noting fun c =>
      ∀ x ∈ c.hook.1, ∃ t, topology.Position t ∧ t.key = x.node.trail := by
    refine ⟨fun _ hc => hc, fun {c v trail} hp _ hc => ?_⟩
    intro x hx
    rcases List.mem_cons.mp hx with rfl | hx
    · exact ⟨trail, hp, rfl⟩
    · exact hc x hx
  have hkeeps : Keeps ctx _ (collectAll g ctx topology hook.noting roots { hook := ([], s) }) :=
    collectAll_keeps hinvariant fun x hx => absurd hx List.not_mem_nil
  rcases hkeeps with hall | ⟨-, c, hall, -, hc⟩
  · exact hall x hx
  · rw [sightings, hc] at hx
    exact hall x hx

end

end Inventory
