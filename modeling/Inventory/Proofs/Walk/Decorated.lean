import Inventory.Removal.Pass
import Inventory.Proofs.ResultTree

/-!
# Walk — decorated walks

A hook that decorates nodes has no say in where a walk goes: as long as it leaves
every node at its vertex, the decorated walk meets, counts and refuses exactly what
the plain walk does, and its tree is the plain tree with every node decorated. So
planning a delete only writes flags onto the instance.
-/

namespace Inventory

/-! ## Trees node by node -/

namespace ResultTree

mutual

/-- The tree of the same shape with every node changed. -/
def mapNodes (f : ResultNode → ResultNode) : ResultTree → ResultTree
  | .node n cs => .node (f n) (mapNodesAll f cs)

/-- The same for each of the trees. -/
def mapNodesAll (f : ResultNode → ResultNode) : List ResultTree → List ResultTree
  | [] => []
  | t :: ts => t.mapNodes f :: mapNodesAll f ts

end

variable (f : ResultNode → ResultNode)

theorem mapNodesAll_append (ts us : List ResultTree) :
    mapNodesAll f (ts ++ us) = mapNodesAll f ts ++ mapNodesAll f us := by
  induction ts with
  | nil => rfl
  | cons t ts ih => rw [List.cons_append, mapNodesAll, mapNodesAll, ih, List.cons_append]

theorem mapNodesAll_toList (found : Option ResultTree) :
    mapNodesAll f found.toList = (found.map (mapNodes f)).toList := by
  cases found with
  | none => rfl
  | some t => rfl

end ResultTree

open ResultTree

/-! ## The decorated walk -/

section

variable (f : ResultNode → ResultNode)

/-- What a call ends with when what it built is decorated; the collector stays. -/
def Outcome.decorated {α : Type} (deco : α → α) (r : Outcome α × Collector Unit) :
    Outcome α × Collector Unit := (r.1.map deco, r.2)

/-- Moves whose visits are decorated build the decorated trees. -/
theorem collectMoves_decorated
    {visit visit' : Vertex → Trail → Collector Unit → Outcome (Option ResultTree) × Collector Unit}
    (hvisit : ∀ v trail c,
      visit' v trail c = Outcome.decorated (Option.map (mapNodes f)) (visit v trail c))
    (trail : Trail) (ms : List (TrailStep × Vertex)) (c : Collector Unit) :
    collectMoves visit' trail ms c =
      Outcome.decorated (mapNodesAll f) (collectMoves visit trail ms c) := by
  induction ms generalizing c with
  | nil => rfl
  | cons m ms ih =>
      obtain ⟨step, w⟩ := m
      rw [collectMoves, collectMoves]
      split
      · exact ih c
      · rw [hvisit]
        cases visit w (trail.extend step) { c with visited := w.id :: c.visited } with
        | mk r c₁ =>
          cases r with
          | error e => rfl
          | ok found =>
              simp only [Outcome.decorated, Except.map, ih]
              cases collectMoves visit trail ms c₁ with
              | mk r c₂ =>
                cases r with
                | error e => rfl
                | ok trees =>
                    simp only [mapNodesAll_append, mapNodesAll_toList]

variable {g : Graph} {ctx : Context} {topology : Topology}

/-- **The step lemma**: a decorated call meets and counts what the plain call does,
fails as it does, and builds its tree with every node decorated. -/
theorem collect_decorated (hf : ∀ n, (f n).vertex = n.vertex) (levels : Nat) (v : Vertex)
    (trail : Trail) (c : Collector Unit) :
    collect g ctx topology (Hook.decorate f) levels v trail c =
      Outcome.decorated (Option.map (mapNodes f))
        (collect g ctx topology (Hook.decorate id) levels v trail c) := by
  induction levels generalizing v trail c with
  | zero => rfl
  | succ levels ih =>
      have hmoves := collectMoves_decorated f ih trail
      simp only [collect, Hook.decorate, id, hf]
      split
      · rfl
      · split
        · rfl
        · split
          · rfl
          · next neighbours _ =>
              rw [hmoves]
              cases collectMoves (collect g ctx topology (Hook.decorate id) levels) trail
                (moves (topology.next trail) neighbours)
                { visited := c.visited, count := c.count + 1, hook := c.hook } with
              | mk r c' =>
                cases r with
                | error e => rfl
                | ok children => rfl

theorem collectFrom_decorated (hf : ∀ n, (f n).vertex = n.vertex) (root : Vertex)
    (c : Collector Unit) :
    collectFrom g ctx topology (Hook.decorate f) root c =
      Outcome.decorated (Option.map (mapNodes f))
        (collectFrom g ctx topology (Hook.decorate id) root c) := by
  rw [collectFrom, collectFrom]
  split
  · rfl
  · exact collect_decorated f hf ..

/-- A decorated instance is the instance decorated, and is refused with the same error. -/
theorem collectDecorated_eq_map (hf : ∀ n, (f n).vertex = n.vertex) (root : Vertex) :
    collectDecorated g ctx topology f root =
      (collectInstance g ctx topology root).map (mapNodes f) := by
  rw [collectInstance, collectDecorated, collectDecorated, collectFrom_decorated f hf]
  cases collectFrom g ctx topology (Hook.decorate id) root { hook := () } with
  | mk r c =>
    cases r with
    | error e => rfl
    | ok found => cases found <;> rfl

end

/-! ## Planned deletes -/

/-- **Planning a delete only marks the instance.** On every graph, under every context
and from every root, the flagged walk along a topology ends as the plain walk does:
with the same error, or with the same tree in which each node is marked with the
flag of its trail, and unmarked when its trail has none. A plan is the instance
along the model's topology, marked with the model's flags. -/
theorem collectFlagged_decorates (g : Graph) (ctx : Context) :
    (∀ (topology : Topology) (flags : DeleteFlags) (root : Vertex),
      collectFlagged g ctx topology flags root =
        (collectInstance g ctx topology root).map
          (mapNodes fun n => { n with delete := (flags.get? n.trail).getD false })) ∧
      ∀ (root : Vertex) (m : Model), planDelete g ctx root m = (do
        let topology ← Topology.ofModel g ctx m
        let flags ← DeleteFlags.ofModel g ctx m
        (collectInstance g ctx topology root).map
          (mapNodes fun n => { n with delete := (flags.get? n.trail).getD false })) := by
  have hflagged : ∀ (topology : Topology) (flags : DeleteFlags) (root : Vertex),
      collectFlagged g ctx topology flags root =
        (collectInstance g ctx topology root).map (mapNodes flags.mark) :=
    fun topology flags root => collectDecorated_eq_map flags.mark (fun _ => rfl) root
  refine ⟨hflagged, fun root m => ?_⟩
  simp only [planDelete, hflagged]
  rfl

end Inventory
