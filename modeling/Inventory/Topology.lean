import Inventory.Trail

/-!
# Topology — the legal next steps

A topology has a root step and lists, under the key of each trail, the steps
that may follow it: each once, in step order.
-/

namespace Inventory

/-! ## Ordered step lists -/

/-- Put a step at its place in an ordered list, once. -/
def insertStep (s : TrailStep) : List TrailStep → List TrailStep
  | [] => [s]
  | t :: rest =>
    if s = t then t :: rest
    else if s.before t then s :: t :: rest
    else t :: insertStep s rest

theorem mem_insertStep {s t : TrailStep} {l : List TrailStep} :
    t ∈ insertStep s l ↔ t = s ∨ t ∈ l := by
  induction l with
  | nil => simp [insertStep]
  | cons hd tl ih =>
    unfold insertStep
    split
    · next h => subst h; simp
    · split
      · simp
      · simp [ih]; constructor <;> (rintro (h | h | h) <;> simp [h])

/-! ## Topologies -/

/-- The legal next steps of every trail from one root. -/
structure Topology where
  root : TrailStep
  entries : Table (List TrailStep) := ∅
  deriving DecidableEq

namespace Topology

/-- The trail of the root alone. -/
def rootTrail (t : Topology) : Trail := ⟨t.root, []⟩

/-- The steps that may follow a trail. -/
def next (t : Topology) (trail : Trail) : List TrailStep := (t.entries.get? trail.key).getD []

/-- Let a step follow a trail. -/
def insert (t : Topology) (trail : Trail) (s : TrailStep) : Topology :=
  { t with entries := t.entries.put trail.key (insertStep s (t.next trail)) }

/-- The number of trails that can be followed by some step. -/
def size (t : Topology) : Nat := t.entries.size

/-- The texts of a list, rising and each once. -/
def distinctTexts (xs : List String) : List String :=
  (Table.ofList (xs.map (·, ()))).keys

/-- The topology in texts: under each trail key the texts of its next steps. -/
def rendered (t : Topology) : Table (List String) :=
  t.entries.map fun steps => distinctTexts (steps.map TrailStep.render)

@[simp] theorem root_insert (t : Topology) (trail : Trail) (s : TrailStep) :
    (t.insert trail s).root = t.root := rfl

/-- Inserting under a trail is seen under every trail with its key. -/
theorem mem_next_insert {t : Topology} {trail trail' : Trail} {s s' : TrailStep} :
    s' ∈ (t.insert trail s).next trail' ↔
      (trail'.key = trail.key ∧ s' = s) ∨ s' ∈ t.next trail' := by
  unfold next insert
  simp only [Table.get?_put]
  split
  · next h => simp [mem_insertStep, h, next]
  · next h => simp [h]

end Topology

end Inventory
