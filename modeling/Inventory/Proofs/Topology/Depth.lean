import Inventory.Proofs.Topology.Positions
import Inventory.Proofs.Trail

/-!
# Topology — how deep positions are

A descent has a level for every step of its trail and fails when none is left,
so the steps that it takes end within the levels. The hops of a linkage path are
noted without being visited, and end where the path does. Where texts are
legible every trail with a key is the one that the descent was at, so no position
is deeper than that.
-/

namespace Inventory

namespace Topology

variable {T : Topology} {t : Trail} {n : Nat}

/-- No name in the topology holds a separator at which a reader would end it. -/
structure Legible (T : Topology) : Prop where
  root : T.root.Legible
  steps : ∀ {k s}, s ∈ T.stepsAt k → s.Legible

/-- No walk along the topology takes more steps. -/
def Shallow (n : Nat) (T : Topology) : Prop := ∀ t, T.Position t → t.below.length ≤ n

/-- Legibility is a matter of the listed steps. -/
theorem legible_iff :
    T.Legible ↔ T.root.Legible ∧ ∀ e ∈ T.entries.entries, ∀ s ∈ e.2, s.Legible := by
  constructor
  · intro h
    refine ⟨h.root, fun ⟨k, l⟩ he s hs => ?_⟩
    have hlist : T.stepsAt k = l := by rw [stepsAt, Table.get?_eq_some_iff.mpr he]; rfl
    exact h.steps (hlist ▸ hs)
  · rintro ⟨hroot, hall⟩
    refine ⟨hroot, fun {k s} hs => ?_⟩
    unfold stepsAt at hs
    cases hk : T.entries.get? k with
    | none => rw [hk] at hs; cases hs
    | some l =>
        rw [hk] at hs
        exact hall _ (Table.get?_eq_some_iff.mp hk) s hs

instance (s : TrailStep) : Decidable s.Legible :=
  decidable_of_iff ((',' ∉ s.nodeType.toList ∧ '|' ∉ s.nodeType.toList) ∧
      (∀ p ∈ s.persona, ',' ∉ p.modelId.toList) ∧ ∀ p ∈ s.persona, '|' ∉ p.modelVersion.toList)
    ⟨fun h => ⟨h.1, h.2.1, h.2.2⟩, fun h => ⟨h.nodeType, h.modelId, h.modelVersion⟩⟩

instance (T : Topology) : Decidable T.Legible := decidable_of_iff _ legible_iff.symm

theorem Position.legible (hp : T.Position t) (h : T.Legible) : t.Legible := by
  induction hp with
  | root =>
      intro s hs
      rw [List.mem_singleton.mp hs]
      exact h.root
  | @step t s _ hs ih =>
      intro s' hs'
      have hsteps : (t.extend s).steps = t.steps ++ [s] := rfl
      rw [hsteps, List.mem_append, List.mem_singleton] at hs'
      rcases hs' with hs' | rfl
      · exact ih s' hs'
      · exact h.steps hs

/-- Where every step follows a position that is short of a depth, no position is
deeper. -/
theorem Checked.shallow (hc : T.Checked fun t _ => t.below.length < n) (h : T.Legible) :
    T.Shallow n := by
  intro t hp
  cases hp with
  | root => exact Nat.zero_le n
  | @step t s hp hs =>
      obtain ⟨t', hp', hkey, hshort⟩ := hc _ _ hs
      obtain rfl := Trail.key_inj (hp'.legible h) (hp.legible h) hkey
      simpa [Trail.extend, Nat.succ_le_iff] using hshort

end Topology

section

variable {g : Graph} {ctx : Context} {m : Model} {q : NamedQuery}

/-- Every linkage path of an element that the model places ends within the levels. -/
def Model.LinksWithin (g : Graph) (ctx : Context) (m : Model) : Prop :=
  ∀ {s p path}, m.StartsAt g ctx s → s.Reaches g ctx .topology p →
    path ∈ p.element.linkagePoints →
      p.trail.below.length + (path.beyond p.trail).length ≤ ctx.limits.levels

theorem sanctions_levels (hlinks : m.LinksWithin g ctx) :
    Sanctions g ctx (fun t _ => t.below.length < ctx.limits.levels) fun n p =>
      p.trail.below.length + n ≤ ctx.limits.levels + 1 ∧
        ∃ s, m.StartsAt g ctx s ∧ s.Reaches g ctx .topology p where
  hop hfit hpath hhops hm := by
    obtain ⟨-, s, hs, hreach⟩ := hfit
    exact Nat.lt_of_lt_of_le (hop_of_mem hhops hm).2 (hlinks hs hreach hpath)
  step hfit _ _ := by
    obtain ⟨hlevels, -⟩ := hfit
    omega
  move hfit hm := by
    obtain ⟨hlevels, s, hs, hreach⟩ := hfit
    refine ⟨?_, s, hs, hreach.tail ⟨_, hm⟩⟩
    cases hm with
    | graft => dsimp only; omega
    | connect => simp only [Trail.extend, List.length_append, List.length_singleton]; omega

theorem querySanctions_levels (ctx : Context) :
    QuerySanctions ctx (fun t _ => t.below.length < ctx.limits.levels) fun n t =>
      t.below.length + n ≤ ctx.limits.levels + 1 where
  step hfit _ := by omega
  move s hfit := by
    simp only [Trail.extend, List.length_append, List.length_singleton]
    omega

theorem shallow_ofModel {T : Topology} (h : Topology.ofModel g ctx m = .ok T) (hT : T.Legible)
    (hlinks : m.LinksWithin g ctx) : T.Shallow ctx.limits.levels := by
  refine Topology.Checked.shallow (checked_ofModel (sanctions_levels hlinks) (fun hs => ?_) h) hT
  have hroot := hs
  obtain ⟨-, top, root, -, -, rfl⟩ := hroot
  exact ⟨by simp [Place.start, Context.levelsFrom], _, hs, .refl⟩

theorem shallow_ofQuery {c : QueryTopology} (h : QueryTopology.ofQuery g ctx q = .ok c)
    (hc : c.topology.Legible) : c.topology.Shallow ctx.limits.levels :=
  Topology.Checked.shallow
    (checked_ofQuery (querySanctions_levels ctx) (by simp [Context.levelsFrom]) h) hc

end

end Inventory
