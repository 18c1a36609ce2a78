import Mathlib.Data.List.Induction
import Inventory.Proofs.Topology.Ordered
import Inventory.Proofs.Trail

/-!
# Topology — trails with one key

A topology lists under a trail what was inserted under any trail with its key.
`keeps_trails_apart` says when that is what was inserted under the trail itself:
always among legible trails, and not where a name holds a separator.
-/

namespace Inventory

/-! ## Insertions -/

namespace Topology

/-- The topology that insertions of steps under trails build, in order. -/
def ofSteps (root : TrailStep) (es : List (Trail × TrailStep)) : Topology :=
  es.foldl (fun T e => T.insert e.1 e.2) ⟨root, ∅⟩

theorem ofSteps_concat (root : TrailStep) (es : List (Trail × TrailStep)) (t : Trail)
    (s : TrailStep) : ofSteps root (es ++ [(t, s)]) = (ofSteps root es).insert t s := by
  simp [ofSteps]

theorem ordered_ofSteps (root : TrailStep) (es : List (Trail × TrailStep)) :
    (ofSteps root es).Ordered := by
  induction es using List.reverseRecOn with
  | nil => exact ordered_root root
  | append_singleton es e ih =>
      rw [ofSteps_concat]
      exact ih.insert _ _

/-- Under a trail stands what was inserted under some trail with its key. -/
theorem mem_next_ofSteps {root : TrailStep} {es : List (Trail × TrailStep)} {t : Trail}
    {s : TrailStep} :
    s ∈ (ofSteps root es).next t ↔ ∃ t', (t', s) ∈ es ∧ t'.key = t.key := by
  induction es using List.reverseRecOn with
  | nil => simp [ofSteps, next, Table.get?_empty, EmptyCollection.emptyCollection]
  | append_singleton es e ih =>
      rw [ofSteps_concat, mem_next_insert, ih]
      constructor
      · intro h
        rcases h with ⟨hk, rfl⟩ | ⟨t', hmem, hk⟩
        · exact ⟨e.1, by simp, hk.symm⟩
        · exact ⟨t', by simp [hmem], hk⟩
      · intro h
        obtain ⟨t', hmem, hk⟩ := h
        rcases List.mem_append.mp hmem with hmem | hmem
        · exact .inr ⟨t', hmem, hk⟩
        · rw [List.mem_singleton] at hmem
          subst hmem
          exact .inl ⟨hk.symm, rfl⟩

/-- Under the trail are listed the steps that were inserted there, each once and
in step order. -/
def Separates (root : TrailStep) (es : List (Trail × TrailStep)) (t : Trail) : Prop :=
  Rising ((ofSteps root es).next t) ∧ ∀ s, s ∈ (ofSteps root es).next t ↔ (t, s) ∈ es

/-- Another trail with the same key lends its steps to a trail. -/
def Lends (es : List (Trail × TrailStep)) (t : Trail) : Prop :=
  ∃ t' s, (t', s) ∈ es ∧ t'.key = t.key ∧ (t, s) ∉ es

theorem separates_iff {root : TrailStep} {es : List (Trail × TrailStep)} {t : Trail} :
    Separates root es t ↔ ¬ Lends es t := by
  constructor
  · intro hseparates hlends
    obtain ⟨-, hmem⟩ := hseparates
    obtain ⟨t', s, hs, hk, hnot⟩ := hlends
    exact hnot ((hmem s).mp (mem_next_ofSteps.mpr ⟨t', hs, hk⟩))
  · intro hlends
    refine ⟨Ordered.rising (ordered_ofSteps root es) t.key, fun s => ?_⟩
    rw [mem_next_ofSteps]
    constructor
    · intro h
      obtain ⟨t', hs, hk⟩ := h
      by_contra hnot
      exact hlends ⟨t', s, hs, hk, hnot⟩
    · intro hs
      exact ⟨t, hs, rfl⟩

theorem next_insert_eq_iff {root : TrailStep} {es : List (Trail × TrailStep)} {t t' : Trail}
    {s : TrailStep} :
    ((ofSteps root es).insert t' s).next t = (ofSteps root es).next t ↔
      t.key ≠ t'.key ∨ s ∈ (ofSteps root es).next t := by
  constructor
  · intro h
    by_cases hk : t.key = t'.key
    · exact .inr (h ▸ mem_next_insert.mpr (.inl ⟨hk, rfl⟩))
    · exact .inl hk
  · intro h
    have hordered : (ofSteps root es).Ordered := ordered_ofSteps root es
    refine Rising.ext (Ordered.rising (hordered.insert t' s) t.key) (hordered.rising t.key)
      fun s' => ?_
    rw [mem_next_insert]
    constructor
    · intro hs
      rcases hs with ⟨hk, rfl⟩ | hs
      · exact h.resolve_left fun hne => hne hk
      · exact hs
    · exact .inr

theorem not_lends_of_legible {es : List (Trail × TrailStep)} {t : Trail} (ht : t.Legible)
    (hes : ∀ e ∈ es, e.1.Legible) : ¬ Lends es t := by
  intro hlends
  obtain ⟨t', s, hs, hk, hnot⟩ := hlends
  have heq : t' = t := Trail.key_inj (hes _ hs) ht hk
  exact hnot (heq ▸ hs)

/-- **Trails are kept apart as far as their keys are.** After any insertions a
trail has, each once and in step order, the steps that were inserted under it,
and these alone exactly when no other trail with its key lends it one. An
insertion under another trail changes what it has exactly when the keys are one
and the step is new. Legible trails have different keys, so that all that is
inserted under legible trails is kept apart. -/
theorem keeps_trails_apart (root : TrailStep) (es : List (Trail × TrailStep)) (t : Trail) :
    (Separates root es t ↔ ¬ Lends es t) ∧
      (∀ t' s, ((ofSteps root es).insert t' s).next t = (ofSteps root es).next t ↔
        t.key ≠ t'.key ∨ s ∈ (ofSteps root es).next t) ∧
      (t.Legible → (∀ e ∈ es, e.1.Legible) → Separates root es t) ∧
      (t.Legible → ∀ t', t'.Legible → t ≠ t' → t.key ≠ t'.key ∧
        ∀ s, ((ofSteps root es).insert t' s).next t = (ofSteps root es).next t) := by
  refine ⟨separates_iff, fun _ _ => next_insert_eq_iff, fun ht hes => ?_, fun ht t' ht' hne => ?_⟩
  · exact separates_iff.mpr (not_lends_of_legible ht hes)
  · have hkey : t.key ≠ t'.key := fun h => hne (Trail.key_inj ht ht' h)
    exact ⟨hkey, fun s => next_insert_eq_iff.mpr (.inl hkey)⟩

/-! ### Two trails with one key -/

namespace Keys

def bare (t : NodeType) : TrailStep := ⟨t, none⟩

/-- From a service over a server. -/
def overServer : Trail := ⟨⟨"service", some ⟨"svc", "1.0"⟩⟩, [bare "server"]⟩

/-- From a service of another version over a server. -/
def overLater : Trail := ⟨⟨"service", some ⟨"svc", "1.1"⟩⟩, [bare "server"]⟩

theorem legible_overServer : overServer.Legible := by
  intro s hs
  simp only [Trail.steps, overServer, List.mem_cons, List.not_mem_nil, or_false] at hs
  rcases hs with rfl | rfl <;> exact ⟨by decide, by decide, by decide⟩

theorem legible_overLater : overLater.Legible := by
  intro s hs
  simp only [Trail.steps, overLater, List.mem_cons, List.not_mem_nil, or_false] at hs
  rcases hs with rfl | rfl <;> exact ⟨by decide, by decide, by decide⟩

/-- Trails that differ in the version of a persona have steps of their own. -/
theorem keeps_trails_apart_versions :
    overServer.Legible ∧ overLater.Legible ∧ overServer ≠ overLater ∧
      Separates overServer.root
        [(overServer, bare "disk"), (overLater, bare "port"), (overServer, bare "disk")]
        overServer ∧
      overServer.key ≠ overLater.key := by
  have hne : overServer ≠ overLater := by decide
  obtain ⟨-, -, hseparates, hkeys⟩ := keeps_trails_apart overServer.root
    [(overServer, bare "disk"), (overLater, bare "port"), (overServer, bare "disk")] overServer
  refine ⟨legible_overServer, legible_overLater, hne, hseparates legible_overServer ?_,
    (hkeys legible_overServer overLater legible_overLater hne).1⟩
  simp only [List.forall_mem_cons, legible_overServer, legible_overLater, List.not_mem_nil,
    false_implies, implies_true, and_self]

/-- Over a node type whose name holds a bar. -/
def overBarred : Trail := ⟨bare "a", [bare "b|c"]⟩

/-- Over the node types on both sides of the bar. -/
def overBoth : Trail := ⟨bare "a", [bare "b", bare "c"]⟩

/-- Nothing was inserted under the longer trail, and it has the step that was
inserted under the shorter one. -/
theorem not_separates_overBarred :
    overBoth ≠ overBarred ∧ overBoth.key = overBarred.key ∧
      (ofSteps (bare "a") [(overBarred, bare "d")]).next overBoth = [bare "d"] ∧
      ¬ Separates (bare "a") [(overBarred, bare "d")] overBoth := by
  have hnext : (ofSteps (bare "a") [(overBarred, bare "d")]).next overBoth = [bare "d"] := by
    decide
  refine ⟨by decide, by decide, hnext, ?_⟩
  rintro ⟨-, hmem⟩
  have hinserted := (hmem (bare "d")).mp (by rw [hnext]; simp)
  simp [overBoth, overBarred, bare] at hinserted

end Keys

end Topology

end Inventory
