import Inventory.Topology

/-!
# Topology — equal topologies

The steps of a trail are listed in strict step order, and no trail is listed
without a step. So two topologies with one root are equal as soon as they let
the same steps follow the same trails.
-/

namespace Inventory

/-! ## Step order -/

namespace TrailStep

theorem before_iff {s t : TrailStep} : s.before t = true ↔ s.parts < t.parts :=
  decide_eq_true_iff

theorem before_trans {s t u : TrailStep} (h : s.before t = true) (h' : t.before u = true) :
    s.before u = true :=
  before_iff.mpr (List.lt_trans (before_iff.mp h) (before_iff.mp h'))

theorem not_before_self (s : TrailStep) : ¬ s.before s = true :=
  fun h => List.lt_irrefl s.parts (before_iff.mp h)

theorem before_of_ne {s t : TrailStep} (hne : s ≠ t) (h : ¬ s.before t = true) :
    t.before s = true := by
  rcases Std.lt_trichotomy s.parts t.parts with hlt | heq | hgt
  · exact absurd (before_iff.mpr hlt) h
  · exact absurd (parts_injective heq) hne
  · exact before_iff.mpr hgt

end TrailStep

/-- The steps are listed in strict step order. -/
def Rising (l : List TrailStep) : Prop := l.Pairwise fun s t => s.before t = true

theorem Rising.insertStep {l : List TrailStep} (h : Rising l) (s : TrailStep) :
    Rising (insertStep s l) := by
  induction l with
  | nil => exact List.pairwise_singleton _ _
  | cons t l ih =>
      obtain ⟨ht, hl⟩ := List.pairwise_cons.mp h
      unfold Inventory.insertStep
      split
      · exact h
      · next hne =>
          split
          · next hlt =>
              refine List.pairwise_cons.mpr ⟨?_, h⟩
              rw [List.forall_mem_cons]
              exact ⟨hlt, fun u hu => TrailStep.before_trans hlt (ht u hu)⟩
          · next hlt =>
              refine List.pairwise_cons.mpr ⟨fun u hu => ?_, ih hl⟩
              rcases mem_insertStep.mp hu with rfl | hu
              · exact TrailStep.before_of_ne hne hlt
              · exact ht u hu

theorem Rising.nodup {l : List TrailStep} (h : Rising l) : l.Nodup := by
  refine List.Pairwise.imp (fun {s t} hlt heq => ?_) h
  subst heq
  exact TrailStep.not_before_self s hlt

/-- Steps in order are determined by which they are. -/
theorem Rising.ext {l l' : List TrailStep} (h : Rising l) (h' : Rising l')
    (hmem : ∀ s, s ∈ l ↔ s ∈ l') : l = l' := by
  have hperm : l.Perm l' := (List.perm_ext_iff_of_nodup h.nodup h'.nodup).mpr hmem
  refine List.Perm.eq_of_pairwise (fun s t _ _ hst hts => ?_) h h' hperm
  exact absurd (TrailStep.before_trans hst hts) (TrailStep.not_before_self s)

namespace Topology

/-! ## Ordered topologies -/

/-- The steps that may follow the trails with a key. -/
def stepsAt (t : Topology) (k : String) : List TrailStep := (t.entries.get? k).getD []

theorem next_eq (t : Topology) (trail : Trail) : t.next trail = t.stepsAt trail.key := rfl

theorem mem_stepsAt_insert {t : Topology} {trail : Trail} {s s' : TrailStep} {k : String} :
    s' ∈ (t.insert trail s).stepsAt k ↔ (k = trail.key ∧ s' = s) ∨ s' ∈ t.stepsAt k := by
  unfold stepsAt insert
  rw [Table.get?_put]
  split
  · next h => simp [mem_insertStep, h, next]
  · next h => simp [h]

/-- Every key that is listed has steps, in order. -/
def Ordered (t : Topology) : Prop :=
  ∀ {k l}, t.entries.get? k = some l → l ≠ [] ∧ Rising l

theorem ordered_root (root : TrailStep) : Ordered ⟨root, ∅⟩ := by
  intro k l h
  cases h

theorem Ordered.rising {t : Topology} (h : t.Ordered) (k : String) : Rising (t.stepsAt k) := by
  unfold stepsAt
  cases hk : t.entries.get? k with
  | none => exact .nil
  | some l => exact (h hk).2

theorem Ordered.insert {t : Topology} (h : t.Ordered) (trail : Trail) (s : TrailStep) :
    (t.insert trail s).Ordered := by
  intro k l hk
  simp only [Topology.insert, Table.get?_put] at hk
  split at hk
  · cases hk
    exact ⟨List.ne_nil_of_mem (mem_insertStep.mpr (.inl rfl)), (h.rising trail.key).insertStep s⟩
  · exact h hk

/-- **Topologies are equal** when they have one root and let the same steps
follow the same trails. -/
theorem Ordered.ext {t t' : Topology} (h : t.Ordered) (h' : t'.Ordered) (hroot : t.root = t'.root)
    (hsteps : ∀ k s, s ∈ t.stepsAt k ↔ s ∈ t'.stepsAt k) : t = t' := by
  have hlists : ∀ k, t.stepsAt k = t'.stepsAt k :=
    fun k => (h.rising k).ext (h'.rising k) (hsteps k)
  have hentries : t.entries = t'.entries := by
    refine Table.ext fun k => ?_
    have := hlists k
    unfold stepsAt at this
    cases hk : t.entries.get? k with
    | none =>
        cases hk' : t'.entries.get? k with
        | none => rfl
        | some l' => simp only [hk, hk', Option.getD] at this; exact absurd this.symm (h' hk').1
    | some l =>
        cases hk' : t'.entries.get? k with
        | none => simp only [hk, hk', Option.getD] at this; exact absurd this (h hk).1
        | some l' => simp only [hk, hk', Option.getD] at this; rw [this]
  cases t
  cases t'
  simp_all

end Topology

end Inventory
