import Inventory.Catalog
import Inventory.Proofs.Outcome

/-!
# Rule — dependence in a built table

What a look-up finds is a rule of the table for the pair. A table built from a
list has one rule per unordered pair, so that rule is the only one, and the
types listed as dependent are exactly those that a look-up calls dependent.
-/

namespace Inventory

/-! ## Pairs of types -/

/-- The rule is for two types, in this order or in the other one. -/
def EdgeRule.Names (r : EdgeRule) (a b : NodeType) : Prop :=
  (r.source = a ∧ r.target = b) ∨ (r.source = b ∧ r.target = a)

/-- A rule for the two types of another has its two types named by that one. -/
theorem EdgeRule.Names.swap {r s : EdgeRule} (h : s.Names r.source r.target) :
    r.Names s.source s.target := by
  rcases h with ⟨hsource, htarget⟩ | ⟨hsource, htarget⟩
  · exact .inl ⟨hsource.symm, htarget.symm⟩
  · exact .inr ⟨htarget.symm, hsource.symm⟩

namespace RuleTable

/-! ## Look-ups -/

theorem mem_of_direct? {t : RuleTable} {a b : NodeType} {r : EdgeRule}
    (h : t.direct? a b = some r) : r ∈ t.rules ∧ r.source = a ∧ r.target = b := by
  have hfor := List.find?_some h
  simp only [EdgeRule.isFor, Bool.and_eq_true, beq_iff_eq] at hfor
  exact ⟨List.mem_of_find?_eq_some h, hfor⟩

/-- What is found for a pair is a rule of the table that names the pair. -/
theorem mem_of_lookup {t : RuleTable} {a b : NodeType} {m : RuleMatch}
    (h : t.lookup a b = some m) : m.rule ∈ t.rules ∧ m.rule.Names a b := by
  unfold lookup at h
  cases hab : t.direct? a b with
  | some r =>
      rw [hab] at h
      cases h
      exact ⟨(mem_of_direct? hab).1, .inl (mem_of_direct? hab).2⟩
  | none =>
      simp only [hab, Option.map_eq_some_iff] at h
      obtain ⟨r, hba, hm⟩ := h
      cases hm
      exact ⟨(mem_of_direct? hba).1, .inr (mem_of_direct? hba).2⟩

/-- Some rule is for the pair of types, in either order. -/
def Connects (t : RuleTable) (a b : NodeType) : Prop :=
  ∃ r ∈ t.rules, r.Names a b

theorem connects_of_require {t : RuleTable} {a b : NodeType} {m : RuleMatch}
    (h : t.require a b = .ok m) : t.Connects a b :=
  ⟨m.rule, mem_of_lookup (require_eq_ok.mp h)⟩

/-! ## One rule per pair -/

/-- No two rules of the table are for the same pair, in either order. -/
def OnePerPair (t : RuleTable) : Prop :=
  t.rules.Pairwise fun r s =>
    s.isFor r.source r.target = false ∧ s.isFor r.target r.source = false

theorem not_isFor_of_lookup {t : RuleTable} {a b : NodeType} (h : t.lookup a b = none) :
    ∀ s ∈ t.rules, s.isFor a b = false ∧ s.isFor b a = false := by
  unfold lookup direct? at h
  split at h
  · cases h
  · next hab =>
      have hba : t.rules.find? (·.isFor b a) = none := by simpa using h
      intro s hs
      exact ⟨by simpa using List.find?_eq_none.mp hab s hs,
        by simpa using List.find?_eq_none.mp hba s hs⟩

theorem OnePerPair.add {t t' : RuleTable} {r : EdgeRule} (ht : t.OnePerPair)
    (h : t.add r = .ok t') : t'.OnePerPair := by
  unfold RuleTable.add at h
  split at h
  · split at h
    · cases h; exact ht
    · cases h
  · next hnone =>
      cases h
      refine List.pairwise_append.mpr ⟨ht, List.pairwise_singleton _ _, fun s hs r' hr' => ?_⟩
      cases List.mem_singleton.mp hr'
      have := not_isFor_of_lookup hnone s hs
      simp only [EdgeRule.isFor, Bool.and_eq_false_iff, beq_eq_false_iff_ne] at this ⊢
      grind

theorem onePerPair_ofList {rs : List EdgeRule} {t : RuleTable}
    (h : RuleTable.ofList rs = .ok t) : t.OnePerPair := by
  suffices ∀ (t₀ : RuleTable), t₀.OnePerPair → rs.foldlM RuleTable.add t₀ = .ok t →
      t.OnePerPair from this empty .nil h
  clear h
  induction rs with
  | nil => intro t₀ h₀ h; cases h; exact h₀
  | cons r rs ih =>
      intro t₀ h₀ h
      obtain ⟨t₁, h₁, h⟩ := Outcome.foldlM_cons_eq_ok.mp h
      exact ih t₁ (h₀.add h₁) h

theorem onePerPair_ofSource {s : CatalogSource} {c : Catalog}
    (h : Catalog.ofSource s = .ok c) : c.rules.OnePerPair := by
  obtain ⟨t, ht, h⟩ := Outcome.bind_eq_ok.mp h
  cases h
  exact onePerPair_ofList ht

/-- The rules of the table that are for the same two types are one rule. -/
theorem OnePerPair.eq_of_names {t : RuleTable} (ht : t.OnePerPair) {r s : EdgeRule}
    (hr : r ∈ t.rules) (hs : s ∈ t.rules) (hnames : s.Names r.source r.target) : s = r := by
  have hapart : t.rules.Pairwise fun r s => s ≠ r → ¬ s.Names r.source r.target := by
    refine ht.imp fun {r s} h _ hnames => ?_
    simp only [EdgeRule.isFor, Bool.and_eq_false_iff, beq_eq_false_iff_ne] at h
    unfold EdgeRule.Names at hnames
    grind
  by_contra hdiffer
  exact List.Pairwise.forall_of_forall_of_flip (fun _ _ h => absurd rfl h) hapart
    (hapart.imp fun h hne hn => h hne.symm hn.swap) hr hs hdiffer hnames

/-! ## Dependent types -/

theorem direct?_eq_some {t : RuleTable} (ht : t.OnePerPair) {a b : NodeType} {r : EdgeRule} :
    t.direct? a b = some r ↔ r ∈ t.rules ∧ r.source = a ∧ r.target = b := by
  refine ⟨mem_of_direct?, fun ⟨hr, hsource, htarget⟩ => ?_⟩
  obtain ⟨s, hs⟩ : ∃ s, t.direct? a b = some s := by
    rw [← Option.isSome_iff_exists, direct?, List.find?_isSome]
    exact ⟨r, hr, by simp [EdgeRule.isFor, hsource, htarget]⟩
  obtain ⟨hmem, hsource', htarget'⟩ := mem_of_direct? hs
  rw [hs, ht.eq_of_names hr hmem (.inl ⟨hsource'.trans hsource.symm, htarget'.trans htarget.symm⟩)]

theorem mem_dependentTypes {t : RuleTable} {parent child : NodeType} :
    child ∈ t.dependentTypes parent ↔
      ∃ r ∈ t.rules, r.dependent = true ∧ r.source = parent ∧ r.target = child := by
  simp [dependentTypes, List.mem_mergeSort, and_assoc]

/-- The listed types are those of which a look-up says that they depend. -/
theorem mem_dependentTypes_iff {t : RuleTable} (ht : t.OnePerPair) {parent child : NodeType} :
    child ∈ t.dependentTypes parent ↔ t.isDependent parent child = true := by
  rw [mem_dependentTypes]
  constructor
  · rintro ⟨r, hr, hd, hs, htgt⟩
    simp [isDependent, (direct?_eq_some ht).mpr ⟨hr, hs, htgt⟩, hd]
  · intro h
    cases hr : t.direct? parent child with
    | none => simp [isDependent, hr] at h
    | some r =>
        obtain ⟨hmem, hs, htgt⟩ := (direct?_eq_some ht).mp hr
        exact ⟨r, hmem, by simpa [isDependent, hr] using h, hs, htgt⟩

end RuleTable

end Inventory
