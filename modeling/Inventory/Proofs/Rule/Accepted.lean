import Mathlib.Data.List.Sort
import Mathlib.Data.String.Basic
import Inventory.Proofs.Rule.Dependence

/-!
# Rule — the lists of rules that make a table

A list is refused exactly when two of its rules differ although they are for the
same two types. A table that is built holds the rules of its list and one rule
for each pair, so what it answers depends on neither the order in which the rules
are given nor how often each is given.
-/

namespace Inventory

/-! ## Lists of rules -/

/-- Rules for the same two types are one rule. -/
def AgreeOnPairs (rs : List EdgeRule) : Prop :=
  ∀ r ∈ rs, ∀ s ∈ rs, s.Names r.source r.target → s = r

theorem AgreeOnPairs.of_mem {rs rs' : List EdgeRule} (h : AgreeOnPairs rs)
    (hmem : ∀ r ∈ rs', r ∈ rs) : AgreeOnPairs rs' :=
  fun r hr s hs => h r (hmem r hr) s (hmem s hs)

/-- What was found for a pair, as it is found for the reversed pair. -/
def RuleMatch.turned (m : RuleMatch) : RuleMatch := ⟨m.rule, !m.reversed⟩

namespace RuleTable

variable {t t' : RuleTable} {r : EdgeRule} {a b : NodeType}

/-! ## What a look-up finds -/

theorem OnePerPair.agree (ht : t.OnePerPair) : AgreeOnPairs t.rules := by
  intro r hr s hs hnames
  exact ht.eq_of_names hr hs hnames

/-- A look-up finds the rule of the table that is for the pair, and it is
reversed exactly when the rule is for the other order only. -/
theorem OnePerPair.lookup_eq_some (ht : t.OnePerPair) {m : RuleMatch} :
    t.lookup a b = some m ↔ m.rule ∈ t.rules ∧
      if m.reversed then m.rule.source = b ∧ m.rule.target = a ∧ a ≠ b
      else m.rule.source = a ∧ m.rule.target = b := by
  obtain ⟨r, reversed⟩ := m
  unfold lookup
  cases hab : t.direct? a b with
  | some s =>
      obtain ⟨hs, hsource, htarget⟩ := (direct?_eq_some ht).mp hab
      cases reversed with
      | false =>
          simp only [Option.some.injEq, RuleMatch.mk.injEq, and_true, Bool.false_eq_true, if_false]
          rw [← direct?_eq_some ht, hab, Option.some.injEq]
      | true =>
          -- a rule for the other order would be a second one for the pair
          simp only [Option.some.injEq, RuleMatch.mk.injEq, Bool.false_eq_true, and_false,
            if_true, false_iff]
          intro ⟨hr, hrsource, hrtarget, hne⟩
          have hsame : r = s := ht.agree s hs r hr
            (.inr ⟨hrsource.trans htarget.symm, hrtarget.trans hsource.symm⟩)
          apply hne
          rw [← hsource, ← hsame, hrsource]
  | none =>
      have hnone : ∀ s ∈ t.rules, ¬ (s.source = a ∧ s.target = b) := by
        intro s hs hfor
        have hfound := (direct?_eq_some ht).mpr ⟨hs, hfor⟩
        rw [hab] at hfound
        cases hfound
      cases reversed with
      | false =>
          simp only [Option.map_eq_some_iff, RuleMatch.mk.injEq, Bool.true_eq_false, and_false,
            exists_false, Bool.false_eq_true, if_false, false_iff]
          intro h
          exact hnone r h.1 h.2
      | true =>
          simp only [Option.map_eq_some_iff, RuleMatch.mk.injEq, and_true, exists_eq_right,
            if_true]
          rw [direct?_eq_some ht]
          constructor
          · intro ⟨hr, hsource, htarget⟩
            refine ⟨hr, hsource, htarget, ?_⟩
            intro hsame
            exact hnone r hr ⟨hsource.trans hsame.symm, htarget.trans hsame⟩
          · intro ⟨hr, hsource, htarget, _⟩
            exact ⟨hr, hsource, htarget⟩

/-- Something is found for a pair exactly when a rule of the table names it. -/
theorem OnePerPair.exists_lookup_iff (ht : t.OnePerPair) :
    (∃ m, t.lookup a b = some m) ↔ ∃ r ∈ t.rules, r.Names a b := by
  constructor
  · intro ⟨m, hm⟩
    exact ⟨m.rule, mem_of_lookup hm⟩
  · intro ⟨r, hr, hnames⟩
    simp only [ht.lookup_eq_some]
    by_cases hsource : r.source = a ∧ r.target = b
    · exact ⟨⟨r, false⟩, hr, hsource⟩
    · have hother := hnames.resolve_left hsource
      refine ⟨⟨r, true⟩, hr, hother.1, hother.2, ?_⟩
      intro hsame
      exact hsource ⟨hother.1.trans hsame.symm, hother.2.trans hsame⟩

/-- For the reversed pair of two different types the same rule is found, marked
the other way. -/
theorem OnePerPair.lookup_swap (ht : t.OnePerPair) (hab : a ≠ b) :
    t.lookup b a = (t.lookup a b).map RuleMatch.turned := by
  apply Option.ext
  intro m
  rw [Option.map_eq_some_iff, ht.lookup_eq_some]
  constructor
  · intro ⟨hm, hpair⟩
    refine ⟨m.turned, ht.lookup_eq_some.mpr ⟨hm, ?_⟩, by simp [RuleMatch.turned]⟩
    cases hreversed : m.reversed <;> simp_all [RuleMatch.turned]
  · intro ⟨m', hm', hturned⟩
    obtain ⟨hm, hpair⟩ := ht.lookup_eq_some.mp hm'
    subst hturned
    refine ⟨hm, ?_⟩
    cases hreversed : m'.reversed <;> simp_all [RuleMatch.turned, Ne.symm hab]

/-! ## Tables with the same rules -/

/-- The other table answers every question of the rules in the same way. -/
structure AnswersAs (t t' : RuleTable) : Prop where
  lookup : ∀ a b, t.lookup a b = t'.lookup a b
  require : ∀ a b, t.require a b = t'.require a b
  singleValued : ∀ a b, t.singleValued a b = t'.singleValued a b
  isDependent : ∀ parent child, t.isDependent parent child = t'.isDependent parent child
  dependentTypes : ∀ parent, t.dependentTypes parent = t'.dependentTypes parent

/-- The dependent types are listed in rising order, each once: a type listed
twice would be the target of two rules for one pair. -/
theorem OnePerPair.dependentTypes_rising (ht : t.OnePerPair) (parent : NodeType) :
    (t.dependentTypes parent).Pairwise (· < ·) := by
  have hsorted : (t.dependentTypes parent).Pairwise (· ≤ ·) := by
    unfold dependentTypes
    exact List.pairwise_mergeSort' (· ≤ ·) _
  have hnodup : (t.dependentTypes parent).Nodup := by
    unfold dependentTypes
    rw [(List.mergeSort_perm _ _).nodup_iff]
    refine List.pairwise_map.mpr ((ht.filter _).imp_of_mem ?_)
    intro r s hr hs hapart htarget
    simp only [List.mem_filter, Bool.and_eq_true, beq_iff_eq] at hr hs
    simp [EdgeRule.isFor, hr.2.2, hs.2.2, htarget] at hapart
  exact hsorted.imp₂ (fun _ _ hle hne => lt_of_le_of_ne hle hne) hnodup

theorem OnePerPair.answersAs (ht : t.OnePerPair) (ht' : t'.OnePerPair)
    (hrules : ∀ r, r ∈ t.rules ↔ r ∈ t'.rules) : t.AnswersAs t' := by
  have hlookup : ∀ a b, t.lookup a b = t'.lookup a b := by
    intro a b
    apply Option.ext
    intro m
    rw [ht.lookup_eq_some, ht'.lookup_eq_some, hrules]
  have hrequire : ∀ a b, t.require a b = t'.require a b := by
    intro a b
    unfold RuleTable.require
    rw [hlookup]
  have hdependent : ∀ parent child, t.isDependent parent child = t'.isDependent parent child := by
    intro parent child
    apply Bool.eq_iff_iff.mpr
    rw [← mem_dependentTypes_iff ht, ← mem_dependentTypes_iff ht', mem_dependentTypes,
      mem_dependentTypes]
    simp only [hrules]
  refine ⟨hlookup, hrequire, ?_, hdependent, ?_⟩
  · intro a b
    unfold RuleTable.singleValued
    rw [hrequire]
  · intro parent
    apply (ht.dependentTypes_rising parent).eq_of_mem_iff (ht'.dependentTypes_rising parent)
    intro child
    rw [mem_dependentTypes_iff ht, mem_dependentTypes_iff ht', hdependent]

/-! ## Building a table -/

/-- A rule is added unless a look-up of its types finds one, which is then the
same rule. -/
theorem add_eq_ok : t.add r = .ok t' ↔
    (t.lookup r.source r.target = none ∧ t' = ⟨t.rules ++ [r]⟩) ∨
      (∃ m, t.lookup r.source r.target = some m ∧ m.rule = r ∧ t' = t) := by
  unfold add
  cases t.lookup r.source r.target with
  | none => simp [eq_comm]
  | some m =>
      by_cases hm : m.rule = r
      · simp [hm, eq_comm]
      · simp [hm]

theorem mem_add (h : t.add r = .ok t') (s : EdgeRule) : s ∈ t'.rules ↔ s ∈ t.rules ∨ s = r := by
  rcases add_eq_ok.mp h with ⟨_, rfl⟩ | ⟨m, hm, rfl, rfl⟩
  · simp
  · constructor
    · intro hs
      exact .inl hs
    · intro hs
      rcases hs with hs | rfl
      · exact hs
      · exact (mem_of_lookup hm).1

/-- **Step**: a table takes a rule exactly when none of its rules for the same two
types differs from it. -/
theorem OnePerPair.exists_add_iff (ht : t.OnePerPair) :
    (∃ t', t.add r = .ok t') ↔ ∀ s ∈ t.rules, s.Names r.source r.target → s = r := by
  simp only [add_eq_ok]
  constructor
  · intro ⟨t', hadd⟩ s hs hnames
    obtain ⟨m, hm⟩ := ht.exists_lookup_iff.mpr ⟨s, hs, hnames⟩
    rcases hadd with ⟨hnone, _⟩ | ⟨m', hm', rfl, _⟩
    · rw [hm] at hnone
      cases hnone
    · exact ht.agree m'.rule (mem_of_lookup hm').1 s hs hnames
  · intro hagree
    cases hm : t.lookup r.source r.target with
    | none => exact ⟨_, .inl ⟨rfl, rfl⟩⟩
    | some m =>
        obtain ⟨hmem, hnames⟩ := mem_of_lookup hm
        exact ⟨t, .inr ⟨m, rfl, hagree m.rule hmem hnames, rfl⟩⟩

theorem mem_foldlM_add {rs : List EdgeRule} (h : rs.foldlM add t = .ok t') (s : EdgeRule) :
    s ∈ t'.rules ↔ s ∈ t.rules ∨ s ∈ rs := by
  induction rs generalizing t with
  | nil =>
      cases h
      simp
  | cons r rs ih =>
      obtain ⟨t₁, hadd, h⟩ := Outcome.foldlM_cons_eq_ok.mp h
      rw [ih h, mem_add hadd, List.mem_cons, or_assoc]

/-- A built table holds the rules of its list and no others. -/
theorem mem_ofList {rs : List EdgeRule} (h : ofList rs = .ok t) (s : EdgeRule) :
    s ∈ t.rules ↔ s ∈ rs := by
  rw [mem_foldlM_add h]
  simp [empty]

/-- **Run**: a table takes every rule of a list when they agree with each other
and with the rules it has. -/
theorem OnePerPair.exists_foldlM_add {rs : List EdgeRule} (ht : t.OnePerPair)
    (hagree : AgreeOnPairs (t.rules ++ rs)) : ∃ t', rs.foldlM RuleTable.add t = .ok t' := by
  induction rs generalizing t with
  | nil => exact ⟨t, rfl⟩
  | cons r rs ih =>
      obtain ⟨t₁, hadd⟩ := ht.exists_add_iff.mpr fun s hs =>
        hagree r (by simp) s (by simp [hs])
      have hagree₁ : AgreeOnPairs (t₁.rules ++ rs) := by
        refine hagree.of_mem fun s hs => ?_
        rw [List.mem_append, mem_add hadd] at hs
        simpa [or_assoc] using hs
      obtain ⟨t', h⟩ := ih (ht.add hadd) hagree₁
      exact ⟨t', Outcome.foldlM_cons_eq_ok.mpr ⟨t₁, hadd, h⟩⟩

theorem exists_ofList_iff {rs : List EdgeRule} :
    (∃ t, ofList rs = .ok t) ↔ AgreeOnPairs rs := by
  constructor
  · intro ⟨t, h⟩
    exact (onePerPair_ofList h).agree.of_mem fun r hr => (mem_ofList h r).mpr hr
  · intro hagree
    exact OnePerPair.exists_foldlM_add (t := empty) .nil (by simpa [empty] using hagree)

/-- Lists of the same rules make tables that answer alike, in whatever order and
however often each rule is given. -/
theorem answersAs_of_same_rules {rs rs' : List EdgeRule} (h : ofList rs = .ok t)
    (hsame : ∀ r, r ∈ rs ↔ r ∈ rs') : ∃ t', ofList rs' = .ok t' ∧ t.AnswersAs t' := by
  have hagree : AgreeOnPairs rs := exists_ofList_iff.mp ⟨t, h⟩
  obtain ⟨t', h'⟩ := exists_ofList_iff.mpr (hagree.of_mem fun r hr => (hsame r).mpr hr)
  refine ⟨t', h', (onePerPair_ofList h).answersAs (onePerPair_ofList h') fun r => ?_⟩
  rw [mem_ofList h, mem_ofList h', hsame]

/-! ## What a built table answers -/

/-- **A table is a function of unordered pairs**: a list of rules makes a table
exactly when its rules for the same two types are equal, and a table that is made
answers the same for every order of its list, for both orders of a pair and for
both ways to ask for dependent types. -/
theorem ofList_by_pairs (rs : List EdgeRule) :
    ((∃ t, ofList rs = .ok t) ↔ AgreeOnPairs rs) ∧
      ∀ t, ofList rs = .ok t →
        (∀ rs', rs.Perm rs' → ∃ t', ofList rs' = .ok t' ∧ t.AnswersAs t') ∧
        (∀ a b, a ≠ b → t.lookup b a = (t.lookup a b).map RuleMatch.turned) ∧
        (∀ a b, (∃ m, t.lookup a b = some m) ↔ ∃ r ∈ rs, r.Names a b) ∧
        ∀ parent, (t.dependentTypes parent).Pairwise (· < ·) ∧
          ∀ child, child ∈ t.dependentTypes parent ↔ t.isDependent parent child = true := by
  refine ⟨exists_ofList_iff, ?_⟩
  intro t h
  have ht : t.OnePerPair := onePerPair_ofList h
  refine ⟨?_, ?_, ?_, ?_⟩
  · intro rs' hperm
    exact answersAs_of_same_rules h fun r => hperm.mem_iff
  · intro a b hab
    exact ht.lookup_swap hab
  · intro a b
    simp only [ht.exists_lookup_iff, mem_ofList h]
  · intro parent
    refine ⟨ht.dependentTypes_rising parent, ?_⟩
    intro child
    exact mem_dependentTypes_iff ht

/-- A host owns its ports. -/
def owningRule : EdgeRule :=
  { source := "host", target := "port", label := "has", multiplicity := .oneToMany,
    dependent := true }

/-- A port is linked to another port. -/
def linkRule : EdgeRule :=
  { source := "port", target := "port", label := "link", multiplicity := .oneToOne }

/-- A list that gives one rule twice makes a table of two rules, and the table of
another order answers alike. -/
theorem ofList_by_pairs_repeated :
    ofList [owningRule, linkRule, owningRule] = .ok ⟨[owningRule, linkRule]⟩ ∧
      ∃ t', ofList [linkRule, owningRule, owningRule] = .ok t' ∧
        RuleTable.AnswersAs ⟨[owningRule, linkRule]⟩ t' := by
  have hbuilt : ofList [owningRule, linkRule, owningRule] = .ok ⟨[owningRule, linkRule]⟩ := by
    decide
  obtain ⟨_, hanswers⟩ := ofList_by_pairs [owningRule, linkRule, owningRule]
  exact ⟨hbuilt, (hanswers _ hbuilt).1 _ (by decide)⟩

end RuleTable

end Inventory
