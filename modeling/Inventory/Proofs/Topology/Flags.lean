import Inventory.Proofs.Topology.Memo
import Inventory.Proofs.Topology.Reordered

/-!
# Topology — delete flags

A trail may be flagged for deletion only if every element that occurs there is
deletable. What can go wrong is exactly what the check for earlier visits
misses: an occurrence that stands below one placing of an element and not below
another placing of it at the same trail. Where nothing is split in this way the
flags do not depend on the order of the definition.
-/

namespace Inventory

variable {g g' : Graph} {ctx : Context} {start : Place} {k : String}

/-! ## Occurrences -/

/-- The element of a place at which the descent arrives marks the trail key. -/
def Place.Occurs (g : Graph) (ctx : Context) (start : Place) (k : String) (p : Place) : Prop :=
  start.Reaches g ctx .deletion p ∧ p.Marks ctx.catalog.rules k

theorem adds_marked :
    start.Adds g ctx .deletion (.marked k) ↔ ∃ p, start.Occurs g ctx k p := by
  constructor
  · rintro ⟨p, hp, hn⟩
    cases hn with
    | first hn =>
        cases hn with
        | marked _ hm => exact ⟨p, hp, hm⟩
  · rintro ⟨p, hp, hm⟩
    exact ⟨p, hp, .first (.marked rfl hm)⟩

theorem adds_kept :
    start.Adds g ctx .deletion (.kept k) ↔
      ∃ p, start.Occurs g ctx k p ∧ p.element.deletable = false := by
  constructor
  · rintro ⟨p, hp, hn⟩
    cases hn with
    | first hn =>
        cases hn with
        | kept _ hm hkept => exact ⟨p, ⟨hp, hm⟩, hkept⟩
  · rintro ⟨p, ⟨hp, hm⟩, hkept⟩
    exact ⟨p, hp, .first (.kept rfl hm hkept)⟩

/-- Flags are determined by what is marked and what is kept. -/
theorem flag_eq_of_holds {d d' : Descent} (hmarked : d.Holds (.marked k) ↔ d'.Holds (.marked k))
    (hkept : d.Holds (.kept k) ↔ d'.Holds (.kept k)) : d.flags.get? k = d'.flags.get? k := by
  simp only [Descent.Holds] at hmarked hkept
  cases h : d.flags.get? k with
  | none => cases h' : d'.flags.get? k <;> simp_all
  | some b => cases h' : d'.flags.get? k <;> cases b <;> simp_all

/-! ## Flags of elements -/

/-- The root step under which the flags below an element are recorded. -/
def DeleteFlags.rootOf (g : Graph) (ctx : Context) (top : Element)
    (modelId modelVersion : Option String) : Outcome TrailStep := do
  let step ← (← top.model g).stepAt g ctx 0
  .ok (match modelId, modelVersion with
    | some id, some version =>
      if ctx.catalog.supportsPersona step.nodeType then ⟨step.nodeType, some ⟨id, version⟩⟩
      else step
    | _, _ => step)

theorem DeleteFlags.ofElement_eq_ok {top : Element} {modelId modelVersion : Option String}
    {flags : DeleteFlags} :
    DeleteFlags.ofElement g ctx top modelId modelVersion = .ok flags ↔
      ∃ root d, DeleteFlags.rootOf g ctx top modelId modelVersion = .ok root ∧
        descendFrom g ctx .deletion top root = .ok d ∧ d.flags = flags := by
  unfold DeleteFlags.ofElement DeleteFlags.rootOf
  simp only [Outcome.bind_eq_ok, Except.ok.injEq]
  constructor
  · rintro ⟨m, hm, step, hstep, d, hd, hflags⟩
    exact ⟨_, d, ⟨m, hm, step, hstep, rfl⟩, hd, hflags⟩
  · rintro ⟨_, d, ⟨m, hm, step, hstep, rfl⟩, hd, hflags⟩
    exact ⟨m, hm, step, hstep, d, hd, hflags⟩

/-- What flags say about the occurrences below a start. -/
structure DeleteFlags.Speaks (g : Graph) (ctx : Context) (start : Place) (flags : DeleteFlags) :
    Prop where
  /-- A flag comes from an occurrence, and a false one from one to be kept. -/
  occurs : ∀ {k b}, flags.get? k = some b →
    ∃ p, start.Occurs g ctx k p ∧ (b = false → p.element.deletable = false)
  /-- A true flag is right about all occurrences exactly when none of those to be
  kept is split. -/
  deletable : ∀ {k}, flags.get? k = some true →
    ((∀ p, start.Occurs g ctx k p → p.element.deletable = true) ↔
      ¬ start.Splits g ctx .deletion (.kept k))
  /-- A trail with occurrences has a flag unless they are split. -/
  flagged : ∀ {k p}, start.Occurs g ctx k p → flags.get? k = none →
    start.Splits g ctx .deletion (.marked k)

theorem descendFrom_speaks {top : Element} {root : TrailStep} {d : Descent}
    (h : descendFrom g ctx .deletion top root = .ok d) :
    DeleteFlags.Speaks g ctx (.start top root) d.flags := by
  obtain ⟨_, hsound, hcomplete⟩ := descendFrom_delivers h
  refine ⟨fun {k b} hk => ?_, fun {k} hk => ?_, fun {k p} hp hk => ?_⟩
  · cases b with
    | true =>
        have hmarked : d.Holds (.marked k) := by simp [Descent.Holds, hk]
        obtain ⟨p, hp⟩ := adds_marked.mp (hsound hmarked)
        exact ⟨p, hp, fun h => by cases h⟩
    | false =>
        obtain ⟨p, hp, hkept⟩ := adds_kept.mp (hsound (r := .kept k) hk)
        exact ⟨p, hp, fun _ => hkept⟩
  · -- a true flag is a mark without one that keeps
    have hnot : ¬ d.Holds (.kept k) := by simp [Descent.Holds, hk]
    constructor
    · intro hall hsplits
      obtain ⟨p, hp, hkept⟩ := adds_kept.mp hsplits.adds
      exact absurd (hall p hp) (by simp [hkept])
    · intro hsplits p hp
      cases hkept : p.element.deletable with
      | true => rfl
      | false =>
          rcases hcomplete (adds_kept.mpr ⟨p, hp, hkept⟩) with h | h
          · exact absurd h hnot
          · exact absurd h hsplits
  · refine (hcomplete (adds_marked.mpr ⟨p, hp⟩)).resolve_left ?_
    simp [Descent.Holds, hk]

/-! ## The order of the definition -/

theorem Shuffled.splits {purpose : Purpose} (h : Shuffled g g') {r : Record}
    (hs : start.Splits g' ctx purpose r) : start.Splits g ctx purpose r := by
  obtain ⟨p, q, hp, hq, htwins, hadds, hnot⟩ := hs
  exact ⟨p, q, h.symm.reaches hp, h.symm.reaches hq, htwins, h.symm.adds hadds,
    fun ha => hnot (h.adds ha)⟩

theorem Shuffled.rootOf (h : Shuffled g g') {top : Element} {modelId modelVersion : Option String}
    {root : TrailStep} (hr : DeleteFlags.rootOf g ctx top modelId modelVersion = .ok root) :
    DeleteFlags.rootOf g' ctx top modelId modelVersion = .ok root := by
  obtain ⟨m, hm, hr⟩ := Outcome.bind_eq_ok.mp hr
  obtain ⟨s, hs, hr⟩ := Outcome.bind_eq_ok.mp hr
  exact Outcome.bind_eq_ok.mpr ⟨m, h.model hm, Outcome.bind_eq_ok.mpr ⟨s, h.step hs, hr⟩⟩

/-- Descents through one definition in two orders hold the same records, where
nothing is split. -/
theorem holds_iff_of_shuffled {purpose : Purpose} (hg : Shuffled g g') {top : Element}
    {root : TrailStep} {d d' : Descent} {r : Record}
    (h : descendFrom g ctx purpose top root = .ok d)
    (h' : descendFrom g' ctx purpose top root = .ok d')
    (hs : ¬ (Place.start top root).Splits g ctx purpose r) : d.Holds r ↔ d'.Holds r := by
  obtain ⟨_, hsound, hcomplete⟩ := descendFrom_delivers h
  obtain ⟨_, hsound', hcomplete'⟩ := descendFrom_delivers h'
  constructor
  · intro hr
    exact (hcomplete' (hg.adds (hsound hr))).resolve_right fun h => hs (hg.splits h)
  · intro hr
    exact (hcomplete (hg.symm.adds (hsound' hr))).resolve_right hs

/-- **False wins, but for split trails.** Flags come from occurrences, a true
flag is right about every occurrence exactly when no occurrence to be kept is
split, and a trail that is not split has the same flag in whatever order the
definition is listed. -/
theorem ofElement_speaks {top : Element} {modelId modelVersion : Option String}
    {flags : DeleteFlags} (h : DeleteFlags.ofElement g ctx top modelId modelVersion = .ok flags) :
    ∃ root, DeleteFlags.rootOf g ctx top modelId modelVersion = .ok root ∧
      DeleteFlags.Speaks g ctx (.start top root) flags ∧
      ∀ {g' flags'}, Shuffled g g' →
        DeleteFlags.ofElement g' ctx top modelId modelVersion = .ok flags' →
        ∀ k, ¬ (Place.start top root).Splits g ctx .deletion (.marked k) →
          ¬ (Place.start top root).Splits g ctx .deletion (.kept k) →
          flags'.get? k = flags.get? k := by
  obtain ⟨root, d, hroot, hd, rfl⟩ := DeleteFlags.ofElement_eq_ok.mp h
  refine ⟨root, hroot, descendFrom_speaks hd, fun {g' flags'} hg h' k hmarked hkept => ?_⟩
  obtain ⟨root', d', hroot', hd', rfl⟩ := DeleteFlags.ofElement_eq_ok.mp h'
  cases (hg.rootOf hroot).symm.trans hroot'
  exact (flag_eq_of_holds (holds_iff_of_shuffled hg hd hd' hmarked)
    (holds_iff_of_shuffled hg hd hd' hkept)).symm

/-! ### The element below two others again -/

namespace Pinning

open Definition

def top : Element := ⟨"top", none, true, []⟩

/-- The flags that are right: the usual element is to be kept. -/
def rightFlags : DeleteFlags :=
  Table.ofList [("a", true), ("a|a", true), ("a|a|a", true), ("a|a|a|a", false),
    ("a|a|a|a|a", true)]

/-- The flags that see the pinned element only. -/
def pinnedFlags : DeleteFlags :=
  Table.ofList [("a", true), ("a|a", true), ("a|a|a", true), ("a|a|a|a", true)]

theorem ofElement_laxFirst :
    DeleteFlags.ofElement laxFirst context top none none = .ok rightFlags := by
  decide +kernel

/-- Below the lax element, the usual one is met and kept. -/
theorem ofElement_speaks_laxFirst :
    DeleteFlags.ofElement laxFirst context top none none = .ok rightFlags ∧
      ∃ root, DeleteFlags.rootOf laxFirst context top none none = .ok root ∧
        DeleteFlags.Speaks laxFirst context (.start top root) rightFlags ∧
        ∀ {g' flags'}, Shuffled laxFirst g' →
          DeleteFlags.ofElement g' context top none none = .ok flags' →
          ∀ k, ¬ (Place.start top root).Splits laxFirst context .deletion (.marked k) →
            ¬ (Place.start top root).Splits laxFirst context .deletion (.kept k) →
            flags'.get? k = rightFlags.get? k :=
  ⟨ofElement_laxFirst, ofElement_speaks ofElement_laxFirst⟩

/-- The two definitions list the same edges in different orders. -/
theorem shuffled_laxFirst : Shuffled laxFirst strictFirst := by
  have hvertices : laxFirst.vertices = strictFirst.vertices := by decide +kernel
  have hedges : laxFirst.edges = strictFirst.edges := by decide +kernel
  have hincident : strictFirst.incident = laxFirst.incident.put "top" ["2", "1", "3", "4"] := by
    decide +kernel
  have htop : laxFirst.incident.get? "top" = some ["1", "2", "3", "4"] := by decide +kernel
  have hvertex : laxFirst.vertex = strictFirst.vertex := by
    funext x
    rw [Graph.vertex, Graph.vertex, hvertices]
  -- only the top element's listing differs, and it uses no constraint
  have htargets : ∀ id, targets laxFirst id uses = targets strictFirst id uses := by
    intro id
    by_cases hid : id = "top"
    · subst hid
      decide +kernel
    · simp only [targets, Graph.adjacent, Graph.edgesOf, hvertex, hedges, hincident,
        Table.get?_put, if_neg hid]
  have hconstraint : SetConstraint.ofVertex laxFirst = SetConstraint.ofVertex strictFirst := by
    funext v
    simp only [SetConstraint.ofVertex, singleTarget, htargets]
  refine ⟨⟨hvertices, hedges, fun id => ?_⟩, fun e => ?_⟩
  · rw [hincident, Table.get?_put]
    by_cases hid : id = "top"
    · rw [if_pos hid, hid, htop]
      exact .some (List.Perm.swap "2" "1" ["3", "4"])
    · rw [if_neg hid]
      cases laxFirst.incident.get? id with
      | none => exact .none
      | some ids => exact .some (List.Perm.refl ids)
  · simp only [Element.constraints, htargets, hconstraint]

/-- With the strict element listed first, the trail of the usual element is
flagged for deletion although it must be kept; listed second, it is not. -/
theorem ofElement_flags_kept :
    strictFirst.Reachable ∧ Shuffled laxFirst strictFirst ∧
      DeleteFlags.ofElement laxFirst context top none none = .ok rightFlags ∧
      DeleteFlags.ofElement strictFirst context top none none = .ok pinnedFlags ∧
      rightFlags.get? "a|a|a|a" = some false ∧ pinnedFlags.get? "a|a|a|a" = some true ∧
      ∃ p, (Place.start top ⟨"a", none⟩).Occurs strictFirst context "a|a|a|a" p ∧
        p.element.deletable = false := by
  have hreach : strictFirst.Reachable :=
    Graph.reachable_ofParts
      (show Graph.ofParts vertices (toStrict :: toLax :: edges) = .ok strictFirst from rfl)
  obtain ⟨root, d, hroot, hd, hflags⟩ := DeleteFlags.ofElement_eq_ok.mp ofElement_laxFirst
  have hroot' : DeleteFlags.rootOf laxFirst context top none none = .ok ⟨"a", none⟩ := by
    decide +kernel
  cases hroot.symm.trans hroot'
  have hkept : d.Holds (.kept "a|a|a|a") := by
    rw [Descent.Holds, hflags]
    decide +kernel
  have hadds := shuffled_laxFirst.adds ((descendFrom_delivers hd).2.1 hkept)
  exact ⟨hreach, shuffled_laxFirst, ofElement_laxFirst, by decide +kernel, by decide +kernel,
    by decide +kernel, adds_kept.mp hadds⟩

end Pinning

end Inventory
