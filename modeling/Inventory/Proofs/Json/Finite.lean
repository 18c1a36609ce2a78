import Inventory.Json.Reader
import Inventory.Json.Record
import Inventory.Proofs.Double
import Inventory.Proofs.Outcome

/-!
# Json — what is read is finite

Every double that is read from a text is finite: a significand is, and scaling it
by powers of ten either stays finite or finds no number at all. So a value, read
whole or in parts, holds no infinity and no NaN.
-/

namespace Inventory.Json

/-! ## Numbers -/

/-- The number is no double that is infinite or not a number. -/
def Number.IsFinite : Number → Prop
  | .whole _ => True
  | .real x => x.isFinite = true

/-- Powers of ten up to 308 places are in the range of doubles, and but for the first
at least 10. -/
theorem le_topPlace_tenTo :
    ∀ n, n < 309 → n ≠ 0 → 3 ≤ Double.topPlace (tenTo n).toModel.unpack := by
  decide +kernel

theorem isFinite_tenTo {n : Nat} (hn : n < 309) : (tenTo n).isFinite = true := by
  by_cases hzero : n = 0
  · rw [hzero]
    decide +kernel
  · have hplace := le_topPlace_tenTo n hn hzero
    exact Double.isFinite_of_topPlace_ne_zero (by omega)

/-- Scaling ends at a finite double or at none. -/
theorem isFinite_scaled {fuel : Nat} {f g : Float} {e : Int} (hf : f.isFinite = true)
    (h : scaled fuel f e = some g) : g.isFinite = true := by
  fun_induction scaled fuel f e with
  | case1 | case2 | case7 => rwa [← Option.some.inj h]
  | case3 | case5 => cases h
  | case4 _ _ _ _ _ _ _ hinf =>
    rw [← Option.some.inj h]
    exact Double.isFinite_mul hf (isFinite_tenTo (by omega)) hinf
  | case6 =>
    rw [← Option.some.inj h]
    exact Double.isFinite_div hf (le_topPlace_tenTo _ (by omega) (by omega))
  | case8 _ _ _ _ _ _ ih =>
    exact ih (Double.isFinite_div hf (le_topPlace_tenTo 308 (by decide) (by decide))) h

theorem isFinite_double? {negative : Bool} {significand : Nat} {e : Int} {n : Number}
    (h : double? negative significand e = some n) : n.IsFinite := by
  rw [double?] at h
  split at h
  · cases h
    cases negative with
    | false => show (0.0 : Float).isFinite = true; decide +kernel
    | true => show (-0.0 : Float).isFinite = true; decide +kernel
  · obtain ⟨f, hf, rfl⟩ := Option.map_eq_some_iff.mp h
    have hfinite := isFinite_scaled (Double.isFinite_toReal significand) hf
    cases negative with
    | false => exact hfinite
    | true => exact Double.isFinite_neg hfinite

theorem isFinite_wholeNumber (negative : Bool) (n : Nat) : (wholeNumber negative n).IsFinite := by
  rw [wholeNumber]
  split
  · trivial
  · split
    · trivial
    · exact Double.isFinite_neg (Double.isFinite_toReal n)

variable {r : Option Number × List Char}

theorem isFinite_withExponent? {negative : Bool} {significand : Nat} {places : Int}
    {cs : List Char} (h : withExponent? negative significand places cs = some r) :
    ∀ n ∈ r.1, n.IsFinite := by
  unfold withExponent? at h
  split at h
  case h_3 =>
    cases h
    exact fun _ => isFinite_double?
  all_goals
    obtain ⟨_, -, h⟩ := Option.bind_eq_some_iff.mp h
    cases h
    exact fun _ => isFinite_double?

theorem isFinite_unsigned? {negative : Bool} {cs : List Char}
    (h : unsigned? negative cs = some r) : ∀ n ∈ r.1, n.IsFinite := by
  unfold unsigned? at h
  split at h
  · cases h
  · cases h
  · dsimp only at h
    split at h
    · split at h
      · cases h
      · exact isFinite_withExponent? h
    · exact isFinite_withExponent? h
    · exact isFinite_withExponent? h
    · split at h
      · cases h
        rintro _ ⟨⟩
        exact isFinite_wholeNumber _ _
      · exact isFinite_withExponent? h

/-- A number that is read is finite. -/
theorem isFinite_number? {cs : List Char} (h : number? cs = some r) : ∀ n ∈ r.1, n.IsFinite := by
  unfold number? at h
  split at h <;> exact isFinite_unsigned? h

/-! ## Values -/

mutual

/-- Every number in the value is finite. -/
def IsFinite : Json → Prop
  | .num n => n.IsFinite
  | .arr items => AllFinite items
  | .obj members => MembersFinite members
  | _ => True

/-- Every number in the items is finite. -/
def AllFinite : List Json → Prop
  | [] => True
  | v :: rest => v.IsFinite ∧ AllFinite rest

/-- Every number in the members is finite. -/
def MembersFinite : List (String × Json) → Prop
  | [] => True
  | (_, v) :: rest => v.IsFinite ∧ MembersFinite rest

end

theorem isFinite_arr {vs : List Json} : (Json.arr vs).IsFinite ↔ ∀ v ∈ vs, v.IsFinite := by
  rw [IsFinite]
  induction vs with
  | nil => simp [AllFinite]
  | cons v vs ih => rw [AllFinite, ih, List.forall_mem_cons]

theorem isFinite_obj {ms : List (String × Json)} :
    (Json.obj ms).IsFinite ↔ ∀ m ∈ ms, m.2.IsFinite := by
  rw [IsFinite]
  induction ms with
  | nil => simp [MembersFinite]
  | cons m ms ih => rw [MembersFinite, ih, List.forall_mem_cons]

theorem isFinite_withMember {name : Option String} {v o : Json} (hv : v.IsFinite)
    (ho : o.IsFinite) : (withMember name v o).IsFinite := by
  unfold withMember
  split
  · split
    · exact isFinite_obj.mpr (List.forall_mem_cons.mpr ⟨hv, isFinite_obj.mp ho⟩)
    · trivial
  · exact ho

/-- What one step of the reader keeps: a value, the items of an array and the members of
an object are finite. -/
structure ReadsFinite (fuel : Nat) : Prop where
  value : ∀ {cs r}, value? fuel cs = some r → r.1.IsFinite
  items : ∀ {cs r}, items? fuel cs = some r → ∀ v ∈ r.1, v.IsFinite
  object : ∀ {cs r}, object? fuel cs = some r → r.1.IsFinite

section

variable {fuel : Nat} {cs : List Char}

theorem ReadsFinite.value_succ (ih : ReadsFinite fuel) {r : Json × List Char}
    (h : value? (fuel + 1) cs = some r) : r.1.IsFinite := by
  rw [value?] at h
  split at h
  case h_4 =>
    obtain ⟨⟨s, _⟩, -, rfl⟩ := Option.map_eq_some_iff.mp h
    cases s <;> trivial
  case h_5 =>
    split at h
    · cases h
      exact isFinite_arr.mpr nofun
    · obtain ⟨_, hitems, rfl⟩ := Option.map_eq_some_iff.mp h
      exact isFinite_arr.mpr (ih.items hitems)
  case h_6 =>
    split at h
    · cases h
      exact isFinite_obj.mpr nofun
    · exact ih.object h
  case h_7 =>
    obtain ⟨⟨n, _⟩, hn, rfl⟩ := Option.map_eq_some_iff.mp h
    cases n with
    | none => trivial
    | some n => exact isFinite_number? hn n rfl
  all_goals
    obtain ⟨_, -, rfl⟩ := Option.map_eq_some_iff.mp h
    trivial

theorem ReadsFinite.items_succ (ih : ReadsFinite fuel) {r : List Json × List Char}
    (h : items? (fuel + 1) cs = some r) : ∀ v ∈ r.1, v.IsFinite := by
  rw [items?] at h
  obtain ⟨⟨v, rest⟩, hv, h⟩ := Option.bind_eq_some_iff.mp h
  dsimp only at h
  split at h
  · obtain ⟨_, hvs, rfl⟩ := Option.map_eq_some_iff.mp h
    exact List.forall_mem_cons.mpr ⟨ih.value hv, ih.items hvs⟩
  · cases h
    exact fun w hw => List.mem_singleton.mp hw ▸ ih.value hv
  · cases h

theorem ReadsFinite.object_succ (ih : ReadsFinite fuel) {r : Json × List Char}
    (h : object? (fuel + 1) cs = some r) : r.1.IsFinite := by
  rw [object?] at h
  split at h
  · obtain ⟨⟨name, rest⟩, -, h⟩ := Option.bind_eq_some_iff.mp h
    dsimp only at h
    split at h
    · obtain ⟨⟨v, rest⟩, hv, h⟩ := Option.bind_eq_some_iff.mp h
      dsimp only at h
      split at h
      · obtain ⟨_, ho, rfl⟩ := Option.map_eq_some_iff.mp h
        exact isFinite_withMember (ih.value hv) (ih.object ho)
      · obtain rfl := Option.some.inj h
        exact isFinite_withMember (ih.value hv) (isFinite_obj.mpr (by simp))
      · cases h
    · cases h
  · cases h

end

theorem readsFinite (fuel : Nat) : ReadsFinite fuel := by
  induction fuel with
  | zero =>
    refine ⟨fun h => ?_, fun h => ?_, fun h => ?_⟩
    · rw [value?] at h
      cases h
    · rw [items?] at h
      cases h
    · rw [object?] at h
      cases h
  | succ fuel ih => exact ⟨ih.value_succ, ih.items_succ, ih.object_succ⟩

/-- **What is read is finite.** -/
theorem isFinite_parse {text : String} {v : Json} (h : parse text = some v) : v.IsFinite := by
  unfold parse at h
  dsimp only at h
  split at h
  · next hv =>
    split at h
    · cases h
      exact (readsFinite _).value hv
    · cases h
  · cases h

/-! ## Parts of values -/

section

variable {α : Type} {f : Json → Option α} {v : Json}

theorem isFinite_fields? {c : Conventions} {names : List String} {fs : List (String × Json)}
    (hv : v.IsFinite) (h : c.fields? names v = some fs) : ∀ m ∈ fs, m.2.IsFinite := by
  unfold Conventions.fields? at h
  split at h
  · dsimp only at h
    split at h
    · cases h
      exact fun m hm => isFinite_obj.mp hv m ((List.mem_filter.mp hm).1)
    · cases h
  · split at h
    · cases h
      exact fun m hm => isFinite_arr.mp hv m.2 (List.of_mem_zip hm).2
    · cases h
  · cases h

/-- A field with a default has it, or what stands in one of the fields given. -/
theorem optional_eq_some {name : String} {default a : α} {fs : List (String × Json)}
    (h : optional f name default fs = some a) :
    a = default ∨ ∃ m ∈ fs, f m.2 = some a := by
  unfold optional at h
  split at h
  · next v hv =>
    exact .inr ⟨(name, v), Table.mem_of_lookup hv, h⟩
  · exact .inl (Option.some.inj h).symm

/-- What is read item by item comes from the items. -/
theorem of_list?_eq_some {as : List α} (h : list? f v = some as) (hv : v.IsFinite) :
    ∀ a ∈ as, ∃ w : Json, w.IsFinite ∧ f w = some a := by
  cases v with
  | arr items =>
    intro a ha
    obtain ⟨w, hw, hread⟩ := Outcome.exists_of_forall₂ (Outcome.mapM_eq_some.mp h).flip ha
    exact ⟨w, isFinite_arr.mp hv w hw, hread⟩
  | _ => cases h

/-- The values of a table that is read come from the members. -/
theorem of_table?_eq_some {t : Table α} (h : table? f v = some t) (hv : v.IsFinite) :
    ∀ a ∈ t.values, ∃ w : Json, w.IsFinite ∧ f w = some a := by
  cases v with
  | obj members =>
    intro a ha
    obtain ⟨entries, hentries, rfl⟩ := Option.map_eq_some_iff.mp h
    obtain ⟨k, hk⟩ := Table.mem_values.mp ha
    have hmem : (k, a) ∈ entries := (Table.mem_of_get?_putAll hk).resolve_right nofun
    obtain ⟨m, hm, hread⟩ := Outcome.exists_of_forall₂ (Outcome.mapM_eq_some.mp hentries).flip hmem
    obtain ⟨_, hvalue, heq⟩ := Option.map_eq_some_iff.mp hread
    cases heq
    exact ⟨m.2, isFinite_obj.mp hv m hm, hvalue⟩
  | _ => cases h

end

end Inventory.Json
