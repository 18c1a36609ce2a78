import Mathlib
import Inventory.Settings
import Inventory.Proofs.Outcome

/-!
# Settings — what a set leaves behind

A set assigns its value before the limits are checked and does not take it back
when the check fails. So a set that is refused for its key or for its text
leaves the settings as they were, and one that is refused by the check leaves
the value it was refused for. After any sequence of sets every key shows the
last value that was assigned to it, accepted or not, and the settings are as
valid as the last set that assigned found them.
-/

namespace Inventory

namespace Settings

variable {s s' : Settings} {key value : String}

/-! ## What a key takes -/

/-- The bound of the numbers that a key takes. -/
def numberBound? (key : String) : Option Nat :=
  if key = "engine.query_time_limit_secs" ∨ key = "engine.max_result_count" then
    some Word.bound64
  else if key = "engine.max_levels" then some Word.bound32
  else none

/-- The text that a key shows once a value is assigned to it, if it takes the value. -/
def shown? (key value : String) : Option String :=
  if key = "data_dir" then some value
  else (numberBound? key).bind fun bound => (readNumber bound value).toOption.map toString

/-- What a set writes under a key, if it assigns to that key. -/
def written? (key : String) (call : String × String) : Option String :=
  if call.1 = key then shown? key call.2 else none

/-- The settings show the same under all keys but one, and have the same catalog. -/
structure SameBut (key : String) (s s' : Settings) : Prop where
  get? : ∀ other, other ≠ key → s'.get? other = s.get? other
  catalog : s'.catalog = s.catalog

/-- Settings are their catalog and what they show under the keys. -/
theorem eq_iff_get? : s' = s ↔ s'.catalog = s.catalog ∧ ∀ key, s'.get? key = s.get? key := by
  refine ⟨fun h => ⟨by rw [h], fun key => by rw [h]⟩, fun ⟨hcatalog, hget⟩ => ?_⟩
  obtain ⟨dataDir, ⟨time, count, levels⟩, catalog⟩ := s
  obtain ⟨dataDir', ⟨time', count', levels'⟩, catalog'⟩ := s'
  have hdir := hget "data_dir"
  have htime := hget "engine.query_time_limit_secs"
  have hcount := hget "engine.max_result_count"
  have hlevels := hget "engine.max_levels"
  simp only [get?, String.reduceEq, if_true, if_false, Option.some.injEq, Nat.toString_eq_repr,
    Nat.repr_inj] at *
  rw [hcatalog, hdir, htime, hcount, hlevels]

/-- One key apart, settings are the same when they show the same under that key too. -/
theorem SameBut.eq_iff (h : SameBut key s s') : s' = s ↔ s'.get? key = s.get? key := by
  rw [eq_iff_get?]
  refine ⟨fun ⟨_, hget⟩ => hget key, fun hkey => ⟨h.catalog, fun other => ?_⟩⟩
  by_cases hother : other = key
  · rw [hother, hkey]
  · exact h.get? other hother

/-! ## One assignment -/

/-- What may come of assigning a value to a key: the key shows the value and
nothing else has changed, or the key does not take the value. -/
def Assigned (s : Settings) (key value : String) : Except SettingsError Settings → Prop
  | .ok s' => SameBut key s s' ∧ ∃ text, shown? key value = some text ∧ s'.get? key = some text
  | .error e => shown? key value = none ∧ (e = .unknownKey key ∨ ∃ fault, e = .badNumber fault)

theorem shown?_number {bound : Nat} (hkey : key ≠ "data_dir")
    (hbound : numberBound? key = some bound) :
    shown? key value = (readNumber bound value).toOption.map toString := by
  rw [shown?, if_neg hkey, hbound, Option.bind_some]

theorem assigned_number {bound : Nat} {put : Nat → Settings} (hkey : key ≠ "data_dir")
    (hbound : numberBound? key = some bound) (hsame : ∀ n, SameBut key s (put n))
    (hget : ∀ n, (put n).get? key = some (toString n)) :
    Assigned s key value
      ((readNumber bound value).mapError .badNumber >>= fun n => .ok (put n)) := by
  have hshown : shown? key value = (readNumber bound value).toOption.map toString :=
    shown?_number hkey hbound
  cases hn : readNumber bound value with
  | error fault => exact ⟨by rw [hshown, hn]; rfl, .inr ⟨fault, rfl⟩⟩
  | ok n => exact ⟨hsame n, toString n, by rw [hshown, hn]; rfl, hget n⟩

theorem assigned_assign (s : Settings) (key value : String) :
    Assigned s key value (s.assign key value) := by
  unfold assign
  dsimp only
  split
  case isTrue hkey =>
    refine ⟨⟨fun other hother => ?_, rfl⟩, value, by rw [shown?, if_pos hkey], ?_⟩
    · simp only [get?, ← hkey, if_neg hother]
    · rw [get?, if_pos hkey]
  case isFalse hdir =>
  split
  case isTrue hkey =>
    refine assigned_number hdir (by rw [numberBound?, if_pos (.inl hkey)])
      (fun n => ⟨fun other hother => ?_, rfl⟩) fun n => ?_
    · simp only [get?, ← hkey, if_neg hother]
    · rw [get?, if_neg hdir, if_pos hkey]
  case isFalse htime =>
  split
  case isTrue hkey =>
    refine assigned_number hdir (by rw [numberBound?, if_pos (.inr hkey)])
      (fun n => ⟨fun other hother => ?_, rfl⟩) fun n => ?_
    · simp only [get?, ← hkey, if_neg hother]
    · rw [get?, if_neg hdir, if_neg htime, if_pos hkey]
  case isFalse hcount =>
  have hneither := not_or.mpr ⟨htime, hcount⟩
  split
  case isTrue hkey =>
    refine assigned_number hdir (by rw [numberBound?, if_neg hneither, if_pos hkey])
      (fun n => ⟨fun other hother => ?_, rfl⟩) fun n => ?_
    · simp only [get?, ← hkey, if_neg hother]
    · rw [get?, if_neg hdir, if_neg htime, if_neg hcount, if_pos hkey]
  case isFalse hlevels =>
    refine ⟨?_, .inl rfl⟩
    rw [shown?, if_neg hdir, numberBound?, if_neg hneither, if_neg hlevels, Option.bind_none]

/-! ## One set -/

/-- The answer of a set that has assigned its value: it was the check that spoke. -/
def assigns : Except SettingsError Unit → Bool
  | .ok () => true
  | .error (.invalid _) => true
  | .error _ => false

theorem validate_cases (s : Settings) :
    s.validate = .ok () ∨ ∃ e, s.validate = .error (.invalid e) := by
  unfold validate
  cases s.limits.validate with
  | ok _ => exact .inl rfl
  | error e => exact .inr ⟨e, rfl⟩

theorem assigns_validate (s : Settings) : assigns s.validate = true := by
  obtain h | ⟨e, h⟩ := validate_cases s <;> rw [h] <;> rfl

/-- A set assigns and answers with the check of what it has assigned, or it
answers that the key does not take the value and leaves the settings alone. -/
theorem set_cases (s : Settings) (key value : String) :
    (∃ s' text, s.set key value = (s'.validate, s') ∧ SameBut key s s' ∧
      shown? key value = some text ∧ s'.get? key = some text) ∨
    (∃ e, s.set key value = (.error e, s) ∧ shown? key value = none ∧
      assigns (.error e) = false) := by
  have hassigned := assigned_assign s key value
  unfold set
  cases hs : s.assign key value with
  | ok s' =>
      rw [hs] at hassigned
      obtain ⟨hsame, text, hshown, hget⟩ := hassigned
      exact .inl ⟨s', text, rfl, hsame, hshown, hget⟩
  | error e =>
      rw [hs] at hassigned
      obtain ⟨hshown, rfl | ⟨fault, rfl⟩⟩ := hassigned
      · exact .inr ⟨_, rfl, hshown, rfl⟩
      · exact .inr ⟨_, rfl, hshown, rfl⟩

/-- Whatever a set answers, other keys show what they did. -/
theorem sameBut_set (s : Settings) (key value : String) : SameBut key s (s.set key value).2 := by
  obtain ⟨s', _, hset, hsame, _⟩ | ⟨e, hset, _⟩ := set_cases s key value
  · rw [hset]
    exact hsame
  · rw [hset]
    exact ⟨fun _ _ => rfl, rfl⟩

/-- Whatever a set answers, its key shows the value if it takes it. -/
theorem get?_set_self (s : Settings) (key value : String) :
    (s.set key value).2.get? key = (shown? key value).or (s.get? key) := by
  obtain ⟨s', text, hset, _, hshown, hget⟩ | ⟨e, hset, hshown, _⟩ := set_cases s key value
  · rw [hset, hshown, hget, Option.some_or]
  · rw [hset, hshown, Option.none_or]

theorem get?_set (s : Settings) (call : String × String) (key : String) :
    (s.set call.1 call.2).2.get? key = (written? key call).or (s.get? key) := by
  by_cases hkey : call.1 = key
  · rw [← hkey, get?_set_self, written?, if_pos rfl]
  · rw [(sameBut_set s _ _).get? key (Ne.symm hkey), written?, if_neg hkey, Option.none_or]

/-- A set leaves the settings as they were exactly when its key does not take
the value or showed it before. -/
theorem set_unchanged_iff (s : Settings) (key value : String) :
    (s.set key value).2 = s ↔ ∀ text, shown? key value = some text → s.get? key = some text := by
  rw [(sameBut_set s key value).eq_iff, get?_set_self]
  cases shown? key value with
  | none => simp
  | some text =>
      rw [Option.some_or]
      exact ⟨fun h t ht => by rw [← h, ht], fun h => (h text rfl).symm⟩

/-- After a set that assigned the settings are as valid as its answer says,
after another one as valid as before. -/
theorem validate_set (s : Settings) (key value : String) :
    (s.set key value).2.validate =
      if assigns (s.set key value).1 then (s.set key value).1 else s.validate := by
  obtain ⟨s', _, hset, _⟩ | ⟨e, hset, _, hanswer⟩ := set_cases s key value
  · rw [hset, if_pos (assigns_validate s')]
  · rw [hset, hanswer]
    rfl

/-! ## A sequence of sets -/

/-- Set keys one after the other, whatever each set answers. -/
def setAll : List (String × String) → Settings → List (Except SettingsError Unit) × Settings
  | [], s => ([], s)
  | call :: calls, s =>
    let (answer, s) := s.set call.1 call.2
    let (answers, s) := setAll calls s
    (answer :: answers, s)

theorem setAll_cons (call : String × String) (calls : List (String × String)) (s : Settings) :
    setAll (call :: calls) s =
      ((s.set call.1 call.2).1 :: (setAll calls (s.set call.1 call.2).2).1,
        (setAll calls (s.set call.1 call.2).2).2) := rfl

/-- After any sequence of sets a key shows the last text that was written under it. -/
theorem get?_setAll (calls : List (String × String)) (s : Settings) (key : String) :
    (setAll calls s).2.get? key =
      ((calls.filterMap (written? key)).getLast?).or (s.get? key) := by
  induction calls generalizing s with
  | nil => rfl
  | cons call calls ih =>
      rw [setAll_cons, ih, get?_set, List.filterMap_cons]
      cases written? key call with
      | none => rw [Option.none_or]
      | some text =>
          rw [List.getLast?_cons, Option.some_or]
          cases (calls.filterMap (written? key)).getLast? <;> rfl

/-- After any sequence of sets the settings are as valid as the last answer of a
set that assigned says. -/
theorem validate_setAll (calls : List (String × String)) (s : Settings) :
    (setAll calls s).2.validate =
      ((((setAll calls s).1.filter assigns).getLast?).getD s.validate) := by
  induction calls generalizing s with
  | nil => rfl
  | cons call calls ih =>
      rw [setAll_cons, ih, validate_set, List.filter_cons]
      split
      · next hassigns => rw [List.getLast?_cons]; rfl
      · rfl

theorem catalog_setAll (calls : List (String × String)) (s : Settings) :
    (setAll calls s).2.catalog = s.catalog := by
  induction calls generalizing s with
  | nil => rfl
  | cons call calls ih => rw [setAll_cons, ih, (sameBut_set s call.1 call.2).catalog]

/-! ## Failures -/

/-- A set that fails leaves the settings as they were. -/
def FailsClean (s : Settings) (key value : String) : Prop :=
  (s.set key value).1 ≠ .ok () → (s.set key value).2 = s

instance (s : Settings) (key value : String) : Decidable (FailsClean s key value) :=
  inferInstanceAs (Decidable (_ → _))

theorem failsClean_iff (s : Settings) (key value : String) :
    FailsClean s key value ↔ (s.set key value).1 = .ok () ∨
      ∀ text, shown? key value = some text → s.get? key = some text := by
  rw [FailsClean, set_unchanged_iff, ← or_iff_not_imp_left]

/-- Settings that are valid are spared by the failures that precede the check, and
by none of the check's own. -/
theorem failsClean_iff_of_valid (hs : s.validate = .ok ()) :
    FailsClean s key value ↔ ∀ e, (s.set key value).1 ≠ .error (.invalid e) := by
  obtain ⟨s', _, hset, _⟩ | ⟨e, hset, _, hanswer⟩ := set_cases s key value
  · rw [FailsClean, hset]
    constructor
    · intro hclean e he
      have hsame : s' = s := hclean (by rw [he]; exact nofun)
      rw [hsame, hs] at he
      cases he
    · intro hnever hfails
      obtain hok | ⟨e, he⟩ := validate_cases s'
      · exact absurd hok hfails
      · exact absurd he (hnever e)
  · rw [FailsClean, hset]
    refine ⟨fun _ e' he' => ?_, fun _ _ => rfl⟩
    cases he'
    cases hanswer

/-- **Sets fail clean up to the check of the limits.** A set that fails leaves the
settings as they were exactly when its key does not take the value or showed it
before; on settings that are valid this is exactly when it was not the check
that failed. A set that succeeds changes its own key alone. After any sequence
of sets a key shows the last text written under it, and settings that were
valid are so still exactly when the last set that assigned succeeded. -/
theorem failsClean_exactly (s : Settings) :
    (∀ key value,
      (FailsClean s key value ↔ (s.set key value).1 = .ok () ∨
        ∀ text, shown? key value = some text → s.get? key = some text) ∧
      (s.validate = .ok () →
        (FailsClean s key value ↔ ∀ e, (s.set key value).1 ≠ .error (.invalid e))) ∧
      ((s.set key value).1 = .ok () → SameBut key s (s.set key value).2 ∧
        ∃ text, shown? key value = some text ∧ (s.set key value).2.get? key = some text)) ∧
    ∀ calls,
      (∀ key, (setAll calls s).2.get? key =
        ((calls.filterMap (written? key)).getLast?).or (s.get? key)) ∧
      (setAll calls s).2.catalog = s.catalog ∧
      (s.validate = .ok () → ((setAll calls s).2.validate = .ok () ↔
        ∀ answer, ((setAll calls s).1.filter assigns).getLast? = some answer →
          answer = .ok ())) := by
  refine ⟨fun key value => ⟨failsClean_iff s key value, failsClean_iff_of_valid, fun hok => ?_⟩,
    fun calls => ⟨get?_setAll calls s, catalog_setAll calls s, fun hs => ?_⟩⟩
  · obtain ⟨s', text, hset, hsame, hshown, hget⟩ | ⟨e, hset, _⟩ := set_cases s key value
    · rw [hset]
      exact ⟨hsame, text, hshown, hget⟩
    · rw [hset] at hok
      cases hok
  · rw [validate_setAll]
    cases ((setAll calls s).1.filter assigns).getLast? with
    | none => simp [hs]
    | some answer => simp

/-- Default settings outlive a text that is no number, and a level count that is
refused only until an accepted one replaces it. -/
theorem failsClean_exactly_defaults :
    ({} : Settings).validate = .ok () ∧ FailsClean {} "engine.max_levels" "lots" ∧
    (setAll [("engine.max_levels", "0"), ("no.such.key", "1")] {}).2.validate ≠ .ok () ∧
    (setAll [("engine.max_levels", "0"), ("engine.max_levels", "12")] {}).2.validate = .ok () := by
  have hvalid : ({} : Settings).validate = .ok () := by decide
  obtain ⟨hset, hall⟩ := failsClean_exactly {}
  refine ⟨hvalid, (hset _ _).1.mpr (.inr (by decide)), fun h => ?_, ?_⟩
  · exact absurd ((hall _).2.2 hvalid |>.mp h _ rfl) (by decide)
  · exact (hall _).2.2 hvalid |>.mpr (by decide)

/-- A level count of zero is refused and stays: the settings are not what they
were and are valid no more. -/
theorem not_failsClean_zeroLevels :
    ({} : Settings).validate = .ok () ∧ ¬ FailsClean {} "engine.max_levels" "0" ∧
    (setAll [("engine.max_levels", "0")] {}).2.validate =
      .error (.invalid (.configuration "Maximum levels must be positive")) := by
  decide

end Settings

end Inventory
