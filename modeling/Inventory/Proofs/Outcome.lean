import Mathlib.Data.List.Perm.Basic
import Inventory.Error

/-!
# Outcome — computations that succeed

How the success of a sequence, of a list of readings and of a fold is made of
the successes of their steps. Readers of definitions and descents are built
from these three; sequences and folds are alike for every kind of error.
-/

namespace Inventory.Outcome

variable {ε ε' α β : Type}

/-! ## Sequences -/

theorem bind_eq_ok {x : Except ε α} {f : α → Except ε β} {b : β} :
    (x >>= f) = .ok b ↔ ∃ a, x = .ok a ∧ f a = .ok b := by
  cases x with
  | error e => simp [bind, Except.bind]
  | ok a => simp [bind, Except.bind]

theorem bind_eq_error {x : Except ε α} {f : α → Except ε β} {e : ε} :
    (x >>= f) = .error e ↔ x = .error e ∨ ∃ a, x = .ok a ∧ f a = .error e := by
  cases x with
  | error e' => simp [bind, Except.bind]
  | ok a => simp [bind, Except.bind]

theorem eq_error_of_bind {x : Except ε α} {f : α → Except ε β} {a : α} {e : ε} (hx : x = .ok a)
    (h : (x >>= f) = .error e) : f a = .error e := by
  rw [hx] at h
  exact h

/-- A success is the same under whatever name its error would have had. -/
theorem mapError_eq_ok {x : Except ε α} {f : ε → ε'} {a : α} :
    x.mapError f = .ok a ↔ x = .ok a := by
  cases x with
  | error e => simp [Except.mapError]
  | ok b => simp [Except.mapError]

theorem mapError_eq_error {x : Except ε α} {f : ε → ε'} {e : ε'} :
    x.mapError f = .error e ↔ ∃ e', x = .error e' ∧ f e' = e := by
  cases x with
  | error e => simp [Except.mapError]
  | ok b => simp [Except.mapError]

/-! ## Lists of readings -/

/-- Where lists correspond item by item, each item has one that it corresponds to. -/
theorem exists_of_forall₂ {R : α → β → Prop} {xs : List α} {ys : List β}
    (h : List.Forall₂ R xs ys) {x : α} (hx : x ∈ xs) : ∃ y ∈ ys, R x y := by
  induction h with
  | nil => cases hx
  | @cons x₀ y₀ xs ys hy _ ih =>
      rcases List.mem_cons.mp hx with rfl | hx
      · exact ⟨y₀, List.mem_cons_self, hy⟩
      · obtain ⟨y, hmem, hy⟩ := ih hx
        exact ⟨y, List.mem_cons_of_mem _ hmem, hy⟩

theorem mapM_eq_some {f : α → Option β} {xs : List α} {ys : List β} :
    xs.mapM f = some ys ↔ List.Forall₂ (fun x y => f x = some y) xs ys := by
  induction xs generalizing ys with
  | nil => cases ys <;> simp
  | cons x xs ih =>
      rw [List.forall₂_cons_left_iff]
      cases hx : f x with
      | none => simp [hx]
      | some y =>
          cases hxs : xs.mapM f with
          | none => simp [hx, hxs, ← ih]
          | some ys' => simp [hx, hxs, ← ih, eq_comm]

/-- A list is read item by item. -/
theorem mapM_eq_ok {f : α → Outcome β} {xs : List α} {ys : List β} :
    xs.mapM f = .ok ys ↔ List.Forall₂ (fun x y => f x = .ok y) xs ys := by
  induction xs generalizing ys with
  | nil => cases ys <;> simp [pure, Except.pure]
  | cons x xs ih =>
      rw [List.mapM_cons, bind_eq_ok, List.forall₂_cons_left_iff]
      constructor
      · rintro ⟨y, hy, h⟩
        obtain ⟨rest, hrest, h⟩ := bind_eq_ok.mp h
        cases h
        exact ⟨y, rest, hy, ih.mp hrest, rfl⟩
      · rintro ⟨y, rest, hy, hrest, rfl⟩
        exact ⟨y, hy, bind_eq_ok.mpr ⟨rest, ih.mpr hrest, rfl⟩⟩

theorem mem_mapM {f : α → Outcome β} {xs : List α} {ys : List β}
    (h : xs.mapM f = .ok ys) (y : β) : y ∈ ys ↔ ∃ x ∈ xs, f x = .ok y := by
  have hall := mapM_eq_ok.mp h
  clear h
  induction hall with
  | nil => simp
  | @cons x y₀ xs ys hy _ ih =>
      simp only [List.mem_cons, ih, exists_eq_or_imp, hy, Except.ok.injEq]
      exact or_congr_left eq_comm

/-- Every item of a list that is read is read. -/
theorem mapM_reads {f : α → Outcome β} {xs : List α} {ys : List β}
    (h : xs.mapM f = .ok ys) {x : α} (hx : x ∈ xs) : ∃ y ∈ ys, f x = .ok y :=
  exists_of_forall₂ (mapM_eq_ok.mp h) hx

theorem mapM_total {f : α → Outcome β} {xs : List α}
    (h : ∀ x ∈ xs, ∃ y, f x = .ok y) : ∃ ys, xs.mapM f = .ok ys := by
  induction xs with
  | nil => exact ⟨[], rfl⟩
  | cons x xs ih =>
      obtain ⟨y, hy⟩ := h x (by simp)
      obtain ⟨ys, hys⟩ := ih fun x' hx' => h x' (by simp [hx'])
      exact ⟨y :: ys, mapM_eq_ok.mpr (.cons hy (mapM_eq_ok.mp hys))⟩

/-- A list in another order is read with the same results, in that order. -/
theorem mapM_perm {f : α → Outcome β} {xs xs' : List α} {ys : List β} (hp : xs.Perm xs')
    (h : xs.mapM f = .ok ys) : ∃ ys', xs'.mapM f = .ok ys' ∧ ys.Perm ys' := by
  obtain ⟨ys', hall, hys⟩ := List.perm_comp_forall₂ hp.symm (mapM_eq_ok.mp h)
  exact ⟨ys', mapM_eq_ok.mpr hall, hys.symm⟩

/-! ## Folds -/

theorem foldlM_cons_eq_ok {f : β → α → Except ε β} {x : α} {xs : List α} {b c : β} :
    (x :: xs).foldlM f b = .ok c ↔ ∃ b', f b x = .ok b' ∧ xs.foldlM f b' = .ok c := by
  rw [List.foldlM_cons, bind_eq_ok]

/-- What every step of a fold keeps holds at its end. -/
theorem foldlM_keeps {f : β → α → Except ε β} {P : β → Prop} {xs : List α}
    (hf : ∀ x ∈ xs, ∀ {b c}, f b x = .ok c → P b → P c) {b c : β} (h : xs.foldlM f b = .ok c)
    (hb : P b) : P c := by
  induction xs generalizing b with
  | nil => cases h; exact hb
  | cons x xs ih =>
      obtain ⟨b', hx, h⟩ := foldlM_cons_eq_ok.mp h
      exact ih (fun y hy => hf y (List.mem_cons_of_mem _ hy)) h (hf x List.mem_cons_self hx hb)

/-- Every step of a fold that succeeds has succeeded somewhere, where what the
steps keep holds. -/
theorem foldlM_steps_keeping {f : β → α → Except ε β} {P : β → Prop} {xs : List α}
    (hf : ∀ x ∈ xs, ∀ {b c}, f b x = .ok c → P b → P c) {b c : β} (h : xs.foldlM f b = .ok c)
    (hb : P b) {x : α} (hx : x ∈ xs) : ∃ b' c', P b' ∧ f b' x = .ok c' := by
  induction xs generalizing b with
  | nil => cases hx
  | cons y xs ih =>
      obtain ⟨b', hy, h⟩ := foldlM_cons_eq_ok.mp h
      rcases List.mem_cons.mp hx with rfl | hx
      · exact ⟨b, b', hb, hy⟩
      · exact ih (fun z hz => hf z (List.mem_cons_of_mem _ hz)) h (hf y List.mem_cons_self hy hb) hx

/-- Every step of a fold that succeeds has succeeded somewhere. -/
theorem foldlM_steps {f : β → α → Except ε β} {xs : List α} {b c : β}
    (h : xs.foldlM f b = .ok c) {x : α} (hx : x ∈ xs) : ∃ b' c', f b' x = .ok c' := by
  obtain ⟨b', c', -, hstep⟩ :=
    foldlM_steps_keeping (P := fun _ => True) (fun _ _ {_ _} _ _ => trivial) h trivial hx
  exact ⟨b', c', hstep⟩

/-- A fold fails at one of its steps, where what the steps before it keep holds. -/
theorem foldlM_eq_error {f : β → α → Except ε β} {P : β → Prop} {xs : List α}
    (hf : ∀ x ∈ xs, ∀ {b c}, f b x = .ok c → P b → P c) {b : β} {e : ε}
    (h : xs.foldlM f b = .error e) (hb : P b) : ∃ x ∈ xs, ∃ b', P b' ∧ f b' x = .error e := by
  induction xs generalizing b with
  | nil => cases h
  | cons x xs ih =>
      rw [List.foldlM_cons, bind_eq_error] at h
      rcases h with h | ⟨b', hx, h⟩
      · exact ⟨x, List.mem_cons_self, b, hb, h⟩
      · obtain ⟨y, hy, hfail⟩ := ih (fun y hy => hf y (List.mem_cons_of_mem _ hy)) h
          (hf x List.mem_cons_self hx hb)
        exact ⟨y, List.mem_cons_of_mem _ hy, hfail⟩

theorem foldlM_total {f : β → α → Outcome β} {xs : List α}
    (hf : ∀ x ∈ xs, ∀ b, ∃ c, f b x = .ok c) (b : β) : ∃ c, xs.foldlM f b = .ok c := by
  induction xs generalizing b with
  | nil => exact ⟨b, rfl⟩
  | cons x xs ih =>
      obtain ⟨b', hx⟩ := hf x List.mem_cons_self b
      obtain ⟨c, hc⟩ := ih (fun y hy => hf y (List.mem_cons_of_mem _ hy)) b'
      exact ⟨c, foldlM_cons_eq_ok.mpr ⟨b', hx, hc⟩⟩

theorem foldlM_flatten {f : β → α → Outcome β} {xss : List (List α)} {b : β} :
    xss.flatten.foldlM f b = xss.foldlM (fun b xs => xs.foldlM f b) b := by
  induction xss generalizing b with
  | nil => rfl
  | cons xs xss ih =>
      rw [List.flatten_cons, List.foldlM_append, List.foldlM_cons]
      simp only [ih]

/-- A fold whose steps read their items first is a fold over what was read. -/
theorem foldlM_of_reads {γ : Type} {F : β → α → Outcome β} {read : α → Outcome γ}
    {f : β → γ → Outcome β}
    (hF : ∀ x b c, F b x = .ok c ↔ ∃ y, read x = .ok y ∧ f b y = .ok c) {xs : List α} {b c : β} :
    xs.foldlM F b = .ok c ↔ ∃ ys, xs.mapM read = .ok ys ∧ ys.foldlM f b = .ok c := by
  induction xs generalizing b with
  | nil =>
      constructor
      · intro h; exact ⟨[], rfl, h⟩
      · rintro ⟨ys, hys, h⟩; cases hys; exact h
  | cons x xs ih =>
      rw [foldlM_cons_eq_ok]
      simp only [mapM_eq_ok, List.forall₂_cons_left_iff]
      constructor
      · rintro ⟨b', hx, h⟩
        obtain ⟨y, hy, hb'⟩ := (hF x b b').mp hx
        obtain ⟨ys, hys, h⟩ := ih.mp h
        exact ⟨y :: ys, ⟨y, ys, hy, mapM_eq_ok.mp hys, rfl⟩, foldlM_cons_eq_ok.mpr ⟨b', hb', h⟩⟩
      · rintro ⟨_, ⟨y, ys, hy, hys, rfl⟩, h⟩
        obtain ⟨b', hb', h⟩ := foldlM_cons_eq_ok.mp h
        exact ⟨b', (hF x b b').mpr ⟨y, hy, hb'⟩, ih.mpr ⟨ys, mapM_eq_ok.mpr hys, h⟩⟩

/-! ## Successes and failures -/

/-- A success has one property, the error of a failure another. -/
def Meets (x : Outcome α) (P : α → Prop) (E : Error → Prop) : Prop :=
  match x with
  | .ok a => P a
  | .error e => E e

namespace Meets

variable {E : Error → Prop}

theorem ok {P : α → Prop} {a : α} (h : P a) : Meets (.ok a) P E := h

theorem error {P : α → Prop} {e : Error} (h : E e) : Meets (.error e) P E := h

theorem imp {x : Outcome α} {P P' : α → Prop} {E' : Error → Prop} (h : x.Meets P E)
    (hP : ∀ {a}, P a → P' a) (hE : ∀ {e}, E e → E' e) : x.Meets P' E' := by
  cases x with
  | ok a => exact hP h
  | error e => exact hE h

theorem of_ok {x : Outcome α} {P : α → Prop} {a : α} (h : x.Meets P E) (ha : x = .ok a) : P a := by
  rw [ha] at h
  exact h

theorem of_error {x : Outcome α} {P : α → Prop} {e : Error} (h : x.Meets P E)
    (he : x = .error e) : E e := by
  rw [he] at h
  exact h

/-- What a success has, it has besides being that success. -/
theorem eq {x : Outcome α} {P : α → Prop} (h : x.Meets P E) :
    x.Meets (fun a => x = .ok a ∧ P a) E := by
  cases x with
  | ok a => exact ⟨rfl, h⟩
  | error e => exact h

theorem map {x : Outcome α} {f : α → β} {Q : β → Prop} (h : x.Meets (fun a => Q (f a)) E) :
    Outcome.Meets (x.map f) Q E := by
  cases x with
  | ok a => exact h
  | error e => exact h

theorem bind {x : Outcome α} {f : α → Outcome β} {P : α → Prop} {Q : β → Prop} (h : x.Meets P E)
    (hf : ∀ {a}, P a → (f a).Meets Q E) : Outcome.Meets (x >>= f) Q E := by
  cases x with
  | ok a => exact hf h
  | error e => exact h

theorem mapM {f : α → Outcome β} {R : α → β → Prop} {xs : List α}
    (h : ∀ x ∈ xs, (f x).Meets (R x) E) :
    Outcome.Meets (xs.mapM f)
      (fun ys => (∀ y ∈ ys, ∃ x ∈ xs, R x y) ∧ ∀ x ∈ xs, ∃ y ∈ ys, R x y) E := by
  induction xs with
  | nil => exact ⟨by simp, by simp⟩
  | cons x xs ih =>
      obtain ⟨hx, hxs⟩ := List.forall_mem_cons.mp h
      rw [List.mapM_cons]
      refine hx.bind fun {y} hy => (ih hxs).bind fun {ys} hys => ?_
      refine ⟨?_, ?_⟩
      · rw [List.forall_mem_cons]
        refine ⟨⟨x, List.mem_cons_self, hy⟩, fun y' hy' => ?_⟩
        obtain ⟨x', hx', hr⟩ := hys.1 y' hy'
        exact ⟨x', List.mem_cons_of_mem _ hx', hr⟩
      · rw [List.forall_mem_cons]
        refine ⟨⟨y, List.mem_cons_self, hy⟩, fun x' hx' => ?_⟩
        obtain ⟨y', hy', hr⟩ := hys.2 x' hx'
        exact ⟨y', List.mem_cons_of_mem _ hy', hr⟩

/-- A fold that succeeds keeps what its steps keep, and has done what each of
its steps does for good. -/
theorem foldlM {f : β → α → Outcome β} {I : β → Prop} {D : α → Prop} {xs : List α}
    (h : ∀ x ∈ xs, ∀ {b}, I b → (f b x).Meets (fun b' => I b' ∧ D x) E) {b : β} (hb : I b) :
    Outcome.Meets (xs.foldlM f b) (fun b' => I b' ∧ ∀ x ∈ xs, D x) E := by
  induction xs generalizing b with
  | nil => exact ⟨hb, by simp⟩
  | cons x xs ih =>
      obtain ⟨hx, hxs⟩ := List.forall_mem_cons.mp h
      rw [List.foldlM_cons]
      refine (hx hb).bind fun hb' => (ih hxs hb'.1).imp (fun hc => ⟨hc.1, ?_⟩) fun he => he
      rw [List.forall_mem_cons]
      exact ⟨hb'.2, hc.2⟩

end Meets

end Inventory.Outcome
