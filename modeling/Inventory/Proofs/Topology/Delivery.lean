import Inventory.Proofs.Topology.Expansion

/-!
# Topology — what a descent delivers

A part of a descent delivers a set of records when it records no others and all
of them, up to some that may be missing. A visit delivers what its place adds
as soon as the visits below it do. So does a descent that visits every place it
arrives at, and one that visits each element once per trail, up to what the
places it skips add and the visited ones do not.
-/

namespace Inventory

/-! ## Deliveries -/

/-- From one descent to a later one the records of a set are added, except
perhaps some that may be missing; an invariant holds again at the end. -/
structure Delivers (I : Descent → Prop) (missing added : Record → Prop) (d d' : Descent) :
    Prop where
  invariant : I d'
  keeps : ∀ {r}, d.Holds r → d'.Holds r
  sound : ∀ {r}, d'.Holds r → d.Holds r ∨ added r
  complete : ∀ {r}, added r → d'.Holds r ∨ missing r

namespace Delivers

variable {I : Descent → Prop} {missing A B : Record → Prop} {d d₁ d₂ : Descent}

theorem of_holds_iff (hI : I d₁) (h : ∀ r, d₁.Holds r ↔ d.Holds r ∨ A r) :
    Delivers I missing A d d₁ where
  invariant := hI
  keeps hr := (h _).mpr (.inl hr)
  sound hr := (h _).mp hr
  complete hr := .inl ((h _).mpr (.inr hr))

theorem trans (h : Delivers I missing A d d₁) (h' : Delivers I missing B d₁ d₂) :
    Delivers I missing (fun r => A r ∨ B r) d d₂ where
  invariant := h'.invariant
  keeps hr := h'.keeps (h.keeps hr)
  sound hr := (h'.sound hr).elim (fun hr => (h.sound hr).imp_right .inl) fun hr => .inr (.inr hr)
  complete hr := hr.elim (fun hr => (h.complete hr).imp_left h'.keeps) h'.complete

theorem congr (h : Delivers I missing A d d₁) (hAB : ∀ r, A r ↔ B r) :
    Delivers I missing B d d₁ where
  invariant := h.invariant
  keeps := h.keeps
  sound hr := (h.sound hr).imp_right (hAB _).mp
  complete hr := h.complete ((hAB _).mpr hr)

theorem imp {J : Descent → Prop} (h : Delivers I missing A d d₁) (hJ : J d₁) :
    Delivers J missing A d d₁ where
  invariant := hJ
  keeps := h.keeps
  sound := h.sound
  complete := h.complete

/-- Remembering a visit records nothing. -/
theorem of_see {id : VertexId} {trail : Trail} (h : Delivers I missing A (d.see id trail) d₁) :
    Delivers I missing A d d₁ where
  invariant := h.invariant
  keeps hr := h.keeps ((Descent.holds_see id trail).mpr hr)
  sound hr := (h.sound hr).imp_left (Descent.holds_see id trail).mp
  complete := h.complete

/-- A fold delivers what its steps deliver. -/
theorem foldlM {α : Type} {f : Descent → α → Outcome Descent} {N : α → Record → Prop} {xs : List α}
    (hf : ∀ x ∈ xs, ∀ {d d'}, I d → f d x = .ok d' → Delivers I missing (N x) d d') (hd : I d)
    (h : xs.foldlM f d = .ok d₁) : Delivers I missing (fun r => ∃ x ∈ xs, N x r) d d₁ := by
  induction xs generalizing d with
  | nil => cases h; exact .of_holds_iff hd (by simp)
  | cons x xs ih =>
      obtain ⟨d₂, hx, h⟩ := Outcome.foldlM_cons_eq_ok.mp h
      have hfirst := hf x List.mem_cons_self hd hx
      have hrest := ih (fun y hy => hf y (List.mem_cons_of_mem _ hy)) hfirst.invariant h
      exact (hfirst.trans hrest).congr (by simp)

end Delivers

/-! ## Visits -/

section

variable {g : Graph} {ctx : Context} {purpose : Purpose} {levels : Nat}
  {visit : Scope → Element → Trail → Descent → Outcome Descent} {I : Descent → Prop}
  {missing : Record → Prop} {d d' : Descent}

/-- What a move adds: its step, and what is added where it leads. -/
def Place.AddsOver (g : Graph) (ctx : Context) (purpose : Purpose) (p : Place)
    (m : Option TrailStep × Place) (r : Record) : Prop :=
  (∃ s, m.1 = some s ∧ r = .step p.trail.key s) ∨ m.2.Adds g ctx purpose r

theorem follow_delivers (hI : Descent.Stable I) {p : Place} {m : Option TrailStep × Place}
    (hvisit : ∀ {d d'}, I d → visit m.2.scope m.2.element m.2.trail d = .ok d' →
      Delivers I missing (m.2.Adds g ctx purpose) d d')
    (hd : I d) (h : p.follow visit d m = .ok d') :
    Delivers I missing (p.AddsOver g ctx purpose m) d d' := by
  obtain ⟨o, q⟩ := m
  cases o with
  | none => exact (hvisit hd h).congr (by simp [Place.AddsOver])
  | some s =>
      have hallow : Delivers I missing (· = .step p.trail.key s) d (d.allow p.trail s) :=
        .of_holds_iff (hI.allow _ _ hd) fun r => Descent.holds_allow
      exact (hallow.trans (hvisit hallow.invariant h)).congr (by simp [Place.AddsOver])

/-- **A visit delivers what its place adds**, when the visits it leads to do. -/
theorem expand_delivers (hI : Descent.Stable I) {p : Place}
    (hvisit : ∀ {o q}, p.Move g ctx purpose o q → ∀ {d d'}, I d →
      visit q.scope q.element q.trail d = .ok d' →
        Delivers I missing (q.Adds g ctx purpose) d d')
    (hd : I d) (h : expand g ctx purpose levels visit p.scope p.element p.trail d = .ok d') :
    Delivers I missing (p.Adds g ctx purpose) d d' := by
  obtain ⟨d₁, ms, hfirst, hms, hfold⟩ := expand_eq_ok.mp h
  have hmoves : ∀ {o q}, (o, q) ∈ ms ↔ p.Move g ctx purpose o q := Place.mem_moves hms
  have hnotes : Delivers I missing (p.NotesFirst ctx.catalog.rules purpose) d d₁ :=
    .of_holds_iff (Place.stable_noteFirst hI hfirst hd) fun r => Place.holds_noteFirst hfirst
  have hover : Delivers I missing (fun r => ∃ m ∈ ms, p.AddsOver g ctx purpose m r) d₁ d' :=
    .foldlM (fun m hm => follow_delivers hI (hvisit (hmoves.mp hm))) hnotes.invariant hfold
  refine (hnotes.trans hover).congr fun r => ?_
  rw [Place.adds_iff]
  constructor
  · rintro (hr | ⟨⟨o, q⟩, hm, ⟨s, rfl, rfl⟩ | hr⟩)
    · exact .inl (.first hr)
    · exact .inl (.step (hmoves.mp hm))
    · exact .inr ⟨o, q, hmoves.mp hm, hr⟩
  · rintro (hr | ⟨o, q, hm, hr⟩)
    · cases hr with
      | first hr => exact .inl hr
      | step hm => exact .inr ⟨_, hmoves.mpr hm, .inl ⟨_, rfl, rfl⟩⟩
    · exact .inr ⟨_, hmoves.mpr hm, .inr hr⟩

end

end Inventory
