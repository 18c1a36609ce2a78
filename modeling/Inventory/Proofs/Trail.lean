import Mathlib.Order.Basic
import Inventory.Trail

/-!
# Trail — keys

The key of a longer trail continues the key of the shorter one. Trails with one
key are the same when no name in them holds a separator at which a reader of the
key would end it.
-/

namespace Inventory

theorem Text.joined_concat (sep s : String) {xs : List String} (h : xs ≠ []) :
    Text.joined sep (xs ++ [s]) = Text.joined sep xs ++ sep ++ s := by
  induction xs with
  | nil => exact absurd rfl h
  | cons x xs ih =>
      cases xs with
      | nil => rfl
      | cons y ys =>
          rw [List.cons_append, List.cons_append, joined, ← List.cons_append, ih (by simp),
            joined]
          simp only [String.append_assoc]

namespace Trail

theorem key_extend (t : Trail) (s : TrailStep) : (t.extend s).key = t.key ++ "|" ++ s.render := by
  unfold key steps extend
  rw [← List.cons_append, List.map_append]
  exact Text.joined_concat _ _ (by simp)

theorem extend_below_ne_nil (t : Trail) (s : TrailStep) : (t.extend s).below ≠ [] := by
  simp [extend]

end Trail

/-! ## Texts that end -/

/-- Two texts agree up to where both end, and beyond. -/
theorem Text.append_inj_of_ends {p : Char → Bool} {a b x y : List Char}
    (ha : ∀ c ∈ a, p c = true) (hb : ∀ c ∈ b, p c = true) (hx : ∀ c ∈ x.head?, p c = false)
    (hy : ∀ c ∈ y.head?, p c = false) (h : a ++ x = b ++ y) : a = b ∧ x = y := by
  have hends : ∀ {l : List Char}, (∀ c ∈ l.head?, p c = false) → l.takeWhile p = [] := by
    intro l hl
    cases l with
    | nil => rfl
    | cons c l => simp [hl c (by simp)]
  have hab : a = b := by
    have htake := congrArg (List.takeWhile p) h
    rw [List.takeWhile_append_of_pos ha, List.takeWhile_append_of_pos hb, hends hx,
      hends hy] at htake
    simpa using htake
  subst hab
  exact ⟨rfl, List.append_cancel_left h⟩

/-- A text between separators is its first piece, and each other piece after a
separator. -/
theorem Text.toList_joined_bar (x : String) (xs : List String) :
    (joined "|" (x :: xs)).toList = x.toList ++ xs.flatMap fun y => '|' :: y.toList := by
  induction xs generalizing x with
  | nil => simp [joined]
  | cons y ys ih => simp [joined, ih]

/-! ## Legible steps -/

namespace TrailStep

/-- No name of the step holds a separator at which a reader would end it. -/
structure Legible (s : TrailStep) : Prop where
  nodeType : ',' ∉ s.nodeType.toList ∧ '|' ∉ s.nodeType.toList
  modelId : ∀ p ∈ s.persona, ',' ∉ p.modelId.toList
  modelVersion : ∀ p ∈ s.persona, '|' ∉ p.modelVersion.toList

/-- The text of a step after its node type. -/
def bound (s : TrailStep) : List Char :=
  match s.persona with
  | some p => ',' :: (p.modelId.toList ++ ',' :: p.modelVersion.toList)
  | none => []

theorem toList_render (s : TrailStep) : s.render.toList = s.nodeType.toList ++ s.bound := by
  cases h : s.persona <;> simp [render, parts, bound, h, Text.joined]

/-- What may follow a step ends it. -/
theorem head?_bound_append {s : TrailStep} {x : List Char} (hx : ∀ c ∈ x.head?, c = '|') :
    ∀ c ∈ (s.bound ++ x).head?, c = ',' ∨ c = '|' := by
  intro c hc
  cases h : s.persona with
  | none =>
      simp only [bound, h, List.nil_append] at hc
      exact .inr (hx c hc)
  | some p =>
      simp only [bound, h, List.cons_append, List.head?_cons, Option.mem_some] at hc
      exact .inl hc.symm

theorem bound_append_inj {s s' : TrailStep} (hs : s.Legible) (hs' : s'.Legible) {x y : List Char}
    (hx : ∀ c ∈ x.head?, c = '|') (hy : ∀ c ∈ y.head?, c = '|')
    (h : s.bound ++ x = s'.bound ++ y) : s.persona = s'.persona ∧ x = y := by
  cases hp : s.persona with
  | none =>
      cases hp' : s'.persona with
      | none => exact ⟨rfl, by simpa [bound, hp, hp'] using h⟩
      | some q =>
          simp only [bound, hp, hp', List.nil_append] at h
          subst h
          simp at hx
  | some p =>
      cases hp' : s'.persona with
      | none =>
          simp only [bound, hp, hp', List.nil_append] at h
          subst h
          simp at hy
      | some q =>
          simp only [bound, hp, hp', List.cons_append, List.append_assoc, List.cons.injEq,
            true_and] at h
          -- the id ends at the first comma, the version at the first bar
          obtain ⟨hid, h⟩ := Text.append_inj_of_ends (p := (· != ','))
            (fun c hc => by simpa using ne_of_mem_of_not_mem hc (hs.modelId p hp))
            (fun c hc => by simpa using ne_of_mem_of_not_mem hc (hs'.modelId q hp'))
            (by simp) (by simp) h
          obtain ⟨hversion, hrest⟩ := Text.append_inj_of_ends (p := (· != '|'))
            (fun c hc => by simpa using ne_of_mem_of_not_mem hc (hs.modelVersion p hp))
            (fun c hc => by simpa using ne_of_mem_of_not_mem hc (hs'.modelVersion q hp'))
            (fun c hc => by simp [hx c hc]) (fun c hc => by simp [hy c hc]) (List.cons.inj h).2
          refine ⟨?_, hrest⟩
          cases p
          cases q
          simp_all [String.toList_inj]

/-- A legible step is read off a text that goes on with a bar, if at all. -/
theorem render_append_inj {s s' : TrailStep} (hs : s.Legible) (hs' : s'.Legible)
    {x y : List Char} (hx : ∀ c ∈ x.head?, c = '|') (hy : ∀ c ∈ y.head?, c = '|')
    (h : s.render.toList ++ x = s'.render.toList ++ y) : s = s' ∧ x = y := by
  rw [toList_render, toList_render, List.append_assoc, List.append_assoc] at h
  have hplain : ∀ {s : TrailStep}, s.Legible →
      ∀ c ∈ s.nodeType.toList, (c != ',' && c != '|') = true := by
    intro s hs c hc
    have hcomma := ne_of_mem_of_not_mem hc hs.nodeType.1
    have hbar := ne_of_mem_of_not_mem hc hs.nodeType.2
    simp [hcomma, hbar]
  have hends : ∀ {c : Char}, c = ',' ∨ c = '|' → (c != ',' && c != '|') = false := by
    rintro c (rfl | rfl) <;> rfl
  obtain ⟨htype, h⟩ := Text.append_inj_of_ends (hplain hs) (hplain hs')
    (fun c hc => hends (head?_bound_append hx c hc))
    (fun c hc => hends (head?_bound_append hy c hc)) h
  obtain ⟨hpersona, hrest⟩ := bound_append_inj hs hs' hx hy h
  refine ⟨?_, hrest⟩
  cases s
  cases s'
  simp_all [String.toList_inj]

end TrailStep

/-! ## Keys of legible trails -/

namespace Trail

/-- Every step of the trail is legible. -/
def Legible (t : Trail) : Prop := ∀ s ∈ t.steps, s.Legible

/-- The text of the steps below a root. -/
def barred (l : List TrailStep) : List Char := l.flatMap fun s => '|' :: s.render.toList

theorem toList_key (t : Trail) : t.key.toList = t.root.render.toList ++ barred t.below := by
  simp [key, steps, Text.toList_joined_bar, barred, List.flatMap_map]

theorem head?_barred (l : List TrailStep) : ∀ c ∈ (barred l).head?, c = '|' := by
  cases l <;> simp [barred]

theorem barred_inj {l l' : List TrailStep} (hl : ∀ s ∈ l, s.Legible) (hl' : ∀ s ∈ l', s.Legible)
    (h : barred l = barred l') : l = l' := by
  induction l generalizing l' with
  | nil =>
      cases l' with
      | nil => rfl
      | cons s' l' => simp [barred] at h
  | cons s l ih =>
      cases l' with
      | nil => simp [barred] at h
      | cons s' l' =>
          have hcons : s.render.toList ++ barred l = s'.render.toList ++ barred l' := by
            simpa [barred] using h
          obtain ⟨rfl, hrest⟩ := TrailStep.render_append_inj (hl s (by simp)) (hl' s' (by simp))
            (head?_barred l) (head?_barred l') hcons
          rw [ih (fun r hr => hl r (by simp [hr])) (fun r hr => hl' r (by simp [hr])) hrest]

theorem key_inj {t t' : Trail} (ht : t.Legible) (ht' : t'.Legible) (h : t.key = t'.key) :
    t = t' := by
  have htext := congrArg String.toList h
  rw [toList_key, toList_key] at htext
  obtain ⟨hroot, hbelow⟩ := TrailStep.render_append_inj (ht _ (by simp [steps]))
    (ht' _ (by simp [steps])) (head?_barred _) (head?_barred _) htext
  have hrest := barred_inj (fun s hs => ht s (by simp [steps, hs]))
    (fun s hs => ht' s (by simp [steps, hs])) hbelow
  cases t
  cases t'
  simp_all

end Trail

end Inventory
