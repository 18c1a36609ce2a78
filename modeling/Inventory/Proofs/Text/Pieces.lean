import Mathlib.Data.List.TakeWhile
import Inventory.Text.Blank

/-!
# Text — what trimming and cutting leave

A trimmed text, the two parts around a separator and the pieces between
separators are described here without the functions that find them. The functions
find these and nothing else, so that a text that is put together from such parts
is taken apart into the same parts again.
-/

namespace Inventory.Text

/-! ## Trimmed texts -/

/-- What is left of a text without the blanks at both of its ends. -/
structure Trims (cs ts : List Char) : Prop where
  framed : ∃ before after, cs = before ++ ts ++ after ∧
    (∀ c ∈ before, isBlank c = true) ∧ ∀ c ∈ after, isBlank c = true
  head : ∀ c ∈ ts.head?, isBlank c = false
  last : ∀ c ∈ ts.getLast?, isBlank c = false

theorem head_dropWhile {p : Char → Bool} {cs : List Char} :
    ∀ c ∈ (cs.dropWhile p).head?, p c = false := by
  intro c hc
  have hfirst := List.head?_dropWhile_not p cs
  rw [Option.mem_def.mp hc] at hfirst
  exact hfirst

/-- What begins with a character to keep is kept whole. -/
theorem dropWhile_eq_self {p : Char → Bool} {cs : List Char} (h : ∀ c ∈ cs.head?, p c = false) :
    cs.dropWhile p = cs := by
  cases cs with
  | nil => rfl
  | cons c cs => exact List.dropWhile_cons_of_neg (by simp [h c rfl])

theorem trims_trimmed (cs : List Char) : Trims cs (trimmed cs) := by
  have hback : cs.dropWhile isBlank = trimmed cs ++
      ((cs.dropWhile isBlank).reverse.takeWhile isBlank).reverse := by
    rw [trimmed, ← List.reverse_append, List.takeWhile_append_dropWhile, List.reverse_reverse]
  constructor
  case framed =>
    refine ⟨cs.takeWhile isBlank, ((cs.dropWhile isBlank).reverse.takeWhile isBlank).reverse,
      ?_, fun c hc => List.mem_takeWhile_imp hc, fun c hc => ?_⟩
    · rw [List.append_assoc, ← hback, List.takeWhile_append_dropWhile]
    · exact List.mem_takeWhile_imp (List.mem_reverse.mp hc)
  case head =>
    -- the first character left is the first one that was not dropped in front
    intro c hc
    have hfirst : c ∈ (cs.dropWhile isBlank).head? := by
      rw [hback]
      cases htrimmed : trimmed cs with
      | nil => simp [htrimmed] at hc
      | cons x xs => simpa [htrimmed] using hc
    exact head_dropWhile c hfirst
  case last =>
    intro c hc
    rw [trimmed, List.getLast?_reverse] at hc
    exact head_dropWhile c hc

/-- Trimming leaves what it should, and nothing else is left. -/
theorem trims_iff {cs ts : List Char} : Trims cs ts ↔ trimmed cs = ts := by
  constructor
  · rintro ⟨⟨before, after, rfl, hbefore, hafter⟩, hhead, hlast⟩
    have hback : after.reverse.dropWhile isBlank = [] := by
      simpa using hafter
    cases ts with
    | nil =>
        have hfront : (before ++ [] ++ after).dropWhile isBlank = after.dropWhile isBlank := by
          rw [List.append_nil, List.dropWhile_append_of_pos hbefore]
        rw [trimmed, hfront, List.dropWhile_eq_nil_iff.mpr hafter]
        rfl
    | cons t ts =>
        have hfront : (before ++ t :: ts ++ after).dropWhile isBlank = t :: ts ++ after := by
          rw [List.append_assoc, List.dropWhile_append_of_pos hbefore]
          exact dropWhile_eq_self hhead
        rw [trimmed, hfront, List.reverse_append, List.dropWhile_append_of_pos
          fun c hc => hafter c (List.mem_reverse.mp hc), dropWhile_eq_self, List.reverse_reverse]
        intro c hc
        rw [List.head?_reverse] at hc
        exact hlast c hc
  · rintro rfl
    exact trims_trimmed cs

theorem Trims.subset {cs ts : List Char} (h : Trims cs ts) : ts ⊆ cs := by
  obtain ⟨before, after, rfl, -, -⟩ := h.framed
  intro c hc
  simp [hc]

/-- A trimmed text has no blanks to lose. -/
theorem Trims.again {cs ts : List Char} (h : Trims cs ts) : Trims ts ts where
  framed := ⟨[], [], by simp, by simp, by simp⟩
  head := h.head
  last := h.last

/-- Something is left exactly when not all is blank. -/
theorem Trims.ne_nil_iff {cs ts : List Char} (h : Trims cs ts) :
    ts ≠ [] ↔ ∃ c ∈ cs, isBlank c = false := by
  constructor
  · intro hne
    obtain ⟨t, ts, rfl⟩ := List.exists_cons_of_ne_nil hne
    exact ⟨t, h.subset List.mem_cons_self, h.head t rfl⟩
  · rintro ⟨c, hc, hblank⟩ rfl
    obtain ⟨before, after, rfl, hbefore, hafter⟩ := h.framed
    rw [List.append_nil] at hc
    have hc' : isBlank c = true := (List.mem_append.mp hc).elim (hbefore c) (hafter c)
    rw [hc'] at hblank
    cases hblank

/-! ## Two parts -/

/-- A text is cut at its first separator, and only there. -/
theorem cutAt_eq_some_iff {sep : Char} {cs l r : List Char} :
    cutAt sep cs = some (l, r) ↔ cs = l ++ sep :: r ∧ sep ∉ l := by
  constructor
  · exact cutAt_eq_some
  · rintro ⟨rfl, hl⟩
    induction l with
    | nil => simp [cutAt]
    | cons c l ih =>
        obtain ⟨hc, hl⟩ := List.ne_and_not_mem_of_not_mem_cons hl
        rw [List.cons_append, cutAt, if_neg (Ne.symm hc), ih hl]
        rfl

/-! ## Pieces -/

/-- The pieces of a text between its separators. -/
inductive Divides (sep : Char) : List Char → List (List Char) → Prop where
  | last {p : List Char} : sep ∉ p → Divides sep p [p]
  | more {p rest : List Char} {ps : List (List Char)} : sep ∉ p → Divides sep rest ps →
      Divides sep (p ++ sep :: rest) (p :: ps)

theorem divides_pieces (sep : Char) (cs : List Char) : Divides sep cs (pieces sep cs) := by
  induction cs with
  | nil => exact .last List.not_mem_nil
  | cons c cs ih =>
      unfold pieces
      split
      · next hc =>
          subst hc
          exact .more (p := []) List.not_mem_nil ih
      -- another character goes onto the first of the pieces after it
      · next hc =>
          have honto : ∀ {p : List Char}, sep ∉ p → sep ∉ c :: p :=
            fun hp => List.not_mem_cons_of_ne_of_not_mem (Ne.symm hc) hp
          split
          · next p ps hps =>
              rw [hps] at ih
              cases ih with
              | last hp => exact .last (honto hp)
              | more hp hrest => exact .more (p := c :: p) (honto hp) hrest
          · next hnone => exact absurd hnone (pieces_ne_nil sep cs)

theorem pieces_append {sep : Char} {p rest : List Char} (hp : sep ∉ p) :
    pieces sep (p ++ sep :: rest) = p :: pieces sep rest := by
  induction p with
  | nil => simp [pieces]
  | cons c p ih =>
      obtain ⟨hc, hp⟩ := List.ne_and_not_mem_of_not_mem_cons hp
      rw [List.cons_append, pieces, if_neg (Ne.symm hc), ih hp]

theorem pieces_of_not_mem {sep : Char} {p : List Char} (hp : sep ∉ p) : pieces sep p = [p] := by
  induction p with
  | nil => rfl
  | cons c p ih =>
      obtain ⟨hc, hp⟩ := List.ne_and_not_mem_of_not_mem_cons hp
      rw [pieces, if_neg (Ne.symm hc), ih hp]

/-- A text has these pieces and no others. -/
theorem divides_iff {sep : Char} {cs : List Char} {ps : List (List Char)} :
    Divides sep cs ps ↔ pieces sep cs = ps := by
  constructor
  · intro h
    induction h with
    | last hp => exact pieces_of_not_mem hp
    | more hp _ ih => rw [pieces_append hp, ih]
  · rintro rfl
    exact divides_pieces sep cs

theorem Divides.not_mem {sep : Char} {cs : List Char} {ps : List (List Char)}
    (h : Divides sep cs ps) : ∀ p ∈ ps, sep ∉ p := by
  induction h with
  | last hp => simpa using hp
  | more hp _ ih => exact List.forall_mem_cons.mpr ⟨hp, ih⟩

/-- Texts without commas that are joined by commas are the pieces. -/
theorem divides_joined {s : String} {ss : List String}
    (h : ∀ x ∈ s :: ss, ',' ∉ x.toList) :
    Divides ',' (joined "," (s :: ss)).toList ((s :: ss).map String.toList) := by
  induction ss generalizing s with
  | nil => exact .last (h s List.mem_cons_self)
  | cons t ss ih =>
      obtain ⟨hs, hrest⟩ := List.forall_mem_cons.mp h
      have htext : (joined "," (s :: t :: ss)).toList =
          s.toList ++ ',' :: (joined "," (t :: ss)).toList := by
        simp [joined]
      rw [htext]
      exact .more hs (ih hrest)

end Inventory.Text
