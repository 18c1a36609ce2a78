/-!
# Table — finite tables with text keys

A table lists its entries in strictly rising key order, so equal tables have
equal lists and every reading of a table is in key order. Main statements:
`get?_put` and `get?_erase` say what each change does to each look-up, `ext`
that look-ups determine the table, and `ofList_entries` that a table is rebuilt
from its own entries.
-/

namespace Inventory

universe u v

/-- A finite table from texts to values. -/
structure Table (α : Type u) where
  /-- The entries, by rising key. -/
  entries : List (String × α)
  rising : entries.Pairwise fun a b => a.1 < b.1
  deriving DecidableEq

namespace Table

variable {α : Type u} {β : Type v}

/-! ## Entry lists -/

/-- Put an entry at its place in a rising list, in the place of one with its key. -/
def insertEntry (k : String) (x : α) : List (String × α) → List (String × α)
  | [] => [(k, x)]
  | (k', x') :: rest =>
    if k < k' then (k, x) :: (k', x') :: rest
    else if k = k' then (k, x) :: rest
    else (k', x') :: insertEntry k x rest

theorem mem_insertEntry {k : String} {x : α} {e : String × α} {l : List (String × α)}
    (h : e ∈ insertEntry k x l) : e = (k, x) ∨ e ∈ l := by
  induction l with
  | nil => simpa [insertEntry] using h
  | cons hd tl ih =>
    obtain ⟨k', x'⟩ := hd
    unfold insertEntry at h
    split at h
    · simpa using h
    · split at h
      · simp at h; rcases h with h | h <;> simp [h]
      · simp at h
        rcases h with h | h
        · simp [h]
        · rcases ih h with h | h <;> simp [h]

theorem rising_insertEntry (k : String) (x : α) {l : List (String × α)}
    (h : l.Pairwise fun a b => a.1 < b.1) :
    (insertEntry k x l).Pairwise fun a b => a.1 < b.1 := by
  induction l with
  | nil => simp [insertEntry]
  | cons hd tl ih =>
    obtain ⟨k', x'⟩ := hd
    obtain ⟨h1, h2⟩ := List.pairwise_cons.1 h
    unfold insertEntry
    split
    · next hk =>
      refine List.pairwise_cons.2 ⟨fun e he => ?_, h⟩
      rcases List.mem_cons.1 he with rfl | he
      · exact hk
      · exact String.lt_trans hk (h1 e he)
    · next hk =>
      split
      · next hk' => subst hk'; exact List.pairwise_cons.2 ⟨h1, h2⟩
      · next hk' =>
        refine List.pairwise_cons.2 ⟨fun e he => ?_, ih h2⟩
        rcases mem_insertEntry he with rfl | he
        · rcases Std.lt_trichotomy k k' with h | h | h
          · exact absurd h hk
          · exact absurd h hk'
          · exact h
        · exact h1 e he

theorem lookup_entry (k : String) (e : String × α) (l : List (String × α)) :
    (e :: l).lookup k = if k = e.1 then some e.2 else l.lookup k := by
  obtain ⟨k', x⟩ := e
  rw [List.lookup_cons]
  by_cases h : k = k'
  · simp [h]
  · simp [h, beq_false_of_ne h]

theorem lookup_insertEntry (k k' : String) (x : α) (l : List (String × α)) :
    (insertEntry k x l).lookup k' = if k' = k then some x else l.lookup k' := by
  induction l with
  | nil => simp [insertEntry, lookup_entry]
  | cons hd tl ih =>
    obtain ⟨k₀, x₀⟩ := hd
    unfold insertEntry
    split
    · rw [lookup_entry]
    · next hlt =>
      split
      · next he => subst he; simp only [lookup_entry]; split <;> rfl
      · next hne =>
        simp only [lookup_entry, ih]
        by_cases h : k' = k
        · subst h; simp [hne]
        · simp [h]

/-! ## Reading -/

/-- The table without entries. -/
def empty : Table α := ⟨[], List.Pairwise.nil⟩

instance : EmptyCollection (Table α) := ⟨empty⟩
instance : Inhabited (Table α) := ⟨empty⟩

/-- The value under a key, if there is one. -/
def get? (t : Table α) (k : String) : Option α := t.entries.lookup k

/-- Whether a key has a value. -/
def contains (t : Table α) (k : String) : Bool := (t.get? k).isSome

/-- The keys, rising. -/
def keys (t : Table α) : List String := t.entries.map (·.1)

/-- The values, by rising key. -/
def values (t : Table α) : List α := t.entries.map (·.2)

/-- The number of entries. -/
def size (t : Table α) : Nat := t.entries.length

/-- Whether there is no entry. -/
def isEmpty (t : Table α) : Bool := t.entries.isEmpty

/-! ## Changing -/

/-- Give a key a value, replacing any it had. -/
def put (t : Table α) (k : String) (x : α) : Table α :=
  ⟨insertEntry k x t.entries, rising_insertEntry k x t.rising⟩

/-- Keep the entries that pass a test. -/
def filter (t : Table α) (p : String → α → Bool) : Table α :=
  ⟨t.entries.filter fun e => p e.1 e.2, t.rising.filter _⟩

/-- Take a key and its value away. -/
def erase (t : Table α) (k : String) : Table α :=
  t.filter fun k' _ => k' != k

/-- Change every value where it stands. -/
def map (t : Table α) (f : α → β) : Table β :=
  ⟨t.entries.map fun e => (e.1, f e.2), t.rising.map _ fun _ _ h => h⟩

/-- Put entries one after another. -/
def putAll (t : Table α) (es : List (String × α)) : Table α :=
  es.foldl (fun t e => t.put e.1 e.2) t

/-- The table of a list of entries; a later one replaces an earlier one. -/
def ofList (es : List (String × α)) : Table α := putAll empty es

/-! ## Laws -/

theorem get?_empty (k : String) : (empty : Table α).get? k = none := rfl

@[simp] theorem get?_put (t : Table α) (k k' : String) (x : α) :
    (t.put k x).get? k' = if k' = k then some x else t.get? k' :=
  lookup_insertEntry k k' x t.entries

theorem lookup_filter_ne (k k' : String) (l : List (String × α)) :
    (l.filter fun e => e.1 != k).lookup k' = if k' = k then none else l.lookup k' := by
  induction l with
  | nil => simp
  | cons hd tl ih =>
    by_cases h : hd.1 = k
    · rw [List.filter_cons_of_neg (by simp [h]), ih, lookup_entry, h]
      split <;> rfl
    · rw [List.filter_cons_of_pos (by simp [h]), lookup_entry, lookup_entry, ih]
      by_cases h' : k' = hd.1
      · subst h'; simp [h]
      · simp [h']

@[simp] theorem get?_erase (t : Table α) (k k' : String) :
    (t.erase k).get? k' = if k' = k then none else t.get? k' :=
  lookup_filter_ne k k' t.entries

theorem lookup_mapValues (f : α → β) (k : String) (l : List (String × α)) :
    (l.map fun e => (e.1, f e.2)).lookup k = (l.lookup k).map f := by
  induction l with
  | nil => rfl
  | cons hd tl ih =>
    simp only [List.map_cons, lookup_entry, ih]
    split <;> rfl

theorem get?_map (t : Table α) (f : α → β) (k : String) :
    (t.map f).get? k = (t.get? k).map f :=
  lookup_mapValues f k t.entries

theorem lookup_of_mem {l : List (String × α)} (h : l.Pairwise fun a b => a.1 < b.1)
    {k : String} {x : α} (hm : (k, x) ∈ l) : l.lookup k = some x := by
  induction l with
  | nil => simp at hm
  | cons hd tl ih =>
    obtain ⟨h1, h2⟩ := List.pairwise_cons.1 h
    rcases List.mem_cons.1 hm with rfl | hm
    · simp
    · have hne : k ≠ hd.1 := fun he => String.lt_irrefl k (by simpa [he] using h1 _ hm)
      rw [lookup_entry, if_neg hne]
      exact ih h2 hm

theorem mem_of_lookup {l : List (String × α)} {k : String} {x : α}
    (h : l.lookup k = some x) : (k, x) ∈ l := by
  induction l with
  | nil => simp at h
  | cons hd tl ih =>
    rw [lookup_entry] at h
    split at h
    · next heq => simp at h; subst heq; subst h; simp
    · exact List.mem_cons_of_mem _ (ih h)

/-- An entry is listed exactly when a look-up finds it. -/
theorem get?_eq_some_iff {t : Table α} {k : String} {x : α} :
    t.get? k = some x ↔ (k, x) ∈ t.entries :=
  ⟨mem_of_lookup, lookup_of_mem t.rising⟩

theorem get?_filter (t : Table α) (p : String → α → Bool) (k : String) :
    (t.filter p).get? k = (t.get? k).filter (p k) := by
  refine Option.ext fun x => ?_
  rw [Option.filter_eq_some_iff, get?_eq_some_iff, get?_eq_some_iff]
  exact List.mem_filter

/-- The values of the entries that pass a test on their values. -/
theorem values_filter {t : Table α} {p : String → α → Bool} {q : α → Bool}
    (h : ∀ {k x}, t.get? k = some x → p k x = q x) : (t.filter p).values = t.values.filter q := by
  rw [values, filter, values, List.filter_map]
  refine congrArg (List.map _) (List.filter_congr fun e he => ?_)
  exact h (get?_eq_some_iff.mpr he)

/-- The values are what some look-up finds. -/
theorem mem_values {t : Table α} {x : α} : x ∈ t.values ↔ ∃ k, t.get? k = some x := by
  simp [values, get?_eq_some_iff]

/-- Values that stand under their keys are listed by rising key. -/
theorem values_rising {key : α → String} {t : Table α}
    (hkey : ∀ {k x}, t.get? k = some x → key x = k) :
    t.values.Pairwise fun x y => key x < key y := by
  rw [values, List.pairwise_map]
  refine t.rising.imp_of_mem fun {a b} ha hb hlt => ?_
  rw [hkey (get?_eq_some_iff.mpr ha), hkey (get?_eq_some_iff.mpr hb)]
  exact hlt

/-- The keys are those under which a look-up finds a value. -/
theorem mem_keys {t : Table α} {k : String} : k ∈ t.keys ↔ t.contains k = true := by
  rw [contains, Option.isSome_iff_exists]
  simp [keys, get?_eq_some_iff]

theorem mem_keys_put {t : Table α} {k k' : String} {x : α} :
    k' ∈ (t.put k x).keys ↔ k' = k ∨ k' ∈ t.keys := by
  rw [mem_keys, mem_keys, contains, contains, get?_put]
  by_cases h : k' = k <;> simp [h]

theorem mem_keys_putAll {es : List (String × α)} {t : Table α} {k : String} :
    k ∈ (t.putAll es).keys ↔ k ∈ t.keys ∨ k ∈ es.map (·.1) := by
  induction es generalizing t with
  | nil => simp [putAll]
  | cons e es ih =>
    rw [putAll, List.foldl_cons, ← putAll, ih, mem_keys_put, List.map_cons, List.mem_cons,
      or_assoc, or_left_comm]

/-- What stands in a table was put there, or stood there before. -/
theorem mem_of_get?_putAll {es : List (String × α)} {t : Table α} {k : String} {x : α}
    (h : (t.putAll es).get? k = some x) : (k, x) ∈ es ∨ t.get? k = some x := by
  induction es generalizing t with
  | nil => exact .inr h
  | cons e es ih =>
    rcases ih h with hx | hx
    · exact .inl (List.mem_cons_of_mem _ hx)
    · rw [get?_put] at hx
      split at hx
      · next hk =>
        subst hk
        cases hx
        exact .inl List.mem_cons_self
      · exact .inr hx

/-- Which entries a test on their keys keeps. -/
theorem mem_keys_filter {p : String → Bool} {t : Table α} {k : String} :
    k ∈ (t.filter fun k _ => p k).keys ↔ k ∈ t.keys ∧ p k = true := by
  simp [keys, filter]

theorem nodup_keys (t : Table α) : t.keys.Nodup := by
  rw [keys, List.Nodup, List.pairwise_map]
  exact t.rising.imp fun {a b} hlt (heq : a.1 = b.1) => String.lt_irrefl b.1 (heq ▸ hlt)

theorem insertEntry_of_lt {k : String} {x : α} {l : List (String × α)}
    (h : ∀ e ∈ l, e.1 < k) : insertEntry k x l = l ++ [(k, x)] := by
  induction l with
  | nil => rfl
  | cons hd tl ih =>
    have hk : hd.1 < k := h hd (by simp)
    unfold insertEntry
    rw [if_neg (String.lt_asymm hk), if_neg (fun e => String.lt_irrefl k (by simp [← e] at hk))]
    simp [ih fun e he => h e (by simp [he])]

/-- Entries that continue a table in rising order are appended as they are. -/
theorem putAll_entries {es : List (String × α)} {t : Table α}
    (h : (t.entries ++ es).Pairwise fun a b => a.1 < b.1) :
    (t.putAll es).entries = t.entries ++ es := by
  induction es generalizing t with
  | nil => simp [putAll]
  | cons e es ih =>
    have he : ∀ e' ∈ t.entries, e'.1 < e.1 := fun e' he' =>
      (List.pairwise_append.1 h).2.2 e' he' e (by simp)
    have hp : (t.put e.1 e.2).entries = t.entries ++ [e] := insertEntry_of_lt he
    have := ih (t := t.put e.1 e.2) (by rw [hp]; simpa using h)
    simpa [putAll, hp] using this

/-- A table is rebuilt from its own entries. -/
@[simp] theorem ofList_entries (t : Table α) : ofList t.entries = t := by
  have h : (ofList t.entries).entries = t.entries := by
    have h := @putAll_entries α t.entries empty (by simpa [empty] using t.rising)
    simpa [ofList, empty] using h
  cases t
  generalize hr : ofList _ = r at h
  cases r
  simp_all

theorem entries_ext {l₁ l₂ : List (String × α)}
    (h₁ : l₁.Pairwise fun a b => a.1 < b.1) (h₂ : l₂.Pairwise fun a b => a.1 < b.1)
    (h : ∀ k, l₁.lookup k = l₂.lookup k) : l₁ = l₂ := by
  induction l₁ generalizing l₂ with
  | nil =>
    cases l₂ with
    | nil => rfl
    | cons e _ => have := h e.1; simp [lookup_entry] at this
  | cons e₁ t₁ ih =>
    cases l₂ with
    | nil => have := h e₁.1; simp [lookup_entry] at this
    | cons e₂ t₂ =>
      obtain ⟨a₁, b₁⟩ := List.pairwise_cons.1 h₁
      obtain ⟨a₂, b₂⟩ := List.pairwise_cons.1 h₂
      have m₁ : e₁ ∈ e₂ :: t₂ := mem_of_lookup (by rw [← h]; simp [lookup_entry])
      have m₂ : e₂ ∈ e₁ :: t₁ := mem_of_lookup (by rw [h]; simp [lookup_entry])
      have he : e₁ = e₂ := by
        rcases List.mem_cons.1 m₁ with h | h
        · exact h
        · rcases List.mem_cons.1 m₂ with h' | h'
          · exact h'.symm
          · exact absurd (a₁ _ h') (String.lt_asymm (a₂ _ h))
      subst he
      congr 1
      refine ih b₁ b₂ fun k => ?_
      have hk := h k
      simp only [lookup_entry] at hk
      split at hk
      · next heq =>
        subst heq
        have n₁ : t₁.lookup e₁.1 = none := by
          cases hl : t₁.lookup e₁.1 with
          | none => rfl
          | some x => exact absurd (a₁ _ (mem_of_lookup hl)) (String.lt_irrefl _)
        have n₂ : t₂.lookup e₁.1 = none := by
          cases hl : t₂.lookup e₁.1 with
          | none => rfl
          | some x => exact absurd (a₂ _ (mem_of_lookup hl)) (String.lt_irrefl _)
        rw [n₁, n₂]
      · exact hk

/-- Look-ups determine a table. -/
theorem ext {t₁ t₂ : Table α} (h : ∀ k, t₁.get? k = t₂.get? k) : t₁ = t₂ := by
  have := entries_ext t₁.rising t₂.rising h
  cases t₁
  cases t₂
  simp_all

end Table

end Inventory
