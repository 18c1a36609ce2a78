import Inventory.Proofs.Json.Number
import Inventory.Proofs.Json.Text

/-!
# Json — values read back

The text of a value, on one line or spread over several, is read as that value,
provided each of its numbers is read back. As a whole it is read when it does not
nest too deep.
-/

namespace Inventory.Json

/-! ## Blanks -/

/-- The characters that may stand between tokens. -/
def blanks : List Char := [' ', '\n', '\t', '\r']

section

variable {c : Char} {cs bs : List Char}

theorem skipBlanks_blank (hc : c ∈ blanks) : skipBlanks (c :: cs) = skipBlanks cs := by
  have : (c == ' ' || c == '\n' || c == '\t' || c == '\r') = true := by
    simpa [blanks, or_assoc] using hc
  exact List.dropWhile_cons_of_pos this

theorem skipBlanks_token (hc : c ∉ blanks) : skipBlanks (c :: cs) = c :: cs := by
  have : ¬ (c == ' ' || c == '\n' || c == '\t' || c == '\r') = true := by
    simpa [blanks, or_assoc] using hc
  exact List.dropWhile_cons_of_neg this

theorem skipBlanks_append (hbs : ∀ c ∈ bs, c ∈ blanks) : skipBlanks (bs ++ cs) = skipBlanks cs := by
  induction bs with
  | nil => rfl
  | cons b bs ih =>
      rw [List.cons_append, skipBlanks_blank (hbs b List.mem_cons_self),
        ih fun c hc => hbs c (List.mem_cons_of_mem _ hc)]

theorem skipBlanks_skipBlanks (cs : List Char) : skipBlanks (skipBlanks cs) = skipBlanks cs := by
  induction cs with
  | nil => rfl
  | cons c cs ih =>
      by_cases hc : c ∈ blanks
      · rw [skipBlanks_blank hc, ih]
      · rw [skipBlanks_token hc, skipBlanks_token hc]

theorem blank_of_mem_break {spread : Spread} : ∀ c ∈ spread.break.toList, c ∈ blanks := by
  intro c hc
  cases spread with
  | line => cases hc
  | lines depth =>
      rw [Spread.break, String.toList_append, String.toList_ofList, List.mem_append] at hc
      rcases hc with hc | hc
      · obtain rfl : c = '\n' := by simpa using hc
        decide
      · rw [String.toList_ofList] at hc
        obtain rfl := List.eq_of_mem_replicate hc
        decide

theorem toList_colon (spread : Spread) :
    ∃ bs, spread.colon.toList = ':' :: bs ∧ ∀ c ∈ bs, c ∈ blanks := by
  cases spread with
  | line => exact ⟨[], rfl, nofun⟩
  | lines depth => exact ⟨[' '], by simp [Spread.colon], by simp [blanks]⟩

end

/-! ## Steps of the reader -/

/-- What starts a number starts nothing else. -/
theorem not_mem_of_starts {c : Char} {marks : List Char}
    (hmarks : ∀ c ∈ marks, c ≠ '-' ∧ digit? c = none) (hc : c = '-' ∨ (digit? c).isSome) :
    c ∉ marks := by
  intro hm
  obtain ⟨hminus, hdigit⟩ := hmarks c hm
  rcases hc with rfl | hc
  · exact hminus rfl
  · rw [hdigit] at hc
    cases hc

section

variable {c : Char} {cs cs' rest : List Char} (fuel : Nat)

theorem value?_congr (h : skipBlanks cs = skipBlanks cs') : value? fuel cs = value? fuel cs' := by
  cases fuel with
  | zero => rw [value?, value?]
  | succ fuel => rw [value?, value?, h]

theorem items?_congr (h : skipBlanks cs = skipBlanks cs') : items? fuel cs = items? fuel cs' := by
  cases fuel with
  | zero => rw [items?, items?]
  | succ fuel => rw [items?, items?, value?_congr fuel h]

theorem object?_congr (h : skipBlanks cs = skipBlanks cs') :
    object? fuel cs = object? fuel cs' := by
  cases fuel with
  | zero => rw [object?, object?]
  | succ fuel => rw [object?, object?, h]

theorem value?_null : value? (fuel + 1) ("null".toList ++ rest) = some (.null, rest) := by
  have hword : "null".toList = ['n', 'u', 'l', 'l'] := by simp
  rw [hword, List.cons_append, value?, skipBlanks_token (by decide)]
  rfl

theorem value?_bool (b : Bool) :
    value? (fuel + 1) ((if b then "true" else "false").toList ++ rest) = some (.bool b, rest) := by
  have htrue : "true".toList = ['t', 'r', 'u', 'e'] := by simp
  have hfalse : "false".toList = ['f', 'a', 'l', 's', 'e'] := by simp
  cases b with
  | true =>
      rw [if_pos rfl, htrue, List.cons_append, value?, skipBlanks_token (by decide)]
      rfl
  | false =>
      rw [if_neg (by decide), hfalse, List.cons_append, value?, skipBlanks_token (by decide)]
      rfl

theorem value?_noItems : value? (fuel + 1) ("[]".toList ++ rest) = some (.arr [], rest) := by
  have htext : "[]".toList = ['[', ']'] := by simp
  rw [htext, List.cons_append, value?, skipBlanks_token (by decide)]
  rfl

theorem value?_noMembers :
    value? (fuel + 1) ("\x7b\x7d".toList ++ rest) = some (.obj [], rest) := by
  have htext : "\x7b\x7d".toList = ['{', '}'] := by simp
  rw [htext, List.cons_append, value?, skipBlanks_token (by decide)]
  rfl

theorem value?_text (s : String) :
    value? (fuel + 1) ((writtenText s).toList ++ rest) = some (.str s, rest) := by
  rw [toList_writtenText, List.cons_append, value?, skipBlanks_token (by decide)]
  simp only [textToken?_closing, Option.map_some, ofText?]

theorem value?_num {n : Number} (hc : c = '-' ∨ (digit? c).isSome)
    (hn : number? (c :: cs) = some (some n, rest)) :
    value? (fuel + 1) (c :: cs) = some (.num n, rest) := by
  have hother : c ∉ ['n', 't', 'f', '"', '[', '{'] := not_mem_of_starts (by simp [digit?]) hc
  rw [value?, skipBlanks_token (not_mem_of_starts (by simp [blanks, digit?]) hc)]
  split
  case h_7 => rw [hn]; rfl
  all_goals
    rename_i heq
    cases heq
    exact absurd (by decide) hother

theorem value?_arr (h : ∀ after, skipBlanks cs ≠ ']' :: after) :
    value? (fuel + 1) ('[' :: cs) = (items? fuel cs).map fun r => (.arr r.1, r.2) := by
  rw [value?, skipBlanks_token (by decide)]
  split
  case h_5 rest heq =>
    obtain rfl := (List.cons.inj heq).2
    split
    · exact absurd ‹_› (h _)
    · rw [items?_congr fuel (skipBlanks_skipBlanks cs)]
  case h_7 hnone _ => exact absurd rfl (hnone cs)
  all_goals
    rename_i heq
    exact absurd (List.cons.inj heq).1 (by decide)

theorem value?_obj (h : ∀ after, skipBlanks cs ≠ '}' :: after) :
    value? (fuel + 1) ('{' :: cs) = object? fuel cs := by
  rw [value?, skipBlanks_token (by decide)]
  split
  case h_6 rest heq =>
    obtain rfl := (List.cons.inj heq).2
    split
    · exact absurd ‹_› (h _)
    · rw [object?_congr fuel (skipBlanks_skipBlanks cs)]
  case h_7 hnone => exact absurd rfl (hnone cs)
  all_goals
    rename_i heq
    exact absurd (List.cons.inj heq).1 (by decide)

variable {v : Json} {after : List Char}

theorem items?_last (hv : value? fuel cs = some (v, rest))
    (hrest : skipBlanks rest = ']' :: after) : items? (fuel + 1) cs = some ([v], after) := by
  rw [items?, hv]
  simp only [bind, Option.bind_some, hrest]

theorem items?_comma (hv : value? fuel cs = some (v, ',' :: rest)) :
    items? (fuel + 1) cs = (items? fuel rest).map fun r => (v :: r.1, r.2) := by
  rw [items?, hv]
  simp only [bind, Option.bind_some, skipBlanks_token (show ',' ∉ blanks by decide)]

theorem object?_last {n : String} (hv : value? fuel cs = some (v, rest))
    (hrest : skipBlanks rest = '}' :: after) :
    object? (fuel + 1) ((writtenText n).toList ++ ':' :: cs) = some (.obj [(n, v)], after) := by
  rw [toList_writtenText, List.cons_append, object?, skipBlanks_token (by decide)]
  simp only [textToken?_closing, bind, Option.bind_some,
    skipBlanks_token (show ':' ∉ blanks by decide), hv, hrest, withMember]

theorem object?_comma {n : String} (hv : value? fuel cs = some (v, ',' :: rest)) :
    object? (fuel + 1) ((writtenText n).toList ++ ':' :: cs) =
      (object? fuel rest).map fun r => (withMember (some n) v r.1, r.2) := by
  rw [toList_writtenText, List.cons_append, object?, skipBlanks_token (by decide)]
  simp only [textToken?_closing, bind, Option.bind_some,
    skipBlanks_token (show ':' ∉ blanks by decide), hv,
    skipBlanks_token (show ',' ∉ blanks by decide)]

end

/-! ## Written containers -/

section

variable (spread : Spread)

theorem write_bool (b : Bool) : write spread (.bool b) = if b then "true" else "false" := by
  cases b <;> rfl

theorem toList_write_arr (v : Json) (vs : List Json) :
    (write spread (.arr (v :: vs))).toList =
      '[' :: ((writeItems spread.deeper (v :: vs)).toList ++ (spread.break.toList ++ [']'])) := by
  simp [write]

theorem toList_write_obj (m : String × Json) (ms : List (String × Json)) :
    (write spread (.obj (m :: ms))).toList =
      '{' :: ((writeMembers spread.deeper (m :: ms)).toList ++ (spread.break.toList ++ ['}'])) := by
  simp [write]

/-- How a member is written, after the break before it. -/
def writtenMember (m : String × Json) : List Char :=
  (writtenText m.1).toList ++ (spread.colon.toList ++ (write spread m.2).toList)

theorem length_write_le_writtenMember (m : String × Json) :
    (write spread m.2).toList.length ≤ (writtenMember spread m).length := by
  simp only [writtenMember, List.length_append]
  omega

theorem toList_writeItems_one (v : Json) :
    (writeItems spread [v]).toList = spread.break.toList ++ (write spread v).toList := by
  simp [writeItems]

theorem toList_writeItems_cons (v w : Json) (vs : List Json) :
    (writeItems spread (v :: w :: vs)).toList =
      spread.break.toList ++ ((write spread v).toList ++
        ',' :: (writeItems spread (w :: vs)).toList) := by
  simp [writeItems]

theorem toList_writeMembers_one (m : String × Json) :
    (writeMembers spread [m]).toList = spread.break.toList ++ writtenMember spread m := by
  simp [writeMembers, writtenMember]

theorem toList_writeMembers_cons (m m' : String × Json) (ms : List (String × Json)) :
    (writeMembers spread (m :: m' :: ms)).toList =
      spread.break.toList ++ (writtenMember spread m ++
        ',' :: (writeMembers spread (m' :: ms)).toList) := by
  simp [writeMembers, writtenMember]

end

/-! ## Legible values -/

mutual

/-- The value has a value in all its parts, and its numbers are read back. -/
def Legible : Json → Prop
  | .num n => n.ReadsBack
  | .arr items => AllLegible items
  | .obj members => MembersLegible members
  | .unreadable => False
  | _ => True

/-- The same of every item of an array. -/
def AllLegible : List Json → Prop
  | [] => True
  | v :: rest => v.Legible ∧ AllLegible rest

/-- The same of every member of an object. -/
def MembersLegible : List (String × Json) → Prop
  | [] => True
  | (_, v) :: rest => v.Legible ∧ MembersLegible rest

end

theorem legible_arr {vs : List Json} : (Json.arr vs).Legible ↔ ∀ v ∈ vs, v.Legible := by
  rw [Legible]
  induction vs with
  | nil => simp [AllLegible]
  | cons v vs ih => rw [AllLegible, ih, List.forall_mem_cons]

theorem legible_obj {ms : List (String × Json)} :
    (Json.obj ms).Legible ↔ ∀ m ∈ ms, m.2.Legible := by
  rw [Legible]
  induction ms with
  | nil => simp [MembersLegible]
  | cons m ms ih => rw [MembersLegible, ih, List.forall_mem_cons]

/-- A written value starts neither with a blank nor with what closes an array. -/
theorem head_write (spread : Spread) {v : Json} (hv : v.Legible) :
    ∃ c cs, (write spread v).toList = c :: cs ∧ c ∉ ']' :: blanks := by
  cases v with
  | null => exact ⟨'n', ['u', 'l', 'l'], by simp [write], by decide⟩
  | bool b =>
      cases b with
      | true => exact ⟨'t', ['r', 'u', 'e'], by simp [write], by decide⟩
      | false => exact ⟨'f', ['a', 'l', 's', 'e'], by simp [write], by decide⟩
  | num n =>
      rw [Legible, Number.ReadsBack] at hv
      obtain ⟨c, cs, hcs, hc⟩ := head_of_number? (Option.isSome_of_eq_some hv)
      exact ⟨c, cs, by rw [write, hcs], not_mem_of_starts (by simp [blanks, digit?]) hc⟩
  | str s => exact ⟨'"', _, toList_writtenText s, by decide⟩
  | arr items =>
      cases items with
      | nil => exact ⟨'[', [']'], by simp [write], by decide⟩
      | cons v vs => exact ⟨'[', _, toList_write_arr spread v vs, by decide⟩
  | obj members =>
      cases members with
      | nil => exact ⟨'{', ['}'], by simp [write], by decide⟩
      | cons m ms => exact ⟨'{', _, toList_write_obj spread m ms, by decide⟩
  | unreadable => cases hv

/-! ## Reading what was written -/

theorem endsNumber_of_mem {c : Char} {rest : List Char} (hc : c ∈ ',' :: ']' :: '}' :: blanks) :
    EndsNumber (c :: rest) := by
  have hends : ∀ c ∈ ',' :: ']' :: '}' :: blanks, digit? c = none ∧ c ∉ ['.', 'e', 'E'] := by
    simp [blanks, digit?]
  rintro _ ⟨⟩
  exact hends c hc

theorem endsNumber_append {bs rest : List Char} (hbs : ∀ c ∈ bs, c ∈ blanks)
    (hrest : EndsNumber rest) : EndsNumber (bs ++ rest) := by
  cases bs with
  | nil => exact hrest
  | cons b bs =>
      refine endsNumber_of_mem ?_
      simp [hbs b List.mem_cons_self]

theorem skipBlanks_writeItems (spread : Spread) {v : Json} (vs : List Json) (hv : v.Legible)
    (rest after : List Char) :
    skipBlanks ((writeItems spread (v :: vs)).toList ++ rest) ≠ ']' :: after := by
  obtain ⟨tail, htail⟩ : ∃ tail, (writeItems spread (v :: vs)).toList =
      spread.break.toList ++ ((write spread v).toList ++ tail) := by
    cases vs with
    | nil => exact ⟨[], by rw [toList_writeItems_one, List.append_nil]⟩
    | cons w vs => exact ⟨_, toList_writeItems_cons spread v w vs⟩
  obtain ⟨c, cs, hcs, hc⟩ := head_write spread hv
  obtain ⟨hbracket, hblank⟩ := not_or.mp (mt List.mem_cons.mpr hc)
  rw [htail, List.append_assoc, skipBlanks_append blank_of_mem_break, hcs, List.cons_append,
    List.cons_append, skipBlanks_token hblank]
  exact fun h => hbracket (List.cons.inj h).1

theorem skipBlanks_writeMembers (spread : Spread) (m : String × Json) (ms : List (String × Json))
    (rest after : List Char) :
    skipBlanks ((writeMembers spread (m :: ms)).toList ++ rest) ≠ '}' :: after := by
  obtain ⟨tail, htail⟩ : ∃ tail, (writeMembers spread (m :: ms)).toList =
      spread.break.toList ++ (writtenMember spread m ++ tail) := by
    cases ms with
    | nil => exact ⟨[], by rw [toList_writeMembers_one, List.append_nil]⟩
    | cons m' ms => exact ⟨_, toList_writeMembers_cons spread m m' ms⟩
  rw [htail, List.append_assoc, skipBlanks_append blank_of_mem_break, writtenMember,
    toList_writtenText, List.cons_append, List.cons_append, List.cons_append,
    skipBlanks_token (by decide)]
  exact fun h => absurd (List.cons.inj h).1 (by decide)

section

variable (spread : Spread) {v : Json} {fuel : Nat} {rest : List Char}

theorem value?_break {cs : List Char} :
    value? fuel (spread.break.toList ++ cs) = value? fuel cs :=
  value?_congr fuel (skipBlanks_append blank_of_mem_break)

theorem object?_break {cs : List Char} :
    object? fuel (spread.break.toList ++ cs) = object? fuel cs :=
  object?_congr fuel (skipBlanks_append blank_of_mem_break)

/-- The text of a member is its name, a colon and what is read as its value. -/
theorem writtenMember_append (m : String × Json)
    (hv : value? fuel ((write spread m.2).toList ++ rest) = some (v, rest)) :
    ∃ cs, writtenMember spread m ++ rest = (writtenText m.1).toList ++ ':' :: cs ∧
      value? fuel cs = some (v, rest) := by
  obtain ⟨bs, hcolon, hbs⟩ := toList_colon spread
  refine ⟨bs ++ ((write spread m.2).toList ++ rest), ?_, ?_⟩
  · simp [writtenMember, hcolon]
  · rw [value?_congr fuel (skipBlanks_append hbs), hv]

end

/-- The text of the value is read as the value, in every layout; what follows must not
continue a number. -/
def ReadsAs (v : Json) : Prop :=
  ∀ (spread : Spread) (fuel : Nat), 2 * (write spread v).toList.length ≤ fuel + 1 →
    ∀ rest : List Char, EndsNumber rest →
      value? (fuel + 1) ((write spread v).toList ++ rest) = some (v, rest)

/-- The items of an array are read up to its end. -/
theorem items?_write (spread outer : Spread) (rest : List Char) {v : Json} {vs : List Json}
    (h : ∀ w ∈ v :: vs, w.Legible ∧ w.ReadsAs) (fuel : Nat)
    (hfuel : 2 * (writeItems spread (v :: vs)).toList.length ≤ fuel) :
    items? (fuel + 1) ((writeItems spread (v :: vs)).toList ++
      (outer.break.toList ++ ']' :: rest)) = some (v :: vs, rest) := by
  obtain ⟨hv, hreads⟩ := h v List.mem_cons_self
  induction vs generalizing v fuel with
  | nil =>
      rw [toList_writeItems_one, List.length_append] at hfuel
      obtain ⟨c, cs, hcs, -⟩ := head_write spread hv
      obtain ⟨fuel, rfl⟩ := Nat.exists_eq_add_one_of_ne_zero (n := fuel) (by
        rw [hcs, List.length_cons] at hfuel
        omega)
      have hends : EndsNumber (outer.break.toList ++ ']' :: rest) :=
        endsNumber_append blank_of_mem_break (endsNumber_of_mem (by decide))
      have hread := hreads spread fuel (by omega) _ hends
      rw [toList_writeItems_one, List.append_assoc]
      refine items?_last _ ((value?_break spread).trans hread) ?_
      rw [skipBlanks_append blank_of_mem_break, skipBlanks_token (by decide)]
  | cons w vs ih =>
      rw [toList_writeItems_cons, List.length_append, List.length_append,
        List.length_cons] at hfuel
      obtain ⟨fuel, rfl⟩ := Nat.exists_eq_add_one_of_ne_zero (n := fuel) (by omega)
      have hread := hreads spread fuel (by omega)
        (',' :: ((writeItems spread (w :: vs)).toList ++ (outer.break.toList ++ ']' :: rest)))
        (endsNumber_of_mem (by decide))
      obtain ⟨hw, hwreads⟩ := h w (by simp)
      have hitems := ih (fun u hu => h u (List.mem_cons_of_mem _ hu)) fuel (by omega) hw hwreads
      rw [toList_writeItems_cons, List.append_assoc, List.append_assoc, List.cons_append,
        items?_comma _ ((value?_break spread).trans hread), hitems, Option.map_some]

/-- The members of an object are read up to its end. -/
theorem object?_write (spread outer : Spread) (rest : List Char) {m : String × Json}
    {ms : List (String × Json)} (h : ∀ m' ∈ m :: ms, m'.2.Legible ∧ m'.2.ReadsAs) (fuel : Nat)
    (hfuel : 2 * (writeMembers spread (m :: ms)).toList.length ≤ fuel) :
    object? (fuel + 1) ((writeMembers spread (m :: ms)).toList ++
      (outer.break.toList ++ '}' :: rest)) = some (.obj (m :: ms), rest) := by
  obtain ⟨hm, hreads⟩ := h m List.mem_cons_self
  have hlength := length_write_le_writtenMember spread m
  induction ms generalizing m fuel with
  | nil =>
      rw [toList_writeMembers_one, List.length_append] at hfuel
      obtain ⟨c, cs, hcs, -⟩ := head_write spread hm
      obtain ⟨fuel, rfl⟩ := Nat.exists_eq_add_one_of_ne_zero (n := fuel) (by
        rw [hcs, List.length_cons] at hlength
        omega)
      have hends : EndsNumber (outer.break.toList ++ '}' :: rest) :=
        endsNumber_append blank_of_mem_break (endsNumber_of_mem (by decide))
      have hread := hreads spread fuel (by omega) _ hends
      obtain ⟨cs, hmember, hvalue⟩ := writtenMember_append spread m hread
      rw [toList_writeMembers_one, List.append_assoc, object?_break, hmember]
      refine object?_last _ hvalue ?_
      rw [skipBlanks_append blank_of_mem_break, skipBlanks_token (by decide)]
  | cons m' ms ih =>
      rw [toList_writeMembers_cons, List.length_append, List.length_append,
        List.length_cons] at hfuel
      obtain ⟨fuel, rfl⟩ := Nat.exists_eq_add_one_of_ne_zero (n := fuel) (by omega)
      have hread := hreads spread fuel (by omega)
        (',' :: ((writeMembers spread (m' :: ms)).toList ++ (outer.break.toList ++ '}' :: rest)))
        (endsNumber_of_mem (by decide))
      obtain ⟨cs, hmember, hvalue⟩ := writtenMember_append spread m hread
      obtain ⟨hm', hreads'⟩ := h m' (by simp)
      have hmembers := ih (fun u hu => h u (List.mem_cons_of_mem _ hu)) fuel (by omega) hm' hreads'
        (length_write_le_writtenMember spread m')
      rw [toList_writeMembers_cons, List.append_assoc, List.append_assoc, List.cons_append,
        object?_break, hmember, object?_comma _ hvalue, hmembers, Option.map_some, withMember]

theorem readsAs_arr {vs : List Json} (h : ∀ w ∈ vs, w.Legible ∧ w.ReadsAs) :
    (Json.arr vs).ReadsAs := by
  intro spread fuel hfuel rest _
  cases vs with
  | nil => rw [write, value?_noItems]
  | cons v vs =>
      rw [toList_write_arr] at hfuel ⊢
      simp only [List.length_cons, List.length_append] at hfuel
      obtain ⟨fuel, rfl⟩ := Nat.exists_eq_add_one_of_ne_zero (n := fuel) (by omega)
      have hitems := items?_write spread.deeper spread rest h fuel (by omega)
      rw [List.cons_append, List.append_assoc, List.append_assoc, List.singleton_append,
        value?_arr _ (skipBlanks_writeItems _ _ (h v List.mem_cons_self).1 _), hitems,
        Option.map_some]

theorem readsAs_obj {ms : List (String × Json)} (h : ∀ m ∈ ms, m.2.Legible ∧ m.2.ReadsAs) :
    (Json.obj ms).ReadsAs := by
  intro spread fuel hfuel rest _
  cases ms with
  | nil => rw [write, value?_noMembers]
  | cons m ms =>
      rw [toList_write_obj] at hfuel ⊢
      simp only [List.length_cons, List.length_append] at hfuel
      obtain ⟨fuel, rfl⟩ := Nat.exists_eq_add_one_of_ne_zero (n := fuel) (by omega)
      have hmembers := object?_write spread.deeper spread rest h fuel (by omega)
      rw [List.cons_append, List.append_assoc, List.append_assoc, List.singleton_append,
        value?_obj _ (skipBlanks_writeMembers _ _ _ _), hmembers]

theorem readsAs_num {n : Number} (hn : n.ReadsBack) : (Json.num n).ReadsAs := by
  intro spread fuel _ rest hrest
  obtain ⟨c, cs, hcs, hc⟩ := head_of_number? (Option.isSome_of_eq_some hn)
  have hread := hn.append hrest
  rw [hcs, List.cons_append] at hread
  rw [write, hcs, List.cons_append, value?_num fuel hc hread]

mutual

/-- **A written value is read as itself.** -/
theorem Legible.readsAs : ∀ {v : Json}, v.Legible → v.ReadsAs
  | .null, _ => fun spread fuel _ rest _ => by rw [write, value?_null]
  | .bool b, _ => fun spread fuel _ rest _ => by rw [write_bool, value?_bool]
  | .num _, hn => readsAs_num hn
  | .str s, _ => fun spread fuel _ rest _ => by rw [write, value?_text]
  | .arr _, h => readsAs_arr (AllLegible.readsAs h)
  | .obj _, h => readsAs_obj (MembersLegible.readsAs h)

theorem AllLegible.readsAs : ∀ {vs : List Json}, AllLegible vs → ∀ v ∈ vs, v.Legible ∧ v.ReadsAs
  | _ :: _, h, _, .head _ => ⟨h.1, Legible.readsAs h.1⟩
  | _ :: _, h, v, .tail _ hv => AllLegible.readsAs h.2 v hv

theorem MembersLegible.readsAs : ∀ {ms : List (String × Json)}, MembersLegible ms →
    ∀ m ∈ ms, m.2.Legible ∧ m.2.ReadsAs
  | (_, _) :: _, h, _, .head _ => ⟨h.1, Legible.readsAs h.1⟩
  | (_, _) :: _, h, m, .tail _ hm => MembersLegible.readsAs h.2 m hm

end

/-! ## Whole texts -/

/-- The text of a legible value is read as that value, also with blanks after it. -/
theorem parse_write_append (spread : Spread) {v : Json} (hv : v.Legible) (bs : String)
    (hbs : ∀ c ∈ bs.toList, c ∈ blanks) : parse (write spread v ++ bs) = some v := by
  have hends : EndsNumber bs.toList := by
    rw [← List.append_nil bs.toList]
    exact endsNumber_append hbs nofun
  have hlong : 2 * (write spread v).toList.length ≤
      2 * (write spread v ++ bs).toList.length + 1 + 1 := by
    rw [String.toList_append, List.length_append]
    omega
  have hread := hv.readsAs spread _ hlong _ hends
  have hbare : skipBlanks bs.toList = [] := by
    rw [← List.append_nil bs.toList, skipBlanks_append hbs]
    rfl
  rw [← String.toList_append] at hread
  simp only [parse, hread, hbare, List.isEmpty_nil, if_pos]

/-- **The text of a legible value is read as that value.** -/
theorem parse_write (spread : Spread) {v : Json} (hv : v.Legible) :
    parse (write spread v) = some v := by
  rw [← String.append_empty (s := write spread v)]
  exact parse_write_append spread hv "" nofun

mutual

theorem Legible.isReadable : ∀ {v : Json}, v.Legible → v.isReadable = true
  | .null, _ | .bool _, _ | .num _, _ | .str _, _ => rfl
  | .arr _, hv => AllLegible.allReadable hv
  | .obj _, hv => MembersLegible.membersReadable hv

theorem AllLegible.allReadable : ∀ {vs : List Json}, AllLegible vs → allReadable vs = true
  | [], _ => rfl
  | v :: vs, hv => by
      rw [Json.allReadable, Legible.isReadable hv.1, AllLegible.allReadable hv.2, Bool.and_self]

theorem MembersLegible.membersReadable :
    ∀ {ms : List (String × Json)}, MembersLegible ms → membersReadable ms = true
  | [], _ => rfl
  | (_, v) :: ms, hv => by
      rw [Json.membersReadable, Legible.isReadable hv.1, MembersLegible.membersReadable hv.2,
        Bool.and_self]

end

/-- As a whole a written value is read exactly when it does not nest too deep. -/
theorem parseWhole_write (spread : Spread) {v : Json} (hv : v.Legible) :
    parseWhole (write spread v) = if v.height ≤ maxHeight then some v else none := by
  simp only [parseWhole, parse_write spread hv, Option.filter_some, hv.isReadable,
    Bool.true_and, decide_eq_true_eq]

end Inventory.Json
