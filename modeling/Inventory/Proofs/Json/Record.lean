import Inventory.Json.Record
import Inventory.Proofs.Json.ReadBack

/-!
# Json — records read back

Lists and tables are read back from their values when what they hold is, and the
fields of a record are found again under their names. Legibility and height of a
container come down to what stands in it.
-/

namespace Inventory.Json

variable {α β : Type}

/-! ## Containers -/

theorem mapM_map {f : β → Option α} {g : α → β} {xs : List α} (h : ∀ a ∈ xs, f (g a) = some a) :
    (xs.map g).mapM f = some xs := by
  induction xs with
  | nil => rfl
  | cons a xs ih =>
      have hxs := ih fun b hb => h b (List.mem_cons_of_mem _ hb)
      rw [List.map_cons, List.mapM_cons, h a List.mem_cons_self, hxs]
      rfl

theorem list?_list {f : Json → Option α} {g : α → Json} {xs : List α}
    (h : ∀ a ∈ xs, f (g a) = some a) : list? f (list g xs) = some xs := mapM_map h

theorem list?_texts (xs : List String) : list? text? (texts xs) = some xs :=
  list?_list fun _ _ => rfl

theorem table?_ofTable {f : Json → Option α} {g : α → Json} {t : Table α}
    (h : ∀ a ∈ t.values, f (g a) = some a) : table? f (ofTable g t) = some t := by
  have hentries : ∀ e ∈ t.entries,
      (fun m : String × Json => (f m.2).map (m.1, ·)) (e.1, g e.2) = some e := by
    intro e he
    show (f (g e.2)).map (e.1, ·) = some e
    rw [h e.2 (List.mem_map_of_mem he), Option.map_some]
  rw [ofTable, table?, mapM_map hentries, Option.map_some, Table.ofList_entries]

/-! ## Fields -/

/-- The fields of a record are those that were given, each at most once. -/
theorem fields?_obj {c : Conventions} {names : List String} {members : List (String × Json)}
    (h : (members.map (·.1)).Sublist names) (honce : names.Nodup) :
    c.fields? names (.obj members) = some members := by
  have hknown : members.filter (fun m => names.contains m.1) = members :=
    List.filter_eq_self.mpr fun m hm =>
      List.contains_iff_mem.mpr (h.subset (List.mem_map_of_mem hm))
  rw [Conventions.fields?, hknown, if_pos (honce.sublist h)]

/-- All fields of a record were given in their order. -/
theorem fields?_all {c : Conventions} {names : List String} {members : List (String × Json)}
    (h : members.map (·.1) = names) (honce : names.Nodup) :
    c.fields? names (.obj members) = some members :=
  fields?_obj (h ▸ List.Sublist.refl _) honce

/-! ## Legible containers -/

theorem legible_list {g : α → Json} {xs : List α} :
    (list g xs).Legible ↔ ∀ a ∈ xs, (g a).Legible := by
  rw [list, legible_arr, List.forall_mem_map]

theorem legible_texts (xs : List String) : (texts xs).Legible :=
  legible_list.mpr fun _ _ => trivial

theorem legible_ofTable {g : α → Json} {t : Table α} :
    (ofTable g t).Legible ↔ ∀ a ∈ t.values, (g a).Legible := by
  rw [ofTable, legible_obj, List.forall_mem_map, Table.values, List.forall_mem_map]

/-! ## Height of containers -/

theorem height_arr_le {vs : List Json} {k : Nat} :
    (Json.arr vs).height ≤ k + 1 ↔ ∀ v ∈ vs, v.height ≤ k := by
  rw [height, Nat.add_le_add_iff_right]
  induction vs with
  | nil => simp [heightAll]
  | cons v vs ih => rw [heightAll, Nat.max_le, ih, List.forall_mem_cons]

theorem height_obj_le {ms : List (String × Json)} {k : Nat} :
    (Json.obj ms).height ≤ k + 1 ↔ ∀ m ∈ ms, m.2.height ≤ k := by
  rw [height, Nat.add_le_add_iff_right]
  induction ms with
  | nil => simp [heightMembers]
  | cons m ms ih => rw [heightMembers, Nat.max_le, ih, List.forall_mem_cons]

theorem height_lt_of_mem_arr {v : Json} {vs : List Json} (hv : v ∈ vs) :
    v.height < (Json.arr vs).height := by
  have hvs : (Json.arr vs).height ≤ heightAll vs + 1 :=
    Nat.le_of_eq (by rw [height])
  rw [height]
  exact Nat.lt_succ_of_le (height_arr_le.mp hvs v hv)

theorem height_lt_of_mem_obj {m : String × Json} {ms : List (String × Json)} (hm : m ∈ ms) :
    m.2.height < (Json.obj ms).height := by
  have hms : (Json.obj ms).height ≤ heightMembers ms + 1 :=
    Nat.le_of_eq (by rw [height])
  rw [height]
  exact Nat.lt_succ_of_le (height_obj_le.mp hms m hm)

theorem height_list_le {g : α → Json} {xs : List α} {k : Nat} :
    (list g xs).height ≤ k + 1 ↔ ∀ a ∈ xs, (g a).height ≤ k := by
  rw [list, height_arr_le, List.forall_mem_map]

theorem height_texts_le (xs : List String) : (texts xs).height ≤ 1 :=
  height_list_le.mpr fun _ _ => Nat.le_refl 0

theorem height_ofTable_le {g : α → Json} {t : Table α} {k : Nat} :
    (ofTable g t).height ≤ k + 1 ↔ ∀ a ∈ t.values, (g a).height ≤ k := by
  rw [ofTable, height_obj_le, List.forall_mem_map, Table.values, List.forall_mem_map]

end Inventory.Json
