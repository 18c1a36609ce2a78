import Mathlib.Tactic.SplitIfs
import Inventory.Proofs.DataFormat.Records
import Inventory.Proofs.ResultTree

/-!
# DataFormat — result trees read back

A node leaves out the fields that are usually empty, and they come back empty. With
each node its children come back in their order, however deep the tree is.
-/

namespace Inventory

open Json (Number)

/-! ## Fields that may be left out -/

/-- A table of properties that is only given when it holds some. -/
def Properties.field (name : String) (ps : Properties) : List (String × Json) :=
  if ps.isEmpty then [] else [(name, ps.toJson)]

/-- A limit that is only given when there is one. -/
def PropertyLimit.field : Option PropertyLimit → List (String × Json)
  | some l => [("property_limit", .str l.name)]
  | none => []

theorem Properties.lookup_field (name k : String) (ps : Properties) :
    (field name ps).lookup k = if k = name ∧ ¬ ps.isEmpty then some ps.toJson else none := by
  rw [field]
  split
  · simp_all
  · simp_all [Table.lookup_entry]

theorem PropertyLimit.lookup_field (k : String) (l : Option PropertyLimit) :
    (field l).lookup k = if k = "property_limit" then l.map fun l => .str l.name else none := by
  cases l <;> simp [field, Table.lookup_entry]

theorem Properties.names_field (name : String) (ps : Properties) :
    ((field name ps).map (·.1)).Sublist [name] := by
  rw [field]
  split
  · exact List.nil_sublist _
  · exact List.Sublist.refl _

theorem PropertyLimit.names_field (l : Option PropertyLimit) :
    ((field l).map (·.1)).Sublist ["property_limit"] := by
  cases l with
  | none => exact List.nil_sublist _
  | some l => exact List.Sublist.refl _

theorem PropertyLimit.ofName?_name (l : PropertyLimit) : ofName? l.name = some l := by
  cases l <;> rfl

theorem Table.eq_empty_of_isEmpty {α : Type} {t : Table α} (h : t.isEmpty = true) : t = ∅ := by
  obtain ⟨entries, rising⟩ := t
  obtain rfl : entries = [] := List.isEmpty_iff.mp h
  rfl

/-- A table of properties is read back, also when its field was left out. -/
theorem Properties.optional_field (name : String) (ps : Properties) (fs : List (String × Json))
    (hfs : fs.lookup name = (field name ps).lookup name) (h : ∀ x ∈ ps.reals, x.isFinite) :
    Json.optional ofJson? name ∅ fs = some ps := by
  rw [Json.optional, hfs, lookup_field]
  by_cases hps : ps.isEmpty = true
  · rw [if_neg fun hboth => hboth.2 hps, Table.eq_empty_of_isEmpty hps]
  · rw [if_pos ⟨rfl, hps⟩]
    exact ofJson?_toJson h

theorem PropertyLimit.optional_field (l : Option PropertyLimit) (fs : List (String × Json))
    (hfs : fs.lookup "property_limit" = (field l).lookup "property_limit") :
    Json.optional (Json.nullable? (Json.choice? ofName?)) "property_limit" none fs = some l := by
  rw [Json.optional, hfs, lookup_field, if_pos rfl]
  cases l with
  | none => rfl
  | some l =>
      show ((Json.choice? ofName? (.str l.name)).map some) = some (some l)
      rw [Json.choice?, Json.choice?_str, ofName?_name, Option.map_some]

/-! ## Nodes -/

/-- The doubles in all properties of a node. -/
def ResultNode.reals (n : ResultNode) : List Float :=
  n.vertex.properties.reals ++ n.overrides.reals ++ n.extras.reals

theorem ResultNode.forall_mem_reals {n : ResultNode} {P : Float → Prop} :
    (∀ x ∈ n.reals, P x) ↔ (∀ x ∈ n.vertex.properties.reals, P x) ∧
      (∀ x ∈ n.overrides.reals, P x) ∧ ∀ x ∈ n.extras.reals, P x := by
  rw [reals, List.forall_mem_append, List.forall_mem_append, and_assoc]

namespace ResultTree

/-- The fields of a node with its children. -/
def fields (n : ResultNode) (cs : List ResultTree) : List (String × Json) :=
  nodeFields n ++ [("children", Json.list toJson cs)]

theorem toJsonAll_eq_map (cs : List ResultTree) : toJsonAll cs = cs.map toJson := by
  induction cs with
  | nil => rfl
  | cons c cs ih => rw [toJsonAll, ih, List.map_cons]

theorem toJson_node (n : ResultNode) (cs : List ResultTree) :
    (node n cs).toJson = .obj (fields n cs) := by
  rw [toJson, toJsonAll_eq_map, fields, Json.list]

theorem nodeFields_eq (n : ResultNode) : nodeFields n =
    [("vertex", n.vertex.toJson), ("trail", .str n.trail), ("delete", .bool n.delete),
      ("do_not_output", .bool n.doNotOutput)] ++ PropertyLimit.field n.propertyLimit ++
      Properties.field "property_overrides" n.overrides ++
      Properties.field "extra_properties" n.extras := rfl

variable {n : ResultNode} {cs : List ResultTree} {levels : Nat}

theorem names_fields : ((fields n cs).map (·.1)).Sublist fieldNames := by
  simp only [fields, nodeFields_eq, List.map_append]
  exact ((((List.Sublist.refl _).append (PropertyLimit.names_field _)).append
    (Properties.names_field _ _)).append (Properties.names_field _ _)).append (.refl _)

/-- What stands under each name, where the two tables and the limit may be left out. -/
theorem lookup_fields (k : String) : (fields n cs).lookup k =
    if k = "vertex" then some n.vertex.toJson
    else if k = "trail" then some (.str n.trail)
    else if k = "delete" then some (.bool n.delete)
    else if k = "do_not_output" then some (.bool n.doNotOutput)
    else ((((PropertyLimit.field n.propertyLimit).lookup k).or
      ((Properties.field "property_overrides" n.overrides).lookup k)).or
      ((Properties.field "extra_properties" n.extras).lookup k)).or
      (if k = "children" then some (Json.list toJson cs) else none) := by
  rw [fields, nodeFields_eq]
  simp only [List.lookup_append, Table.lookup_entry, List.lookup_nil]
  split_ifs <;> rfl

/-- A node is read back once its children are. -/
theorem ofJsonWithin?_node (hn : ∀ x ∈ n.reals, x.isFinite)
    (hcs : ∀ c ∈ cs, ofJsonWithin? levels c.toJson = some c) :
    ofJsonWithin? (levels + 1) (node n cs).toJson = some (node n cs) := by
  obtain ⟨hown, hinstead, hjoined⟩ := ResultNode.forall_mem_reals.mp hn
  have hvertex : Json.required Vertex.ofJson? "vertex" (fields n cs) = some n.vertex := by
    rw [Json.required, lookup_fields]
    exact Vertex.ofJson?_toJson hown
  have htrail : Json.required Json.text? "trail" (fields n cs) = some n.trail := by
    rw [Json.required, lookup_fields]
    rfl
  have hdelete : Json.optional Json.truth? "delete" false (fields n cs) = some n.delete := by
    rw [Json.optional, lookup_fields]
    rfl
  have hhidden : Json.optional Json.truth? "do_not_output" false (fields n cs) =
      some n.doNotOutput := by
    rw [Json.optional, lookup_fields]
    rfl
  have hlimit := PropertyLimit.optional_field n.propertyLimit (fields n cs) (by
    simp [lookup_fields, PropertyLimit.lookup_field, Properties.lookup_field])
  have hoverrides := Properties.optional_field "property_overrides" n.overrides (fields n cs) (by
    simp [lookup_fields, PropertyLimit.lookup_field, Properties.lookup_field]) hinstead
  have hextras := Properties.optional_field "extra_properties" n.extras (fields n cs) (by
    simp [lookup_fields, PropertyLimit.lookup_field, Properties.lookup_field]) hjoined
  have hchildren : Json.optional (Json.list? (ofJsonWithin? levels)) "children" []
      (fields n cs) = some cs := by
    have hlist : Json.list? (ofJsonWithin? levels) (Json.list toJson cs) = some cs :=
      Json.list?_list hcs
    simp [Json.optional, lookup_fields, PropertyLimit.lookup_field, Properties.lookup_field, hlist]
  rw [toJson_node, ofJsonWithin?, Json.fields?, Json.fields?_obj names_fields (by decide)]
  simp only [bind, Option.bind_some, hvertex, htrail, hdelete, hhidden, hlimit, hoverrides,
    hextras, hchildren]

/-! ## Trees -/

/-- The doubles in all nodes of a tree. -/
def reals (t : ResultTree) : List Float := t.preorder.flatMap ResultNode.reals

theorem mem_reals_of_top {x : Float} (hx : x ∈ n.reals) : x ∈ (node n cs).reals :=
  List.mem_flatMap_of_mem List.mem_cons_self hx

theorem mem_reals_of_child {c : ResultTree} (hc : c ∈ cs) {x : Float} (hx : x ∈ c.reals) :
    x ∈ (node n cs).reals := by
  obtain ⟨m, hm, hx⟩ := List.mem_flatMap.mp hx
  exact List.mem_flatMap_of_mem (List.mem_cons_of_mem _ (mem_preorderAll.mpr ⟨c, hc, hm⟩)) hx

mutual

/-- What holds of a node whose children it holds of holds of every tree. -/
theorem induct {P : ResultTree → Prop} (h : ∀ n cs, (∀ c ∈ cs, P c) → P (node n cs)) :
    ∀ t, P t
  | .node n cs => h n cs (inductAll h cs)

theorem inductAll {P : ResultTree → Prop} (h : ∀ n cs, (∀ c ∈ cs, P c) → P (node n cs)) :
    ∀ ts : List ResultTree, ∀ t ∈ ts, P t
  | t :: _, _, .head _ => induct h t
  | _ :: ts, u, .tail _ hu => inductAll h ts u hu

end

/-- Children do not nest as deep as their node. -/
theorem height_child {c : ResultTree} (hc : c ∈ cs) :
    c.toJson.height + 2 ≤ (node n cs).toJson.height := by
  have hlist : c.toJson.height < (Json.list toJson cs).height :=
    Json.height_lt_of_mem_arr (List.mem_map_of_mem hc)
  have hnode : (Json.list toJson cs).height < (node n cs).toJson.height := by
    rw [toJson_node]
    exact Json.height_lt_of_mem_obj (m := ("children", _)) (List.mem_append_right _ (.head _))
  omega

/-- A tree is read back within as many levels as it nests deep. -/
theorem ofJsonWithin?_toJson (t : ResultTree) : ∀ {levels : Nat}, t.toJson.height < levels →
    (∀ x ∈ t.reals, x.isFinite) → ofJsonWithin? levels t.toJson = some t := by
  induction t using induct with
  | h n cs ih =>
      intro levels hlevels hfinite
      obtain ⟨levels, rfl⟩ := Nat.exists_eq_add_one_of_ne_zero (n := levels) (by omega)
      refine ofJsonWithin?_node (fun x hx => hfinite x (mem_reals_of_top hx)) fun c hc => ?_
      refine ih c hc ?_ fun x hx => hfinite x (mem_reals_of_child hc hx)
      have := height_child (n := n) hc
      omega

theorem ofJson?_toJson {t : ResultTree} (h : ∀ x ∈ t.reals, x.isFinite) :
    ofJson? t.toJson = some t := ofJsonWithin?_toJson t (Nat.lt_succ_self _) h

/-! ## Legibility and height -/

/-- What holds of every kind of value that a node has holds of all its fields. -/
theorem forall_mem_nodeFields {P : Json → Prop} (hvertex : P n.vertex.toJson)
    (htext : ∀ s, P (.str s)) (htruth : ∀ b, P (.bool b)) (hoverrides : P n.overrides.toJson)
    (hextras : P n.extras.toJson) : ∀ m ∈ nodeFields n, P m.2 := by
  have hfield : ∀ {name : String} {ps : Properties}, P ps.toJson →
      ∀ m ∈ Properties.field name ps, P m.2 := by
    intro name ps hps m hm
    rw [Properties.field] at hm
    split at hm
    · cases hm
    · obtain rfl := List.mem_singleton.mp hm
      exact hps
  have hlimit : ∀ m ∈ PropertyLimit.field n.propertyLimit, P m.2 := by
    intro m hm
    generalize n.propertyLimit = l at hm
    cases l with
    | none => cases hm
    | some l =>
        obtain rfl := List.mem_singleton.mp hm
        exact htext _
  rw [nodeFields_eq]
  simp only [List.forall_mem_append, List.forall_mem_cons]
  exact ⟨⟨⟨⟨hvertex, htext _, htruth _, htruth _, nofun⟩, hlimit⟩, hfield hoverrides⟩,
    hfield hextras⟩

theorem legible_toJson (t : ResultTree) (h : ∀ x ∈ t.reals, (Number.real x).ReadsBack) :
    t.toJson.Legible := by
  induction t using induct with
  | h n cs ih =>
      obtain ⟨hown, hinstead, hjoined⟩ :=
        ResultNode.forall_mem_reals.mp fun x hx => h x (mem_reals_of_top hx)
      rw [toJson_node, Json.legible_obj, fields, List.forall_mem_append,
        List.forall_mem_singleton, Json.legible_list]
      exact ⟨forall_mem_nodeFields (Vertex.legible_toJson hown) (fun _ => trivial)
          (fun _ => trivial) (Properties.legible_toJson hinstead)
          (Properties.legible_toJson hjoined),
        fun c hc => ih c hc fun x hx => h x (mem_reals_of_child hc hx)⟩

/-- Every level of a tree nests two deep, its fields up to three deeper. -/
theorem height_toJson_le (t : ResultTree) : ∀ {k : Nat}, (∀ {d s}, t.At d s → d ≤ k) →
    t.toJson.height ≤ 2 * k + 4 := by
  induction t using induct with
  | h n cs ih =>
      intro k hdepth
      have hn : ∀ m ∈ nodeFields n, m.2.height ≤ 3 :=
        forall_mem_nodeFields (P := fun j => j.height ≤ 3) n.vertex.height_toJson_le
          (fun _ => Nat.zero_le 3) (fun _ => Nat.zero_le 3)
          (Nat.le_succ_of_le (Properties.height_toJson_le _))
          (Nat.le_succ_of_le (Properties.height_toJson_le _))
      rw [toJson_node, Json.height_obj_le, fields, List.forall_mem_append,
        List.forall_mem_singleton, Json.height_list_le]
      refine ⟨fun m hm => Nat.le_trans (hn m hm) (Nat.le_add_left 3 _), fun c hc => ?_⟩
      obtain ⟨k, rfl⟩ := Nat.exists_eq_add_one_of_ne_zero (n := k) (by
        have := hdepth (.under hc (.here c))
        omega)
      exact ih c hc fun hs => Nat.le_of_succ_le_succ (hdepth (.under hc hs))

/-- A tree nests at least twice as deep as any of its nodes stands. -/
theorem le_height_toJson {t s : ResultTree} {d : Nat} (h : t.At d s) :
    2 * d + 3 ≤ t.toJson.height := by
  induction h with
  | here t =>
      obtain ⟨n, cs⟩ := t
      have hproperties : 0 < (Properties.toJson n.vertex.properties).height := by
        rw [Properties.toJson, Json.ofTable, Json.height]
        exact Nat.succ_pos _
      have hvertex : (Properties.toJson n.vertex.properties).height < n.vertex.toJson.height :=
        Json.height_lt_of_mem_obj (m := ("properties", _)) (.tail _ (.tail _ (.head _)))
      have hnode : n.vertex.toJson.height < (node n cs).toJson.height := by
        rw [toJson_node]
        exact Json.height_lt_of_mem_obj (m := ("vertex", _)) (.head _)
      omega
  | @under t c s d hc _ ih =>
      obtain ⟨n, cs⟩ := t
      have := height_child (n := n) (show c ∈ cs from hc)
      omega

end ResultTree

end Inventory
