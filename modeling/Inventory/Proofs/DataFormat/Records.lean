import Inventory.Catalog
import Inventory.Graph.Snapshot
import Inventory.Proofs.Json.Record

/-!
# DataFormat — records read back

Snapshots and catalogs are read back from the data format. A property is given by
its value alone, and still every kind of property is told from the others. Only
doubles that are not finite are lost.
-/

namespace Inventory

open Json (Number)

/-! ## Doubles -/

/-- The doubles in a property. -/
def Property.reals : Property → List Float
  | .real x => [x]
  | _ => []

/-- The doubles in properties. -/
def Properties.reals (ps : Properties) : List Float := ps.values.flatMap Property.reals

/-- The doubles in the properties of vertices and edges. -/
def Snapshot.reals (s : Snapshot) : List Float :=
  s.vertices.flatMap (·.properties.reals) ++ s.edges.flatMap (·.properties.reals)

/-! ## Properties -/

namespace Property

/-- **Every kind of property is told from the others.** -/
theorem ofJson?_toJson {p : Property} (h : ∀ x ∈ p.reals, x.isFinite) :
    ofJson? p.toJson = some p := by
  cases p with
  | bool b => rfl
  | int n =>
      have hsigned : Word.isSigned n.toInt = true :=
        Word.isSigned_iff.mpr ⟨n.le_toInt, n.toInt_lt⟩
      rw [toJson, ofJson?, ofNumber, if_pos hsigned, Int64.ofInt_toInt]
  | real x =>
      have hx : x.isFinite = true := h x List.mem_cons_self
      rw [toJson, if_pos hx, ofJson?, ofNumber]
  | text s => rfl
  | set items =>
      have hitems : (items.map Json.str).mapM Json.text? = some items :=
        Json.mapM_map fun _ _ => rfl
      rw [toJson, Json.texts, Json.list, ofJson?, hitems, Option.map_some]

theorem legible_toJson {p : Property} (h : ∀ x ∈ p.reals, (Number.real x).ReadsBack) :
    p.toJson.Legible := by
  cases p with
  | bool b => trivial
  | int n =>
      refine Json.readsBack_whole n.le_toInt (Int.lt_trans n.toInt_lt ?_)
      decide
  | real x =>
      have hx := h x List.mem_cons_self
      rw [toJson, if_pos hx.isFinite]
      exact hx
  | text s => trivial
  | set items => exact Json.legible_texts items

theorem height_toJson_le (p : Property) : p.toJson.height ≤ 1 := by
  cases p with
  | real x =>
    rw [toJson]
    split <;> exact Nat.zero_le 1
  | set items => exact Json.height_texts_le items
  | _ => exact Nat.zero_le 1

end Property

namespace Properties

variable {ps : Properties}

theorem ofJson?_toJson (h : ∀ x ∈ ps.reals, x.isFinite) : ofJson? ps.toJson = some ps :=
  Json.table?_ofTable fun _ hp =>
    Property.ofJson?_toJson fun x hx => h x (List.mem_flatMap_of_mem hp hx)

theorem legible_toJson (h : ∀ x ∈ ps.reals, (Number.real x).ReadsBack) : ps.toJson.Legible :=
  Json.legible_ofTable.mpr fun _ hp =>
    Property.legible_toJson fun x hx => h x (List.mem_flatMap_of_mem hp hx)

theorem height_toJson_le (ps : Properties) : ps.toJson.height ≤ 2 :=
  Json.height_ofTable_le.mpr fun p _ => p.height_toJson_le

end Properties

/-! ## Vertices and edges -/

namespace Vertex

variable {v : Vertex}

theorem ofJson?_toJson (h : ∀ x ∈ v.properties.reals, x.isFinite) :
    ofJson? v.toJson = some v := by
  rw [toJson, ofJson?, Json.fields?, Json.fields?_all (by rfl) (by decide)]
  simp [Table.lookup_entry, Json.required, Json.optional, Json.text?, Properties.ofJson?_toJson h]

theorem legible_toJson (h : ∀ x ∈ v.properties.reals, (Number.real x).ReadsBack) :
    v.toJson.Legible := by
  rw [toJson, Json.legible_obj]
  simp only [List.forall_mem_cons]
  exact ⟨trivial, trivial, Properties.legible_toJson h, nofun⟩

theorem height_toJson_le (v : Vertex) : v.toJson.height ≤ 3 := by
  rw [toJson, Json.height_obj_le]
  simp only [List.forall_mem_cons]
  exact ⟨Nat.zero_le 2, Nat.zero_le 2, Properties.height_toJson_le _, nofun⟩

end Vertex

namespace Edge

variable {e : Edge}

theorem ofJson?_toJson (freshId : EdgeId) (h : ∀ x ∈ e.properties.reals, x.isFinite) :
    ofJson? freshId e.toJson = some e := by
  rw [toJson, ofJson?, Json.fields?, Json.fields?_all (by rfl) (by decide)]
  simp [Table.lookup_entry, Json.required, Json.optional, Json.text?, Properties.ofJson?_toJson h]

theorem legible_toJson (h : ∀ x ∈ e.properties.reals, (Number.real x).ReadsBack) :
    e.toJson.Legible := by
  rw [toJson, Json.legible_obj]
  simp only [List.forall_mem_cons]
  exact ⟨trivial, trivial, trivial, trivial, Properties.legible_toJson h, nofun⟩

theorem height_toJson_le (e : Edge) : e.toJson.height ≤ 3 := by
  rw [toJson, Json.height_obj_le]
  simp only [List.forall_mem_cons]
  exact ⟨Nat.zero_le 2, Nat.zero_le 2, Nat.zero_le 2, Nat.zero_le 2,
    Properties.height_toJson_le _, nofun⟩

end Edge

/-! ## Snapshots -/

namespace Snapshot

variable {s : Snapshot}

theorem mem_reals_of_vertex {v : Vertex} (hv : v ∈ s.vertices) {x : Float}
    (hx : x ∈ v.properties.reals) : x ∈ s.reals :=
  List.mem_append_left _ (List.mem_flatMap_of_mem hv hx)

theorem mem_reals_of_edge {e : Edge} (he : e ∈ s.edges) {x : Float}
    (hx : x ∈ e.properties.reals) : x ∈ s.reals :=
  List.mem_append_right _ (List.mem_flatMap_of_mem he hx)

/-- Edges that have ids need no fresh ones. -/
theorem edgesOfJson?_list (freshId : Nat → EdgeId) {es : List Edge}
    (h : ∀ e ∈ es, ∀ x ∈ e.properties.reals, x.isFinite) :
    edgesOfJson? freshId (Json.list Edge.toJson es) = some es := by
  rw [Json.list, edgesOfJson?]
  -- the place of an edge only matters for the id that it has already
  generalize 0 = n
  induction es generalizing n with
  | nil => rfl
  | cons e es ih =>
      have he := Edge.ofJson?_toJson (freshId n) (h e List.mem_cons_self)
      have hes := ih (fun e' he' => h e' (List.mem_cons_of_mem _ he')) (n + 1)
      simp only [List.map_cons, List.zipIdx_cons, List.mapM_cons, he, hes]
      rfl

theorem ofJson?_toJson (freshId : Nat → EdgeId) (h : ∀ x ∈ s.reals, x.isFinite) :
    ofJson? freshId s.toJson = some s := by
  have hvertices : Json.list? Vertex.ofJson? (Json.list Vertex.toJson s.vertices) =
      some s.vertices :=
    Json.list?_list fun v hv => Vertex.ofJson?_toJson fun x hx => h x (mem_reals_of_vertex hv hx)
  have hedges := edgesOfJson?_list freshId fun e he x hx => h x (mem_reals_of_edge he hx)
  rw [toJson, ofJson?, Json.fields?, Json.fields?_all (by rfl) (by decide)]
  simp [Table.lookup_entry, Json.optional, hvertices, hedges]

theorem legible_toJson (h : ∀ x ∈ s.reals, (Number.real x).ReadsBack) : s.toJson.Legible := by
  rw [toJson, Json.legible_obj]
  simp only [List.forall_mem_cons, Json.legible_list]
  exact ⟨fun v hv => Vertex.legible_toJson fun x hx => h x (mem_reals_of_vertex hv hx),
    fun e he => Edge.legible_toJson fun x hx => h x (mem_reals_of_edge he hx), nofun⟩

theorem height_toJson_le (s : Snapshot) : s.toJson.height ≤ 5 := by
  rw [toJson, Json.height_obj_le]
  simp only [List.forall_mem_cons, Json.height_list_le]
  exact ⟨fun v _ => v.height_toJson_le, fun e _ => e.height_toJson_le, nofun⟩

end Snapshot

/-! ## Catalogs -/

theorem Json.choice?_str {α : Type} (c : Json.Conventions) (named : String → Option α)
    (s : String) : c.choice? named (.str s) = named s := rfl

theorem Direction.ofName?_name (d : Direction) : ofName? d.name = some d := by
  cases d <;> rfl

theorem Multiplicity.ofName?_name (m : Multiplicity) : ofName? m.name = some m := by
  cases m <;> rfl

namespace EdgeRule

theorem read?_toJson (c : Json.Conventions) (r : EdgeRule) : read? c r.toJson = some r := by
  rw [toJson, read?, Json.fields?_all (by rfl) (by decide)]
  simp [Table.lookup_entry, Json.required, Json.optional, Json.text?, Json.truth?, Direction.read?,
    Json.choice?_str, Direction.ofName?_name, Multiplicity.ofName?_name]

theorem legible_toJson (r : EdgeRule) : r.toJson.Legible := by
  rw [toJson, Json.legible_obj]
  simp [Json.Legible]

theorem height_toJson_le (r : EdgeRule) : r.toJson.height ≤ 1 := by
  rw [toJson, Json.height_obj_le]
  simp [Json.height]

end EdgeRule

namespace NodeTypeInfo

theorem read?_toJson (c : Json.Conventions) (i : NodeTypeInfo) : read? c i.toJson = some i := by
  rw [toJson, read?, Json.fields?_all (by rfl) (by decide)]
  simp [Table.lookup_entry, Json.optional, Json.truth?, Json.list?_texts]

theorem legible_toJson (i : NodeTypeInfo) : i.toJson.Legible := by
  rw [toJson, Json.legible_obj]
  simp only [List.forall_mem_cons]
  exact ⟨trivial, Json.legible_texts _, Json.legible_texts _, Json.legible_texts _, nofun⟩

theorem height_toJson_le (i : NodeTypeInfo) : i.toJson.height ≤ 2 := by
  rw [toJson, Json.height_obj_le]
  simp only [List.forall_mem_cons]
  exact ⟨Nat.zero_le 1, Json.height_texts_le _, Json.height_texts_le _, Json.height_texts_le _,
    nofun⟩

end NodeTypeInfo

namespace CatalogSource

theorem ofJson?_toJson (c : CatalogSource) : ofJson? c.toJson = some c := by
  have hrules : Json.list? (EdgeRule.read? .strict) (Json.list EdgeRule.toJson c.edgeRules) =
      some c.edgeRules :=
    Json.list?_list fun r _ => r.read?_toJson _
  have htypes : Json.table? (NodeTypeInfo.read? .strict)
      (Json.ofTable NodeTypeInfo.toJson c.nodeTypes) = some c.nodeTypes :=
    Json.table?_ofTable fun i _ => i.read?_toJson _
  rw [toJson, ofJson?, read?, Json.fields?_all (by rfl) (by decide)]
  simp [Table.lookup_entry, Json.optional, hrules, htypes]

theorem legible_toJson (c : CatalogSource) : c.toJson.Legible := by
  rw [toJson, Json.legible_obj]
  simp only [List.forall_mem_cons, Json.legible_list, Json.legible_ofTable]
  exact ⟨fun r _ => r.legible_toJson, fun i _ => i.legible_toJson, nofun⟩

theorem height_toJson_le (c : CatalogSource) : c.toJson.height ≤ 4 := by
  rw [toJson, Json.height_obj_le]
  simp only [List.forall_mem_cons, Json.height_list_le, Json.height_ofTable_le]
  exact ⟨fun r _ => Nat.le_trans r.height_toJson_le (by decide),
    fun i _ => i.height_toJson_le, nofun⟩

end CatalogSource

end Inventory
