import Inventory.Proofs.DataFormat.Trees
import Inventory.Proofs.Storage.Commands

/-!
# DataFormat — what is written comes back

Snapshots, result trees and catalogs are read back from their texts as they were
written, trees as long as they do not nest deeper than a text may. So a graph that
is exported from one store is taken in by an empty one as it was stored.
-/

namespace Inventory

open Json (Number)

variable {α : Type}

/-! ## Formats -/

/-- How values of one kind are given in the data format. -/
structure DataFormat (α : Type) where
  toJson : α → Json
  ofJson? : Json → Option α
  /-- The doubles in a value. -/
  reals : α → List Float

namespace DataFormat

/-- The format of snapshots; an edge may come without an id. -/
def snapshot (freshId : Nat → EdgeId) : DataFormat Snapshot :=
  ⟨Snapshot.toJson, Snapshot.ofJson? freshId, Snapshot.reals⟩

/-- The format of result trees. -/
def tree : DataFormat ResultTree := ⟨ResultTree.toJson, ResultTree.ofJson?, ResultTree.reals⟩

/-- The format of catalogs, in which there are no doubles. -/
def catalog : DataFormat CatalogSource :=
  ⟨CatalogSource.toJson, CatalogSource.ofJson?, fun _ => []⟩

/-- What was written of a value is read as that value. -/
structure Faithful (f : DataFormat α) (a : α) : Prop where
  /-- As a value of the format it is when its doubles are finite. -/
  value : (∀ x ∈ f.reals a, x.isFinite = true) → f.ofJson? (f.toJson a) = some a
  /-- As a text it is when its doubles are read back and the text can be read. -/
  text : (∀ x ∈ f.reals a, (Number.real x).ReadsBack) → ∀ spread,
    (Json.parseWhole (Json.write spread (f.toJson a))).bind f.ofJson? =
      if (f.toJson a).height ≤ Json.maxHeight then some a else none

theorem faithful_of_legible {f : DataFormat α} {a : α}
    (hvalue : (∀ x ∈ f.reals a, x.isFinite = true) → f.ofJson? (f.toJson a) = some a)
    (hlegible : (∀ x ∈ f.reals a, (Number.real x).ReadsBack) → (f.toJson a).Legible) :
    f.Faithful a where
  value := hvalue
  text hreals spread := by
    rw [Json.parseWhole_write spread (hlegible hreals)]
    split
    · exact hvalue fun x hx => (hreals x hx).isFinite
    · rfl

end DataFormat

/-! ## Kept values -/

open Backend (durable)

theorem rereadReal_eq {x : Float} (h : (Number.real x).ReadsBack) : rereadReal x = .real x := by
  have hlegible : (Property.toJson (.real x)).Legible :=
    Property.legible_toJson fun y hy => List.mem_singleton.mp hy ▸ h
  have hread := Json.parse_write .line hlegible
  rw [Property.toJson, if_pos h.isFinite] at hread
  rw [rereadReal, Property.toJson, if_pos h.isFinite, Json.compact, hread]
  rfl

/-- A durable store keeps properties whose doubles are read back. -/
theorem Backend.kept_durable {ps : Properties} (h : ∀ x ∈ ps.reals, (Number.real x).ReadsBack) :
    durable.kept ps = ps := by
  refine Table.map_eq_self fun p hp => ?_
  have hp' : ∀ x ∈ p.reals, (Number.real x).ReadsBack :=
    fun x hx => h x (List.mem_flatMap_of_mem hp hx)
  cases p with
  | real x => exact rereadReal_eq (hp' x List.mem_cons_self)
  | _ => rfl

namespace Store

variable {s : Store}

/-- What a store holds, as it is exported. -/
def contents (s : Store) : Snapshot := ⟨s.vertices.values, s.edges.values⟩

/-- An empty store takes in what another one holds, and then holds the same. -/
theorem Consistent.takeIn_contents (hs : s.Consistent)
    (h : ∀ x ∈ s.contents.reals, (Number.real x).ReadsBack) (merge : Bool) :
    ({} : Store).takeIn s.contents merge = (.ok (), s) := by
  obtain ⟨g, hload⟩ := hs.loadable
  have hparts : Graph.ofParts s.vertices.values s.edges.values = .ok g :=
    (loadGraph_eq_ok_iff.mp hload).2
  have hvertices : s.vertices.values.map durable.keptVertex = s.vertices.values := by
    refine (List.map_congr_left fun v hv => ?_).trans (List.map_id _)
    have hkept := Backend.kept_durable fun x hx => h x (Snapshot.mem_reals_of_vertex hv hx)
    rw [Backend.keptVertex, hkept]
    rfl
  have hedges : s.edges.values.map durable.keptEdge = s.edges.values := by
    refine (List.map_congr_left fun e he => ?_).trans (List.map_id _)
    have hkept := Backend.kept_durable fun x hx => h x (Snapshot.mem_reals_of_edge he hx)
    rw [Backend.keptEdge, hkept]
    rfl
  have hsaved : ({} : Store).saveParts s.contents = (.ok (), s) := by
    rw [saveParts_eq, contents, hvertices, hedges]
    exact congrArg (Prod.mk _) (congrArg₂ Store.mk (Graph.foldl_put_values hs.filed.vertex_id)
      (Graph.foldl_put_values hs.filed.edge_id))
  have hempty : durable.loadGraph {} = .ok .empty := rfl
  have hfree : ¬ (0 < Graph.empty.vertexCount ∧ (!merge) = true) := fun h => absurd h.1 (by decide)
  have hmerged : s.contents.edges.foldlM Graph.addEdge
      (s.contents.vertices.foldl Graph.addVertex .empty) = .ok g := hparts
  rw [takeIn, hempty]
  simp only [if_neg hfree, hmerged, hsaved]
  rfl

end Store

/-! ## Exporting and taking in -/

namespace CommandLine

/-- What an exported text is. -/
def exported (s : Store) : String := s.contents.toJson.pretty

/-- What a store holds can be carried over to an empty one. -/
structure Transfers (s : Store) : Prop where
  /-- The export prints the text on a line of its own. -/
  printed : ∀ files freshId format settings path,
    ((GraphCommand.export none).run freshId format settings ⟨path, s⟩).perform files =
      (.ok (exported s ++ "\n"), [])
  /-- Or it writes the text to a file. -/
  written : ∀ files freshId format settings path output,
    ((GraphCommand.export (some output)).run freshId format settings ⟨path, s⟩).perform files =
      (.ok ("Exported to " ++ Text.quoted output ++ "\n"), [(output, .text (exported s))])
  /-- From a file with either text an empty store takes in exactly what is stored. -/
  takenIn : ∀ (w : Surroundings) file merge,
    w.files file = .ok (.text (exported s)) ∨ w.files file = .ok (.text (exported s ++ "\n")) →
      (StoreCommand.takeIn file merge).change w {} = (.ok (), s) ∧
      ∀ format path, StoreCommand.EndsAs w.files path
        ((GraphCommand.takeIn file merge).run w.freshId format w.settings ⟨path, {}⟩) (.ok (), s)

theorem transfers {s : Store} (hs : s.Consistent)
    (h : ∀ x ∈ s.contents.reals, (Number.real x).ReadsBack) : Transfers s where
  printed files freshId format settings path := by
    rw [GraphCommand.run, hs.readable.vertices_eq, hs.readable.edges_eq]
    rfl
  written files freshId format settings path output := by
    rw [GraphCommand.run, hs.readable.vertices_eq, hs.readable.edges_eq]
    rfl
  takenIn w file merge hfile := by
    have hlegible := Snapshot.legible_toJson h
    have hparts : Snapshot.ofJson? w.freshId s.contents.toJson = some s.contents :=
      Snapshot.ofJson?_toJson _ fun x hx => (h x hx).isFinite
    have hread : ∃ text, w.text file = .ok text ∧
        (Json.parse text).bind (Snapshot.ofJson? w.freshId) = some s.contents := by
      rcases hfile with hfile | hfile
      · refine ⟨exported s, by rw [Surroundings.text, hfile], ?_⟩
        rw [exported, Json.pretty, Json.parse_write _ hlegible]
        exact hparts
      · refine ⟨exported s ++ "\n", by rw [Surroundings.text, hfile], ?_⟩
        rw [exported, Json.pretty, Json.parse_write_append _ hlegible _ (by simp [Json.blanks])]
        exact hparts
    have hsnapshot : w.snapshot file = .ok s.contents := by
      obtain ⟨text, htext, htaken⟩ := hread
      simp only [Surroundings.snapshot, htext, bind, Except.bind, htaken]
    have hchange : (StoreCommand.takeIn file merge).change w {} = (.ok (), s) := by
      rw [StoreCommand.change, hsnapshot]
      exact congrArg StoreCommand.ended (hs.takeIn_contents h merge)
    refine ⟨hchange, fun format path => ?_⟩
    rw [← hchange]
    exact StoreCommand.endsAs_change (.takeIn file merge) w format ⟨path, {}⟩

end CommandLine

/-! ## Everything comes back -/

open CommandLine (Transfers StoreCommand Surroundings)

/-- **What is written comes back.** Snapshots, trees and catalogs are read from their
texts as they were, trees as long as they do not nest too deep, which none does whose
nodes all stand at most 61 levels deep. Whatever commands have filled a store, an
empty one takes in its export and then holds the same. -/
theorem dataFormat_faithful (freshId : Nat → EdgeId) :
    (∀ s, (DataFormat.snapshot freshId).Faithful s ∧ s.toJson.height ≤ Json.maxHeight) ∧
    (∀ t, DataFormat.tree.Faithful t ∧
      ((∀ {d u}, t.At d u → d ≤ 61) → t.toJson.height ≤ Json.maxHeight)) ∧
    (∀ c, DataFormat.catalog.Faithful c ∧ c.toJson.height ≤ Json.maxHeight) ∧
    (∀ past, (StoreCommand.changeAll past {}).Consistent) ∧
    ∀ {store : Store}, store.Consistent →
      (∀ x ∈ store.contents.reals, (Number.real x).ReadsBack) → Transfers store := by
  refine ⟨fun s => ⟨?_, ?_⟩, fun t => ⟨?_, fun hdepth => ?_⟩, fun c => ⟨?_, ?_⟩, fun past => ?_,
    fun hs h => CommandLine.transfers hs h⟩
  · exact DataFormat.faithful_of_legible (Snapshot.ofJson?_toJson freshId) Snapshot.legible_toJson
  · exact Nat.le_trans s.height_toJson_le (by decide)
  · exact DataFormat.faithful_of_legible ResultTree.ofJson?_toJson t.legible_toJson
  · exact Nat.le_trans (t.height_toJson_le hdepth) (by decide)
  · exact DataFormat.faithful_of_legible (fun _ => c.ofJson?_toJson) fun _ => c.legible_toJson
  · exact Nat.le_trans c.height_toJson_le (by decide)
  · exact StoreCommand.consistent_changeAll Store.consistent_empty past

/-! ### A store that is carried over -/

namespace DataFormat

/-- A server with a property of every kind: a double without a fraction, a set
without a member, and a text that could be a number. -/
def server : Vertex :=
  ⟨"a", "server", Table.ofList [("load", .real 1.0), ("roles", .set []), ("slots", .int (-3)),
    ("up", .bool true), ("zone", .text "1.0")]⟩

def volume : Vertex := ⟨"b", "volume", ∅⟩

/-- The server has the volume. Its skew must keep the sign. -/
def mounted : Edge := ⟨"e", "a", "b", "has", Table.ofList [("skew", .real (-0.0))]⟩

/-- The server with its volume. -/
def hosting : Store := ((({} : Store).putVertex server).putVertex volume).putEdge mounted

/-- The server over its volume, as a walk shows them. -/
def hostingTree : ResultTree :=
  .node ⟨server, "a", false, true, some .nothing, Table.ofList [("load", .real 0.5)], ∅⟩
    [.node ⟨volume, "a|b", true, false, none, ∅, ∅⟩ []]

/-- The store and the tree are read back, and the store is carried over. -/
theorem dataFormat_faithful_hosting :
    hosting.Consistent ∧ (∀ x ∈ hosting.contents.reals, (Number.real x).ReadsBack) ∧
      Transfers hosting ∧
      (Json.parseWhole hosting.contents.toJson.pretty).bind (Snapshot.ofJson? fun n => toString n) =
        some hosting.contents ∧
      (Json.parseWhole hostingTree.toJson.compact).bind ResultTree.ofJson? = some hostingTree := by
  have hconsistent : hosting.Consistent :=
    ⟨((Store.filed_empty.putVertex server).putVertex volume).putEdge mounted,
      ((Store.closed_empty.putVertex server).putVertex volume).putEdge (by decide),
      Store.readable_iff.mpr (by decide +kernel)⟩
  have hreals : ∀ x ∈ hosting.contents.reals, (Number.real x).ReadsBack := by decide +kernel
  have htree : ∀ x ∈ hostingTree.reals, (Number.real x).ReadsBack := by decide +kernel
  have hheight : hostingTree.toJson.height ≤ Json.maxHeight := by decide +kernel
  obtain ⟨hsnapshots, htrees, -, -, htransfers⟩ := dataFormat_faithful fun n => toString n
  refine ⟨hconsistent, hreals, htransfers hconsistent hreals, ?_, ?_⟩
  · obtain ⟨hfaithful, hlow⟩ := hsnapshots hosting.contents
    exact (hfaithful.text hreals (.lines 0)).trans (if_pos hlow)
  · exact ((htrees hostingTree).1.text htree .line).trans (if_pos hheight)

/-! ### A tree that nests too deep -/

/-- Servers below one another. -/
def chain : Nat → ResultTree
  | 0 => .node ⟨volume, "b", false, false, none, ∅, ∅⟩ []
  | n + 1 => .node ⟨volume, "b", false, false, none, ∅, ∅⟩ [chain n]

theorem reals_chain (n : Nat) : (chain n).reals = [] := by
  induction n with
  | zero => rfl
  | succ n ih =>
      have hchild : (ResultTree.preorderAll [chain n]).flatMap ResultNode.reals = [] := by
        rw [ResultTree.preorderAll, ResultTree.preorderAll, List.append_nil]
        exact ih
      exact hchild

theorem at_chain (n : Nat) : (chain n).At n (chain 0) := by
  induction n with
  | zero => exact .here _
  | succ n ih => exact .under (List.mem_singleton.mpr rfl) ih

/-- Sixty-four levels are written, and no text of them is read. -/
theorem not_readBack_chain :
    (∀ x ∈ (chain 63).reals, (Number.real x).ReadsBack) ∧
      (Json.parseWhole (chain 63).toJson.compact).bind ResultTree.ofJson? = none ∧
      (Json.parseWhole (chain 63).toJson.pretty).bind ResultTree.ofJson? = none := by
  have hreals : ∀ x ∈ (chain 63).reals, (Number.real x).ReadsBack := by
    rw [reals_chain]
    exact nofun
  have hdeep : ¬ (chain 63).toJson.height ≤ Json.maxHeight := by
    have hlow := ResultTree.le_height_toJson (at_chain 63)
    rw [Json.maxHeight]
    omega
  have hunread : ∀ spread,
      (Json.parseWhole (Json.write spread (chain 63).toJson)).bind ResultTree.ofJson? = none := by
    intro spread
    rw [Json.parseWhole_write spread ((chain 63).legible_toJson hreals), if_neg hdeep,
      Option.bind_none]
  exact ⟨hreals, hunread .line, hunread (.lines 0)⟩

end DataFormat

end Inventory
