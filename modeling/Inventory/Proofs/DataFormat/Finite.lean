import Inventory.Proofs.DataFormat.Records
import Inventory.Proofs.Json.Finite

/-!
# DataFormat — records that are read are finite

What is read from a text holds no double that is infinite or not a number, and so
no value whose written form could not be read again.
-/

namespace Inventory

variable {j : Json}

/-! ## Properties -/

namespace Property

/-- A value is read from its form exactly when it is no double that is infinite or
not a number. -/
theorem isReadable_iff {p : Property} : p.isReadable = true ↔ ∀ x ∈ p.reals, x.isFinite = true := by
  constructor
  · intro h x hx
    cases p with
    | real y =>
      obtain rfl := List.mem_singleton.mp hx
      by_contra hinf
      rw [isReadable, toJson, if_neg hinf] at h
      cases h
    | _ => cases hx
  · intro h
    rw [isReadable, ofJson?_toJson h]
    rfl

theorem isReadable_real (x : Float) : (Property.real x).isReadable = x.isFinite := by
  rw [Bool.eq_iff_iff, isReadable_iff]
  simp [reals]

/-- A number that is too large for 64 signed bits is rounded, and stays finite. -/
theorem isReadable_ofNumber {n : Json.Number} (hn : n.IsFinite) : (ofNumber n).isReadable := by
  cases n with
  | whole n =>
    rw [ofNumber]
    split
    · exact isReadable_iff.mpr fun x hx => by cases hx
    · rw [isReadable_real]
      split
      · exact Double.isFinite_neg (Double.isFinite_toReal _)
      · exact Double.isFinite_toReal _
  | real x => exact (isReadable_real x).trans hn

theorem isReadable_ofJson? {p : Property} (hj : j.IsFinite) (h : ofJson? j = some p) :
    p.isReadable := by
  cases j with
  | num n =>
    cases h
    exact isReadable_ofNumber hj
  | arr items =>
    obtain ⟨texts, -, rfl⟩ := Option.map_eq_some_iff.mp h
    exact isReadable_iff.mpr nofun
  | bool _ | str _ =>
    cases h
    exact isReadable_iff.mpr nofun
  | null | obj _ | unreadable => cases h

end Property

namespace Properties

variable {ps : Properties}

theorem isFinite_reals_iff :
    (∀ x ∈ ps.reals, x.isFinite = true) ↔ ∀ p ∈ ps.values, p.isReadable = true := by
  simp only [reals, List.mem_flatMap, Property.isReadable_iff]
  exact ⟨fun h p hp x hx => h x ⟨p, hp, hx⟩, fun h x ⟨p, hp, hx⟩ => h p hp x hx⟩

theorem isFinite_ofJson? (hj : j.IsFinite) (h : ofJson? j = some ps) :
    ∀ x ∈ ps.reals, x.isFinite = true := by
  refine isFinite_reals_iff.mpr fun p hp => ?_
  obtain ⟨w, hw, hread⟩ := Json.of_table?_eq_some h hj p hp
  exact Property.isReadable_ofJson? hw hread

/-- Properties that may be left out are finite where they are given. -/
theorem isFinite_optional {name : String} {fs : List (String × Json)}
    (hfs : ∀ m ∈ fs, m.2.IsFinite) (h : Json.optional ofJson? name ∅ fs = some ps) :
    ∀ x ∈ ps.reals, x.isFinite = true := by
  obtain rfl | ⟨m, hm, hread⟩ := Json.optional_eq_some h
  · exact nofun
  · exact isFinite_ofJson? (hfs m hm) hread

end Properties

/-! ## Vertices, edges and snapshots -/

theorem Vertex.isFinite_ofJson? {v : Vertex} (hj : j.IsFinite) (h : ofJson? j = some v) :
    ∀ x ∈ v.properties.reals, x.isFinite = true := by
  simp only [ofJson?, Option.bind_eq_bind, Option.bind_eq_some_iff] at h
  obtain ⟨fs, hfs, id, -, nodeType, -, ps, hps, heq⟩ := h
  cases heq
  exact Properties.isFinite_optional (Json.isFinite_fields? hj hfs) hps

theorem Edge.isFinite_ofJson? {freshId : EdgeId} {e : Edge} (hj : j.IsFinite)
    (h : ofJson? freshId j = some e) : ∀ x ∈ e.properties.reals, x.isFinite = true := by
  simp only [ofJson?, Option.bind_eq_bind, Option.bind_eq_some_iff] at h
  obtain ⟨fs, hfs, id, -, outId, -, inId, -, label, -, ps, hps, heq⟩ := h
  cases heq
  exact Properties.isFinite_optional (Json.isFinite_fields? hj hfs) hps

namespace Snapshot

variable {freshId : Nat → EdgeId}

/-- The edges of an array come from its items. -/
theorem of_edgesOfJson?_eq_some {es : List Edge} (h : edgesOfJson? freshId j = some es)
    (hj : j.IsFinite) :
    ∀ e ∈ es, ∃ (w : Json) (n : Nat), w.IsFinite ∧ Edge.ofJson? (freshId n) w = some e := by
  cases j with
  | arr items =>
    intro e he
    obtain ⟨⟨w, n⟩, hw, hread⟩ :=
      Outcome.exists_of_forall₂ (Outcome.mapM_eq_some.mp h).flip he
    have hitem : w ∈ items := List.fst_mem_of_mem_zipIdx hw
    exact ⟨w, n, Json.isFinite_arr.mp hj w hitem, hread⟩
  | _ => cases h

/-- **A snapshot that is read is finite.** -/
theorem isFinite_ofJson? {s : Snapshot} (hj : j.IsFinite) (h : ofJson? freshId j = some s) :
    ∀ x ∈ s.reals, x.isFinite = true := by
  simp only [ofJson?, Option.bind_eq_bind, Option.bind_eq_some_iff] at h
  obtain ⟨fs, hfs, vertices, hvertices, edges, hedges, heq⟩ := h
  cases heq
  have hfields := Json.isFinite_fields? hj hfs
  intro x hx
  rcases List.mem_append.mp hx with hx | hx
  · obtain ⟨v, hv, hx⟩ := List.mem_flatMap.mp hx
    obtain rfl | ⟨m, hm, hlist⟩ := Json.optional_eq_some hvertices
    · cases hv
    · obtain ⟨w, hw, hread⟩ := Json.of_list?_eq_some hlist (hfields m hm) v hv
      exact Vertex.isFinite_ofJson? hw hread x hx
  · obtain ⟨e, he, hx⟩ := List.mem_flatMap.mp hx
    obtain rfl | ⟨m, hm, hlist⟩ := Json.optional_eq_some hedges
    · cases he
    · obtain ⟨w, n, hw, hread⟩ := of_edgesOfJson?_eq_some hlist (hfields m hm) e he
      exact Edge.isFinite_ofJson? hw hread x hx

end Snapshot

end Inventory
