import Mathlib.Data.List.Forall2
import Inventory.Search.StartFilter
import Inventory.Proofs.Outcome
import Inventory.Proofs.Text.Pieces

/-!
# Search — the texts of start filters

A filter is read from every text whose part before the first colon is not blank
and in which every piece after it has an equals sign, and from no other text.
What is read is trimmed, so that the filter, written out again, is read as itself.
-/

namespace Inventory

open Text

namespace StartFilter

/-! ## Well-formed texts -/

/-- A piece states a property: the parts before and after its first equals sign
are a name and a value, but for the blanks around them. -/
def States (piece : List Char) (p : PropertyFilter) : Prop :=
  ∃ name value, piece = name ++ '=' :: value ∧ '=' ∉ name ∧
    Trims name p.1.toList ∧ Trims value p.2.toList

/-- The parts of a filter text: what stands before its first colon, which is all
of it when there is none, and the pieces between the commas after it. -/
inductive Parts : List Char → List Char → List (List Char) → Prop where
  | bare {cs : List Char} : ':' ∉ cs → Parts cs cs []
  | detailed {head rest : List Char} {pieces : List (List Char)} : ':' ∉ head →
      Divides ',' rest pieces → Parts (head ++ ':' :: rest) head pieces

/-- What stands before the colon is not blank, and every piece has an equals sign. -/
def WellFormed (cs : List Char) : Prop :=
  ∃ head pieces, Parts cs head pieces ∧ (∃ c ∈ head, isBlank c = false) ∧ ∀ p ∈ pieces, '=' ∈ p

/-- The text stands for the filter: its head is the type, but for the blanks around
it, and its pieces state the properties one after another. -/
def Reads (cs : List Char) (f : StartFilter) : Prop :=
  ∃ head pieces, Parts cs head pieces ∧ Trims head f.nodeType.toList ∧ f.nodeType ≠ "" ∧
    List.Forall₂ States pieces f.properties

/-! ## Written filters -/

/-- How a property is written. -/
def writtenProperty (p : PropertyFilter) : String := p.1 ++ "=" ++ p.2

/-- The text of a filter: its type and, after a colon, its properties between
commas. -/
def text (f : StartFilter) : String :=
  match f.properties with
  | [] => f.nodeType
  | p :: ps => f.nodeType ++ ":" ++ joined "," ((p :: ps).map writtenProperty)

/-! ## Reading -/

theorem states_iff {piece : List Char} {p : PropertyFilter} :
    States piece p ↔ parsePiece piece = some p := by
  obtain ⟨n, v⟩ := p
  unfold States parsePiece
  rw [Option.map_eq_some_iff]
  constructor
  · rintro ⟨name, value, rfl, hname, hn, hv⟩
    refine ⟨(name, value), cutAt_eq_some_iff.mpr ⟨rfl, hname⟩, ?_⟩
    simp only [trims_iff.mp hn, trims_iff.mp hv, String.ofList_toList]
  · rintro ⟨⟨name, value⟩, hcut, hp⟩
    obtain ⟨rfl, hname⟩ := cutAt_eq_some_iff.mp hcut
    obtain ⟨rfl, rfl⟩ := Prod.mk.inj hp
    refine ⟨name, value, rfl, hname, ?_, ?_⟩
    · simpa using trims_trimmed name
    · simpa using trims_trimmed value

theorem forall₂_states_iff {pieces : List (List Char)} {ps : List PropertyFilter} :
    List.Forall₂ States pieces ps ↔ pieces.mapM parsePiece = some ps := by
  rw [Outcome.mapM_eq_some]
  constructor
  · exact List.Forall₂.imp fun _ _ h => states_iff.mp h
  · exact List.Forall₂.imp fun _ _ h => states_iff.mpr h

theorem exists_states_iff {piece : List Char} : (∃ p, States piece p) ↔ '=' ∈ piece := by
  constructor
  · rintro ⟨p, name, value, rfl, -⟩
    simp
  · intro h
    cases hcut : cutAt '=' piece with
    | none => exact absurd h (cutAt_eq_none_iff.mp hcut)
    | some parts => exact ⟨_, states_iff.mpr (by rw [parsePiece, hcut]; rfl)⟩

/-- The pieces state properties exactly when each has an equals sign. -/
theorem exists_forall₂_states_iff {pieces : List (List Char)} :
    (∃ ps, List.Forall₂ States pieces ps) ↔ ∀ p ∈ pieces, '=' ∈ p := by
  induction pieces with
  | nil => simp
  | cons piece pieces ih =>
      rw [List.forall_mem_cons, ← ih, ← exists_states_iff]
      simp [List.forall₂_cons_left_iff]

theorem exists_parts (cs : List Char) : ∃ head pieces, Parts cs head pieces := by
  cases hcut : cutAt ':' cs with
  | none => exact ⟨cs, [], .bare (cutAt_eq_none_iff.mp hcut)⟩
  | some parts =>
      obtain ⟨head, rest⟩ := parts
      obtain ⟨rfl, hhead⟩ := cutAt_eq_some hcut
      exact ⟨head, pieces ',' rest, .detailed hhead (divides_pieces ',' rest)⟩

theorem Parts.sections_eq {cs head : List Char} {pieces : List (List Char)}
    (h : Parts cs head pieces) : sections cs = (trimmed head, pieces) := by
  cases h with
  | bare hcs => rw [sections, cutAt_eq_none_iff.mpr hcs]
  | detailed hhead hrest =>
      rw [sections, cutAt_eq_some_iff.mpr ⟨rfl, hhead⟩, ← divides_iff.mp hrest]

/-- What is read from a text with these parts. -/
theorem Parts.parse_eq_ok_iff {s : String} {f : StartFilter} {head : List Char}
    {pieces : List (List Char)} (h : Parts s.toList head pieces) :
    parse s = .ok f ↔ Trims head f.nodeType.toList ∧ f.nodeType ≠ "" ∧
      List.Forall₂ States pieces f.properties := by
  unfold parse
  rw [h.sections_eq, forall₂_states_iff, trims_iff]
  dsimp only
  split
  · next hblank =>
      constructor
      · intro hparse
        cases hparse
      · rintro ⟨htype, hne, -⟩
        exact absurd (String.toList_eq_nil_iff.mp (htype.symm.trans hblank)) hne
  · next hleft =>
      split
      · next ps hps =>
          rw [hps]
          constructor
          · intro hparse
            cases hparse
            exact ⟨String.toList_ofList.symm, mt String.ofList_eq_empty_iff.mp hleft, rfl⟩
          · rintro ⟨htype, -, hproperties⟩
            rw [htype, String.ofList_toList, Option.some.inj hproperties]
      · next hnone =>
          rw [hnone]
          constructor
          · intro hparse
            cases hparse
          · rintro ⟨-, -, hproperties⟩
            cases hproperties

/-- A text is read as the filter that it stands for. -/
theorem parse_eq_ok_iff {s : String} {f : StartFilter} : parse s = .ok f ↔ Reads s.toList f := by
  constructor
  · intro h
    obtain ⟨head, pieces, hparts⟩ := exists_parts s.toList
    exact ⟨head, pieces, hparts, hparts.parse_eq_ok_iff.mp h⟩
  · rintro ⟨head, pieces, hparts, hf⟩
    exact hparts.parse_eq_ok_iff.mpr hf

theorem exists_reads_iff {cs : List Char} : (∃ f, Reads cs f) ↔ WellFormed cs := by
  constructor
  · rintro ⟨f, head, pieces, hparts, htype, hne, hps⟩
    refine ⟨head, pieces, hparts, htype.ne_nil_iff.mp ?_,
      exists_forall₂_states_iff.mp ⟨_, hps⟩⟩
    exact mt String.toList_eq_nil_iff.mp hne
  · rintro ⟨head, pieces, hparts, hhead, hpieces⟩
    obtain ⟨ps, hps⟩ := exists_forall₂_states_iff.mpr hpieces
    refine ⟨⟨String.ofList (trimmed head), ps⟩, head, pieces, hparts, ?_, ?_, hps⟩
    · simpa using trims_trimmed head
    · exact mt String.ofList_eq_empty_iff.mp ((trims_trimmed head).ne_nil_iff.mpr hhead)

/-- What cannot be read is named by the error. -/
theorem parse_eq_error {s : String} {e : SearchError} (h : parse s = .error e) :
    e = .invalidFilter s := by
  unfold parse at h
  dsimp only at h
  split at h
  · cases h; rfl
  · split at h
    · cases h
    · cases h; rfl

/-! ## Reading what was written -/

theorem Parts.not_mem_head {cs head : List Char} {pieces : List (List Char)}
    (h : Parts cs head pieces) : ':' ∉ head := by
  cases h with
  | bare hcs => exact hcs
  | detailed hhead _ => exact hhead

theorem Parts.not_mem_pieces {cs head : List Char} {pieces : List (List Char)}
    (h : Parts cs head pieces) : ∀ p ∈ pieces, ',' ∉ p := by
  cases h with
  | bare _ => simp
  | detailed _ hrest => exact hrest.not_mem

/-- A property as it is written states itself. -/
theorem States.written {piece : List Char} {p : PropertyFilter} (h : States piece p) :
    States (writtenProperty p).toList p := by
  obtain ⟨name, value, rfl, hname, hn, hv⟩ := h
  exact ⟨p.1.toList, p.2.toList, by simp [writtenProperty], fun hc => hname (hn.subset hc),
    hn.again, hv.again⟩

/-- No comma gets into a property that is stated without one. -/
theorem States.not_mem_written {piece : List Char} {p : PropertyFilter} (h : States piece p)
    (hcomma : ',' ∉ piece) : ',' ∉ (writtenProperty p).toList := by
  obtain ⟨name, value, rfl, -, hn, hv⟩ := h
  simp only [List.mem_append, List.mem_cons, not_or] at hcomma
  have hn' : ',' ∉ p.1.toList := fun hc => hcomma.1 (hn.subset hc)
  have hv' : ',' ∉ p.2.toList := fun hc => hcomma.2.2 (hv.subset hc)
  simp [writtenProperty, hn', hv']

theorem toList_text (t : NodeType) (p : PropertyFilter) (ps : List PropertyFilter) :
    (text ⟨t, p :: ps⟩).toList =
      t.toList ++ ':' :: (joined "," ((p :: ps).map writtenProperty)).toList := by
  simp [text]

/-- The text of a filter that was read stands for the filter. -/
theorem Reads.reads_text {cs : List Char} {f : StartFilter} (h : Reads cs f) :
    Reads f.text.toList f := by
  obtain ⟨t, ps⟩ := f
  obtain ⟨head, pieces, hparts, htype, hne, hps⟩ := h
  have hcolon : ':' ∉ t.toList := fun hc => hparts.not_mem_head (htype.subset hc)
  have hstated : ∀ p ∈ ps, ∃ piece ∈ pieces, States piece p :=
    fun p hp => Outcome.exists_of_forall₂ hps.flip hp
  cases ps with
  | nil => exact ⟨t.toList, [], .bare hcolon, htype.again, hne, .nil⟩
  | cons p ps =>
      have hcommas : ∀ x ∈ (p :: ps).map writtenProperty, ',' ∉ x.toList := by
        intro x hx
        obtain ⟨q, hq, rfl⟩ := List.mem_map.mp hx
        obtain ⟨piece, hpiece, hstates⟩ := hstated q hq
        exact hstates.not_mem_written (hparts.not_mem_pieces piece hpiece)
      have hwritten : List.Forall₂ States
          (((p :: ps).map writtenProperty).map String.toList) (p :: ps) := by
        rw [List.map_map, List.forall₂_map_left_iff, List.forall₂_same]
        intro q hq
        obtain ⟨piece, -, hstates⟩ := hstated q hq
        exact hstates.written
      rw [toList_text]
      exact ⟨t.toList, _, .detailed hcolon (divides_joined hcommas), htype.again, hne, hwritten⟩

/-- **Start filters are read from the well-formed texts, and read again as
themselves.** A text is read exactly when it is well formed, as the one filter that
it stands for; any other is refused by name. The text of a filter that was read is
read as that filter, whatever colons and equals signs stand in its values. -/
theorem parse_reads (s : String) :
    ((∃ f, parse s = .ok f) ↔ WellFormed s.toList) ∧
      (∀ f, parse s = .ok f ↔ Reads s.toList f) ∧
      (∀ e, parse s = .error e ↔ ¬ WellFormed s.toList ∧ e = .invalidFilter s) ∧
      ∀ f, parse s = .ok f → parse f.text = .ok f := by
  have hok : (∃ f, parse s = .ok f) ↔ WellFormed s.toList := by
    simp only [parse_eq_ok_iff, exists_reads_iff]
  refine ⟨hok, fun f => parse_eq_ok_iff, fun e => ?_, fun f h => ?_⟩
  · rw [← hok]
    constructor
    · intro h
      refine ⟨?_, parse_eq_error h⟩
      rintro ⟨f, hf⟩
      rw [hf] at h
      cases h
    · rintro ⟨hnone, rfl⟩
      cases hparse : parse s with
      | ok f => exact absurd ⟨f, hparse⟩ hnone
      | error e => rw [parse_eq_error hparse]
  · exact parse_eq_ok_iff.mpr (parse_eq_ok_iff.mp h).reads_text

/-- Blanks around the parts go, the separators in a value stay. -/
theorem parse_reads_spaced :
    parse " pserver : hostname = a=b:c ,note=" =
        .ok ⟨"pserver", [("hostname", "a=b:c"), ("note", "")]⟩ ∧
      text ⟨"pserver", [("hostname", "a=b:c"), ("note", "")]⟩ = "pserver:hostname=a=b:c,note=" ∧
      parse "pserver:hostname=a=b:c,note=" =
        .ok ⟨"pserver", [("hostname", "a=b:c"), ("note", "")]⟩ := by
  have hparse : parse " pserver : hostname = a=b:c ,note=" =
      .ok ⟨"pserver", [("hostname", "a=b:c"), ("note", "")]⟩ := by decide +kernel
  obtain ⟨-, -, -, hagain⟩ := parse_reads " pserver : hostname = a=b:c ,note="
  exact ⟨hparse, rfl, hagain _ hparse⟩

end StartFilter

end Inventory
