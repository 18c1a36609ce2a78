import Inventory.Vertex
import Inventory.Text.Blank

/-!
# Trail — positions in a topology

A trail is the sequence of steps from the root of a topology. A step names a
node type and, for types that carry one, the persona an instance must have.
Tables are keyed by the text of a trail.
-/

namespace Inventory

/-! ## Steps -/

/-- One step of a trail: a node type and, where it matters, the model its instances are bound to. -/
structure TrailStep where
  nodeType : NodeType
  persona : Option Persona := none
  deriving DecidableEq

namespace TrailStep

/-- The texts a step is made of, most significant first. -/
def parts (s : TrailStep) : List String :=
  match s.persona with
  | some p => [s.nodeType, p.modelId, p.modelVersion]
  | none => [s.nodeType]

/-- The text of a step: its parts between commas. -/
def render (s : TrailStep) : String := Text.joined "," s.parts

/-- Steps are ordered by their parts, so a step without persona comes before
those of its type that have one. -/
def before (s t : TrailStep) : Bool := decide (s.parts < t.parts)

/-- Whether a vertex can stand at the step. -/
def fits (s : TrailStep) (v : Vertex) : Bool :=
  v.nodeType == s.nodeType && (s.persona.isNone || v.persona? == s.persona)

/-- The step in the data format; a persona that does not matter is left out. -/
def toJson (s : TrailStep) : Json :=
  .obj (("node_type", .str s.nodeType) :: match s.persona with
    | some p => [("persona", p.toJson)]
    | none => [])

/-- A step from the data format. -/
def ofJson? (j : Json) : Option TrailStep := do
  let fs ← Json.fields? ["node_type", "persona"] j
  let nodeType ← Json.required Json.text? "node_type" fs
  let persona ← Json.optional (Json.nullable? Persona.ofJson?) "persona" none fs
  some ⟨nodeType, persona⟩

theorem parts_injective {s t : TrailStep} (h : s.parts = t.parts) : s = t := by
  obtain ⟨a, p⟩ := s
  obtain ⟨b, q⟩ := t
  cases p <;> cases q <;> simp_all [parts]
  next p q => cases p; cases q; simp_all

end TrailStep

/-! ## Trails -/

/-- A path of steps from a root step. -/
structure Trail where
  root : TrailStep
  below : List TrailStep := []
  deriving DecidableEq

namespace Trail

/-- The trail one step longer. -/
def extend (t : Trail) (s : TrailStep) : Trail := { t with below := t.below ++ [s] }

/-- All steps, the root first. -/
def steps (t : Trail) : List TrailStep := t.root :: t.below

/-- The step that the trail ends with. -/
def last (t : Trail) : TrailStep := t.below.getLastD t.root

/-- The number of steps, the root among them. -/
def length (t : Trail) : Nat := t.below.length + 1

/-- The text that keys a trail: its steps between bars. -/
def key (t : Trail) : String := Text.joined "|" (t.steps.map TrailStep.render)

@[simp] theorem last_extend (t : Trail) (s : TrailStep) : (t.extend s).last = s := by
  simp [last, extend]

end Trail

end Inventory
