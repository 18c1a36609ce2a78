import Inventory.Vertex
import Inventory.Text.LetterCase

/-!
# Edge — edges and directions

An edge runs from its out end to its in end under a label; true properties of
an edge are its tags. A direction is seen from one vertex.
-/

namespace Inventory

/-- The text that names an edge. -/
abbrev EdgeId := String

/-! ## Directions -/

/-- Which edges of a vertex are meant: those that leave it, those that enter it, or all. -/
inductive Direction where
  | outgoing
  | incoming
  | both
  deriving DecidableEq

namespace Direction

/-- The direction seen from the other end. -/
def opposite : Direction → Direction
  | .outgoing => .incoming
  | .incoming => .outgoing
  | .both => .both

/-- The word for a direction in the data format. -/
def name : Direction → String
  | .outgoing => "outgoing"
  | .incoming => "incoming"
  | .both => "both"

/-- The direction of a word in the data format, in exactly this letter case. -/
def ofName? (s : String) : Option Direction :=
  if s = "outgoing" then some .outgoing
  else if s = "incoming" then some .incoming
  else if s = "both" then some .both
  else none

/-- A text in any letter case that is no direction, in lower case. -/
structure Unknown where
  lowered : String
  deriving DecidableEq

/-- The refusal in words. -/
def Unknown.message (u : Unknown) : String := "unknown direction: " ++ u.lowered

/-- The direction a user names, in any letter case; `out` and `in` are short words. -/
def parse (s : String) : Except Unknown Direction :=
  let low := Text.lowercase s
  if low = "out" then .ok .outgoing
  else if low = "in" then .ok .incoming
  else match ofName? low with
    | some d => .ok d
    | none => .error ⟨low⟩

/-- A direction where the conventions may ask for more than its name. -/
def read? (c : Json.Conventions) : Json → Option Direction := c.choice? ofName?

/-- A direction from the data format. -/
def ofJson? : Json → Option Direction := read? .strict

end Direction

/-! ## Edges -/

/-- A directed, labelled edge. -/
structure Edge where
  id : EdgeId
  outId : VertexId
  inId : VertexId
  label : String
  properties : Properties := ∅
  deriving DecidableEq

namespace Edge

/-- The edge with one more tag. -/
def withTag (e : Edge) (tag : String) : Edge :=
  { e with properties := e.properties.put tag (.bool true) }

/-- Whether the property of that name is a true flag. -/
def hasTag (e : Edge) (tag : String) : Bool :=
  ((e.properties.get? tag).bind Property.flag?).getD false

/-- The end opposite to a vertex; a loop leads back to the vertex itself. -/
def otherEnd? (e : Edge) (id : VertexId) : Option VertexId :=
  if e.outId = id then some e.inId
  else if e.inId = id then some e.outId
  else none

/-- Whether the edge leaves or enters a vertex as the direction asks. -/
def runs (e : Edge) (id : VertexId) : Direction → Bool
  | .outgoing => e.outId == id
  | .incoming => e.inId == id
  | .both => e.outId == id || e.inId == id

/-- Whether a vertex is one of the two ends. -/
def touches (e : Edge) (id : VertexId) : Bool := e.outId == id || e.inId == id

/-! ## Data format -/

/-- The edge in the data format, its properties last. -/
def toJson (e : Edge) : Json :=
  .obj [("id", .str e.id), ("out_id", .str e.outId), ("in_id", .str e.inId),
    ("label", .str e.label), ("properties", Properties.toJson e.properties)]

/-- An edge from the data format; `freshId` is given to one without an id. -/
def ofJson? (freshId : EdgeId) (j : Json) : Option Edge := do
  let fs ← Json.fields? ["id", "out_id", "in_id", "label", "properties"] j
  let id ← Json.optional Json.text? "id" freshId fs
  let outId ← Json.required Json.text? "out_id" fs
  let inId ← Json.required Json.text? "in_id" fs
  let label ← Json.required Json.text? "label" fs
  let properties ← Json.optional Properties.ofJson? "properties" ∅ fs
  some ⟨id, outId, inId, label, properties⟩

end Edge

/-! ## Filters -/

/-- The mark of a tag that is meant against the direction of its edge. -/
def reverseMark : String := "-REV"

/-- Which edges a step over the graph follows. -/
inductive EdgeFilter where
  | any
  | label (l : String)
  | tag (t : String)
  deriving DecidableEq

namespace EdgeFilter

/-- The filter for a tag meant the other way round. -/
def reverseTag (t : String) : EdgeFilter := .tag (t ++ reverseMark)

/-- Whether an edge is followed. -/
def accepts : EdgeFilter → Edge → Bool
  | .any, _ => true
  | .label l, e => e.label == l
  | .tag t, e => e.hasTag t

end EdgeFilter

end Inventory
