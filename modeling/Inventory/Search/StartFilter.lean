import Inventory.Graph.Basic

/-!
# Search — start filters

A search starts at the vertices of one type that have given property values.
For two properties whose stored values may differ in letter case a miss is
tried again in upper and then in lower case.
-/

namespace Inventory

/-! ## Errors -/

/-- Why a search fails. -/
inductive SearchError where
  | invalidFilter (text : String)
  | noStartVertex (wanted : String)
  | maxLevelsExceeded (max : Nat)
  | graph (e : Error)
  deriving DecidableEq

namespace SearchError

/-- The error in words, as a user sees it. -/
def message : SearchError → String
  | .invalidFilter text => "Invalid start filter: " ++ text
  | .noStartVertex wanted => "No start vertex found for " ++ wanted
  | .maxLevelsExceeded max => "Search exceeded " ++ toString max ++ " levels"
  | .graph e => e.message

/-- What a caller decides on. -/
def kind : SearchError → ErrorKind
  | .invalidFilter _ => .configuration
  | .noStartVertex _ => .notFound
  | .maxLevelsExceeded _ => .limitExceeded
  | .graph e => e.kind

/-- The word for an error in the data format. -/
def name : SearchError → String
  | .invalidFilter _ => "InvalidFilter"
  | .noStartVertex _ => "NoStartVertex"
  | .maxLevelsExceeded _ => "MaxLevelsExceeded"
  | .graph _ => "Graph"

/-- Name, kind and message of an error. -/
def toJson (e : SearchError) : Json :=
  .obj [("error", .str e.name), ("kind", .str e.kind.name), ("message", .str e.message)]

end SearchError

/-- The outcome of a search. -/
abbrev SearchOutcome (α : Type) := Except SearchError α

/-- The outcome of a graph operation within a search. -/
def Outcome.toSearch {α : Type} (o : Outcome α) : SearchOutcome α := o.mapError .graph

/-! ## Filters -/

/-- A node type and the property values a start vertex must have. -/
structure StartFilter where
  nodeType : NodeType
  properties : List PropertyFilter := []
  deriving DecidableEq

namespace StartFilter

/-- One `name=value` piece, blanks around both parts left out. -/
def parsePiece (piece : List Char) : Option PropertyFilter :=
  (Text.cutAt '=' piece).map fun (n, v) =>
    (String.ofList (Text.trimmed n), String.ofList (Text.trimmed v))

/-- The type and the pieces after it; nothing when there is no colon. -/
def sections (cs : List Char) : List Char × List (List Char) :=
  match Text.cutAt ':' cs with
  | some (t, rest) => (Text.trimmed t, Text.pieces ',' rest)
  | none => (Text.trimmed cs, [])

/-- Read `type` or `type:name=value,...`. -/
def parse (s : String) : SearchOutcome StartFilter :=
  let (t, pieces) := sections s.toList
  if t = [] then .error (.invalidFilter s)
  else match pieces.mapM parsePiece with
    | some properties => .ok ⟨String.ofList t, properties⟩
    | none => .error (.invalidFilter s)

/-- A filter from the data format, in which nothing is trimmed. -/
def ofJson? (j : Json) : Option StartFilter := do
  let fs ← Json.fields? ["node_type", "properties"] j
  let nodeType ← Json.required Json.text? "node_type" fs
  let properties ← Json.optional (Json.list? (Json.pair? Json.text? Json.text?))
    "properties" [] fs
  some ⟨nodeType, properties⟩

/-- The filter as errors name it. -/
def described (f : StartFilter) : String :=
  f.nodeType ++ " [" ++ Text.joined ", " (f.properties.map fun (n, v) => n ++ "=" ++ v) ++ "]"

/-! ## Letter case -/

/-- Whether stored values of a property may differ in letter case. -/
def ignoresCase (t : NodeType) (name : String) : Bool :=
  (t == "pserver" && name == "hostname") || (t == "generic-vnf" && name == "vnf-name")

/-- Change the value of the first property whose case may differ. -/
def recase (t : NodeType) (f : String → String) : List PropertyFilter → List PropertyFilter
  | [] => []
  | (n, v) :: rest =>
    if ignoresCase t n then (n, f v) :: rest else (n, v) :: recase t f rest

/-- The value of the first property whose case may differ. -/
def casedValue? (f : StartFilter) : Option String :=
  (f.properties.find? fun p => ignoresCase f.nodeType p.1).map (·.2)

/-- The property lists to look for, in order: as given, then in upper and in
lower case where that changes the value. -/
def attempts (f : StartFilter) : List (List PropertyFilter) :=
  f.properties :: match f.casedValue? with
    | none => []
    | some v => ([Text.uppercase, Text.lowercase].filter fun c => c v ≠ v).map
        fun c => recase f.nodeType c f.properties

/-! ## Start vertices -/

/-- The vertices of the first attempt that finds any. -/
def starts (g : Graph) (f : StartFilter) : SearchOutcome (List Vertex) :=
  match (f.attempts.map (g.find f.nodeType)).find? (!·.isEmpty) with
  | some vs => .ok vs
  | none => .error (.noStartVertex f.described)

end StartFilter

end Inventory
