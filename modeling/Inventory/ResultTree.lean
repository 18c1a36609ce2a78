import Inventory.Catalog

/-!
# ResultTree — what a walk finds

A result is a tree of nodes. A node holds a vertex, the trail it was found at,
and what is to be done with it: deleted, left out of the output, or shown with
some of its properties only.
-/

namespace Inventory

/-! ## What is shown -/

/-- How many of a node's properties are shown. -/
inductive PropertyLimit where
  | all
  | nothing
  | nameAndKeys
  deriving DecidableEq

namespace PropertyLimit

/-- The word in definitions and in the data format. -/
def name : PropertyLimit → String
  | .all => "SHOW-ALL"
  | .nothing => "SHOW-NONE"
  | .nameAndKeys => "SHOW-NAME-AND-KEYS-ONLY"

/-- The limit of a word in exactly this letter case. -/
def ofName? (s : String) : Option PropertyLimit :=
  if s = "SHOW-ALL" then some .all
  else if s = "SHOW-NONE" then some .nothing
  else if s = "SHOW-NAME-AND-KEYS-ONLY" then some .nameAndKeys
  else none

/-- The limit of a word in any letter case. -/
def parse (s : String) : Outcome PropertyLimit :=
  let up := Text.uppercase s
  match ofName? up with
  | some l => .ok l
  | none => .error (.invalidNamedQuery (.unknownPropertyLimit up))

end PropertyLimit

/-! ## Nodes -/

/-- A node of a result, without its children. -/
structure ResultNode where
  vertex : Vertex
  /-- The key of the trail the vertex was found at. -/
  trail : String
  delete : Bool := false
  doNotOutput : Bool := false
  propertyLimit : Option PropertyLimit := none
  /-- Properties that stand for the vertex's own ones, when there are any. -/
  overrides : Properties := ∅
  /-- Properties joined in from other vertices. -/
  extras : Properties := ∅
  deriving DecidableEq

namespace ResultNode

/-- The properties a reader of the result sees. -/
def visible (n : ResultNode) (c : Catalog) : Properties :=
  let base := if n.overrides.isEmpty then n.vertex.properties else n.overrides
  match n.propertyLimit with
  | some .nothing => ∅
  | some .nameAndKeys =>
    let keys := c.keyProperties n.vertex.nodeType
    (base.filter fun k _ => keys.contains k || k.endsWith "-name").putAll n.extras.entries
  | _ => base.putAll n.extras.entries

/-- Whether the node is a vertex of the type with an agreeing property. -/
def agrees (n : ResultNode) (nodeType : NodeType) (name value : String) : Bool :=
  n.vertex.nodeType == nodeType && n.vertex.agrees name value

end ResultNode

/-! ## Trees -/

/-- A node with the results found below it. -/
inductive ResultTree where
  | node (top : ResultNode) (children : List ResultTree)

namespace ResultTree

/-- The node at the top. -/
def top : ResultTree → ResultNode
  | .node n _ => n

/-- The trees right below the top. -/
def children : ResultTree → List ResultTree
  | .node _ cs => cs

mutual

/-- All nodes, each before those below it. -/
def preorder : ResultTree → List ResultNode
  | .node n cs => n :: preorderAll cs

/-- The nodes of trees, one tree after another. -/
def preorderAll : List ResultTree → List ResultNode
  | [] => []
  | t :: ts => t.preorder ++ preorderAll ts

end

mutual

/-- All nodes, each after those below it. -/
def postorder : ResultTree → List ResultNode
  | .node n cs => postorderAll cs ++ [n]

/-- The nodes of trees, each tree from below. -/
def postorderAll : List ResultTree → List ResultNode
  | [] => []
  | t :: ts => t.postorder ++ postorderAll ts

end

/-- The number of nodes. -/
def size (t : ResultTree) : Nat := t.preorder.length

/-- The ids of all vertices, in preorder. -/
def ids (t : ResultTree) : List VertexId := t.preorder.map (·.vertex.id)

/-- Whether some node is a vertex of the type with an agreeing property. -/
def anyMatches (t : ResultTree) (nodeType : NodeType) (name value : String) : Bool :=
  t.preorder.any (·.agrees nodeType name value)

mutual

/-- Put the children of every node that is not for output in its place. -/
def collapse : ResultTree → List ResultTree
  | .node n cs => if n.doNotOutput then collapseAll cs else [.node n (collapseAll cs)]

/-- What is left of trees, side by side. -/
def collapseAll : List ResultTree → List ResultTree
  | [] => []
  | t :: ts => t.collapse ++ collapseAll ts

end

/-! ## Data format -/

/-- The fields of a node; those that are usually empty only when they are not. -/
def nodeFields (n : ResultNode) : List (String × Json) :=
  [("vertex", n.vertex.toJson), ("trail", .str n.trail), ("delete", .bool n.delete),
    ("do_not_output", .bool n.doNotOutput)]
  ++ (match n.propertyLimit with
    | some l => [("property_limit", .str l.name)]
    | none => [])
  ++ (if n.overrides.isEmpty then [] else [("property_overrides", Properties.toJson n.overrides)])
  ++ (if n.extras.isEmpty then [] else [("extra_properties", Properties.toJson n.extras)])

mutual

/-- The fields of the top, and then its children. -/
def toJson : ResultTree → Json
  | .node n cs => .obj (nodeFields n ++ [("children", .arr (toJsonAll cs))])

/-- The trees one after another. -/
def toJsonAll : List ResultTree → List Json
  | [] => []
  | t :: ts => t.toJson :: toJsonAll ts

end

/-- The field names of a tree, in declared order. -/
def fieldNames : List String :=
  ["vertex", "trail", "delete", "do_not_output", "property_limit", "property_overrides",
    "extra_properties", "children"]

/-- A tree at most `levels` deep from the data format. -/
def ofJsonWithin? : Nat → Json → Option ResultTree
  | 0, _ => none
  | levels + 1, j => do
    let fs ← Json.fields? fieldNames j
    let vertex ← Json.required Vertex.ofJson? "vertex" fs
    let trail ← Json.required Json.text? "trail" fs
    let delete ← Json.optional Json.truth? "delete" false fs
    let doNotOutput ← Json.optional Json.truth? "do_not_output" false fs
    let limit ← Json.optional (Json.nullable? (Json.choice? PropertyLimit.ofName?))
      "property_limit" none fs
    let overrides ← Json.optional Properties.ofJson? "property_overrides" ∅ fs
    let extras ← Json.optional Properties.ofJson? "extra_properties" ∅ fs
    let children ← Json.optional (Json.list? (ofJsonWithin? levels)) "children" [] fs
    some (.node ⟨vertex, trail, delete, doNotOutput, limit, overrides, extras⟩ children)

/-- A tree from the data format; no tree is deeper than the value it is read from. -/
def ofJson? (j : Json) : Option ResultTree := ofJsonWithin? (j.height + 1) j

end ResultTree

end Inventory
