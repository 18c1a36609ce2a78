import Inventory.ResultTree
import Inventory.Topology
import Inventory.Removal.Pass

/-!
# Report — results as lines of text

Each line ends in a line break. A tree is indented by two spaces per level.
-/

namespace Inventory.Report

/-! ## Trees -/

/-- The properties of a node in braces, when there are any to be seen. -/
def propertiesText (c : Catalog) (n : ResultNode) : String :=
  match (n.visible c).entries with
  | [] => ""
  | shown =>
    " \x7b" ++ Text.joined ", " (shown.map fun (k, p) => k ++ "=" ++ p.shown) ++ "\x7d"

/-- The line of a node at a depth; properties are shown only with a catalog. -/
def nodeLine (catalog : Option Catalog) (depth : Nat) (n : ResultNode) : String :=
  String.ofList (List.replicate (2 * depth) ' ') ++ n.vertex.described
    ++ (if n.delete then " [delete]" else "")
    ++ (match catalog with
      | some c => propertiesText c n
      | none => "")
    ++ "\n"

mutual

/-- The lines of a tree whose top is at a depth. -/
def treeLines (catalog : Option Catalog) (depth : Nat) : ResultTree → String
  | .node n cs => nodeLine catalog depth n ++ forestLines catalog (depth + 1) cs

/-- The lines of trees whose tops are at one depth. -/
def forestLines (catalog : Option Catalog) (depth : Nat) : List ResultTree → String
  | [] => ""
  | t :: ts => treeLines catalog depth t ++ forestLines catalog depth ts

end

/-- The lines of a tree. -/
def tree (catalog : Option Catalog) (t : ResultTree) : String := treeLines catalog 0 t

/-- The lines of trees, one below the other. -/
def trees (catalog : Option Catalog) (ts : List ResultTree) : String := forestLines catalog 0 ts

/-! ## Tables -/

/-- Texts as lines, each with its break. -/
def lines (ls : List String) : String := Text.joined "" (ls.map (· ++ "\n"))

/-- The root of a topology, then every trail with each of its next steps. -/
def topology (t : Topology) : String :=
  lines (("root: " ++ t.root.render) ::
    t.rendered.entries.flatMap fun (trail, steps) => steps.map fun s => trail ++ " -> " ++ s)

/-- Every trail with its delete flag. -/
def flags (f : DeleteFlags) : String :=
  lines (f.entries.map fun (trail, b) => trail ++ ": " ++ if b then "true" else "false")

/-- Every removed vertex with its description. -/
def removed (r : Removed) : String :=
  lines (r.entries.map fun (id, d) => id ++ "  " ++ d)

/-- The descriptions of vertices. -/
def vertices (vs : List Vertex) : String := lines (vs.map Vertex.described)

end Inventory.Report
