import Inventory.Text.Blank

/-!
# CommandLine — paths

A path is a text of names between slashes. Where it leads is up to a disk; here
stands what can be said of the text alone.
-/

namespace Inventory.Path

/-! ## Names -/

/-- The names of a path in order. Slashes next to each other part only once. -/
def names (path : String) : List String := (Text.split '/' path).filter (· ≠ "")

/-- Whether a path ends in a slash, so that only a directory can stand there. -/
def endsInSlash (path : String) : Bool := path.toList.getLast? == some '/'

/-- Names have fewer bytes than this. -/
def nameBound : Nat := 256

/-- Paths have fewer bytes than this. -/
def lengthBound : Nat := 4096

/-! ## Paths from paths -/

/-- The path of a name in a directory. -/
def inside (directory name : String) : String :=
  if directory = "" ∨ endsInSlash directory then directory ++ name
  else directory ++ "/" ++ name

/-- Drop the names at the end that lead nowhere else. -/
def withoutIdle (names : List String) : List String :=
  (names.reverse.dropWhile fun n => n == "" || n == ".").reverse

/-- What is left of the names of a path without the last one that counts. -/
def above? (names : List String) : Option (List String) :=
  match withoutIdle names with
  | [] => none
  | names => some (withoutIdle names.dropLast)

/-- The path of the directory that a path lies in. The root lies in none, and a
single name lies in the empty path. A dot counts only in front. -/
def parent? (path : String) : Option String :=
  match Text.split '/' path with
  | [""] => none
  | "" :: names => (above? names).map fun names => "/" ++ Text.joined "/" names
  | "." :: names =>
    match above? names with
    | some names => some (Text.joined "/" ("." :: names))
    | none => some ""
  | names => (above? names).map (Text.joined "/")

/-- A path and the ones it lies in, except the empty path; `fuel` bounds their number. -/
def upwards : Nat → String → List String
  | 0, _ => []
  | fuel + 1, path =>
    if path = "" then [] else path :: ((parent? path).map (upwards fuel)).getD []

/-- A path and the ones it lies in, the longest first. -/
def ancestors (path : String) : List String := upwards (path.length + 1) path

end Inventory.Path
