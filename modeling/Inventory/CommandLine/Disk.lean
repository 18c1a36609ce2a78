import Inventory.CommandLine.Path
import Inventory.Table

/-!
# CommandLine — disks

A disk is a table of files and directories by place. A path is followed name by
name: every name but the last must be that of a directory, two dots lead back to
the directory above, and one dot stays.
-/

namespace Inventory

/-! ## Faults -/

/-- Why a file operation fails. -/
inductive FileFault where
  | missing
  | taken
  | notDirectory
  | isDirectory
  | nameTooLong
  /-- The bytes of a file are no text. -/
  | notText
  | other (text : String)
  deriving DecidableEq

/-- The fault in words, with the number that the operating system gives it. -/
def FileFault.message : FileFault → String
  | .missing => "No such file or directory (os error 2)"
  | .taken => "File exists (os error 17)"
  | .notDirectory => "Not a directory (os error 20)"
  | .isDirectory => "Is a directory (os error 21)"
  | .nameTooLong => "File name too long (os error 36)"
  | .notText => "stream did not contain valid UTF-8"
  | .other text => text

/-! ## Entries -/

/-- What a file holds: a text, or the archive of a store, which is no text. -/
inductive FileContent where
  | text (s : String)
  | archive (s : String)
  deriving DecidableEq

/-- What stands at a place. -/
inductive DiskEntry where
  | file (c : FileContent)
  | directory
  deriving DecidableEq

/-- Files and directories by place. -/
abbrev Disk := Table DiskEntry

namespace Disk

/-! ## Following paths -/

/-- The key of the place that names lead to from the root. -/
def key (place : List String) : String := Text.joined "/" place

/-- What stands at a place; the root is a directory. -/
def entry? (d : Disk) : List String → Option DiskEntry
  | [] => some .directory
  | place => d.get? (key place)

/-- Follow one name from a place, which must be a directory. -/
def step (d : Disk) (here : List String) (name : String) : Except FileFault (List String) :=
  match d.entry? here with
  | none => .error .missing
  | some (.file _) => .error .notDirectory
  | some .directory =>
    if name = "." then .ok here
    else if name = ".." then .ok here.dropLast
    else if name.utf8ByteSize < Path.nameBound then .ok (here ++ [name])
    else .error .nameTooLong

/-- Follow names from the root, which were taken from a path. -/
def follow (d : Disk) (path : String) (names : List String) : Except FileFault (List String) :=
  if path = "" then .error .missing
  else if Path.lengthBound ≤ path.utf8ByteSize then .error .nameTooLong
  else names.foldlM d.step []

/-- The place that a path leads to. Something need not stand there yet, but it
lies in a directory. -/
def locate (d : Disk) (path : String) : Except FileFault (List String) :=
  d.follow path (Path.names path)

/-! ## Operations -/

/-- What the file at a path holds. -/
def read (d : Disk) (path : String) : Except FileFault FileContent := do
  match d.entry? (← d.locate path) with
  | none => .error .missing
  | some .directory => .error .isDirectory
  | some (.file c) => if Path.endsInSlash path then .error .notDirectory else .ok c

/-- Put a file at a path, in the place of the one that stands there. A path that
ends in a slash is refused when the way to its last name is open. -/
def write (d : Disk) (path : String) (c : FileContent) : Except FileFault Disk := do
  if Path.endsInSlash path then
    let _ ← d.follow path ((Path.names path).dropLast ++ ["."])
    .error .isDirectory
  else
    let place ← d.locate path
    if d.entry? place = some .directory then .error .isDirectory
    else .ok (d.put (key place) (.file c))

/-- Make a directory where nothing stands. -/
def makeDirectory (d : Disk) (path : String) : Except FileFault Disk := do
  let place ← d.locate path
  match d.entry? place with
  | some _ => .error .taken
  | none => .ok (d.put (key place) .directory)

/-- Go on with a changed disk, or with the old one after a fault. -/
def changed (d : Disk) : Except FileFault Disk → Except FileFault Unit × Disk
  | .ok d => (.ok (), d)
  | .error f => (.error f, d)

end Disk

end Inventory
