import Inventory.CommandLine.Disk

/-!
# CommandLine — scripts over files

What a command does to files is a script: a tree of file operations in which
each answer decides how it goes on. A script runs on a disk; the outermost layer
performs it on real files.
-/

namespace Inventory

/-! ## Scripts -/

/-- File operations that end in a value. -/
inductive Script (α : Type) where
  | done (a : α)
  | read (path : String) (next : Except FileFault FileContent → Script α)
  | write (path : String) (c : FileContent) (next : Except FileFault Unit → Script α)
  /-- Make one directory, not the ones it lies in. -/
  | makeDirectory (path : String) (next : Except FileFault Unit → Script α)

namespace Script

variable {α β : Type}

/-- One script after another. -/
def bind : Script α → (α → Script β) → Script β
  | .done a, f => f a
  | .read p next, f => .read p fun r => (next r).bind f
  | .write p c next, f => .write p c fun r => (next r).bind f
  | .makeDirectory p next, f => .makeDirectory p fun r => (next r).bind f

instance : Monad Script where
  pure := .done
  bind := bind

/-- Run a script on a disk; what it changes shows in what it reads later. -/
def run : Script α → Disk → α × Disk
  | .done a, d => (a, d)
  | .read p next, d => (next (d.read p)).run d
  | .write p c next, d => let (r, d) := d.changed (d.write p c); (next r).run d
  | .makeDirectory p next, d => let (r, d) := d.changed (d.makeDirectory p); (next r).run d

/-! ## Small scripts -/

/-- Whether something stands at a path. -/
def isPresent (path : String) : Script Bool :=
  .read path fun
    | .ok _ | .error .isDirectory | .error .notText => .done true
    | .error _ => .done false

/-- Whether a directory stands at a path. -/
def isDirectory (path : String) : Script Bool :=
  .read path fun
    | .error .isDirectory => .done true
    | _ => .done false

/-- Make the first directory of a list. When it does not lie in a directory, those
further on are made before it. One that is there already is no fault. -/
def makeFirst : List String → Script (Except FileFault Unit)
  | [] => .done (.ok ())
  | path :: above =>
    .makeDirectory path fun
      | .ok () => .done (.ok ())
      | .error .missing => (makeFirst above).bind fun
        | .error f => .done (.error f)
        | .ok () => .makeDirectory path (settled path)
      | .error f => settled path (.error f)
where
  /-- What came of making a directory, unless it is there now. -/
  settled (path : String) : Except FileFault Unit → Script (Except FileFault Unit)
    | .ok () => .done (.ok ())
    | .error f => (isDirectory path).bind fun there => .done (if there then .ok () else .error f)

/-- Make a directory and the directories it lies in. -/
def makeDirectories (path : String) : Script (Except FileFault Unit) :=
  makeFirst (Path.ancestors path)

end Script

end Inventory
