import Inventory.CommandLine.Run

/-!
# Main — the program

Performs scripts on real files, finds the places of the user's files, and
prints replies.
-/

namespace Inventory.Program

open CommandLine

/-! ## Files -/

/-- The fault of an error that the operating system reports. -/
def faultOf : IO.Error → FileFault
  | .noFileOrDirectory .. => .missing
  | .alreadyExists .. => .taken
  | .inappropriateType _ 20 _ => .notDirectory
  | .inappropriateType _ 21 _ => .isDirectory
  | .invalidArgument _ 36 _ => .nameTooLong
  | e => .other (toString e)

/-- A byte that no text has, in front of every archive. -/
def archiveMark : UInt8 := 0xFF

/-- The bytes of a file: an archive is told from a text by the mark in front. -/
def bytesOf : FileContent → ByteArray
  | .text s => s.toUTF8
  | .archive s => ByteArray.mk #[archiveMark] ++ s.toUTF8

/-- What the bytes of a file are. -/
def contentOf (bytes : ByteArray) : Except FileFault FileContent :=
  let (isArchive, body) :=
    if bytes.data[0]? = some archiveMark then (true, bytes.extract 1 bytes.size)
    else (false, bytes)
  match String.fromUTF8? body with
  | none => .error .notText
  | some s => .ok (if isArchive then .archive s else .text s)

/-- The outcome of a file operation. -/
def attempt {α : Type} (act : IO α) : IO (Except FileFault α) := do
  try
    return .ok (← act)
  catch e => return .error (faultOf e)

/-- Carry a script out on real files. -/
def perform {α : Type} : Script α → IO α
  | .done a => return a
  | .read path next => do
    let bytes ← attempt (IO.FS.readBinFile path)
    perform (next (bytes.bind contentOf))
  | .write path c next => do
    perform (next (← attempt (IO.FS.writeBinFile path (bytesOf c))))
  | .makeDirectory path next => do perform (next (← attempt (IO.FS.createDir path)))

/-! ## Surroundings -/

/-- A directory of the user's: the one an environment variable names, or one in
the home directory. -/
def userDirectory (name fallback : String) : IO String := do
  match ← IO.getEnv name, ← IO.getEnv "HOME" with
  | some directory, _ => return directory
  | none, some home => return Path.inside home fallback
  | none, none => return "."

/-- Ids that no other run gives. -/
def freshIds : IO (Nat → EdgeId) := do
  let bytes ← IO.getRandomBytes 12
  let start := String.ofList (bytes.toList.flatMap fun b => Nat.toDigits 16 (b.toNat + 256))
  return fun n => start ++ "-" ++ toString n

/-- What the program finds in its surroundings. -/
def environment : IO Environment := do
  let config ← userDirectory "XDG_CONFIG_HOME" ".config"
  let data ← userDirectory "XDG_DATA_HOME" ".local/share"
  let usual := Path.inside (Path.inside config "inventory") "config.toml"
  return {
    banner := "inventory 0.1.0"
    settingsPath := (← IO.getEnv "INVENTORY_CONFIG").getD usual
    dataDir := ← IO.getEnv "INVENTORY_DATA_DIR"
    defaultDataDir := Path.inside data "inventory"
    storeName := "inventory.store"
    freshId := ← freshIds }

end Inventory.Program

open Inventory in
/-- Respond to the arguments, print the reply and answer its code. -/
def main (args : List String) : IO UInt32 := do
  let env ← Program.environment
  let reply ← Program.perform (CommandLine.respond env args)
  (← IO.getStdout).putStr reply.output
  match reply.error with
  | some e => IO.eprintln ("Error: " ++ e.message)
  | none => if reply.code = 2 then IO.eprint (CommandLine.usage env)
  return reply.code.toUInt32
