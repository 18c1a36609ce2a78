import Inventory.CommandLine.Command
import Inventory.CommandLine.Script
import Inventory.Report
import Inventory.Storage.Archive
import Inventory.Storage.Change
import Inventory.Text.Quoted

/-!
# CommandLine — running commands

What each command does and prints. A command about settings touches the
settings file only; every other one loads the settings, makes the data
directory and opens the store in it before it begins.
-/

namespace Inventory.CommandLine

/-! ## Replies -/

/-- Why a command fails. -/
inductive CommandError where
  | file (f : FileFault)
  | engine (e : Error)
  | search (e : SearchError)
  | store (e : StoreError)
  | change (f : ChangeFault)
  | settings (e : SettingsError)
  | invalidSettings (path : String)
  | settingsPresent (path : String)
  /-- The file of the store cannot be opened. -/
  | storeFile (f : FileFault)
  /-- The file of the store holds no archive. -/
  | invalidStore
  /-- The file to take in holds no graph. -/
  | notGraph (path : String)
  deriving DecidableEq

/-- The failure in words, as a user sees it. -/
def CommandError.message : CommandError → String
  | .file f => f.message
  | .engine e => e.message
  | .search e => e.message
  | .store e => e.message
  | .change f => f.message
  | .settings e => e.message
  | .invalidSettings path => "Invalid config file " ++ path
  | .settingsPresent path =>
    "Config file already exists at " ++ path ++ ". Use --force to overwrite."
  | .storeFile f => "Database error: I/O error: " ++ f.message
  | .invalidStore => "Database error: I/O error: invalid data"
  | .notGraph path => "No graph in " ++ path

/-- What a program ends with. -/
structure Reply where
  /-- 0 for success, 1 for a failure, 2 for arguments that lead to no command. -/
  code : Nat
  output : String := ""
  error : Option CommandError := none

/-- What a program knows besides its arguments. -/
structure Environment where
  /-- The program's name and version. -/
  banner : String
  /-- The settings file used unless one is given. -/
  settingsPath : String
  /-- The data directory that goes before the one in the settings. -/
  dataDir : Option String := none
  /-- The data directory used when nothing else names one. -/
  defaultDataDir : String
  /-- The name of the store's file in a data directory. -/
  storeName : String
  /-- The id of an edge that comes without one, by its place. -/
  freshId : Nat → EdgeId

/-- A part of a command that may fail. -/
abbrev Action := ExceptT CommandError Script

namespace Action

variable {α ε : Type}

/-- The outcome of a computation. -/
def ofExcept (wrap : ε → CommandError) (r : Except ε α) : Action α :=
  ExceptT.mk (.done (r.mapError wrap))

/-- The text of a file. -/
def read (path : String) : Action String :=
  ExceptT.mk (.read path fun
    | .ok (.text s) => .done (.ok s)
    | .ok (.archive _) => .done (.error (.file .notText))
    | .error f => .done (.error (.file f)))

/-- What a file holds, or why it cannot be read. -/
def look (path : String) : Action (Except FileFault FileContent) :=
  ExceptT.mk (.read path fun r => .done (.ok r))

/-- Write a file; a fault is wrapped as the command names it. -/
def write (path : String) (c : FileContent) (wrap : FileFault → CommandError) : Action Unit :=
  ExceptT.mk (.write path c fun r => .done (r.mapError wrap))

/-- Make a directory and those it lies in. -/
def makeDirectories (path : String) : Action Unit :=
  ExceptT.mk ((Script.makeDirectories path).bind fun r => .done (r.mapError .file))

/-- Whether something stands at a path. -/
def isPresent (path : String) : Action Bool :=
  ExceptT.mk ((Script.isPresent path).bind fun b => .done (.ok b))

end Action

/-! ## Settings -/

/-- Load settings that have valid limits; a missing file has the defaults. -/
def loadSettings (path : String) : Action Settings := do
  if !(← Action.isPresent path) then return {}
  match Settings.load (← Action.read path) with
  | .error .unreadable => throw (.invalidSettings path)
  | loaded => Action.ofExcept .settings loaded

/-- Save settings, in a new directory if need be. -/
def saveSettings (path : String) (s : Settings) : Action Unit := do
  if let some directory := Path.parent? path then Action.makeDirectories directory
  Action.ofExcept .settings s.writable
  Action.write path (.text s.toText) .file

/-- The value under a key as it is printed. -/
def shownValue (s : Settings) (key : String) : String := (s.get? key).getD "(not set)"

/-- All settings in lines, the catalog by its sizes. -/
def listing (path : String) (s : Settings) : String :=
  Report.lines (["Config file: " ++ path, ""]
    ++ Settings.keys.map (fun k => k ++ " = " ++ shownValue s k)
    ++ ["catalog.edge_rules = " ++ toString s.catalog.edgeRules.length,
      "catalog.node_types = " ++ toString s.catalog.nodeTypes.size])

/-- Run a command on the settings file at a path. -/
def SettingsCommand.run (path : String) : SettingsCommand → Action String
  | .get key => do
    let s ← loadSettings path
    if key ∈ Settings.keys then return shownValue s key ++ "\n"
    else throw (.settings (.unknownKey key))
  | .set key value => do
    let (r, s) := (← loadSettings path).set key value
    Action.ofExcept .settings r
    saveSettings path s
    return "Set " ++ key ++ " = " ++ value ++ "\n"
  | .list => return listing path (← loadSettings path)
  | .path => return path ++ "\n"
  | .init force => do
    if (← Action.isPresent path) && !force then throw (.settingsPresent path)
    saveSettings path {}
    return "Created config file at " ++ path ++ "\n"
  | .validate => do
    let s ← loadSettings path
    let ctx ← Action.ofExcept .settings s.context
    return "OK: " ++ toString ctx.catalog.rules.size ++ " edge rules, "
      ++ toString s.catalog.nodeTypes.size ++ " node types\n"

/-! ## The store -/

/-- The store that a command works on. -/
structure OpenStore where
  path : String
  store : Store

/-- Write the store to its file. -/
def OpenStore.save (o : OpenStore) : Action Unit :=
  Action.write o.path (.archive o.store.archive) .storeFile

/-- Open the store of a file; where there is no file, or an empty one, an empty
store is made. -/
def openStore (path : String) : Action OpenStore := do
  match ← Action.look path with
  | .error .missing | .ok (.text "") =>
    let o : OpenStore := ⟨path, {}⟩
    o.save
    return o
  | .ok (.archive text) =>
    match Store.ofArchive? text with
    | some store => return ⟨path, store⟩
    | none => throw .invalidStore
  | .ok (.text _) | .error .notText => throw .invalidStore
  | .error f => throw (.storeFile f)

/-- Keep the store that a change ends with, and answer what the change does. -/
def OpenStore.keep {α : Type} (o : OpenStore) (r : Except ChangeFault α × Store) : Action α := do
  let a ← Action.ofExcept .change r.1
  { o with store := r.2 }.save
  return a

/-- The stored graph. -/
def OpenStore.graph (o : OpenStore) : Action Graph := Action.ofExcept .store (Backend.durable.loadGraph o.store)

/-- The stored graph with the context of the settings, which is built first. -/
def OpenStore.service (o : OpenStore) (s : Settings) : Action Service := do
  let context ← Action.ofExcept .settings s.context
  return ⟨← o.graph, context⟩

/-! ## Commands -/

/-- Print a result as lines of text or in the data format. -/
def Format.print : Format → Json → String → String
  | .json, data, _ => data.pretty ++ "\n"
  | .tree, _, lines => lines

/-- What a delete would remove, with the flags when asked for. -/
def planReport (format : Format) (flags : Option DeleteFlags) (t : ResultTree) : String :=
  format.print
    (.obj ((match flags with
      | some f => [("flags", Json.ofTable .bool f)]
      | none => []) ++ [("tree", t.toJson)]))
    ((flags.map Report.flags).getD "" ++ Report.tree none t)

/-- Run a command on an open store. -/
def GraphCommand.run (freshId : Nat → EdgeId) (format : Format) (s : Settings) (o : OpenStore) :
    GraphCommand → Action String
  | .takeIn file merge => do
    let text ← Action.read file
    match (Json.parse text).bind (Snapshot.ofJson? freshId) with
    | none => throw (.notGraph file)
    | some incoming =>
      o.keep (o.store.takeIn incoming merge)
      return "Imported " ++ toString incoming.vertices.length ++ " vertices and "
        ++ toString incoming.edges.length ++ " edges from " ++ Text.quoted file ++ "\n"
  | .export output => do
    let vertices ← Action.ofExcept .store (Backend.durable.vertices o.store)
    let edges ← Action.ofExcept .store (Backend.durable.edges o.store)
    let text := (⟨vertices, edges⟩ : Snapshot).toJson.pretty
    match output with
    | none => return text ++ "\n"
    | some path =>
      Action.write path (.text text) .file
      return "Exported to " ++ Text.quoted path ++ "\n"
  | .topology m => do
    let service ← o.service s
    let t ← Action.ofExcept .engine (service.compile m.id m.version)
    return format.print (Json.ofTable Json.texts t.rendered) (Report.topology t)
  | .collect rootId m => do
    let service ← o.service s
    let t ← Action.ofExcept .engine (service.collect rootId m.id m.version)
    return format.print t.toJson (Report.tree none t)
  | .namedQuery request => do
    let service ← o.service s
    let ts ← Action.ofExcept .engine (service.query request)
    return format.print (Json.list ResultTree.toJson ts)
      (Report.trees (some service.context.catalog) ts)
  | .deletePlan rootId m flags => do
    let service ← o.service s
    let t ← Action.ofExcept .engine (service.plan rootId m.id m.version)
    if flags then
      let f ← Action.ofExcept .engine (service.flags m.id m.version)
      return planReport format (some f) t
    else return planReport format none t
  | .delete rootId m version => do
    let context ← Action.ofExcept .settings s.context
    let removed ← o.keep (o.store.deleteInstance context rootId m.id m.version version)
    return format.print (Json.ofTable .str removed) (Report.removed removed)
  | .findTop start top tag direction maxLevels => do
    let graph ← o.graph
    let climb : Climb := ⟨top, tag, direction, maxLevels.getD s.limits.levels⟩
    let vs ← Action.ofExcept .search (findTops graph start climb)
    return format.print (Json.list Vertex.toJson vs) (Report.vertices vs)
  | .collectTagged id tag direction maxLevels trim prune => do
    let graph ← o.graph
    let options : CollectOptions :=
      ⟨tag, direction, maxLevels.getD s.limits.levels, trim, prune⟩
    let top ← Action.ofExcept .engine (graph.vertex id)
    let t ← Action.ofExcept .search (Inventory.collectTagged graph top options)
    return format.print t.toJson (Report.tree none t)

/-- Run a command with the options given. -/
def Invocation.run (env : Environment) (i : Invocation) : Action String := do
  let path := i.settingsPath.getD env.settingsPath
  match i.command with
  | .settings c => c.run path
  | .graph c =>
    let s ← loadSettings path
    let directory := (i.dataDir.or (env.dataDir.or s.dataDir)).getD env.defaultDataDir
    Action.makeDirectories directory
    let o ← openStore (Path.inside directory env.storeName)
    c.run env.freshId i.format s o

/-! ## Programs -/

/-- The names a user may start with. -/
def commandNames : List String := graphForms.map (·.1) ++ ["config"]

/-- How the program is called. -/
def usage (env : Environment) : String :=
  Report.lines [env.banner, "", "Commands: " ++ Text.joined ", " commandNames,
    "Settings commands, after config: " ++ Text.joined ", " (settingsForms.map (·.1))]

/-- Read arguments and run what they ask for. -/
def respond (env : Environment) (args : List String) : Script Reply :=
  match readInvocation args with
  | .error .help => .done ⟨0, usage env, none⟩
  | .error .version => .done ⟨0, env.banner ++ "\n", none⟩
  | .error .mistaken => .done ⟨2, "", none⟩
  | .ok i => (i.run env).run.bind fun
    | .ok output => .done ⟨0, output, none⟩
    | .error e => .done ⟨1, "", some e⟩

end Inventory.CommandLine
