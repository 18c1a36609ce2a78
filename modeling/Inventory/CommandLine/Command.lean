import Inventory.CommandLine.Options
import Inventory.NamedQuery
import Inventory.Search.Tagged
import Inventory.Settings

/-!
# CommandLine — commands

What a user may ask for, and how it is read from arguments. Options that every
command has may stand before or after its name; what stands further right wins.
-/

namespace Inventory.CommandLine

/-! ## Commands -/

/-- What names a model on the command line. -/
structure ModelName where
  id : String
  version : String
  deriving DecidableEq

/-- What can be asked for about the settings. -/
inductive SettingsCommand where
  | get (key : String)
  | set (key value : String)
  | list
  | path
  | init (force : Bool)
  | validate
  deriving DecidableEq

/-- What can be asked for about the stored graph. -/
inductive GraphCommand where
  | takeIn (file : String) (merge : Bool)
  | export (output : Option String)
  | topology (model : ModelName)
  | collect (rootId : VertexId) (model : ModelName)
  | namedQuery (request : QueryRequest)
  | deletePlan (rootId : VertexId) (model : ModelName) (flags : Bool)
  | delete (rootId : VertexId) (model : ModelName) (version : Option String)
  | findTop (start : StartFilter) (top : NodeType) (tag : String) (direction : Direction)
      (maxLevels : Option Nat)
  | collectTagged (id : VertexId) (tag : String) (direction : Direction)
      (maxLevels : Option Nat) (trim : List NodeType) (prune : Option PruneRule)

/-- What a user asks for. -/
inductive Command where
  | settings (c : SettingsCommand)
  | graph (c : GraphCommand)

/-- How a result is printed. -/
inductive Format where
  | tree
  | json
  deriving DecidableEq

/-- A command with the options that every command has. -/
structure Invocation where
  settingsPath : Option String
  dataDir : Option String
  format : Format
  command : Command

/-! ## Values of options -/

/-- A path, which is not empty. -/
def path? (s : String) : Option String := if s = "" then none else some s

/-- The format of a word. -/
def format? (s : String) : Option Format :=
  if s = "tree" then some .tree else if s = "json" then some .json else none

/-- A pair `name=value`; the name is not blank. -/
def pair? (s : String) : Option (String × String) := do
  let (name, value) ← Text.cut '=' s
  let name := Text.trim name
  if name = "" then none else some (name, Text.trim value)

/-- A secondary filter `type:name=value`. -/
def secondary? (s : String) : Option SecondaryFilter := do
  let (nodeType, rest) ← Text.cut ':' s
  let (name, value) ← pair? rest
  some ⟨Text.trim nodeType, name, value⟩

/-- A number of levels; zero may have a sign. -/
def levels? (s : String) : Option Nat :=
  match s.toList with
  | '-' :: digits => if digits ≠ [] ∧ digits.all (· == '0') then some 0 else none
  | _ => (readNumber Word.bound32 s).toOption

/-- A direction in any letter case, in full or short. -/
def direction? (s : String) : Option Direction := (Direction.parse s).toOption

/-- The filter for the vertices a search starts at. -/
def start? (s : String) : Option StartFilter := (StartFilter.parse s).toOption

/-- The value of an option that may be left out. -/
def Given.optional {α : Type} (g : Given) (name : String) (f : String → Option α) :
    Option (Option α) :=
  match g.value? name with
  | none => some none
  | some s => (f s).map some

/-- The direction of a walk, outgoing unless given. -/
def Given.direction? (g : Given) : Option Direction :=
  (g.optional "direction" CommandLine.direction?).map (·.getD .outgoing)

/-- The model that was named, both parts of it. -/
def Given.model? (g : Given) : Option ModelName := do
  some ⟨← g.value? "model", ← g.value? "model-version"⟩

/-! ## Forms of commands -/

/-- The options that every command has. -/
def commonRules : List OptionRule :=
  [⟨"config", some 'c', .value, false, readableBy path?⟩,
    ⟨"data-dir", some 'd', .value, false, readableBy path?⟩,
    ⟨"format", some 'f', .value, false, readableBy format?⟩,
    ⟨"verbose", some 'v', .flag, true, anyText⟩, ⟨"quiet", some 'q', .flag, false, anyText⟩,
    ⟨"help", some 'h', .help, false, anyText⟩]

/-- The options before a command. -/
def firstRules : List OptionRule :=
  ⟨"version", some 'V', .version, false, anyText⟩ :: commonRules

/-- An option with a value that is given once. -/
def single (name : String) (accepts : String → Bool) : OptionRule :=
  ⟨name, none, .value, false, accepts⟩

/-- An option with a value that may be given several times. -/
def several (name : String) (accepts : String → Bool) : OptionRule :=
  ⟨name, none, .value, true, accepts⟩

/-- An option without a value. -/
def switch (name : String) : OptionRule := ⟨name, none, .flag, false, anyText⟩

/-- The options that name a model. -/
def modelRules : List OptionRule :=
  [⟨"model", some 'm', .value, false, anyText⟩, single "model-version" anyText]

/-- The options of a search over tagged edges. -/
def walkRules : List OptionRule :=
  [single "tag" anyText, single "direction" (readableBy direction?),
    single "max-levels" (readableBy levels?)]

/-- A prune rule `type=id`. -/
def prune? (s : String) : Option PruneRule := (pair? s).map fun (t, id) => ⟨t, id⟩

/-- How a command is written: its options and its operands, all of which must be
given. -/
structure Form (α : Type) where
  rules : List OptionRule
  operands : List OperandRule
  build : Given → Option α

/-- How each command about settings is written, by its name. -/
def settingsForms : List (String × Form SettingsCommand) :=
  [("get", ⟨[], [anyText], fun g => g.operands[0]?.map .get⟩),
    ("set", ⟨[], [anyText, anyText], fun g => do some (.set (← g.operands[0]?) (← g.operands[1]?))⟩),
    ("list", ⟨[], [], fun _ => some .list⟩),
    ("path", ⟨[], [], fun _ => some .path⟩),
    ("init", ⟨[switch "force"], [], fun g => some (.init (g.has "force"))⟩),
    ("validate", ⟨[], [], fun _ => some .validate⟩)]

/-- How each command about the graph is written, by its name. -/
def graphForms : List (String × Form GraphCommand) :=
  [("import", ⟨[switch "merge"], [readableBy path?], fun g => do
      some (.takeIn (← g.operands[0]? >>= path?) (g.has "merge"))⟩),
    ("export", ⟨[⟨"output", some 'o', .value, false, readableBy path?⟩], [], fun g =>
      (g.optional "output" path?).map .export⟩),
    ("topology", ⟨modelRules, [], fun g => g.model?.map .topology⟩),
    ("collect", ⟨modelRules, [anyText], fun g => do
      some (.collect (← g.operands[0]?) (← g.model?))⟩),
    ("named-query", ⟨[several "filter" (readableBy pair?),
        single "secondary" (readableBy secondary?)], [anyText], fun g => do
      some (.namedQuery ⟨← g.operands[0]?, ← (g.values "filter").mapM pair?,
        ← g.optional "secondary" secondary?⟩)⟩),
    ("delete-plan", ⟨switch "flags" :: modelRules, [anyText], fun g => do
      some (.deletePlan (← g.operands[0]?) (← g.model?) (g.has "flags"))⟩),
    ("delete", ⟨single "resource-version" anyText :: modelRules, [anyText], fun g => do
      some (.delete (← g.operands[0]?) (← g.model?) (g.value? "resource-version"))⟩),
    ("find-top", ⟨single "top" anyText :: walkRules, [readableBy start?], fun g => do
      some (.findTop (← g.operands[0]? >>= start?) (← g.value? "top") (← g.value? "tag")
        (← g.direction?) (← g.optional "max-levels" levels?))⟩),
    ("collect-tagged", ⟨several "trim" anyText :: single "prune" (readableBy prune?) :: walkRules,
        [anyText], fun g => do
      some (.collectTagged (← g.operands[0]?) (← g.value? "tag") (← g.direction?)
        (← g.optional "max-levels" levels?) (g.values "trim")
        (← g.optional "prune" prune?))⟩)]

/-! ## Reading -/

/-- Read the arguments after the name of a command. -/
def Form.read {α : Type} (f : Form α) (args : List String) : Except Usage (Given × α) := do
  let (g, _) ← readLevel (f.rules ++ commonRules) (some f.operands) {} args
  match f.build g with
  | some a => .ok (g, a)
  | none => .error .mistaken

/-- Read the arguments after a name that must be one of the forms. -/
def readForm {α : Type} (forms : List (String × Form α)) (name : String) (args : List String) :
    Except Usage (Given × α) :=
  match forms.lookup name with
  | some f => f.read args
  | none => .error .mistaken

/-- Where the names after `help` lead: to the program, to a command, or to a
command about settings. -/
def helpOn : List String → Usage
  | [] | ["config"] => .help
  | ["config", name] => topic (settingsForms.map (·.1)) name
  | [name] => topic (graphForms.map (·.1)) name
  | _ => .mistaken
where
  /-- Help can be asked for on a name of the list, or on help. -/
  topic (names : List String) (name : String) : Usage :=
    if name = "help" ∨ name ∈ names then .help else .mistaken

/-- Read a command, and the options given with it at each level. -/
def readCommand : List String → Except Usage (List Given × Command)
  | [] => .error .mistaken
  | name :: args => do
    if name = "help" then .error (helpOn args)
    else if name = "config" then
      let (g, rest) ← readLevel commonRules none {} args
      match rest with
      | [] => .error .mistaken
      | "help" :: args => .error (helpOn ("config" :: args))
      | name :: args =>
        let (g', c) ← readForm settingsForms name args
        .ok ([g', g], .settings c)
    else
      let (g, c) ← readForm graphForms name args
      .ok ([g], .graph c)

/-- Read all arguments; a common option counts where it stands furthest right. -/
def readInvocation (args : List String) : Except Usage Invocation := do
  let (first, rest) ← readLevel firstRules none {} args
  let (levels, command) ← readCommand rest
  let levels := levels ++ [first]
  let common {α : Type} (name : String) (f : String → Option α) : Except Usage (Option α) := do
    match levels.mapM (·.optional name f) with
    | some found => .ok (found.findSome? id)
    | none => .error .mistaken
  let settingsPath ← common "config" path?
  let dataDir ← common "data-dir" path?
  let format ← common "format" format?
  .ok ⟨settingsPath, dataDir, format.getD .tree, command⟩

end Inventory.CommandLine
