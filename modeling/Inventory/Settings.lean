import Inventory.Catalog
import Inventory.Toml.Reader
import Inventory.Toml.Writer

/-!
# Settings — the user's configuration

Settings hold the data directory, the limits and the catalog source. The
directory and the limits can be read and set by key, as text. A set assigns
first and checks the limits afterwards. In the settings file they are a document
with a table for the limits and one for the catalog.
-/

namespace Inventory

/-! ## Numbers from text -/

/-- Why a text is no number of the wanted size. -/
inductive NumberFault where
  | nothing
  | invalidDigit
  | tooLarge
  deriving DecidableEq

/-- The fault in words. -/
def NumberFault.message : NumberFault → String
  | .nothing => "cannot parse integer from empty string"
  | .invalidDigit => "invalid digit found in string"
  | .tooLarge => "number too large to fit in target type"

/-- Read decimal digits onto a number below `bound`; the first fault is reported. -/
def readDigits (bound : Nat) : Nat → List Char → Except NumberFault Nat
  | n, [] => .ok n
  | n, c :: cs =>
    if '0' ≤ c ∧ c ≤ '9' then
      let m := n * 10 + (c.toNat - '0'.toNat)
      if m < bound then readDigits bound m cs else .error .tooLarge
    else .error .invalidDigit

/-- Read a number below `bound`, with or without a plus sign. -/
def readNumber (bound : Nat) (s : String) : Except NumberFault Nat :=
  match s.toList with
  | [] => .error .nothing
  | ['+'] => .error .invalidDigit
  | '+' :: digits => readDigits bound 0 digits
  | digits => readDigits bound 0 digits

/-! ## Settings -/

/-- The user's configuration. -/
structure Settings where
  dataDir : Option String := none
  limits : Limits := {}
  catalog : CatalogSource := {}
  deriving DecidableEq

/-- Why settings are refused. -/
inductive SettingsError where
  | unknownKey (key : String)
  | badNumber (fault : NumberFault)
  | invalid (e : Error)
  /-- A number is too large for the settings file. -/
  | unwritable
  /-- The text of a settings file is no document of settings. -/
  | unreadable
  deriving DecidableEq

namespace Settings

/-- The keys that can be read and set. -/
def keys : List String :=
  ["data_dir", "engine.query_time_limit_secs", "engine.max_result_count", "engine.max_levels"]

end Settings

/-- The refusal in words, as a user sees it. -/
def SettingsError.message : SettingsError → String
  | .unknownKey key =>
    "Unknown config key: " ++ key ++ ". Available keys: " ++ Text.joined ", " Settings.keys
  | .badNumber f => f.message
  | .invalid e => e.message
  | .unwritable => "out-of-range value for u64 type"
  | .unreadable => "Invalid config file"

namespace Settings

/-! ## Single keys -/

/-- The value under a key, when there is such a key and it has a value. -/
def get? (s : Settings) (key : String) : Option String :=
  if key = "data_dir" then s.dataDir
  else if key = "engine.query_time_limit_secs" then some (toString s.limits.timeSeconds)
  else if key = "engine.max_result_count" then some (toString s.limits.resultCount)
  else if key = "engine.max_levels" then some (toString s.limits.levels)
  else none

/-- The settings with a value assigned to a key. -/
def assign (s : Settings) (key value : String) : Except SettingsError Settings :=
  let number (bound : Nat) := (readNumber bound value).mapError SettingsError.badNumber
  if key = "data_dir" then .ok { s with dataDir := some value }
  else if key = "engine.query_time_limit_secs" then do
    let n ← number Word.bound64
    .ok { s with limits := { s.limits with timeSeconds := n } }
  else if key = "engine.max_result_count" then do
    let n ← number Word.bound64
    .ok { s with limits := { s.limits with resultCount := n } }
  else if key = "engine.max_levels" then do
    let n ← number Word.bound32
    .ok { s with limits := { s.limits with levels := n } }
  else .error (.unknownKey key)

/-- Check the limits; the other settings have nothing to check. -/
def validate (s : Settings) : Except SettingsError Unit := s.limits.validate.mapError .invalid

/-- Set a key, then check all limits. The assignment stays when the check fails. -/
def set (s : Settings) (key value : String) : Except SettingsError Unit × Settings :=
  match s.assign key value with
  | .error e => (.error e, s)
  | .ok s => (s.validate, s)

/-! ## Use -/

/-- The context for queries, built from the catalog under the limits. -/
def context (s : Settings) : Except SettingsError Context :=
  (Context.build s.catalog s.limits).mapError .invalid

/-- Whether a settings file can hold the settings: its numbers have 63 bits. -/
def writable (s : Settings) : Except SettingsError Unit :=
  if s.limits.timeSeconds < Word.bound63 ∧ s.limits.resultCount < Word.bound63 then .ok ()
  else .error .unwritable

/-! ## Data format -/

/-- The settings as a document; a directory that is not set is left out. -/
def toJson (s : Settings) : Json :=
  .obj ((match s.dataDir with
      | some d => [("data_dir", .str d)]
      | none => [])
    ++ [("engine", s.limits.toJson), ("catalog", s.catalog.toJson)])

/-- What is left out has its default. -/
def read? (c : Json.Conventions) (j : Json) : Option Settings := do
  let fs ← c.fields? ["data_dir", "engine", "catalog"] j
  let dataDir ← Json.optional (Json.nullable? Json.text?) "data_dir" none fs
  let limits ← Json.optional (Limits.read? c) "engine" {} fs
  let catalog ← Json.optional (CatalogSource.read? c) "catalog" {} fs
  some ⟨dataDir, limits, catalog⟩

/-- Settings from the data format. -/
def ofJson? : Json → Option Settings := read? .strict

/-! ## The settings file -/

/-- The document of settings. -/
def toText (s : Settings) : String := Toml.write s.toJson

/-- Whether a value is an empty table or array. -/
def isEmpty : Json → Bool
  | .obj [] | .arr [] => true
  | _ => false

/-- Documents have no `null`: an empty table or array stands for nothing. -/
def conventions : Json.Conventions := ⟨true, isEmpty⟩

/-- The settings of a document. -/
def ofText? (text : String) : Option Settings := (Toml.parse text).bind (read? conventions)

/-- The settings of a document, whose limits must be valid. -/
def load (text : String) : Except SettingsError Settings :=
  match ofText? text with
  | none => .error .unreadable
  | some s => s.validate.map fun _ => s

/-- The settings after they were saved and loaded again. -/
def reloaded (s : Settings) : Except SettingsError Settings := do
  s.writable
  load s.toText

end Settings

end Inventory
