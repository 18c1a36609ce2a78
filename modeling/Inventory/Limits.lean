import Inventory.Error

/-!
# Limits — budgets of a query

A query may take so much time, yield so many nodes and go so many levels deep.
Limits are checked in this order before they are used.
-/

namespace Inventory

/-! ## Faults -/

/-- A budget that is not accepted. -/
inductive LimitFault where
  | timeZero
  | timeTooLarge (seconds : Nat)
  | countZero
  | levelsZero
  | levelsTooLarge (levels : Nat)
  deriving DecidableEq

/-- The most seconds a query may be given. -/
def maxTimeSeconds : Nat := 3600

/-- The most levels a query may be given. -/
def maxLevels : Nat := 500

/-- The fault in words, with the bound that was broken. -/
def LimitFault.message : LimitFault → String
  | .timeZero => "Query time limit must be at least 1 second"
  | .timeTooLarge secs =>
    "Query time limit too large: " ++ toString secs ++ "s (max " ++ toString maxTimeSeconds ++ "s)"
  | .countZero => "Maximum result count must be positive"
  | .levelsZero => "Maximum levels must be positive"
  | .levelsTooLarge levels =>
    "Maximum levels too large: " ++ toString levels ++ " (max " ++ toString maxLevels ++ ")"

/-- The word for a fault in the data format. -/
def LimitFault.name : LimitFault → String
  | .timeZero => "TimeLimitZero"
  | .timeTooLarge _ => "TimeLimitTooLarge"
  | .countZero => "ResultCountZero"
  | .levelsZero => "MaxLevelsZero"
  | .levelsTooLarge _ => "MaxLevelsTooLarge"

/-! ## Single budgets -/

/-- Accept a time budget from one second to an hour. -/
def checkTime (seconds : Nat) : Except LimitFault Unit :=
  if seconds = 0 then .error .timeZero
  else if maxTimeSeconds < seconds then .error (.timeTooLarge seconds)
  else .ok ()

/-- Accept a positive result count. -/
def checkCount (count : Nat) : Except LimitFault Unit :=
  if count = 0 then .error .countZero else .ok ()

/-- Accept a positive level count up to the ceiling. -/
def checkLevels (levels : Nat) : Except LimitFault Unit :=
  if levels = 0 then .error .levelsZero
  else if maxLevels < levels then .error (.levelsTooLarge levels)
  else .ok ()

/-! ## All budgets -/

/-- The budgets of a query. -/
structure Limits where
  timeSeconds : Nat := 60
  resultCount : Nat := 10000
  levels : Nat := 50
  deriving DecidableEq

namespace Limits

/-- Check every budget; the first fault is reported. -/
def check (l : Limits) : Except LimitFault Unit := do
  checkTime l.timeSeconds
  checkCount l.resultCount
  checkLevels l.levels

/-- Check every budget, a fault being a configuration error. -/
def validate (l : Limits) : Outcome Unit :=
  match l.check with
  | .ok () => .ok ()
  | .error f => .error (.configuration f.message)

/-! ## Data format -/

/-- All three budgets, under the names of the data format. -/
def toJson (l : Limits) : Json :=
  .obj [("query_time_limit_secs", .nat l.timeSeconds), ("max_result_count", .nat l.resultCount),
    ("max_levels", .nat l.levels)]

/-- A budget that is left out has its default; whether the budgets are valid is not asked here. -/
def read? (c : Json.Conventions) (j : Json) : Option Limits := do
  let fs ← c.fields? ["query_time_limit_secs", "max_result_count", "max_levels"] j
  let timeSeconds ← Json.optional Json.word64? "query_time_limit_secs" 60 fs
  let resultCount ← Json.optional Json.word64? "max_result_count" 10000 fs
  let levels ← Json.optional Json.word32? "max_levels" 50 fs
  some ⟨timeSeconds, resultCount, levels⟩

/-- Limits from the data format. -/
def ofJson? : Json → Option Limits := read? .strict

end Limits

end Inventory
