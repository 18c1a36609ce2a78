import Inventory.Toml.Number

/-!
# Toml — moments

A date, a time of day, or a date with a time of day and perhaps an offset. The
settings have no use for moments, so one is read as its text under a name that
no record declares.
-/

namespace Inventory.Toml

/-! ## Fields -/

/-- A number of exactly `width` digits from `low` to `high`, and the rest. -/
def field? (width low high : Nat) (cs : List Char) : Option (Nat × List Char) :=
  let digits := cs.take width
  let n := numeral 10 digits
  if digits.length = width ∧ digits.all Char.isDigit ∧ low ≤ n ∧ n ≤ high then
    some (n, cs.drop width)
  else none

/-- What follows a character that must stand first. -/
def after? (c : Char) : List Char → Option (List Char)
  | c' :: rest => if c' = c then some rest else none
  | [] => none

/-! ## Dates -/

/-- Whether a year has a day more. -/
def isLeap (year : Nat) : Bool := year % 4 == 0 && (year % 100 != 0 || year % 400 == 0)

/-- The number of days of a month. -/
def daysIn (year month : Nat) : Nat :=
  if month = 2 then (if isLeap year then 29 else 28)
  else if month ∈ [4, 6, 9, 11] then 30
  else 31

/-- What follows a date. -/
def afterDate? (cs : List Char) : Option (List Char) := do
  let (year, rest) ← field? 4 0 9999 cs
  let (month, rest) ← field? 2 1 12 (← after? '-' rest)
  let (_, rest) ← field? 2 1 (daysIn year month) (← after? '-' rest)
  some rest

/-! ## Times -/

/-- What follows the fraction of a second, which may be left out. -/
def afterFraction (cs : List Char) : List Char :=
  match cs with
  | '.' :: rest => if (rest.takeWhile Char.isDigit).isEmpty then cs else rest.dropWhile Char.isDigit
  | _ => cs

/-- What follows an hour and a minute. -/
def afterMinute? (cs : List Char) : Option (List Char) := do
  let (_, rest) ← field? 2 0 23 cs
  let (_, rest) ← field? 2 0 59 (← after? ':' rest)
  some rest

/-- What follows a time of day; a minute may have a leap second. -/
def afterTime? (cs : List Char) : Option (List Char) := do
  let rest ← afterMinute? cs
  let (_, rest) ← field? 2 0 60 (← after? ':' rest)
  some (afterFraction rest)

/-- What follows an offset, which may be left out. -/
def afterOffset? (cs : List Char) : Option (List Char) :=
  match cs with
  | 'Z' :: rest | 'z' :: rest => some rest
  | '+' :: rest | '-' :: rest => afterMinute? rest
  | _ => some cs

/-! ## Moments -/

/-- What follows a date and the time that may come after it. -/
def afterDateTime? (cs : List Char) : Option (List Char) := do
  let rest ← afterDate? cs
  match rest with
  | 'T' :: time | 't' :: time | ' ' :: time =>
    match afterTime? time with
    | some rest => afterOffset? rest
    | none => some rest
  | _ => some rest

/-- The value that stands for a moment. -/
def ofMoment (written : List Char) : Json := .obj [("moment", .str (String.ofList written))]

/-- A moment, and the rest. -/
def moment? (cs : List Char) : Option (Json × List Char) :=
  ((afterDateTime? cs).or (afterTime? cs)).map fun rest =>
    (ofMoment (cs.take (cs.length - rest.length)), rest)

end Inventory.Toml
