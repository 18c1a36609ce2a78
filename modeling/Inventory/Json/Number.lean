import Inventory.Json.Basic
import Inventory.Word

/-!
# Json — reading numbers

A number without point and exponent is whole as long as it fits 64 bits. Every
other number becomes a double in two roundings: the digits that fit 64 bits
make a significand, which is rounded and then multiplied or divided by one
power of ten. Digits beyond the significand only count as places. A number
beyond all doubles is well formed but has no value.
-/

namespace Inventory.Json

/-! ## Digits -/

/-- The value of a decimal digit. -/
def digit? (c : Char) : Option Nat :=
  if '0' ≤ c ∧ c ≤ '9' then some (c.toNat - '0'.toNat) else none

/-- The digits at the start of a text, and the rest. -/
def leadingDigits : List Char → List Nat × List Char
  | [] => ([], [])
  | c :: cs =>
    match digit? c with
    | some d => let (ds, rest) := leadingDigits cs; (d :: ds, rest)
    | none => ([], c :: cs)

/-- Append digits to a significand while it fits 64 bits; the second part
holds the digits that no longer fit. -/
def packed (significand : Nat) : List Nat → Nat × List Nat
  | [] => (significand, [])
  | d :: ds =>
    if significand * 10 + d < Word.bound64 then packed (significand * 10 + d) ds
    else (significand, d :: ds)

/-! ## Doubles -/

/-- The power of ten as a double. -/
def tenTo (n : Nat) : Float := Float.ofScientific 1 false n

/-- Scale by a power of ten, at most 308 places at a time; nothing when the
number leaves the range of doubles. -/
def scaled : Nat → Float → Int → Option Float
  | 0, f, _ => some f
  | fuel + 1, f, e =>
    if 0 ≤ e then
      if f == 0 then some f
      else if e ≤ 308 then
        let g := f * tenTo e.toNat
        if g.isInf then none else some g
      else none
    else if -308 ≤ e then some (f / tenTo (-e).toNat)
    else if f == 0 then some f
    else scaled fuel (f / tenTo 308) (e + 308)

/-- The double of a sign, a significand and a power of ten. A significand of 64
bits vanishes a thousand places down. -/
def double? (negative : Bool) (significand : Nat) (e : Int) : Option Number :=
  let steps := e.natAbs / 308 + 1
  if significand ≠ 0 ∧ e < -1000 then some (.real (if negative then -0.0 else 0.0))
  else (scaled steps (Word.toReal significand) e).map fun f =>
    .real (if negative then -f else f)

/-! ## Numbers -/

/-- The exponent after `e`, and the rest. -/
def exponent? (cs : List Char) : Option (Int × List Char) :=
  let (negative, cs) := match cs with
    | '+' :: rest => (false, rest)
    | '-' :: rest => (true, rest)
    | _ => (false, cs)
  match leadingDigits cs with
  | ([], _) => none
  | (ds, rest) =>
    let n : Nat := ds.foldl (fun n d => n * 10 + d) 0
    some (if negative then -(n : Int) else n, rest)

/-- Finish a number whose significand is known: an exponent may follow. -/
def withExponent? (negative : Bool) (significand : Nat) (places : Int) (cs : List Char) :
    Option (Option Number × List Char) :=
  match cs with
  | 'e' :: rest | 'E' :: rest => do
    let (e, rest) ← exponent? rest
    some (double? negative significand (places + e), rest)
  | _ => some (double? negative significand places, cs)

/-- A number without point and exponent whose digits all fit: whole if 64 bits
hold it with its sign. A negative zero is a double. -/
def wholeNumber (negative : Bool) (n : Nat) : Number :=
  if !negative then .whole n
  else if n ≠ 0 ∧ n ≤ Word.bound63 then .whole (-n)
  else .real (-(Word.toReal n))

/-- Read an unsigned number with the sign already taken. -/
def unsigned? (negative : Bool) (cs : List Char) : Option (Option Number × List Char) :=
  match leadingDigits cs with
  | ([], _) => none
  | (0 :: _ :: _, _) => none
  | (ds, rest) =>
    let (significand, excess) := packed 0 ds
    match rest with
    | '.' :: rest =>
      match leadingDigits rest with
      | ([], _) => none
      | (fraction, rest) =>
        let (significand, left) := packed significand fraction
        let places : Int := (excess.length : Int) - ((fraction.length : Int) - left.length)
        withExponent? negative significand places rest
    | 'e' :: _ | 'E' :: _ => withExponent? negative significand excess.length rest
    | _ =>
      if excess.isEmpty then some (some (wholeNumber negative significand), rest)
      else withExponent? negative significand excess.length rest

/-- Read a number at the start of a text: its value, if it has one, and the rest. -/
def number? : List Char → Option (Option Number × List Char)
  | '-' :: cs => unsigned? true cs
  | cs => unsigned? false cs

end Inventory.Json
