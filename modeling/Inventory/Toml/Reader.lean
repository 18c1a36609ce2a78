import Inventory.Toml.Moment

/-!
# Toml — documents

A document is a list of lines. A line sets a key, or opens a table or the next
table of a series. No key may be set twice and no table opened twice; a table
that only stands on the way to another one may be opened later.
-/

namespace Inventory.Toml

/-! ## Tables under construction -/

/-- What stands under a key while a document is read. -/
inductive Node where
  | leaf (v : Json)
  /-- A table; `implied` when only tables or keys below it were named, `dotted`
  when it came from a key with dots. -/
  | table (implied dotted : Bool) (members : List (String × Node))
  /-- A series of tables, the last one first. -/
  | series (tables : List (List (String × Node)))

/-- What stands under the keys of a table. -/
abbrev Members := List (String × Node)

/-- Set what stands under a key, in its place when it is there already. -/
def Members.put (k : String) (n : Node) : Members → Members
  | [] => [(k, n)]
  | (k', n') :: rest => if k' = k then (k, n) :: rest else (k', n') :: put k n rest

/-- Change the table at the end of a path, given whether it is dotted. Tables
missing on the way are made; the way of a dotted key may not lead through a
table that was opened. -/
def change (byDots : Bool) (f : Bool → Members → Option Members) :
    List String → Bool → Members → Option Members
  | [], dotted, ms => f dotted ms
  | k :: path, _, ms =>
    match ms.lookup k with
    | none => (change byDots f path byDots []).map fun sub => ms ++ [(k, .table true byDots sub)]
    | some (.table implied dotted sub) =>
      if byDots && !implied then none
      else (change byDots f path dotted sub).map fun sub => ms.put k (.table implied dotted sub)
    | some (.series (last :: older)) =>
      (change byDots f path false last).map fun last => ms.put k (.series (last :: older))
    | some (.series []) | some (.leaf _) => none

/-- Set the last part of a key, which must be free. -/
def setKey (k : String) (free : Bool) (v : Json) (dotted : Bool) (ms : Members) : Option Members :=
  if dotted == free then none
  else match ms.lookup k with
    | none => some (ms ++ [(k, .leaf v)])
    | some _ => none

/-- Set a key in the table at a path. -/
def set (path key : List String) (v : Json) (root : Members) : Option Members := do
  let k ← key.getLast?
  let way := key.dropLast
  change false (change true (setKey k way.isEmpty v) way) path false root

/-- Open the table at a path. -/
def openTable (path : List String) (root : Members) : Option Members := do
  let k ← path.getLast?
  change false (fun _ ms => match ms.lookup k with
    | none => some (ms ++ [(k, .table false false [])])
    | some (.table true false sub) => some (ms.put k (.table false false sub))
    | some _ => none) path.dropLast false root

/-- Open the next table of the series at a path. -/
def openNext (path : List String) (root : Members) : Option Members := do
  let k ← path.getLast?
  change false (fun _ ms => match ms.lookup k with
    | none => some (ms ++ [(k, .series [[]])])
    | some (.series ts) => some (ms.put k (.series ([] :: ts)))
    | some _ => none) path.dropLast false root

mutual

/-- What stands under a key as a value. -/
def Node.toJson : Node → Json
  | .leaf v => v
  | .table _ _ ms => .obj (membersToJson ms)
  | .series ts => .arr (seriesToJson ts).reverse

/-- The members of a table as values. -/
def membersToJson : List (String × Node) → List (String × Json)
  | [] => []
  | (k, n) :: rest => (k, n.toJson) :: membersToJson rest

/-- The tables of a series as values, in the order they are kept. -/
def seriesToJson : List (List (String × Node)) → List Json
  | [] => []
  | ms :: rest => .obj (membersToJson ms) :: seriesToJson rest

end

/-! ## Values -/

/-- A moment, a number or a truth value, and the rest. -/
def scalar? (cs : List Char) : Option (Json × List Char) :=
  match moment? cs with
  | some found => some found
  | none =>
    let word := cs.takeWhile isWordChar
    let rest := cs.dropWhile isWordChar
    if word = ['t', 'r', 'u', 'e'] then some (.bool true, rest)
    else if word = ['f', 'a', 'l', 's', 'e'] then some (.bool false, rest)
    else (number? word).map fun n => (.num n, rest)

mutual

/-- A value at the start of a text; `levels` bounds how deep it may nest. -/
def value? (levels : Nat) : Nat → List Char → Option (Json × List Char)
  | 0, _ => none
  | fuel + 1, cs =>
    match cs with
    | '"' :: rest => (text? '"' rest).map fun (s, rest) => (.str s, rest)
    | '\'' :: rest => (text? '\'' rest).map fun (s, rest) => (.str s, rest)
    | '[' :: rest =>
      if levels ≤ 1 then none
      else (items? (levels - 1) fuel rest).map fun (vs, rest) => (.arr vs, rest)
    | '{' :: rest =>
      if levels ≤ 1 then none
      else match skipSpaces rest with
        | '}' :: rest => some (.obj [], rest)
        | rest => (inline? (levels - 1) fuel [] rest).map fun (ms, rest) =>
          (.obj (membersToJson ms), rest)
    | cs => scalar? cs

/-- The items of an array up to its closing bracket; a comma may follow the last. -/
def items? (levels : Nat) : Nat → List Char → Option (List Json × List Char)
  | 0, _ => none
  | fuel + 1, cs =>
    match skipLines cs.length cs with
    | ']' :: rest => some ([], rest)
    | cs => do
      let (v, rest) ← value? levels fuel cs
      match skipLines rest.length rest with
      | ',' :: rest => (items? levels fuel rest).map fun (vs, rest) => (v :: vs, rest)
      | ']' :: rest => some ([v], rest)
      | _ => none

/-- The members of a table on one line, up to its closing brace. -/
def inline? (levels : Nat) : Nat → Members → List Char → Option (Members × List Char)
  | 0, _, _ => none
  | fuel + 1, ms, cs => do
    let (key, rest) ← key? cs
    match rest with
    | '=' :: rest => do
      let (v, rest) ← value? levels fuel (skipSpaces rest)
      let ms ← set [] key v ms
      match skipSpaces rest with
      | ',' :: rest => inline? levels fuel ms rest
      | '}' :: rest => some (ms, rest)
      | _ => none
    | _ => none

end

/-! ## Lines -/

/-- A document read so far: its root table and the path of the open table. -/
structure Draft where
  root : Members := []
  path : List String := []

/-- Read what a line says, and the rest of the text. -/
def Draft.line? (d : Draft) (fuel : Nat) (cs : List Char) : Option (Draft × List Char) :=
  match skipSpaces cs with
  | '[' :: '[' :: rest => do
    let (path, rest) ← key? rest
    match rest with
    | ']' :: ']' :: rest => some (⟨← openNext path d.root, path⟩, rest)
    | _ => none
  | '[' :: rest => do
    let (path, rest) ← key? rest
    match rest with
    | ']' :: rest => some (⟨← openTable path d.root, path⟩, rest)
    | _ => none
  | [] => some (d, [])
  | '#' :: rest => some (d, '#' :: rest)
  | cs =>
    if (afterBreak? cs).isSome then some (d, cs)
    else do
      let (key, rest) ← key? cs
      match rest with
      | '=' :: rest => do
        let (v, rest) ← value? depthBound fuel (skipSpaces rest)
        some ({ d with root := ← set d.path key v d.root }, rest)
      | _ => none

/-- Read all lines; `fuel` bounds their number. -/
def Draft.lines? : Nat → Draft → List Char → Option Draft
  | 0, _, _ => none
  | fuel + 1, d, cs => do
    let (d, rest) ← d.line? (2 * cs.length + 2) cs
    match skipComment (skipSpaces rest) with
    | [] => some d
    | rest => Draft.lines? fuel d (← afterBreak? rest)

/-- The root table of a document. -/
def parse (s : String) : Option Json :=
  let cs := match s.toList with
    | c :: rest => if c.toNat = 0xFEFF then rest else c :: rest
    | [] => []
  (Draft.lines? (cs.length + 1) {} cs).map fun d => .obj (membersToJson d.root)

end Inventory.Toml
