import Inventory.Json.Reader

/-!
# Toml — texts and keys

The format of the settings file, read into the values of the data format. This
part reads what stands between tokens, the four kinds of texts, and keys.
-/

namespace Inventory.Toml

/-! ## Between tokens -/

/-- Drop spaces and tabs. -/
def skipSpaces (cs : List Char) : List Char := cs.dropWhile fun c => c == ' ' || c == '\t'

/-- Characters that may stand in comments and texts. -/
def isPlain (c : Char) : Bool := c == '\t' || (0x20 ≤ c.toNat && c.toNat != 0x7F)

/-- Drop a comment, but not the line break after it. -/
def skipComment : List Char → List Char
  | '#' :: rest => rest.dropWhile isPlain
  | cs => cs

/-- What follows a line break. -/
def afterBreak? : List Char → Option (List Char)
  | '\n' :: rest => some rest
  | '\r' :: '\n' :: rest => some rest
  | _ => none

/-- Drop spaces, comments and line breaks; `fuel` bounds the number of lines. -/
def skipLines : Nat → List Char → List Char
  | 0, cs => cs
  | fuel + 1, cs =>
    let cs := skipComment (skipSpaces cs)
    match afterBreak? cs with
    | some rest => skipLines fuel rest
    | none => cs

/-! ## Texts -/

/-- A number of so many hexadecimal digits, and the rest. -/
def hexNumber? : Nat → Nat → List Char → Option (Nat × List Char)
  | n, 0, cs => some (n, cs)
  | n, digits + 1, c :: cs => do hexNumber? (n * 16 + (← Json.hexDigit? c)) digits cs
  | _, _ + 1, [] => none

/-- The character that an escape stands for; the backslash is already read. -/
def escape? : List Char → Option (Char × List Char)
  | 'u' :: rest => (hexNumber? 0 4 rest).bind scalar?
  | 'U' :: rest => (hexNumber? 0 8 rest).bind scalar?
  | '/' :: _ => none
  | c :: rest => (Json.simpleEscape? c).map (·, rest)
  | [] => none
where
  /-- The character of a code point. -/
  scalar? : Nat × List Char → Option (Char × List Char)
    | (n, rest) => if n.isValidChar then some (Char.ofNat n, rest) else none

/-- The characters of a text on one line up to its closing quote, and the rest. -/
def lineText? (quote : Char) : Nat → List Char → Option (List Char × List Char)
  | 0, _ => none
  | _ + 1, [] => none
  | fuel + 1, c :: rest =>
    if c = quote then some ([], rest)
    else if c = '\\' ∧ quote = '"' then do
      let (c, rest) ← escape? rest
      let (cs, rest) ← lineText? quote fuel rest
      some (c :: cs, rest)
    else if isPlain c then do
      let (cs, rest) ← lineText? quote fuel rest
      some (c :: cs, rest)
    else none

/-- Drop the spaces, tabs and line breaks after a backslash at the end of a line. -/
def afterFold : List Char → List Char
  | ' ' :: rest | '\t' :: rest | '\n' :: rest => afterFold rest
  | '\r' :: '\n' :: rest => afterFold rest
  | cs => cs

/-- The characters of a text over several lines up to its three closing quotes,
and the rest. One or two quotes may stand before the closing ones. -/
def blockText? (quote : Char) : Nat → List Char → Option (List Char × List Char)
  | 0, _ => none
  | _ + 1, [] => none
  | fuel + 1, c :: rest =>
    if c = quote then
      let quotes := (c :: rest).takeWhile (· == quote)
      let rest := (c :: rest).dropWhile (· == quote)
      if quotes.length < 3 then
        (blockText? quote fuel rest).map fun (cs, rest) => (quotes ++ cs, rest)
      else if quotes.length ≤ 5 then some (quotes.drop 3, rest)
      else none
    else if c = '\\' ∧ quote = '"' then
      if (afterBreak? (skipSpaces rest)).isSome then blockText? quote fuel (afterFold rest)
      else do
        let (c, rest) ← escape? rest
        let (cs, rest) ← blockText? quote fuel rest
        some (c :: cs, rest)
    else match afterBreak? (c :: rest) with
      | some rest => (blockText? quote fuel rest).map fun (cs, rest) => ('\n' :: cs, rest)
      | none =>
        if isPlain c then (blockText? quote fuel rest).map fun (cs, rest) => (c :: cs, rest)
        else none

/-- A text whose first opening quote is already read. -/
def text? (quote : Char) (cs : List Char) : Option (String × List Char) :=
  let found := match cs with
    | a :: b :: rest =>
      if a = quote ∧ b = quote then
        blockText? quote (rest.length + 1) ((afterBreak? rest).getD rest)
      else lineText? quote (cs.length + 1) cs
    | _ => lineText? quote (cs.length + 1) cs
  found.map fun (body, rest) => (String.ofList body, rest)

/-! ## Keys -/

/-- Characters of a key without quotes. -/
def isBare (c : Char) : Bool := c.isAlphanum || c == '_' || c == '-'

/-- One part of a key. -/
def simpleKey? : List Char → Option (String × List Char)
  | '"' :: rest => (lineText? '"' (rest.length + 1) rest).map named
  | '\'' :: rest => (lineText? '\'' (rest.length + 1) rest).map named
  | cs =>
    match cs.takeWhile isBare with
    | [] => none
    | name => some (String.ofList name, cs.dropWhile isBare)
where
  /-- The part as a text. -/
  named : List Char × List Char → String × List Char
    | (name, rest) => (String.ofList name, rest)

/-- The parts of a key between dots, with the spaces around them. -/
def keyParts? : Nat → List Char → Option (List String × List Char)
  | 0, _ => none
  | fuel + 1, cs => do
    let (name, rest) ← simpleKey? (skipSpaces cs)
    match skipSpaces rest with
    | '.' :: rest => (keyParts? fuel rest).map fun (names, rest) => (name :: names, rest)
    | rest => some ([name], rest)

/-- How deep keys and values must not reach. -/
def depthBound : Nat := 80

/-- A key, and the rest. -/
def key? (cs : List Char) : Option (List String × List Char) :=
  (keyParts? (cs.length + 1) cs).filter fun (names, _) => names.length < depthBound

end Inventory.Toml
