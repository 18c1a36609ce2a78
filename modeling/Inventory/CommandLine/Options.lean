/-!
# CommandLine — options

How a list of arguments is told apart into options and operands. An option has
a long name after two dashes and may have a letter after one; letters may be
written together. A value follows its option as the next argument or after an
equals sign. Two dashes alone end the options. Arguments are taken in order: a
value that is not accepted counts before a later call for help.
-/

namespace Inventory.CommandLine

/-! ## Rules -/

/-- What an option does. -/
inductive OptionKind where
  /-- It is given or not. -/
  | flag
  | value
  | help
  | version
  deriving DecidableEq

/-- An option that may be given. -/
structure OptionRule where
  name : String
  letter : Option Char := none
  kind : OptionKind := .value
  /-- It may be given several times. -/
  repeats : Bool := false
  /-- Whether a value is accepted. -/
  accepts : String → Bool := fun _ => true

/-- An operand that must be given: whether a text is accepted. -/
abbrev OperandRule := String → Bool

/-- Every text is accepted. -/
def anyText : OperandRule := fun _ => true

/-- The texts from which a value can be read are accepted. -/
def readableBy {α : Type} (f : String → Option α) : OperandRule := fun s => (f s).isSome

/-- Why arguments lead to no command. -/
inductive Usage where
  | help
  | version
  | mistaken
  deriving DecidableEq

/-- The options and operands of one level of a command, in the order given. -/
structure Given where
  options : List (String × String) := []
  operands : List String := []

namespace Given

/-- The value of an option that was given. -/
def value? (g : Given) (name : String) : Option String := g.options.lookup name

/-- The values of an option in the order given. -/
def values (g : Given) (name : String) : List String :=
  (g.options.filter (·.1 == name)).map (·.2)

/-- Whether an option was given. -/
def has (g : Given) (name : String) : Bool := (g.value? name).isSome

/-- Record an option with its value, unless it may not be given so. -/
def record (g : Given) (r : OptionRule) (value : String) : Except Usage Given :=
  match r.kind with
  | .help => .error .help
  | .version => .error .version
  | .flag | .value =>
    if (g.has r.name && !r.repeats) || !r.accepts value then .error .mistaken
    else .ok { g with options := g.options ++ [(r.name, value)] }

end Given

/-! ## Single arguments -/

/-- What an argument looks like. -/
inductive Shape where
  /-- Two dashes alone. -/
  | stop
  | long (name : String) (attached : Option String)
  | letters (cs : List Char)
  | plain

/-- The name of a long option and the value attached to it. -/
def longShape (cs : List Char) : Shape :=
  .long (String.ofList (cs.takeWhile (· != '='))) (match cs.dropWhile (· != '=') with
    | [] => none
    | _ :: value => some (String.ofList value))

/-- Tell apart what an argument looks like; one dash alone is an operand. -/
def shape (arg : String) : Shape :=
  match arg.toList with
  | ['-', '-'] => .stop
  | '-' :: '-' :: cs => longShape cs
  | ['-'] => .plain
  | '-' :: cs => .letters cs
  | _ => .plain

/-- Whether an argument can be the value of the option before it. -/
def Shape.isPlain : Shape → Bool
  | .plain => true
  | _ => false

/-- Record letters written together. The first one that takes a value takes
all that follows it; when nothing follows, its value is still to come. -/
def readLetters (rules : List OptionRule) (g : Given) :
    List Char → Except Usage (Given × Option OptionRule)
  | [] => .ok (g, none)
  | c :: cs =>
    match rules.find? (·.letter == some c) with
    | none => .error .mistaken
    | some r =>
      if r.kind = .value then
        match cs with
        | [] => .ok (g, some r)
        | '=' :: value => (g.record r (String.ofList value)).map (·, none)
        | value => (g.record r (String.ofList value)).map (·, none)
      else do readLetters rules (← g.record r "") cs

/-! ## Levels -/

/-- Record an option that an argument names; a rule is left over when its value
is still to come. -/
def readOption (rules : List OptionRule) (g : Given) :
    Shape → Except Usage (Given × Option OptionRule)
  | .long name attached =>
    match rules.find? (·.name == name), attached with
    | none, _ => .error .mistaken
    | some r, some value =>
      if r.kind = .value then (g.record r value).map (·, none) else .error .mistaken
    | some r, none => if r.kind = .value then .ok (g, some r) else (g.record r "").map (·, none)
  | .letters cs => readLetters rules g cs
  | .stop | .plain => .ok (g, none)

/-- Record operands by the rules of those still to come. -/
def Given.recordOperands (g : Given) : List OperandRule → List String → Except Usage Given
  | _, [] => .ok g
  | [], _ :: _ => .error .mistaken
  | accepts :: rules, arg :: rest =>
    if accepts arg then { g with operands := g.operands ++ [arg] }.recordOperands rules rest
    else .error .mistaken

/-- Read the arguments of one level. With rules for operands the level takes all
arguments; without them it ends before the first operand, the name of a command. -/
def readLevel (rules : List OptionRule) (operands : Option (List OperandRule)) (g : Given) :
    List String → Except Usage (Given × List String)
  | [] => .ok (g, [])
  | arg :: rest =>
    match shape arg, operands with
    | .stop, none => .error .mistaken
    | .stop, some left => (g.recordOperands left rest).map (·, [])
    | .plain, none => .ok (g, arg :: rest)
    | .plain, some left =>
      match g.recordOperands left [arg] with
      | .ok g => readLevel rules (some left.tail) g rest
      | .error u => .error u
    | s, _ =>
      match readOption rules g s with
      | .error u => .error u
      | .ok (g, none) => readLevel rules operands g rest
      | .ok (g, some r) =>
        match rest with
        | value :: rest =>
          if (shape value).isPlain then
            match g.record r value with
            | .ok g => readLevel rules operands g rest
            | .error u => .error u
          else .error .mistaken
        | [] => .error .mistaken

end Inventory.CommandLine
