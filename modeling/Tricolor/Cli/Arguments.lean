import Tricolor.Text.Numeral

/-!
# Command-line arguments

An argument is a long option, a cluster of short ones, the escape `--`,
after which everything is plain, or plain text. A command accepts some
options with a value, which is attached by `=` or follows as plain text,
some flags, and possibly a path. An option or flag may be given once, and
`-v`, which any command takes, any number of times.
-/

namespace Tricolor

namespace Cli

/-- Why there is no command to run. -/
inductive UsageStop where
  /-- Help was asked for. -/
  | help
  /-- The arguments are not those of a command. -/
  | fault
  deriving DecidableEq, Repr

/-- The exit code of a program that runs no command. -/
def UsageStop.code : UsageStop → Nat
  | help => 0
  | fault => 2

/-- The form of an argument. -/
inductive Argument where
  | escape
  | long (name : String) (attached : Option String)
  | short (letters : List Char)
  | plain (text : String)
  deriving DecidableEq, Repr

/-- The form of an argument is told by its leading dashes; a single dash
is plain text. -/
def Argument.ofString (arg : String) : Argument :=
  match arg.toList with
  | ['-', '-'] => .escape
  | '-' :: '-' :: rest =>
    let name := String.ofList (rest.takeWhile (· != '='))
    match rest.dropWhile (· != '=') with
    | [] => .long name none
    | _ :: value => .long name (some (String.ofList value))
  | '-' :: letter :: rest => .short (letter :: rest)
  | _ => .plain arg

/-- What the value of an option may be. -/
inductive ValueKind where
  | text
  /-- A 32-bit number, read as a signed number. -/
  | word32
  /-- A 64-bit number. -/
  | word64
  deriving DecidableEq, Repr

namespace ValueKind

/-- The number that a value stands for. -/
def number? (kind : ValueKind) (value : String) : Option Nat :=
  match kind with
  | text => none
  | word32 =>
    match Text.Numeral.signed? value.toList with
    | some (.ofNat n) => if n < UInt32.size then some n else none
    | _ => none
  | word64 => Text.Numeral.below? UInt64.size value.toList

/-- Whether a value is of a kind. -/
def accepts (kind : ValueKind) (value : String) : Bool :=
  kind == text || (kind.number? value).isSome

end ValueKind

/-- What a command accepts. -/
structure Spec where
  takesPath : Bool
  /-- The options with a value. -/
  options : List (String × ValueKind)
  /-- The options without one. -/
  flags : List String

/-- What a command was given. -/
structure Given where
  path : Option String
  options : List (String × String)
  flags : List String

namespace Given

/-- Nothing given. -/
def nothing : Given := ⟨none, [], []⟩

/-- The value of an option. -/
def value? (g : Given) (name : String) : Option String := g.options.lookup name

/-- Takes a path, if the command has one and none was given. -/
def addPath (spec : Spec) (g : Given) (path : String) : Except UsageStop Given :=
  if spec.takesPath && g.path.isNone then .ok { g with path := some path } else .error .fault

/-- Takes the value of an option, which must be acceptable and the
first one. -/
def addOption (spec : Spec) (g : Given) (name value : String) : Except UsageStop Given :=
  if (spec.options.lookup name).any (·.accepts value) && (g.value? name).isNone then
    .ok { g with options := g.options ++ [(name, value)] }
  else .error .fault

/-- Takes a flag that was not given before. -/
def addFlag (g : Given) (name : String) : Except UsageStop Given :=
  if g.flags.contains name then .error .fault else .ok { g with flags := g.flags ++ [name] }

end Given

/-- Reads a cluster of short options, which can ask for more output or
for help. -/
def readShort : List Char → Except UsageStop Unit
  | [] => .ok ()
  | 'v' :: rest => readShort rest
  | 'h' :: _ => .error .help
  | _ => .error .fault

/-- Reads the arguments of a command. The first argument of the function
is the option whose value comes next, if one does. -/
def readArguments (spec : Spec) : Option String → List String → Given → Except UsageStop Given
  | none, [], g => .ok g
  | some _, [], _ => .error .fault
  | some name, arg :: rest, g =>
    match Argument.ofString arg with
    | .plain value => do readArguments spec none rest (← g.addOption spec name value)
    | _ => .error .fault
  | none, arg :: rest, g =>
    match Argument.ofString arg with
    | .escape => rest.foldlM (Given.addPath spec) g
    | .plain path => do readArguments spec none rest (← g.addPath spec path)
    | .short letters => do
      readShort letters
      readArguments spec none rest g
    | .long name none => do
      if name == "help" then throw .help
      else if name == "verbose" then readArguments spec none rest g
      else if spec.flags.contains name then readArguments spec none rest (← g.addFlag name)
      else if (spec.options.lookup name).isSome then readArguments spec (some name) rest g
      else throw .fault
    | .long name (some value) => do readArguments spec none rest (← g.addOption spec name value)

end Cli

end Tricolor
