import Tricolor.Cli.Arguments

/-!
# Commands

The four commands of the program with their settings, and how they are
read from a command line.
-/

namespace Tricolor

namespace Cli

/-- What the program is asked to do. -/
inductive Command where
  /-- Build the gadget graph of a formula and report its size. -/
  | reduce (path : String) (dot : Option String)
  /-- Decide a formula through the coloring of its gadget graph. -/
  | solve (path strategy : String) (dot : Option String)
  /-- Write a random formula. -/
  | generate (vars clauses seed : Nat) (planted : Bool) (emit : String)
  /-- Write the coloring problem of a gadget graph as DIMACS text. -/
  | graphCnf (path : String) (colors : Nat) (emit : String)
  deriving DecidableEq, Repr

namespace Command

/-- The names of the commands. -/
def names : List String := ["reduce", "solve", "gen", "graph-cnf"]

/-- What a command accepts. -/
def spec? : String → Option Spec
  | "reduce" => some ⟨true, [("dot", .text)], []⟩
  | "solve" => some ⟨true, [("strategy", .text), ("dot", .text)], []⟩
  | "gen" =>
    some ⟨false, [("vars", .word32), ("clauses", .word64), ("seed", .word64), ("emit", .text)],
      ["planted"]⟩
  | "graph-cnf" => some ⟨true, [("colors", .word32), ("emit", .text)], []⟩
  | _ => none

/-- The command of a name with what it was given, unless something is
missing. -/
def ofGiven? (name : String) (g : Given) : Option Command :=
  let number? (kind : ValueKind) (option : String) : Option Nat :=
    (g.value? option).bind kind.number?
  match name with
  | "reduce" => do return .reduce (← g.path) (g.value? "dot")
  | "solve" => do
    return .solve (← g.path) ((g.value? "strategy").getD "model") (g.value? "dot")
  | "gen" => do
    return .generate (← number? .word32 "vars") (← number? .word64 "clauses")
      ((number? .word64 "seed").getD 1) (g.flags.contains "planted") (← g.value? "emit")
  | "graph-cnf" => do
    return .graphCnf (← g.path) ((number? .word32 "colors").getD 3) (← g.value? "emit")
  | _ => none

/-- Reads the words after `help`: at most one command name. -/
def readHelp : List String → UsageStop
  | [] => .help
  | [name] => if names.contains name || name == "help" then .help else .fault
  | _ => .fault

/-- Reads a command line. Options for more output may come before the
name of the command. -/
def ofArguments : List String → Except UsageStop Command
  | [] => .error .fault
  | arg :: rest =>
    match Argument.ofString arg with
    | .plain name =>
      match spec? name with
      | some spec => do
        let g ← readArguments spec none rest .nothing
        match ofGiven? name g with
        | some command => return command
        | none => throw .fault
      | none => .error (if name == "help" then readHelp rest else .fault)
    | .short letters => do
      readShort letters
      ofArguments rest
    | .long "verbose" none => ofArguments rest
    | .long "help" none => .error .help
    | _ => .error .fault

end Command

end Cli

end Tricolor
