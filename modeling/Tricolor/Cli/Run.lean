import Tricolor.Cli.Command
import Tricolor.Cli.FileAccess
import Tricolor.Formula.Dimacs
import Tricolor.Formula.Random
import Tricolor.Graph.Dot
import Tricolor.Cnf.Dimacs
import Tricolor.Reduction

/-!
# Running commands

A command reads and writes files, prints lines, and may fail; what it
printed before it failed stays printed. Exit codes are 0 for success, 1
for a failed command and 2 for arguments that are not those of a
command.
-/

namespace Tricolor

namespace Cli

/-- Why a command failed: what could not be done, and the cause of it if
that is another matter. -/
structure Failure where
  outer : String
  cause : Option String
  deriving DecidableEq, Repr

namespace Failure

/-- The failure of an operation of the library. -/
def ofError (e : Error) : Failure := ⟨e.message, none⟩

/-- The report of a failure. -/
def report (f : Failure) : String :=
  "Error: " ++ f.outer ++ "\n" ++
    match f.cause with
    | some cause => "\nCaused by:\n    " ++ cause ++ "\n"
    | none => ""

end Failure

/-- What a run of the program leaves behind, apart from files. -/
structure Outcome where
  code : Nat
  stdout : String
  /-- The failure to report, if the command failed. -/
  failure : Option Failure
  deriving DecidableEq, Repr

/-- A running command: it collects what is printed and may fail. -/
abbrev Session (m : Type → Type) := ExceptT Failure (StateT String m)

variable {m : Type → Type} [Monad m]

/-- Prints a line. -/
def printLine (line : String) : Session m Unit := modify (· ++ line ++ "\n")

/-- Named values as they are printed on one line. -/
def fields (values : List (String × String)) : String :=
  String.intercalate " " (values.map fun (name, value) => name ++ "=" ++ value)

/-- The size of a graph as named values. -/
def sizeFields (g : Graph Gadget.Node) : List (String × String) :=
  [("nodes", toString g.nodeCount), ("edges", toString g.edgeCount)]

/-- The size of a formula as named values. -/
def formulaFields (f : Formula) : List (String × String) :=
  [("vars", toString f.numVars.toNat), ("clauses", toString f.clauses.length)]

/-- The value of an operation of the library, whose failure is the
command's. -/
def orFail (result : Except Error α) : Session m α :=
  match result with
  | .ok a => return a
  | .error e => throw (.ofError e)

variable [FileAccess m]

/-- Reads a formula from a file. -/
def loadFormula (path : String) : Session m Formula := do
  let parsed : Except Error Formula ←
    match ← (FileAccess.read path : m ReadResult) with
    | .closed reason => throw ⟨s!"failed to open {path}", some reason⟩
    | .unreadable reason => pure (.error (.parse 1 (.unreadable reason)))
    | .bytes content => pure (Formula.ofDimacsBytes content)
  match parsed with
  | .ok f => return f
  | .error e => throw ⟨s!"failed to parse {path}", some e.message⟩

/-- Writes a file. -/
def writeFile (path content : String) : Session m Unit := do
  match ← (FileAccess.write path content : m (Except String Unit)) with
  | .ok () => return ()
  | .error reason => throw ⟨s!"failed to write {path}", some reason⟩

/-- Reports the size of a gadget graph, and exports the graph if asked
to. -/
def runReduce (path : String) (dot : Option String) : Session m Unit := do
  let f ← loadFormula path
  let g ← orFail (Gadget.build f)
  printLine (fields (formulaFields f ++ sizeFields g))
  if let some out := dot then writeFile out (g.toDot none)

/-- Reports the verdict on a formula, and exports the coloring if asked
to. -/
def runSolve (path strategy : String) (dot : Option String) : Session m Unit := do
  let f ← loadFormula path
  -- the name of the strategy is looked at once the formula is there
  match Strategy.ofName? strategy with
  | none => throw ⟨s!"unknown strategy '{strategy}', expected model|dsatur|sat|backtrack", none⟩
  | some strategy =>
    let solution ← orFail (Reduction.solve f strategy .standard)
    let g := solution.graph
    printLine (fields ([("oracle", solution.oracle)] ++ sizeFields g ++
      [("colors_used", toString solution.colorsUsed)]))
    match solution.verdict with
    | .satisfiable a =>
      printLine "s SATISFIABLE"
      printLine a.modelLine
    | .unsatisfiable reason =>
      printLine "s UNSATISFIABLE"
      printLine s!"c {reason.message}"
    if let some out := dot then writeFile out (g.toDot solution.coloring)

/-- Writes a random formula and reports its size. -/
def runGenerate (vars clauses seed : Nat) (planted : Bool) (emit : String) : Session m Unit := do
  if vars = 0 ∧ 0 < clauses then
    throw ⟨"--vars must be >= 1 when clauses are requested", none⟩
  let n := UInt32.ofNat vars
  let s := UInt64.ofNat seed
  let f := if planted then (Formula.planted n clauses s).1 else Formula.random n clauses s
  writeFile emit f.toDimacs
  let size := fields (formulaFields f ++ [("planted", toString planted)])
  printLine s!"GEN: wrote {emit} | {size}"

/-- Writes the coloring problem of a gadget graph and reports its
size. -/
def runGraphCnf (path : String) (colors : Nat) (emit : String) : Session m Unit := do
  if colors = 0 then throw ⟨"--colors must be >= 1", none⟩
  let f ← loadFormula path
  let g ← orFail (Gadget.build f)
  let enc ← orFail (Encoding.encode g .empty (Color.below colors))
  writeFile emit enc.cnf.toDimacs
  printLine (fields [("nodes", toString g.nodeCount), ("colors", toString colors),
    ("vars", toString enc.cnf.numVars), ("clauses", toString enc.cnf.clauses.length)])

/-- Runs a command. -/
def runCommand : Command → Session m Unit
  | .reduce path dot => runReduce path dot
  | .solve path strategy dot => runSolve path strategy dot
  | .generate vars clauses seed planted emit => runGenerate vars clauses seed planted emit
  | .graphCnf path colors emit => runGraphCnf path colors emit

/-- Runs a command to its end. -/
def execute (command : Command) : m Outcome := do
  let (result, printed) ← (runCommand command).run.run ""
  match result with
  | .ok () => return ⟨0, printed, none⟩
  | .error failure => return ⟨1, printed, some failure⟩

/-- Runs the program with the given arguments. -/
def run (args : List String) : m Outcome :=
  match Command.ofArguments args with
  | .ok command => execute command
  | .error stop => return ⟨stop.code, "", none⟩

end Cli

end Tricolor
