import Tricolor.Color

/-!
# Causes of failure

Every operation of the library that can fail does so with an `Error`,
which names the cause. `Error.message` is the one place where causes are
put into words.
-/

namespace Tricolor

/-- Why a partial coloring cannot serve as a seed. -/
inductive SeedFault where
  /-- The seed colors a node the graph does not have. -/
  | unknownNode (node : String)
  /-- Two neighbors of the seed wear one color. -/
  | adjacentSame (node neighbor : String) (color : Color)
  /-- The seed uses a color that the palette does not offer. -/
  | outsidePalette (color : Color) (node : String)
  deriving DecidableEq, Repr

/-- Why a formula is taken to have no model. -/
inductive Refutation where
  /-- A coloring reached past the three role colors. -/
  | fourthColor (node : String) (color : Color)
  /-- The satisfiability solver found no model. -/
  | noModel
  /-- The named oracle found no 3-coloring. -/
  | noColoring (oracle : String)
  deriving DecidableEq, Repr

/-- What went wrong inside an oracle. -/
inductive OracleFault where
  /-- The search used up its branching steps. -/
  | stepLimit (limit : Nat)
  /-- The palette is larger than the search accepts. -/
  | paletteTooLarge (size limit : Nat)
  /-- The answer leaves a node uncolored or an edge monochromatic. -/
  | improperColoring
  /-- The assignment read off the answer falsifies a clause. -/
  | falsifiedClause
  /-- The model gives some node no color. -/
  | uncoloredNode
  /-- A fault that the oracle describes itself. -/
  | reported (reason : String)
  deriving DecidableEq, Repr

/-- What is wrong with a line of DIMACS text. -/
inductive ParseFault where
  /-- The text cannot be read, for a reason that the system gives. -/
  | unreadable (reason : String)
  | notUtf8
  | duplicateHeader
  | malformedHeader
  | badVariableCount (token : String)
  | badClauseCount (token : String)
  | badLiteral (token : String)
  /-- A clause holds some number of literals other than three. -/
  | clauseWidth (found : Nat)
  deriving DecidableEq, Repr

/-- The cause of a failed operation. Nodes are named by their labels. -/
inductive Error where
  /-- An edge joins a node to itself. -/
  | selfLoop (node : String)
  /-- A literal is zero or its variable is out of range; clauses count
  from 0. -/
  | literalOutOfRange (clause : Nat) (literal : Int) (numVars : Nat)
  | invalidSeed (fault : SeedFault)
  | unsatisfiable (reason : Refutation)
  /-- A node that must be colored is not. -/
  | uncolored (node : String)
  | oracle (backend : String) (fault : OracleFault)
  /-- Lines count from 1. -/
  | parse (line : Nat) (fault : ParseFault)
  deriving DecidableEq, Repr

namespace SeedFault

/-- The wording of a seed fault. -/
def message : SeedFault → String
  | unknownNode node => s!"node {node} is not in the graph"
  | adjacentSame node neighbor color =>
    s!"adjacent nodes {node} and {neighbor} are both {color.name}"
  | outsidePalette color node =>
    s!"seed color {color.name} of node {node} is not in the palette"

end SeedFault

namespace Refutation

/-- The wording of a refutation. -/
def message : Refutation → String
  | fourthColor node color => s!"node {node} needed a fourth color ({color.name})"
  | noModel => "sat oracle found no model"
  | noColoring oracle => s!"{oracle} found no 3-coloring"

end Refutation

namespace OracleFault

/-- The wording of an oracle's fault. -/
def message : OracleFault → String
  | stepLimit limit => s!"step limit {limit} exceeded"
  | paletteTooLarge size limit => s!"palette of {size} colors exceeds {limit}"
  | improperColoring => "coloring is incomplete or has a monochromatic edge"
  | falsifiedClause => "extracted assignment falsifies a clause"
  | uncoloredNode => "model leaves a node uncolored"
  | reported reason => reason

end OracleFault

namespace ParseFault

/-- The wording of a fault in DIMACS text. -/
def message : ParseFault → String
  | unreadable reason => reason
  | notUtf8 => "stream did not contain valid UTF-8"
  | duplicateHeader => "duplicate problem line"
  | malformedHeader => "invalid header, expected: p cnf VARS CLAUSES"
  | badVariableCount token => s!"invalid variable count '{token}'"
  | badClauseCount token => s!"invalid clause count '{token}'"
  | badLiteral token => s!"invalid literal '{token}'"
  | clauseWidth found => s!"expected 3 literals per clause, found {found}"

end ParseFault

namespace Error

/-- The wording of an error, as shown to a user. -/
def message : Error → String
  | selfLoop node => s!"invalid edge: self-loop on node {node}"
  | literalOutOfRange clause literal numVars =>
    s!"invalid clause {clause}: literal {literal} is outside 1..={numVars}"
  | invalidSeed fault => s!"invalid seed: {fault.message}"
  | unsatisfiable reason => s!"unsatisfiable: {reason.message}"
  | uncolored node => s!"incomplete coloring: node {node} has no color"
  | oracle backend fault => s!"oracle failure ({backend}): {fault.message}"
  | parse line fault => s!"parse error on line {line}: {fault.message}"

/-- Whether the error reports that a formula has no model. -/
def isUnsat : Error → Bool
  | unsatisfiable _ => true
  | _ => false

end Error

end Tricolor
