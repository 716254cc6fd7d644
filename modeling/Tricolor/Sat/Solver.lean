import Tricolor.Sat.Frontend
import Tricolor.Sat.Search
import Tricolor.Sat.TruthTable

/-!
# The solver of the library

The engine of the library keeps the clauses it is given and decides them
anew in each call, together with the assumptions that were set last. Its
answers come from decisions, which carry their proofs.
-/

namespace Tricolor

/-- Decides whether clauses are satisfiable: by search, or by the truth
table if the search gives up. -/
def Decision.ofClauses (clauses : List (List Lit)) : Decision clauses :=
  match Search.decision? clauses with
  | some d => d
  | none => TruthTable.decision clauses

/-- An engine between two calls. -/
structure Kernel where
  /-- Variables have the numbers below this one. -/
  numVars : Nat
  clauses : Array (List Lit)
  assumptions : List Lit
  /-- The true literals, if the last call found a model. -/
  model : Option (List Lit)
  deriving DecidableEq, Repr

namespace Kernel

/-- The clauses to be satisfied: those of the engine, and a unit clause for
every assumption. -/
def goal (k : Kernel) : List (List Lit) :=
  k.clauses.toList ++ k.assumptions.map fun l => [l]

/-- The true literals of a valuation. -/
def literals (k : Kernel) (v : Valuation) : List Lit :=
  (List.range k.numVars).map fun i => ⟨i, v i⟩

/-- Decides the clauses under the assumptions. -/
def solve (k : Kernel) : Except String Bool × Kernel :=
  let model := (Decision.ofClauses k.goal).model?.map k.literals
  (.ok model.isSome, { k with model })

instance : Engine Kernel where
  fresh := ⟨0, #[], [], none⟩
  newVar k := (k.numVars, { k with numVars := k.numVars + 1 })
  addClause k clause := { k with clauses := k.clauses.push clause }
  assume k assumptions := { k with assumptions }
  solve := solve
  model? := model

end Kernel

/-- The clauses that the engine of the library keeps, over the variables
of the caller. -/
def Frontend.clauses (s : Frontend Kernel) : Array (List Lit) :=
  s.inner.clauses.map fun clause => clause.map fun l => ⟨l.var + 1, l.sign⟩

/-- The solver with the engine of the library. -/
abbrev Solver := Frontend Kernel

namespace Solver

/-- A solver without variables and clauses. -/
def empty : Solver := Frontend.empty

instance : Inhabited Solver := ⟨empty⟩

/-- Looks for a model in which the assumptions hold. The engine of the
library always answers. -/
def solve (s : Solver) (assumptions : List Lit) : Bool × Solver :=
  match Frontend.solve s assumptions with
  | (.ok answer, s) => (answer, s)
  | (.error _, s) => (false, s)

end Solver

end Tricolor
