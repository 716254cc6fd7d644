import Tricolor.Formula.Basic

/-!
# Satisfiability solvers

What the library asks of an incremental satisfiability solver: to
allocate variables, numbered from 1, to take clauses, to answer whether
they have a model under some assumptions, and to show the model. The
operations below work with any such solver.
-/

namespace Tricolor

/-- An incremental satisfiability solver with states of type `S`. -/
class Backend (S : Type) where
  /-- The name of the solver in errors. -/
  name : String
  /-- The number of allocated variables. -/
  numVars : S → Nat
  /-- Allocates the next variable. -/
  newVar : S → S
  addClause : S → List Lit → S
  /-- Whether there is a model in which the assumptions hold. -/
  solve : S → List Lit → Except Error Bool × S
  /-- The value of a variable in the last model. -/
  value? : S → Nat → Option Bool

namespace Backend

variable {S : Type} [Backend S]

/-- Allocates the variables that a formula has and the solver lacks, and
adds every clause. The solver's count is taken as a 32-bit number. -/
def loadCnf (s : S) (cnf : Cnf) : S :=
  cnf.clauses.foldl addClause (Nat.repeat newVar (cnf.numVars - numVars s % Lit.varBound) s)

/-- The model of the solver for the variables `1..n`. A variable that the
solver leaves out is false. -/
def model (s : S) (n : Nat) : Assignment :=
  ⟨(List.range' 1 n).map fun var => (value? s var).getD false⟩

/-- A model of a formula, if it has one. The formula is added to what the
solver holds, unless it is not valid. -/
def solveFormula (s : S) (f : Formula) : Except Error (Option Assignment) × S :=
  match f.validate with
  | .error e => (.error e, s)
  | .ok () =>
    match solve (loadCnf s f.toCnf) [] with
    | (.error e, s) => (.error e, s)
    | (.ok false, s) => (.ok none, s)
    | (.ok true, s) => (.ok (some (model s f.numVars.toNat)), s)

end Backend

end Tricolor
