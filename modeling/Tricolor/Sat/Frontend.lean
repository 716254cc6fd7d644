import Tricolor.Sat.Backend

/-!
# The incremental solver

A solver decides nothing itself. It has an engine, which numbers its
variables in its own way, and stands between the engine and its caller:
a table translates the variables that the caller knows, literals over
other variables are dropped, and the model that the engine shows is kept,
variable by variable, until the next call that solves.
-/

namespace Tricolor

/-- An engine that decides clauses, with states of type `E`. The variable
of a literal handed to an engine is the engine's own number for it. -/
class Engine (E : Type) where
  /-- An engine without variables and clauses. -/
  fresh : E
  /-- Adds a variable, and tells its number. -/
  newVar : E → Nat × E
  addClause : E → List Lit → E
  /-- Sets the assumptions of the calls that follow. -/
  assume : E → List Lit → E
  /-- Whether the clauses have a model in which the assumptions hold, or
  the reason why there is no answer. -/
  solve : E → Except String Bool × E
  /-- The literals that are true in the model of the last call. -/
  model? : E → Option (List Lit)

/-- What a solver counts. -/
structure SolverStats where
  solveCalls : Nat
  vars : Nat
  clauses : Nat
  deriving DecidableEq, Repr

/-- An incremental solver, which decides by an engine. -/
structure Frontend (E : Type) where
  inner : E
  /-- The numbers that the engine has for the variables from 1 on. -/
  vars : Array Nat
  /-- The values of the variables from 1 on, if the last call found a
  model. -/
  model : Option (Array Bool)
  stats : SolverStats
  deriving DecidableEq, Repr

namespace Frontend

/-- The name of the solver in errors. -/
def backendName : String := "varisat"

/-! ## Between the caller and the engine -/

/-- The literal that the engine has for a literal, if its variable is in
the table. -/
def translate? (vars : Array Nat) (l : Lit) : Option Lit :=
  if l.var = 0 then none else vars[l.var - 1]?.map fun v => ⟨v, l.sign⟩

/-- What is handed to the engine. Literals over variables that are not
allocated are dropped. -/
def translate (vars : Array Nat) (lits : List Lit) : List Lit := lits.filterMap (translate? vars)

/-- The value of every number below `size` in a model of the engine.
Numbers that the model leaves out are false, and larger ones are
ignored. -/
def byNumber (size : Nat) (model : List Lit) : Array Bool :=
  model.foldl (fun slots l => slots.setIfInBounds l.var l.sign) (Array.replicate size false)

/-- The values of the variables in a model of the engine. -/
def readBack (vars : Array Nat) (model : List Lit) : Array Bool :=
  let slots := byNumber vars.size model
  vars.map fun v => slots[v]?.getD false

/-! ## Calls -/

section Calls

variable {E : Type} [Engine E]

/-- A solver without variables and clauses. -/
def empty : Frontend E := ⟨Engine.fresh, #[], none, ⟨0, 0, 0⟩⟩

/-- Allocates the next variable, and tells its number as a 32-bit one. -/
def allocate (s : Frontend E) : Nat × Frontend E :=
  let ⟨inner, vars, model, stats⟩ := s
  let (v, inner) := Engine.newVar inner
  let vars := vars.push v
  (vars.size % Lit.varBound, ⟨inner, vars, model, { stats with vars := vars.size }⟩)

/-- Allocates the next variable. -/
def newVar (s : Frontend E) : Frontend E := s.allocate.2

/-- Adds a clause. -/
def addClause (s : Frontend E) (clause : List Lit) : Frontend E :=
  let ⟨inner, vars, model, stats⟩ := s
  ⟨Engine.addClause inner (translate vars clause), vars, model,
    { stats with clauses := stats.clauses + 1 }⟩

/-- Looks for a model in which the assumptions hold. The model of the call
before is dropped first. -/
def solve (s : Frontend E) (assumptions : List Lit) : Except Error Bool × Frontend E :=
  let ⟨inner, vars, _, stats⟩ := s
  let stats := { stats with solveCalls := stats.solveCalls + 1 }
  match Engine.solve (Engine.assume inner (translate vars assumptions)) with
  | (.error reason, inner) =>
    (.error (.oracle backendName (.reported reason)), ⟨inner, vars, none, stats⟩)
  | (.ok false, inner) => (.ok false, ⟨inner, vars, none, stats⟩)
  | (.ok true, inner) =>
    let model := (Engine.model? inner).getD []
    (.ok true, ⟨inner, vars, some (readBack vars model), stats⟩)

end Calls

variable {E : Type}

/-- The value of a variable in the model of the last call. -/
def value? (s : Frontend E) (var : Nat) : Option Bool :=
  if var = 0 then none else s.model.bind (·[var - 1]?)

/-- The number of allocated variables. -/
def numVars (s : Frontend E) : Nat := s.stats.vars

/-- The number of calls that solve so far. -/
def solveCalls (s : Frontend E) : Nat := s.stats.solveCalls

/-- Whether the variable of a literal is allocated. -/
def knows (s : Frontend E) (l : Lit) : Bool := (translate? s.vars l).isSome

instance [Engine E] : Backend (Frontend E) where
  name := backendName
  numVars := numVars
  newVar := newVar
  addClause := addClause
  solve := solve
  value? := value?

end Frontend

end Tricolor
