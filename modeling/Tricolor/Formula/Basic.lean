import Tricolor.Cnf.Basic
import Tricolor.Error

/-!
# Formulas with three literals per clause

A formula is a list of clauses of three signed 32-bit variable numbers
over the variables `1..numVars`. It is built freely: `validate` is what
tells whether each literal is nonzero and in range. An assignment gives
the variables from 1 on a value each, and `isSatisfiedBy` is the meaning
of a formula, valid or not.
-/

namespace Tricolor

/-- A signed variable number; a negative one is a negated variable. -/
abbrev Literal := Int32

namespace Literal

/-- The variable of a literal. -/
def var (x : Literal) : Nat := x.toInt.natAbs

/-- Whether a literal is a variable without negation. -/
def isPositive (x : Literal) : Bool := decide (0 < x.toInt)

end Literal

/-- Three literals, of which one is to be true. -/
structure Clause where
  first : Literal
  second : Literal
  third : Literal
  deriving DecidableEq, Repr

namespace Clause

/-- The literals of a clause, in order. -/
def literals (c : Clause) : List Literal := [c.first, c.second, c.third]

/-- The clause with the given literals, if they are three. -/
def ofList? : List Literal → Option Clause
  | [a, b, c] => some ⟨a, b, c⟩
  | _ => none

end Clause

/-- Truth values for the variables from 1 on. -/
structure Assignment where
  /-- Entry `i` is the value of variable `i + 1`. -/
  values : List Bool
  deriving DecidableEq, Repr

namespace Assignment

/-- The number of values. -/
def size (a : Assignment) : Nat := a.values.length

/-- The number of variables as a 32-bit word. -/
def numVars (a : Assignment) : Nat := a.size % UInt32.size

/-- The value of a variable, if it has one. -/
def get? (a : Assignment) (var : Nat) : Option Bool :=
  if var = 0 then none else a.values[var - 1]?

/-- The value of a literal, if its variable has one. -/
def literal? (a : Assignment) (x : Literal) : Option Bool :=
  (a.get? x.var).map fun value => if x.isPositive then value else !value

/-- The variables with their values, in order. Variables are counted in
32 bits. -/
def entries (a : Assignment) : List (Nat × Bool) :=
  a.values.zipIdx.map fun (value, i) => ((UInt32.ofNat i + 1).toNat, value)

/-- The assignment as a solver's model line: every variable signed by
its value, then 0. -/
def modelLine (a : Assignment) : String :=
  "v" ++ String.join (a.entries.map fun (var, value) =>
    (if value then " " else " -") ++ toString var) ++ " 0"

end Assignment

/-- A formula over the variables `1..numVars`. -/
structure Formula where
  numVars : UInt32
  clauses : List Clause
  deriving DecidableEq, Repr

namespace Formula

/-- Adds a clause at the end. -/
def addClause (f : Formula) (c : Clause) : Formula :=
  { f with clauses := f.clauses ++ [c] }

/-- Whether a literal names one of the first `n` variables. -/
def inRange (n : Nat) (x : Literal) : Bool :=
  x.var != 0 && decide (x.var ≤ n)

/-- The first literal that is zero or out of range, with the number of
its clause. -/
def firstFault (f : Formula) : Option (Nat × Literal) :=
  f.clauses.zipIdx.findSome? fun (c, k) =>
    (c.literals.find? (!inRange f.numVars.toNat ·)).map fun x => (k, x)

/-- Refuses a formula with a zero literal or one out of range. -/
def validate (f : Formula) : Except Error Unit :=
  match f.firstFault with
  | none => .ok ()
  | some (k, x) => .error (.literalOutOfRange k x.toInt f.numVars.toNat)

/-- Whether each clause has a true literal. -/
def isSatisfiedBy (f : Formula) (a : Assignment) : Bool :=
  f.clauses.all fun c => c.literals.any fun x => a.literal? x == some true

/-- The same formula with variables and signs apart; zeros are dropped,
and variables out of range are covered. -/
def toCnf (f : Formula) : Cnf :=
  Cnf.ofClauses f.numVars.toNat
    (f.clauses.map fun c => c.literals.filterMap fun x => Lit.ofInt? x.toInt)

end Formula

end Tricolor
