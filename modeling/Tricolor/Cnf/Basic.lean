/-!
# Propositional formulas in conjunctive normal form

A literal is a variable with a sign, a clause is a list of literals, and
a formula in conjunctive normal form is a list of clauses together with
a number of variables that covers every literal. Variables count from 1.
A model is a list whose entry `v` is the value of variable `v`; entry 0
is unused.
-/

namespace Tricolor

/-- A variable or its negation. -/
structure Lit where
  var : Nat
  /-- `true` for the variable itself, `false` for its negation. -/
  sign : Bool
  deriving DecidableEq, Repr

namespace Lit

def pos (var : Nat) : Lit := ⟨var, true⟩
def neg (var : Nat) : Lit := ⟨var, false⟩

/-- The literal of the same variable with the other sign. -/
def negate (l : Lit) : Lit := ⟨l.var, !l.sign⟩

/-- Variable numbers fit in 32 bits. -/
def varBound : Nat := UInt32.size

/-- The literal that a signed integer stands for. Zero, which ends a
clause in DIMACS text, and numbers past the variable bound stand for
none. -/
def ofInt? (x : Int) : Option Lit :=
  if x = 0 ∨ varBound ≤ x.natAbs then none else some ⟨x.natAbs, decide (0 < x)⟩

/-- The signed integer that stands for a literal. -/
def toInt (l : Lit) : Int :=
  if l.sign then l.var else -l.var

/-- The value of a literal under a model, if the model covers its
variable. -/
def eval? (l : Lit) (model : List Bool) : Option Bool :=
  model[l.var]?.map fun value => if l.sign then value else !value

end Lit

/-- A formula in conjunctive normal form. -/
structure Cnf where
  numVars : Nat
  clauses : List (List Lit)
  deriving DecidableEq, Repr

namespace Cnf

/-- A number of variables that covers a clause and is at least `n`. -/
def coverVars (n : Nat) (clause : List Lit) : Nat :=
  clause.foldl (fun m l => max m l.var) n

/-- The formula with the given clauses over at least `n` variables; the
number grows to cover every literal. -/
def ofClauses (n : Nat) (clauses : List (List Lit)) : Cnf :=
  ⟨clauses.foldl coverVars n, clauses⟩

/-- Adds a clause at the end and covers its variables. -/
def addClause (cnf : Cnf) (clause : List Lit) : Cnf :=
  ⟨coverVars cnf.numVars clause, cnf.clauses ++ [clause]⟩

/-- Whether some literal of the clause is true; a literal that the model
does not cover is not. -/
def evalClause (clause : List Lit) (model : List Bool) : Bool :=
  clause.any fun l => l.eval? model == some true

/-- Whether every clause holds under the model. -/
def eval (cnf : Cnf) (model : List Bool) : Bool :=
  cnf.clauses.all (evalClause · model)

/-- Adding a clause is building with one clause more. -/
theorem addClause_ofClauses (n : Nat) (clauses : List (List Lit)) (clause : List Lit) :
    (ofClauses n clauses).addClause clause = ofClauses n (clauses ++ [clause]) := by
  simp [ofClauses, addClause]

end Cnf

end Tricolor
