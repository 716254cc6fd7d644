import Tricolor.Cnf.Basic

/-!
# DIMACS text of a formula in conjunctive normal form

A header line gives the number of variables and of clauses; then each
clause is a line of signed integers that ends with 0.
-/

namespace Tricolor

namespace Dimacs

/-- The header line. -/
def header (numVars numClauses : Nat) : String :=
  "p cnf " ++ toString numVars ++ " " ++ toString numClauses ++ "\n"

/-- The line of a clause: each integer before a blank, then 0. -/
def clauseLine (literals : List Int) : String :=
  String.join (literals.map fun x => toString x ++ " ") ++ "0\n"

end Dimacs

/-- The DIMACS text of a formula. -/
def Cnf.toDimacs (cnf : Cnf) : String :=
  Dimacs.header cnf.numVars cnf.clauses.length ++
    String.join (cnf.clauses.map fun clause => Dimacs.clauseLine (clause.map Lit.toInt))

end Tricolor
