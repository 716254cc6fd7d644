import Tricolor.Coloring.Encoding
import Tricolor.Sat.Backend

/-!
# Exact coloring through satisfiability

The oracle encodes a coloring problem, asks a satisfiability solver for a
model and reads the coloring off it. Every call starts from the same
state of the solver.
-/

namespace Tricolor

/-- Exact coloring with a solver whose states have type `S`. -/
structure SatOracle (S : Type) where
  /-- The state of the solver at the start of every call. -/
  start : S

namespace SatOracle

variable {S : Type} [Backend S] {α : Type} [DecidableEq α] [ToString α]

/-- Solves a coloring problem, and tells in which state it leaves the
solver. The solver is not asked if the problem has no encoding. -/
def colorWith (s : S) (g : Graph α) (seed : Coloring α) (palette : List Color) :
    OracleAnswer α × S :=
  match Encoding.encode g seed palette with
  | .error e => (.error e, s)
  | .ok enc =>
    match Backend.solve (Backend.loadCnf s enc.cnf) [] with
    | (.error e, s) => (.error e, s)
    | (.ok false, s) => (.ok none, s)
    | (.ok true, s) =>
      match enc.decode g (Backend.value? s) with
      | some coloring => (.ok (some coloring), s)
      | none => (.error (.oracle (Backend.name S) .uncoloredNode), s)

instance : ColoringOracle (SatOracle S) α where
  name := "sat-coloring"
  color oracle g seed palette := ((colorWith oracle.start g seed palette).1, oracle)

end SatOracle

end Tricolor
