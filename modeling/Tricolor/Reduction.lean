import Tricolor.Coloring.Backtrack
import Tricolor.Coloring.Dsatur
import Tricolor.Coloring.SatOracle
import Tricolor.Gadget.Build
import Tricolor.Gadget.Roles
import Tricolor.Sat.Solver

/-!
# Satisfiability through 3-coloring

A formula is decided by coloring its gadget graph. A coloring that stays
within the three role colors is read as an assignment, which is checked
against the formula; a fourth color, or the answer that there is no
coloring, is read as a refutation. Three strategies are exact. The greedy
one may run into a fourth color although the formula has a model.
-/

namespace Tricolor

open Gadget (ColorRoles Node)

/-- How the gadget graph is colored. -/
inductive Strategy where
  /-- Greedily, from the reference triangle on. A fourth color is read as
  a refutation, which can be wrong. -/
  | dsatur
  /-- A model of the formula fixes the literals, and the gadgets are
  colored greedily. -/
  | modelSeeded
  /-- Exactly, through satisfiability of the coloring problem. -/
  | satColoring
  /-- Exactly, by backtracking. -/
  | backtrack
  deriving DecidableEq, Repr

namespace Strategy

instance : Inhabited Strategy := ⟨modelSeeded⟩

/-- The name of a strategy. -/
def name : Strategy → String
  | dsatur => "dsatur"
  | modelSeeded => "model"
  | satColoring => "sat"
  | backtrack => "backtrack"

/-- The strategy of a name. -/
def ofName? : String → Option Strategy
  | "model" => some modelSeeded
  | "dsatur" => some dsatur
  | "sat" => some satColoring
  | "backtrack" => some backtrack
  | _ => none

end Strategy

/-- What a reduction finds out about a formula. -/
inductive Verdict where
  | satisfiable (a : Assignment)
  | unsatisfiable (reason : Refutation)
  deriving DecidableEq, Repr

/-- The outcome of a reduction. -/
structure Solution where
  /-- The name of the oracle that colored the graph. -/
  oracle : String
  graph : Graph Node
  /-- Missing if the oracle answered without a coloring. -/
  coloring : Option (Coloring Node)
  /-- The number of different colors in the coloring. -/
  colorsUsed : Nat
  verdict : Verdict

namespace Reduction

/-- The outcome without a coloring. -/
def refuted (oracle : String) (g : Graph Node) (reason : Refutation) : Solution :=
  ⟨oracle, g, none, 0, .unsatisfiable reason⟩

/-- The verdict that a coloring gives. A fourth color is a refutation; an
assignment has to satisfy the formula. -/
def judge (f : Formula) (oracle : String) (roles : ColorRoles) (coloring : Coloring Node) :
    Except Error Verdict :=
  match roles.extract coloring f.numVars.toNat with
  | .ok a =>
    if f.isSatisfiedBy a then .ok (.satisfiable a) else .error (.oracle oracle .falsifiedClause)
  | .error (.unsatisfiable reason) => .ok (.unsatisfiable reason)
  | .error e => .error e

/-- Turns the answer of an oracle into the outcome. A coloring has to be
proper. -/
def finish (f : Formula) (g : Graph Node) (oracle : String) (roles : ColorRoles) :
    Option (Coloring Node) → Except Error Solution
  | none => .ok (refuted oracle g (.noColoring oracle))
  | some coloring => do
    -- the oracle's word is not taken for it
    if !isProper g coloring then throw (.oracle oracle .improperColoring)
    let verdict ← judge f oracle roles coloring
    return ⟨oracle, g, some coloring, coloring.colorsUsed.length, verdict⟩

/-- Decides a formula with any coloring oracle, which is asked to extend
the coloring of the reference triangle. The oracle is not asked if the
formula is not valid. -/
def solveWithOracle {σ : Type} [ColoringOracle σ Node] (f : Formula) (oracle : σ)
    (roles : ColorRoles) : Except Error Solution × σ :=
  match Gadget.build f with
  | .error e => (.error e, oracle)
  | .ok g =>
    let (answer, oracle) := ColoringOracle.color oracle g roles.referenceSeed roles.palette
    (answer.bind (finish f g (ColoringOracle.name σ Node) roles), oracle)

/-- Decides a formula by a model of it, which is then confirmed by a
greedy coloring. The model is found by a solver, from the given state
on. -/
def solveModelSeeded {S : Type} [Backend S] (start : S) (f : Formula) (roles : ColorRoles) :
    Except Error Solution := do
  let g ← Gadget.build f
  let oracle := Strategy.modelSeeded.name
  match ← (Backend.solveFormula start f).1 with
  | none => return refuted oracle g .noModel
  | some model =>
    let coloring ← Tricolor.dsatur g (roles.modelSeed model) roles.palette
    finish f g oracle roles (some coloring)

/-- Decides a formula by a strategy. The strategies that ask a solver
start it in the given state. -/
def solveFrom {S : Type} [Backend S] (start : S) (f : Formula) (strategy : Strategy)
    (roles : ColorRoles) : Except Error Solution :=
  match strategy with
  | .dsatur => (solveWithOracle f (default : Dsatur) roles).1
  | .satColoring => (solveWithOracle f (SatOracle.mk start) roles).1
  | .backtrack => (solveWithOracle f Backtracker.unlimited roles).1
  | .modelSeeded => solveModelSeeded start f roles

/-- Decides a formula by a strategy, with the solver of the library. -/
def solve (f : Formula) (strategy : Strategy) (roles : ColorRoles) : Except Error Solution :=
  solveFrom Solver.empty f strategy roles

end Reduction

end Tricolor
