import Tricolor.Formula.Basic
import Tricolor.Random.ChaCha

/-!
# Random formulas

Clauses of three literals, each with a random variable and a random
sign, so literals may repeat inside a clause. A planted formula is drawn
together with a hidden assignment that satisfies it. The seed determines
the outcome.
-/

namespace Tricolor

namespace Formula

open Tricolor.Random

/-- Random formulas have at most as many variables as there are positive
literals. -/
def clampVars (n : UInt32) : UInt32 := if n ≤ 2147483647 then n else 2147483647

/-- A literal over the variables `1..n`: its variable, then its sign. -/
def drawLiteral (n : Nat) : Draw Literal := do
  let x := Int32.ofNat (1 + (← Draw.below n))
  return if ← Draw.bool then x else -x

/-- A clause over the variables `1..n`. -/
def drawClause (n : Nat) : Draw Clause := do
  let first ← drawLiteral n
  let second ← drawLiteral n
  let third ← drawLiteral n
  return ⟨first, second, third⟩

/-- Negates one literal of a clause, counted from 0. -/
def negateAt (c : Clause) : Nat → Clause
  | 0 => { c with first := -c.first }
  | 1 => { c with second := -c.second }
  | _ => { c with third := -c.third }

/-- A clause that the hidden assignment satisfies: if all literals of a
clause are false, negating any of them makes it true. -/
def drawPlantedClause (n : Nat) (hidden : Assignment) : Draw Clause := do
  let c ← drawClause n
  if c.literals.any fun x => hidden.literal? x == some true then
    return c
  else
    return negateAt c (← Draw.below 3)

/-- Draws `m` values one after the other. -/
def drawMany (m : Nat) (draw : Draw α) : Draw (List α) :=
  (List.range m).mapM fun _ => draw

/-- A random formula; without variables it has no clauses. -/
def random (numVars : UInt32) (numClauses : Nat) (seed : UInt64) : Formula :=
  let n := clampVars numVars
  if n = 0 then ⟨n, []⟩
  else ⟨n, (drawMany numClauses (drawClause n.toNat) (Generator.ofSeed seed)).1⟩

/-- A random formula with an assignment that satisfies it. The
assignment is drawn first. -/
def planted (numVars : UInt32) (numClauses : Nat) (seed : UInt64) : Formula × Assignment :=
  let n := clampVars numVars
  -- the hidden values come first in the stream, one word each
  let (values, g) := drawMany n.toNat Draw.bool (Generator.ofSeed seed)
  let hidden : Assignment := ⟨values⟩
  if n = 0 then (⟨n, []⟩, hidden)
  else (⟨n, (drawMany numClauses (drawPlantedClause n.toNat hidden) g).1⟩, hidden)

end Formula

end Tricolor
