import Tricolor.Sat.Consequence

/-!
# Trails

A trail lists the codes that a search takes to be true, in the order in
which they were set. A code was either decided or forced by a clause
whose other codes were false by then. Its level is the number of
decisions made before it was set, its own included; what stands at level
0 holds in every model, and its reason is a clause of one literal.
-/

namespace Tricolor

/-- The codes that a search takes to be true. -/
structure Trail (clauses : List (List Lit)) where
  /-- Whether each code is true or false, `none` if neither. -/
  values : Array (Option Bool)
  /-- The level of each variable that is set. -/
  levels : Array Nat
  /-- The clause that forced each variable that is set. -/
  reasons : Array (Option (Consequence clauses))
  /-- The last value of each variable. -/
  phases : Array Bool
  /-- The true codes, in the order in which they were set. -/
  codes : Array Nat
  /-- The number of codes set before each decision. -/
  limits : Array Nat

namespace Trail

open Lit (codeVar flip)

variable {clauses : List (List Lit)}

/-- A trail without codes, for variables below `n`. -/
def start (n : Nat) : Trail clauses where
  values := Array.replicate (2 * n) none
  levels := Array.replicate n 0
  reasons := Array.replicate n none
  phases := Array.replicate n false
  codes := #[]
  limits := #[]

/-- The value of a code. -/
def value? (t : Trail clauses) (n : Nat) : Option Bool := t.values.getD n none

/-- The level of a code. -/
def level (t : Trail clauses) (n : Nat) : Nat := t.levels.getD (codeVar n) 0

/-- The clause that forced a code. -/
def reason? (t : Trail clauses) (n : Nat) : Option (Consequence clauses) :=
  t.reasons.getD (codeVar n) none

/-- The number of decisions. -/
def decisions (t : Trail clauses) : Nat := t.limits.size

/-- Sets a code. Without decisions, its reason is cut down to a clause of
one literal. -/
def set (t : Trail clauses) (n : Nat) (reason : Option (Consequence clauses)) : Trail clauses :=
  let reason := if t.limits.isEmpty then reason.map (·.cut n t.reason?) else reason
  { t with
    values := (t.values.setIfInBounds n (some true)).setIfInBounds (flip n) (some false)
    levels := t.levels.setIfInBounds (codeVar n) t.limits.size
    reasons := t.reasons.setIfInBounds (codeVar n) reason
    codes := t.codes.push n }

/-- Decides a variable, which gets the value that it had the last
time. -/
def decide (t : Trail clauses) (x : Nat) : Trail clauses :=
  let n := Lit.code ⟨x, t.phases.getD x false⟩
  { t with limits := t.limits.push t.codes.size }.set n none

/-- The codes above a level. -/
def above (t : Trail clauses) (level : Nat) : Array Nat :=
  t.codes.extract (t.limits.getD level t.codes.size) t.codes.size

/-- Takes back the value of a code. -/
def unset (t : Trail clauses) (n : Nat) : Trail clauses :=
  { t with
    values := (t.values.setIfInBounds n none).setIfInBounds (flip n) none
    phases := t.phases.setIfInBounds (codeVar n) (n % 2 == 0) }

/-- Takes back everything above a level. -/
def backtrack (t : Trail clauses) (level : Nat) : Trail clauses :=
  let undone := t.above level
  let t := undone.foldl unset t
  { t with
    codes := t.codes.extract 0 (t.codes.size - undone.size)
    limits := t.limits.extract 0 level }

/-- A code of the highest level among some codes. -/
def deepest? (t : Trail clauses) (codes : Array Nat) : Option Nat :=
  codes.foldl
    (fun best k =>
      match best with
      | some j => if t.level j < t.level k then some k else some j
      | none => some k)
    none

/-- The valuation of a trail; variables that are not set are false. -/
def valuation (t : Trail clauses) : Valuation :=
  let values := t.values
  fun x => values.getD (2 * x) none == some true

end Trail

end Tricolor
