import Tricolor.Sat.Trail

/-!
# What a conflict teaches

A conflict is a clause whose codes are all false. Resolving it with the
reasons of the codes that were set last leads to a clause with one code
of the last level, which would have been forced earlier. Codes that the
others imply are then resolved away; among them are all codes of level
0, so a conflict at level 0 ends in the clause without literals.
-/

namespace Tricolor

namespace Trail

open Lit (flip)

variable {clauses : List (List Lit)}

/-- Whether a code belongs to the last level. -/
def isLast (t : Trail clauses) (n : Nat) : Bool := t.level n == t.decisions

/-- The number of codes of the last level that a clause would bring into
a set. -/
def countLast (t : Trail clauses) (marks : Marks) (codes : Array Nat) : Nat :=
  codes.foldl (fun m k => if t.isLast k && !marks.contains k then m + 1 else m) 0

/-- Resolves with the reasons of the first `i` codes of the trail, the
last one first, until a single code of the last level is left; `count` is
their number. -/
def resolveBack (t : Trail clauses) :
    (i count : Nat) → Resolvent clauses → Resolvent clauses
  | 0, _, r => r
  | i + 1, count, r =>
    let n := t.codes.getD i 0
    if !r.marks.contains (flip n) then t.resolveBack i count r
    else if count ≤ 1 then r
    else
      match t.reason? n with
      | none => r
      | some c =>
        -- the reason has code `n` itself, which is counted and does not enter
        t.resolveBack i (count + t.countLast r.marks c.codes - 2) (r.resolve n c)

/-- Resolves away the codes that the others imply. -/
def shorten (t : Trail clauses) (r : Resolvent clauses) : Resolvent clauses :=
  r.marks.touched.foldl
    (fun r k =>
      if !r.marks.contains k then r
      else
        match t.reason? k with
        | none => r
        | some c =>
          if c.codes.all fun j => j == flip k || r.marks.contains j then r.resolve (flip k) c
          else r)
    r

/-- The clause that a conflict teaches. -/
def lesson (t : Trail clauses) (conflict : Consequence clauses) : Resolvent clauses :=
  let size := t.values.size
  let count := t.countLast (.empty 0) conflict.codes
  t.shorten (t.resolveBack t.codes.size count (.ofConsequence conflict size))

end Trail

end Tricolor
