/-!
# When to start over

A search that goes on for too long may have begun with the wrong
decisions. The numbers of conflicts between two restarts follow the
sequence 1, 1, 2, 1, 1, 2, 4, 1, 1, 2, ..., times a unit, so that most
attempts are short and long ones come up now and then.
-/

namespace Tricolor

/-- The time until the next restart. -/
structure Pace where
  /-- The number of conflicts until the next restart. -/
  left : Nat
  index : Nat
  /-- The current term of the sequence. -/
  term : Nat
  deriving DecidableEq, Repr

namespace Pace

/-- The unit of the pace. -/
def unit : Nat := 50

/-- The first term. -/
def start : Pace := ⟨unit, 1, 1⟩

/-- Counts a conflict. -/
def count (p : Pace) : Pace := { p with left := p.left - 1 }

/-- The pace after a restart. For each index the terms double until they
reach its lowest bit. -/
def next (p : Pace) : Pace :=
  let lowestBit := p.index - (p.index &&& (p.index - 1))
  if p.term = lowestBit then ⟨unit, p.index + 1, 1⟩
  else ⟨unit * (2 * p.term), p.index, 2 * p.term⟩

end Pace

end Tricolor
