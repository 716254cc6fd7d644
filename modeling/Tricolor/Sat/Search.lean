import Tricolor.Sat.Activity
import Tricolor.Sat.Conflict
import Tricolor.Sat.Decision
import Tricolor.Sat.Pace
import Tricolor.Sat.Watches

/-!
# Conflict-driven search

The search sets variables one after the other. Whenever all codes of a
clause but one are false, the last one is forced; if all are false, the
search learns a clause from the conflict and takes back decisions until
the learned clause forces a code. From time to time it takes back all
decisions and starts over with what it has learned.

Every clause in use comes with the proof that it follows from the given
ones, so the clause without literals refutes them, and a valuation is
checked before it is the answer. An answer rests on nothing else: the
order in which the search proceeds only decides how soon there is one.
-/

namespace Tricolor

/-- The state of a search. -/
structure Search (clauses : List (List Lit)) where
  trail : Trail clauses
  /-- How many codes of the trail have been propagated. -/
  head : Nat
  watches : Watches clauses
  /-- A clause whose codes are all false. -/
  conflict : Option (Consequence clauses)
  activity : Activity
  pace : Pace
  /-- The clauses below this number are given ones, the others are
  learned. -/
  given : Nat
  /-- The number of learned clauses that are kept without a second
  look. -/
  room : Nat

namespace Search

open Lit (flip codeVar)

variable {clauses : List (List Lit)}

/-! ## Propagation -/

/-- Propagates up to `steps` codes of the trail, or until there is a
conflict. -/
def propagate : (steps : Nat) → Search clauses → Search clauses
  | 0, s => s
  | steps + 1, s =>
    if s.conflict.isSome then s
    else
      match s.trail.codes[s.head]? with
      | none => s
      | some n =>
        let w := Sweep.run s.trail s.watches (flip n)
        propagate steps
          { s with
            trail := w.trail
            head := s.head + 1
            watches := w.watches
            conflict := w.conflict }

/-! ## Decisions and conflicts -/

/-- Decides the most active open variable. If no variable is open, the
valuation is complete. -/
def decide (s : Search clauses) : Valuation ⊕ Search clauses :=
  let ⟨trail, head, watches, conflict, activity, pace, given, room⟩ := s
  let size := activity.heap.size
  match activity.next? (fun x => (trail.value? (2 * x)).isNone) size with
  | some (x, activity) =>
    .inr ⟨trail.decide x, head, watches, conflict, activity, pace, given, room⟩
  | none => .inl trail.valuation

/-- Takes back everything above a level. -/
def backtrack (s : Search clauses) (level : Nat) : Search clauses :=
  let undone := s.trail.above level
  let trail := s.trail.backtrack level
  { s with
    trail
    head := Nat.min s.head trail.codes.size
    activity := undone.foldl (fun a n => a.insert (codeVar n)) s.activity }

/-- Adds a learned clause: takes back decisions until it forces a code,
and sets this code. -/
def adopt (s : Search clauses) (c : Consequence clauses) : Search clauses :=
  match s.trail.deepest? c.codes with
  | none => s
  | some n =>
    match s.trail.deepest? (c.codes.filter (· != n)) with
    | none =>
      let s := s.backtrack 0
      { s with trail := s.trail.set n (some c) }
    | some k =>
      let s := s.backtrack (s.trail.level k)
      { s with trail := s.trail.set n (some c), watches := s.watches.attach c n k }

/-- Settles a conflict by a learned clause, and rewards the codes that
took part in it. -/
def learn (s : Search clauses) (involved : List Nat) (c : Consequence clauses) : Search clauses :=
  let activity := s.activity.reward (involved.map codeVar)
  { s with conflict := none, activity, pace := s.pace.count }.adopt c

/-! ## Clauses in use -/

/-- Adds a clause at level 0, unless one of its codes is true. It watches
two codes that are not false; if there is only one, it forces it. -/
def add (s : Search clauses) (c : Consequence clauses) : Search clauses :=
  if c.codes.any fun n => s.trail.value? n == some true then s
  else
    match c.codes.toList.filter fun n => s.trail.value? n != some false with
    | n :: k :: _ => { s with watches := s.watches.attach c n k }
    | [n] => { s with trail := s.trail.set n (some c) }
    | [] => { s with conflict := some c }

/-- A learned clause of at most this many codes is kept for good. -/
def shortSize : Nat := 6

/-- Drops the older half of the learned clauses, apart from short ones,
and makes more room for learned clauses. -/
def forget (s : Search clauses) : Search clauses :=
  let given := s.watches.known.extract 0 s.given
  let learned := s.watches.known.extract s.given s.watches.known.size
  let half := learned.size / 2
  let old := (learned.extract 0 half).filter (·.codes.size ≤ shortSize)
  let watches := .start s.watches.lists.size
  let s := given.foldl add { s with watches, room := s.room + s.room / 4 }
  let s := { s with given := s.watches.known.size }
  (old ++ learned.extract half learned.size).foldl add s

/-- Starts over with what has been learned. -/
def restart (s : Search clauses) : Search clauses :=
  let s := s.backtrack 0
  let s := { s with pace := s.pace.next }
  if s.given + s.room < s.watches.known.size then s.forget else s

/-- The room for learned clauses at the start. -/
def firstRoom : Nat := 4000

/-- A search at its start. -/
def start (clauses : List (List Lit)) : Search clauses :=
  let n := clauses.foldl Cnf.coverVars 0 + 1
  let s : Search clauses := ⟨.start n, 0, .start (2 * n), none, .start n, .start, 0, firstRoom⟩
  let s := clauses.attach.foldl (fun s ⟨clause, h⟩ => s.add (.given clause h)) s
  { s with given := s.watches.known.size }

/-! ## The search -/

/-- Goes on with a search for a number of steps, each of which propagates
and then settles a conflict, starts over or decides a variable. -/
def run : (steps : Nat) → Search clauses → Option (Decision clauses)
  | 0, _ => none
  | steps + 1, s =>
    let s := s.propagate s.trail.values.size
    match s.conflict with
    | some conflict =>
      let lesson := s.trail.lesson conflict
      let c := lesson.toConsequence
      if h : c.codes = #[] then some (.refuted (c.not_satisfiable h))
      else (s.learn lesson.marks.touched c).run steps
    | none =>
      if s.pace.left = 0 then s.restart.run steps
      else
        match s.decide with
        | .inr s => s.run steps
        | .inl v => if h : v.models clauses then some (.model v h) else none

/-- The number of steps after which a search gives up. Searches that end
in a reasonable time stay far below it. -/
def stepBound : Nat := 1000000000000

/-- The decision that a search arrives at, unless it gives up. -/
def decision? (clauses : List (List Lit)) : Option (Decision clauses) :=
  (start clauses).run stepBound

end Search

end Tricolor
