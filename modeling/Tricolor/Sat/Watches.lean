import Tricolor.Sat.Trail

/-!
# Watched clauses

Every clause in use watches two of its codes. As long as neither is
false, the clause forces nothing, so only the clauses that watch a code
need a look when it becomes false.
-/

namespace Tricolor

/-- Clauses in use, each with two codes that it watches. -/
structure Watches (clauses : List (List Lit)) where
  known : Array (Consequence clauses)
  /-- The two watched codes of each clause, combined by exclusive or, so
  that either one gives the other. -/
  links : Array Nat
  /-- The clauses that watch each code, by their number. -/
  lists : Array (Array Nat)

namespace Watches

variable {clauses : List (List Lit)}

/-- No clauses, with room for codes below `size`. -/
def start (size : Nat) : Watches clauses := ⟨#[], #[], Array.replicate size #[]⟩

/-- Adds a clause that watches codes `n` and `k`. -/
def attach (w : Watches clauses) (c : Consequence clauses) (n k : Nat) : Watches clauses :=
  let i := w.known.size
  let lists := (w.lists.modify n (·.push i)).modify k (·.push i)
  { known := w.known.push c, links := w.links.push (n ^^^ k), lists }

/-- Lets clause `i` watch code `k` along with `other`. -/
def move (w : Watches clauses) (i other k : Nat) : Watches clauses :=
  { w with
    links := w.links.setIfInBounds i (other ^^^ k)
    lists := w.lists.modify k (·.push i) }

/-- Takes out the list of a code. -/
def take (w : Watches clauses) (n : Nat) : Array Nat × Watches clauses :=
  (w.lists.getD n #[], { w with lists := w.lists.setIfInBounds n #[] })

/-- Puts back the list of a code. -/
def put (w : Watches clauses) (n : Nat) (list : Array Nat) : Watches clauses :=
  { w with lists := w.lists.setIfInBounds n list }

end Watches

/-- A pass over the clauses that watch a false code. -/
structure Sweep (clauses : List (List Lit)) where
  trail : Trail clauses
  watches : Watches clauses
  /-- A clause whose codes are all false. -/
  conflict : Option (Consequence clauses)
  /-- The clauses that go on watching the code. -/
  kept : Array Nat

namespace Sweep

variable {clauses : List (List Lit)}

/-- Looks at clause `i`, which watches the false code `n`. Unless its
other watched code is true, it looks for a code to watch in place of `n`;
if there is none, the other code is forced. -/
def visit (n : Nat) (w : Sweep clauses) (i : Nat) : Sweep clauses :=
  let other := w.watches.links.getD i 0 ^^^ n
  let value := w.trail.value? other
  if w.conflict.isSome || value == some true then { w with kept := w.kept.push i }
  else
    match w.watches.known[i]? with
    | none => w
    | some c =>
      match c.codes.find? fun k => k != other && k != n && w.trail.value? k != some false with
      | some k => { w with watches := w.watches.move i other k }
      | none =>
        let w := { w with kept := w.kept.push i }
        if value.isSome then { w with conflict := some c }
        else { w with trail := w.trail.set other (some c) }

/-- Looks at all clauses that watch a false code. -/
def run (trail : Trail clauses) (watches : Watches clauses) (n : Nat) : Sweep clauses :=
  let (list, watches) := watches.take n
  let w := list.foldl (visit n) ⟨trail, watches, none, #[]⟩
  { w with watches := w.watches.put n w.kept, kept := #[] }

end Sweep

end Tricolor
