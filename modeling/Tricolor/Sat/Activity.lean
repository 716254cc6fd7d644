/-!
# Variables by activity

Which variable to decide next: the one that took part in the most
conflicts, recent ones counting more. The open variables are kept in a
heap, where none is more active than its parent. A variable that is set
meanwhile stays until it comes up, and returns when it is open again.
-/

namespace Tricolor

/-- Variables with their scores, in a heap. -/
structure Activity where
  /-- The score of each variable. -/
  scores : Array Nat
  /-- What taking part in a conflict adds to a score. -/
  weight : Nat
  /-- Variables; below the one at place `i` are those at `2 * i + 1` and
  `2 * i + 2`. -/
  heap : Array Nat
  /-- The place of each variable, past the end if it is not in the
  heap. -/
  places : Array Nat

namespace Activity

/-- What taking part in the first conflict is worth. -/
def firstWeight : Nat := 1024

/-- Scores are scaled down once a conflict is worth more than this. -/
def largestWeight : Nat := 1000000000000000

/-- No heap has as many levels as this. -/
def depth : Nat := 64

/-- The variables below `n`, all with the same score. -/
def start (n : Nat) : Activity where
  scores := Array.replicate n 0
  weight := firstWeight
  heap := Array.range n
  places := Array.range n

/-- The score of the variable at a place. -/
def scoreAt (a : Activity) (i : Nat) : Nat := a.scores.getD (a.heap.getD i 0) 0

/-- Exchanges the variables at two places. -/
def swap (a : Activity) (i j : Nat) : Activity :=
  let x := a.heap.getD i 0
  let y := a.heap.getD j 0
  { a with
    heap := (a.heap.setIfInBounds i y).setIfInBounds j x
    places := (a.places.setIfInBounds x j).setIfInBounds y i }

/-- Moves the variable at a place up by at most `steps` levels, as long
as it is more active than its parent. -/
def siftUp : (steps : Nat) → Activity → (place : Nat) → Activity
  | 0, a, _ => a
  | steps + 1, a, i =>
    let parent := (i - 1) / 2
    if a.scoreAt parent < a.scoreAt i then siftUp steps (a.swap i parent) parent else a

/-- Moves the variable at a place down by at most `steps` levels, as long
as it is less active than a child. -/
def siftDown : (steps : Nat) → Activity → (place : Nat) → Activity
  | 0, a, _ => a
  | steps + 1, a, i =>
    let left := 2 * i + 1
    let right := left + 1
    let child :=
      if right < a.heap.size && a.scoreAt left < a.scoreAt right then right else left
    if child < a.heap.size && a.scoreAt i < a.scoreAt child then
      siftDown steps (a.swap i child) child
    else a

/-! ## Scores -/

/-- Raises the score of a variable that took part in a conflict. -/
def raise (a : Activity) (x : Nat) : Activity :=
  let weight := a.weight
  let a := { a with scores := a.scores.modify x (· + weight) }
  let i := a.places.getD x 0
  if i < a.heap.size then a.siftUp depth i else a

/-- Divides all scores by one number, which keeps their order. -/
def scaleDown (a : Activity) : Activity :=
  { a with scores := a.scores.map (· >>> 32), weight := a.weight >>> 32 }

/-- Lets the next conflict count more. -/
def age (a : Activity) : Activity :=
  let a := { a with weight := a.weight + a.weight / 16 }
  if largestWeight < a.weight then a.scaleDown else a

/-- Counts a conflict for the variables that took part in it. -/
def reward (a : Activity) (xs : List Nat) : Activity := (xs.foldl raise a).age

/-! ## Open variables -/

/-- Puts a variable back that is open again. -/
def insert (a : Activity) (x : Nat) : Activity :=
  let i := a.heap.size
  if a.places.getD x 0 < i then a
  else { a with heap := a.heap.push x, places := a.places.setIfInBounds x i }.siftUp depth i

/-- Takes the most active variable out of the heap. -/
def pop (a : Activity) : Activity :=
  let x := a.heap.getD 0 0
  let a := a.swap 0 (a.heap.size - 1)
  { a with heap := a.heap.pop, places := a.places.setIfInBounds x a.scores.size }.siftDown depth 0

/-- The most active open variable. It leaves the heap, together with
those that came up before it. -/
def next? (isOpen : Nat → Bool) : (steps : Nat) → Activity → Option (Nat × Activity)
  | 0, _ => none
  | steps + 1, a =>
    match a.heap[0]? with
    | none => none
    | some x => if isOpen x then some (x, a.pop) else next? isOpen steps a.pop

end Activity

end Tricolor
