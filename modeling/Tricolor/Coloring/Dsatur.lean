import Tricolor.Coloring.Agenda
import Tricolor.Coloring.Basic
import Tricolor.Coloring.FirstFit
import Tricolor.Graph.Adjacency

/-!
# Greedy coloring by saturation

The node whose colored neighbors wear the most colors is colored next, by
first fit. For every open position the colors worn around it are kept up
to date, and so is its place on the agenda of open nodes. A valid seed is
completed, unless all colors there are come to be worn around an open
node; whether the palette sufficed shows in the result.
-/

namespace Tricolor

/-- What a greedy run did. -/
structure DsaturStats where
  /-- The number of nodes the seed colored. -/
  seeded : Nat
  /-- The number of nodes the run colored. -/
  selections : Nat
  /-- The number of different colors in the result. -/
  colorsUsed : Nat
  deriving DecidableEq, Repr

instance : Inhabited DsaturStats := ⟨⟨0, 0, 0⟩⟩

/-- A greedy run between two selections. -/
structure DsaturState (α : Type) where
  /-- The color of every position, if it has one. -/
  assigned : Array (Option Color)
  /-- For every open position the colors of its colored neighbors, each
  once. -/
  taken : Array (List Color)
  agenda : Agenda
  coloring : Coloring α
  selections : Nat

namespace DsaturState

variable {α : Type}

/-- Whether a position has a color. -/
def isAssigned (s : DsaturState α) (i : Nat) : Bool := s.assigned[i]?.join.isSome

/-- The colors of the colored neighbors of a position. -/
def takenAt (s : DsaturState α) (i : Nat) : List Color := s.taken[i]?.getD []

/-- The rank of a position. -/
def rank (adj : Adjacency) (s : DsaturState α) (i : Nat) : Rank :=
  ⟨(s.takenAt i).length, adj.degree i, i⟩

/-- Gives a position its color. -/
def assign (s : DsaturState α) (i : Nat) (color : Color) : DsaturState α :=
  { s with assigned := s.assigned.setIfInBounds i (some color) }

/-- Notes that a neighbor of position `j` wears a color. -/
def hear (color : Color) (s : DsaturState α) (j : Nat) : DsaturState α :=
  { s with taken := s.taken.modify j (List.insert color) }

/-- Notes that a neighbor of position `j` wears a color, and moves the
position up the agenda. A position that has a color itself is left alone,
and a color that is taken already changes nothing. -/
def notice (adj : Adjacency) (color : Color) (s : DsaturState α) (j : Nat) : DsaturState α :=
  if s.isAssigned j then s
  else if (s.takenAt j).contains color then s
  else
    let before := s.rank adj j
    let s := s.hear color j
    { s with agenda := (s.agenda.remove before).insert (s.rank adj j) }

variable [DecidableEq α]

/-- Plants an entry of the seed. All neighbors hear of its color. -/
def plant (g : Graph α) (adj : Adjacency) (s : DsaturState α) (entry : α × Color) :
    DsaturState α :=
  match g.indexOf? entry.1 with
  | some i => (adj.neighbors i).foldl (hear entry.2) (s.assign i entry.2)
  | none => s

/-- The state in which the seed is planted and every other node open. -/
def start (g : Graph α) (adj : Adjacency) (seed : Coloring α) : DsaturState α :=
  let blank : DsaturState α :=
    ⟨Array.replicate g.nodeCount none, Array.replicate g.nodeCount [], [], seed, 0⟩
  let s := seed.entries.foldl (plant g adj) blank
  -- the agenda is built once, when the whole seed has been planted
  let opens := (List.range g.nodeCount).filter (!s.isAssigned ·)
  { s with agenda := .ofList (opens.map (s.rank adj)) }

/-- Colors a position, and notes the color at all its neighbors. -/
def select (g : Graph α) (adj : Adjacency) (i : Nat) (color : Color) (s : DsaturState α) :
    DsaturState α :=
  let s := s.assign i color
  let coloring :=
    match g.node? i with
    | some a => s.coloring.insert a color
    | none => s.coloring
  (adj.neighbors i).foldl (notice adj color) { s with coloring, selections := s.selections + 1 }

/-- Colors the most urgent node, if any is open. A node that finds all
colors taken has no result, since the search for its color does not
end. -/
def step (g : Graph α) (adj : Adjacency) (palette : List Color) (s : DsaturState α) :
    Option (DsaturState α) :=
  match s.agenda with
  | [] => some s
  | r :: rest =>
    match firstFit (s.takenAt r.node) palette with
    | none => none
    | some color => some (select g adj r.node color { s with agenda := rest })

/-- Colors the `n` most urgent nodes, one after the other. -/
def run (g : Graph α) (adj : Adjacency) (palette : List Color) :
    Nat → DsaturState α → Option (DsaturState α)
  | 0, s => some s
  | n + 1, s =>
    match s.step g adj palette with
    | none => none
    | some s => run g adj palette n s

/-- Colors every open node. Each step takes one node off the agenda. -/
def complete (g : Graph α) (adj : Adjacency) (palette : List Color) (s : DsaturState α) :
    Option (DsaturState α) :=
  s.run g adj palette s.agenda.length

end DsaturState

/-- A computation that does not end. Nothing is known of its value. -/
def endless {β : Type} [Nonempty β] (_ : Unit) : β := endless ()
partial_fixpoint

section Dsatur

variable {α : Type} [DecidableEq α] [ToString α]

/-- Completes a seed greedily and tells what the run did. The answer is
`none` if the run does not end, because some node finds all colors
taken. -/
def dsaturWithStats? (g : Graph α) (seed : Coloring α) (palette : List Color) :
    Except Error (Option (Coloring α × DsaturStats)) := do
  validateSeed g seed
  let adj := g.adjacency
  return ((DsaturState.start g adj seed).complete g adj palette).map fun s =>
    (s.coloring, ⟨seed.size, s.selections, s.coloring.colorsUsed.length⟩)

/-- Completes a seed greedily and tells what the run did. A call whose run
does not end does not end. -/
def dsaturWithStats (g : Graph α) (seed : Coloring α) (palette : List Color) :
    Except Error (Coloring α × DsaturStats) :=
  match dsaturWithStats? g seed palette with
  | .error e => .error e
  | .ok (some result) => .ok result
  | .ok none => endless ()

/-- Completes a seed greedily. -/
def dsatur (g : Graph α) (seed : Coloring α) (palette : List Color) :
    Except Error (Coloring α) :=
  (dsaturWithStats g seed palette).map (·.1)

end Dsatur

/-- The greedy coloring as an oracle, which remembers what its last
successful run did. -/
structure Dsatur where
  stats : DsaturStats
  deriving DecidableEq, Repr, Inhabited

instance {α : Type} [DecidableEq α] [ToString α] : ColoringOracle Dsatur α where
  name := "dsatur"
  color oracle g seed palette :=
    match dsaturWithStats g seed palette with
    | .ok (coloring, stats) => (.ok (some coloring), ⟨stats⟩)
    | .error e => (.error e, oracle)

end Tricolor
