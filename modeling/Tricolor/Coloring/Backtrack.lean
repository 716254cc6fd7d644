import Tricolor.Coloring.Basic
import Tricolor.Coloring.Domain
import Tricolor.Graph.Adjacency

/-!
# Exact coloring by backtracking

Every open node keeps the palette positions that are left to it. Choosing
a position for a node removes it from the domains of the open neighbors;
a choice that empties a domain is taken back at once. The search branches
on the node with the fewest positions left and tries them in ascending
order. It is exact: it answers `false` only if no choice of positions
works. Each position tried is a step, and steps can be limited.
-/

namespace Tricolor

namespace Backtrack

/-- Palettes have at most this many colors. -/
def maxPalette : Nat := 64

/-- The name of the search, as an oracle and in errors. -/
def oracleName : String := "backtrack"

/-- The state of a search. -/
structure Search where
  /-- The positions left to each node. -/
  domains : Array Domain
  /-- The position chosen for each node, `none` for an open one. -/
  chosen : Array (Option Nat)
  /-- The number of positions tried. -/
  steps : Nat

namespace Search

/-- A search over `n` open nodes and a palette of `k` colors. -/
def start (n k : Nat) : Search := ⟨Array.replicate n (.full k), Array.replicate n none, 0⟩

/-- The positions left to a node. -/
def domain (s : Search) (i : Nat) : Domain := s.domains[i]?.getD .empty

/-- The position chosen for a node. -/
def choice? (s : Search) (i : Nat) : Option Nat := s.chosen[i]?.join

/-- The nodes without a choice, in ascending order. -/
def openNodes (s : Search) : List Nat :=
  (List.range s.chosen.size).filter fun i => (s.choice? i).isNone

/-! ## Choosing and taking back -/

/-- Removes position `c` from the domains of the open nodes of a list and
collects the nodes whose domain held it. Stops at the first domain that
becomes empty, and tells whether none did. -/
def prune (c : Nat) : List Nat → Search → Bool × List Nat × Search
  | [], s => (true, [], s)
  | j :: rest, s =>
    if (s.choice? j).isSome || !(s.domain j).contains c then prune c rest s
    else
      let s := { s with domains := s.domains.modify j (Domain.erase c) }
      -- the emptied domain is pruned as well, and has to be restored
      if (s.domain j).isEmpty then (false, [j], s)
      else
        let (kept, pruned, s) := prune c rest s
        (kept, j :: pruned, s)

/-- Takes back the choice of position `c` for a node: restores the pruned
domains and opens the node. -/
def undo (s : Search) (node c : Nat) (pruned : List Nat) : Search :=
  { s with
    domains := pruned.foldl (fun domains j => domains.modify j (Domain.restore c)) s.domains
    chosen := s.chosen.setIfInBounds node none }

/-- Chooses position `c` for a node and prunes its neighbors. Gives the
pruned nodes, or `none` with everything taken back if a domain became
empty. -/
def assign (adj : Adjacency) (s : Search) (node c : Nat) : Option (List Nat) × Search :=
  let s := { s with chosen := s.chosen.setIfInBounds node (some c) }
  match prune c (adj.neighbors node) s with
  | (true, pruned, s) => (some pruned, s)
  | (false, pruned, s) => (none, s.undo node c pruned)

/-! ## The search -/

/-- Whether to branch on node `i` rather than on an earlier node `j`: it
has fewer positions left, or as many and more neighbors. -/
def moreUrgent (adj : Adjacency) (s : Search) (i j : Nat) : Bool :=
  let left := (s.domain i).size
  let left' := (s.domain j).size
  decide (left < left') || (left == left' && decide (adj.degree j < adj.degree i))

/-- The open node to branch on: the fewest positions left, then the most
neighbors, then the earliest. -/
def pick (adj : Adjacency) (s : Search) : Option Nat :=
  s.openNodes.foldl
    (fun best i =>
      match best with
      | some j => if s.moreUrgent adj i j then some i else some j
      | none => some i)
    none

/-- The limit that a search has passed, if it has passed one. -/
def exhausted (limit : Option Nat) (s : Search) : Option Nat :=
  limit.filter (· < s.steps)

/-- Tries the given positions for a node, one after the other, until the
rest of the search succeeds. -/
def branch (adj : Adjacency) (limit : Option Nat) (rest : Search → Except Error Bool × Search)
    (node : Nat) : List Nat → Search → Except Error Bool × Search
  | [], s => (.ok false, s)
  | c :: cs, s =>
    let s := { s with steps := s.steps + 1 }
    -- the step over the limit is counted and not taken
    match s.exhausted limit with
    | some limit => (.error (.oracle oracleName (.stepLimit limit)), s)
    | none =>
      match s.assign adj node c with
      | (none, s) => branch adj limit rest node cs s
      | (some pruned, s) =>
        match rest s with
        | (.ok false, s) => branch adj limit rest node cs (s.undo node c pruned)
        | (answer, s) => (answer, s)

/-- Extends the choices to all nodes, if that is possible; `depth` bounds
the number of open nodes. -/
def solve (adj : Adjacency) (limit : Option Nat) : Nat → Search → Except Error Bool × Search
  | 0, s => (.ok (s.pick adj).isNone, s)
  | depth + 1, s =>
    match s.pick adj with
    | none => (.ok true, s)
    | some node => branch adj limit (solve adj limit depth) node (s.domain node).positions s

end Search

/-- The coloring that the choices of a search describe, in the order of
the nodes. -/
def readColoring {α : Type} [DecidableEq α] (g : Graph α) (palette : List Color) (s : Search) :
    Coloring α :=
  .ofList (g.nodes.zipIdx.filterMap fun (a, i) =>
    ((s.choice? i).bind (palette[·]?)).map fun color => (a, color))

section Color

variable {α : Type} [DecidableEq α] [ToString α]

/-- Chooses the positions that the entries of a seed prescribe. The
answer is `none` if a domain becomes empty. -/
def plant (g : Graph α) (adj : Adjacency) (palette : List Color) :
    List (α × Color) → Search → Except Error (Option Search)
  | [], s => .ok (some s)
  | (a, color) :: rest, s =>
    match palette.idxOf? color with
    | none => .error (.invalidSeed (.outsidePalette color (toString a)))
    | some c =>
      match g.indexOf? a with
      | none => plant g adj palette rest s
      | some i =>
        match s.assign adj i c with
        | (none, _) => .ok none
        | (some _, s) => plant g adj palette rest s

/-- Completes a seed exactly. The number says how many steps were taken;
it is missing if the call was refused before the search. -/
def color (limit : Option Nat) (g : Graph α) (seed : Coloring α) (palette : List Color) :
    OracleAnswer α × Option Nat :=
  match validateSeed g seed with
  | .error e => (.error e, none)
  | .ok () =>
    if maxPalette < palette.length then
      (.error (.oracle oracleName (.paletteTooLarge palette.length maxPalette)), none)
    else
      let adj := g.adjacency
      -- planting the seed takes no steps
      match plant g adj palette seed.entries (.start g.nodeCount palette.length) with
      | .error e => (.error e, none)
      | .ok none => (.ok none, some 0)
      | .ok (some s) =>
        match s.solve adj limit g.nodeCount with
        | (.error e, s) => (.error e, some s.steps)
        | (.ok false, s) => (.ok none, some s.steps)
        | (.ok true, s) => (.ok (some (readColoring g palette s)), some s.steps)

end Color

end Backtrack

/-- The backtracking search as an oracle, which remembers the steps of
its last search. -/
structure Backtracker where
  /-- The number of steps a search may take, if it is limited. -/
  limit : Option Nat
  steps : Nat
  deriving DecidableEq, Repr

namespace Backtracker

/-- A search without a limit. -/
def unlimited : Backtracker := ⟨none, 0⟩

/-- A search that gives up after `limit` steps. -/
def limited (limit : Nat) : Backtracker := ⟨some limit, 0⟩

instance : Inhabited Backtracker := ⟨unlimited⟩

instance {α : Type} [DecidableEq α] [ToString α] : ColoringOracle Backtracker α where
  name := Backtrack.oracleName
  color oracle g seed palette :=
    let (answer, steps) := Backtrack.color oracle.limit g seed palette
    (answer, { oracle with steps := steps.getD oracle.steps })

end Backtracker

end Tricolor
