import Tricolor.Cnf.Basic
import Tricolor.Coloring.Basic

/-!
# Coloring as satisfiability

A graph has a proper coloring from a palette that extends a seed exactly
if a formula in conjunctive normal form has a model. The formula has a
variable for every node and palette position; its clauses say that every
node takes one position and no two, that neighbors take different ones,
and that seeded nodes take the first position of their color.
-/

namespace Tricolor

/-- The formula of a coloring problem, with what is needed to read its
models. -/
structure Encoding where
  cnf : Cnf
  nodeCount : Nat
  palette : List Color
  deriving DecidableEq, Repr

namespace Encoding

/-- The variable saying that a node takes a position of a palette of `k`
colors. Variables are 32-bit numbers, and larger ones wrap around. -/
def varOf (k node position : Nat) : Nat := (node * k + position + 1) % Lit.varBound

/-- The variable saying that a node takes a position of the palette. -/
def var (enc : Encoding) (node position : Nat) : Nat := varOf enc.palette.length node position

/-- The ordered pairs of different positions below `k`. -/
def pairs (k : Nat) : List (Nat × Nat) :=
  (List.range k).flatMap fun a => (List.range' (a + 1) (k - (a + 1))).map fun b => (a, b)

/-- The clauses of a node: it takes some position and no two. -/
def nodeClauses (k node : Nat) : List (List Lit) :=
  ((List.range k).map fun c => .pos (varOf k node c)) ::
    (pairs k).map fun (a, b) => [.neg (varOf k node a), .neg (varOf k node b)]

/-- The clauses of an edge: its ends take no position in common. -/
def edgeClauses (k node node' : Nat) : List (List Lit) :=
  (List.range k).map fun c => [.neg (varOf k node c), .neg (varOf k node' c)]

variable {α : Type} [DecidableEq α]

/-- The clauses of a seed entry: its node takes the first position of its
color, which the palette must offer. -/
def seedClauses [ToString α] (g : Graph α) (palette : List Color) (entry : α × Color) :
    Except Error (List (List Lit)) :=
  match palette.idxOf? entry.2 with
  | none => .error (.invalidSeed (.outsidePalette entry.2 (toString entry.1)))
  | some c =>
    match g.indexOf? entry.1 with
    | some i => .ok [[.pos (varOf palette.length i c)]]
    | none => .ok []

/-- The formula of "the graph has a proper coloring from the palette that
extends the seed". -/
def encode [ToString α] (g : Graph α) (seed : Coloring α) (palette : List Color) :
    Except Error Encoding := do
  validateSeed g seed
  let k := palette.length
  -- a color that the palette lacks is found before any clause is built
  let seeded ← seed.entries.mapM (seedClauses g palette)
  let clauses :=
    (List.range g.nodeCount).flatMap (nodeClauses k) ++
      g.edgeIndices.flatMap (fun (i, j) => edgeClauses k i j) ++ seeded.flatten
  return ⟨Cnf.ofClauses (g.nodeCount * k % Lit.varBound) clauses, g.nodeCount, palette⟩

/-- The first position that a valuation gives to a node. -/
def position? (enc : Encoding) (value? : Nat → Option Bool) (node : Nat) : Option Nat :=
  (List.range enc.palette.length).find? fun c => value? (enc.var node c) == some true

/-- The color that a valuation gives to a node. -/
def color? (enc : Encoding) (value? : Nat → Option Bool) (node : Nat) : Option Color :=
  (enc.position? value? node).bind (enc.palette[·]?)

/-- The coloring that a valuation describes, in the order of the nodes,
unless it leaves a node without a color. -/
def decode (enc : Encoding) (g : Graph α) (value? : Nat → Option Bool) : Option (Coloring α) :=
  let entry (e : α × Nat) : Option (α × Color) := (enc.color? value? e.2).map fun c => (e.1, c)
  (g.nodes.zipIdx.mapM entry).map Coloring.ofList

end Encoding

end Tricolor
