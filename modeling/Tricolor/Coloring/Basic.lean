import Tricolor.Graph.Basic

/-!
# Colorings

A coloring gives nodes a color and remembers the order in which they were
colored; recoloring a node keeps its place. A partial coloring serves as
a seed if its nodes are nodes of the graph and no two neighbors wear one
color. A coloring oracle completes seeds: a heuristic always finds some
coloring, an exact search may answer that the palette has none.
-/

namespace Tricolor

/-- Nodes with their colors, in the order they were colored. -/
structure Coloring (α : Type) where
  entries : List (α × Color)
  entries_nodup : (entries.map Prod.fst).Nodup

namespace Coloring

variable {α : Type}

/-- The coloring without nodes. -/
def empty : Coloring α := ⟨[], by simp⟩

instance : Inhabited (Coloring α) := ⟨empty⟩

/-- The number of colored nodes. -/
def size (c : Coloring α) : Nat := c.entries.length

/-- The colored nodes, in order. -/
def nodes (c : Coloring α) : List α := c.entries.map Prod.fst

/-- The colors in use, each once, ascending by number. -/
def colorsUsed (c : Coloring α) : List Color :=
  ((c.entries.map Prod.snd).eraseDups).mergeSort Color.le

variable [DecidableEq α]

/-- The color of a node. -/
def get? (c : Coloring α) (a : α) : Option Color := c.entries.lookup a

/-- Whether a node has a color. -/
def contains (c : Coloring α) (a : α) : Bool := (c.get? a).isSome

theorem contains_iff {c : Coloring α} {a : α} : c.contains a ↔ a ∈ c.nodes := by
  simp only [contains, get?, List.lookup_isSome_iff, nodes, List.mem_map, beq_iff_eq]
  grind

/-- Colors a node. A node that has a color keeps its place. -/
def insert (c : Coloring α) (a : α) (color : Color) : Coloring α :=
  if h : c.contains a then
    { entries := c.entries.map fun e => if e.1 = a then (a, color) else e
      entries_nodup := by
        have : (c.entries.map fun e => if e.1 = a then (a, color) else e).map Prod.fst
            = c.entries.map Prod.fst := by
          rw [List.map_map]
          exact List.map_congr_left fun e _ => by simp only [Function.comp]; split <;> simp_all
        rw [this]
        exact c.entries_nodup }
  else
    { entries := c.entries ++ [(a, color)]
      entries_nodup := by
        rw [List.map_append, List.nodup_append]
        rw [contains_iff, nodes] at h
        exact ⟨c.entries_nodup, by simp, by grind⟩ }

/-- The coloring that results from coloring nodes one after the other. -/
def ofList (entries : List (α × Color)) : Coloring α :=
  entries.foldl (fun c e => c.insert e.1 e.2) empty

end Coloring

section Check

variable {α : Type} [DecidableEq α]

/-- The first fault of a seed: a node that the graph does not have, or
one with a neighbor of its color. -/
def seedFault [ToString α] (g : Graph α) (seed : Coloring α) : Option SeedFault :=
  seed.entries.findSome? fun (a, color) =>
    if g.contains a then
      ((g.neighbors a).find? fun b => seed.get? b == some color).map fun b =>
        .adjacentSame (toString a) (toString b) color
    else some (.unknownNode (toString a))

/-- Refuses a partial coloring that cannot serve as a seed. -/
def validateSeed [ToString α] (g : Graph α) (seed : Coloring α) : Except Error Unit :=
  match seedFault g seed with
  | none => .ok ()
  | some fault => .error (.invalidSeed fault)

/-- Whether every node has a color and no link joins two nodes of one
color. The color of every node is looked up once. -/
def isProper (g : Graph α) (c : Coloring α) : Bool :=
  let worn := g.order.map c.get?
  worn.all Option.isSome && g.accepted.all fun (i, j) => worn[i]? != worn[j]?

end Check

/-- The answer of an oracle: `none` if no proper completion of the seed
exists within the palette. -/
abbrev OracleAnswer (α : Type) := Except Error (Option (Coloring α))

/-- Something that completes a partial coloring with the colors of a
palette. The state of type `σ` records what the oracle remembers between
calls. -/
class ColoringOracle (σ : Type) (α : Type) where
  /-- The name of the oracle. -/
  name : String
  /-- Answers a call, and moves on to the next state. -/
  color : σ → Graph α → Coloring α → List Color → OracleAnswer α × σ

end Tricolor
