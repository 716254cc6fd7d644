import Tricolor.Proofs.Coloring.Proper

/-!
# Placements

An exact oracle does not choose colors but positions of the palette,
which may hold a color twice. A placement gives every node a position
such that neighbors differ and seeded nodes keep the first position of
their color; `Exact` says that an answer is right about whether there is
one, and that a coloring it gives is that of a placement. An arrangement
is a placement of the nodes of the graph and of nothing else, so that
arrangements can be counted.
-/

namespace Tricolor

variable {α : Type} [DecidableEq α] {g : Graph α} {seed c : Coloring α} {palette : List Color}
variable {p : α → Nat} {a : α} {color : Color}

/-- A choice of palette positions for all nodes that parts neighbors and
keeps the seed. -/
structure Placement (g : Graph α) (seed : Coloring α) (palette : List Color) (p : α → Nat) :
    Prop where
  lt : ∀ a ∈ g.nodes, p a < palette.length
  distinct : ∀ a b, g.hasEdge a b → p a ≠ p b
  seeded : ∀ a color, seed.get? a = some color → palette.idxOf? color = some (p a)

/-- A coloring that lists the nodes in their order, each with the color
at its position. -/
structure Realizes (g : Graph α) (palette : List Color) (p : α → Nat) (c : Coloring α) : Prop where
  nodes : c.nodes = g.nodes
  color : ∀ a ∈ g.nodes, c.get? a = palette[p a]?

/-- The answers of an exact oracle. -/
inductive Exact (g : Graph α) (seed : Coloring α) (palette : List Color) : OracleAnswer α → Prop
  | found {p : α → Nat} {c : Coloring α} :
      Placement g seed palette p → Realizes g palette p c → Exact g seed palette (.ok (some c))
  | refuted : (¬ ∃ p, Placement g seed palette p) → Exact g seed palette (.ok none)

theorem getElem?_of_idxOf? {i : Nat} (h : palette.idxOf? color = some i) :
    palette[i]? = some color := by
  rw [List.idxOf?, List.findIdx?_eq_some_iff_getElem] at h
  obtain ⟨hi, hcolor, -⟩ := h
  rw [List.getElem?_eq_getElem hi, eq_of_beq hcolor]

theorem exists_idxOf? (h : color ∈ palette) : ∃ i, palette.idxOf? color = some i :=
  Option.isSome_iff_exists.1 (List.isSome_idxOf?.2 h)

theorem realizes_ofList {entries : List (α × Color)} (hnodes : entries.map Prod.fst = g.nodes)
    (hcolor : ∀ e ∈ entries, palette[p e.1]? = some e.2) :
    Realizes g palette p (.ofList entries) := by
  have hentries := Coloring.entries_ofList (hnodes ▸ g.nodes_nodup)
  have hlist : (Coloring.ofList entries).nodes = g.nodes := by
    rw [Coloring.nodes, hentries, hnodes]
  refine ⟨hlist, fun a ha => ?_⟩
  obtain ⟨color, h⟩ := Coloring.mem_nodes_iff.1 (hlist ▸ ha)
  rw [h]
  exact (hcolor (a, color) (hentries ▸ Coloring.get?_eq_some_iff.1 h)).symm

/-- Every proper coloring from the palette that keeps the seed comes from
a placement. -/
theorem exists_placement (hc : Proper g c)
    (hpalette : ∀ a color, c.get? a = some color → color ∈ palette)
    (hkeep : ∀ a color, seed.get? a = some color → c.get? a = some color) :
    ∃ p, Placement g seed palette p := by
  have hidx : ∀ a color, c.get? a = some color →
      palette.idxOf? color = some (((c.get? a).bind palette.idxOf?).getD 0) := by
    intro a color ha
    obtain ⟨i, hi⟩ := exists_idxOf? (hpalette a color ha)
    rw [ha, Option.bind_some, hi, Option.getD_some]
  refine ⟨fun a => ((c.get? a).bind palette.idxOf?).getD 0, fun a ha => ?_, fun a b hab heq => ?_,
    fun a color ha => hidx a color (hkeep a color ha)⟩
  · obtain ⟨color, hcolor⟩ := hc.colored a ha
    exact (List.getElem?_eq_some_iff.1 (getElem?_of_idxOf? (hidx a color hcolor))).1
  · obtain ⟨ha, hb⟩ := Graph.mem_nodes_of_hasEdge hab
    obtain ⟨color, hcolor⟩ := hc.colored a ha
    obtain ⟨color', hcolor'⟩ := hc.colored b hb
    -- the same position would be the same color
    have hget := getElem?_of_idxOf? (hidx a color hcolor)
    have hget' := getElem?_of_idxOf? (hidx b color' hcolor')
    rw [heq, hget', Option.some.injEq] at hget
    exact hc.distinct a b hab (by rw [hcolor, hcolor', hget])

/-- The coloring of a placement keeps the seed. -/
theorem Realizes.get?_seeded (hc : Realizes g palette p c) (hp : Placement g seed palette p)
    (hs : ValidSeed g seed) (h : seed.get? a = some color) : c.get? a = some color := by
  rw [hc.color a (hs.known a (Coloring.mem_nodes_of_get? h))]
  exact getElem?_of_idxOf? (hp.seeded a color h)

/-- It has all its colors from the palette. -/
theorem Realizes.mem_palette (hc : Realizes g palette p c) (h : c.get? a = some color) :
    color ∈ palette := by
  have ha : a ∈ g.nodes := hc.nodes ▸ Coloring.mem_nodes_of_get? h
  rw [hc.color a ha] at h
  exact List.mem_of_getElem? h

/-- If the palette holds each color once, it is proper. -/
theorem Realizes.proper (hc : Realizes g palette p c) (hp : Placement g seed palette p)
    (hnodup : palette.Nodup) : Proper g c where
  colored a ha := ⟨_, (hc.color a ha).trans (List.getElem?_eq_getElem (hp.lt a ha))⟩
  distinct a b hab heq := by
    obtain ⟨ha, hb⟩ := Graph.mem_nodes_of_hasEdge hab
    rw [hc.color a ha, hc.color b hb] at heq
    exact hp.distinct a b hab ((List.getElem?_inj (hp.lt a ha) hnodup).1 heq)

/-! ## Arrangements -/

/-- The nodes of a graph, as a type. -/
abbrev Graph.Vertex (g : Graph α) : Type := {a // a ∈ g.nodes}

namespace Graph

theorem node?_position (a : g.Vertex) : g.node? (g.position a) = some a.1 := by
  obtain ⟨i, hi⟩ := mem_nodes_iff.1 a.2
  rw [position_eq_of_node? hi, hi]

theorem position_lt (a : g.Vertex) : g.position a < g.nodeCount :=
  lt_nodeCount_of_node? (node?_position a)

theorem exists_position_eq {i : Nat} (hi : i < g.nodeCount) : ∃ a : g.Vertex, g.position a = i := by
  obtain ⟨a, ha⟩ := exists_node?_of_lt hi
  exact ⟨⟨a, mem_nodes_iff.2 ⟨i, ha⟩⟩, position_eq_of_node? ha⟩

end Graph

/-- A map from the nodes of a graph, and nothing else, to palette
positions that parts neighbors and gives each seeded node the first
position of its color. -/
@[ext]
structure Arrangement (g : Graph α) (seed : Coloring α) (palette : List Color) where
  position : g.Vertex → Fin palette.length
  distinct : ∀ a b : g.Vertex, g.hasEdge a b → position a ≠ position b
  seeded : ∀ (a : g.Vertex) (color : Color), seed.get? a = some color →
    palette.idxOf? color = some (position a).val

namespace Arrangement

/-- The arrangement of a placement. -/
def ofPlacement {p : α → Nat} (hp : Placement g seed palette p) : Arrangement g seed palette where
  position a := ⟨p a, hp.lt a a.2⟩
  distinct a b hab heq := hp.distinct a b hab (congrArg Fin.val heq)
  seeded a color ha := hp.seeded a color ha

/-- The positions of an arrangement; other nodes take position 0. -/
def extend (p : Arrangement g seed palette) (a : α) : Nat :=
  if ha : a ∈ g.nodes then p.position ⟨a, ha⟩ else 0

theorem extend_eq (p : Arrangement g seed palette) (a : g.Vertex) :
    p.extend a = p.position a :=
  dif_pos a.2

theorem placement (p : Arrangement g seed palette) (hseed : ValidSeed g seed) :
    Placement g seed palette p.extend where
  lt a ha := by
    rw [p.extend_eq ⟨a, ha⟩]
    exact Fin.is_lt _
  distinct a b hab heq := by
    obtain ⟨ha, hb⟩ := Graph.mem_nodes_of_hasEdge hab
    rw [p.extend_eq ⟨a, ha⟩, p.extend_eq ⟨b, hb⟩] at heq
    exact p.distinct _ _ hab (Fin.ext heq)
  seeded a color h := by
    rw [p.extend_eq ⟨a, hseed.known a (Coloring.mem_nodes_of_get? h)⟩]
    exact p.seeded _ color h

end Arrangement

end Tricolor
