import Tricolor.Error
import Tricolor.Graph.Adjacency

/-!
# Simple undirected graphs

A graph lists its nodes in the order of their first insertion and its
links in the order they were accepted, a link being a pair of node
positions. That no node repeats, that links stay in range and join
different nodes, and that no two nodes are linked twice, in either
direction, is part of the type. Neighbors, degrees and edges are read
off the links, so adjacency is symmetric by construction
(`mem_neighborIndices`), and the order in which neighbors come is the
order in which their links were accepted.
-/

namespace Tricolor

/-- A simple undirected graph with nodes named by `α`. -/
structure Graph (α : Type) where
  /-- The nodes, in order of first insertion. -/
  order : Array α
  /-- The linked pairs of node positions, in order of acceptance. -/
  accepted : Array (Nat × Nat)
  nodup : order.toList.Nodup
  accepted_lt : ∀ e ∈ accepted, e.1 < order.size ∧ e.2 < order.size
  accepted_ne : ∀ e ∈ accepted, e.1 ≠ e.2
  accepted_fresh : accepted.toList.Pairwise fun e f => e ≠ f ∧ e ≠ f.swap

namespace Graph

variable {α : Type}

/-- The graph without nodes. -/
def empty : Graph α := ⟨#[], #[], by simp, by simp, by simp, by simp⟩

instance : Inhabited (Graph α) := ⟨empty⟩

/-- The nodes, in order of first insertion. -/
def nodes (g : Graph α) : List α := g.order.toList

/-- The linked pairs of node positions, in order of acceptance. -/
def links (g : Graph α) : List (Nat × Nat) := g.accepted.toList

/-- The number of nodes. -/
def nodeCount (g : Graph α) : Nat := g.order.size

/-- The number of edges. -/
def edgeCount (g : Graph α) : Nat := g.accepted.size

/-- The node at a position. -/
def node? (g : Graph α) (i : Nat) : Option α := g.order[i]?

theorem nodes_nodup (g : Graph α) : g.nodes.Nodup := g.nodup

theorem length_nodes (g : Graph α) : g.nodes.length = g.nodeCount := Array.length_toList

theorem length_links (g : Graph α) : g.links.length = g.edgeCount := Array.length_toList

theorem getElem?_nodes (g : Graph α) (i : Nat) : g.nodes[i]? = g.node? i :=
  Array.getElem?_toList

theorem links_lt (g : Graph α) : ∀ e ∈ g.links, e.1 < g.nodeCount ∧ e.2 < g.nodeCount :=
  fun e he => g.accepted_lt e (Array.mem_toList_iff.1 he)

theorem links_ne (g : Graph α) : ∀ e ∈ g.links, e.1 ≠ e.2 :=
  fun e he => g.accepted_ne e (Array.mem_toList_iff.1 he)

theorem links_fresh (g : Graph α) : g.links.Pairwise fun e f => e ≠ f ∧ e ≠ f.swap :=
  g.accepted_fresh

/-! ## Adjacency of positions -/

/-- Whether two positions are linked, in either direction. -/
def Linked (g : Graph α) (i j : Nat) : Prop := (i, j) ∈ g.links ∨ (j, i) ∈ g.links

/-- Whether a link joins two positions, in either direction. -/
def joins (i j : Nat) (e : Nat × Nat) : Bool :=
  (e.1 == i && e.2 == j) || (e.1 == j && e.2 == i)

/-- Tests two positions for a link in one pass over the links. -/
def isLinked (g : Graph α) (i j : Nat) : Bool := g.accepted.any (joins i j)

theorem isLinked_iff {g : Graph α} {i j : Nat} : g.isLinked i j ↔ g.Linked i j := by
  simp only [isLinked, Linked, links, ← Array.any_toList, List.any_eq_true, joins, Bool.or_eq_true,
    Bool.and_eq_true, beq_iff_eq]
  constructor
  · rintro ⟨⟨a, b⟩, he, ⟨rfl, rfl⟩ | ⟨rfl, rfl⟩⟩
    · exact .inl he
    · exact .inr he
  · rintro (h | h)
    · exact ⟨_, h, .inl ⟨rfl, rfl⟩⟩
    · exact ⟨_, h, .inr ⟨rfl, rfl⟩⟩

instance (g : Graph α) (i j : Nat) : Decidable (g.Linked i j) :=
  decidable_of_iff _ isLinked_iff

/-- The positions linked with a position, in order of acceptance. -/
def neighborIndices (g : Graph α) (i : Nat) : List Nat := g.links.filterMap (otherEnd i)

/-- The number of neighbors of the node at a position. -/
def degreeAt (g : Graph α) (i : Nat) : Nat := (g.neighborIndices i).length

/-- A position is a neighbor exactly if the two are linked. -/
theorem mem_neighborIndices {g : Graph α} {i j : Nat} :
    j ∈ g.neighborIndices i ↔ g.Linked i j := by
  simp only [neighborIndices, List.mem_filterMap, Linked]
  constructor
  · rintro ⟨e, he, h⟩
    rcases (otherEnd_eq_some (g.links_ne e he)).1 h with rfl | rfl
    · exact .inl he
    · exact .inr he
  · rintro (h | h)
    · exact ⟨_, h, (otherEnd_eq_some (g.links_ne _ h)).2 (.inl rfl)⟩
    · exact ⟨_, h, (otherEnd_eq_some (g.links_ne _ h)).2 (.inr rfl)⟩

/-- A position past the last node has no neighbors. -/
theorem neighborIndices_of_le {g : Graph α} {i : Nat} (h : g.nodeCount ≤ i) :
    g.neighborIndices i = [] := by
  simp only [neighborIndices, List.filterMap_eq_nil_iff, otherEnd]
  intro e he
  have := g.links_lt e he
  grind

theorem Linked.symm {g : Graph α} {i j : Nat} (h : g.Linked i j) : g.Linked j i := Or.symm h

/-- The table of the neighbors of all positions. -/
def adjacency (g : Graph α) : Adjacency := .ofLinks g.nodeCount g.links

/-- The table gives the neighbors that the graph gives. -/
theorem neighbors_adjacency (g : Graph α) (i : Nat) :
    g.adjacency.neighbors i = g.neighborIndices i := by
  by_cases h : i < g.nodeCount
  · exact Adjacency.neighbors_ofLinks g.links_ne h
  · rw [g.neighborIndices_of_le (Nat.le_of_not_lt h)]
    exact Adjacency.neighbors_ofLinks_of_le (Nat.le_of_not_lt h)

/-- The table gives the degrees that the graph gives. -/
theorem degree_adjacency (g : Graph α) (i : Nat) : g.adjacency.degree i = g.degreeAt i := by
  simp only [Adjacency.degree, neighbors_adjacency, degreeAt]

/-- The linked positions, each pair once with the lower position first,
ordered by the lower position and then by acceptance. -/
def edgeIndices (g : Graph α) : List (Nat × Nat) :=
  let adj := g.adjacency
  (List.range g.nodeCount).flatMap fun i =>
    ((adj.neighbors i).filter (i < ·)).map fun j => (i, j)

/-! ## Growing a graph -/

/-- Links two different positions of the graph, unless they are. -/
def link (g : Graph α) (i j : Nat) : Graph α :=
  if h : i < g.nodeCount ∧ j < g.nodeCount ∧ i ≠ j ∧ ¬ g.Linked i j then
    { g with
      accepted := g.accepted.push (i, j)
      accepted_lt := by
        have := g.accepted_lt
        simp only [nodeCount] at h
        grind
      accepted_ne := by
        have := g.accepted_ne
        grind
      accepted_fresh := by
        rw [Array.toList_push, List.pairwise_append]
        refine ⟨g.accepted_fresh, by simp, ?_⟩
        simp only [Linked, links, not_or] at h
        intro e he f hf
        rw [List.mem_singleton] at hf
        subst hf
        refine ⟨fun hef => ?_, fun hef => ?_⟩
        · exact h.2.2.2.1 (hef ▸ he)
        · exact h.2.2.2.2 (by rw [hef] at he; exact he) }
  else g

section Insert

variable [DecidableEq α]

/-- Whether the graph has a node. -/
@[specialize]
def contains (g : Graph α) (a : α) : Bool := g.order.any (· == a)

theorem contains_iff {g : Graph α} {a : α} : g.contains a ↔ a ∈ g.nodes := by
  simp [contains, nodes, Array.any_eq_true, Array.mem_iff_getElem]

/-- Adds a node at the end, unless the graph has it. -/
@[specialize]
def addNode (g : Graph α) (a : α) : Graph α :=
  if h : g.contains a then g
  else
    { g with
      order := g.order.push a
      nodup := by
        rw [contains_iff, nodes] at h
        rw [Array.toList_push, List.nodup_append]
        exact ⟨g.nodup, by simp, by grind⟩
      accepted_lt := fun e he => by
        have := g.accepted_lt e he
        rw [Array.size_push]
        omega }

/-- The position of a node; for a node that the graph does not have, the
position it would get. -/
@[specialize]
def position (g : Graph α) (a : α) : Nat := g.order.findIdx (· == a)

/-- Adds two nodes, the first one first, and links them. -/
@[specialize]
def join (g : Graph α) (a b : α) : Graph α :=
  let g := (g.addNode a).addNode b
  g.link (g.position a) (g.position b)

/-- Joins pairs of nodes one after the other. -/
@[specialize]
def joinAll (g : Graph α) (edges : List (α × α)) : Graph α :=
  edges.foldl (fun g e => g.join e.1 e.2) g

end Insert

/-! ## Looking up nodes -/

section Lookup

variable [DecidableEq α]

/-- The position of a node, if the graph has it. -/
@[specialize]
def indexOf? (g : Graph α) (a : α) : Option Nat := g.order.findIdx? (· == a)

/-- The neighbors of a node, in order of acceptance; none for a node that
the graph does not have. -/
def neighbors (g : Graph α) (a : α) : List α :=
  match g.indexOf? a with
  | some i => (g.neighborIndices i).filterMap g.node?
  | none => []

/-- The number of neighbors of a node. -/
def degree (g : Graph α) (a : α) : Nat :=
  match g.indexOf? a with
  | some i => g.degreeAt i
  | none => 0

/-- Whether two nodes are joined. -/
def hasEdge (g : Graph α) (a b : α) : Bool :=
  match g.indexOf? a, g.indexOf? b with
  | some i, some j => decide (g.Linked i j)
  | _, _ => false

/-- The edges as pairs of nodes, in the order of `edgeIndices`. -/
def edges (g : Graph α) : List (α × α) :=
  g.edgeIndices.filterMap fun (i, j) =>
    match g.node? i, g.node? j with
    | some a, some b => some (a, b)
    | _, _ => none

/-- Two graphs are equal if they have the same names and edge count, and
each name has the same set of neighbor positions in both. -/
def beq (g h : Graph α) : Bool :=
  g.edgeCount == h.edgeCount && g.nodeCount == h.nodeCount &&
    g.order.all fun a =>
      match g.indexOf? a, h.indexOf? a with
      | some i, some j =>
        g.degreeAt i == h.degreeAt j && (g.neighborIndices i).all (h.neighborIndices j).contains
      | _, _ => false

instance : BEq (Graph α) := ⟨beq⟩

end Lookup

/-! ## Adding edges by name -/

section Add

variable [DecidableEq α] [ToString α]

/-- Joins two nodes, which must differ, and tells whether they were not
joined before. -/
def addEdge (g : Graph α) (a b : α) : Except Error (Bool × Graph α) :=
  if a = b then .error (.selfLoop (toString a))
  else .ok (!g.hasEdge a b, g.join a b)

/-- Joins pairs of nodes one after the other. If any pair is a loop, the
first one is reported and nothing is joined. -/
def addEdges (g : Graph α) (edges : List (α × α)) : Except Error (Graph α) :=
  match edges.find? fun e => e.1 == e.2 with
  | some (a, _) => .error (.selfLoop (toString a))
  | none => .ok (g.joinAll edges)

end Add

end Graph

end Tricolor
