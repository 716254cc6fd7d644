/-!
# Adjacency tables

A table holds the neighbors of every position of a graph. It is built in
one pass over the links, and `neighbors_ofLinks` says that it gives the
other ends of the links of a position, in the order of the links.
-/

namespace Tricolor

/-- The other end of a link at position `i`. -/
def otherEnd (i : Nat) (e : Nat × Nat) : Option Nat :=
  if e.1 = i then some e.2 else if e.2 = i then some e.1 else none

theorem otherEnd_eq_some {i j : Nat} {e : Nat × Nat} (hne : e.1 ≠ e.2) :
    otherEnd i e = some j ↔ e = (i, j) ∨ e = (j, i) := by
  rcases e with ⟨a, b⟩
  simp only [otherEnd, Prod.mk.injEq]
  grind

/-- The neighbors of every position. -/
structure Adjacency where
  lists : Array (List Nat)

namespace Adjacency

/-- The neighbors of a position, none past the end. -/
def neighbors (adj : Adjacency) (i : Nat) : List Nat := adj.lists[i]?.getD []

/-- The number of neighbors of a position. -/
def degree (adj : Adjacency) (i : Nat) : Nat := (adj.neighbors i).length

/-- The table of `n` positions without links. -/
def unlinked (n : Nat) : Adjacency := ⟨Array.replicate n []⟩

/-- Puts a link in front of those of its two ends. -/
def link (e : Nat × Nat) (adj : Adjacency) : Adjacency :=
  ⟨(adj.lists.modify e.1 (e.2 :: ·)).modify e.2 (e.1 :: ·)⟩

/-- The table of `n` positions with links between them. The last link is
entered first, so that the first one comes to stand in front. -/
def ofLinks (n : Nat) (links : List (Nat × Nat)) : Adjacency := links.foldr link (unlinked n)

theorem size_link (e : Nat × Nat) (adj : Adjacency) :
    (adj.link e).lists.size = adj.lists.size := by
  simp [link]

theorem neighbors_link {e : Nat × Nat} (hne : e.1 ≠ e.2) {adj : Adjacency} {i : Nat}
    (h : i < adj.lists.size) :
    (adj.link e).neighbors i = (otherEnd i e).toList ++ adj.neighbors i := by
  simp only [neighbors, link, otherEnd, Array.getElem?_modify, h, getElem?_pos]
  grind

theorem size_ofLinks (n : Nat) (links : List (Nat × Nat)) : (ofLinks n links).lists.size = n := by
  induction links with
  | nil => simp [ofLinks, unlinked]
  | cons e links ih => exact (size_link e _).trans ih

/-- The table gives the other ends of the links of a position. -/
theorem neighbors_ofLinks {n : Nat} {links : List (Nat × Nat)} (hne : ∀ e ∈ links, e.1 ≠ e.2)
    {i : Nat} (h : i < n) : (ofLinks n links).neighbors i = links.filterMap (otherEnd i) := by
  induction links with
  | nil => simp [ofLinks, unlinked, neighbors, h]
  | cons e links ih =>
    have hs : i < (ofLinks n links).lists.size := by rw [size_ofLinks]; exact h
    rw [List.filterMap_cons, ← ih fun f hf => hne f (.tail e hf)]
    refine (neighbors_link (hne e (.head links)) hs).trans ?_
    cases otherEnd i e <;> rfl

/-- There are no neighbors past the last position. -/
theorem neighbors_ofLinks_of_le {n : Nat} {links : List (Nat × Nat)} {i : Nat} (h : n ≤ i) :
    (ofLinks n links).neighbors i = [] := by
  simp [neighbors, size_ofLinks, h]

end Adjacency

end Tricolor
