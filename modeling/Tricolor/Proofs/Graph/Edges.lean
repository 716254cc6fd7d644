import Mathlib.Algebra.BigOperators.Group.Finset.Piecewise
import Tricolor.Proofs.Graph.Lookup

/-!
# Counting edges

Each link is counted at both of its ends, so the degrees add up to twice
the number of edges (`sum_degreeAt`). The listing of the edges goes
through the positions and their neighbors, and yields each link once,
with the lower position first (`perm_edgeIndices`); no edge is lost on
the way from positions to nodes (`length_edges`, `mem_edges_iff`).
-/

namespace Tricolor

namespace Graph

variable {α : Type} {g : Graph α} {a b : α} {i j : Nat}

/-! ## Degrees -/

/-- A link in range has two ends. -/
theorem sum_length_otherEnd {n : Nat} {e : Nat × Nat} (hlt : e.1 < n ∧ e.2 < n)
    (hne : e.1 ≠ e.2) : ∑ i ∈ Finset.range n, (otherEnd i e).toList.length = 2 := by
  have hlength : ∀ i, (otherEnd i e).toList.length = if i = e.1 ∨ i = e.2 then 1 else 0 := by
    intro i
    simp only [otherEnd]
    grind
  have hends : (Finset.range n).filter (fun i => i = e.1 ∨ i = e.2) = {e.1, e.2} := by
    ext i
    simp only [Finset.mem_filter, Finset.mem_range, Finset.mem_insert, Finset.mem_singleton]
    omega
  rw [Finset.sum_congr rfl fun i _ => hlength i, ← Finset.card_filter, hends,
    Finset.card_pair hne]

theorem sum_length_filterMap_otherEnd {n : Nat} {links : List (Nat × Nat)}
    (hlt : ∀ e ∈ links, e.1 < n ∧ e.2 < n) (hne : ∀ e ∈ links, e.1 ≠ e.2) :
    ∑ i ∈ Finset.range n, (links.filterMap (otherEnd i)).length = 2 * links.length := by
  induction links with
  | nil => simp
  | cons e links ih =>
    have hcons : ∀ i, ((e :: links).filterMap (otherEnd i)).length =
        (otherEnd i e).toList.length + (links.filterMap (otherEnd i)).length := by
      intro i
      rw [List.filterMap_cons]
      cases otherEnd i e <;> simp [Nat.add_comm]
    rw [Finset.sum_congr rfl fun i _ => hcons i, Finset.sum_add_distrib,
      sum_length_otherEnd (hlt e (.head links)) (hne e (.head links)),
      ih (fun f hf => hlt f (.tail e hf)) fun f hf => hne f (.tail e hf), List.length_cons]
    omega

/-- **The degrees add up to twice the number of edges.** -/
theorem sum_degreeAt (g : Graph α) :
    ∑ i ∈ Finset.range g.nodeCount, g.degreeAt i = 2 * g.edgeCount := by
  rw [← length_links]
  exact sum_length_filterMap_otherEnd g.links_lt g.links_ne

/-! ## Edges between positions -/

theorem nodup_edgeIndices (g : Graph α) : g.edgeIndices.Nodup := by
  simp only [edgeIndices, neighbors_adjacency]
  refine List.nodup_flatMap.2 ⟨fun i _ => ?_, ?_⟩
  · exact ((g.nodup_neighborIndices i).filter _).map fun j k h => congrArg Prod.snd h
  · refine List.nodup_range.imp fun {i k} hik => ?_
    intro e hi hk
    obtain ⟨_, -, rfl⟩ := List.mem_map.1 hi
    obtain ⟨_, -, heq⟩ := List.mem_map.1 hk
    exact hik (congrArg Prod.fst heq).symm

/-- A link with its lower position first. -/
def ascending (e : Nat × Nat) : Nat × Nat := (min e.1 e.2, max e.1 e.2)

theorem eq_or_eq_swap_of_ascending {e f : Nat × Nat} (h : ascending e = ascending f) :
    e = f ∨ e = f.swap := by
  obtain ⟨a, b⟩ := e
  obtain ⟨c, d⟩ := f
  simp only [ascending, Prod.mk.injEq, Prod.swap_prod_mk] at h ⊢
  omega

/-- **The edges are the links**, each with its lower position first. -/
theorem perm_edgeIndices (g : Graph α) : g.edgeIndices.Perm (g.links.map ascending) := by
  have hnodup : (g.links.map ascending).Nodup := by
    refine List.pairwise_map.2 (g.links_fresh.imp fun {e f} hef heq => ?_)
    rcases eq_or_eq_swap_of_ascending heq with h | h
    · exact hef.1 h
    · exact hef.2 h
  refine (List.perm_ext_iff_of_nodup g.nodup_edgeIndices hnodup).2 fun e => ?_
  rw [mem_edgeIndices, List.mem_map]
  constructor
  · rintro ⟨hlt, hl | hl⟩
    · exact ⟨_, hl, by simp only [ascending]; grind⟩
    · exact ⟨_, hl, by simp only [ascending]; grind⟩
  · rintro ⟨f, hf, rfl⟩
    have hne := g.links_ne f hf
    obtain ⟨c, d⟩ := f
    simp only [ascending, Linked]
    rcases Nat.lt_or_gt_of_ne hne with hlt | hlt
    · rw [min_eq_left hlt.le, max_eq_right hlt.le]
      exact ⟨hlt, .inl hf⟩
    · rw [min_eq_right hlt.le, max_eq_left hlt.le]
      exact ⟨hlt, .inr hf⟩

theorem length_edgeIndices (g : Graph α) : g.edgeIndices.length = g.edgeCount := by
  rw [g.perm_edgeIndices.length_eq, List.length_map, length_links]

/-! ## Edges between nodes -/

/-- The nodes at two positions. -/
def nodePair? (g : Graph α) (e : Nat × Nat) : Option (α × α) :=
  match g.node? e.1, g.node? e.2 with
  | some a, some b => some (a, b)
  | _, _ => none

theorem nodePair?_eq_some_iff {e : Nat × Nat} :
    g.nodePair? e = some (a, b) ↔ g.node? e.1 = some a ∧ g.node? e.2 = some b := by
  simp only [nodePair?]
  split <;> simp_all

theorem edges_eq (g : Graph α) : g.edges = g.edgeIndices.filterMap g.nodePair? := rfl

theorem nodup_edges (g : Graph α) : g.edges.Nodup := by
  rw [edges_eq, List.Nodup, List.pairwise_filterMap]
  refine g.nodup_edgeIndices.imp fun {e f} hef x hx y hy hxy => hef ?_
  obtain ⟨a, b⟩ := x
  subst hxy
  obtain ⟨ha, hb⟩ := nodePair?_eq_some_iff.1 hx
  obtain ⟨ha', hb'⟩ := nodePair?_eq_some_iff.1 hy
  exact Prod.ext (node?_injective ha ha') (node?_injective hb hb')

/-- **There are as many edges as are counted.** -/
theorem length_edges (g : Graph α) : g.edges.length = g.edgeCount := by
  rw [edges_eq, ← length_edgeIndices, List.length_filterMap_eq_countP, List.countP_eq_length]
  intro e he
  obtain ⟨-, hl⟩ := mem_edgeIndices.1 he
  obtain ⟨a, ha⟩ := exists_node?_of_lt hl.lt.1
  obtain ⟨b, hb⟩ := exists_node?_of_lt hl.lt.2
  rw [nodePair?_eq_some_iff.2 ⟨ha, hb⟩]
  rfl

variable [DecidableEq α]

/-- **The edges join two nodes with an edge between them**, the one with
the lower position first. -/
theorem mem_edges_iff : (a, b) ∈ g.edges ↔ g.hasEdge a b ∧ g.position a < g.position b := by
  rw [edges_eq, List.mem_filterMap]
  constructor
  · rintro ⟨⟨i, j⟩, he, hpair⟩
    obtain ⟨hlt, hl⟩ := mem_edgeIndices.1 he
    obtain ⟨hi, hj⟩ := nodePair?_eq_some_iff.1 hpair
    rw [position_eq_of_node? hi, position_eq_of_node? hj]
    exact ⟨(hasEdge_iff_linked hi hj).2 hl, hlt⟩
  · rintro ⟨hedge, hlt⟩
    obtain ⟨i, j, hi, hj, hl⟩ := hasEdge_iff.1 hedge
    rw [position_eq_of_node? hi, position_eq_of_node? hj] at hlt
    exact ⟨(i, j), mem_edgeIndices.2 ⟨hlt, hl⟩, nodePair?_eq_some_iff.2 ⟨hi, hj⟩⟩

/-- Of an edge and its reverse, one is listed. -/
theorem count_edges (h : g.hasEdge a b) : g.edges.count (a, b) + g.edges.count (b, a) = 1 := by
  obtain ⟨i, j, hi, hj, hl⟩ := hasEdge_iff.1 h
  have hne := hl.ne
  simp only [g.nodup_edges.count, mem_edges_iff, h, hasEdge_symm h, true_and,
    position_eq_of_node? hi, position_eq_of_node? hj]
  split <;> split <;> omega

end Graph

end Tricolor
