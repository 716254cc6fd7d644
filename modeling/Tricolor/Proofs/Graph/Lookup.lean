import Mathlib.Data.List.Perm.Subperm
import Tricolor.Graph.Basic

/-!
# Looking up nodes and edges

A graph stores positions, and its users speak of nodes. No node has two
positions, so `indexOf?` and `node?` are inverse to each other
(`indexOf?_eq_some_iff`), and an edge between two nodes is a link between
their positions (`hasEdge_iff`). Everything else a graph tells of its
nodes, their neighbors, degrees and edges, is read off that.
-/

namespace Tricolor

namespace Graph

variable {α : Type} {g : Graph α} {a b : α} {i j : Nat}

/-! ## Positions -/

theorem lt_nodeCount_of_node? (h : g.node? i = some a) : i < g.nodeCount :=
  (Array.getElem?_eq_some_iff.1 h).1

theorem exists_node?_of_lt (h : i < g.nodeCount) : ∃ a, g.node? i = some a :=
  ⟨g.order[i], Array.getElem?_eq_getElem h⟩

theorem mem_nodes_iff : a ∈ g.nodes ↔ ∃ i, g.node? i = some a := by
  rw [List.mem_iff_getElem?]
  simp only [getElem?_nodes]

/-- A node has one position only. -/
theorem node?_injective (hi : g.node? i = some a) (hj : g.node? j = some a) : i = j := by
  rw [← getElem?_nodes] at hi hj
  have hlt : i < g.nodes.length := (List.getElem?_eq_some_iff.1 hi).1
  exact (List.getElem?_inj hlt g.nodes_nodup).1 (hi.trans hj.symm)

/-- Linked positions are positions of nodes. -/
theorem Linked.lt (h : g.Linked i j) : i < g.nodeCount ∧ j < g.nodeCount := by
  rcases h with h | h
  · exact g.links_lt _ h
  · exact (g.links_lt _ h).symm

theorem Linked.ne (h : g.Linked i j) : i ≠ j := by
  rcases h with h | h
  · exact g.links_ne _ h
  · exact (g.links_ne _ h).symm

/-- If no two pairs of a list have the same ends, in either order, then no
other end of a pair at one place comes twice. -/
theorem nodup_otherEnds {pairs : List (α × α)} {end? : α × α → Option α}
    (hend : ∀ e ∈ pairs, ∀ b, end? e = some b ↔ e = (a, b) ∨ e = (b, a))
    (hfresh : pairs.Pairwise fun e f => e ≠ f ∧ e ≠ f.swap) : (pairs.filterMap end?).Nodup := by
  rw [List.Nodup, List.pairwise_filterMap]
  refine hfresh.imp_of_mem fun {e f} he hf hef x hx y hy hxy => ?_
  have hxe := (hend e he x).1 hx
  have hyf := (hend f hf y).1 hy
  subst hxy
  rcases hxe with rfl | rfl <;> rcases hyf with rfl | rfl
  · exact hef.1 rfl
  · exact hef.2 rfl
  · exact hef.2 rfl
  · exact hef.1 rfl

/-- A position comes once among the neighbors of another: no two links
join the same positions. -/
theorem nodup_neighborIndices (g : Graph α) (i : Nat) : (g.neighborIndices i).Nodup :=
  nodup_otherEnds (fun e he _ => otherEnd_eq_some (g.links_ne e he)) g.links_fresh

/-- The edges of a graph join linked positions, the lower one first. -/
theorem mem_edgeIndices {e : Nat × Nat} :
    e ∈ g.edgeIndices ↔ e.1 < e.2 ∧ g.Linked e.1 e.2 := by
  obtain ⟨i, j⟩ := e
  simp only [edgeIndices, List.mem_flatMap, List.mem_range, List.mem_map, List.mem_filter,
    neighbors_adjacency, mem_neighborIndices, decide_eq_true_eq, Prod.mk.injEq]
  constructor
  · rintro ⟨_, -, _, ⟨hl, hlt⟩, rfl, rfl⟩
    exact ⟨hlt, hl⟩
  · rintro ⟨hlt, hl⟩
    exact ⟨i, hl.lt.1, j, ⟨hl, hlt⟩, rfl, rfl⟩

/-! ## Nodes -/

variable [DecidableEq α]

/-- **Looking up by name and by position are inverse.** -/
theorem indexOf?_eq_some_iff : g.indexOf? a = some i ↔ g.node? i = some a := by
  rw [indexOf?, Array.findIdx?_eq_some_iff_getElem]
  constructor
  · rintro ⟨hi, ha, -⟩
    rw [node?, Array.getElem?_eq_getElem hi, eq_of_beq ha]
  · intro h
    obtain ⟨hi, ha⟩ := Array.getElem?_eq_some_iff.1 h
    refine ⟨hi, beq_iff_eq.2 ha, fun j hji hja => ?_⟩
    have hj : g.node? j = some a := by
      rw [node?, Array.getElem?_eq_getElem (by omega), eq_of_beq hja]
    have := node?_injective h hj
    omega

theorem indexOf?_eq_none_iff : g.indexOf? a = none ↔ a ∉ g.nodes := by
  rw [Option.eq_none_iff_forall_ne_some, mem_nodes_iff, not_exists]
  simp only [ne_eq, indexOf?_eq_some_iff]

theorem position_eq_of_node? (h : g.node? i = some a) : g.position a = i := by
  rw [position, Array.findIdx_eq_getD_findIdx?]
  have hidx := indexOf?_eq_some_iff.2 h
  rw [indexOf?] at hidx
  rw [hidx]
  rfl

/-- **An edge joins two nodes whose positions are linked.** -/
theorem hasEdge_iff :
    g.hasEdge a b ↔ ∃ i j, g.node? i = some a ∧ g.node? j = some b ∧ g.Linked i j := by
  constructor
  · intro h
    simp only [hasEdge] at h
    split at h
    · rename_i i j hi hj
      exact ⟨i, j, indexOf?_eq_some_iff.1 hi, indexOf?_eq_some_iff.1 hj, of_decide_eq_true h⟩
    · cases h
  · rintro ⟨i, j, hi, hj, hl⟩
    simp only [hasEdge, indexOf?_eq_some_iff.2 hi, indexOf?_eq_some_iff.2 hj]
    exact decide_eq_true hl

/-- At known positions the two notions agree. -/
theorem hasEdge_iff_linked (hi : g.node? i = some a) (hj : g.node? j = some b) :
    g.hasEdge a b ↔ g.Linked i j := by
  rw [hasEdge_iff]
  constructor
  · rintro ⟨i', j', hi', hj', hl⟩
    rwa [node?_injective hi hi', node?_injective hj hj']
  · exact fun hl => ⟨i, j, hi, hj, hl⟩

theorem hasEdge_symm (h : g.hasEdge a b) : g.hasEdge b a := by
  obtain ⟨i, j, hi, hj, hl⟩ := hasEdge_iff.1 h
  exact hasEdge_iff.2 ⟨j, i, hj, hi, hl.symm⟩

theorem ne_of_hasEdge (h : g.hasEdge a b) : a ≠ b := by
  obtain ⟨i, j, hi, hj, hl⟩ := hasEdge_iff.1 h
  rintro rfl
  exact hl.ne (node?_injective hi hj)

theorem mem_nodes_of_hasEdge (h : g.hasEdge a b) : a ∈ g.nodes ∧ b ∈ g.nodes := by
  obtain ⟨i, j, hi, hj, -⟩ := hasEdge_iff.1 h
  exact ⟨mem_nodes_iff.2 ⟨i, hi⟩, mem_nodes_iff.2 ⟨j, hj⟩⟩

theorem not_hasEdge_empty (a b : α) : ¬ (empty : Graph α).hasEdge a b :=
  fun h => List.not_mem_nil (mem_nodes_of_hasEdge h).1

/-! ## Neighbors and edges -/

theorem neighbors_eq_of_node? (h : g.node? i = some a) :
    g.neighbors a = (g.neighborIndices i).filterMap g.node? := by
  rw [neighbors, indexOf?_eq_some_iff.2 h]

/-- The neighbors of a node are the nodes it has an edge to. -/
theorem mem_neighbors : b ∈ g.neighbors a ↔ g.hasEdge a b := by
  by_cases ha : a ∈ g.nodes
  · obtain ⟨i, hi⟩ := mem_nodes_iff.1 ha
    rw [neighbors_eq_of_node? hi, List.mem_filterMap]
    constructor
    · rintro ⟨j, hj, hb⟩
      exact hasEdge_iff.2 ⟨i, j, hi, hb, mem_neighborIndices.1 hj⟩
    · intro h
      obtain ⟨i', j, hi', hj, hl⟩ := hasEdge_iff.1 h
      rw [node?_injective hi' hi] at hl
      exact ⟨j, mem_neighborIndices.2 hl, hj⟩
  · rw [neighbors, indexOf?_eq_none_iff.2 ha]
    exact ⟨fun h => absurd h List.not_mem_nil, fun h => absurd (mem_nodes_of_hasEdge h).1 ha⟩

theorem neighbors_eq_nil_iff : g.neighbors a = [] ↔ ∀ b, ¬ g.hasEdge a b := by
  simp only [List.eq_nil_iff_forall_not_mem, mem_neighbors]

theorem neighbors_of_not_mem (h : a ∉ g.nodes) : g.neighbors a = [] :=
  neighbors_eq_nil_iff.2 fun _ hedge => h (mem_nodes_of_hasEdge hedge).1

theorem nodup_neighbors (g : Graph α) (a : α) : (g.neighbors a).Nodup := by
  by_cases ha : a ∈ g.nodes
  · obtain ⟨i, hi⟩ := mem_nodes_iff.1 ha
    rw [neighbors_eq_of_node? hi, List.Nodup, List.pairwise_filterMap]
    refine (g.nodup_neighborIndices i).imp fun hne x hx y hy hxy => hne ?_
    exact node?_injective (hxy ▸ hx) hy
  · rw [neighbors, indexOf?_eq_none_iff.2 ha]
    exact List.nodup_nil

/-- A node has fewer neighbors than the graph has nodes. -/
theorem length_neighbors_lt (ha : a ∈ g.nodes) : (g.neighbors a).length < g.nodeCount := by
  have hnot : a ∉ g.neighbors a := fun h => ne_of_hasEdge (mem_neighbors.1 h) rfl
  have hsub : a :: g.neighbors a ⊆ g.nodes := by
    intro b hb
    rcases List.mem_cons.1 hb with rfl | hb
    · exact ha
    · exact (mem_nodes_of_hasEdge (mem_neighbors.1 hb)).2
  have hle := ((List.nodup_cons.2 ⟨hnot, g.nodup_neighbors a⟩).subperm hsub).length_le
  rwa [length_nodes] at hle

/-- The degree at a position is the number of neighbors of its node. -/
theorem degreeAt_eq_length_neighbors (h : g.node? i = some a) :
    g.degreeAt i = (g.neighbors a).length := by
  rw [neighbors_eq_of_node? h, List.length_filterMap_eq_countP, degreeAt, eq_comm,
    List.countP_eq_length]
  intro j hj
  obtain ⟨b, hb⟩ := exists_node?_of_lt (mem_neighborIndices.1 hj).lt.2
  rw [hb]
  rfl

theorem degree_eq_length_neighbors (g : Graph α) (a : α) : g.degree a = (g.neighbors a).length := by
  by_cases ha : a ∈ g.nodes
  · obtain ⟨i, hi⟩ := mem_nodes_iff.1 ha
    rw [degree, indexOf?_eq_some_iff.2 hi, ← degreeAt_eq_length_neighbors hi]
  · rw [neighbors_of_not_mem ha, degree, indexOf?_eq_none_iff.2 ha]
    rfl

end Graph

end Tricolor
