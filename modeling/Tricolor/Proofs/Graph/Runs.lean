import Tricolor.Proofs.Graph.Edges
import Tricolor.Proofs.Graph.NeighborSets

/-!
# Every sequence of calls

Two results hold of the graph after any sequence of calls, whichever of
them fail. Its representation is sound: neighbors are positions of other
nodes, each once, and mutual, and the counts of edges, degrees and listed
edges agree (`after_wellFormed`). And it shows nothing but its history:
which nodes and edges the accepted calls have named, and in what order
(`after_shows_history`). Both hold of a graph kept in place as well, whose
sets are updated from one side only.
-/

namespace Tricolor

namespace Graph

variable {α : Type} [DecidableEq α]

/-- A graph whose positions, neighbors and counts fit together. -/
structure WellFormed (g : Graph α) : Prop where
  /-- Neighbors are positions of nodes. -/
  inRange : ∀ i, ∀ j ∈ g.neighborIndices i, i < g.nodeCount ∧ j < g.nodeCount
  nodup : ∀ i, (g.neighborIndices i).Nodup
  irreflexive : ∀ i, i ∉ g.neighborIndices i
  symmetric : ∀ i j, j ∈ g.neighborIndices i ↔ i ∈ g.neighborIndices j
  /-- The positions are those below the number of nodes. -/
  positions : ∀ i, (∃ a, g.node? i = some a) ↔ i < g.nodeCount
  inverse : ∀ a i, g.indexOf? a = some i ↔ g.node? i = some a
  degrees : ∑ i ∈ Finset.range g.nodeCount, g.degreeAt i = 2 * g.edgeCount
  listed : g.edges.length = g.edgeCount
  /-- A listed edge is one, and the node with the lower position comes
  first. -/
  ascending : ∀ e ∈ g.edges, g.hasEdge e.1 e.2 ∧
    ∃ i j, g.indexOf? e.1 = some i ∧ g.indexOf? e.2 = some j ∧ i < j
  /-- Of an edge and its reverse, one is listed, once. -/
  once : ∀ a b, g.hasEdge a b → g.edges.count (a, b) + g.edges.count (b, a) = 1

theorem wellFormed (g : Graph α) : WellFormed g where
  inRange i j hj := (mem_neighborIndices.1 hj).lt
  nodup := g.nodup_neighborIndices
  irreflexive i hi := (mem_neighborIndices.1 hi).ne rfl
  symmetric i j := by
    rw [mem_neighborIndices, mem_neighborIndices]
    exact ⟨Linked.symm, Linked.symm⟩
  positions i := ⟨fun ⟨_, ha⟩ => lt_nodeCount_of_node? ha, exists_node?_of_lt⟩
  inverse _ _ := indexOf?_eq_some_iff
  degrees := g.sum_degreeAt
  listed := g.length_edges
  ascending e he := by
    obtain ⟨hedge, hlt⟩ := mem_edges_iff.1 he
    obtain ⟨i, j, hi, hj, -⟩ := hasEdge_iff.1 hedge
    rw [position_eq_of_node? hi, position_eq_of_node? hj] at hlt
    exact ⟨hedge, i, j, indexOf?_eq_some_iff.2 hi, indexOf?_eq_some_iff.2 hj, hlt⟩
  once _ _ := count_edges

variable [ToString α]

/-- **The representation is sound after every sequence of calls**, failing
ones included. The graph is well formed; and sets of neighbors that are
kept in place, where a link is looked for in the set of one of its ends
only, are those of the graph, with the same counter and the same answers. -/
theorem after_wellFormed (past : History α) :
    WellFormed (after past) ∧
      NeighborSets.after past = (after past).neighborSets ∧
      ∀ call, ((NeighborSets.after past).perform call).1 = answer past call := by
  have hsets := after_neighborSets past
  refine ⟨wellFormed _, hsets, fun call => ?_⟩
  rw [hsets, perform_neighborSets, answer]
  rfl

/-- **A graph shows its history.** After every sequence of calls, nodes
and neighbors come in the order in which the accepted calls have named
and joined them first, and two nodes have an edge if an accepted call has
joined them. Positions stay. An added edge is new if its nodes were not
joined before; a call with a loop is rejected with the first node that it
would join to itself, and leaves the graph, also one that is kept in
place, as it is; and a batch without a loop does what its edges do one by
one. -/
theorem after_shows_history (past : History α) :
    Shows (after past) past ∧
    (∀ later i a, (after past).node? i = some a → (after (later ++ past)).node? i = some a) ∧
    (∀ a, ∃ i, answer past (.addNode a) = .ok (.position i) ∧
      (after (.addNode a :: past)).node? i = some a) ∧
    (∀ a b, a ≠ b → ∃ isNew, answer past (.addEdge a b) = .ok (.fresh isNew) ∧
      (isNew = true ↔ ¬ Joined past a b)) ∧
    (∀ call a, call.loop? = some a → answer past call = .error (.selfLoop (toString a)) ∧
      after (call :: past) = after past ∧
      NeighborSets.after (call :: past) = NeighborSets.after past) ∧
    (∀ edges, (∀ e ∈ edges, e.1 ≠ e.2) → answer past (.addEdges edges) = .ok .done ∧
      after (.addEdges edges :: past) =
        after ((edges.map fun e => .addEdge e.1 e.2).reverse ++ past)) := by
  have hshows := shows_after past
  refine ⟨hshows, fun later _ _ => node?_after_append later, fun a => ?_, fun a b hne => ?_,
    fun call a hloop => ?_, fun edges hne => ?_⟩
  · obtain ⟨i, hi⟩ :=
      mem_nodes_iff.1 (mem_nodes_addNode.2 (.inr rfl) : a ∈ ((after past).addNode a).nodes)
    exact ⟨i, by rw [answer, perform, position_eq_of_node? hi], hi⟩
  · refine ⟨_, by rw [answer, perform_addEdge hne], ?_⟩
    rw [← hshows.hasEdge, Bool.not_eq_true', Bool.not_eq_true]
  · refine ⟨by rw [answer, perform_of_loop hloop], by rw [after, perform_of_loop hloop], ?_⟩
    rw [NeighborSets.after, NeighborSets.perform_of_loop hloop]
  · exact ⟨by rw [answer, perform_addEdges hne], after_addEdges hne⟩

/-- A star behind a node of its own: the neighbors of the center come as
they were joined. A batch with loops is rejected for the first of them, an
edge that is there from the other end is not new, and a batch of two edges
is the two edges. -/
theorem after_shows_history_star :
    let past : History Nat := [.addEdges [(0, 3), (0, 1), (0, 2)], .addNode 2]
    (after past).nodes = [2, 0, 3, 1] ∧ (after past).neighbors 0 = [3, 1, 2] ∧
    (after past).hasEdge 2 0 = true ∧
    (∃ i, answer past (.addNode 2) = .ok (.position i)) ∧
    answer past (.addEdge 1 0) = .ok (.fresh false) ∧
    answer past (.addEdges [(1, 2), (4, 4), (5, 5)]) = .error (.selfLoop "4") ∧
    NeighborSets.after (.addEdges [(1, 2), (4, 4), (5, 5)] :: past) = NeighborSets.after past ∧
    after (.addEdges [(1, 2), (3, 1)] :: past) =
      after (.addEdge 3 1 :: .addEdge 1 2 :: past) := by
  intro past
  obtain ⟨hshows, -, hnode, hedge, hloop, hbatch⟩ := after_shows_history past
  have hjoined (a : Nat) (h : a = 1 ∨ a = 2) : Joined past a 0 :=
    ⟨_, .head _, rfl, .inr (by rcases h with rfl | rfl <;> decide)⟩
  obtain ⟨i, hi, -⟩ := hnode 2
  obtain ⟨isNew, hanswer, hnew⟩ := hedge 1 0 (by decide)
  obtain ⟨hrejected, -, hsame⟩ := hloop (.addEdges [(1, 2), (4, 4), (5, 5)]) 4 rfl
  have hold : isNew = false := by simpa [hjoined 1 (.inl rfl)] using hnew
  exact ⟨hshows.nodes, hshows.neighbors 0, (hshows.hasEdge 2 0).2 (hjoined 2 (.inr rfl)), ⟨i, hi⟩,
    hold ▸ hanswer, hrejected, hsame, (hbatch [(1, 2), (3, 1)] (by decide)).2⟩

end Graph

end Tricolor
