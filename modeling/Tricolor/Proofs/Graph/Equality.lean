import Tricolor.Proofs.Graph.Calls
import Tricolor.Proofs.Graph.Edges

/-!
# What equality of graphs compares

The equality test of graphs finds each node of one graph in the other by
its name, and then compares the positions of their neighbors, each graph
counting in its own order. It therefore tells whether a node is joined in
one graph with what stands at a position exactly if it is joined in the
other with what stands there (`beq_iff_agreeByPosition`). This is an
equivalence, and on graphs that list their nodes in one order it is what
is wanted (`beq_iff_same`). On other graphs it is not: it takes different
graphs for the same, and the same graph for different ones
(`beq_misjudges`).
-/

namespace Tricolor

namespace Graph

variable {α : Type} {g h k : Graph α} {a b c : α} {i j p : Nat}

/-- The same graph: the same nodes, and the same edges between them. -/
structure Same [DecidableEq α] (g h : Graph α) : Prop where
  nodes : ∀ a, a ∈ g.nodes ↔ a ∈ h.nodes
  hasEdge : ∀ a b, g.hasEdge a b ↔ h.hasEdge a b

/-- The same nodes, and each of them is joined with what stands at a
position in both graphs or in neither. -/
structure AgreeByPosition [DecidableEq α] (g h : Graph α) : Prop where
  nodes : ∀ a, a ∈ g.nodes ↔ a ∈ h.nodes
  hasEdge : ∀ a p b c, g.node? p = some b → h.node? p = some c → (g.hasEdge a b ↔ h.hasEdge a c)

/-- Graphs with the same nodes have equally many. -/
theorem nodeCount_eq (hnodes : ∀ a, a ∈ g.nodes ↔ a ∈ h.nodes) : g.nodeCount = h.nodeCount := by
  rw [← length_nodes, ← length_nodes]
  exact ((List.perm_ext_iff_of_nodup g.nodes_nodup h.nodes_nodup).2 hnodes).length_eq

theorem perm_neighborIndices (hlinked : ∀ p, g.Linked i p ↔ h.Linked j p) :
    (g.neighborIndices i).Perm (h.neighborIndices j) := by
  refine (List.perm_ext_iff_of_nodup (g.nodup_neighborIndices i)
    (h.nodup_neighborIndices j)).2 fun p => ?_
  rw [mem_neighborIndices, mem_neighborIndices, hlinked]

/-- Two positions of a node, linked with the same positions. -/
def AgreeAt (g h : Graph α) (a : α) : Prop :=
  ∃ i j, g.node? i = some a ∧ h.node? j = some a ∧ ∀ p, g.Linked i p ↔ h.Linked j p

/-- Two sets of positions are the same if they are equally large and one of
them has no other. -/
theorem agreeAt_iff (hi : g.node? i = some a) (hj : h.node? j = some a) :
    AgreeAt g h a ↔
      g.degreeAt i = h.degreeAt j ∧ g.neighborIndices i ⊆ h.neighborIndices j := by
  constructor
  · rintro ⟨i', j', hi', hj', hlinked⟩
    cases node?_injective hi hi'
    cases node?_injective hj hj'
    have hperm := perm_neighborIndices hlinked
    exact ⟨hperm.length_eq, hperm.subset⟩
  · rintro ⟨hdegree, hsub⟩
    refine ⟨i, j, hi, hj, fun p => ?_⟩
    rw [← mem_neighborIndices, ← mem_neighborIndices]
    exact (((g.nodup_neighborIndices i).subperm hsub).perm_of_length_le hdegree.ge).mem_iff

variable [DecidableEq α]

theorem degree_eq_degreeAt (hi : g.node? i = some a) : g.degree a = g.degreeAt i := by
  rw [degree, indexOf?_eq_some_iff.2 hi]

/-- The degrees of the nodes add up to twice the number of edges. -/
theorem sum_degree (g : Graph α) : ∑ a ∈ g.nodes.toFinset, g.degree a = 2 * g.edgeCount := by
  have hdegrees : g.nodes.map g.degree = (List.range g.nodeCount).map g.degreeAt := by
    have hlength : (g.nodes.map g.degree).length =
        ((List.range g.nodeCount).map g.degreeAt).length := by
      rw [List.length_map, List.length_map, List.length_range, length_nodes]
    refine List.ext_getElem hlength fun i hi _ => ?_
    rw [List.length_map] at hi
    have hnode : g.node? i = some g.nodes[i] := by
      rw [← getElem?_nodes, List.getElem?_eq_getElem]
    rw [List.getElem_map, List.getElem_map, List.getElem_range, degree_eq_degreeAt hnode]
  rw [List.sum_toFinset _ g.nodes_nodup, hdegrees, ← sum_degreeAt]
  rfl

/-! ## What the test compares -/

/-- The test looks each node up in both graphs. -/
theorem beq_iff_agreeAt :
    g == h ↔ g.edgeCount = h.edgeCount ∧ g.nodeCount = h.nodeCount ∧
      ∀ a ∈ g.nodes, AgreeAt g h a := by
  have hbeq : (g == h) = g.beq h := rfl
  simp only [hbeq, beq, Bool.and_eq_true, beq_iff_eq, Array.all_eq_true_iff_forall_mem, and_assoc]
  refine and_congr_right fun _ => and_congr_right fun _ => forall_congr' fun a => ?_
  rw [nodes, Array.mem_toList_iff]
  refine imp_congr_right fun _ => ?_
  cases hi : g.indexOf? a with
  | none =>
    refine iff_of_false Bool.false_ne_true ?_
    rintro ⟨i, -, ha, -⟩
    exact indexOf?_eq_none_iff.1 hi (mem_nodes_iff.2 ⟨i, ha⟩)
  | some i =>
    cases hj : h.indexOf? a with
    | none =>
      refine iff_of_false Bool.false_ne_true ?_
      rintro ⟨-, j, -, ha, -⟩
      exact indexOf?_eq_none_iff.1 hj (mem_nodes_iff.2 ⟨j, ha⟩)
    | some j =>
      rw [agreeAt_iff (indexOf?_eq_some_iff.1 hi) (indexOf?_eq_some_iff.1 hj)]
      simp [List.subset_def]

theorem AgreeByPosition.agreeAt (hagree : AgreeByPosition g h) (ha : a ∈ g.nodes) :
    AgreeAt g h a := by
  obtain ⟨i, hi⟩ := mem_nodes_iff.1 ha
  obtain ⟨j, hj⟩ := mem_nodes_iff.1 ((hagree.nodes a).1 ha)
  refine ⟨i, j, hi, hj, fun p => ?_⟩
  by_cases hp : p < g.nodeCount
  · obtain ⟨b, hb⟩ := exists_node?_of_lt hp
    obtain ⟨c, hc⟩ := exists_node?_of_lt (nodeCount_eq hagree.nodes ▸ hp)
    rw [← hasEdge_iff_linked hi hb, hagree.hasEdge a p b c hb hc, hasEdge_iff_linked hj hc]
  · have hp' : ¬ p < h.nodeCount := nodeCount_eq hagree.nodes ▸ hp
    exact iff_of_false (fun hl => hp hl.lt.2) fun hl => hp' hl.lt.2

/-- Graphs that agree by position have equal degrees. -/
theorem AgreeByPosition.degree_eq (hagree : AgreeByPosition g h) (ha : a ∈ g.nodes) :
    g.degree a = h.degree a := by
  obtain ⟨i, j, hi, hj, hlinked⟩ := hagree.agreeAt ha
  rw [degree_eq_degreeAt hi, degree_eq_degreeAt hj]
  exact (perm_neighborIndices hlinked).length_eq

/-- So that they have equally many edges need not be tested. -/
theorem AgreeByPosition.edgeCount_eq (hagree : AgreeByPosition g h) :
    g.edgeCount = h.edgeCount := by
  have hnodes : g.nodes.toFinset = h.nodes.toFinset := by
    ext a
    rw [List.mem_toFinset, List.mem_toFinset, hagree.nodes]
  have hsum : ∑ a ∈ g.nodes.toFinset, g.degree a = ∑ a ∈ h.nodes.toFinset, h.degree a := by
    rw [← hnodes]
    exact Finset.sum_congr rfl fun a ha => hagree.degree_eq (List.mem_toFinset.1 ha)
  rw [sum_degree, sum_degree] at hsum
  omega

/-- **The test compares positions.** -/
theorem beq_iff_agreeByPosition : g == h ↔ AgreeByPosition g h := by
  rw [beq_iff_agreeAt]
  constructor
  · rintro ⟨-, hcount, hagree⟩
    have hsub : g.nodes ⊆ h.nodes := fun a ha => by
      obtain ⟨_, j, _, hj, -⟩ := hagree a ha
      exact mem_nodes_iff.2 ⟨j, hj⟩
    have hperm : g.nodes.Perm h.nodes := (g.nodes_nodup.subperm hsub).perm_of_length_le
      (by rw [length_nodes, length_nodes, hcount])
    refine ⟨fun a => hperm.mem_iff, fun a p b c hb hc => ?_⟩
    by_cases ha : a ∈ g.nodes
    · obtain ⟨i, j, hi, hj, hlinked⟩ := hagree a ha
      rw [hasEdge_iff_linked hi hb, hasEdge_iff_linked hj hc, hlinked]
    · have ha' : a ∉ h.nodes := fun h' => ha (hperm.mem_iff.2 h')
      exact iff_of_false (fun hedge => ha (mem_nodes_of_hasEdge hedge).1)
        fun hedge => ha' (mem_nodes_of_hasEdge hedge).1
  · intro hagree
    exact ⟨hagree.edgeCount_eq, nodeCount_eq hagree.nodes, fun a => hagree.agreeAt⟩

/-- In graphs that list their nodes in one order, a position is a node. -/
theorem agreeByPosition_iff_of_nodes_eq (hnodes : h.nodes = g.nodes) :
    AgreeByPosition g h ↔ ∀ a b, g.hasEdge a b ↔ h.hasEdge a b := by
  have hnode : ∀ p, h.node? p = g.node? p := fun p => by
    rw [← getElem?_nodes, ← getElem?_nodes, hnodes]
  constructor
  · intro hagree a b
    by_cases hb : b ∈ g.nodes
    · obtain ⟨p, hp⟩ := mem_nodes_iff.1 hb
      exact hagree.hasEdge a p b b hp ((hnode p).trans hp)
    · have hb' : b ∉ h.nodes := hnodes ▸ hb
      exact iff_of_false (fun hedge => hb (mem_nodes_of_hasEdge hedge).2)
        fun hedge => hb' (mem_nodes_of_hasEdge hedge).2
  · intro hedges
    refine ⟨fun a => by rw [hnodes], fun a p b c hb hc => ?_⟩
    rw [hnode, hb] at hc
    cases hc
    exact hedges a b

/-- The test is an equivalence. -/
theorem beq_equivalence : Equivalence fun g h : Graph α => g == h := by
  simp only [beq_iff_agreeByPosition]
  refine ⟨fun g => ?_, fun {g h} hgh => ?_, fun {g h k} hgh hhk => ?_⟩
  · exact (agreeByPosition_iff_of_nodes_eq rfl).2 fun _ _ => Iff.rfl
  · exact ⟨fun a => (hgh.nodes a).symm, fun a p b c hb hc => (hgh.hasEdge a p c b hc hb).symm⟩
  · refine ⟨fun a => (hgh.nodes a).trans (hhk.nodes a), fun a p b c hb hc => ?_⟩
    -- what stands there in the graph between the two
    obtain ⟨d, hd⟩ := exists_node?_of_lt (nodeCount_eq hhk.nodes ▸ lt_nodeCount_of_node? hc)
    exact (hgh.hasEdge a p b d hb hd).trans (hhk.hasEdge a p d c hd hc)

/-! ## Every two sequences of calls -/

variable [ToString α]

/-- **What the test says of two graphs**, by the calls that built them: it
compares with which positions each node has been joined, and so tells the
same graph from others if the calls have named the nodes in one order. -/
theorem after_beq_iff (past past' : History α) :
    (after past == after past' ↔
      (∀ a, a ∈ namedNodes past ↔ a ∈ namedNodes past') ∧
        ∀ (a b c : α) (p : Nat), (namedNodes past).eraseDups[p]? = some b →
          (namedNodes past').eraseDups[p]? = some c → (Joined past a b ↔ Joined past' a c)) ∧
    ((namedNodes past').eraseDups = (namedNodes past).eraseDups →
      (after past == after past' ↔ Same (after past) (after past'))) := by
  have hshows := shows_after past
  have hshows' := shows_after past'
  rw [beq_iff_agreeByPosition]
  constructor
  · constructor
    · intro hagree
      refine ⟨fun a => ?_, fun a b c p hb hc => ?_⟩
      · rw [← List.mem_eraseDups, ← hshows.nodes, hagree.nodes, hshows'.nodes, List.mem_eraseDups]
      · rw [← hshows.nodes, getElem?_nodes] at hb
        rw [← hshows'.nodes, getElem?_nodes] at hc
        rw [← hshows.hasEdge, ← hshows'.hasEdge, hagree.hasEdge a p b c hb hc]
    · rintro ⟨hnodes, hjoined⟩
      refine ⟨fun a => ?_, fun a p b c hb hc => ?_⟩
      · rw [hshows.nodes, hshows'.nodes, List.mem_eraseDups, List.mem_eraseDups, hnodes]
      · rw [← getElem?_nodes, hshows.nodes] at hb
        rw [← getElem?_nodes, hshows'.nodes] at hc
        rw [hshows.hasEdge, hshows'.hasEdge, hjoined a b c p hb hc]
  · intro hnodes
    rw [← hshows.nodes, ← hshows'.nodes] at hnodes
    rw [agreeByPosition_iff_of_nodes_eq hnodes]
    exact ⟨fun hedges => ⟨fun a => by rw [hnodes], hedges⟩, Same.hasEdge⟩

/-- A path whose edges come in another order and from the other end is the
same graph, as long as its nodes come in the same order. -/
theorem after_beq_iff_path :
    let past : History Nat := [.addEdges [(0, 1), (1, 2)]]
    let past' : History Nat := [.addEdges [(2, 1), (1, 0)], .addNode 2, .addNode 1, .addNode 0]
    (namedNodes past').eraseDups = (namedNodes past).eraseDups ∧
      Same (after past) (after past') := by
  intro past past'
  have hnodes : (namedNodes past').eraseDups = (namedNodes past).eraseDups := by decide
  exact ⟨hnodes, ((after_beq_iff past past').2 hnodes).1 (by decide +kernel)⟩

/-- **The test errs both ways.** The edges `ab` and `cd` are taken for the
edges `ad` and `bc`, if these are between nodes that were added as
`c`, `d`, `a`, `b`; and adding the edge `ab` from its other end gives a
graph that counts as another one. -/
theorem beq_misjudges :
    let g := after [.addEdges [("a", "b"), ("c", "d")]]
    let h := after [.addEdges [("a", "d"), ("b", "c")], .addNode "b", .addNode "a", .addNode "d",
      .addNode "c"]
    let k := after [.addEdges [("b", "a"), ("c", "d")]]
    ((g == h) = true ∧ ¬ Same g h) ∧ ((g == k) = false ∧ Same g k) := by
  intro g h k
  have hjoined : ∀ x y, g.hasEdge x y ↔ k.hasEdge x y := by
    intro x y
    rw [(shows_after _).hasEdge, (shows_after _).hasEdge]
    simp only [Joined, Call.edges, List.mem_cons, List.not_mem_nil, or_false, exists_eq_left,
      Prod.mk.injEq]
    refine and_congr (iff_of_true rfl rfl) ?_
    grind
  have hedge : g.hasEdge "a" "b" ∧ ¬ h.hasEdge "a" "b" := by decide +kernel
  have hnodes : g.nodes = ["a", "b", "c", "d"] ∧ k.nodes = ["b", "a", "c", "d"] := by
    decide +kernel
  refine ⟨⟨by decide +kernel, fun hsame => hedge.2 ((hsame.hasEdge _ _).1 hedge.1)⟩,
    by decide +kernel, fun x => ?_, hjoined⟩
  rw [hnodes.1, hnodes.2]
  simp only [List.mem_cons, List.not_mem_nil, or_false]
  grind

end Graph

end Tricolor
