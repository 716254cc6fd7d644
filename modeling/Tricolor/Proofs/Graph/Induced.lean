import Tricolor.Proofs.Graph.Edges
import Tricolor.Proofs.Graph.Growth

/-!
# Induced subgraphs

A graph is induced in another one by some of its nodes if it lists these
nodes in the same order and has the edges between them (`Induced`); in
which order its edges were added does not matter. A node that loses no
neighbor keeps its degree (`Induced.neighbors_perm`), and the nodes keep
their order (`Induced.position_lt_iff`). `induce` builds such a graph. If
all nodes are kept, the two graphs have the same shape and differ in the
order of their links alone (`SameShape`).
-/

namespace Tricolor

namespace Graph

variable {α : Type} [DecidableEq α] {g h : Graph α} {keep : α → Bool} {a b : α}

/-- Of the elements that are kept, the earlier ones stay the earlier
ones. -/
theorem idxOf_filter_lt_iff (ha : keep a) (hb : keep b) (l : List α) :
    (l.filter keep).idxOf a < (l.filter keep).idxOf b ↔ l.idxOf a < l.idxOf b := by
  induction l with
  | nil => rfl
  | cons c l ih =>
    by_cases hc : keep c
    · simp only [List.filter_cons_of_pos hc, List.idxOf_cons, cond_eq_ite, beq_iff_eq]
      split <;> split <;> simp [ih]
    · have hca : ¬ (c == a) = true := fun h => hc (eq_of_beq h ▸ ha)
      have hcb : ¬ (c == b) = true := fun h => hc (eq_of_beq h ▸ hb)
      simp only [List.filter_cons_of_neg hc, List.idxOf_cons, cond_eq_ite, if_neg hca, if_neg hcb,
        ih, Nat.add_lt_add_iff_right]

theorem position_eq_idxOf (g : Graph α) (a : α) : g.position a = g.nodes.idxOf a := by
  have horder : g.order = g.nodes.toArray := rfl
  rw [position, horder, List.findIdx_toArray]
  rfl

/-- A graph of the nodes that are kept of another one, with the edges
between them. -/
structure Induced (g : Graph α) (keep : α → Bool) (h : Graph α) : Prop where
  nodes : h.nodes = g.nodes.filter keep
  hasEdge : ∀ a b, h.hasEdge a b ↔ g.hasEdge a b ∧ keep a ∧ keep b

namespace Induced

variable (hh : Induced g keep h)
include hh

theorem mem_nodes_iff : a ∈ h.nodes ↔ a ∈ g.nodes ∧ keep a := by
  rw [hh.nodes, List.mem_filter]

/-- **The nodes keep their order.** -/
theorem position_lt_iff (ha : keep a) (hb : keep b) :
    h.position a < h.position b ↔ g.position a < g.position b := by
  simp only [position_eq_idxOf, hh.nodes]
  exact idxOf_filter_lt_iff ha hb g.nodes

/-- **A node that loses no neighbor keeps its neighbors**, in some
order. -/
theorem neighbors_perm (ha : keep a) (hclosed : ∀ b, g.hasEdge a b → keep b) :
    (h.neighbors a).Perm (g.neighbors a) := by
  refine (List.perm_ext_iff_of_nodup (h.nodup_neighbors a) (g.nodup_neighbors a)).2 fun b => ?_
  rw [mem_neighbors, mem_neighbors, hh.hasEdge]
  exact ⟨fun hab => hab.1, fun hab => ⟨hab, ha, hclosed b hab⟩⟩

end Induced

/-! ## Graphs of one shape -/

/-- Graphs with the same nodes, in the same order, and the same edges. -/
structure SameShape (g h : Graph α) : Prop where
  nodes : h.nodes = g.nodes
  hasEdge : ∀ a b, h.hasEdge a b = g.hasEdge a b

namespace SameShape

variable (hh : SameShape g h) {i j : Nat}
include hh

theorem symm : SameShape h g where
  nodes := hh.nodes.symm
  hasEdge a b := (hh.hasEdge a b).symm

theorem induced : Induced g (fun _ => true) h where
  nodes := by rw [hh.nodes, List.filter_true]
  hasEdge a b := by rw [hh.hasEdge, and_self, and_iff_left rfl]

theorem nodeCount_eq : h.nodeCount = g.nodeCount := by
  rw [← length_nodes, hh.nodes, length_nodes]

theorem node?_eq (i : Nat) : h.node? i = g.node? i := by
  rw [← getElem?_nodes, hh.nodes, getElem?_nodes]

theorem linked_iff : h.Linked i j ↔ g.Linked i j := by
  by_cases hlt : i < g.nodeCount ∧ j < g.nodeCount
  · obtain ⟨a, ha⟩ := exists_node?_of_lt hlt.1
    obtain ⟨b, hb⟩ := exists_node?_of_lt hlt.2
    rw [← hasEdge_iff_linked ha hb, ← hh.hasEdge,
      hasEdge_iff_linked ((hh.node?_eq i).trans ha) ((hh.node?_eq j).trans hb)]
  · exact iff_of_false (fun hl => hlt (hh.nodeCount_eq ▸ hl.lt)) fun hl => hlt hl.lt

theorem degreeAt_eq (i : Nat) : h.degreeAt i = g.degreeAt i := by
  refine ((List.perm_ext_iff_of_nodup (h.nodup_neighborIndices i)
    (g.nodup_neighborIndices i)).2 fun j => ?_).length_eq
  rw [mem_neighborIndices, mem_neighborIndices, hh.linked_iff]

end SameShape

/-! ## Building an induced subgraph -/

theorem nodes_foldl_addNode (l : List α) (g : Graph α) :
    (l.foldl addNode g).nodes = (g.nodes ++ l).eraseDups := by
  induction l generalizing g with
  | nil => rw [List.append_nil, eraseDups_eq_self g.nodes_nodup]; rfl
  | cons a l ih =>
    rw [List.foldl_cons, ih, nodes_addNode, eraseDups_append_left, List.append_assoc,
      List.singleton_append]

theorem hasEdge_foldl_addNode (l : List α) (g : Graph α) :
    (l.foldl addNode g).hasEdge a b ↔ g.hasEdge a b := by
  induction l generalizing g with
  | nil => rfl
  | cons c l ih => rw [List.foldl_cons, ih, hasEdge_addNode]

/-- An edge is listed in one of its two directions. -/
theorem hasEdge_iff_mem_edges : g.hasEdge a b ↔ (a, b) ∈ g.edges ∨ (b, a) ∈ g.edges := by
  constructor
  · intro hab
    by_contra hnone
    rw [not_or] at hnone
    have hcount := count_edges hab
    rw [List.count_eq_zero_of_not_mem hnone.1, List.count_eq_zero_of_not_mem hnone.2] at hcount
    exact absurd hcount (by decide)
  · rintro (hab | hba)
    · exact (mem_edges_iff.1 hab).1
    · exact hasEdge_symm (mem_edges_iff.1 hba).1

/-- The edges between nodes that are kept. -/
def keptEdges (g : Graph α) (keep : α → Bool) : List (α × α) :=
  g.edges.filter fun e => keep e.1 && keep e.2

omit [DecidableEq α] in
theorem mem_keptEdges : (a, b) ∈ g.keptEdges keep ↔ (a, b) ∈ g.edges ∧ keep a ∧ keep b := by
  rw [keptEdges, List.mem_filter, Bool.and_eq_true]

/-- The subgraph that the nodes that are kept induce. -/
def induce (g : Graph α) (keep : α → Bool) : Graph α :=
  ((g.nodes.filter keep).foldl addNode empty).joinAll (g.keptEdges keep)

theorem induced_induce (g : Graph α) (keep : α → Bool) : Induced g keep (g.induce keep) := by
  refine ⟨?_, fun a b => ?_⟩
  · have hnodup : (g.nodes.filter keep).Nodup := g.nodes_nodup.filter _
    have hnodes : ((g.nodes.filter keep).foldl addNode empty).nodes = g.nodes.filter keep := by
      rw [nodes_foldl_addNode]
      exact eraseDups_eq_self hnodup
    -- the edges name no node that is not there
    have hends : (ends (g.keptEdges keep)).filter (· ∉ g.nodes.filter keep) = [] := by
      rw [List.filter_eq_nil_iff]
      intro a ha
      rw [decide_eq_true_eq, not_not, List.mem_filter]
      obtain ⟨⟨c, d⟩, he, ha⟩ := List.mem_flatMap.1 ha
      obtain ⟨hcd, hc, hd⟩ := mem_keptEdges.1 he
      have hmem := mem_nodes_of_hasEdge (mem_edges_iff.1 hcd).1
      rcases List.mem_pair.1 ha with rfl | rfl
      · exact ⟨hmem.1, hc⟩
      · exact ⟨hmem.2, hd⟩
    rw [induce, nodes_joinAll, hnodes, eraseDups_append_of_nodup hnodup, hends]
    exact List.append_nil _
  · have hne : ∀ e ∈ g.keptEdges keep, e.1 ≠ e.2 := fun e he =>
      ne_of_hasEdge (mem_edges_iff.1 (mem_keptEdges.1 he).1).1
    have hempty : ¬ (empty : Graph α).hasEdge a b := fun hab =>
      List.not_mem_nil (mem_nodes_of_hasEdge hab).1
    rw [induce, hasEdge_joinAll hne, hasEdge_foldl_addNode, or_iff_right hempty, mem_keptEdges,
      mem_keptEdges, hasEdge_iff_mem_edges]
    tauto

end Graph

end Tricolor
