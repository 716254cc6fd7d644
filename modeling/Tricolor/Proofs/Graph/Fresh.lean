import Tricolor.Proofs.Graph.Growth

/-!
# Joining fresh edges

A list of edges is fresh if none is a loop and no two join the same nodes,
in either order. Joining such a list drops nothing: the graph has as many
edges as the list (`edgeCount_joinAll`), and the degree of a node is the
number of edges at it (`degree_joinAll`).
-/

namespace Tricolor

namespace Graph

variable {α : Type} {edges : List (α × α)} {e : α × α} {a b c : α}

/-- Edges no two of which join the same nodes, none of them a loop. -/
structure Fresh (edges : List (α × α)) : Prop where
  ne : ∀ e ∈ edges, e.1 ≠ e.2
  pairwise : edges.Pairwise fun e f => e ≠ f ∧ e ≠ f.swap

/-- Whether a node is an end of an edge. -/
def Touches (c : α) (e : α × α) : Prop := e.1 = c ∨ e.2 = c

instance [DecidableEq α] (c : α) : DecidablePred (Touches c) :=
  fun e => inferInstanceAs (Decidable (e.1 = c ∨ e.2 = c))

theorem Fresh.of_cons (h : Fresh (e :: edges)) : Fresh edges :=
  ⟨fun f hf => h.ne f (.tail e hf), (List.pairwise_cons.1 h.pairwise).2⟩

variable [DecidableEq α] {g : Graph α}

/-! ## The number of edges -/

theorem edgeCount_addNode (g : Graph α) (a : α) : (g.addNode a).edgeCount = g.edgeCount := by
  rw [← length_links, links_addNode, length_links]

/-- An edge that is not there yet is one more. -/
theorem edgeCount_join (hne : a ≠ b) (hnew : ¬ g.hasEdge a b) :
    (g.join a b).edgeCount = g.edgeCount + 1 := by
  obtain ⟨i, j, hi, hj, hij, hjoin⟩ := exists_join_eq_link g hne
  replace hi : ((g.addNode a).addNode b).node? i = some a := node?_addNode hi
  have hfree : ¬ ((g.addNode a).addNode b).Linked i j := by
    rwa [← hasEdge_iff_linked hi hj, hasEdge_addNode, hasEdge_addNode]
  rw [hjoin, ← length_links, links_link (lt_nodeCount_of_node? hi) (lt_nodeCount_of_node? hj) hij
    hfree, List.length_append, length_links, edgeCount_addNode, edgeCount_addNode]
  rfl

/-- **Joining fresh edges adds each of them.** -/
theorem edgeCount_joinAll (hfresh : Fresh edges) (hnew : ∀ e ∈ edges, ¬ g.hasEdge e.1 e.2) :
    (g.joinAll edges).edgeCount = g.edgeCount + edges.length := by
  induction edges generalizing g with
  | nil => rfl
  | cons e edges ih =>
    have hne := hfresh.ne e (.head edges)
    have hrest : ∀ f ∈ edges, ¬ (g.join e.1 e.2).hasEdge f.1 f.2 := by
      intro f hf
      rw [hasEdge_join hne]
      rintro (h | ⟨h₁, h₂⟩ | ⟨h₁, h₂⟩)
      · exact hnew f (.tail e hf) h
      · exact ((List.pairwise_cons.1 hfresh.pairwise).1 f hf).1 (Prod.ext h₁.symm h₂.symm)
      · exact ((List.pairwise_cons.1 hfresh.pairwise).1 f hf).2 (Prod.ext h₂.symm h₁.symm)
    rw [joinAll_cons, ih hfresh.of_cons hrest, edgeCount_join hne (hnew e (.head edges)),
      List.length_cons]
    omega

/-! ## Degrees -/

theorem isSome_partner : (partner c e).isSome ↔ Touches c e := by
  unfold partner Touches
  split
  · simp_all
  · split <;> simp_all

/-- A node is the partner of another in one fresh edge at most. -/
theorem Fresh.nodup_partners (h : Fresh edges) (c : α) : (edges.filterMap (partner c)).Nodup :=
  nodup_otherEnds (fun e he _ => partner_eq_some (h.ne e he)) h.pairwise

/-- **The degree of a node is the number of fresh edges at it.** -/
theorem degree_joinAll (hfresh : Fresh edges) (c : α) :
    (empty.joinAll edges).degree c = edges.countP (Touches c) := by
  have hnone : (empty : Graph α).neighbors c = [] := neighbors_of_not_mem List.not_mem_nil
  rw [degree_eq_length_neighbors, neighbors_joinAll hfresh.ne, hnone, List.nil_append,
    eraseDups_eq_self (hfresh.nodup_partners c), List.length_filterMap_eq_countP]
  refine List.countP_congr fun e _ => ?_
  rw [isSome_partner, decide_eq_true_iff]

end Graph

end Tricolor
