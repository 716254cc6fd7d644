import Tricolor.Proofs.Coloring.Minimal
import Tricolor.Proofs.Gadget.Counts
import Tricolor.Proofs.Gadget.Seed

/-!
# Gadget graphs leave room for every node

An auxiliary node has four neighbors at most, so a greedy run gives it one
of the first five colors. A literal may stand in any number of clauses,
but its neighbors are auxiliary nodes, its negation and the neutral
reference. Once the references are seeded, no node that is still open has
more than a handful of colors around it, and a greedy run comes to its end
whatever the size of the formula, the palette and the roles
(`dsaturEnds_graph`).
-/

namespace Tricolor

namespace Gadget

variable {f : Formula} {r : ColorRoles} {a : Assignment} {c seed : Coloring Node}
variable {palette : List Color} {var k : Nat} {positive : Bool} {role : Role} {b : Node}

/-! ## Degrees -/

theorem lt_length_of_mem_nodes (hf : f.Valid) (h : .auxiliary k role ∈ (graph f).nodes) :
    k < f.clauses.length := by
  rw [nodes_graph hf, List.mem_append] at h
  exact auxiliary_mem_auxiliaryNodes.1 (h.resolve_left auxiliary_notMem_skeletonNodes)

theorem degree_auxiliary_le (hf : f.Valid) (h : .auxiliary k role ∈ (graph f).nodes) :
    (graph f).degree (.auxiliary k role) ≤ 4 := by
  have hk := List.getElem?_eq_getElem (lt_length_of_mem_nodes hf h)
  rw [Graph.degree_eq_length_neighbors, (neighbors_auxiliary hk).length_eq]
  cases role <;> simp [auxiliaryNeighbors]

/-- **The neighbors of a literal** outside the gadgets are the neutral
reference and its negation. -/
theorem literal_neighbor_cases (h : (graph f).hasEdge (.literal var positive) b) :
    b ∈ [Node.neutral, .literal var !positive] ∨ ∃ k role, b = .auxiliary k role := by
  rw [hasEdge_graph_iff, exists_triangle_iff] at h
  rcases h with ⟨hne, ⟨hmem, -⟩ | ⟨var', -, -, hmem, hb⟩⟩ | ⟨k, cl, -, h | h⟩
  · simp [referenceNodes, Node.truth, Node.falsity, Node.neutral] at hmem
  · simp only [variableTriangle, Node.neutral, List.mem_cons, List.not_mem_nil, or_false,
      Node.literal.injEq, reduceCtorEq] at hmem hb ⊢
    grind
  · simp only [clauseEdges, Node.falsity, Node.neutral, List.mem_cons, List.not_mem_nil, or_false,
      Prod.mk.injEq, reduceCtorEq, false_and, false_or] at h
    rcases h with ⟨-, h⟩ | ⟨-, h⟩ | ⟨-, h⟩ <;> exact .inr ⟨_, _, h⟩
  · simp [clauseEdges, Node.falsity, Node.neutral] at h

/-! ## Runs that come to their end -/

/-- A seed that colors the references and no auxiliary node. -/
structure SeedsReferences (seed : Coloring Node) : Prop where
  reference : ∀ role, seed.get? (.reference role) ≠ none
  auxiliary : ∀ k role, seed.get? (.auxiliary k role) = none

/-- **Four neighbors at most** of an open node are seeded or have more
than four neighbors themselves. -/
theorem length_filter_neighbors_le (hf : f.Valid) (hs : SeedsReferences seed)
    (hb : b ∈ (graph f).nodes) (hopen : seed.get? b = none) :
    (((graph f).neighbors b).filter fun d =>
      seed.contains d || 4 < (graph f).degree d).length ≤ 4 := by
  cases b with
  | reference role => exact absurd hopen (hs.reference role)
  | auxiliary k role =>
    have hle := degree_auxiliary_le hf hb
    rw [Graph.degree_eq_length_neighbors] at hle
    exact (List.length_filter_le _ _).trans hle
  | literal var positive =>
    have hsub : (((graph f).neighbors (.literal var positive)).filter fun d =>
        seed.contains d || 4 < (graph f).degree d) ⊆ [Node.neutral, .literal var !positive] := by
      intro d hd
      obtain ⟨hd, hlarge⟩ := List.mem_filter.1 hd
      have hedge := Graph.mem_neighbors.1 hd
      refine (literal_neighbor_cases hedge).resolve_right ?_
      -- an auxiliary node is not seeded and has a small degree
      rintro ⟨k, role, rfl⟩
      have hle := degree_auxiliary_le hf (Graph.mem_nodes_of_hasEdge hedge).2
      simp [Coloring.contains, hs.auxiliary k role] at hlarge
      omega
    have hnodup := (Graph.nodup_neighbors (graph f) (.literal var positive)).filter fun d =>
      seed.contains d || 4 < (graph f).degree d
    exact (hnodup.subperm hsub).length_le.trans (show 2 ≤ 4 by decide)

/-- **A greedy run on a gadget graph ends** once the references are
seeded. -/
theorem dsaturEnds_graph (hf : f.Valid) (hs : SeedsReferences seed)
    (hseed : ValidSeed (graph f) seed) (palette : List Color) :
    DsaturEnds (graph f) seed palette := by
  by_contra hnot
  obtain ⟨c, hrun, b, hnext, hfull⟩ := (not_dsaturEnds_iff hseed).1 hnot
  have hle := length_filter_neighbors_le hf hs hnext.mem (hrun.get?_eq_none hnext.isOpen)
  have hsize := hrun.size_le_of_full hfull 4
  have hwords : UInt32.size = 4294967296 := rfl
  omega

/-! ## The seeds of a reduction -/

theorem seedsReferences_referenceSeed (r : ColorRoles) : SeedsReferences r.referenceSeed where
  reference role hnone := by
    have hsome := get?_referenceSeed_eq_some_iff (r := r).2 ⟨role, rfl, rfl⟩
    exact Option.some_ne_none _ (hsome.symm.trans hnone)
  auxiliary k role := by
    refine Option.eq_none_iff_forall_ne_some.2 fun color h => ?_
    obtain ⟨_, heq, -⟩ := get?_referenceSeed_eq_some_iff.1 h
    cases heq

theorem seedsReferences_modelSeed (f : Formula) (r : ColorRoles)
    (hle : (a.size : Int) ≤ Int32.maxValue.toInt) : SeedsReferences (r.modelSeed a) where
  reference role := by
    rw [Ne, Coloring.get?_eq_none_iff, nodes_modelSeed f r hle, not_not]
    cases role <;> simp [referenceNodes, Node.truth, Node.falsity, Node.neutral]
  auxiliary k role := by
    rw [Coloring.get?_eq_none_iff, nodes_modelSeed f r hle]
    exact auxiliary_notMem_skeletonNodes

end Gadget

end Tricolor
