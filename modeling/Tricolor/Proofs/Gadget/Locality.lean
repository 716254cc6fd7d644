import Tricolor.Proofs.Coloring.Locality
import Tricolor.Proofs.Gadget.Room

/-!
# Gadgets do not disturb each other

Once the references and the literals are seeded, the gadget of a clause
is enclosed: its auxiliary nodes have no other neighbors than each other
and seeded nodes (`enclosed_clauseNodes`). Two formulas over the same
variables that share a clause therefore have its gadget colored alike,
whatever their other clauses are and whatever the palette
(`dsatur_sharedClause`). So what is found out about the coloring of one
gadget holds of this gadget in every formula.
-/

namespace Tricolor

namespace Gadget

variable {f f' : Formula} {a : Assignment} {r : ColorRoles} {cl : Clause} {k m : Nat}
variable {b b' : Node}

/-- An auxiliary node has neighbors in its gadget, among the literals of
its clause and among the references. -/
theorem mem_auxiliaryNeighbors_cases {role : Role} (h : b ∈ auxiliaryNeighbors k cl role) :
    b ∈ clauseNodes k ∨ (∃ x ∈ cl.literals, b = .ofLiteral x) ∨ b ∈ referenceNodes := by
  rw [mem_clauseNodes]
  cases role <;>
  · simp only [auxiliaryNeighbors, List.mem_cons, List.not_mem_nil, or_false] at h
    rcases h with rfl | rfl | rfl | rfl <;> simp [Clause.literals, referenceNodes]

/-- Every edge of a gadget has an end in it. -/
theorem mem_clauseNodes_of_mem_clauseEdges {e : Node × Node} (h : e ∈ clauseEdges k cl) :
    e.1 ∈ clauseNodes k ∨ e.2 ∈ clauseNodes k := by
  simp only [mem_clauseNodes]
  simp only [clauseEdges, List.mem_cons, List.not_mem_nil, or_false] at h
  rcases h with rfl | rfl | rfl | rfl | rfl | rfl | rfl | rfl | rfl | rfl | rfl | rfl <;> simp

/-! ## A gadget and the seed of an assignment -/

/-- The nodes of a gadget and those that the seed of an assignment
colors. -/
def gadgetKeep (r : ColorRoles) (a : Assignment) (k : Nat) (b : Node) : Bool :=
  b ∈ (clauseNodes k).toFinset ∨ b ∈ (r.modelSeed a).nodes

theorem gadgetKeep_iff (f : Formula) (hle : (a.size : Int) ≤ Int32.maxValue.toInt) :
    gadgetKeep r a k b ↔
      b ∈ clauseNodes k ∨ b ∈ referenceNodes ++ variableNodes a.size := by
  rw [gadgetKeep, decide_eq_true_eq, List.mem_toFinset, nodes_modelSeed f r hle]

/-- No other gadget is kept. -/
theorem eq_of_gadgetKeep (f : Formula) (hle : (a.size : Int) ≤ Int32.maxValue.toInt)
    {j : Nat} {role : Role} (h : gadgetKeep r a k (.auxiliary j role)) : j = k := by
  rcases (gadgetKeep_iff f hle).1 h with h | h
  · obtain ⟨role', heq⟩ := mem_clauseNodes.1 h
    exact (Node.auxiliary.inj heq).1
  · exact absurd h auxiliary_notMem_skeletonNodes

/-- **The gadget of a clause is enclosed by the seed of an assignment.** -/
theorem enclosed_clauseNodes (hf : f.Valid) (ha : a.size = f.numVars.toNat)
    (hle : (a.size : Int) ≤ Int32.maxValue.toInt) (hk : f.clauses[k]? = some cl) :
    Enclosed (graph f) (r.modelSeed a) (clauseNodes k).toFinset where
  known b hb := by
    obtain ⟨role, rfl⟩ := mem_clauseNodes.1 (List.mem_toFinset.1 hb)
    exact auxiliary_mem_nodes hf hk role
  isOpen b hb := by
    obtain ⟨role, rfl⟩ := mem_clauseNodes.1 (List.mem_toFinset.1 hb)
    rw [Coloring.get?_eq_none_iff, nodes_modelSeed f r hle]
    exact auxiliary_notMem_skeletonNodes
  closed b hb b' hedge := by
    obtain ⟨role, rfl⟩ := mem_clauseNodes.1 (List.mem_toFinset.1 hb)
    rw [List.mem_toFinset, nodes_modelSeed f r hle, List.mem_append]
    rcases mem_auxiliaryNeighbors_cases ((hasEdge_auxiliary hk).1 hedge) with
      h | ⟨x, hx, rfl⟩ | h
    · exact .inl h
    · exact .inr (.inr (ha ▸ literal_mem_variableNodes.2 (hf.literal hk hx)))
    · exact .inr (.inl h)

/-! ## Formulas that share a clause -/

theorem flatMap_range_ite {β : Type} (l : List β) (k m : Nat) :
    ((List.range m).flatMap fun j => if j = k then l else []) = if k < m then l else [] := by
  induction m with
  | zero => rfl
  | succ m ih =>
    rw [List.range_succ, List.flatMap_append, ih, List.flatMap_singleton]
    by_cases hkm : k < m
    · rw [if_pos hkm, if_neg (by omega), if_pos (by omega), List.append_nil]
    · rw [if_neg hkm, List.nil_append]
      exact if_congr (by omega) rfl rfl

/-- Of the auxiliary nodes those of one gadget are kept. -/
theorem filter_auxiliaryNodes (f : Formula) (hle : (a.size : Int) ≤ Int32.maxValue.toInt)
    (hk : k < m) : (auxiliaryNodes m).filter (gadgetKeep r a k) = clauseNodes k := by
  have hclause : ∀ j, (clauseNodes j).filter (gadgetKeep r a k) =
      if j = k then clauseNodes k else [] := by
    intro j
    split
    · rename_i hjk
      rw [hjk, List.filter_eq_self]
      exact fun b hb => (gadgetKeep_iff f hle).2 (.inl hb)
    · rename_i hjk
      rw [List.filter_eq_nil_iff]
      intro b hb hkeep
      obtain ⟨role, rfl⟩ := mem_clauseNodes.1 hb
      exact hjk (eq_of_gadgetKeep f hle hkeep)
  rw [auxiliaryNodes, List.filter_flatMap]
  simp only [hclause]
  rw [flatMap_range_ite, if_pos hk]

theorem filter_nodes_graph (hf : f.Valid) (hle : (a.size : Int) ≤ Int32.maxValue.toInt)
    (ha : a.size = f.numVars.toNat) (hk : f.clauses[k]? = some cl) :
    (graph f).nodes.filter (gadgetKeep r a k) =
      (referenceNodes ++ variableNodes a.size).filter (gadgetKeep r a k) ++ clauseNodes k := by
  rw [nodes_graph hf, ← ha, List.filter_append,
    filter_auxiliaryNodes f hle (List.getElem?_eq_some_iff.1 hk).1]

/-- Formulas over the same variables that share a clause have the same
edges between the nodes that are kept. -/
theorem mem_edges_of_shared (hle : (a.size : Int) ≤ Int32.maxValue.toInt)
    (ha : a.size = f.numVars.toNat) (ha' : a.size = f'.numVars.toNat)
    (hk : f.clauses[k]? = some cl) (hk' : f'.clauses[k]? = some cl) {e : Node × Node}
    (he₁ : gadgetKeep r a k e.1) (he₂ : gadgetKeep r a k e.2) (h : e ∈ edges f) :
    e ∈ edges f' := by
  rw [mem_edges_iff] at h ⊢
  rcases h with h | h | ⟨j, cl', hj, h⟩
  · exact .inl h
  · exact .inr (.inl (ha' ▸ ha ▸ h))
  · have hjk : j = k := by
      rcases mem_clauseNodes_of_mem_clauseEdges h with hmem | hmem
      · obtain ⟨role, hrole⟩ := mem_clauseNodes.1 hmem
        exact eq_of_gadgetKeep f hle (hrole ▸ he₁)
      · obtain ⟨role, hrole⟩ := mem_clauseNodes.1 hmem
        exact eq_of_gadgetKeep f hle (hrole ▸ he₂)
    subst hjk
    cases hj.symm.trans hk
    exact .inr (.inr ⟨j, cl, hk', h⟩)

/-- **The subgraph of a shared gadget is induced in both graphs.** -/
theorem induced_shared (hf : f.Valid) (hf' : f'.Valid)
    (hle : (a.size : Int) ≤ Int32.maxValue.toInt)
    (ha : a.size = f.numVars.toNat) (ha' : a.size = f'.numVars.toNat)
    (hk : f.clauses[k]? = some cl) (hk' : f'.clauses[k]? = some cl) :
    (graph f').Induced (gadgetKeep r a k) ((graph f).induce (gadgetKeep r a k)) := by
  have hinduced := (graph f).induced_induce (gadgetKeep r a k)
  refine ⟨?_, fun b b' => ?_⟩
  · rw [hinduced.nodes, filter_nodes_graph hf hle ha hk, filter_nodes_graph hf' hle ha' hk']
  · rw [hinduced.hasEdge, hasEdge_graph, hasEdge_graph]
    refine and_congr_left fun ⟨hb, hb'⟩ => or_congr ?_ ?_
    · exact ⟨mem_edges_of_shared hle ha ha' hk hk' hb hb',
        mem_edges_of_shared hle ha' ha hk' hk hb hb'⟩
    · exact ⟨mem_edges_of_shared hle ha ha' hk hk' hb' hb,
        mem_edges_of_shared hle ha' ha hk' hk hb' hb⟩

/-- **Other clauses do not change the coloring of a gadget.** If two
formulas over the same variables share a clause, the greedy coloring that
an assignment seeds gives its gadget the same colors in both. -/
theorem dsatur_sharedClause (hf : f.Valid) (hf' : f'.Valid) (hr : r.Distinct)
    (hle : (a.size : Int) ≤ Int32.maxValue.toInt)
    (ha : a.size = f.numVars.toNat) (ha' : a.size = f'.numVars.toNat)
    (hk : f.clauses[k]? = some cl) (hk' : f'.clauses[k]? = some cl) (palette : List Color) :
    ∃ c c', dsatur (graph f) (r.modelSeed a) palette = .ok c ∧
      dsatur (graph f') (r.modelSeed a) palette = .ok c' ∧
      ∀ role, ∃ color, c.get? (.auxiliary k role) = some color ∧
        c'.get? (.auxiliary k role) = some color := by
  have hseed := validSeed_modelSeed hf hr ha hle
  have hseed' := validSeed_modelSeed hf' hr ha' hle
  obtain ⟨-, c, d, _, hc, hd, -, hall, hsame, -, -⟩ :=
    dsatur_induced ((graph f).induced_induce (gadgetKeep r a k))
      (enclosed_clauseNodes hf ha hle hk).shows hseed
      (dsaturEnds_graph hf (seedsReferences_modelSeed f r hle) hseed palette)
  obtain ⟨-, c', d', _, hc', hd', -, -, hsame', -, -⟩ :=
    dsatur_induced (induced_shared hf hf' hle ha ha' hk hk')
      (enclosed_clauseNodes hf' ha' hle hk').shows hseed'
      (dsaturEnds_graph hf' (seedsReferences_modelSeed f' r hle) hseed' palette)
  obtain rfl : d = d' := Except.ok.inj (hd.symm.trans hd')
  refine ⟨c, c', hc, hc', fun role => ?_⟩
  have hkeep : gadgetKeep r a k (.auxiliary k role) :=
    (gadgetKeep_iff f hle).2 (.inl (mem_clauseNodes.2 ⟨role, rfl⟩))
  obtain ⟨color, hcolor⟩ :=
    Option.ne_none_iff_exists'.1 (hall _ (auxiliary_mem_nodes hf hk role))
  exact ⟨color, hcolor, (hsame' _ hkeep).symm.trans ((hsame _ hkeep).trans hcolor)⟩

end Gadget

end Tricolor
