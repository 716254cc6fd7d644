import Mathlib.Data.List.Induction
import Tricolor.Gadget.Build
import Tricolor.Proofs.Formula.Truth
import Tricolor.Proofs.Graph.Growth

/-!
# The shape of a gadget graph

The graph of a formula is built edge by edge, so its edges are those of
the reference triangle, of the variables and of the clauses
(`hasEdge_graph`), and its nodes are listed by kind: the references, the
literals by variable, the auxiliary nodes by clause (`nodes_graph`). An
auxiliary node has no neighbors but those of its own gadget
(`neighbors_auxiliary`).
-/

namespace Tricolor

namespace Gadget

open Tricolor.Graph (ends)

variable {f : Formula} {c : Clause} {k var : Nat} {role : Role} {a b : Node} {e : Node × Node}

theorem build_eq_ok (hf : f.Valid) : build f = .ok (graph f) := by
  rw [build, Formula.validate_eq_ok_iff.2 hf]
  rfl

/-! ## Edges -/

/-- The edges of the triangles of the variables `1..n`. -/
def variablesEdges (n : Nat) : List (Node × Node) := (List.range' 1 n).flatMap variableEdges

theorem variablesEdges_succ (n : Nat) :
    variablesEdges (n + 1) = variablesEdges n ++ variableEdges (1 + n) := by
  simp [variablesEdges, List.range'_1_concat]

/-- The edges of the gadgets of some clauses. -/
def clausesEdges (clauses : List Clause) : List (Node × Node) :=
  clauses.zipIdx.flatMap fun (c, k) => clauseEdges k c

/-- The edges of the graph of a formula, in the order they are added. -/
def edges (f : Formula) : List (Node × Node) :=
  referenceEdges ++ variablesEdges f.numVars.toNat ++ clausesEdges f.clauses

theorem graph_eq_joinAll (f : Formula) : graph f = Graph.empty.joinAll (edges f) := by
  have hskeleton : skeleton f.numVars.toNat =
      (Graph.empty.joinAll referenceEdges).joinAll (variablesEdges f.numVars.toNat) := by
    rw [skeleton, Graph.foldl_joinAll variableEdges, variablesEdges]
  have hclauses : ∀ g : Graph Node, (f.clauses.zipIdx.foldl (fun g (c, k) => addClause g k c) g) =
      g.joinAll (clausesEdges f.clauses) := fun g => by
    simp only [addClause]
    rw [Graph.foldl_joinAll fun x : Clause × Nat => clauseEdges x.2 x.1, clausesEdges]
  rw [graph, hclauses, hskeleton, ← Graph.joinAll_append, ← Graph.joinAll_append, edges,
    List.append_assoc]

/-- An edge belongs to the reference triangle, to a variable or to a
clause. -/
theorem mem_edges_iff :
    e ∈ edges f ↔ e ∈ referenceEdges ∨
      (∃ var, 0 < var ∧ var ≤ f.numVars.toNat ∧ e ∈ variableEdges var) ∨
      ∃ k c, f.clauses[k]? = some c ∧ e ∈ clauseEdges k c := by
  simp only [edges, variablesEdges, clausesEdges, List.mem_append, List.mem_flatMap, Prod.exists,
    List.mem_zipIdx_iff_getElem?, List.mem_range'_1, or_assoc]
  refine or_congr_right (or_congr ?_ ?_)
  · refine exists_congr fun var => ?_
    rw [and_assoc]
    refine and_congr (by omega) (and_congr (by omega) Iff.rfl)
  · exact exists_comm

/-- No edge of a gadget graph is a loop, whatever the formula. -/
theorem ne_of_mem_edges (h : e ∈ edges f) : e.1 ≠ e.2 := by
  rcases mem_edges_iff.1 h with h | ⟨var, -, -, h⟩ | ⟨k, c, -, h⟩
  · simp only [referenceEdges, Node.truth, Node.falsity, Node.neutral, List.mem_cons,
      List.not_mem_nil, or_false] at h
    rcases h with rfl | rfl | rfl <;> simp
  · simp only [variableEdges, List.mem_cons, List.not_mem_nil, or_false] at h
    rcases h with rfl | rfl | rfl <;> simp [Node.neutral]
  · simp only [clauseEdges, Node.ofLiteral, Node.falsity, Node.neutral, List.mem_cons,
      List.not_mem_nil, or_false] at h
    rcases h with rfl | rfl | rfl | rfl | rfl | rfl | rfl | rfl | rfl | rfl | rfl | rfl <;> simp

/-- **The edges of a gadget graph.** -/
theorem hasEdge_graph : (graph f).hasEdge a b ↔ (a, b) ∈ edges f ∨ (b, a) ∈ edges f := by
  rw [graph_eq_joinAll, Graph.hasEdge_joinAll fun e he => ne_of_mem_edges he]
  exact or_iff_right (Graph.not_hasEdge_empty a b)

/-- Any two references are joined. -/
theorem hasEdge_reference {role role' : Reference} (hne : role ≠ role') :
    (graph f).hasEdge (.reference role) (.reference role') := by
  rw [hasEdge_graph, mem_edges_iff, mem_edges_iff]
  have hedge : (.reference role, .reference role') ∈ referenceEdges ∨
      (.reference role', .reference role) ∈ referenceEdges := by
    cases role <;> cases role' <;> first | contradiction | decide
  exact hedge.imp .inl .inl

/-! ## The neighbors of auxiliary nodes -/

/-- The neighbors of an auxiliary node of clause `k`. -/
def auxiliaryNeighbors (k : Nat) (c : Clause) : Role → List Node
  | .in1 => [.ofLiteral c.first, .auxiliary k .in2, .auxiliary k .or12]
  | .in2 => [.ofLiteral c.second, .auxiliary k .in1, .auxiliary k .or12]
  | .or12 => [.auxiliary k .in1, .auxiliary k .in2, .auxiliary k .in12]
  | .in12 => [.auxiliary k .or12, .auxiliary k .in3, .auxiliary k .or123]
  | .in3 => [.ofLiteral c.third, .auxiliary k .in12, .auxiliary k .or123]
  | .or123 => [.auxiliary k .in12, .auxiliary k .in3, .falsity, .neutral]

theorem nodup_auxiliaryNeighbors (k : Nat) (c : Clause) (role : Role) :
    (auxiliaryNeighbors k c role).Nodup := by
  cases role <;> simp [auxiliaryNeighbors, Node.ofLiteral, Node.falsity, Node.neutral]

/-- An auxiliary node stands in the gadget of its own clause only. -/
theorem mem_clauseEdges_auxiliary {k' : Nat} :
    ((.auxiliary k role, b) ∈ clauseEdges k' c ∨ (b, .auxiliary k role) ∈ clauseEdges k' c) ↔
      k = k' ∧ b ∈ auxiliaryNeighbors k c role := by
  simp only [clauseEdges, Node.ofLiteral, Node.falsity, Node.neutral, List.mem_cons,
    List.not_mem_nil, or_false, Prod.mk.injEq, Node.auxiliary.injEq, reduceCtorEq, false_and,
    and_false, false_or]
  by_cases hk : k = k'
  · subst hk
    cases role <;>
      simp only [auxiliaryNeighbors, Node.ofLiteral, Node.falsity, Node.neutral, List.mem_cons,
        List.not_mem_nil, or_false, true_and, and_true, reduceCtorEq, false_and, and_false,
        false_or] <;> tauto
  · simp [hk]

theorem hasEdge_auxiliary (hk : f.clauses[k]? = some c) :
    (graph f).hasEdge (.auxiliary k role) b ↔ b ∈ auxiliaryNeighbors k c role := by
  rw [hasEdge_graph, mem_edges_iff, mem_edges_iff]
  constructor
  · rintro ((h | ⟨var, -, -, h⟩ | ⟨k', c', hk', h⟩) | (h | ⟨var, -, -, h⟩ | ⟨k', c', hk', h⟩))
    · simp [referenceEdges, Node.truth, Node.falsity, Node.neutral] at h
    · simp [variableEdges] at h
    · obtain ⟨rfl, hb⟩ := mem_clauseEdges_auxiliary.1 (.inl h)
      cases hk.symm.trans hk'
      exact hb
    · simp [referenceEdges, Node.truth, Node.falsity, Node.neutral] at h
    · simp [variableEdges, Node.neutral] at h
    · obtain ⟨rfl, hb⟩ := mem_clauseEdges_auxiliary.1 (.inr h)
      cases hk.symm.trans hk'
      exact hb
  · intro hb
    rcases mem_clauseEdges_auxiliary.2 ⟨rfl, hb⟩ with h | h
    · exact .inl (.inr (.inr ⟨k, c, hk, h⟩))
    · exact .inr (.inr (.inr ⟨k, c, hk, h⟩))

/-- **An auxiliary node has the neighbors that its gadget gives it**, in
some order. -/
theorem neighbors_auxiliary (hk : f.clauses[k]? = some c) :
    (graph f).neighbors (.auxiliary k role) |>.Perm (auxiliaryNeighbors k c role) := by
  refine (List.perm_ext_iff_of_nodup (Graph.nodup_neighbors _ _)
    (nodup_auxiliaryNeighbors k c role)).2 fun b => ?_
  rw [Graph.mem_neighbors, hasEdge_auxiliary hk]

/-! ## Nodes -/

/-- The nodes of the reference triangle, in order. -/
def referenceNodes : List Node := [.truth, .falsity, .neutral]

/-- The nodes of the variables `1..n`, in order. -/
def variableNodes (n : Nat) : List Node :=
  (List.range' 1 n).flatMap fun var => [.literal var true, .literal var false]

theorem length_variableNodes (n : Nat) : (variableNodes n).length = 2 * n := by
  simp [variableNodes, List.length_flatMap, Nat.mul_comm]

/-- The auxiliary nodes of the first `m` clauses, in order. -/
def auxiliaryNodes (m : Nat) : List Node := (List.range m).flatMap clauseNodes

theorem literal_mem_variableNodes {n : Nat} {positive : Bool} :
    .literal var positive ∈ variableNodes n ↔ 0 < var ∧ var ≤ n := by
  simp only [variableNodes, List.mem_flatMap, List.mem_range'_1, List.mem_cons, List.not_mem_nil,
    or_false, Node.literal.injEq]
  constructor
  · rintro ⟨_, h, ⟨rfl, -⟩ | ⟨rfl, -⟩⟩ <;> omega
  · intro h
    refine ⟨var, by omega, ?_⟩
    cases positive <;> simp

theorem Role.mem_all (role : Role) : role ∈ Role.all := by cases role <;> simp [Role.all]

theorem mem_clauseNodes : b ∈ clauseNodes k ↔ ∃ role, b = .auxiliary k role := by
  rw [clauseNodes, List.mem_map]
  constructor
  · rintro ⟨role, -, rfl⟩
    exact ⟨role, rfl⟩
  · rintro ⟨role, rfl⟩
    exact ⟨role, role.mem_all, rfl⟩

theorem auxiliary_mem_auxiliaryNodes {m : Nat} :
    .auxiliary k role ∈ auxiliaryNodes m ↔ k < m := by
  simp only [auxiliaryNodes, List.mem_flatMap, List.mem_range, mem_clauseNodes,
    Node.auxiliary.injEq]
  constructor
  · rintro ⟨_, h, _, rfl, -⟩
    exact h
  · exact fun h => ⟨k, h, role, rfl, rfl⟩

/-- Only literals are nodes of variables. -/
theorem exists_of_mem_variableNodes {n : Nat} (h : a ∈ variableNodes n) :
    ∃ var positive, a = .literal var positive := by
  simp only [variableNodes, List.mem_flatMap, List.mem_cons, List.not_mem_nil, or_false] at h
  obtain ⟨var, -, rfl | rfl⟩ := h
  · exact ⟨var, true, rfl⟩
  · exact ⟨var, false, rfl⟩

/-- The references and the literals are no auxiliary nodes. -/
theorem auxiliary_notMem_skeletonNodes {n : Nat} :
    .auxiliary k role ∉ referenceNodes ++ variableNodes n := by
  rw [List.mem_append]
  rintro (hb | hb)
  · simp [referenceNodes, Node.truth, Node.falsity, Node.neutral] at hb
  · obtain ⟨_, _, hb⟩ := exists_of_mem_variableNodes hb
    cases hb

/-- Only auxiliary nodes are nodes of clauses. -/
theorem exists_of_mem_auxiliaryNodes {m : Nat} (h : a ∈ auxiliaryNodes m) :
    ∃ k role, a = .auxiliary k role := by
  obtain ⟨k, -, h⟩ := List.mem_flatMap.1 h
  obtain ⟨role, rfl⟩ := mem_clauseNodes.1 h
  exact ⟨k, role, rfl⟩

/-- Further edges list the ends that are new, behind the old ones. -/
theorem eraseDups_ends_append {es : List (Node × Node)} {old : List Node}
    (hold : (ends es).eraseDups = old) (new : List (Node × Node)) :
    (ends (es ++ new)).eraseDups = old ++ ((ends new).filter (· ∉ old)).eraseDups := by
  have happend : ends (es ++ new) = ends es ++ ends new := List.flatMap_append
  rw [happend, ← eraseDups_append_left, hold,
    eraseDups_append_of_nodup (hold ▸ nodup_eraseDups (ends es))]

/-- The triangle of a variable adds its two literals. -/
theorem new_of_variableEdges {old : List Node} (hneutral : .neutral ∈ old)
    (hfresh : ∀ positive, .literal var positive ∉ old) :
    ((ends (variableEdges var)).filter (· ∉ old)).eraseDups =
      [.literal var true, .literal var false] := by
  have hnew : (ends (variableEdges var)).filter (· ∉ old) =
      [true, false, true, false].map (.literal var) := by
    simp only [ends, variableEdges, List.flatMap_cons, List.flatMap_nil, List.append_nil,
      List.cons_append, List.nil_append, List.filter_cons, hfresh, hneutral, not_false_eq_true,
      not_true_eq_false, decide_true, decide_false, if_true, Bool.false_eq_true, if_false,
      List.filter_nil, List.map_cons, List.map_nil]
  rw [hnew]
  simp [List.eraseDups_cons]

/-- The gadget of a clause adds its six auxiliary nodes. -/
theorem new_of_clauseEdges {old : List Node} (hliteral : ∀ x ∈ c.literals, .ofLiteral x ∈ old)
    (hfalsity : .falsity ∈ old) (hneutral : .neutral ∈ old)
    (hfresh : ∀ role, .auxiliary k role ∉ old) :
    ((ends (clauseEdges k c)).filter (· ∉ old)).eraseDups = clauseNodes k := by
  have hfirst := hliteral c.first (by simp [Clause.literals])
  have hsecond := hliteral c.second (by simp [Clause.literals])
  have hthird := hliteral c.third (by simp [Clause.literals])
  have hnew : (ends (clauseEdges k c)).filter (· ∉ old) =
      [.in1, .in2, .in1, .in2, .in1, .or12, .in2, .or12, .or12, .in12, .in3, .in12, .in3, .in12,
        .or123, .in3, .or123, .or123, .or123].map (.auxiliary k) := by
    simp only [ends, clauseEdges, List.flatMap_cons, List.flatMap_nil, List.append_nil,
      List.cons_append, List.nil_append, List.filter_cons, hfresh, hfirst, hsecond, hthird,
      hfalsity, hneutral, not_false_eq_true, not_true_eq_false, decide_true, decide_false,
      if_true, Bool.false_eq_true, if_false, List.filter_nil, List.map_cons, List.map_nil]
  rw [hnew]
  simp [List.eraseDups_cons, clauseNodes, Role.all]

/-- The variables list their literals behind the references. -/
theorem eraseDups_ends_variablesEdges (n : Nat) :
    (ends (referenceEdges ++ variablesEdges n)).eraseDups = referenceNodes ++ variableNodes n := by
  induction n with
  | zero => rfl
  | succ n ih =>
    have hnodes : variableNodes (n + 1) =
        variableNodes n ++ [.literal (1 + n) true, .literal (1 + n) false] := by
      simp [variableNodes, List.range'_1_concat]
    have hfresh : ∀ positive, .literal (1 + n) positive ∉ referenceNodes ++ variableNodes n := by
      intro positive h
      rcases List.mem_append.1 h with h | h
      · simp [referenceNodes, Node.truth, Node.falsity, Node.neutral] at h
      · have := literal_mem_variableNodes.1 h
        omega
    rw [variablesEdges_succ, hnodes, ← List.append_assoc, ← List.append_assoc,
      eraseDups_ends_append ih, new_of_variableEdges (by simp [referenceNodes]) hfresh]

/-- The clauses list their auxiliary nodes behind the literals. -/
theorem eraseDups_ends_clausesEdges {n : Nat} (clauses : List Clause)
    (hvalid : ∀ c ∈ clauses, ∀ x ∈ c.literals, 0 < x.var ∧ x.var ≤ n) :
    (ends (referenceEdges ++ variablesEdges n ++ clausesEdges clauses)).eraseDups =
      referenceNodes ++ variableNodes n ++ auxiliaryNodes clauses.length := by
  induction clauses using List.reverseRecOn with
  | nil =>
    have hnone : clausesEdges [] = [] := rfl
    rw [hnone, List.append_nil, eraseDups_ends_variablesEdges]
    exact (List.append_nil _).symm
  | append_singleton clauses c ih =>
    specialize ih fun c' hc' => hvalid c' (List.mem_append_left _ hc')
    have hedges : clausesEdges (clauses ++ [c]) =
        clausesEdges clauses ++ clauseEdges clauses.length c := by
      simp [clausesEdges, List.zipIdx_append]
    have hnodes : auxiliaryNodes (clauses ++ [c]).length =
        auxiliaryNodes clauses.length ++ clauseNodes clauses.length := by
      simp [auxiliaryNodes, List.range_succ]
    have hliteral : ∀ x ∈ c.literals, .ofLiteral x ∈
        referenceNodes ++ variableNodes n ++ auxiliaryNodes clauses.length := by
      intro x hx
      exact List.mem_append_left _ (List.mem_append_right _
        (literal_mem_variableNodes.2 (hvalid c (by simp) x hx)))
    have hfresh : ∀ role, .auxiliary clauses.length role ∉
        referenceNodes ++ variableNodes n ++ auxiliaryNodes clauses.length := by
      intro role h
      rcases List.mem_append.1 h with h | h
      · exact auxiliary_notMem_skeletonNodes h
      · exact absurd (auxiliary_mem_auxiliaryNodes.1 h) (Nat.lt_irrefl _)
    rw [hedges, hnodes, ← List.append_assoc, ← List.append_assoc _ _ (clauseNodes _),
      eraseDups_ends_append ih, new_of_clauseEdges hliteral (by simp [referenceNodes])
        (by simp [referenceNodes]) hfresh]

/-- **The nodes of a gadget graph**: the references, the literals by
variable and the auxiliary nodes by clause. -/
theorem nodes_graph (hf : f.Valid) :
    (graph f).nodes =
      referenceNodes ++ variableNodes f.numVars.toNat ++ auxiliaryNodes f.clauses.length := by
  rw [graph_eq_joinAll, Graph.nodes_joinAll, ← eraseDups_ends_clausesEdges f.clauses hf, edges]
  rfl

/-- The number of nodes: three references, two literals for each variable
and six auxiliary nodes for each clause. -/
theorem nodeCount_graph (hf : f.Valid) :
    (graph f).nodeCount = 3 + 2 * f.numVars.toNat + 6 * f.clauses.length := by
  have hauxiliary : ∀ m, (auxiliaryNodes m).length = 6 * m := fun m => by
    simp [auxiliaryNodes, clauseNodes, Role.all, List.length_flatMap, Nat.mul_comm]
  rw [← Graph.length_nodes, nodes_graph hf, List.length_append, List.length_append,
    length_variableNodes, hauxiliary]
  rfl

end Gadget

end Tricolor
