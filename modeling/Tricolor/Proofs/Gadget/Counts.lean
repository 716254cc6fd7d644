import Tricolor.Proofs.Gadget.Shape
import Tricolor.Proofs.Graph.Fresh

/-!
# Counting the edges of a gadget graph

No edge of a gadget graph is added twice, whatever literals its clauses
repeat: an edge tells by its ends which part of the graph it belongs to
(`block`), and within a part no two edges are alike (`fresh_edges`). So
the edges can be counted on the list they are added from, all of them
(`edgeCount_graph`) or those at a literal (`degree_literal`). With the
order of the nodes and the adjacency from `Tricolor.Proofs.Gadget.Shape`
this fixes the graph of a valid formula (`build_exact`).
-/

namespace Tricolor

namespace Gadget

open Tricolor.Graph (Fresh Touches)

variable {f : Formula} {c : Clause} {k var : Nat} {positive : Bool} {a b : Node}
  {e e' : Node × Node}

/-! ## Parts of the graph -/

/-- The parts that a gadget graph is put together from. -/
inductive Block
  | reference
  | triangle (var : Nat)
  | clause (k : Nat)
  deriving DecidableEq

/-- The part that an edge belongs to: that of a clause if an auxiliary
node is among its ends, else that of a variable if a literal is. -/
def block : Node × Node → Block
  | (.auxiliary k _, _) => .clause k
  | (_, .auxiliary k _) => .clause k
  | (.literal var _, _) => .triangle var
  | (_, .literal var _) => .triangle var
  | (.reference _, .reference _) => .reference

/-- Some edges of one part, from whichever end they are seen. -/
def InBlock (p : Block) (es : List (Node × Node)) : Prop :=
  ∀ e ∈ es, block e = p ∧ block e.swap = p

theorem inBlock_referenceEdges : InBlock .reference referenceEdges := by
  simp [InBlock, referenceEdges, block, Node.truth, Node.falsity, Node.neutral]

theorem inBlock_variableEdges (var : Nat) : InBlock (.triangle var) (variableEdges var) := by
  simp [InBlock, variableEdges, block, Node.neutral]

theorem inBlock_clauseEdges (k : Nat) (c : Clause) : InBlock (.clause k) (clauseEdges k c) := by
  simp [InBlock, clauseEdges, block, Node.ofLiteral, Node.falsity, Node.neutral]

/-- Edges of different parts join different nodes. -/
theorem InBlock.apart {p q : Block} {l m : List (Node × Node)} (hl : InBlock p l)
    (hm : InBlock q m) (hpq : p ≠ q) : ∀ e ∈ l, ∀ e' ∈ m, e ≠ e' ∧ e ≠ e'.swap := by
  intro e he e' he'
  constructor
  · rintro rfl
    exact hpq ((hl e he).1.symm.trans (hm e he').1)
  · rintro rfl
    exact hpq ((hl _ he).1.symm.trans (hm e' he').2)

/-! ## No edge is added twice -/

theorem pairwise_referenceEdges :
    referenceEdges.Pairwise fun e e' => e ≠ e' ∧ e ≠ e'.swap := by
  simp [referenceEdges, Node.truth, Node.falsity, Node.neutral]

theorem pairwise_variableEdges (var : Nat) :
    (variableEdges var).Pairwise fun e e' => e ≠ e' ∧ e ≠ e'.swap := by
  simp [variableEdges, Node.neutral]

/-- The literals may coincide: each of them is joined with a node of its
own. -/
theorem pairwise_clauseEdges (k : Nat) (c : Clause) :
    (clauseEdges k c).Pairwise fun e e' => e ≠ e' ∧ e ≠ e'.swap := by
  simp [clauseEdges, Node.ofLiteral, Node.falsity, Node.neutral]

theorem pairwise_variablesEdges (n : Nat) :
    (variablesEdges n).Pairwise fun e e' => e ≠ e' ∧ e ≠ e'.swap := by
  rw [variablesEdges, List.pairwise_flatMap]
  refine ⟨fun var _ => pairwise_variableEdges var, List.Pairwise.imp (fun hne => ?_)
    (List.nodup_range' : (List.range' 1 n).Nodup)⟩
  exact (inBlock_variableEdges _).apart (inBlock_variableEdges _) (mt Block.triangle.inj hne)

theorem pairwise_clausesEdges (clauses : List Clause) :
    (clausesEdges clauses).Pairwise fun e e' => e ≠ e' ∧ e ≠ e'.swap := by
  have hnumbers : (clauses.zipIdx.map Prod.snd).Nodup := by
    rw [List.zipIdx_map_snd]
    exact List.nodup_range'
  rw [clausesEdges, List.pairwise_flatMap]
  refine ⟨fun x _ => pairwise_clauseEdges x.2 x.1,
    (List.pairwise_map.1 hnumbers).imp fun hne => ?_⟩
  exact (inBlock_clauseEdges _ _).apart (inBlock_clauseEdges _ _) (mt Block.clause.inj hne)

/-- **No edge of a gadget graph is added twice**, also if clauses repeat
literals or contradict themselves. -/
theorem fresh_edges (f : Formula) : Fresh (edges f) := by
  refine ⟨fun _ => ne_of_mem_edges, ?_⟩
  rw [edges, List.pairwise_append, List.pairwise_append]
  refine ⟨⟨pairwise_referenceEdges, pairwise_variablesEdges _, ?_⟩, pairwise_clausesEdges _, ?_⟩
  · intro e he e' he'
    obtain ⟨var, -, he'⟩ := List.mem_flatMap.1 he'
    exact inBlock_referenceEdges.apart (inBlock_variableEdges var) (by simp) e he e' he'
  · intro e he e' he'
    obtain ⟨⟨c, k⟩, -, he'⟩ := List.mem_flatMap.1 he'
    rcases List.mem_append.1 he with he | he
    · exact inBlock_referenceEdges.apart (inBlock_clauseEdges k c) (by simp) e he e' he'
    · obtain ⟨var, -, he⟩ := List.mem_flatMap.1 he
      exact (inBlock_variableEdges var).apart (inBlock_clauseEdges k c) (by simp) e he e' he'

/-! ## The number of edges -/

/-- Three edges for each triangle and twelve for each clause. -/
theorem length_edges (f : Formula) :
    (edges f).length = 3 + 3 * f.numVars.toNat + 12 * f.clauses.length := by
  have hvariables : (variablesEdges f.numVars.toNat).length = 3 * f.numVars.toNat := by
    simp [variablesEdges, variableEdges, List.length_flatMap, Nat.mul_comm]
  have hclauses : (clausesEdges f.clauses).length = 12 * f.clauses.length := by
    simp [clausesEdges, clauseEdges, List.length_flatMap, Nat.mul_comm]
  rw [edges, List.length_append, List.length_append, hvariables, hclauses]
  rfl

theorem edgeCount_graph (f : Formula) :
    (graph f).edgeCount = 3 + 3 * f.numVars.toNat + 12 * f.clauses.length := by
  rw [graph_eq_joinAll, Graph.edgeCount_joinAll (fresh_edges f) fun e _ =>
    Graph.not_hasEdge_empty e.1 e.2, length_edges]
  exact Nat.zero_add _

/-! ## The degrees of literals -/

/-- How often a literal occurs in the clauses of a formula. -/
def occurrences (f : Formula) (var : Nat) (positive : Bool) : Nat :=
  (f.clauses.flatMap Clause.literals).countP fun x => x.var = var ∧ x.isPositive = positive

/-- In its triangle a literal has two edges. -/
theorem countP_variableEdges (v : Nat) :
    (variableEdges v).countP (Touches (Node.literal var positive)) = if v = var then 2 else 0 := by
  by_cases hv : v = var
  · subst hv
    cases positive <;> simp [variableEdges, Touches, Node.neutral]
  · simp [variableEdges, Touches, Node.neutral, hv]

theorem countP_variablesEdges (n : Nat) :
    (variablesEdges n).countP (Touches (Node.literal var positive)) =
      if 0 < var ∧ var ≤ n then 2 else 0 := by
  induction n with
  | zero =>
    rw [if_neg (by omega)]
    rfl
  | succ n ih =>
    rw [variablesEdges_succ, List.countP_append, ih, countP_variableEdges]
    grind

/-- The node of a literal of the formula is the one that its variable and
its sign name. -/
theorem touches_ofLiteral {x : Literal} {role : Role} :
    Touches (Node.literal var positive) (Node.ofLiteral x, .auxiliary k role) ↔
      x.var = var ∧ x.isPositive = positive := by
  simp [Touches, Node.ofLiteral, Literal.var, Literal.isPositive]

/-- In the gadget of a clause a literal has one edge for each place that
it stands at. -/
theorem countP_clauseEdges (k : Nat) (c : Clause) :
    (clauseEdges k c).countP (Touches (Node.literal var positive)) =
      c.literals.countP fun x => x.var = var ∧ x.isPositive = positive := by
  have hauxiliary : ∀ role (b : Node), (∀ var positive, b ≠ .literal var positive) →
      ¬ Touches (Node.literal var positive) (.auxiliary k role, b) := by
    rintro role b hb (h | h)
    · cases h
    · exact hb _ _ h
  simp only [clauseEdges, Clause.literals, List.countP_cons, touches_ofLiteral]
  simp [hauxiliary, Node.falsity, Node.neutral]

theorem countP_clausesEdges (f : Formula) :
    (clausesEdges f.clauses).countP (Touches (Node.literal var positive)) =
      occurrences f var positive := by
  have hclause : (List.countP (Touches (Node.literal var positive)) ∘ fun x : Clause × Nat =>
      clauseEdges x.2 x.1) = (List.countP (fun x => x.var = var ∧ x.isPositive = positive) ∘
        Clause.literals) ∘ Prod.fst :=
    funext fun x => countP_clauseEdges x.2 x.1
  rw [clausesEdges, occurrences, List.countP_flatMap, List.countP_flatMap, hclause,
    ← List.map_map, List.zipIdx_map_fst]

/-- **The degree of a literal** is two and the number of its occurrences. -/
theorem degree_literal (hpos : 0 < var) (hle : var ≤ f.numVars.toNat) :
    (graph f).degree (.literal var positive) = 2 + occurrences f var positive := by
  have hreference : referenceEdges.countP (Touches (Node.literal var positive)) = 0 := by
    simp [referenceEdges, Touches, Node.truth, Node.falsity, Node.neutral]
  rw [graph_eq_joinAll, Graph.degree_joinAll (fresh_edges f), edges, List.countP_append,
    List.countP_append, hreference, countP_variablesEdges, if_pos ⟨hpos, hle⟩,
    countP_clausesEdges, Nat.zero_add]

/-! ## The graph of a valid formula -/

/-- The triangle of a variable. -/
def variableTriangle (var : Nat) : List Node :=
  [.literal var true, .literal var false, .neutral]

/-- The triangles of a gadget graph with `n` variables. -/
def triangles (n : Nat) : List (List Node) :=
  referenceNodes :: (List.range' 1 n).map variableTriangle

theorem mem_referenceEdges_iff :
    ((a, b) ∈ referenceEdges ∨ (b, a) ∈ referenceEdges) ↔
      a ≠ b ∧ a ∈ referenceNodes ∧ b ∈ referenceNodes := by
  simp only [referenceEdges, referenceNodes, Node.truth, Node.falsity, Node.neutral, List.mem_cons,
    List.not_mem_nil, or_false, Prod.mk.injEq]
  grind

theorem mem_variableEdges_iff :
    ((a, b) ∈ variableEdges var ∨ (b, a) ∈ variableEdges var) ↔
      a ≠ b ∧ a ∈ variableTriangle var ∧ b ∈ variableTriangle var := by
  simp only [variableEdges, variableTriangle, Node.neutral, List.mem_cons, List.not_mem_nil,
    or_false, Prod.mk.injEq]
  grind

theorem exists_triangle_iff {n : Nat} :
    (∃ t ∈ triangles n, a ∈ t ∧ b ∈ t) ↔ (a ∈ referenceNodes ∧ b ∈ referenceNodes) ∨
      ∃ var, 0 < var ∧ var ≤ n ∧ a ∈ variableTriangle var ∧ b ∈ variableTriangle var := by
  simp only [triangles, List.mem_cons, List.mem_map, List.mem_range'_1, exists_eq_or_imp]
  refine or_congr_right ⟨?_, ?_⟩
  · rintro ⟨_, ⟨var, hvar, rfl⟩, ht⟩
    exact ⟨var, by omega, by omega, ht⟩
  · rintro ⟨var, hpos, hle, ht⟩
    exact ⟨_, ⟨var, by omega, rfl⟩, ht⟩

/-- **Two nodes are joined** if they are different nodes of a triangle, or
by an edge of the gadget of a clause. -/
theorem hasEdge_graph_iff :
    (graph f).hasEdge a b ↔
      (a ≠ b ∧ ∃ t ∈ triangles f.numVars.toNat, a ∈ t ∧ b ∈ t) ∨
        ∃ k c, f.clauses[k]? = some c ∧ ((a, b) ∈ clauseEdges k c ∨ (b, a) ∈ clauseEdges k c) := by
  have hvariables : ((∃ var, 0 < var ∧ var ≤ f.numVars.toNat ∧ (a, b) ∈ variableEdges var) ∨
      ∃ var, 0 < var ∧ var ≤ f.numVars.toNat ∧ (b, a) ∈ variableEdges var) ↔
      a ≠ b ∧ ∃ var, 0 < var ∧ var ≤ f.numVars.toNat ∧
        a ∈ variableTriangle var ∧ b ∈ variableTriangle var := by
    simp only [← exists_or, ← and_or_left, mem_variableEdges_iff]
    constructor
    · rintro ⟨var, hpos, hle, hne, h⟩
      exact ⟨hne, var, hpos, hle, h⟩
    · rintro ⟨hne, var, hpos, hle, h⟩
      exact ⟨var, hpos, hle, hne, h⟩
  have hclauses : ((∃ k c, f.clauses[k]? = some c ∧ (a, b) ∈ clauseEdges k c) ∨
      ∃ k c, f.clauses[k]? = some c ∧ (b, a) ∈ clauseEdges k c) ↔
      ∃ k c, f.clauses[k]? = some c ∧ ((a, b) ∈ clauseEdges k c ∨ (b, a) ∈ clauseEdges k c) := by
    simp only [← exists_or, ← and_or_left]
  -- both directions of an edge are looked for in each part of the graph
  rw [hasEdge_graph, mem_edges_iff, mem_edges_iff, or_or_or_comm, mem_referenceEdges_iff,
    or_or_or_comm, hvariables, hclauses, exists_triangle_iff, and_or_left, or_assoc]

/-- What the graph of a formula looks like. -/
structure Exact (f : Formula) (g : Graph Node) : Prop where
  /-- The references, the literals by variable and the auxiliary nodes by
  clause, in this order. -/
  nodes : g.nodes =
    referenceNodes ++ variableNodes f.numVars.toNat ++ auxiliaryNodes f.clauses.length
  hasEdge : ∀ a b, g.hasEdge a b ↔
    (a ≠ b ∧ ∃ t ∈ triangles f.numVars.toNat, a ∈ t ∧ b ∈ t) ∨
      ∃ k c, f.clauses[k]? = some c ∧ ((a, b) ∈ clauseEdges k c ∨ (b, a) ∈ clauseEdges k c)
  nodeCount : g.nodeCount = 3 + 2 * f.numVars.toNat + 6 * f.clauses.length
  edgeCount : g.edgeCount = 3 + 3 * f.numVars.toNat + 12 * f.clauses.length
  degree : ∀ var positive, 0 < var → var ≤ f.numVars.toNat →
    g.degree (.literal var positive) = 2 + occurrences f var positive

/-- **The graph of a valid formula is fixed** up to the last edge: its
nodes in order, its edges, their numbers, and how many meet at a literal. -/
theorem build_exact (hf : f.validate = .ok ()) : ∃ g, build f = .ok g ∧ Exact f g := by
  have hvalid := Formula.validate_eq_ok_iff.1 hf
  exact ⟨graph f, build_eq_ok hvalid,
    { nodes := nodes_graph hvalid
      hasEdge := fun _ _ => hasEdge_graph_iff
      nodeCount := nodeCount_graph hvalid
      edgeCount := edgeCount_graph f
      degree := fun _ _ => degree_literal }⟩

/-- The clause `1 ∨ 1 ∨ -1` repeats a literal and contradicts itself. -/
theorem build_exact_repeated :
    ∃ g, build ⟨1, [⟨1, 1, -1⟩]⟩ = .ok g ∧
      g.nodes = [.truth, .falsity, .neutral, .literal 1 true, .literal 1 false] ++
        Role.all.map (.auxiliary 0) ∧
      g.hasEdge (.auxiliary 0 .in3) (.literal 1 false) = true ∧
      g.hasEdge (.auxiliary 0 .in3) (.literal 1 true) = false ∧
      g.nodeCount = 11 ∧ g.edgeCount = 18 ∧
      g.degree (.literal 1 true) = 4 ∧ g.degree (.literal 1 false) = 3 := by
  obtain ⟨g, hg, h⟩ := build_exact (f := ⟨1, [⟨1, 1, -1⟩]⟩) (by decide)
  refine ⟨g, hg, h.nodes, (h.hasEdge _ _).2 (.inr ⟨0, _, rfl, by decide⟩), ?_, h.nodeCount,
    h.edgeCount, h.degree 1 true (by decide) (by decide),
    h.degree 1 false (by decide) (by decide)⟩
  rw [Bool.eq_false_iff, ne_eq, h.hasEdge]
  rintro (⟨-, ht⟩ | ⟨k, c, hk, he⟩)
  · revert ht
    decide
  · obtain ⟨rfl, hc⟩ := mem_clauseEdges_auxiliary.1 he
    cases hk
    revert hc
    decide

end Gadget

end Tricolor
