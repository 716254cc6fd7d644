import Tricolor.Proofs.Coloring.Lookup
import Tricolor.Proofs.Graph.Lookup

/-!
# Proper colorings and valid seeds

What the two checks of the library say: `isProper` that every node has a
color and no edge one color (`isProper_iff`), `validateSeed` that a seed
colors nodes of the graph only and no edge with one color
(`validateSeed_eq_ok_iff`). A graph is painted by giving each node, in
order, the color that a function names.
-/

namespace Tricolor

variable {α : Type} [DecidableEq α] {g : Graph α} {c seed : Coloring α} {a b : α}

/-- A coloring of all nodes in which no edge joins two nodes of one
color. -/
structure Proper (g : Graph α) (c : Coloring α) : Prop where
  colored : ∀ a ∈ g.nodes, ∃ color, c.get? a = some color
  distinct : ∀ a b, g.hasEdge a b → c.get? a ≠ c.get? b

/-- A partial coloring that only colors nodes of the graph, and no edge
with one color. -/
structure ValidSeed (g : Graph α) (seed : Coloring α) : Prop where
  known : ∀ a ∈ seed.nodes, a ∈ g.nodes
  distinct : ∀ a b color, g.hasEdge a b → seed.get? a = some color → seed.get? b ≠ some color

theorem getElem?_worn (i : Nat) : (g.order.map c.get?)[i]? = (g.node? i).map c.get? := by
  rw [Array.getElem?_map, Graph.node?]

/-- **The properness check says what it should.** -/
theorem isProper_iff : isProper g c ↔ Proper g c := by
  have hcolored : (g.order.map c.get?).all Option.isSome ↔
      ∀ a ∈ g.nodes, ∃ color, c.get? a = some color := by
    simp only [Array.all_eq_true_iff_forall_mem, Array.mem_map, Graph.nodes, Array.mem_toList_iff,
      Option.isSome_iff_exists]
    constructor
    · exact fun h a ha => h _ ⟨a, ha, rfl⟩
    · rintro h _ ⟨a, ha, rfl⟩
      exact h a ha
  have hlinks : (∀ i j, (i, j) ∈ g.accepted → (g.node? i).map c.get? ≠ (g.node? j).map c.get?) ↔
      ∀ a b, g.hasEdge a b → c.get? a ≠ c.get? b := by
    constructor
    · intro h a b hab heq
      obtain ⟨i, j, hi, hj, hl | hl⟩ := Graph.hasEdge_iff.1 hab
      · exact h i j (Array.mem_toList_iff.1 hl) (by rw [hi, hj, Option.map_some, heq]; rfl)
      · exact h j i (Array.mem_toList_iff.1 hl) (by rw [hi, hj, Option.map_some, ← heq]; rfl)
    · intro h i j he heq
      have hl : g.Linked i j := .inl (Array.mem_toList_iff.2 he)
      obtain ⟨a, hi⟩ := Graph.exists_node?_of_lt hl.lt.1
      obtain ⟨b, hj⟩ := Graph.exists_node?_of_lt hl.lt.2
      simp only [hi, hj, Option.map_some, Option.some.injEq] at heq
      exact h a b (Graph.hasEdge_iff.2 ⟨i, j, hi, hj, hl⟩) heq
  rw [isProper, Bool.and_eq_true, hcolored]
  simp only [Array.all_eq_true_iff_forall_mem, Prod.forall, getElem?_worn, bne_iff_ne]
  rw [hlinks]
  exact ⟨fun h => ⟨h.1, h.2⟩, fun h => ⟨h.1, h.2⟩⟩

/-- **A seed is accepted exactly if it is valid.** -/
theorem validateSeed_eq_ok_iff [ToString α] :
    validateSeed g seed = .ok () ↔ ValidSeed g seed := by
  have hfault : seedFault g seed = none ↔ ValidSeed g seed := by
    simp only [seedFault, List.findSome?_eq_none_iff, Prod.forall, ← Coloring.get?_eq_some_iff]
    constructor
    · intro h
      refine ⟨fun a ha => ?_, fun a b color hab ha hb => ?_⟩
      · obtain ⟨color, hcolor⟩ := Coloring.mem_nodes_iff.1 ha
        have := h a color hcolor
        rw [← Graph.contains_iff]
        by_contra hnot
        rw [if_neg hnot] at this
        cases this
      · have := h a color ha
        rw [if_pos (Graph.contains_iff.2 (Graph.mem_nodes_of_hasEdge hab).1),
          Option.map_eq_none_iff, List.find?_eq_none] at this
        exact this b (Graph.mem_neighbors.2 hab) (beq_iff_eq.2 hb)
    · intro h a color ha
      rw [if_pos (Graph.contains_iff.2 (h.known a (Coloring.mem_nodes_of_get? ha))),
        Option.map_eq_none_iff, List.find?_eq_none]
      intro b hb
      rw [beq_iff_eq]
      exact h.distinct a b color (Graph.mem_neighbors.1 hb) ha
  rw [← hfault, validateSeed]
  cases seedFault g seed <;> simp

/-- **A seed is refused exactly if it is not valid.** -/
theorem exists_validateSeed_eq_error_iff [ToString α] :
    (∃ fault, validateSeed g seed = .error (.invalidSeed fault)) ↔ ¬ ValidSeed g seed := by
  rw [← validateSeed_eq_ok_iff, validateSeed]
  cases seedFault g seed <;> simp

/-- A valid partial coloring that leaves no node open lists each node
once. -/
theorem ValidSeed.perm_nodes (hc : ValidSeed g c) (hall : ∀ a ∈ g.nodes, c.get? a ≠ none) :
    c.nodes.Perm g.nodes := by
  refine (List.perm_ext_iff_of_nodup c.entries_nodup g.nodes_nodup).2 fun a => ?_
  exact ⟨hc.known a, fun ha => Coloring.mem_nodes_iff.2 (Option.ne_none_iff_exists'.1 (hall a ha))⟩

namespace Graph

/-- The coloring that gives each node, in order, the color that a
function names. -/
def paint (g : Graph α) (κ : α → Color) : Coloring α where
  entries := g.nodes.map fun a => (a, κ a)
  entries_nodup := by
    rw [List.map_map]
    exact (List.map_id _).symm ▸ g.nodes_nodup

omit [DecidableEq α] in
theorem nodes_paint (g : Graph α) (κ : α → Color) : (g.paint κ).nodes = g.nodes := by
  rw [Coloring.nodes, paint, List.map_map]
  exact List.map_id _

theorem get?_paint {κ : α → Color} (h : a ∈ g.nodes) : (g.paint κ).get? a = some (κ a) :=
  Coloring.get?_eq_some_iff.2 (List.mem_map_of_mem h)

/-- A painted graph is properly colored if the function parts the ends of
every edge. -/
theorem proper_paint_iff {κ : α → Color} :
    Proper g (g.paint κ) ↔ ∀ a b, g.hasEdge a b → κ a ≠ κ b := by
  constructor
  · intro h a b hab heq
    have hmem := mem_nodes_of_hasEdge hab
    exact h.distinct a b hab (by rw [get?_paint hmem.1, get?_paint hmem.2, heq])
  · intro h
    refine ⟨fun a ha => ⟨κ a, get?_paint ha⟩, fun a b hab heq => h a b hab ?_⟩
    have hmem := mem_nodes_of_hasEdge hab
    rw [get?_paint hmem.1, get?_paint hmem.2] at heq
    exact Option.some.inj heq

end Graph

end Tricolor
