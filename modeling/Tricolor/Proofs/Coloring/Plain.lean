import Mathlib.Data.List.MinMax
import Mathlib.Data.Prod.Lex
import Tricolor.Proofs.Coloring.Dsatur

/-!
# The plain greedy coloring

The greedy coloring in its textbook form, which keeps nothing between two
selections: while there are open nodes, the colors around each of them are
counted, the first node with the largest key is taken, and it gets the
first color that is free. If none is, there is no result. The coloring
that keeps its counts and a queue up to date gives the same result, node
by node in the same order, and has none if the plain one has none
(`dsaturWithStats_eq_plain`).
-/

namespace Tricolor

namespace Plain

variable {α : Type} [DecidableEq α] {g : Graph α} {c : Coloring α} {palette taken : List Color}
variable {a b : α} {color : Color}

/-- The colors that the colored neighbors of a node wear. -/
def worn (g : Graph α) (c : Coloring α) (a : α) : List Color := (g.neighbors a).filterMap c.get?

/-- What makes a node urgent: first the number of different colors around
it, then the number of its neighbors, then an early position. -/
def key (g : Graph α) (c : Coloring α) (a : α) : ℕ ×ₗ ℕ ×ₗ ℕᵒᵈ :=
  toLex ((worn g c a).toFinset.card, toLex (g.degree a, OrderDual.toDual (g.position a)))

/-- The nodes without a color. -/
def openNodes (g : Graph α) (c : Coloring α) : List α := g.nodes.filter fun a => !c.contains a

/-- The open node with the largest key. -/
def next? (g : Graph α) (c : Coloring α) : Option α := (openNodes g c).argmax (key g c)

/-- The first color of the palette that is not taken, or else the color
with the smallest number that is neither in the palette nor taken, if
there is one. -/
def fit (palette taken : List Color) : Option Color :=
  match palette.find? fun c => !taken.contains c with
  | some c => some c
  | none =>
    (Color.below UInt32.size).find? fun c => !palette.contains c && !taken.contains c

theorem mem_openNodes : a ∈ openNodes g c ↔ a ∈ g.nodes ∧ c.get? a = none := by
  simp [openNodes, Coloring.contains]

theorem openNodes_insert (a : α) (color : Color) :
    openNodes g (c.insert a color) = (openNodes g c).filter (· ≠ a) := by
  rw [openNodes, openNodes, List.filter_filter]
  refine List.filter_congr fun b _ => ?_
  rw [Coloring.contains, Coloring.contains, Coloring.get?_insert]
  by_cases hba : b = a <;> simp [hba]

/-- Coloring an open node leaves fewer of them. -/
theorem length_openNodes_insert_lt (h : next? g c = some a) (color : Color) :
    (openNodes g (c.insert a color)).length < (openNodes g c).length := by
  rw [openNodes_insert, List.length_filter_lt_length_iff_exists]
  exact ⟨a, List.argmax_mem h, by simp⟩

/-- Colors the open nodes one after the other. -/
def complete (g : Graph α) (palette : List Color) (c : Coloring α) : Option (Coloring α) :=
  match _h : next? g c with
  | none => some c
  | some a =>
    match fit palette (worn g c a) with
    | none => none
    | some color => complete g palette (c.insert a color)
termination_by (openNodes g c).length
decreasing_by exact length_openNodes_insert_lt ‹_› _

/-! ## The same rule -/

/-- The smallest free number is the one that first fit finds. -/
theorem fit_eq_firstFit (palette taken : List Color) :
    fit palette taken = firstFit taken palette := by
  rw [fit, firstFit_eq_or]
  cases palette.find? fun c => !taken.contains c with
  | some c => rfl
  | none => rw [Option.none_or]

theorem fit_worn (g : Graph α) (palette : List Color) (c : Coloring α) (a : α) :
    fit palette (worn g c a) = Greedy.fit g palette c a := by
  rw [fit_eq_firstFit, Greedy.fit, Greedy.around]
  exact firstFit_congr fun _ => List.mem_eraseDups.symm

theorem card_worn (g : Graph α) (c : Coloring α) (a : α) :
    (worn g c a).toFinset.card = (Greedy.around g c a).length := by
  rw [← List.toFinset_card_of_nodup (Greedy.nodup_around g c a)]
  congr 1
  ext color
  simp [worn, Greedy.around]

/-- A node with a larger key is before one with a smaller key. -/
theorem key_lt_key_iff :
    key g c b < key g c a ↔ (Greedy.rank g c a).before (Greedy.rank g c b) := by
  rw [Rank.before_iff]
  simp only [key, Prod.Lex.toLex_lt_toLex, OrderDual.toDual_lt_toDual, card_worn, Greedy.rank,
    Graph.degree_eq_length_neighbors]
  omega

/-- Different nodes have different keys. -/
theorem eq_of_key_eq (ha : a ∈ g.nodes) (hb : b ∈ g.nodes) (h : key g c a = key g c b) : a = b := by
  have hposition : g.position a = g.position b := congrArg (fun k => (ofLex (ofLex k).2).2) h
  obtain ⟨i, hi⟩ := Graph.mem_nodes_iff.1 ha
  obtain ⟨j, hj⟩ := Graph.mem_nodes_iff.1 hb
  rw [Graph.position_eq_of_node? hi, Graph.position_eq_of_node? hj] at hposition
  exact Option.some.inj (hi.symm.trans (hposition ▸ hj))

/-- The node with the largest key is the next one. -/
theorem isNext_of_next? (h : next? g c = some a) : Greedy.IsNext g c a := by
  obtain ⟨ha, hopen⟩ := mem_openNodes.1 (List.argmax_mem h)
  refine ⟨ha, hopen, fun b hb hbopen hba => key_lt_key_iff.1 ?_⟩
  have hle : key g c b ≤ key g c a := List.le_of_mem_argmax (mem_openNodes.2 ⟨hb, hbopen⟩) h
  exact lt_of_le_of_ne hle fun heq => hba (eq_of_key_eq hb ha heq)

/-- **The plain coloring is a greedy run** that leaves no node open, or
that gets stuck if there is no result. -/
theorem complete_cases (g : Graph α) (palette : List Color) (c : Coloring α) :
    (complete g palette c = none ∧ ∃ d, Greedy.Run g palette c d ∧ Greedy.Stuck g d) ∨
      ∃ d, complete g palette c = some d ∧ Greedy.Run g palette c d ∧
        ∀ a ∈ g.nodes, d.get? a ≠ none := by
  fun_induction complete g palette c with
  | case1 c h =>
    refine .inr ⟨c, rfl, .refl, fun a ha hopen => ?_⟩
    have hmem := mem_openNodes.2 ⟨ha, hopen⟩
    rw [List.argmax_eq_none.1 h] at hmem
    exact List.not_mem_nil hmem
  | case2 c a h hfit =>
    rw [fit_worn] at hfit
    exact .inl ⟨rfl, c, .refl, a, isNext_of_next? h, Greedy.fit_eq_none_iff.1 hfit⟩
  | case3 c a h color hfit ih =>
    rw [fit_worn] at hfit
    have hstep : Greedy.Step g palette c (c.insert a color) := .color (isNext_of_next? h) hfit
    rcases ih with ⟨hnone, d, hrun, hstuck⟩ | ⟨d, hsome, hrun, hall⟩
    · exact .inl ⟨hnone, d, .head hstep hrun, hstuck⟩
    · exact .inr ⟨d, hsome, .head hstep hrun, hall⟩

end Plain

section Dsatur

variable {α : Type} [DecidableEq α] [ToString α] {g : Graph α} {seed : Coloring α}

/-- **The incremental coloring is the plain one.** For every valid seed
and every palette it gives the same nodes the same colors in the same
order, or has no result where the plain one has none. There is a result
if every open node has fewer neighbors than there are colors. -/
theorem dsaturWithStats_eq_plain (hseed : ValidSeed g seed) (palette : List Color) :
    (dsaturWithStats? g seed palette).map (Option.map Prod.fst) =
        .ok (Plain.complete g palette seed) ∧
      (∀ c, Plain.complete g palette seed = some c →
        ∃ stats, dsaturWithStats g seed palette = .ok (c, stats)) ∧
      (Plain.complete g palette seed = none ↔ ¬ DsaturEnds g seed palette) ∧
      ((∀ a ∈ g.nodes, seed.get? a = none → g.degree a < UInt32.size) →
        ∃ c stats, Plain.complete g palette seed = some c ∧
          dsaturWithStats g seed palette = .ok (c, stats)) := by
  rcases Plain.complete_cases g palette seed with ⟨hnone, hstuck⟩ | ⟨c, hc, hrun, hall⟩
  · have hends := (not_dsaturEnds_iff hseed).2 hstuck
    rw [hnone]
    refine ⟨?_, nofun, iff_of_true rfl hends, fun hdegree => ?_⟩
    · rw [not_not.1 hends]
      rfl
    · exact absurd (dsaturEnds_of_degree hseed hdegree) hends
  · have hends := dsaturEnds_of_run hseed hrun hall
    rcases dsaturWithStats?_cases hseed palette with ⟨hnone, -⟩ | ⟨d, hd, hrun', hall'⟩
    · exact absurd hnone hends
    · obtain rfl : c = d :=
        hrun.unique hrun' (Greedy.final_of_colored hall) (Greedy.final_of_colored hall')
      have hok := dsaturWithStats_eq_ok hd
      rw [hc, hd]
      refine ⟨rfl, ?_, iff_of_false (Option.some_ne_none c) (not_not.2 hends),
        fun _ => ⟨c, _, rfl, hok⟩⟩
      rintro _ ⟨⟩
      exact ⟨_, hok⟩

/-- On a path of four nodes the two inner ones come first, by degree; then
their neighbors, by saturation and position. -/
theorem dsaturWithStats_eq_plain_path :
    let g : Graph Nat := Graph.empty.joinAll [(1, 2), (2, 3), (3, 4)]
    ∃ c stats, Plain.complete g Color.threePalette .empty = some c ∧
      dsaturWithStats g .empty Color.threePalette = .ok (c, stats) ∧
      c.entries = [(2, .green), (3, .red), (1, .red), (4, .green)] := by
  intro g
  have hseed : ValidSeed g .empty := ⟨nofun, nofun⟩
  have hdegree : ∀ a ∈ g.nodes, g.degree a < UInt32.size := by decide +kernel
  obtain ⟨c, stats, hplain, hc⟩ := (dsaturWithStats_eq_plain hseed Color.threePalette).2.2.2
    fun a ha _ => hdegree a ha
  refine ⟨c, stats, hplain, hc, ?_⟩
  have hentries : (dsaturWithStats g .empty Color.threePalette).map (fun r => r.1.entries) =
      .ok [(2, .green), (3, .red), (1, .red), (4, .green)] := by decide +kernel
  rw [hc] at hentries
  exact Except.ok.inj hentries

end Dsatur

end Tricolor
