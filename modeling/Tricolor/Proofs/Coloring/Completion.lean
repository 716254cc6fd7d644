import Tricolor.Proofs.Coloring.Dsatur
import Tricolor.Proofs.Graph.Growth

/-!
# Greedy completion is total and proper

The greedy coloring refuses a seed only if it is not valid. Every other
seed it completes, whatever the palette, unless a run comes to a node that
has all colors around it, for which there must be a node with as many
neighbors as there are colors (`not_dsaturEnds_star` is such a case). A
run that ends has emptied its agenda. A step opens no node and closes one
(`Step.length_openPositions_add_size`), and it goes past the palette by
the lowest numbers only (`Step.within`). So the result colors each node
once, and the statistics count what was done (`dsaturWithStats_total`).
-/

namespace Tricolor

variable {α : Type} [DecidableEq α] {g : Graph α} {seed c c' : Coloring α}
variable {palette : List Color} {a : α} {color : Color}

/-! ## How far the colors go -/

namespace Greedy

/-- The colors that a completion of a seed may wear: those of the seed,
those of the palette, and numbers below the size of graph and palette. -/
def Within (g : Graph α) (seed : Coloring α) (palette : List Color) (c : Coloring α) : Prop :=
  ∀ a color, c.get? a = some color →
    seed.get? a = some color ∨ color ∈ palette ∨ color.index < g.nodeCount + palette.length

theorem Step.within (h : Step g palette c c') (hc : Within g seed palette c) :
    Within g seed palette c' := by
  obtain ⟨hnext, hfit⟩ := h
  rename_i a color
  intro b color' hb
  rw [Coloring.get?_insert] at hb
  split at hb
  · cases hb
    have hlt := Graph.length_neighbors_lt hnext.mem
    have hle := length_around_le g c a
    rcases firstFit_mem_or_le hfit with hmem | hindex
    · exact .inr (.inl hmem)
    · exact .inr (.inr (by omega))
  · exact hc b color' hb

theorem Run.within (h : Run g palette seed c) : Within g seed palette c := by
  induction h with
  | refl => exact fun _ _ => .inl
  | tail _ hstep ih => exact hstep.within ih

/-! ## What a run counts -/

open DsaturState (openPositions perm_openPositions)

/-- A step takes one node from the open ones to the colored ones. -/
theorem Step.length_openPositions_add_size (h : Step g palette c c') :
    (openPositions g c').length + c'.size = (openPositions g c).length + c.size := by
  obtain ⟨hnext, -⟩ := h
  rename_i a color
  obtain ⟨i, hi⟩ := Graph.mem_nodes_iff.1 hnext.mem
  have hlength := (perm_openPositions hi hnext.isOpen color).length_eq
  rw [List.length_cons] at hlength
  rw [Coloring.size_insert hnext.isOpen]
  omega

theorem Run.length_openPositions_add_size (h : Run g palette c c') :
    (openPositions g c').length + c'.size = (openPositions g c).length + c.size := by
  induction h with
  | refl => rfl
  | tail _ hstep ih => exact hstep.length_openPositions_add_size.trans ih

end Greedy

theorem DsaturState.openPositions_eq_nil (hall : ∀ a ∈ g.nodes, c.get? a ≠ none) :
    openPositions g c = [] := by
  refine List.eq_nil_iff_forall_not_mem.2 fun i hi => ?_
  obtain ⟨a, ha, hopen⟩ := exists_of_mem_openPositions hi
  exact hall a (Graph.mem_nodes_iff.2 ⟨i, ha⟩) hopen

section Total

variable [ToString α]

/-- What the greedy coloring gives for a seed: every node of the graph is
colored once, the seed is kept, no edge wears one color, and the
statistics tell how many nodes the seed and the run have colored and how
many colors are worn. -/
structure Completes (g : Graph α) (seed : Coloring α) (palette : List Color) (c : Coloring α)
    (stats : DsaturStats) : Prop where
  nodes : c.nodes.Perm g.nodes
  keeps : ∀ a color, seed.get? a = some color → c.get? a = some color
  proper : isProper g c
  within : Greedy.Within g seed palette c
  seeded : stats.seeded = seed.size
  selections : stats.seeded + stats.selections = g.nodeCount
  colorsUsed : stats.colorsUsed = (c.entries.map Prod.snd).toFinset.card

/-- **A valid seed is completed** by a call that ends. -/
theorem exists_completes (hseed : ValidSeed g seed) (hends : DsaturEnds g seed palette) :
    ∃ c stats, dsaturWithStats g seed palette = .ok (c, stats) ∧
      Completes g seed palette c stats := by
  obtain ⟨c, hc, hrun, hall⟩ := dsaturWithStats_run hseed hends
  have hnodes := (hrun.validSeed hseed).perm_nodes hall
  refine ⟨c, _, hc, hnodes, fun _ _ => hrun.get?_eq, isProper_iff.2 (hrun.proper hseed hall),
    hrun.within, rfl, ?_, c.length_colorsUsed⟩
  have hcount := hrun.length_openPositions_add_size
  rw [DsaturState.openPositions_eq_nil hall, ← Coloring.length_nodes, hnodes.length_eq,
    Graph.length_nodes, List.length_nil, Nat.zero_add] at hcount
  rw [hcount, Nat.add_comm, DsaturStats.of]

/-- **A call that does not end.** In a star with a leaf for every color
that wears it, no color is left for the center, whatever the palette. So
the bound on the degrees cannot be relaxed. -/
theorem not_dsaturEnds_star (palette : List Color) :
    let colors := Color.below UInt32.size
    let g : Graph (Option Color) := Graph.empty.joinAll (colors.map fun c => (none, some c))
    let seed : Coloring (Option Color) := .ofList (colors.map fun c => (some c, c))
    ValidSeed g seed ∧ ¬ DsaturEnds g seed palette := by
  intro colors g seed
  have hcolor : ∀ c, c ∈ colors := fun c => (Color.mem_below le_rfl).2 c.index_lt
  have hnodup : colors.Nodup := Color.nodup_below le_rfl
  clear_value colors
  have hne : ∀ e ∈ colors.map fun c => ((none, some c) : Option Color × Option Color),
      e.1 ≠ e.2 := by simp
  have hedge : ∀ a b, g.hasEdge a b ↔
      a = none ∧ (∃ c, b = some c) ∨ b = none ∧ ∃ c, a = some c := by
    intro a b
    rw [Graph.hasEdge_joinAll hne, or_iff_right (Graph.not_hasEdge_empty a b)]
    simp [hcolor, eq_comm]
  have hentries : seed.entries = colors.map fun c => (some c, c) := by
    refine Coloring.entries_ofList ?_
    rw [List.map_map]
    exact hnodup.map fun c d h => Option.some.inj h
  have hworn : ∀ a c, seed.get? a = some c ↔ a = some c := by
    intro a c
    rw [Coloring.get?_eq_some_iff, hentries]
    simp [hcolor, eq_comm]
  have hcenter : seed.get? none = none := by
    refine Option.eq_none_iff_forall_ne_some.2 fun c hc => ?_
    cases (hworn none c).1 hc
  have hseed : ValidSeed g seed := by
    refine ⟨fun a ha => ?_, fun a b c hab ha hb => ?_⟩
    · obtain ⟨c, hc⟩ := Coloring.mem_nodes_iff.1 ha
      exact (Graph.mem_nodes_of_hasEdge ((hedge a none).2 (.inr ⟨rfl, c, (hworn a c).1 hc⟩))).1
    · exact Graph.ne_of_hasEdge hab (((hworn a c).1 ha).trans ((hworn b c).1 hb).symm)
  refine ⟨hseed, (not_dsaturEnds_iff hseed).2 ⟨seed, .refl, none, ⟨?_, hcenter, ?_⟩, fun c => ?_⟩⟩
  · exact (Graph.mem_nodes_of_hasEdge ((hedge none (some .green)).2 (.inl ⟨rfl, _, rfl⟩))).1
  · rintro (_ | c) - hopen hother
    · exact absurd rfl hother
    · rw [(hworn (some c) c).2 rfl] at hopen
      cases hopen
  · exact Greedy.mem_around.2 ⟨some c, (hedge _ _).2 (.inl ⟨rfl, c, rfl⟩), (hworn _ c).2 rfl⟩

end Total

end Tricolor
