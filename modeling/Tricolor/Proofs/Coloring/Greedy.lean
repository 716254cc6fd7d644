import Mathlib.Logic.Relation
import Tricolor.Proofs.Coloring.Agenda
import Tricolor.Proofs.Coloring.FirstFit
import Tricolor.Proofs.Coloring.Proper

/-!
# The greedy rule

The rule of the greedy coloring without its bookkeeping: of the open
nodes the one is next whose rank, counted afresh from the coloring, comes
before all others, and it takes the first color that its neighbors leave
free. A run repeats this. Whatever the palette, a run started from a
valid seed keeps it valid, so a run that leaves no node open ends with a
proper coloring. A run goes no further if the next node has all colors
there are around it (`Stuck`), for which it needs as many neighbors
(`size_le_degree_of_full`). The rule leaves no choice, so a seed is
completed in one way only, or runs into one such node (`Run.unique`).
-/

namespace Tricolor

namespace Greedy

variable {α : Type} [DecidableEq α] {g : Graph α} {c c' : Coloring α} {palette : List Color}
variable {a b : α} {color : Color}

/-- The colors that the colored neighbors of a node wear, each once. -/
def around (g : Graph α) (c : Coloring α) (a : α) : List Color :=
  ((g.neighbors a).filterMap c.get?).eraseDups

/-- The rank of a node under a coloring. -/
def rank (g : Graph α) (c : Coloring α) (a : α) : Rank :=
  ⟨(around g c a).length, (g.neighbors a).length, g.position a⟩

/-- An open node whose rank comes before that of any other open node. -/
structure IsNext (g : Graph α) (c : Coloring α) (a : α) : Prop where
  mem : a ∈ g.nodes
  isOpen : c.get? a = none
  first : ∀ b ∈ g.nodes, c.get? b = none → b ≠ a → (rank g c a).before (rank g c b)

/-- The color that first fit gives a node, if one is left. -/
def fit (g : Graph α) (palette : List Color) (c : Coloring α) (a : α) : Option Color :=
  firstFit (around g c a) palette

/-- The next node is colored by first fit. -/
inductive Step (g : Graph α) (palette : List Color) : Coloring α → Coloring α → Prop
  | color {c : Coloring α} {a : α} {color : Color} :
      IsNext g c a → fit g palette c a = some color → Step g palette c (c.insert a color)

/-- Steps one after the other. -/
abbrev Run (g : Graph α) (palette : List Color) : Coloring α → Coloring α → Prop :=
  Relation.ReflTransGen (Step g palette)

theorem mem_around : color ∈ around g c a ↔ ∃ b, g.hasEdge a b ∧ c.get? b = some color := by
  simp only [around, List.mem_eraseDups, List.mem_filterMap, Graph.mem_neighbors]

theorem nodup_around (g : Graph α) (c : Coloring α) (a : α) : (around g c a).Nodup :=
  nodup_eraseDups _

theorem length_around_le (g : Graph α) (c : Coloring α) (a : α) :
    (around g c a).length ≤ (g.neighbors a).length := by
  have hsub : around g c a ⊆ (g.neighbors a).filterMap c.get? := fun _ => List.mem_eraseDups.1
  exact ((nodup_around g c a).subperm hsub).length_le.trans (List.length_filterMap_le _ _)

theorem fit_ne (h : fit g palette c a = some color) (hab : g.hasEdge a b) :
    c.get? b ≠ some color :=
  fun hb => firstFit_not_mem h (mem_around.2 ⟨b, hab, hb⟩)

/-! ## Nodes without a color left -/

/-- A node that has all colors there are around it. -/
def Full (g : Graph α) (c : Coloring α) (a : α) : Prop := ∀ color, color ∈ around g c a

/-- A coloring that goes no further: the next node has no color left. -/
def Stuck (g : Graph α) (c : Coloring α) : Prop := ∃ a, IsNext g c a ∧ Full g c a

theorem fit_eq_none_iff : fit g palette c a = none ↔ Full g c a := firstFit_eq_none_iff

theorem size_le_length_around (h : Full g c a) : UInt32.size ≤ (around g c a).length := by
  exact le_length_of_taken le_rfl fun color _ => h color

/-- **A node without a color left has as many neighbors as there are
colors.** -/
theorem size_le_degree_of_full (h : Full g c a) : UInt32.size ≤ g.degree a := by
  rw [Graph.degree_eq_length_neighbors]
  exact (size_le_length_around h).trans (length_around_le g c a)

/-! ## What steps keep -/

/-- **A step keeps a partial coloring valid.** -/
theorem Step.validSeed (h : Step g palette c c') (hc : ValidSeed g c) : ValidSeed g c' := by
  obtain ⟨hnext, hfit⟩ := h
  rename_i a color
  refine ⟨fun b hb => ?_, fun b d color hbd hb hd => ?_⟩
  · by_cases hba : b = a
    · exact hba ▸ hnext.mem
    · obtain ⟨color, hcolor⟩ := Coloring.mem_nodes_iff.1 hb
      rw [Coloring.get?_insert_of_ne hba] at hcolor
      exact hc.known b (Coloring.mem_nodes_of_get? hcolor)
  · rw [Coloring.get?_insert] at hb hd
    split at hb <;> split at hd
    · rename_i hba hda
      exact Graph.ne_of_hasEdge hbd (hba.trans hda.symm)
    · rename_i hba _
      cases hb
      exact fit_ne hfit (hba ▸ hbd) hd
    · rename_i hda
      cases hd
      exact fit_ne hfit (hda ▸ Graph.hasEdge_symm hbd) hb
    · exact hc.distinct b d color hbd hb hd

theorem Step.get?_eq (h : Step g palette c c') (ha : c.get? a = some color) :
    c'.get? a = some color := by
  obtain ⟨hnext, -⟩ := h
  rw [Coloring.get?_insert_of_ne]
  · exact ha
  · rintro rfl
    rw [hnext.isOpen] at ha
    cases ha

theorem Run.validSeed (h : Run g palette c c') (hc : ValidSeed g c) : ValidSeed g c' := by
  induction h with
  | refl => exact hc
  | tail _ hstep ih => exact hstep.validSeed ih

/-- A run keeps the colors of the nodes that are colored. -/
theorem Run.get?_eq (h : Run g palette c c') (ha : c.get? a = some color) :
    c'.get? a = some color := by
  induction h with
  | refl => exact ha
  | tail _ hstep ih => exact hstep.get?_eq ih

/-- A node that a run leaves open was open before. -/
theorem Run.get?_eq_none (h : Run g palette c c') (hopen : c'.get? a = none) :
    c.get? a = none := by
  refine Option.eq_none_iff_forall_ne_some.2 fun color ha => ?_
  exact Option.some_ne_none color ((h.get?_eq ha).symm.trans hopen)

/-- **A run that leaves no node open gives a proper coloring.** -/
theorem Run.proper (h : Run g palette c c') (hc : ValidSeed g c)
    (hall : ∀ a ∈ g.nodes, c'.get? a ≠ none) : Proper g c' where
  colored a ha := Option.ne_none_iff_exists'.1 (hall a ha)
  distinct a b hab heq := by
    obtain ⟨color, hcolor⟩ :=
      Option.ne_none_iff_exists'.1 (hall a (Graph.mem_nodes_of_hasEdge hab).1)
    exact (h.validSeed hc).distinct a b color hab hcolor (heq ▸ hcolor)

/-! ## The rule leaves no choice -/

theorem IsNext.unique (ha : IsNext g c a) (hb : IsNext g c b) : a = b := by
  by_contra hab
  have hfirst := ha.first b hb.mem hb.isOpen (Ne.symm hab)
  have hfirst' := hb.first a ha.mem ha.isOpen hab
  exact Rank.before_irrefl _ (Rank.before_trans hfirst hfirst')

theorem Step.unique {d d' : Coloring α} (h : Step g palette c d) (h' : Step g palette c d') :
    d = d' := by
  obtain ⟨ha, hfit⟩ := h
  obtain ⟨hb, hfit'⟩ := h'
  obtain rfl := ha.unique hb
  rw [Option.some.inj (hfit.symm.trans hfit')]

/-- A coloring from which the rule goes no further. -/
def Final (g : Graph α) (palette : List Color) (c : Coloring α) : Prop :=
  ∀ c', ¬ Step g palette c c'

/-- A coloring of all nodes is final. -/
theorem final_of_colored (hall : ∀ a ∈ g.nodes, c.get? a ≠ none) : Final g palette c := by
  rintro _ ⟨hnext, -⟩
  exact hall _ hnext.mem hnext.isOpen

theorem Stuck.final (h : Stuck g c) : Final g palette c := by
  rintro _ ⟨hnext, hfit⟩
  obtain ⟨a, ha, hfull⟩ := h
  obtain rfl := hnext.unique ha
  rw [fit_eq_none_iff.2 hfull] at hfit
  cases hfit

/-- A stuck coloring has left a node open. -/
theorem Stuck.not_colored (h : Stuck g c) : ¬ ∀ a ∈ g.nodes, c.get? a ≠ none := by
  obtain ⟨a, ha, -⟩ := h
  exact fun hall => hall a ha.mem ha.isOpen

/-- **A seed runs to one end only.** -/
theorem Run.unique {d d' : Coloring α} (h : Run g palette c d) (h' : Run g palette c d')
    (hfinal : Final g palette d) (hfinal' : Final g palette d') : d = d' := by
  induction h using Relation.ReflTransGen.head_induction_on with
  | refl =>
    rcases h'.cases_head with rfl | ⟨e, hstep, -⟩
    · rfl
    · exact absurd hstep (hfinal e)
  | head hstep _ ih =>
    rcases h'.cases_head with rfl | ⟨e, hstep', hrest⟩
    · exact absurd hstep (hfinal' _)
    · exact ih (hstep.unique hstep' ▸ hrest)

/-- **A run that completes its seed** passes no stuck coloring. -/
theorem Run.not_stuck {d d' : Coloring α} (h : Run g palette c d)
    (hall : ∀ a ∈ g.nodes, d.get? a ≠ none) (h' : Run g palette c d') : ¬ Stuck g d' := by
  intro hstuck
  obtain rfl := h.unique h' (final_of_colored hall) hstuck.final
  exact hstuck.not_colored hall

end Greedy

end Tricolor
