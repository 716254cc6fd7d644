import Mathlib.Data.Finset.Lattice.Fold
import Mathlib.Order.Lattice.Nat
import Tricolor.Proofs.Coloring.Dsatur

/-!
# Greedy colorings are minimal at every node

First fit prefers the colors of the palette in their order, and after
them all others by number (`preference`). It gives the first free color
of this list (`firstFit_eq_find?`), so the free color with the lowest
`place` (`place_firstFit_le`).

Colors once given stay, so at the end of a run each color that a node
would have preferred is worn by a neighbor of it (`Run.minimal`). A node
with `n` neighbors therefore wears one of the first `n + 1` colors of the
list, which bounds the number of colors by the largest degree. It also
keeps runs from getting stuck: a node with all colors around it has as
many neighbors that are seeded or have a large degree themselves
(`Run.size_le_of_full`).
-/

namespace Tricolor

variable {taken palette : List Color} {c d : Color}

/-! ## The order of preference -/

/-- The palette without repetitions and after it all colors that it
lacks, by number. -/
def preference (palette : List Color) : List Color :=
  palette.eraseDups ++ (Color.below UInt32.size).filter fun c => !palette.contains c

/-- The place of a color in this list, counted from 0. -/
def place (palette : List Color) (c : Color) : Nat := (preference palette).idxOf c

theorem mem_preference (palette : List Color) (c : Color) : c ∈ preference palette := by
  rw [preference, List.mem_append, List.mem_eraseDups, List.mem_filter]
  by_cases h : c ∈ palette
  · exact .inl h
  · exact .inr ⟨(Color.mem_below le_rfl).2 c.index_lt, by simpa using h⟩

theorem nodup_preference (palette : List Color) : (preference palette).Nodup := by
  refine List.nodup_append.2
    ⟨nodup_eraseDups palette, (Color.nodup_below le_rfl).filter _, fun c hc d hd => ?_⟩
  rintro rfl
  simp [List.mem_eraseDups.1 hc] at hd

theorem length_preference (palette : List Color) : (preference palette).length = UInt32.size := by
  have hperm : (preference palette).Perm (Color.below UInt32.size) :=
    (List.perm_ext_iff_of_nodup (nodup_preference palette) (Color.nodup_below le_rfl)).2 fun c =>
      iff_of_true (mem_preference palette c) ((Color.mem_below le_rfl).2 c.index_lt)
  rw [hperm.length_eq, Color.length_below]

theorem place_injective (palette : List Color) : Function.Injective (place palette) :=
  fun c _ heq => (List.idxOf_inj (mem_preference palette c)).1 heq

theorem place_lt (palette : List Color) (c : Color) : place palette c < UInt32.size :=
  length_preference palette ▸ List.idxOf_lt_length_of_mem (mem_preference palette c)

/-- Every place is that of a color. -/
theorem exists_place_eq (palette : List Color) {i : Nat} (hi : i < UInt32.size) :
    ∃ c, place palette c = i := by
  rw [← length_preference palette] at hi
  exact ⟨(preference palette)[i], (nodup_preference palette).idxOf_getElem i hi⟩

/-- **First fit gives the first free color of the list.** -/
theorem firstFit_eq_find? (taken palette : List Color) :
    firstFit taken palette = (preference palette).find? fun c => !taken.contains c := by
  rw [firstFit_eq_or, preference, List.find?_append, find?_eraseDups, List.find?_filter]
  simp only [Bool.decide_and, Bool.decide_eq_true]

/-- **First fit gives the free color with the lowest place.** -/
theorem place_firstFit_le (h : firstFit taken palette = some c) (hd : d ∉ taken) :
    place palette c ≤ place palette d := by
  rw [firstFit_eq_find?, List.find?_eq_some_iff_getElem] at h
  obtain ⟨-, i, hi, rfl, hbefore⟩ := h
  rw [place, place, (nodup_preference palette).idxOf_getElem]
  by_contra hlt
  have htaken := hbefore ((preference palette).idxOf d) (by omega)
  rw [List.getElem_idxOf] at htaken
  exact hd (by simpa using htaken)

/-! ## Minimal colorings -/

/-- The largest degree of a node. -/
def Graph.maxDegree {α : Type} [DecidableEq α] (g : Graph α) : Nat := g.nodes.toFinset.sup g.degree

namespace Greedy

variable {α : Type} [DecidableEq α] {g : Graph α} {seed c c' : Coloring α} {a : α} {color : Color}

/-- Every color with a lower place than that of a node is worn by a
neighbor of the node. -/
def MinimalAt (g : Graph α) (palette : List Color) (c : Coloring α) (a : α) (color : Color) :
    Prop :=
  ∀ d, place palette d < place palette color → ∃ b, g.hasEdge a b ∧ c.get? b = some d

/-- A coloring that is minimal at every node that the seed leaves open. -/
def Minimal (g : Graph α) (seed : Coloring α) (palette : List Color) (c : Coloring α) : Prop :=
  ∀ a color, c.get? a = some color → seed.get? a = none → MinimalAt g palette c a color

theorem MinimalAt.step (h : MinimalAt g palette c a color) (hstep : Step g palette c c') :
    MinimalAt g palette c' a color := by
  intro d hd
  obtain ⟨b, hab, hb⟩ := h d hd
  exact ⟨b, hab, hstep.get?_eq hb⟩

/-- First fit leaves no better color free. -/
theorem minimalAt_fit (h : fit g palette c a = some color) : MinimalAt g palette c a color := by
  intro d hd
  by_contra hfree
  have hnot : d ∉ around g c a := fun h => hfree (mem_around.1 h)
  exact Nat.not_le.2 hd (place_firstFit_le h hnot)

/-- **A step keeps a coloring minimal.** -/
theorem Step.minimal (hstep : Step g palette c c') (h : Minimal g seed palette c) :
    Minimal g seed palette c' := by
  intro b color hb hseed
  have hstep' := hstep
  obtain ⟨-, hfit⟩ := hstep
  rename_i a color'
  rw [Coloring.get?_insert] at hb
  split at hb
  · rename_i hba
    cases hb
    exact hba ▸ (minimalAt_fit hfit).step hstep'
  · exact (h b color hb hseed).step hstep'

/-- **A run ends with a minimal coloring.** -/
theorem Run.minimal (hrun : Run g palette seed c) : Minimal g seed palette c := by
  induction hrun with
  | refl =>
    intro a color ha hopen
    exact absurd (ha.symm.trans hopen) (Option.some_ne_none color)
  | tail _ hstep ih => exact hstep.minimal ih

/-! ## Counting colors -/

/-- The colors of lower places are worn by different neighbors. -/
theorem MinimalAt.place_le (h : MinimalAt g palette c a color) :
    place palette color ≤ g.degree a := by
  have hsub : List.range (place palette color) ⊆
      ((g.neighbors a).filterMap c.get?).map (place palette) := by
    intro i hi
    have hi := List.mem_range.1 hi
    obtain ⟨d, rfl⟩ := exists_place_eq palette (hi.trans (place_lt palette color))
    obtain ⟨b, hab, hb⟩ := h d hi
    exact List.mem_map_of_mem (List.mem_filterMap.2 ⟨b, Graph.mem_neighbors.2 hab, hb⟩)
  have hle := (List.nodup_range.subperm hsub).length_le
  rw [List.length_range, List.length_map] at hle
  rw [Graph.degree_eq_length_neighbors]
  exact hle.trans (List.length_filterMap_le _ _)

/-- Without a seed no more colors are worn than the largest degree and
one. -/
theorem Minimal.length_colorsUsed_le (h : Minimal g .empty palette c)
    (hknown : ∀ a ∈ c.nodes, a ∈ g.nodes) : c.colorsUsed.length ≤ g.maxDegree + 1 := by
  have hsub : c.colorsUsed.map (place palette) ⊆ List.range (g.maxDegree + 1) := by
    intro i hi
    obtain ⟨color, hcolor, rfl⟩ := List.mem_map.1 hi
    obtain ⟨a, ha⟩ := Coloring.mem_colorsUsed.1 hcolor
    have hmem := List.mem_toFinset.2 (hknown a (Coloring.mem_nodes_of_get? ha))
    have hdegree : g.degree a ≤ g.maxDegree := Finset.le_sup hmem
    have hplace := (h a color ha rfl).place_le
    exact List.mem_range.2 (by omega)
  have hnodup := c.nodup_colorsUsed.map (place_injective palette)
  have hle := (hnodup.subperm hsub).length_le
  rwa [List.length_map, List.length_range] at hle

/-! ## Room for every node -/

/-- **What surrounds a node without a color left.** Beside the first
`n + 1` colors, the others are worn by neighbors that are seeded or have
more than `n` neighbors themselves. -/
theorem Run.size_le_of_full (hrun : Run g palette seed c) (hfull : Full g c a) (n : Nat) :
    UInt32.size ≤
      n + 1 + ((g.neighbors a).filter fun b => seed.contains b || n < g.degree b).length := by
  generalize hlarge : ((g.neighbors a).filter fun b => seed.contains b || n < g.degree b) = large
  have hsub : List.range UInt32.size ⊆
      List.range (n + 1) ++ (large.filterMap c.get?).map (place palette) := by
    intro i hi
    obtain ⟨d, rfl⟩ := exists_place_eq palette (List.mem_range.1 hi)
    obtain ⟨b, hab, hb⟩ := mem_around.1 (hfull d)
    rw [List.mem_append]
    by_cases hopen : seed.contains b || n < g.degree b
    · refine .inr (List.mem_map_of_mem (List.mem_filterMap.2 ⟨b, ?_, hb⟩))
      exact hlarge ▸ List.mem_filter.2 ⟨Graph.mem_neighbors.2 hab, hopen⟩
    · -- the neighbor was colored by the run, so its place is at most its degree
      simp only [Coloring.contains, Bool.or_eq_true, Option.isSome_iff_ne_none, ne_eq,
        decide_eq_true_eq, not_or, not_not, Nat.not_lt] at hopen
      have hle := (hrun.minimal b d hb hopen.1).place_le
      exact .inl (List.mem_range.2 (by omega))
  have hle := (List.nodup_range.subperm hsub).length_le
  rw [List.length_append, List.length_range, List.length_range, List.length_map] at hle
  exact hle.trans (Nat.add_le_add_left (List.length_filterMap_le _ _) _)

end Greedy

section Dsatur

variable {α : Type} [DecidableEq α] [ToString α] {g : Graph α} {seed : Coloring α}

/-- **The greedy coloring is minimal at every node.** Whatever the
palette, a call that ends gives every node that the seed leaves open a
color that is preferred to all others but those that its neighbors wear.
So its color is among as many first ones as it has neighbors, and one
more; without a seed there are at most as many colors as the largest
degree, and one more. The call ends if every open node has fewer
neighbors than there are colors. -/
theorem dsatur_minimal (hseed : ValidSeed g seed) (palette : List Color) :
    (DsaturEnds g seed palette → ∃ c, dsatur g seed palette = .ok c ∧
      (∀ a ∈ g.nodes, seed.get? a = none → ∃ color, c.get? a = some color ∧
        (∀ d, place palette d < place palette color → ∃ b, g.hasEdge a b ∧ c.get? b = some d) ∧
        place palette color < g.degree a + 1) ∧
      (seed = .empty → c.colorsUsed.length ≤ g.maxDegree + 1)) ∧
      ((∀ a ∈ g.nodes, seed.get? a = none → g.degree a < UInt32.size) →
        DsaturEnds g seed palette) := by
  refine ⟨fun hends => ?_, dsaturEnds_of_degree hseed⟩
  obtain ⟨c, hc, hrun, hall⟩ := dsatur_run hseed hends
  refine ⟨c, hc, fun a ha hopen => ?_, ?_⟩
  · obtain ⟨color, hcolor⟩ := Option.ne_none_iff_exists'.1 (hall a ha)
    have hminimal := hrun.minimal a color hcolor hopen
    exact ⟨color, hcolor, hminimal, Nat.lt_succ_of_le hminimal.place_le⟩
  · rintro rfl
    exact hrun.minimal.length_colorsUsed_le (hrun.validSeed hseed).known

/-- A triangle with a node hanging from it, and a palette that names blue
twice: its corners wear blue and the first two numbers. -/
theorem dsatur_minimal_pendant :
    let g : Graph Nat := Graph.empty.joinAll [(1, 2), (2, 3), (3, 1), (3, 4)]
    ∃ c, dsatur g .empty [.blue, .blue] = .ok c ∧
      (∀ a ∈ g.nodes, ∃ color, c.get? a = some color ∧
        (∀ d, place [.blue, .blue] d < place [.blue, .blue] color →
          ∃ b, g.hasEdge a b ∧ c.get? b = some d) ∧
        place [.blue, .blue] color < g.degree a + 1) ∧
      c.colorsUsed.length ≤ 4 := by
  intro g
  have hseed : ValidSeed g .empty := ⟨nofun, nofun⟩
  obtain ⟨hresult, hends⟩ := dsatur_minimal hseed [.blue, .blue]
  have hall : ∀ a ∈ g.nodes, g.degree a < UInt32.size := by decide +kernel
  obtain ⟨c, hc, hminimal, hlength⟩ := hresult (hends fun a ha _ => hall a ha)
  have hdegree : g.maxDegree = 3 := by decide +kernel
  rw [hdegree] at hlength
  exact ⟨c, hc, fun a ha => hminimal a ha rfl, hlength rfl⟩

end Dsatur

end Tricolor
