import Tricolor.Proofs.Coloring.Backtrack
import Tricolor.Proofs.Coloring.Completion
import Tricolor.Proofs.Coloring.Recoloring

/-!
# Oracles do not read the numbers of colors

A renaming sends the palette of one call to that of another, entry by
entry, and the colors outside the one palette to those outside the other
in their order (`Renames`). First fit follows such a renaming, past the
palette as well, and so do the greedy run and the statistics it leaves
(`dsaturWithStats_recolor`). Backtracking works with positions of the
palette, so it follows every injective renaming, step for step
(`Backtrack.color_recolor`).
-/

namespace Tricolor

variable {α : Type} [DecidableEq α] {g : Graph α} {c c' seed : Coloring α}
variable {ρ : Color → Color} {taken palette palette' : List Color} {a : α}

/-- A renaming of colors that carries a palette over to another one, and
keeps the order of the colors outside. -/
structure Renames (ρ : Color → Color) (palette palette' : List Color) : Prop where
  injective : Function.Injective ρ
  map_palette : palette.map ρ = palette'
  /-- Colors outside the palette keep their order. -/
  mono : ∀ c d, c ∉ palette → d ∉ palette → c.index ≤ d.index → (ρ c).index ≤ (ρ d).index
  /-- No color outside the other palette is left out. -/
  onto : ∀ d, d ∉ palette' → ∃ c, ρ c = d

theorem Renames.mem_iff (h : Renames ρ palette palette') {c : Color} :
    ρ c ∈ palette' ↔ c ∈ palette := by
  rw [← h.map_palette, List.mem_map_of_injective h.injective]

/-! ## The greedy rule -/

/-- **First fit follows a renaming.** -/
theorem Renames.firstFit (h : Renames ρ palette palette')
    {c : Color} (hc : firstFit taken palette = some c) :
    firstFit (taken.map ρ) palette' = some (ρ c) := by
  have hfind : (palette'.find? fun c => !(taken.map ρ).contains c) =
      (palette.find? fun c => !taken.contains c).map ρ := by
    rw [← h.map_palette, List.find?_map]
    congr 1
    refine congrArg (List.find? · palette) (funext fun c => ?_)
    simp only [Function.comp, List.contains_eq_mem, List.mem_map_of_injective h.injective]
  cases hfirst : palette.find? fun c => !taken.contains c with
  | some d =>
    rw [hfirst] at hfind
    rw [firstFit_of_find? hfirst] at hc
    rw [firstFit_of_find? hfind, Option.some.inj hc]
  | none =>
    rw [hfirst] at hfind
    have hused := find?_eq_none_iff.1 hfirst
    have hused' := find?_eq_none_iff.1 hfind
    obtain ⟨hfree, hmin⟩ := (firstFit_eq_some_iff_lowest hused).1 hc
    refine (firstFit_eq_some_iff_lowest hused').2
      ⟨mt (List.mem_map_of_injective h.injective).1 hfree, fun d hd => ?_⟩
    -- a free color has a free one before renaming, which does not come earlier
    obtain ⟨e, rfl⟩ := h.onto d (mt (hused' d) hd)
    have he := mt (List.mem_map_of_injective h.injective).2 hd
    exact h.mono _ _ (mt (hused _) hfree) (mt (hused _) he) (hmin e he)

namespace Greedy

theorem around_recolor (hρ : Function.Injective ρ) :
    around g (c.recolor ρ) a = (around g c a).map ρ := by
  have hworn : (g.neighbors a).filterMap (c.recolor ρ).get? =
      ((g.neighbors a).filterMap c.get?).map ρ := by
    rw [List.map_filterMap]
    exact List.filterMap_congr fun b _ => Coloring.get?_recolor
  rw [around, around, hworn, eraseDups_map hρ]

theorem rank_recolor (hρ : Function.Injective ρ) : rank g (c.recolor ρ) a = rank g c a := by
  rw [rank, rank, around_recolor hρ, List.length_map]

theorem IsNext.recolor (h : IsNext g c a) (hρ : Function.Injective ρ) :
    IsNext g (c.recolor ρ) a where
  mem := h.mem
  isOpen := by rw [Coloring.get?_recolor, h.isOpen, Option.map_none]
  first b hb hopen hba := by
    rw [Coloring.get?_recolor, Option.map_eq_none_iff] at hopen
    rw [rank_recolor hρ, rank_recolor hρ]
    exact h.first b hb hopen hba

/-- A step in one palette is a step in the other. -/
theorem Step.recolor (h : Step g palette c c') (hρ : Renames ρ palette palette') :
    Step g palette' (c.recolor ρ) (c'.recolor ρ) := by
  obtain ⟨hnext, hfit⟩ := h
  rename_i a color
  have hfit' : fit g palette' (c.recolor ρ) a = some (ρ color) := by
    rw [fit, around_recolor hρ.injective]
    exact hρ.firstFit hfit
  rw [← Coloring.recolor_insert]
  exact .color (hnext.recolor hρ.injective) hfit'

theorem Run.recolor (h : Run g palette c c') (hρ : Renames ρ palette palette') :
    Run g palette' (c.recolor ρ) (c'.recolor ρ) := by
  induction h with
  | refl => exact .refl
  | tail _ hstep ih => exact ih.tail (hstep.recolor hρ)

end Greedy

variable [ToString α]

/-- **The greedy coloring follows a renaming**, and so do its
statistics. -/
theorem dsaturWithStats_recolor (hρ : Renames ρ palette palette') (hseed : ValidSeed g seed)
    (hends : DsaturEnds g seed palette) :
    dsaturWithStats g (seed.recolor ρ) palette' =
      (dsaturWithStats g seed palette).map fun (c, stats) => (c.recolor ρ, stats) := by
  obtain ⟨c, hc, hrun, hall⟩ := dsaturWithStats_run hseed hends
  have hrun' := hrun.recolor hρ
  have hall' : ∀ a ∈ g.nodes, (c.recolor ρ).get? a ≠ none := by
    intro a ha
    rw [Coloring.get?_recolor, Ne, Option.map_eq_none_iff]
    exact hall a ha
  have hseed' := hseed.recolor hρ.injective
  obtain ⟨c', hc', hrun'', hall''⟩ :=
    dsaturWithStats_run hseed' (dsaturEnds_of_run hseed' hrun' hall')
  obtain rfl := hrun''.unique hrun' (Greedy.final_of_colored hall'') (Greedy.final_of_colored hall')
  have hopen : DsaturState.openPositions g (seed.recolor ρ) =
      DsaturState.openPositions g seed := by
    simp only [DsaturState.openPositions, Coloring.contains_recolor]
  rw [hc, hc', DsaturStats.of, DsaturStats.of, hopen, Coloring.size_recolor,
    Coloring.length_colorsUsed_recolor hρ.injective]
  rfl

/-! ## Backtracking -/

namespace Backtrack

theorem idxOf?_map_of_injective (hρ : Function.Injective ρ) (c : Color) :
    (palette.map ρ).idxOf? (ρ c) = palette.idxOf? c := by
  rw [List.idxOf?, List.findIdx?_map, List.idxOf?]
  congr 1
  funext d
  simp only [Function.comp, beq_eq_decide, hρ.eq_iff]

/-- A seed is planted by its positions in the palette. -/
theorem plant_recolor (hρ : Function.Injective ρ) {entries : List (α × Color)}
    (hpalette : ∀ e ∈ entries, e.2 ∈ palette) (adj : Adjacency) (s : Search) :
    plant g adj (palette.map ρ) (entries.map fun e => (e.1, ρ e.2)) s =
      plant g adj palette entries s := by
  induction entries generalizing s with
  | nil => rfl
  | cons e entries ih =>
    obtain ⟨i, hi⟩ := exists_idxOf? (hpalette e (.head entries))
    have hrest := ih fun e he => hpalette e (.tail _ he)
    simp only [List.map_cons, plant, idxOf?_map_of_injective hρ, hi, hrest]

omit [ToString α] in
theorem readColoring_recolor (palette : List Color) (s : Search) :
    readColoring g (palette.map ρ) s = (readColoring g palette s).recolor ρ := by
  rw [readColoring, readColoring, ← Coloring.recolor_ofList, List.map_filterMap]
  refine congrArg Coloring.ofList (List.filterMap_congr fun (a, i) _ => ?_)
  cases hchoice : s.choice? i with
  | none => simp only [hchoice, Option.bind_none, Option.map_none]
  | some c =>
    simp only [hchoice, Option.bind_some, List.getElem?_map, Option.map_map, Function.comp_def]

/-- **Backtracking follows a renaming**, in as many steps. -/
theorem color_recolor (limit : Option Nat) (hρ : Function.Injective ρ) (hseed : ValidSeed g seed)
    (hpalette : ∀ a color, seed.get? a = some color → color ∈ palette) :
    color limit g (seed.recolor ρ) (palette.map ρ) =
      ((color limit g seed palette).1.map (Option.map (Coloring.recolor ρ)),
        (color limit g seed palette).2) := by
  have hplant : plant g g.adjacency (palette.map ρ) (seed.recolor ρ).entries
        (.start g.nodeCount palette.length) =
      plant g g.adjacency palette seed.entries (.start g.nodeCount palette.length) :=
    plant_recolor hρ (fun e he => hpalette e.1 e.2 (Coloring.get?_eq_some_iff.2 he)) _ _
  rw [color, color, validateSeed_eq_ok_iff.2 hseed,
    validateSeed_eq_ok_iff.2 (hseed.recolor hρ), List.length_map]
  by_cases hsize : maxPalette < palette.length
  · simp only [if_pos hsize, Except.map]
  · simp only [if_neg hsize, hplant]
    cases plant g g.adjacency palette seed.entries (.start g.nodeCount palette.length) with
    | error e => rfl
    | ok s? =>
      cases s? with
      | none => rfl
      | some s =>
        simp only
        generalize s.solve g.adjacency limit g.nodeCount = r
        obtain ⟨answer, s⟩ := r
        cases answer with
        | error e => rfl
        | ok found =>
          cases found with
          | false => rfl
          | true => simp only [readColoring_recolor, Except.map, Option.map_some]

end Backtrack

end Tricolor
