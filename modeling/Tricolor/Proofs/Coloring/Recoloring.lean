import Tricolor.Proofs.Coloring.Proper

/-!
# Recoloring

Colors are names, so a coloring may be recolored: every node keeps its
place and its color is replaced by another one. If different colors stay
different, nothing is lost that depends on which nodes wear the same
color: a proper coloring stays proper, a seed stays valid, and as many
colors are in use (`isProper_recolor`, `validSeed_recolor`,
`length_colorsUsed_recolor`).
-/

namespace Tricolor

variable {α : Type} {ρ : Color → Color}

namespace Coloring

/-- Replaces every color, and keeps the nodes in their order. -/
def recolor (ρ : Color → Color) (c : Coloring α) : Coloring α where
  entries := c.entries.map fun e => (e.1, ρ e.2)
  entries_nodup := by
    rw [List.map_map]
    exact c.entries_nodup

variable {c c' : Coloring α} {a : α} {color : Color}

/-- A coloring is its entries. -/
theorem eq_of_entries (h : c.entries = c'.entries) : c = c' := by
  cases c
  cases c'
  cases h
  rfl

theorem size_recolor : (c.recolor ρ).size = c.size := List.length_map _

theorem nodes_recolor : (c.recolor ρ).nodes = c.nodes := List.map_map

theorem length_colorsUsed_recolor (hρ : Function.Injective ρ) :
    (c.recolor ρ).colorsUsed.length = c.colorsUsed.length := by
  have himage : ((c.recolor ρ).entries.map Prod.snd).toFinset =
      (c.entries.map Prod.snd).toFinset.image ρ := by
    ext color
    simp only [recolor, List.map_map, List.mem_toFinset, Finset.mem_image, List.mem_map,
      Function.comp]
    constructor
    · rintro ⟨e, he, rfl⟩
      exact ⟨e.2, ⟨e, he, rfl⟩, rfl⟩
    · rintro ⟨_, ⟨e, he, rfl⟩, rfl⟩
      exact ⟨e, he, rfl⟩
  rw [length_colorsUsed, length_colorsUsed, himage, Finset.card_image_of_injective _ hρ]

variable [DecidableEq α]

theorem get?_recolor : (c.recolor ρ).get? a = (c.get? a).map ρ := by
  have hlookup : ∀ entries : List (α × Color),
      (entries.map fun e => (e.1, ρ e.2)).lookup a = (entries.lookup a).map ρ := by
    intro entries
    induction entries with
    | nil => rfl
    | cons e entries ih =>
      rw [List.map_cons, List.lookup_cons, List.lookup_cons, ih]
      cases a == e.1 <;> rfl
  exact hlookup c.entries

theorem contains_recolor : (c.recolor ρ).contains a = c.contains a := by
  rw [contains, contains, get?_recolor, Option.isSome_map]

theorem recolor_insert : (c.recolor ρ).insert a (ρ color) = (c.insert a color).recolor ρ := by
  refine eq_of_entries ?_
  by_cases h : c.contains a
  · have h' : (c.recolor ρ).contains a := by rwa [contains_recolor]
    rw [insert, dif_pos h', insert, dif_pos h]
    simp only [recolor, List.map_map]
    refine List.map_congr_left fun e _ => ?_
    simp only [Function.comp]
    split <;> rfl
  · have h' : ¬ (c.recolor ρ).contains a := by rwa [contains_recolor]
    rw [insert, dif_neg h', insert, dif_neg h]
    simp only [recolor, List.map_append, List.map_cons, List.map_nil]

theorem recolor_ofList (entries : List (α × Color)) :
    ofList (entries.map fun e => (e.1, ρ e.2)) = (ofList entries).recolor ρ := by
  have hfold : ∀ c : Coloring α,
      (entries.map fun e => (e.1, ρ e.2)).foldl (fun c e => c.insert e.1 e.2) (c.recolor ρ) =
        (entries.foldl (fun c e => c.insert e.1 e.2) c).recolor ρ := by
    induction entries with
    | nil => exact fun _ => rfl
    | cons e entries ih =>
      intro c
      rw [List.map_cons, List.foldl_cons, recolor_insert, ih, List.foldl_cons]
  exact hfold empty

end Coloring

/-! ## What a recoloring keeps -/

variable [DecidableEq α] {g : Graph α} {c : Coloring α}

theorem proper_recolor (hρ : Function.Injective ρ) : Proper g (c.recolor ρ) ↔ Proper g c := by
  have hmap := Option.map_injective hρ
  constructor
  · intro h
    refine ⟨fun a ha => ?_, fun a b hab heq => h.distinct a b hab ?_⟩
    · obtain ⟨color, hcolor⟩ := h.colored a ha
      rw [Coloring.get?_recolor, Option.map_eq_some_iff] at hcolor
      obtain ⟨color', hcolor', -⟩ := hcolor
      exact ⟨color', hcolor'⟩
    · rw [Coloring.get?_recolor, Coloring.get?_recolor, heq]
  · intro h
    refine ⟨fun a ha => ?_, fun a b hab heq => h.distinct a b hab ?_⟩
    · obtain ⟨color, hcolor⟩ := h.colored a ha
      exact ⟨ρ color, by rw [Coloring.get?_recolor, hcolor, Option.map_some]⟩
    · rw [Coloring.get?_recolor, Coloring.get?_recolor] at heq
      exact hmap heq

/-- **Recoloring keeps a coloring proper, or improper.** -/
theorem isProper_recolor (hρ : Function.Injective ρ) :
    isProper g (c.recolor ρ) = isProper g c := by
  rw [Bool.eq_iff_iff, isProper_iff, isProper_iff, proper_recolor hρ]

theorem ValidSeed.recolor (h : ValidSeed g c) (hρ : Function.Injective ρ) :
    ValidSeed g (c.recolor ρ) where
  known a ha := h.known a (Coloring.nodes_recolor (ρ := ρ) ▸ ha)
  distinct a b color hab ha hb := by
    rw [Coloring.get?_recolor, Option.map_eq_some_iff] at ha hb
    obtain ⟨color₁, ha, rfl⟩ := ha
    obtain ⟨color₂, hb, heq⟩ := hb
    exact h.distinct a b color₁ hab ha (hρ heq ▸ hb)

end Tricolor
