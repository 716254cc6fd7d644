import Mathlib.Data.Finset.Card
import Tricolor.Coloring.Basic
import Tricolor.Proofs.Distinct

/-!
# Reading and extending colorings

A coloring lists its nodes once each, so looking a node up finds its one
entry (`get?_eq_some_iff`). Inserting changes the color of one node and
of no other (`get?_insert`), and a node that had no color is listed last
(`entries_insert`).
-/

namespace Tricolor

namespace Coloring

variable {α : Type} [DecidableEq α] {c : Coloring α} {a b : α} {color : Color}

theorem get?_eq_some_iff : c.get? a = some color ↔ (a, color) ∈ c.entries := by
  obtain ⟨entries, nodup⟩ := c
  simp only [get?]
  induction entries with
  | nil => simp
  | cons e entries ih =>
    obtain ⟨b, color'⟩ := e
    obtain ⟨hb, hnodup⟩ := List.nodup_cons.1 nodup
    rw [List.lookup_cons, List.mem_cons, Prod.mk.injEq]
    by_cases hab : a = b
    · subst hab
      -- the node of the first entry has no second one
      have hnot : (a, color) ∉ entries := fun h => hb (List.mem_map.2 ⟨_, h, rfl⟩)
      simp [hnot, eq_comm]
    · rw [beq_false_of_ne hab]
      simp [hab, ih hnodup]

theorem get?_eq_none_iff : c.get? a = none ↔ a ∉ c.nodes := by
  rw [← contains_iff, contains]
  cases c.get? a <;> simp

theorem mem_nodes_iff : a ∈ c.nodes ↔ ∃ color, c.get? a = some color := by
  rw [← contains_iff, contains, Option.isSome_iff_exists]

theorem mem_nodes_of_get? (h : c.get? a = some color) : a ∈ c.nodes :=
  mem_nodes_iff.2 ⟨color, h⟩

/-- A node that has no color yet is listed last. -/
theorem entries_insert (h : c.get? a = none) :
    (c.insert a color).entries = c.entries ++ [(a, color)] := by
  have hnot : ¬ c.contains a = true := by simp [contains, h]
  rw [insert, dif_neg hnot]

theorem size_insert (h : c.get? a = none) : (c.insert a color).size = c.size + 1 := by
  rw [size, entries_insert h, List.length_append]
  rfl

omit [DecidableEq α] in
theorem length_nodes (c : Coloring α) : c.nodes.length = c.size := List.length_map Prod.fst

/-- **Inserting recolors one node.** -/
theorem get?_insert : (c.insert a color).get? b = if b = a then some color else c.get? b := by
  by_cases h : c.contains a
  · have hlookup : ∀ entries : List (α × Color),
        (entries.map fun e => if e.1 = a then (a, color) else e).lookup b =
          if b = a then (entries.lookup a).map fun _ => color else entries.lookup b := by
      intro entries
      induction entries with
      | nil => simp
      | cons e entries ih =>
        obtain ⟨x, color'⟩ := e
        rw [List.map_cons]
        by_cases hbx : b = x
        · -- the entry of `b` itself
          subst hbx
          by_cases hba : b = a <;> simp [hba]
        · have hskip := beq_false_of_ne hbx
          by_cases hxa : x = a
          · subst hxa
            simp only [if_true, List.lookup_cons, hskip, ih, if_neg hbx]
          · by_cases hba : b = a
            · subst hba
              simp only [if_neg hxa, List.lookup_cons, hskip, ih, if_true]
            · simp only [if_neg hxa, List.lookup_cons, hskip, ih, if_neg hba]
    rw [insert, dif_pos h, get?, hlookup]
    by_cases hba : b = a
    · obtain ⟨color', hcolor'⟩ := Option.isSome_iff_exists.1 h
      rw [if_pos hba, if_pos hba, show c.entries.lookup a = some color' from hcolor']
      rfl
    · rw [if_neg hba, if_neg hba]
      rfl
  · have hnone : c.get? a = none := by simpa [contains] using h
    have hcolor : ∀ color', (c.insert a color).get? b = some color' ↔
        (if b = a then some color else c.get? b) = some color' := by
      intro color'
      rw [get?_eq_some_iff, entries_insert hnone, List.mem_append, List.mem_singleton,
        ← get?_eq_some_iff, Prod.mk.injEq]
      by_cases hba : b = a
      · subst hba
        simp [hnone, eq_comm]
      · simp [hba]
    exact Option.ext hcolor

theorem get?_insert_self : (c.insert a color).get? a = some color := by
  rw [get?_insert, if_pos rfl]

theorem get?_insert_of_ne (h : b ≠ a) : (c.insert a color).get? b = c.get? b := by
  rw [get?_insert, if_neg h]

/-! ## Colorings from entries -/

theorem entries_foldl_insert {entries : List (α × Color)}
    (hnodup : (c.entries ++ entries).map Prod.fst |>.Nodup) :
    (entries.foldl (fun c e => c.insert e.1 e.2) c).entries = c.entries ++ entries := by
  induction entries generalizing c with
  | nil => simp
  | cons e entries ih =>
    have hnone : c.get? e.1 = none := by
      rw [get?_eq_none_iff, nodes]
      intro hmem
      rw [List.map_append, List.nodup_append] at hnodup
      exact hnodup.2.2 _ hmem _ (by simp) rfl
    have hins : (c.insert e.1 e.2).entries = c.entries ++ [e] := entries_insert hnone
    rw [List.foldl_cons, ih (by rw [hins]; simpa using hnodup), hins]
    simp

/-- A node that is given one color only ends up with it. -/
theorem get?_foldl_insert {entries : List (α × Color)}
    (hall : ∀ e ∈ entries, e.1 = a → e.2 = color)
    (h : (a, color) ∈ entries ∨ c.get? a = some color) :
    (entries.foldl (fun c e => c.insert e.1 e.2) c).get? a = some color := by
  induction entries generalizing c with
  | nil => exact h.resolve_left List.not_mem_nil
  | cons e entries ih =>
    refine ih (fun e' he' => hall e' (.tail e he')) ?_
    by_cases hea : e.1 = a
    · right
      rw [← hall e (.head entries) hea, ← hea, get?_insert_self]
    · rw [get?_insert_of_ne (Ne.symm hea)]
      refine h.imp_left fun hmem => (List.mem_cons.1 hmem).resolve_left ?_
      rintro rfl
      exact hea rfl

/-- Entries with different nodes are kept as they are. -/
theorem entries_ofList {entries : List (α × Color)} (hnodup : (entries.map Prod.fst).Nodup) :
    (ofList entries).entries = entries :=
  entries_foldl_insert (c := empty) hnodup

/-! ## The colors in use -/

omit [DecidableEq α] in
theorem mem_colorsUsed_iff : color ∈ c.colorsUsed ↔ ∃ a, (a, color) ∈ c.entries := by
  simp [colorsUsed]

theorem mem_colorsUsed : color ∈ c.colorsUsed ↔ ∃ a, c.get? a = some color := by
  simp only [mem_colorsUsed_iff, get?_eq_some_iff]

omit [DecidableEq α] in
theorem nodup_colorsUsed (c : Coloring α) : c.colorsUsed.Nodup :=
  (List.mergeSort_perm _ _).nodup_iff.2 (nodup_eraseDups _)

/-- If the nodes wear colors of a list, no more are in use than it has. -/
theorem length_colorsUsed_le_of_get? {colors : List Color}
    (h : ∀ a color, c.get? a = some color → color ∈ colors) :
    c.colorsUsed.length ≤ colors.length := by
  have hsub : c.colorsUsed ⊆ colors := by
    intro color hcolor
    obtain ⟨a, ha⟩ := mem_colorsUsed.1 hcolor
    exact h a color ha
  exact (c.nodup_colorsUsed.subperm hsub).length_le

omit [DecidableEq α] in
/-- The colors in use are the different colors of the entries. -/
theorem length_colorsUsed (c : Coloring α) :
    c.colorsUsed.length = (c.entries.map Prod.snd).toFinset.card := by
  rw [← List.toFinset_card_of_nodup c.nodup_colorsUsed]
  congr 1
  ext color
  simp [mem_colorsUsed_iff]

end Coloring

end Tricolor
