import Tricolor.Proofs.Coloring.Renaming
import Tricolor.Proofs.Gadget.Hues

/-!
# Other role colors

Three role colors leave all other colors without a role, which are
numbered in ascending order (`free`, `getElem?_free`). Going over from the
standard roles to others renames green, red and blue to the new role
colors, and grey and what follows to the colors that are left without a
role (`rename`). This is a renaming of the palettes (`renames_rename`),
under which seeds and readings correspond.
-/

namespace Tricolor

namespace Gadget

namespace ColorRoles

variable {r : ColorRoles} {c : Coloring Node} {color : Color} {i j n : Nat}

/-- The color of rank `j`, counted from 0, among the colors without a
role in ascending order. -/
def spare (r : ColorRoles) (j : Nat) : Color :=
  -- of the numbers below `j + 4` at most three have a role
  ((Color.below (j + 4)).filter r.isOverflow)[j]?.getD .green

/-- The color that takes the place of a color when other roles take the
place of the standard ones. -/
def rename (r : ColorRoles) (color : Color) : Color :=
  match color.index with
  | 0 => r.truth
  | 1 => r.falsity
  | 2 => r.neutral
  | j + 3 => r.spare j

/-- All colors without a role, in ascending order. -/
def free (r : ColorRoles) : List Color := (Color.below UInt32.size).filter r.isOverflow

theorem isOverflow_iff : r.isOverflow color ↔ color ∉ r.palette := by
  rw [isOverflow, Bool.not_eq_true', ← Bool.not_eq_true, List.contains_iff_mem]

theorem mem_free : color ∈ r.free ↔ color ∉ r.palette := by
  rw [free, List.mem_filter, and_iff_right ((Color.mem_below le_rfl).2 color.index_lt),
    isOverflow_iff]

theorem sorted_free (r : ColorRoles) : r.free.Pairwise fun c d => c.index < d.index :=
  (Color.sorted_below le_rfl).filter _

/-! ## The colors without a role -/

/-- Colors have a role or not. -/
theorem length_below_eq (r : ColorRoles) (n : Nat) :
    n = ((Color.below n).filter r.isOverflow).length +
      ((Color.below n).filter (r.palette.contains ·)).length := by
  have hsplit := List.length_eq_length_filter_add (l := Color.below n) r.isOverflow
  simp only [isOverflow, Bool.not_not, Color.length_below] at hsplit
  exact hsplit

/-- At most three of the first numbers have a role. -/
theorem lt_length_filter (hj : j + 3 < UInt32.size) :
    j < ((Color.below (j + 4)).filter r.isOverflow).length := by
  have hnodup : ((Color.below (j + 4)).filter (r.palette.contains ·)).Nodup :=
    (Color.nodup_below hj).filter _
  have hsub : (Color.below (j + 4)).filter (r.palette.contains ·) ⊆ r.palette := fun _ hc =>
    List.contains_iff_mem.1 (List.mem_filter.1 hc).2
  have hle : ((Color.below (j + 4)).filter (r.palette.contains ·)).length ≤ 3 :=
    (hnodup.subperm hsub).length_le
  have hcount := r.length_below_eq (j + 4)
  omega

/-- Three numbers have a role, if the roles differ. -/
theorem Distinct.length_free (hr : r.Distinct) : r.free.length + 3 ≤ UInt32.size := by
  have hsub : r.palette ⊆ (Color.below UInt32.size).filter (r.palette.contains ·) := fun c hc =>
    List.mem_filter.2 ⟨(Color.mem_below le_rfl).2 c.index_lt, List.contains_iff_mem.2 hc⟩
  have hle : 3 ≤ ((Color.below UInt32.size).filter (r.palette.contains ·)).length :=
    (hr.nodup_palette.subperm hsub).length_le
  have hcount := r.length_below_eq UInt32.size
  rw [free]
  omega

/-- **The spare colors are the colors without a role, in order.** -/
theorem getElem?_free (hj : j + 3 < UInt32.size) : r.free[j]? = some (r.spare j) := by
  obtain ⟨rest, hrest⟩ : Color.below (j + 4) <+: Color.below UInt32.size := by
    refine List.IsPrefix.map _ ?_
    obtain ⟨m, hm⟩ := Nat.exists_eq_add_of_le (show j + 4 ≤ UInt32.size from hj)
    exact hm ▸ ⟨_, List.range_add.symm⟩
  have hlt := lt_length_filter (r := r) hj
  rw [free, ← hrest, List.filter_append, List.getElem?_append_left hlt, spare,
    List.getElem?_eq_getElem hlt, Option.getD_some]

theorem spare_not_mem_palette (hj : j + 3 < UInt32.size) : r.spare j ∉ r.palette :=
  mem_free.1 (List.mem_of_getElem? (getElem?_free hj))

theorem index_spare_lt (hj : j + 3 < UInt32.size) (hij : i < j) :
    (r.spare i).index < (r.spare j).index := by
  have hi := getElem?_free (r := r) (j := i) (by omega)
  have hj := getElem?_free (r := r) hj
  obtain ⟨hi, hi'⟩ := List.getElem?_eq_some_iff.1 hi
  obtain ⟨hj, hj'⟩ := List.getElem?_eq_some_iff.1 hj
  rw [← hi', ← hj']
  exact List.pairwise_iff_getElem.1 r.sorted_free i j hi hj hij

/-- Every color without a role is a spare color. -/
theorem Distinct.exists_spare (hr : r.Distinct) (h : color ∉ r.palette) :
    ∃ j, j + 3 < UInt32.size ∧ r.spare j = color := by
  obtain ⟨j, hj, hcolor⟩ := List.getElem_of_mem (mem_free.2 h)
  have hlength := hr.length_free
  have hsize : j + 3 < UInt32.size := by omega
  refine ⟨j, hsize, ?_⟩
  rw [← hcolor]
  exact (List.getElem_eq_iff hj).2 (getElem?_free hsize) |>.symm

/-! ## The renaming -/

theorem rename_color (r : ColorRoles) (role : Reference) :
    r.rename (standard.color role) = r.color role := by
  cases role <;> rfl

theorem rename_of_index (h : color.index = j + 3) : r.rename color = r.spare j := by
  rw [rename, h]

/-- A color has a standard role, or it is numbered from grey on. -/
theorem exists_color_or_grey (color : Color) :
    (∃ role, color = standard.color role) ∨ ∃ j, color.index = j + 3 := by
  match h : color.index with
  | 0 => exact .inl ⟨.truth, Color.ext_index h⟩
  | 1 => exact .inl ⟨.falsity, Color.ext_index h⟩
  | 2 => exact .inl ⟨.neutral, Color.ext_index h⟩
  | j + 3 => exact .inr ⟨j, rfl⟩

theorem exists_grey (h : color ∉ standard.palette) : ∃ j, color.index = j + 3 := by
  rcases exists_color_or_grey color with ⟨role, rfl⟩ | hgrey
  · exact absurd (standard.color_mem_palette role) h
  · exact hgrey

theorem Distinct.rename_injective (hr : r.Distinct) : Function.Injective r.rename := by
  have hrole : ∀ role j, j + 3 < UInt32.size → r.color role ≠ r.spare j := fun role j hj heq =>
    spare_not_mem_palette hj (heq ▸ r.color_mem_palette role)
  intro x y hxy
  have hx := x.index_lt
  have hy := y.index_lt
  rcases exists_color_or_grey x with ⟨role, rfl⟩ | ⟨i, hi⟩ <;>
    rcases exists_color_or_grey y with ⟨role', rfl⟩ | ⟨j, hj⟩
  · rw [rename_color, rename_color] at hxy
    rw [hr.color_injective hxy]
  · rw [rename_color, rename_of_index hj] at hxy
    exact absurd hxy (hrole role j (hj ▸ hy))
  · rw [rename_color, rename_of_index hi] at hxy
    exact absurd hxy.symm (hrole role' i (hi ▸ hx))
  · rw [rename_of_index hi, rename_of_index hj] at hxy
    have hindex := congrArg Color.index hxy
    rcases Nat.lt_trichotomy i j with hlt | rfl | hlt
    · exact absurd hindex (index_spare_lt (hj ▸ hy) hlt).ne
    · exact Color.ext_index (hi.trans hj.symm)
    · exact absurd hindex (index_spare_lt (hi ▸ hx) hlt).ne'

/-- **Other roles rename the palette**, and keep the order of the colors
without a role. -/
theorem Distinct.renames_rename (hr : r.Distinct) :
    Renames r.rename standard.palette r.palette where
  injective := hr.rename_injective
  map_palette := rfl
  mono x y hx hy hle := by
    obtain ⟨i, hi⟩ := exists_grey hx
    obtain ⟨j, hj⟩ := exists_grey hy
    rw [rename_of_index hi, rename_of_index hj]
    rcases Nat.eq_or_lt_of_le (show i ≤ j by omega) with rfl | hlt
    · exact Nat.le_refl _
    · exact (index_spare_lt (hj ▸ y.index_lt) hlt).le
  onto x hx := by
    obtain ⟨j, hj, hspare⟩ := hr.exists_spare hx
    exact ⟨⟨.ofNat 32 (j + 3)⟩, (rename_of_index (Color.index_ofNat hj)).trans hspare⟩

theorem referenceSeed_recolor (r : ColorRoles) :
    standard.referenceSeed.recolor r.rename = r.referenceSeed :=
  Coloring.eq_of_entries rfl

/-! ## Readings correspond -/

theorem firstOverflow_recolor (hr : r.Distinct) (c : Coloring Node) :
    r.firstOverflow (c.recolor r.rename) =
      (standard.firstOverflow c).map fun e => (e.1, r.rename e.2) := by
  have hover : ∀ color, r.isOverflow (r.rename color) = standard.isOverflow color := by
    intro color
    rw [Bool.eq_iff_iff, isOverflow_iff, isOverflow_iff, hr.renames_rename.mem_iff]
  rw [firstOverflow, firstOverflow, Coloring.recolor, List.find?_map]
  simp only [Function.comp_def, hover]

theorem variableValue_recolor (hr : r.Distinct) (c : Coloring Node) (var : Nat) :
    r.variableValue (c.recolor r.rename) var = standard.variableValue c var := by
  rw [variableValue, variableValue, Coloring.get?_recolor]
  cases c.get? (.literal var true) with
  | none => rfl
  | some color =>
    have htruth : (r.rename color == r.truth) = (color == standard.truth) := by
      rw [Bool.eq_iff_iff, beq_iff_eq, beq_iff_eq]
      exact hr.rename_injective.eq_iff (b := standard.truth)
    exact congrArg Except.ok htruth

theorem valuesFrom_recolor (hr : r.Distinct) (c : Coloring Node) (var n : Nat) :
    r.valuesFrom (c.recolor r.rename) var n = standard.valuesFrom c var n := by
  induction n generalizing var with
  | zero => rfl
  | succ n ih => rw [valuesFrom, valuesFrom, variableValue_recolor hr, ih]

end ColorRoles

end Gadget

end Tricolor
