import Tricolor.Proofs.Gadget.Colorability

/-!
# Reading a coloring

A coloring in the role colors that colors the variables is read as the
assignment in which just the variables in the color of truth are true.
-/

namespace Tricolor

namespace Gadget

namespace ColorRoles

variable {r : ColorRoles} {c : Coloring Node} {var n : Nat}

theorem firstOverflow_eq_none_iff :
    r.firstOverflow c = none ↔ ∀ b color, c.get? b = some color → color ∈ r.palette := by
  simp only [firstOverflow, List.find?_eq_none, Prod.forall, Bool.not_eq_true,
    Coloring.get?_eq_some_iff, isOverflow, Bool.not_eq_false', List.contains_iff_mem]

theorem of_firstOverflow_eq_some {e : Node × Color} (h : r.firstOverflow c = some e) :
    e ∈ c.entries ∧ e.2 ∉ r.palette := by
  rw [firstOverflow] at h
  refine ⟨List.mem_of_find?_eq_some h, fun hmem => ?_⟩
  have hout := List.find?_some h
  simp only [isOverflow, List.contains_iff_mem.2 hmem, Bool.not_true, Bool.false_eq_true] at hout

/-- Only colorings in the role colors are read as assignments. -/
theorem mem_palette_of_extract {a : Assignment} (h : r.extract c n = .ok a) :
    ∀ b color, c.get? b = some color → color ∈ r.palette := by
  refine firstOverflow_eq_none_iff.1 ?_
  cases hover : r.firstOverflow c with
  | none => rfl
  | some e =>
    rw [extract, hover] at h
    cases h

theorem valuesFrom_eq_ok
    (h : ∀ i, var ≤ i → i < var + n → ∃ color, c.get? (.literal i true) = some color) :
    r.valuesFrom c var n =
      .ok ((List.range' var n).map fun i => c.get? (.literal i true) == some r.truth) := by
  induction n generalizing var with
  | zero => rfl
  | succ n ih =>
    obtain ⟨color, hcolor⟩ := h var le_rfl (by omega)
    have hvalue : r.variableValue c var = .ok (c.get? (.literal var true) == some r.truth) := by
      rw [variableValue, hcolor, Option.some_beq_some]
    rw [valuesFrom, hvalue, ih fun i hi hlt => h i (by omega) (by omega)]
    rfl

/-- Reading values fails only at a variable without a color. -/
theorem exists_of_valuesFrom_eq_error {e : Error} (h : r.valuesFrom c var n = .error e) :
    ∃ i, e = .uncolored (Node.literal i true).label := by
  induction n generalizing var with
  | zero => cases h
  | succ n ih =>
    rw [valuesFrom, variableValue] at h
    cases hget : c.get? (.literal var true) with
    | none =>
      rw [hget] at h
      exact ⟨_, (Except.error.inj h).symm⟩
    | some color =>
      rw [hget] at h
      cases hrest : r.valuesFrom c (var + 1) n with
      | error e' =>
        rw [hrest] at h
        exact ih (hrest.trans h)
      | ok values =>
        rw [hrest] at h
        cases h

/-- **What a coloring in the role colors is read as.** -/
theorem extract_eq_ok (hpalette : ∀ b color, c.get? b = some color → color ∈ r.palette)
    (h : ∀ i, 0 < i → i ≤ n → ∃ color, c.get? (.literal i true) = some color) :
    r.extract c n = .ok (read r c n) := by
  have hcolored : ∀ i, 1 ≤ i → i < 1 + n → ∃ color, c.get? (.literal i true) = some color :=
    fun i hi hlt => h i hi (by omega)
  simp only [extract, firstOverflow_eq_none_iff.2 hpalette, valuesFrom_eq_ok hcolored]
  rfl

end ColorRoles

/-- A proper coloring in the role colors is read without an error. -/
theorem extract_eq_read {f : Formula} {r : ColorRoles} {c : Coloring Node} (hf : f.Valid)
    (hc : Proper (graph f) c) (hpalette : ∀ b color, c.get? b = some color → color ∈ r.palette) :
    r.extract c f.numVars.toNat = .ok (read r c f.numVars.toNat) :=
  ColorRoles.extract_eq_ok hpalette fun _ hpos hle =>
    hc.colored _ (literal_mem_nodes hf hpos hle true)

end Gadget

end Tricolor
