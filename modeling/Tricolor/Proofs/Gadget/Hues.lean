import Tricolor.Gadget.Roles
import Tricolor.Proofs.Coloring.FirstFit
import Tricolor.Proofs.Gadget.Shape

/-!
# The colors of a gadget graph under an assignment

An assignment colors the literals, and the literals of a clause color its
gadget by a fixed rule (`gadgetHue`), which names one of the three roles
for every node or, for the first disjunction of a false clause, none. No
edge has one hue (`hue_ne_of_mem_edges`), and all hues are roles exactly
if the formula is satisfied (`hue_ne_none_iff`).
-/

namespace Tricolor

namespace Gadget

namespace ColorRoles

variable {r : ColorRoles}

/-- The three role colors differ. -/
structure Distinct (r : ColorRoles) : Prop where
  truth_ne_falsity : r.truth ≠ r.falsity
  truth_ne_neutral : r.truth ≠ r.neutral
  falsity_ne_neutral : r.falsity ≠ r.neutral

/-- The color of a role. -/
def color (r : ColorRoles) : Reference → Color
  | .truth => r.truth
  | .falsity => r.falsity
  | .neutral => r.neutral

/-- The color of a hue: that of its role, or the lowest color without a
role. -/
def wear (r : ColorRoles) : Option Reference → Color
  | some role => r.color role
  | none => (firstFit r.palette r.palette).getD .grey

theorem color_mem_palette (r : ColorRoles) (role : Reference) : r.color role ∈ r.palette := by
  cases role <;> simp [color, palette]

theorem exists_color_of_mem_palette {c : Color} (h : c ∈ r.palette) : ∃ role, c = r.color role := by
  simp only [palette, List.mem_cons, List.not_mem_nil, or_false] at h
  rcases h with rfl | rfl | rfl
  · exact ⟨.truth, rfl⟩
  · exact ⟨.falsity, rfl⟩
  · exact ⟨.neutral, rfl⟩

/-- Three roles leave a color without one. -/
theorem firstFit_palette (r : ColorRoles) : firstFit r.palette r.palette = some (r.wear none) := by
  obtain ⟨c, hc⟩ := exists_firstFit r.palette r.palette (show 3 < UInt32.size by decide)
  rw [wear, hc, Option.getD_some]

theorem wear_none_not_mem_palette (r : ColorRoles) : r.wear none ∉ r.palette :=
  firstFit_not_mem r.firstFit_palette

theorem Distinct.nodup_palette (h : r.Distinct) : r.palette.Nodup := by
  simp [palette, h.truth_ne_falsity, h.truth_ne_neutral, h.falsity_ne_neutral]

theorem Distinct.color_injective (h : r.Distinct) : Function.Injective r.color := by
  have htf := h.truth_ne_falsity
  have htn := h.truth_ne_neutral
  have hfn := h.falsity_ne_neutral
  intro x y hxy
  cases x <;> cases y <;> grind [color]

theorem distinct_standard : standard.Distinct := ⟨by decide, by decide, by decide⟩

theorem distinct_of_injective (h : Function.Injective r.color) : r.Distinct where
  truth_ne_falsity heq := Reference.noConfusion (@h .truth .falsity heq)
  truth_ne_neutral heq := Reference.noConfusion (@h .truth .neutral heq)
  falsity_ne_neutral heq := Reference.noConfusion (@h .falsity .neutral heq)

/-- **Different hues are different colors.** -/
theorem Distinct.wear_injective (h : r.Distinct) : Function.Injective r.wear := by
  intro x y hxy
  cases x with
  | none =>
    cases y with
    | none => rfl
    | some y =>
      have hmem : r.wear none ∈ r.palette := hxy ▸ r.color_mem_palette y
      exact absurd hmem r.wear_none_not_mem_palette
  | some x =>
    cases y with
    | none =>
      have hmem : r.wear none ∈ r.palette := hxy ▸ r.color_mem_palette x
      exact absurd hmem r.wear_none_not_mem_palette
    | some y => exact congrArg some (h.color_injective hxy)

theorem wear_mem_palette_iff {hue : Option Reference} : r.wear hue ∈ r.palette ↔ hue ≠ none := by
  cases hue with
  | none => simpa using r.wear_none_not_mem_palette
  | some role => exact iff_of_true (r.color_mem_palette role) (Option.some_ne_none role)

end ColorRoles

/-! ## Hues -/

/-- The hue of a literal by its truth. -/
def literalHue (value : Bool) : Reference := if value then .truth else .falsity

/-- The hue of an auxiliary node by the truth of the three literals. The
first disjunction of a false clause has none: its neighbors take all
three. -/
def gadgetHue (v₁ v₂ v₃ : Bool) : Role → Option Reference
  | .in1 => some (literalHue !v₁)
  | .in2 => some (if v₁ = v₂ then .neutral else literalHue !v₂)
  | .or12 =>
    if v₁ && v₂ then some .truth
    else if v₁ || v₂ then some .neutral
    else if v₃ then some .falsity
    else none
  | .in12 => some (if !v₁ && !v₂ && v₃ then .neutral else .falsity)
  | .in3 => some (if !v₁ && !v₂ && v₃ then .falsity else .neutral)
  | .or123 => some .truth

/-- The hue of a node under an assignment. -/
def hue (f : Formula) (a : Assignment) : Node → Option Reference
  | .reference role => some role
  | .literal var positive => some (literalHue (a.get? var == some positive))
  | .auxiliary k role =>
    f.clauses[k]?.bind fun c =>
      gadgetHue (a.holds c.first) (a.holds c.second) (a.holds c.third) role

variable {f : Formula} {a : Assignment} {c : Clause} {k : Nat} {role : Role} {e : Node × Node}

theorem hue_reference (f : Formula) (a : Assignment) (role : Reference) :
    hue f a (.reference role) = some role := rfl

theorem hue_ofLiteral (f : Formula) (a : Assignment) (x : Literal) :
    hue f a (.ofLiteral x) = some (literalHue (a.holds x)) := by
  rw [Assignment.holds_eq]
  rfl

theorem hue_auxiliary (hk : f.clauses[k]? = some c) :
    hue f a (.auxiliary k role) =
      gadgetHue (a.holds c.first) (a.holds c.second) (a.holds c.third) role := by
  rw [hue, hk, Option.bind_some]

/-- Inside a gadget no edge has one hue, whatever the truth of the
literals. -/
theorem hue_ne_of_mem_clauseEdges (hk : f.clauses[k]? = some c) (he : e ∈ clauseEdges k c) :
    hue f a e.1 ≠ hue f a e.2 := by
  simp only [clauseEdges, List.mem_cons, List.not_mem_nil, or_false] at he
  rcases he with rfl | rfl | rfl | rfl | rfl | rfl | rfl | rfl | rfl | rfl | rfl | rfl <;>
    simp only [hue_ofLiteral, hue_auxiliary hk, Node.falsity, Node.neutral, hue_reference] <;>
    generalize a.holds c.first = v₁ <;> generalize a.holds c.second = v₂ <;>
    generalize a.holds c.third = v₃ <;> revert v₁ v₂ v₃ <;> decide

/-- **No edge of a gadget graph has one hue.** -/
theorem hue_ne_of_mem_edges (ha : a.size = f.numVars.toNat) (he : e ∈ edges f) :
    hue f a e.1 ≠ hue f a e.2 := by
  rcases mem_edges_iff.1 he with he | ⟨var, hpos, hle, he⟩ | ⟨k, c, hk, he⟩
  · simp only [referenceEdges, List.mem_cons, List.not_mem_nil, or_false] at he
    rcases he with rfl | rfl | rfl <;> simp [hue, Node.truth, Node.falsity, Node.neutral]
  · -- the variable has a value, so just one of its literals is true
    obtain ⟨value, hvalue⟩ := Assignment.get?_eq_some_of_le hpos (ha ▸ hle)
    simp only [variableEdges, List.mem_cons, List.not_mem_nil, or_false] at he
    rcases he with rfl | rfl | rfl <;>
      simp only [hue, Node.neutral, hvalue] <;> cases value <;> decide
  · exact hue_ne_of_mem_clauseEdges hk he

/-- A gadget needs a fourth color exactly at the first disjunction of a
false clause. -/
theorem gadgetHue_eq_none_iff {v₁ v₂ v₃ : Bool} :
    gadgetHue v₁ v₂ v₃ role = none ↔ role = .or12 ∧ (v₁ || (v₂ || v₃)) = false := by
  revert v₁ v₂ v₃
  cases role <;> decide

/-- **Of the nodes of a gadget graph the first disjunctions of the false
clauses have no hue, and only they.** -/
theorem hue_eq_none_iff {b : Node} (hb : b ∈ (graph f).nodes) (hf : f.Valid) :
    hue f a b = none ↔
      ∃ k c, f.clauses[k]? = some c ∧ ¬ c.isSatisfiedBy a ∧ b = .auxiliary k .or12 := by
  constructor
  · intro h
    cases b with
    | reference role => cases h
    | literal var positive => cases h
    | auxiliary k role =>
      rw [nodes_graph hf, List.mem_append] at hb
      rcases hb with hb | hb
      · exact absurd hb auxiliary_notMem_skeletonNodes
      · have hlt := auxiliary_mem_auxiliaryNodes.1 hb
        have hk := List.getElem?_eq_getElem hlt
        rw [hue_auxiliary hk, gadgetHue_eq_none_iff, ← Clause.isSatisfiedBy_eq] at h
        exact ⟨k, _, hk, by simp [h.2], by rw [h.1]⟩
  · rintro ⟨k, c, hk, hfalse, rfl⟩
    rw [hue_auxiliary hk, gadgetHue_eq_none_iff, ← Clause.isSatisfiedBy_eq]
    exact ⟨rfl, by simpa using hfalse⟩

theorem auxiliary_mem_nodes (hf : f.Valid) (hk : f.clauses[k]? = some c) (role : Role) :
    .auxiliary k role ∈ (graph f).nodes := by
  rw [nodes_graph hf]
  exact List.mem_append_right _
    (auxiliary_mem_auxiliaryNodes.2 (List.getElem?_eq_some_iff.1 hk).1)

/-- **All nodes have a hue exactly if the formula is satisfied.** -/
theorem hue_ne_none_iff (hf : f.Valid) :
    (∀ b ∈ (graph f).nodes, hue f a b ≠ none) ↔ f.isSatisfiedBy a := by
  rw [Formula.isSatisfiedBy_iff]
  constructor
  · intro h k c hk
    by_contra hfalse
    exact h _ (auxiliary_mem_nodes hf hk .or12)
      ((hue_eq_none_iff (auxiliary_mem_nodes hf hk .or12) hf).2 ⟨k, c, hk, hfalse, rfl⟩)
  · intro h b hb hnone
    obtain ⟨k, c, hk, hfalse, -⟩ := (hue_eq_none_iff hb hf).1 hnone
    exact hfalse (h k c hk)

end Gadget

end Tricolor
