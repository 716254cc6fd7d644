import Tricolor.Proofs.Gadget.Extract
import Tricolor.Proofs.Gadget.Seed

/-!
# Seeds that mirror their assignment

A seed made from an assignment is meant to be read back as it: each literal
wears the color of its value, and there is one entry for each (`Mirrors`).
Seeds are written in signed 32-bit literals, while variables are read
without a sign. So this holds for fewer than `2 ^ 31` variables and for no
more (`mirrors_iff`): variable `2 ^ 31` is written as its own negation, and
those after it in place of smaller ones (`ofLiteral_ofNat_of_ge`).
-/

namespace Tricolor

namespace Gadget

variable {a : Assignment} {r : ColorRoles} {c : Coloring Node} {var : Nat} {value : Bool}

/-! ## Reading what agrees -/

/-- **A coloring that wears the colors of an assignment is read as it.** -/
theorem Agrees.read_eq (h : Agrees r a c) (hr : r.Distinct) : read r c a.size = a := by
  refine congrArg Assignment.mk (List.ext_getElem (by simp [Assignment.size]) ?_)
  intro i hi hlt
  have hvalue : a.get? (i + 1) = some a.values[i] := by
    rw [Assignment.get?_succ, List.getElem?_eq_getElem hlt]
  have htruth : r.truth = r.color .truth := rfl
  rw [List.getElem_map, List.getElem_range', Nat.one_mul, Nat.add_comm, (h.literal _ _ hvalue).1,
    Option.some_beq_some, htruth, Bool.eq_iff_iff, beq_iff_eq, hr.color_injective.eq_iff]
  cases a.values[i] <;> decide

theorem extract_eq_of_agrees (h : Agrees r a c) (hr : r.Distinct) :
    r.extract c a.size = .ok a := by
  rw [ColorRoles.extract_eq_ok h.palette fun i hpos hle => ?_, h.read_eq hr]
  obtain ⟨value, hvalue⟩ := Assignment.get?_eq_some_of_le hpos hle
  exact ⟨_, (h.literal i value hvalue).1⟩

/-! ## Fewer than `2 ^ 31` variables -/

theorem agrees_modelSeed (r : ColorRoles) (hle : (a.size : Int) ≤ Int32.maxValue.toInt) :
    Agrees r a (r.modelSeed a) := by
  -- the colors do not depend on the clauses
  have hget {b : Node} {color : Color} : (r.modelSeed a).get? b = some color ↔
      b ∈ referenceNodes ++ variableNodes a.size ∧ nodeColor ⟨0, []⟩ r a b = color :=
    get?_modelSeed_eq_some_iff ⟨0, []⟩ hle
  constructor
  case palette =>
    intro b color h
    obtain ⟨hb, rfl⟩ := hget.1 h
    rw [nodeColor, ColorRoles.wear_mem_palette_iff]
    cases b with
    | reference role => exact Option.some_ne_none role
    | literal var positive => exact Option.some_ne_none _
    | auxiliary k role => exact absurd hb auxiliary_notMem_skeletonNodes
  case reference =>
    intro role
    exact hget.2 ⟨List.mem_append_left _ (by cases role <;> decide), rfl⟩
  case literal =>
    intro var value h
    have hmem (positive : Bool) :
        .literal var positive ∈ referenceNodes ++ variableNodes a.size :=
      List.mem_append_right _ (literal_mem_variableNodes.2 (Assignment.range_of_get? h))
    have hcolor (positive : Bool) : nodeColor ⟨0, []⟩ r a (.literal var positive) =
        r.color (literalHue (value == positive)) := by
      rw [nodeColor, hue, h, Option.some_beq_some]
      rfl
    refine ⟨hget.2 ⟨hmem true, ?_⟩, hget.2 ⟨hmem false, ?_⟩⟩ <;> rw [hcolor] <;> cases value <;> rfl

theorem size_modelSeed (r : ColorRoles) (hle : (a.size : Int) ≤ Int32.maxValue.toInt) :
    (r.modelSeed a).size = 2 * a.size + 3 := by
  rw [← Coloring.length_nodes, nodes_modelSeed ⟨0, []⟩ r hle, List.length_append,
    length_variableNodes, Nat.add_comm]
  rfl

/-! ## Variable `2 ^ 31` and those after it -/

/-- A number without a place among the signed 32-bit numbers is taken for
the negation of another variable. -/
theorem ofLiteral_ofNat_of_ge (hge : 2147483648 ≤ var) (hlt : var < 4294967296) :
    Node.ofLiteral (Int32.ofNat var) = .literal (4294967296 - var) false := by
  have hint : (Int32.ofNat var).toInt = (var : Int) - 4294967296 := by
    rw [Int32.toInt_ofNat', show Int32.size = 4294967296 from rfl, Int.bmod_eq_iff (by decide)]
    omega
  have habs : ((var : Int) - 4294967296).natAbs = 4294967296 - var := by omega
  have hneg : ¬ 0 < (var : Int) - 4294967296 := by omega
  rw [Node.ofLiteral, hint, habs, decide_eq_false hneg]

/-- No other variable is taken for variable `2 ^ 31`. -/
theorem eq_of_mem_literalEntries {e : Node × Color} {positive : Bool} (hpos : 0 < var)
    (hlt : var < 4294967296) (he : e ∈ r.literalEntries var value)
    (hnode : e.1 = .literal 2147483648 positive) : var = 2147483648 := by
  rcases Nat.lt_or_ge var 2147483648 with hsmall | hge
  · rw [literalEntries_eq r value hpos (by rw [Int32.toInt_maxValue]; omega)] at he
    rcases List.mem_pair.1 he with rfl | rfl <;> exact (Node.literal.inj hnode).1
  · rw [literalEntries_of_ofLiteral r value (ofLiteral_ofNat_of_ge hge hlt)] at he
    have hvar : 4294967296 - var = 2147483648 := by
      rcases List.mem_pair.1 he with rfl | rfl <;> exact (Node.literal.inj hnode).1
    omega

/-- Its entries are those of its negation. -/
theorem literalEntries_wrapped (r : ColorRoles) (value : Bool) :
    r.literalEntries 2147483648 value =
      [(.literal 2147483648 false, r.color (literalHue value)),
        (.literal 2147483648 true, r.color (literalHue !value))] :=
  literalEntries_of_ofLiteral r value (ofLiteral_ofNat_of_ge (by decide) (by decide))

/-- **The nodes of variable `2 ^ 31` swap their colors.** -/
theorem get?_modelSeed_wrapped (r : ColorRoles) (hlt : a.size < 4294967296)
    (h : a.get? 2147483648 = some value) :
    (r.modelSeed a).get? (.literal 2147483648 value) = some r.falsity := by
  have hswapped (color : Color) :
      (.literal 2147483648 value, color) ∈ r.literalEntries 2147483648 value ↔
        color = r.falsity := by
    rw [literalEntries_wrapped]
    cases value <;> simp [literalHue, ColorRoles.color]
  refine Coloring.get?_foldl_insert (fun e he hnode => ?_) (.inl ?_)
  · obtain ⟨node, color⟩ := e
    obtain ⟨⟨var, v⟩, hentry, he⟩ := List.mem_flatMap.1 he
    have hget := (Assignment.mem_entries_iff hlt).1 hentry
    obtain ⟨hpos, hle⟩ := Assignment.range_of_get? hget
    obtain rfl := eq_of_mem_literalEntries hpos (Nat.lt_of_le_of_lt hle hlt) he hnode
    obtain rfl := Option.some.inj (h.symm.trans hget)
    cases hnode
    exact (hswapped color).1 he
  · exact List.mem_flatMap.2
      ⟨(2147483648, value), (Assignment.mem_entries_iff hlt).2 h, (hswapped _).2 rfl⟩

/-! ## The two together -/

/-- The seed of an assignment says what the assignment says: it has an
entry for each reference and each literal, a literal wears the color of
truth if the assignment makes it true and else that of falsity, and what is
read off the seed is the assignment. -/
structure Mirrors (r : ColorRoles) (a : Assignment) : Prop where
  size : (r.modelSeed a).size = 2 * a.size + 3
  colors : ∀ var value, a.get? var = some value →
    (r.modelSeed a).get? (.literal var value) = some r.truth ∧
      (r.modelSeed a).get? (.literal var !value) = some r.falsity
  extract : r.extract (r.modelSeed a) a.size = .ok a

/-- **Seeding and reading are inverse for fewer than `2 ^ 31` variables**,
and for no more, whatever the assignment and the roles. -/
theorem mirrors_iff (hr : r.Distinct) (ha : a.size < UInt32.size) :
    Mirrors r a ↔ a.size < 2147483648 := by
  constructor
  · intro h
    by_contra hge
    obtain ⟨value, hvalue⟩ :=
      Assignment.get?_eq_some_of_le (by decide : 0 < 2147483648) (Nat.le_of_not_lt hge)
    have hswapped := get?_modelSeed_wrapped r ha hvalue
    rw [(h.colors _ value hvalue).1] at hswapped
    exact hr.truth_ne_falsity (Option.some.inj hswapped)
  · intro hlt
    have hle : (a.size : Int) ≤ Int32.maxValue.toInt := by
      rw [Int32.toInt_maxValue]
      omega
    have hagrees := agrees_modelSeed r hle
    refine ⟨size_modelSeed r hle, fun var value hvalue => ?_, extract_eq_of_agrees hagrees hr⟩
    have hliteral := hagrees.literal var value hvalue
    cases value with
    | true => exact hliteral
    | false => exact hliteral.symm

/-- Two variables, one of them false. -/
theorem mirrors_pair : Mirrors .standard ⟨[false, true]⟩ :=
  (mirrors_iff ColorRoles.distinct_standard (by decide)).2 (by decide)

/-- **A seed that does not mirror its assignment.** Of `2 ^ 31` variables
that are all true the last one wears the color of falsity. -/
theorem modelSeed_swaps :
    ∃ a : Assignment, a.values = List.replicate 2147483648 true ∧ a.size = 2147483648 ∧
      a.get? 2147483648 = some true ∧
      (ColorRoles.standard.modelSeed a).get? (.literal 2147483648 true) = some .red ∧
      ¬ Mirrors .standard a := by
  obtain ⟨a, ha⟩ : ∃ a : Assignment, a.values = List.replicate 2147483648 true := ⟨⟨_⟩, rfl⟩
  have hcount : a.size = 2147483648 := by
    rw [Assignment.size, ha, List.length_replicate]
  have hvalue : a.get? 2147483648 = some true := by
    rw [Assignment.get?, if_neg (by decide), ha]
    exact List.getElem?_replicate_of_lt (by decide)
  have hred := get?_modelSeed_wrapped .standard (by omega) hvalue
  refine ⟨a, ha, hcount, hvalue, hred, fun h => ?_⟩
  rw [(h.colors _ _ hvalue).1] at hred
  exact absurd hred (by decide)

end Gadget

end Tricolor
