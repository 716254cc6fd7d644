import Mathlib.Algebra.Group.Nat.Defs
import Mathlib.Data.List.Basic
import Tricolor.Coloring.Domain

/-!
# Domains are sets of positions

What the operations on masks do to the set of positions they stand for,
as long as the positions are below 64. Clearing the lowest bit removes
the first position, so reading off goes through all of them.
-/

namespace Tricolor

namespace Domain

instance : Membership Nat Domain := ⟨fun d c => d.mask.toBitVec.getLsbD c = true⟩

variable {d d' : Domain} {c i k : Nat}

theorem mem_def : c ∈ d ↔ d.mask.toBitVec.getLsbD c = true := .rfl

theorem lt_of_mem (h : c ∈ d) : c < 64 := BitVec.lt_of_getLsbD h

theorem ext_mem (h : ∀ c, c ∈ d ↔ c ∈ d') : d = d' := by
  have hmask : d.mask.toBitVec = d'.mask.toBitVec :=
    BitVec.eq_of_getLsbD_eq fun c _ => Bool.eq_iff_iff.2 (h c)
  cases d
  cases d'
  exact congrArg mk (UInt64.toBitVec_inj.1 hmask)

theorem not_mem_empty (c : Nat) : c ∉ empty := by
  rw [mem_def, empty, UInt64.toBitVec_zero, BitVec.getLsbD_zero]
  exact Bool.false_ne_true

theorem erase_empty (c : Nat) : empty.erase c = empty := congrArg mk UInt64.zero_and

/-! ## Single positions -/

theorem toBitVec_bit (hc : c < 64) : (bit c).toBitVec = BitVec.twoPow 64 c := by
  rw [bit, UInt64.toBitVec_shiftLeft, BitVec.twoPow_eq]
  simp [BitVec.shiftLeft_eq', Nat.mod_eq_of_lt, hc]

theorem getLsbD_bit (hc : c < 64) : (bit c).toBitVec.getLsbD i = decide (c = i) := by
  rw [toBitVec_bit hc, BitVec.getLsbD_twoPow, decide_eq_true hc, Bool.true_and]

theorem toNat_bit (hc : c < 64) : (bit c).toNat = 2 ^ c := by
  rw [← UInt64.toNat_toBitVec, toBitVec_bit hc, BitVec.toNat_twoPow_of_lt hc]

theorem contains_iff (hc : c < 64) : d.contains c ↔ c ∈ d := by
  rw [contains, bne_iff_ne, mem_def]
  constructor
  · intro h
    by_contra hnot
    refine h (UInt64.toBitVec_inj.1 (BitVec.eq_of_getLsbD_eq fun i _ => ?_))
    rw [UInt64.toBitVec_and, BitVec.getLsbD_and, getLsbD_bit hc]
    by_cases hi : c = i
    · subst hi
      rw [Bool.eq_false_iff.2 hnot, Bool.false_and, UInt64.toBitVec_zero, BitVec.getLsbD_zero]
    · rw [decide_eq_false hi, Bool.and_false, UInt64.toBitVec_zero, BitVec.getLsbD_zero]
  · intro h hzero
    have hbit := congrArg (fun m : UInt64 => m.toBitVec.getLsbD c) hzero
    simp [getLsbD_bit hc, h] at hbit

theorem isEmpty_iff : d.isEmpty ↔ ∀ c, c ∉ d := by
  rw [isEmpty, beq_iff_eq]
  constructor
  · intro h c
    have hd : d = empty := congrArg mk h
    exact hd ▸ not_mem_empty c
  · intro h
    have hd : d = empty := ext_mem fun c => iff_of_false (h c) (not_mem_empty c)
    exact congrArg mask hd

/-! ## Changing domains -/

theorem mem_full (hk : k ≤ 64) : c ∈ full k ↔ c < k := by
  rw [mem_def, full]
  split
  · rename_i h
    simp only [UInt64.toBitVec_not, BitVec.getLsbD_not, UInt64.toBitVec_zero, BitVec.getLsbD_zero,
      Bool.not_false, Bool.and_true, decide_eq_true_eq, h]
  · have hlt : k < 64 := by omega
    have hone : (1 : UInt64) ≤ bit k := by
      rw [UInt64.le_iff_toNat_le, toNat_bit hlt]
      exact Nat.one_le_two_pow
    rw [BitVec.getLsbD, UInt64.toNat_toBitVec, UInt64.toNat_sub_of_le _ _ hone, toNat_bit hlt,
      UInt64.toNat_one, Nat.testBit_two_pow_sub_one, decide_eq_true_eq]

theorem mem_erase (hc : c < 64) : i ∈ d.erase c ↔ i ∈ d ∧ i ≠ c := by
  simp only [mem_def, erase, UInt64.toBitVec_and, UInt64.toBitVec_not, BitVec.getLsbD_and,
    BitVec.getLsbD_not, getLsbD_bit hc, Bool.and_eq_true, decide_eq_true_eq, Bool.not_eq_true',
    decide_eq_false_iff_not]
  exact ⟨fun ⟨h, _, hne⟩ => ⟨h, Ne.symm hne⟩, fun ⟨h, hne⟩ => ⟨h, lt_of_mem h, Ne.symm hne⟩⟩

theorem mem_restore (hc : c < 64) : i ∈ d.restore c ↔ i ∈ d ∨ i = c := by
  simp only [mem_def, restore, UInt64.toBitVec_or, BitVec.getLsbD_or, getLsbD_bit hc,
    Bool.or_eq_true, decide_eq_true_eq]
  rw [eq_comm (a := c)]

theorem restore_erase (h : c ∈ d) : (d.erase c).restore c = d := by
  have hc := lt_of_mem h
  refine ext_mem fun i => ?_
  rw [mem_restore hc, mem_erase hc]
  constructor
  · rintro (⟨hi, -⟩ | rfl)
    · exact hi
    · exact h
  · intro hi
    by_cases hic : i = c
    · exact .inr hic
    · exact .inl ⟨hi, hic⟩

/-! ## Going through the positions -/

theorem lowest_spec (h : ¬ d.isEmpty) : d.lowest ∈ d ∧ ∀ i ∈ d, d.lowest ≤ i := by
  have hsome : ∃ c ∈ List.range 64, d.contains c := by
    rw [isEmpty_iff, not_forall] at h
    obtain ⟨c, hc⟩ := h
    have hc := not_not.1 hc
    exact ⟨c, List.mem_range.2 (lt_of_mem hc), (contains_iff (lt_of_mem hc)).2 hc⟩
  have hlt := List.findIdx_lt_length_of_exists hsome
  have hfound := List.findIdx_getElem (w := hlt)
  rw [List.getElem_range] at hfound
  rw [List.length_range] at hlt
  refine ⟨(contains_iff hlt).1 hfound, fun i hi => ?_⟩
  by_contra hless
  have hnot := List.not_of_lt_findIdx (Nat.lt_of_not_le hless)
  rw [List.getElem_range, (contains_iff (lt_of_mem hi)).2 hi] at hnot
  cases hnot

/-- A number whose lowest bit is bit `c`. -/
theorem eq_of_lowest {m : Nat} (hc : m.testBit c) (hmin : ∀ i, m.testBit i → c ≤ i) :
    m = 2 ^ (c + 1) * (m / 2 ^ (c + 1)) + 2 ^ c := by
  refine Nat.eq_of_testBit_eq fun i => ?_
  rw [Nat.testBit_two_pow_mul_add _ (Nat.pow_lt_pow_right (by decide) (Nat.lt_succ_self c))]
  split
  · rw [Nat.testBit_two_pow, Bool.eq_iff_iff, decide_eq_true_eq]
    constructor
    · intro h
      have := hmin i h
      omega
    · rintro rfl
      exact hc
  · rw [Nat.testBit_div_two_pow, Nat.sub_add_cancel (by omega)]

/-- Taking one off borrows from the lowest bit and leaves the bits above
it. -/
theorem testBit_and_sub_one {m : Nat} (hc : m.testBit c) (hmin : ∀ i, m.testBit i → c ≤ i) :
    (m &&& (m - 1)).testBit i ↔ m.testBit i ∧ i ≠ c := by
  have hm := eq_of_lowest hc hmin
  generalize m / 2 ^ (c + 1) = q at hm
  have hpow := Nat.two_pow_pos c
  have hlt : 2 ^ c < 2 ^ (c + 1) := Nat.pow_lt_pow_right (by decide) (Nat.lt_succ_self c)
  have hpred : m - 1 = 2 ^ (c + 1) * q + (2 ^ c - 1) := by omega
  rw [Nat.testBit_and, hpred, hm, Nat.testBit_two_pow_mul_add _ hlt,
    Nat.testBit_two_pow_mul_add _ (by omega)]
  split
  · rw [Nat.testBit_two_pow, Nat.testBit_two_pow_sub_one, Bool.and_eq_true, decide_eq_true_eq,
      decide_eq_true_eq]
    omega
  · rw [Bool.and_self]
    exact ⟨fun h => ⟨h, by omega⟩, fun h => h.1⟩

theorem mem_dropLowest (h : ¬ d.isEmpty) : i ∈ d.dropLowest ↔ i ∈ d ∧ i ≠ d.lowest := by
  obtain ⟨hmem, hmin⟩ := lowest_spec h
  have hnat : d.dropLowest.mask.toNat = d.mask.toNat &&& (d.mask.toNat - 1) := by
    rw [dropLowest, UInt64.toNat_and, UInt64.toNat_sub_of_le _ _ (one_le_mask h), UInt64.toNat_one]
  have hbit := testBit_and_sub_one (i := i) hmem hmin
  rw [UInt64.toNat_toBitVec, ← hnat] at hbit
  exact hbit

/-- **The positions read off** are those of the domain. -/
theorem mem_positions : c ∈ d.positions ↔ c ∈ d := by
  fun_induction positions d with
  | case1 d h => exact iff_of_false List.not_mem_nil (isEmpty_iff.1 h c)
  | case2 d h ih =>
    rw [List.mem_cons, ih, mem_dropLowest h]
    constructor
    · rintro (rfl | ⟨hc, -⟩)
      · exact (lowest_spec h).1
      · exact hc
    · intro hc
      by_cases heq : c = d.lowest
      · exact .inl heq
      · exact .inr ⟨hc, heq⟩

/-- They come in ascending order. -/
theorem sorted_positions (d : Domain) : d.positions.Pairwise (· < ·) := by
  fun_induction positions d with
  | case1 d h => exact .nil
  | case2 d h ih =>
    refine List.pairwise_cons.2 ⟨fun i hi => ?_, ih⟩
    obtain ⟨hi, hne⟩ := (mem_dropLowest h).1 (mem_positions.1 hi)
    exact Nat.lt_of_le_of_ne ((lowest_spec h).2 i hi) (Ne.symm hne)

theorem length_positions (d : Domain) : d.positions.length = d.size := by
  fun_induction positions d with
  | case1 d h => rw [size, if_pos h, List.length_nil]
  | case2 d h ih => rw [size, if_neg h, List.length_cons, ih]

end Domain

end Tricolor
