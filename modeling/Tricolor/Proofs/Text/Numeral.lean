import Tricolor.Proofs.Text.Split
import Tricolor.Text.Numeral

/-!
# Numerals that are written

What is printed for a number is a word, and it reads as that number:
every natural number below a bound (`below?_toString`), and every 32-bit
integer (`int32?_toString`), the least one included, whose absolute value
is out of range.
-/

namespace Tricolor

namespace Text

theorem isBlank_of_isDigit {c : Char} (h : c.isDigit) : isBlank c = false := by
  have hrange : 48 ≤ c.toNat ∧ c.toNat ≤ 57 := by
    simpa [Char.isDigit, UInt32.le_iff_toNat_le] using h
  simp [isBlank, blankRanges]
  omega

namespace Numeral

variable {n : Nat} {i : Int} {c : Char}

theorem toList_toString (n : Nat) : (toString n).toList = Nat.toDigits 10 n := by
  rw [Nat.toString_eq_repr, Nat.toList_repr]

theorem isDigit_of_mem_toDigits (h : c ∈ Nat.toDigits 10 n) : c.isDigit :=
  Nat.isDigit_of_mem_toDigits (by decide) (by decide) h

/-- What is printed for an integer: its digits, after a sign if it is
negative. -/
theorem toList_toString_int (i : Int) : (toString i).toList =
    if 0 ≤ i then Nat.toDigits 10 i.toNat else '-' :: Nat.toDigits 10 (-i).toNat := by
  rw [Int.toString_eq_repr, Int.repr_eq_if]
  split
  · rw [Nat.toList_repr]
  · rw [String.toList_append, Nat.toList_repr]
    rfl

theorem digits?_toDigits (n : Nat) : digits? (Nat.toDigits 10 n) = some n := by
  have hall : (Nat.toDigits 10 n).all Char.isDigit :=
    List.all_eq_true.2 fun c => isDigit_of_mem_toDigits
  rw [digits?, hall, Nat.ofDigitChars_toDigits (by decide) (by decide)]
  simp [Nat.toDigits_ne_nil]

/-- Digits have no sign in front. -/
theorem unsigned?_toDigits (n : Nat) : unsigned? (Nat.toDigits 10 n) = some n := by
  unfold unsigned?
  split
  · rename_i h
    have := isDigit_of_mem_toDigits (h ▸ List.mem_cons_self)
    simp at this
  · exact digits?_toDigits n

/-- Different numbers have different digits. -/
theorem toDigits_inj {n m : Nat} : Nat.toDigits 10 n = Nat.toDigits 10 m ↔ n = m := by
  refine ⟨fun h => ?_, fun h => by rw [h]⟩
  have hread := congrArg unsigned? h
  rw [unsigned?_toDigits, unsigned?_toDigits] at hread
  exact Option.some.inj hread

/-- Different numbers are printed differently. -/
theorem toList_toString_inj {n m : Nat} : (toString n).toList = (toString m).toList ↔ n = m := by
  rw [toList_toString, toList_toString, toDigits_inj]

theorem signed?_toString (i : Int) : signed? (toString i).toList = some i := by
  rw [toList_toString_int]
  split
  · rename_i hi
    unfold signed?
    split
    · rename_i h
      have := isDigit_of_mem_toDigits (h ▸ List.mem_cons_self)
      simp at this
    · rw [unsigned?_toDigits]
      exact congrArg some (Int.toNat_of_nonneg hi)
  · rename_i hi
    have hneg : -((-i).toNat : Int) = i := by omega
    rw [signed?, digits?_toDigits]
    exact congrArg some hneg

/-- **A number that is printed reads as itself**, if it is in range. -/
theorem below?_toString {bound : Nat} (h : n < bound) :
    below? bound (toString n).toList = some n := by
  rw [below?, toList_toString, unsigned?_toDigits, Option.filter_some, if_pos (decide_eq_true h)]

/-- **A 32-bit integer that is printed reads as itself.** -/
theorem int32?_toString (x : Int32) : int32? (toString x.toInt).toList = some x := by
  have hrange : (decide (Int32.minValue.toInt ≤ x.toInt) &&
      decide (x.toInt ≤ Int32.maxValue.toInt)) = true := by
    simpa using ⟨x.minValue_le_toInt, x.toInt_le⟩
  rw [int32?, signed?_toString, Option.filter_some, if_pos hrange, Option.map_some,
    Int32.ofInt_toInt]

/-! ## They are words -/

theorem eq_minus_or_isDigit_of_mem (h : c ∈ (toString i).toList) : c = '-' ∨ c.isDigit := by
  rw [toList_toString_int] at h
  split at h
  · exact .inr (isDigit_of_mem_toDigits h)
  · exact (List.mem_cons.1 h).imp_right isDigit_of_mem_toDigits

theorem solid_toString (n : Nat) : Solid (toString n).toList := by
  rw [toList_toString]
  exact ⟨Nat.toDigits_ne_nil, fun c hc => isBlank_of_isDigit (isDigit_of_mem_toDigits hc)⟩

theorem solid_toString_int (i : Int) : Solid (toString i).toList := by
  refine ⟨?_, fun c hc => ?_⟩
  · rw [toList_toString_int]
    split
    · exact Nat.toDigits_ne_nil
    · exact List.cons_ne_nil _ _
  · rcases eq_minus_or_isDigit_of_mem hc with rfl | h
    · decide
    · exact isBlank_of_isDigit h

end Numeral

end Text

end Tricolor
