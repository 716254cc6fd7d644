/-!
# Marks on numbers

A set of numbers in which membership is one look-up. It remembers every
number that was ever put in, so that its members can be listed without
going through all numbers.
-/

namespace Tricolor

/-- A set of numbers. -/
structure Marks where
  /-- Whether each number is in the set; past the end none is. -/
  bits : Array Bool
  /-- Every number that was put in, the last one first. -/
  touched : List Nat
  mem_touched : ∀ n, bits[n]? = some true → n ∈ touched

namespace Marks

/-- The empty set, with room for numbers below `size`. -/
def empty (size : Nat) : Marks := ⟨Array.replicate size false, [], by simp [Array.getElem?_replicate]⟩

/-- Whether a number is in the set. -/
def contains (m : Marks) (n : Nat) : Bool := m.bits.getD n false

/-- Bits with room for the number `n`. -/
def reach (bits : Array Bool) (n : Nat) : Array Bool :=
  if n < bits.size then bits else bits ++ Array.replicate (n + 1 - bits.size) false

theorem reach_eq (bits : Array Bool) (n k : Nat) :
    (reach bits n)[k]? = some true ↔ bits[k]? = some true := by
  unfold reach
  split
  · rfl
  · rw [Array.getElem?_append]
    split
    · rfl
    · simp [Array.getElem?_replicate]
      grind

theorem lt_size_reach (bits : Array Bool) (n : Nat) : n < (reach bits n).size := by
  unfold reach
  split
  · assumption
  · simp only [Array.size_append, Array.size_replicate]
    omega

/-- Puts a number in. -/
def insert (m : Marks) (n : Nat) : Marks :=
  if m.contains n then m
  else
    { bits := (reach m.bits n).setIfInBounds n true
      touched := n :: m.touched
      mem_touched := fun k hk => by
        rw [Array.getElem?_setIfInBounds] at hk
        have := m.mem_touched k
        have := reach_eq m.bits n k
        grind }

/-- Takes a number out. -/
def erase (m : Marks) (n : Nat) : Marks :=
  { m with
    bits := m.bits.setIfInBounds n false
    mem_touched := fun k hk => by
      rw [Array.getElem?_setIfInBounds] at hk
      have := m.mem_touched k
      grind }

/-- The members of the set. -/
def toList (m : Marks) : List Nat := m.touched.filter m.contains

theorem contains_iff {m : Marks} {n : Nat} : m.contains n ↔ m.bits[n]? = some true := by
  simp only [contains, Array.getD_eq_getD_getElem?]
  cases m.bits[n]? <;> simp

theorem contains_insert {m : Marks} {n k : Nat} :
    (m.insert n).contains k ↔ k = n ∨ m.contains k := by
  unfold insert
  split
  · grind
  · rw [contains_iff, contains_iff, Array.getElem?_setIfInBounds]
    have := lt_size_reach m.bits n
    have := reach_eq m.bits n k
    grind

theorem contains_erase {m : Marks} {n k : Nat} :
    (m.erase n).contains k ↔ k ≠ n ∧ m.contains k := by
  simp only [erase, contains_iff]
  rw [Array.getElem?_setIfInBounds]
  grind

theorem mem_toList {m : Marks} {n : Nat} : n ∈ m.toList ↔ m.contains n := by
  simp only [toList, List.mem_filter, and_iff_right_iff_imp]
  exact fun h => m.mem_touched n (contains_iff.1 h)

end Marks

end Tricolor
