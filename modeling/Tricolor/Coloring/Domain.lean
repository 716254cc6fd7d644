/-!
# Domains of palette positions

The domain of an open node holds the palette positions that are left to
it, one bit of a word for each. The palettes of a search have at most 64
colors, so that all positions fit. The positions are counted and read
off by clearing the lowest bit again and again.
-/

namespace Tricolor

/-- A set of palette positions below 64: bit `c` of the mask is set if
position `c` is in it. -/
structure Domain where
  mask : UInt64
  deriving DecidableEq, Repr

namespace Domain

/-- The mask of position `c` alone. -/
def bit (c : Nat) : UInt64 := 1 <<< UInt64.ofNat c

/-- No positions. -/
def empty : Domain := ⟨0⟩

/-- All positions of a palette of `k` colors. With 64 colors there is no
bit after the last one. -/
def full (k : Nat) : Domain := ⟨if k = 64 then ~~~0 else bit k - 1⟩

/-- Whether a position is left. -/
def contains (d : Domain) (c : Nat) : Bool := d.mask &&& bit c != 0

/-- Whether no position is left. -/
def isEmpty (d : Domain) : Bool := d.mask == 0

/-- Removes a position. -/
def erase (c : Nat) (d : Domain) : Domain := ⟨d.mask &&& ~~~bit c⟩

/-- Puts a position back. -/
def restore (c : Nat) (d : Domain) : Domain := ⟨d.mask ||| bit c⟩

/-! ## Going through the positions -/

/-- The first position left, 64 if there is none. -/
def lowest (d : Domain) : Nat := (List.range 64).findIdx d.contains

/-- Removes the first position left. -/
def dropLowest (d : Domain) : Domain := ⟨d.mask &&& (d.mask - 1)⟩

theorem one_le_mask {d : Domain} (h : ¬ d.isEmpty) : 1 ≤ d.mask := by
  rw [isEmpty, beq_iff_eq, ← UInt64.toNat_inj, UInt64.toNat_zero] at h
  rw [UInt64.le_iff_toNat_le, UInt64.toNat_one]
  omega

theorem dropLowest_lt {d : Domain} (h : ¬ d.isEmpty) :
    d.dropLowest.mask.toNat < d.mask.toNat := by
  have hone := one_le_mask h
  have hle : d.dropLowest.mask.toNat ≤ (d.mask - 1).toNat := by
    rw [dropLowest, UInt64.toNat_and]
    exact Nat.and_le_right
  rw [UInt64.toNat_sub_of_le _ _ hone, UInt64.toNat_one] at hle
  rw [UInt64.le_iff_toNat_le, UInt64.toNat_one] at hone
  omega

/-- The number of positions left. -/
def size (d : Domain) : Nat :=
  if d.isEmpty then 0 else d.dropLowest.size + 1
termination_by d.mask.toNat
decreasing_by exact dropLowest_lt ‹_›

/-- The positions left, in ascending order. -/
def positions (d : Domain) : List Nat :=
  if d.isEmpty then [] else d.lowest :: d.dropLowest.positions
termination_by d.mask.toNat
decreasing_by exact dropLowest_lt ‹_›

end Domain

end Tricolor
