/-!
# Colors

A color is a number of 32 bits. The first four have names; higher numbers
appear only once a coloring has run past them. The default palette lists
the three colors of a 3-coloring in the order a greedy coloring tries
them.
-/

namespace Tricolor

/-- A color, identified by its number. -/
structure Color where
  /-- The number of the color. -/
  number : BitVec 32
  deriving DecidableEq, Repr

namespace Color

/-- The number of a color, counted from 0. -/
def index (c : Color) : Nat := c.number.toNat

def green : Color := ⟨0⟩
def red : Color := ⟨1⟩
def blue : Color := ⟨2⟩
def grey : Color := ⟨3⟩

/-- The display name: a word for the first four colors, the number
behind `color` for every other. -/
def name (c : Color) : String :=
  match c.index with
  | 0 => "green"
  | 1 => "red"
  | 2 => "blue"
  | 3 => "grey"
  | n => "color" ++ toString n

instance : ToString Color := ⟨name⟩

/-- Colors are ordered by number. -/
def le (a b : Color) : Bool := decide (a.index ≤ b.index)

/-- Three colors in first-fit order: green, red, blue. -/
def threePalette : List Color := [green, red, blue]

/-- The colors with the numbers below `n`, in order. -/
def below (n : Nat) : List Color := (List.range n).map fun i => ⟨BitVec.ofNat 32 i⟩

theorem index_lt (c : Color) : c.index < UInt32.size := c.number.isLt

theorem ext_index {a b : Color} (h : a.index = b.index) : a = b := by
  cases a
  cases b
  exact congrArg Color.mk (BitVec.eq_of_toNat_eq h)

/-- A number that fits into 32 bits is that of its color. -/
theorem index_ofNat {n : Nat} (h : n < UInt32.size) : (⟨BitVec.ofNat 32 n⟩ : Color).index = n :=
  Nat.mod_eq_of_lt h

theorem ofNat_index (c : Color) : (⟨BitVec.ofNat 32 c.index⟩ : Color) = c :=
  congrArg Color.mk (BitVec.ofNat_toNat ..)

end Color

end Tricolor
