import Tricolor.Color

/-!
# First fit

A node takes the first color of the palette that its colored neighbors
leave free. Once the palette is exhausted, the colors outside it are
handed out in the order of their numbers.
-/

namespace Tricolor

/-- Tries the numbers from `k` on, `left` of them, until one is neither in
the palette nor taken. -/
def overflowFrom (taken palette : List Color) : (left : Nat) → (k : BitVec 32) → Option Color
  | 0, _ => none
  | left + 1, k =>
    if !palette.contains ⟨k⟩ && !taken.contains ⟨k⟩ then some ⟨k⟩
    else overflowFrom taken palette left (k + 1)

/-- The first color of the palette that is not taken, or else the lowest
color that is neither in the palette nor taken. There are as many numbers
as fit in 32 bits. The search does not check its counter: if every number
is in use, it runs past the last one and has no result. -/
def firstFit (taken palette : List Color) : Option Color :=
  match palette.find? fun c => !taken.contains c with
  | some c => some c
  | none => overflowFrom taken palette UInt32.size 0

end Tricolor
