/-!
# Decimal numerals

A numeral is an optional sign and at least one ASCII digit; leading
zeros are allowed. An unsigned numeral takes no minus sign, not even
before a zero.
-/

namespace Tricolor

namespace Text

namespace Numeral

/-- The number that a nonempty run of decimal digits denotes. -/
def digits? (cs : List Char) : Option Nat :=
  if !cs.isEmpty && cs.all Char.isDigit then some (Nat.ofDigitChars 10 cs 0) else none

/-- The number that digits with an optional plus sign denote. -/
def unsigned? : List Char → Option Nat
  | '+' :: cs => digits? cs
  | cs => digits? cs

/-- The number that digits with an optional sign denote. -/
def signed? : List Char → Option Int
  | '-' :: cs => (digits? cs).map fun n => -(n : Int)
  | cs => (unsigned? cs).map fun n => (n : Int)

/-- An unsigned numeral below a bound. -/
def below? (bound : Nat) (cs : List Char) : Option Nat :=
  (unsigned? cs).filter (· < bound)

/-- A signed numeral in the range of 32-bit integers. -/
def int32? (cs : List Char) : Option Int32 :=
  ((signed? cs).filter fun x => Int32.minValue.toInt ≤ x && x ≤ Int32.maxValue.toInt).map
    Int32.ofInt

end Numeral

end Text

end Tricolor
