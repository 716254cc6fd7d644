import Tricolor.Coloring.Basic
import Tricolor.Formula.Basic
import Tricolor.Gadget.Node

/-!
# From assignments to colors and back

The colors of the reference triangle decide which color stands for truth,
which for falsity and which is neutral; every other color is overflow. An
assignment becomes a seed that colors the literals, and a coloring that
stays within the three colors becomes an assignment.
-/

namespace Tricolor

namespace Gadget

/-- The colors of the reference triangle. -/
structure ColorRoles where
  truth : Color
  falsity : Color
  neutral : Color
  deriving DecidableEq, Repr

namespace ColorRoles

/-- Green is true, red is false and blue is neutral. -/
def standard : ColorRoles := ⟨.green, .red, .blue⟩

instance : Inhabited ColorRoles := ⟨standard⟩

/-- The roles that a coloring of the reference triangle gives. -/
def ofColoring (c : Coloring Node) : Except Error ColorRoles := do
  let color (a : Node) : Except Error Color :=
    match c.get? a with
    | some color => .ok color
    | none => .error (.uncolored a.label)
  return ⟨← color .truth, ← color .falsity, ← color .neutral⟩

/-- The three colors in first-fit order: true, false, neutral. -/
def palette (r : ColorRoles) : List Color := [r.truth, r.falsity, r.neutral]

/-- The seed that colors the reference triangle. -/
def referenceSeed (r : ColorRoles) : Coloring Node :=
  Coloring.ofList [(.truth, r.truth), (.falsity, r.falsity), (.neutral, r.neutral)]

/-- Whether a color has no role. -/
def isOverflow (r : ColorRoles) (color : Color) : Bool := !r.palette.contains color

/-- The colors of a variable's node and of its negation. -/
def literalColors (r : ColorRoles) (value : Bool) : Color × Color :=
  if value then (r.truth, r.falsity) else (r.falsity, r.truth)

/-- The entries that color the literals of a variable. The number of the
variable is taken as a 32-bit literal. -/
def literalEntries (r : ColorRoles) (var : Nat) (value : Bool) : List (Node × Color) :=
  let node := Node.ofLiteral (Int32.ofNat var)
  let (color, color') := r.literalColors value
  (node, color) :: (node.negated?.map fun node' => (node', color')).toList

/-- The seed that colors the reference triangle and every literal
according to an assignment. -/
def modelSeed (r : ColorRoles) (a : Assignment) : Coloring Node :=
  (a.entries.flatMap fun (var, value) => r.literalEntries var value).foldl
    (fun c e => c.insert e.1 e.2) r.referenceSeed

/-- The first entry of a coloring with an overflow color. -/
def firstOverflow (r : ColorRoles) (c : Coloring Node) : Option (Node × Color) :=
  c.entries.find? fun e => r.isOverflow e.2

/-- The value that a coloring gives to a variable: whether its node wears
the color of truth. -/
def variableValue (r : ColorRoles) (c : Coloring Node) (var : Nat) : Except Error Bool :=
  let node := Node.literal var true
  match c.get? node with
  | some color => .ok (color == r.truth)
  | none => .error (.uncolored node.label)

/-- The values that a coloring gives to `n` variables from `var` on. The
first variable without a color is reported. -/
def valuesFrom (r : ColorRoles) (c : Coloring Node) (var : Nat) : Nat → Except Error (List Bool)
  | 0 => .ok []
  | n + 1 => do
    let value ← r.variableValue c var
    return value :: (← r.valuesFrom c (var + 1) n)

/-- The assignment to the variables `1..n` that a coloring gives. A
coloring that reached past the three colors proves nothing about the
formula and is reported as a refutation. -/
def extract (r : ColorRoles) (c : Coloring Node) (n : Nat) : Except Error Assignment :=
  match r.firstOverflow c with
  | some (node, color) => .error (.unsatisfiable (.fourthColor node.label color))
  | none => (r.valuesFrom c 1 n).map Assignment.mk

end ColorRoles

end Gadget

end Tricolor
