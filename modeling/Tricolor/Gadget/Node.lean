/-!
# Nodes of a gadget graph

A gadget graph has three reference nodes for the truth values and a
neutral one, a node for each variable and one for its negation, and six
auxiliary nodes for each clause. Labels are what errors and exports show.
-/

namespace Tricolor

namespace Gadget

/-- The nodes of the reference triangle. -/
inductive Reference where
  | truth
  | falsity
  | neutral
  deriving DecidableEq, Ord, Repr

/-- The place of an auxiliary node in the gadget of a clause
`(x₁ ∨ x₂) ∨ x₃`. -/
inductive Role where
  /-- Attached to `x₁`. -/
  | in1
  /-- Attached to `x₂`. -/
  | in2
  /-- The output of the first disjunction. -/
  | or12
  /-- Carries `x₁ ∨ x₂` into the second disjunction. -/
  | in12
  /-- Attached to `x₃`. -/
  | in3
  /-- The output of the clause, next to falsity and the neutral node. -/
  | or123
  deriving DecidableEq, Ord, Repr

namespace Role

/-- The roles in the order in which their nodes are numbered. -/
def all : List Role := [in1, in2, or12, in12, in3, or123]

/-- What a label starts with. -/
def tag : Role → String
  | in1 => "i1"
  | in2 => "i2"
  | or12 => "or12"
  | in12 => "i12"
  | in3 => "i3"
  | or123 => "or123"

end Role

/-- A node of a gadget graph. Nodes are ordered by kind, references
first; literals by variable, the negation first; auxiliary nodes by
clause and then by role. -/
inductive Node where
  | reference (r : Reference)
  | literal (var : Nat) (positive : Bool)
  | auxiliary (clause : Nat) (role : Role)
  deriving DecidableEq, Ord, Repr

namespace Node

def truth : Node := reference .truth
def falsity : Node := reference .falsity
def neutral : Node := reference .neutral

/-- The node of a signed variable number. -/
def ofLiteral (x : Int32) : Node := literal x.toInt.natAbs (decide (0 < x.toInt))

/-- The node of the negated literal; only literals have one. -/
def negated? : Node → Option Node
  | literal var positive => some (literal var !positive)
  | _ => none

/-- The label of a node. -/
def label : Node → String
  | reference .truth => "T"
  | reference .falsity => "F"
  | reference .neutral => "N"
  | literal var true => toString var
  | literal var false => "-" ++ toString var
  | auxiliary clause role => role.tag ++ "_" ++ toString clause

instance : ToString Node := ⟨label⟩

/-- Whether a node comes before another or is the same. -/
def le (a b : Node) : Bool := (compare a b).isLE

end Node

end Gadget

end Tricolor
