import Tricolor.Formula.Basic
import Tricolor.Gadget.Node
import Tricolor.Graph.Basic

/-!
# The gadget graph of a formula

The reference nodes form a triangle, and so does each variable with its
negation and the neutral node: in a 3-coloring a literal wears the color
of truth or of falsity. Each clause adds two chained disjunctions whose
output stands next to falsity and the neutral node, so that it must wear
the color of truth, which is possible exactly if one of the three
literals does. The graph has a 3-coloring exactly if the formula has a
model.
-/

namespace Tricolor

namespace Gadget

/-- The edges of the reference triangle. -/
def referenceEdges : List (Node × Node) :=
  [(.truth, .falsity), (.neutral, .falsity), (.truth, .neutral)]

/-- The edges of the triangle of a variable. -/
def variableEdges (var : Nat) : List (Node × Node) :=
  [(.literal var true, .literal var false), (.literal var true, .neutral),
    (.literal var false, .neutral)]

/-- The auxiliary nodes of clause `k`, in the order of their roles. -/
def clauseNodes (k : Nat) : List Node := Role.all.map (.auxiliary k)

/-- The edges of the gadget of clause `k`. -/
def clauseEdges (k : Nat) (c : Clause) : List (Node × Node) :=
  let x₁ := Node.ofLiteral c.first
  let x₂ := Node.ofLiteral c.second
  let x₃ := Node.ofLiteral c.third
  let aux := Node.auxiliary k
  [(x₁, aux .in1), (x₂, aux .in2), (aux .in1, aux .in2), (aux .in1, aux .or12),
    (aux .in2, aux .or12), (aux .or12, aux .in12), (x₃, aux .in3), (aux .in12, aux .in3),
    (aux .in12, aux .or123), (aux .in3, aux .or123), (aux .or123, .falsity),
    (aux .or123, .neutral)]

/-- The reference triangle with the triangles of the variables `1..n`. -/
def skeleton (n : Nat) : Graph Node :=
  (List.range' 1 n).foldl (fun g var => g.joinAll (variableEdges var))
    (Graph.empty.joinAll referenceEdges)

/-- Adds the gadget of clause `k`. -/
def addClause (g : Graph Node) (k : Nat) (c : Clause) : Graph Node :=
  g.joinAll (clauseEdges k c)

/-- The graph of a formula, built without looking at its validity. -/
def graph (f : Formula) : Graph Node :=
  f.clauses.zipIdx.foldl (fun g (c, k) => addClause g k c) (skeleton f.numVars.toNat)

/-- The gadget graph of a formula, which must be valid. -/
def build (f : Formula) : Except Error (Graph Node) := do
  f.validate
  return graph f

end Gadget

end Tricolor
