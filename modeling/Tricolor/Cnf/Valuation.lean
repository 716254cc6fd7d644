import Tricolor.Cnf.Basic

/-!
# Valuations

A valuation gives every variable a truth value. Clauses are satisfiable
if some valuation makes a literal of each of them true.
-/

namespace Tricolor

theorem Lit.negate_negate (l : Lit) : l.negate.negate = l := by
  simp [Lit.negate]

/-- A truth value for every variable. -/
abbrev Valuation := Nat → Bool

namespace Valuation

/-- Whether a literal is true. -/
def holds (v : Valuation) (l : Lit) : Bool := v l.var == l.sign

/-- Whether some literal of a clause is true. -/
def satisfies (v : Valuation) (clause : List Lit) : Bool := clause.any v.holds

/-- Whether every clause has a true literal. -/
def models (v : Valuation) (clauses : List (List Lit)) : Bool := clauses.all v.satisfies

theorem holds_negate (v : Valuation) (l : Lit) : v.holds l.negate = !v.holds l := by
  simp only [holds, Lit.negate]
  cases v l.var <;> cases l.sign <;> rfl

theorem models_iff {v : Valuation} {clauses : List (List Lit)} :
    v.models clauses ↔ ∀ clause ∈ clauses, ∃ l ∈ clause, v.holds l := by
  simp [models, satisfies]

end Valuation

/-- Whether some valuation makes every clause true. -/
def Satisfiable (clauses : List (List Lit)) : Prop := ∃ v : Valuation, v.models clauses

end Tricolor
