import Tricolor.Cnf.Valuation

/-!
# Decisions about clauses

A decision is an answer that carries what shows that it is right: a
valuation under which every clause has a true literal, or a proof that
there is none.
-/

namespace Tricolor

/-- The answer to whether clauses are satisfiable. -/
inductive Decision (clauses : List (List Lit)) where
  | model (v : Valuation) (models : v.models clauses)
  | refuted (unsatisfiable : ¬ Satisfiable clauses)

namespace Decision

variable {clauses : List (List Lit)}

/-- The valuation of a positive answer. -/
def model? : Decision clauses → Option Valuation
  | model v _ => some v
  | refuted _ => none

theorem models_of_model? {d : Decision clauses} {v : Valuation} (h : d.model? = some v) :
    v.models clauses := by
  cases d with
  | model w hw =>
    cases h
    exact hw
  | refuted _ => simp [model?] at h

theorem isSome_model? (d : Decision clauses) : d.model?.isSome ↔ Satisfiable clauses := by
  cases d with
  | model v hv => simpa [model?] using ⟨v, hv⟩
  | refuted h => simpa [model?] using h

end Decision

end Tricolor
