import Tricolor.Coloring.SatOracle
import Tricolor.Proofs.Coloring.Encoding
import Tricolor.Proofs.Sat.Backend

/-!
# Coloring through satisfiability is exact

With a lawful solver the oracle answers exactly: the solver decides the
formula of the problem, whose models are the placements, and the model it
shows is decoded into the coloring of one.
-/

namespace Tricolor

namespace SatOracle

variable {S : Type} [Backend S] {start : S} {α : Type} [DecidableEq α] [ToString α]
variable {g : Graph α} {seed : Coloring α} {palette : List Color}

/-- **With a lawful solver the answer is exact.** -/
theorem exact_colorWith (hS : Backend.Lawful start) (hseed : ValidSeed g seed)
    (hpalette : ∀ a color, seed.get? a = some color → color ∈ palette)
    (hsize : g.nodeCount * palette.length < Lit.varBound) :
    Exact g seed palette (colorWith start g seed palette).1 := by
  rw [colorWith, Encoding.encode_eq_ok hseed hpalette hsize]
  rcases hS.solve_loadCnf (Encoding.within_clauses hsize) with
    ⟨s, hsolve, hmodels⟩ | ⟨s, hsolve, hunsat⟩
  · obtain ⟨p, c, hp, hc, hdecode⟩ := Encoding.exists_decode
      ⟨g.nodeCount * palette.length, Encoding.clauses g seed palette⟩ hseed hpalette hmodels
    simp only [hsolve, hdecode]
    exact .found hp hc
  · simp only [hsolve]
    refine .refuted ?_
    rintro ⟨p, hp⟩
    exact hunsat ⟨_, Encoding.models_valuation hseed hpalette hsize hp⟩

end SatOracle

end Tricolor
