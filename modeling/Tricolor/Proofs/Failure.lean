import Tricolor.Proofs.Coloring.Refusal
import Tricolor.Proofs.Outcome

/-!
# How a reduction fails

A reduction fails in two ways only. A formula that is not valid is
refused with the error of its own check. For a valid one the colors of
the reference triangle are checked as part of a seed, so role colors that
coincide are an invalid seed, except that a formula found to have no
model is never colored. Everything else comes to an end (`classified`),
so no check on the way from a coloring to its verdict ever fails.
-/

namespace Tricolor

namespace Reduction

open Gadget
open ColoringOracle (ChecksSeed)

variable {S : Type} [Backend S] {start : S} {f : Formula} {r : ColorRoles} {strategy : Strategy}
variable {seed : Coloring Node}

/-! ## Role colors that coincide -/

/-- A seed that colors the references is valid only if their colors
differ. -/
theorem not_validSeed_of_reference (hr : ¬ r.Distinct)
    (href : ∀ role, seed.get? (.reference role) = some (r.color role)) :
    ¬ ValidSeed (graph f) seed := by
  intro hseed
  refine hr (distinct_of_hasEdge (f := f) fun x y hxy heq => ?_)
  exact hseed.distinct _ _ _ hxy (href x) (heq ▸ href y)

theorem exists_solveWithOracle_fault {σ : Type} [ColoringOracle σ Node] {state : σ}
    (hstate : ChecksSeed state Node) (hf : f.Valid) (hr : ¬ r.Distinct) :
    ∃ fault, (solveWithOracle f state r).1 = .error (.invalidSeed fault) := by
  have hseed : ¬ ValidSeed (graph f) r.referenceSeed := not_validSeed_of_reference hr fun role =>
    get?_referenceSeed_eq_some_iff.2 ⟨role, rfl, rfl⟩
  obtain ⟨fault, hfault⟩ := hstate.exists_fault hseed r.palette
  refine ⟨fault, ?_⟩
  rw [solveWithOracle, build_eq_ok hf]
  simp only [hfault, Except.bind]

/-- A model that was found is refused as a seed. -/
theorem exists_solveModelSeeded_fault (hS : Backend.Lawful start) (hf : f.Valid)
    (hvars : (f.numVars.toNat : Int) ≤ Int32.maxValue.toInt) (hr : ¬ r.Distinct)
    (hsat : f.Satisfiable) :
    ∃ fault, solveModelSeeded start f r = .error (.invalidSeed fault) := by
  rcases solveModelSeeded_cases hS hf r with ⟨a, ha, -, hsolve⟩ | ⟨hunsat, -⟩
  · have hseed : ¬ ValidSeed (graph f) (r.modelSeed a) := by
      refine not_validSeed_of_reference hr fun role =>
        (get?_modelSeed_eq_some_iff f (ha ▸ hvars)).2 ⟨?_, rfl⟩
      cases role <;> simp [referenceNodes, Node.truth, Node.falsity, Node.neutral]
    obtain ⟨fault, hfault⟩ := exists_validateSeed_eq_error_iff.2 hseed
    exact ⟨fault, by rw [hsolve, dsatur_eq_error hfault]; rfl⟩
  · exact absurd hsat hunsat

/-- **Role colors that coincide are an invalid seed** for every strategy
that colors the graph. -/
theorem exists_solveFrom_fault (hS : Backend.Lawful start) (hf : f.Valid)
    (hvars : (f.numVars.toNat : Int) ≤ Int32.maxValue.toInt) (hr : ¬ r.Distinct)
    (hcolors : strategy = .modelSeeded → f.Satisfiable) :
    ∃ fault, solveFrom start f strategy r = .error (.invalidSeed fault) := by
  cases strategy with
  | modelSeeded => exact exists_solveModelSeeded_fault hS hf hvars hr (hcolors rfl)
  | dsatur => exact exists_solveWithOracle_fault (Dsatur.checksSeed _) hf hr
  | satColoring => exact exists_solveWithOracle_fault (SatOracle.checksSeed _) hf hr
  | backtrack => exact exists_solveWithOracle_fault (Backtracker.checksSeed _) hf hr

/-! ## Every outcome -/

/-- The outcomes of a reduction, each with its condition; no two of the
conditions go together. -/
inductive Classified (f : Formula) (r : ColorRoles) (strategy : Strategy) :
    Except Error Solution → Prop
  | invalidClause {k : Nat} {x : Int} {n : Nat} :
      f.validate = .error (.literalOutOfRange k x n) →
      Classified f r strategy (.error (.literalOutOfRange k x n))
  | invalidSeed {fault : SeedFault} :
      f.Valid → ¬ r.Distinct → (strategy = .modelSeeded → f.Satisfiable) →
      Classified f r strategy (.error (.invalidSeed fault))
  /-- Without a model nothing is colored, whatever the role colors. -/
  | refuted {s : Solution} {reason : Refutation} :
      f.Valid → strategy = .modelSeeded → ¬ f.Satisfiable → s.verdict = .unsatisfiable reason →
      Classified f r strategy (.ok s)
  | solved {s : Solution} :
      f.Valid → r.Distinct → (strategy = .modelSeeded → f.Satisfiable) →
      Classified f r strategy (.ok s)

/-- **Every outcome is one of these.** -/
theorem classified (hS : Backend.Lawful start)
    (hsize : 3 * (3 + 2 * f.numVars.toNat + 6 * f.clauses.length) < UInt32.size)
    (strategy : Strategy) (r : ColorRoles) :
    Classified f r strategy (solveFrom start f strategy r) := by
  by_cases hf : f.Valid
  · by_cases hunsat : strategy = .modelSeeded ∧ ¬ f.Satisfiable
    · obtain ⟨rfl, hunsat⟩ := hunsat
      rcases solveModelSeeded_cases hS hf r with ⟨a, ha, hsat, -⟩ | ⟨-, hsolve⟩
      · exact absurd ⟨a, ha, hsat⟩ hunsat
      · rw [solveFrom, hsolve]
        exact .refuted hf rfl hunsat rfl
    · have hcolors : strategy = .modelSeeded → f.Satisfiable := fun h =>
        by_contra fun hnone => hunsat ⟨h, hnone⟩
      by_cases hr : r.Distinct
      · obtain ⟨s, hs, -⟩ := exists_settled hS hf hsize hr strategy
        rw [hs]
        exact .solved hf hr hcolors
      · obtain ⟨hvars, -⟩ := bounds_of_size (r := r) hf hsize
        obtain ⟨fault, hfault⟩ := exists_solveFrom_fault hS hf hvars hr hcolors
        rw [hfault]
        exact .invalidSeed hf hr hcolors
  · obtain ⟨k, x, n, hvalidate⟩ := Formula.exists_validate_eq_error_iff.2 hf
    rw [solveFrom_eq_error start strategy r hvalidate]
    exact .invalidClause hvalidate

/-- **When a reduction fails, and with what.** It passes on the error of
a formula that is not valid. For a valid formula an invalid seed is
reported exactly if the role colors are not pairwise distinct, unless the
solver was asked for a model first and there is none, which is a
refutation. Every other call succeeds, and there is no other error. -/
theorem solveFrom_error_iff (hS : Backend.Lawful start)
    (hsize : 3 * (3 + 2 * f.numVars.toNat + 6 * f.clauses.length) < UInt32.size)
    (strategy : Strategy) (r : ColorRoles) :
    (∀ k x n, solveFrom start f strategy r = .error (.literalOutOfRange k x n) ↔
        f.validate = .error (.literalOutOfRange k x n)) ∧
      ((∃ k x n, solveFrom start f strategy r = .error (.literalOutOfRange k x n)) ↔
        f.validate ≠ .ok ()) ∧
      ((∃ fault, solveFrom start f strategy r = .error (.invalidSeed fault)) ↔
        f.validate = .ok () ∧ ¬ r.Distinct ∧ ¬ (strategy = .modelSeeded ∧ ¬ f.Satisfiable)) ∧
      ((∃ s, solveFrom start f strategy r = .ok s) ↔
        f.validate = .ok () ∧ (r.Distinct ∨ strategy = .modelSeeded ∧ ¬ f.Satisfiable)) ∧
      (f.validate = .ok () → strategy = .modelSeeded → ¬ f.Satisfiable →
        ∃ s reason, solveFrom start f strategy r = .ok s ∧ s.verdict = .unsatisfiable reason) ∧
      ∀ e, solveFrom start f strategy r = .error e →
        (∃ k x n, e = .literalOutOfRange k x n) ∨ ∃ fault, e = .invalidSeed fault := by
  have hclassified := classified hS hsize strategy r
  generalize solveFrom start f strategy r = outcome at hclassified
  cases hclassified with
  | invalidClause hvalidate => simp [hvalidate]
  | invalidSeed hf hr hcolors =>
    have hvalidate := Formula.validate_eq_ok_iff.2 hf
    simpa [hvalidate, hr] using hcolors
  | refuted hf hstrategy hunsat hverdict =>
    have hvalidate := Formula.validate_eq_ok_iff.2 hf
    simp [hvalidate, hstrategy, hunsat, hverdict]
  | solved hf hr hcolors =>
    have hvalidate := Formula.validate_eq_ok_iff.2 hf
    simp +contextual [hvalidate, hr, hcolors]

/-- With the solver of the library and one color for truth and falsity, a
model of `1 ∨ 1 ∨ 1` is refused as a seed, while `1 ∨ 1 ∨ 1` with
`-1 ∨ -1 ∨ -1` is refuted without a look at the colors; a clause over a
second variable is refused in any colors. -/
theorem solveFrom_error_iff_coinciding :
    (∃ fault, solve ⟨1, [⟨1, 1, 1⟩]⟩ .modelSeeded ⟨.green, .green, .blue⟩ =
      .error (.invalidSeed fault)) ∧
    (∃ s reason, solve ⟨1, [⟨1, 1, 1⟩, ⟨-1, -1, -1⟩]⟩ .modelSeeded ⟨.green, .green, .blue⟩ =
      .ok s ∧ s.verdict = .unsatisfiable reason) ∧
    solve ⟨1, [⟨1, 2, 1⟩]⟩ .backtrack ⟨.green, .green, .blue⟩ =
      .error (.literalOutOfRange 0 2 1) := by
  have hr : ¬ ColorRoles.Distinct ⟨.green, .green, .blue⟩ := fun h => h.truth_ne_falsity rfl
  refine ⟨?_, ?_, ?_⟩
  · refine (solveFrom_error_iff Solver.lawful_empty (by decide) _ _).2.2.1.2 ⟨by decide, hr, ?_⟩
    exact fun h => h.2 ⟨⟨[true]⟩, by decide, by decide⟩
  · exact (solveFrom_error_iff Solver.lawful_empty (by decide) _ _).2.2.2.2.1 (by decide) rfl
      Formula.not_satisfiable_contradictory
  · exact ((solveFrom_error_iff Solver.lawful_empty (by decide) _ _).1 0 2 1).2 (by decide)

end Reduction

end Tricolor
