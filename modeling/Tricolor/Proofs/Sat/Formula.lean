import Tricolor.Proofs.Sat.Calls

/-!
# Formulas on a running solver

A formula may be put to a solver that has been called before, which then
has more or fewer variables than the formula, holds clauses of earlier
formulas and still shows the model of an earlier call. The formula is
decided together with the clauses that are held, its variables being the
first ones of the solver; the variables that are missing are allocated
before its clauses are added, so that these are taken whole
(`solveFormula_run`).

As in `Tricolor.Proofs.Sat.Calls`, nothing is used of the engine but that
it is lawful. The example at the end is about the solver of the library.
-/

namespace Tricolor

namespace Frontend

open Backend (Loaded loadedVars loadedVars_eq_max solveFormula)
open Engine (Problem)

variable {E : Type} [Engine E] {Holds : E → Problem → Prop} {past : History} {s : Frontend E}
variable {n : Nat} {clauses : List (List Lit)}

/-! ## States and runs -/

theorem loaded_after (past : History) :
    Loaded (empty : Frontend E) (allocated past) (held past) (after E past) := by
  induction past with
  | nil => exact .start
  | cons call past ih =>
    cases call with
    | newVar => exact ih.allocate
    | addClause clause => exact ih.add clause
    | solve assumptions => exact ih.call assumptions

/-- The states that are reached are those after the runs. -/
theorem exists_after_of_loaded (h : Loaded (empty : Frontend E) n clauses s) :
    ∃ past, s = after E past ∧ allocated past = n ∧ held past = clauses := by
  induction h with
  | start => exact ⟨[], rfl, rfl, rfl⟩
  | allocate _ ih =>
    obtain ⟨past, rfl, rfl, rfl⟩ := ih
    exact ⟨.newVar :: past, rfl, rfl, rfl⟩
  | add clause _ ih =>
    obtain ⟨past, rfl, rfl, rfl⟩ := ih
    exact ⟨.addClause clause :: past, rfl, rfl, rfl⟩
  | call assumptions _ ih =>
    obtain ⟨past, rfl, rfl, rfl⟩ := ih
    exact ⟨.solve assumptions :: past, rfl, rfl, rfl⟩

/-! ## What comes of a formula -/

/-- What a valid formula leads to in a solver with the calls `past` behind
it: a result, and a solver with the calls `past'` behind it. -/
structure Decides (Holds : E → Problem → Prop) (past : History) (f : Formula)
    (result : Except Error (Option Assignment)) (past' : History) : Prop where
  /-- There is no error. -/
  answered : ∃ answer, result = .ok answer
  /-- There is no model exactly if none of the formula respects the clauses
  that the solver holds. -/
  refuted_iff : result = .ok none ↔
    ¬ ∃ v : Valuation, v.models (held past) ∧ f.isSatisfiedBy (v.assignment f.numVars.toNat)
  /-- A model has the variables of the formula and satisfies it, and
  respects these clauses. -/
  satisfied : ∀ a, result = .ok (some a) →
    (a.size = f.numVars.toNat ∧ a.numVars = f.numVars.toNat) ∧ f.isSatisfiedBy a ∧
      ∃ v : Valuation, v.models (held past) ∧ v.assignment f.numVars.toNat = a
  /-- The clauses of the formula are added with all of their literals. -/
  clauses : held past' = held past ++ f.litClauses
  /-- They are in the engine, together with those that it held. -/
  inner : ∃ assumptions, Holds (after E past').inner
    ⟨(after E past').numVars, Cnf.fromZero (held past ++ f.litClauses), assumptions⟩
  numVars : (after E past').numVars = loadedVars (allocated past) f.numVars.toNat
  /-- The missing variables are allocated and no others, as long as the
  numbers of the variables fit in 32 bits. -/
  allocates : allocated past < Lit.varBound →
    (after E past').numVars = max (allocated past) f.numVars.toNat

theorem numVars_assignment (v : Valuation) (m : UInt32) :
    (v.assignment m.toNat).numVars = m.toNat := by
  rw [Assignment.numVars, v.size_assignment]
  exact Nat.mod_eq_of_lt m.toNat_lt

/-- **A formula put to a solver in any state.** If it is not valid, its
error is the result, and the solver stays as it is. If it is valid, it is
decided together with the clauses that the solver holds. -/
theorem solveFormula_run (hE : Engine.Lawful Holds) (past : History) (f : Formula) :
    (∀ e, f.validate = .error e → solveFormula (after E past) f = (.error e, after E past)) ∧
    (f.validate = .ok () → ∃ result past',
      solveFormula (after E past) f = (result, after E past') ∧
        Decides Holds past f result past') := by
  refine ⟨fun e he => by rw [solveFormula, he], fun hok => ?_⟩
  have hf := Formula.validate_eq_ok_iff.1 hok
  obtain ⟨_, hloaded, hcases⟩ := (loaded_after past).solveFormula_cases (lawful hE) hf
  obtain ⟨past', rfl, hvars, hheld⟩ := exists_after_of_loaded hloaded
  have htracks := tracks_after hE past'
  have hnum : (after E past').numVars = loadedVars (allocated past) f.numVars.toNat :=
    htracks.stats_vars.trans hvars
  have hbound : allocated past < Lit.varBound →
      (after E past').numVars = max (allocated past) f.numVars.toNat :=
    fun hlt => hnum.trans (loadedVars_eq_max hlt _)
  have hinner : ∃ assumptions, Holds (after E past').inner
      ⟨(after E past').numVars, Cnf.fromZero (held past ++ f.litClauses), assumptions⟩ := by
    rw [numVars, htracks.stats_vars, ← hheld]
    exact htracks.inner
  rcases hcases with ⟨v, hmodels, hsat, hsolve⟩ | ⟨hnone, hsolve⟩
  · refine ⟨_, past', hsolve, ⟨_, rfl⟩, ?_, ?_, hheld, hinner, hnum, hbound⟩
    · exact iff_of_false (fun h => by cases h) fun h => h ⟨v, hmodels, hsat⟩
    · rintro a ⟨⟩
      exact ⟨⟨v.size_assignment _, numVars_assignment v _⟩, hsat, v, hmodels, rfl⟩
  · refine ⟨_, past', hsolve, ⟨_, rfl⟩, iff_of_true rfl hnone, ?_, hheld, hinner, hnum, hbound⟩
    rintro a ⟨⟩

/-- The solver of the library with three variables, of which the first one
must be false, and with a model to show. The clause `1 ∨ 1 ∨ 2` then makes
the second variable true and allocates nothing, and `1 ∨ 1 ∨ 1` has no
model. A literal that the formula itself does not have is an error, also
if the solver has its variable. -/
theorem solveFormula_run_held :
    let s : Solver := ((Solver.empty.newVar.newVar.newVar.addClause [.neg 1]).solve []).2
    (∃ s', solveFormula s ⟨2, [⟨1, 1, 2⟩]⟩ = (.ok (some ⟨[false, true]⟩), s') ∧
        s'.numVars = 3 ∧ s'.clauses.toList = [[.neg 1], [.pos 1, .pos 1, .pos 2]]) ∧
      (∃ s', solveFormula s ⟨1, [⟨1, 1, 1⟩]⟩ = (.ok none, s')) ∧
      solveFormula s ⟨1, [⟨1, 2, 1⟩]⟩ = (.error (.literalOutOfRange 0 2 1), s) := by
  intro s
  let past : History := [.solve [], .addClause [.neg 1], .newVar, .newVar, .newVar]
  have hs : s = after Kernel past := rfl
  rw [hs]
  have hfalse : ∀ v : Valuation, v.models (held past) → v 1 = false := by
    intro v hv
    have hheld : held past = [[.neg 1]] := by decide
    simpa [hheld, Valuation.models_iff, Valuation.holds, Lit.neg] using hv
  obtain ⟨-, hsat⟩ := solveFormula_run Kernel.lawful past ⟨2, [⟨1, 1, 2⟩]⟩
  obtain ⟨-, hunsat⟩ := solveFormula_run Kernel.lawful past ⟨1, [⟨1, 1, 1⟩]⟩
  obtain ⟨hinvalid, -⟩ := solveFormula_run Kernel.lawful past ⟨1, [⟨1, 2, 1⟩]⟩
  refine ⟨?_, ?_, hinvalid _ (by decide)⟩
  · obtain ⟨result, past', hsolve, h⟩ := hsat (by decide)
    have hclauses : (after Kernel past').clauses.toList =
        [[.neg 1], [.pos 1, .pos 1, .pos 2]] := by
      obtain ⟨_, hinner⟩ := h.inner
      rw [clauses, Array.toList_map, hinner.clauses_eq]
      rfl
    obtain ⟨_ | a, rfl⟩ := h.answered
    · exact absurd ⟨fun var => var == 2, by decide, by decide⟩ (h.refuted_iff.1 rfl)
    · obtain ⟨-, htrue, v, hv, rfl⟩ := h.satisfied a rfl
      have hvalues : v.assignment 2 = ⟨[false, v 2]⟩ := by rw [← hfalse v hv]; rfl
      cases h2 : v 2 with
      | true =>
        refine ⟨after Kernel past', ?_, h.allocates (by decide), hclauses⟩
        rw [hsolve, ← h2, ← hvalues]
        rfl
      | false =>
        have hvalues' : v.assignment 2 = ⟨[false, false]⟩ := by rw [hvalues, h2]
        exact absurd (hvalues' ▸ htrue) (by decide)
  · obtain ⟨result, past', hsolve, h⟩ := hunsat (by decide)
    have hnone : result = .ok none := by
      refine h.refuted_iff.2 ?_
      rintro ⟨v, hv, htrue⟩
      have hvalues : v.assignment 1 = ⟨[false]⟩ := by rw [← hfalse v hv]; rfl
      exact absurd (hvalues ▸ htrue) (by decide)
    exact ⟨after Kernel past', by rw [hsolve, hnone]⟩

end Frontend

end Tricolor
