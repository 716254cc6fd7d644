import Tricolor.Proofs.Sat.Frontend

/-!
# Whole runs of the solver

A run is a sequence of calls: a variable is allocated, a clause is added,
or the clauses are solved under assumptions. What is asked in a call is
read off the calls before it, without a solver (`allocated`, `held`,
`asked`). The solver answers this question, and shows a model of it until
it is asked again (`answers_asked`).

Of the engine nothing is used but that it is lawful. The solver goes
through its table of variables in both directions and leaves assumptions
in the engine, so that its answers are the right ones rests on
`tracks_after`: after every run the two are in step.
-/

namespace Tricolor

namespace Frontend

open Backend (isKnown query valuation)
open Engine (Problem)

/-- A call of a solver. -/
inductive Call
  | newVar
  | addClause (clause : List Lit)
  | solve (assumptions : List Lit)
  deriving DecidableEq, Repr

/-- The calls of a run, the latest first. -/
abbrev History := List Call

/-- Whether a call asks for a model. -/
def Call.isSolve : Call → Bool
  | solve _ => true
  | _ => false

/-! ## What is asked -/

/-- The number of variables that the calls allocate. -/
def allocated : History → Nat
  | [] => 0
  | .newVar :: past => allocated past + 1
  | _ :: past => allocated past

/-- The clauses that the calls add, each without the literals over
variables that were not allocated at its call. -/
def held : History → List (List Lit)
  | [] => []
  | .addClause clause :: past => held past ++ [clause.filter (isKnown (allocated past))]
  | _ :: past => held past

/-- What is to be satisfied when the next call solves under assumptions. -/
def asked (past : History) (assumptions : List Lit) : List (List Lit) :=
  query (held past) (allocated past) assumptions

/-- The calls that allocate and add. -/
def given (past : History) : History := past.filter fun call => !call.isSolve

theorem allocated_given (past : History) : allocated (given past) = allocated past := by
  induction past with
  | nil => rfl
  | cons call past ih =>
    cases call with
    | newVar => exact congrArg (· + 1) ih
    | addClause _ | solve _ => exact ih

theorem held_given (past : History) : held (given past) = held past := by
  induction past with
  | nil => rfl
  | cons call past ih =>
    cases call with
    | newVar | solve _ => exact ih
    | addClause clause =>
      show held (given past) ++ [clause.filter (isKnown (allocated (given past)))] = _
      rw [ih, allocated_given, held]

/-- Earlier assumptions have no effect: what is asked depends on the
calls that allocate and add, and on the assumptions of this call. -/
theorem asked_given (past : History) (assumptions : List Lit) :
    asked (given past) assumptions = asked past assumptions := by
  rw [asked, held_given, allocated_given, asked]

/-! ## What is answered -/

/-- The solver after some calls. -/
def after (E : Type) [Engine E] : History → Frontend E
  | [] => empty
  | .newVar :: past => (after E past).newVar
  | .addClause clause :: past => (after E past).addClause clause
  | .solve assumptions :: past => ((after E past).solve assumptions).2

variable {E : Type} [Engine E] {Holds : E → Problem → Prop} {past later : History}

/-- **The solver and its engine are in step after every run.** -/
theorem tracks_after (hE : Engine.Lawful Holds) (past : History) :
    Tracks Holds (after E past) (allocated past) (held past) := by
  induction past with
  | nil => exact tracks_empty hE
  | cons call past ih =>
    cases call with
    | newVar => exact ih.newVar hE
    | addClause clause => exact ih.addClause hE clause
    | solve assumptions => exact ih.solve hE assumptions

/-- The number of a new variable is one more than there are variables. -/
theorem allocate_after (hE : Engine.Lawful Holds) (past : History) :
    (after E past).allocate.1 = (allocated past + 1) % Lit.varBound := by
  have hsize : (after E past).vars.size = allocated past := by
    rw [(tracks_after hE past).vars, Array.size_range]
  show ((after E past).vars.push _).size % Lit.varBound = _
  rw [Array.size_push, hsize]

/-! ## What is shown -/

/-- Nothing but a call that solves changes the values shown. -/
theorem value?_after_append (past : History) (h : ∀ call ∈ later, call.isSolve = false)
    (var : Nat) : (after E (later ++ past)).value? var = (after E past).value? var := by
  induction later with
  | nil => rfl
  | cons call later ih =>
    have hlater := ih fun c hc => h c (.tail call hc)
    cases call with
    | newVar | addClause _ => exact hlater
    | solve _ => exact Bool.noConfusion (h _ (.head later))

/-- Without a call that solves, nothing is shown. -/
theorem value?_after_eq_none (h : ∀ call ∈ past, call.isSolve = false) (var : Nat) :
    (after E past).value? var = none := by
  have hfresh := value?_after_append (E := E) [] h var
  rw [List.append_nil] at hfresh
  rw [hfresh]
  cases var <;> rfl

/-- **Every call is answered.** Before the first call that solves, no
value is shown. Such a call answers whether there is a model of what the
calls that allocate and add and its own assumptions amount to. Up to the
next one, values are shown for exactly the variables that were allocated
then, and form such a model, if there is one; otherwise none is shown. -/
theorem answers_asked (hE : Engine.Lawful Holds) :
    (∀ past : History, (∀ call ∈ past, call.isSolve = false) →
      ∀ var, (after E past).value? var = none) ∧
    ∀ (past : History) (assumptions : List Lit), ∃ answer,
      ((after E past).solve assumptions).1 = .ok answer ∧
      (answer = true ↔ Satisfiable (asked (given past) assumptions)) ∧
      ∀ later : History, (∀ call ∈ later, call.isSolve = false) →
        (∀ var, (after E (later ++ .solve assumptions :: past)).value? var =
          ((after E past).solve assumptions).2.value? var) ∧
        (answer = true →
          (∀ var, ((after E (later ++ .solve assumptions :: past)).value? var).isSome ↔
            1 ≤ var ∧ var ≤ allocated past) ∧
          (valuation (after E (later ++ .solve assumptions :: past))).models
            (asked (given past) assumptions)) ∧
        (answer = false →
          ∀ var, (after E (later ++ .solve assumptions :: past)).value? var = none) := by
  refine ⟨fun past h => value?_after_eq_none h, fun past assumptions => ?_⟩
  rw [asked_given]
  obtain ⟨s', -, hcases⟩ := (tracks_after hE past).solve_cases hE assumptions
  have hkept : ∀ later : History, (∀ call ∈ later, call.isSolve = false) → ∀ var,
      (after E (later ++ .solve assumptions :: past)).value? var =
        ((after E past).solve assumptions).2.value? var :=
    fun later hlater => value?_after_append (.solve assumptions :: past) hlater
  rcases hcases with ⟨hsolve, hshown, hmodels⟩ | ⟨hsolve, hshown, hunsat⟩
  · rw [hsolve] at hkept ⊢
    refine ⟨true, rfl, iff_of_true rfl ⟨_, hmodels⟩, fun later hlater => ?_⟩
    refine ⟨hkept later hlater, fun _ => ⟨fun var => ?_, ?_⟩, nofun⟩
    · rw [hkept later hlater]
      exact hshown var
    · have hvaluation : valuation (after E (later ++ .solve assumptions :: past)) = valuation s' :=
        funext fun var => congrArg (·.getD false) (hkept later hlater var)
      rwa [hvaluation]
  · rw [hsolve] at hkept ⊢
    refine ⟨false, rfl, iff_of_false Bool.false_ne_true hunsat, fun later hlater => ?_⟩
    refine ⟨hkept later hlater, nofun, fun _ var => ?_⟩
    rw [hkept later hlater]
    exact hshown var

/-- Two variables and two clauses: the first variable is false, and one
of three is true, of which the third is not allocated. There is a model,
which a later allocation leaves as it is, and none in which the second
variable is false, too. -/
theorem answers_asked_two_variables :
    let past : History := [.addClause [.pos 1, .pos 2, .pos 3], .addClause [.neg 1],
      .newVar, .newVar]
    (after Kernel past).value? 1 = none ∧
    ((after Kernel past).solve []).1 = .ok true ∧
    (after Kernel (.newVar :: .solve [] :: past)).value? 1 = some false ∧
    (after Kernel (.newVar :: .solve [] :: past)).value? 2 = some true ∧
    (after Kernel (.newVar :: .solve [] :: past)).value? 3 = none ∧
    ((after Kernel (.solve [] :: past)).solve [.neg 2]).1 = .ok false ∧
    (after Kernel (.solve [.neg 2] :: .solve [] :: past)).value? 1 = none ∧
    ((after Kernel (.solve [.neg 2] :: .solve [] :: past)).solve []).1 = .ok true := by
  intro past
  have hasked : asked (given past) [] = [[.neg 1], [.pos 1, .pos 2]] := by decide
  have hasked' : asked (given (.solve [] :: past)) [.neg 2] =
      [[.neg 1], [.pos 1, .pos 2], [.neg 2]] := by decide
  have hsat : Satisfiable [[.neg 1], [.pos 1, .pos 2]] := ⟨fun var => var == 2, by decide⟩
  have hunsat : ¬ Satisfiable [[.neg 1], [.pos 1, .pos 2], [.neg 2]] := by
    rintro ⟨v, hv⟩
    simp only [Valuation.models_iff, Valuation.holds, Lit.pos, Lit.neg] at hv
    cases h1 : v 1 <;> simp [h1] at hv
  obtain ⟨hbefore, hsolve⟩ := answers_asked Kernel.lawful
  obtain ⟨_, hyes, hiff, hshown⟩ := hsolve past []
  obtain ⟨_, hno, hiff', hshown'⟩ := hsolve (.solve [] :: past) [.neg 2]
  obtain ⟨_, hagain, hiff'', -⟩ := hsolve (.solve [.neg 2] :: .solve [] :: past) []
  rw [hasked] at hiff hshown
  rw [hasked'] at hiff'
  obtain rfl := hiff.2 hsat
  obtain rfl := Bool.eq_false_iff.2 fun h => hunsat (hiff'.1 h)
  obtain rfl := hiff''.2 hsat
  obtain ⟨-, hmodel, -⟩ := hshown [.newVar] (by decide)
  obtain ⟨hsome, hmodels⟩ := hmodel rfl
  have hvalue {var : Nat} (h : 1 ≤ var ∧ var ≤ 2) :
      (after Kernel (.newVar :: .solve [] :: past)).value? var =
        some (valuation (after Kernel (.newVar :: .solve [] :: past)) var) :=
    (Option.getD_of_ne_none (Option.isSome_iff_ne_none.1 ((hsome var).2 h)) false).symm
  have hvalues : valuation (after Kernel (.newVar :: .solve [] :: past)) 1 = false ∧
      valuation (after Kernel (.newVar :: .solve [] :: past)) 2 = true := by
    simp [Valuation.models_iff, Valuation.holds, Lit.pos, Lit.neg] at hmodels
    exact hmodels.imp_right fun h => h.resolve_left (by simp [hmodels.1])
  have hunallocated := (hsome 3).not.2 (by decide)
  obtain ⟨-, -, hdropped⟩ := hshown' [] (by decide)
  refine ⟨hbefore past (by decide) 1, hyes, ?_, ?_, ?_, hno, hdropped rfl 1, hagain⟩
  · rw [hvalue (by decide), hvalues.1]
  · rw [hvalue (by decide), hvalues.2]
  · exact Option.not_isSome_iff_eq_none.1 hunallocated

end Frontend

end Tricolor
