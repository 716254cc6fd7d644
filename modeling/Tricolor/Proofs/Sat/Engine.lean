import Mathlib.Data.List.Basic
import Tricolor.Sat.Solver

/-!
# What engines promise

An engine is known by its calls alone. `Engine.Lawful` says what is
expected of each of them, for a relation between the states of the engine
and the problems that are put to it: variables are numbered from 0 on,
clauses are added, new assumptions replace those before, and the answer is
right about the clauses and the assumptions that are set. How the engine
decides is left open, and what it does with a literal over a variable that
it does not have, too. The engine of the library is lawful
(`Kernel.lawful`).
-/

namespace Tricolor

/-- A list of true literals that serves as a model of clauses. Variables
may be left out. -/
structure ModelLiterals (model : List Lit) (clauses : List (List Lit)) : Prop where
  consistent : ∀ l ∈ model, l.negate ∉ model
  meets : ∀ clause ∈ clauses, ∃ l ∈ clause, l ∈ model

/-- The values of a variable in a model agree. -/
theorem ModelLiterals.sign_eq {model : List Lit} {clauses : List (List Lit)} {l l' : Lit}
    (h : ModelLiterals model clauses) (hl : l ∈ model) (hl' : l' ∈ model) (hvar : l'.var = l.var) :
    l'.sign = l.sign := by
  by_contra hne
  have hneg : l' = l.negate := congrArg₂ Lit.mk hvar (Bool.eq_not.2 hne)
  exact h.consistent l hl (hneg ▸ hl')

namespace Engine

/-- What is put to an engine. -/
structure Problem where
  /-- The engine has the variables below this number. -/
  numVars : Nat
  clauses : List (List Lit)
  assumptions : List Lit

/-- The literals are over variables of the problem. -/
def Problem.Covers (p : Problem) (lits : List Lit) : Prop := ∀ l ∈ lits, l.var < p.numVars

/-- What is to be satisfied: the clauses, and a unit clause for every
assumption. -/
def Problem.goal (p : Problem) : List (List Lit) := p.clauses ++ p.assumptions.map fun l => [l]

/-- **What an engine promises**, where `Holds e p` is to say that `p` is
the problem that was put to the engine in the calls before `e`. -/
structure Lawful {E : Type} [Engine E] (Holds : E → Problem → Prop) : Prop where
  fresh : Holds Engine.fresh ⟨0, [], []⟩
  /-- Variables are numbered from 0 on, without a gap. -/
  numbering : ∀ e p, Holds e p → (newVar e).1 = p.numVars
  newVar : ∀ e p, Holds e p → Holds (newVar e).2 { p with numVars := p.numVars + 1 }
  addClause : ∀ e p clause, Holds e p → p.Covers clause →
    Holds (addClause e clause) { p with clauses := p.clauses ++ [clause] }
  /-- New assumptions replace those before. -/
  assume : ∀ e p lits, Holds e p → p.Covers lits →
    Holds (assume e lits) { p with assumptions := lits }
  /-- Solving leaves the problem as it is, assumptions included. -/
  solve : ∀ e p, Holds e p → Holds (solve e).2 p
  /-- There is an answer, which is sound and complete. -/
  answers : ∀ e p, Holds e p →
    ∃ answer, (Engine.solve e).1 = .ok answer ∧ (answer = true ↔ Satisfiable p.goal)
  /-- After a positive answer there is a model to show. -/
  shows : ∀ e p, Holds e p → (Engine.solve e).1 = .ok true →
    ∃ model, model? (Engine.solve e).2 = some model ∧ ModelLiterals model p.goal

end Engine

/-! ## The engine of the library -/

namespace Kernel

open Engine (Problem)

variable {k : Kernel} {p : Problem} {v : Valuation} {clauses : List (List Lit)}

/-- The engine keeps its problem as it is. -/
structure Holds (k : Kernel) (p : Problem) : Prop where
  numVars_eq : k.numVars = p.numVars
  clauses_eq : k.clauses.toList = p.clauses
  assumptions_eq : k.assumptions = p.assumptions
  covers : ∀ clause ∈ p.goal, p.Covers clause

theorem Holds.goal_eq (h : Holds k p) : k.goal = p.goal := by
  rw [goal, Problem.goal, h.clauses_eq, h.assumptions_eq]

/-- The true literals of a valuation are a model of what it models. -/
theorem modelLiterals_literals (hv : v.models clauses)
    (hcovers : ∀ clause ∈ clauses, ∀ l ∈ clause, l.var < k.numVars) :
    ModelLiterals (k.literals v) clauses := by
  have hmem : ∀ l : Lit, l ∈ k.literals v ↔ l.var < k.numVars ∧ v l.var = l.sign := by
    rintro ⟨var, sign⟩
    simp only [literals, List.mem_map, List.mem_range, Lit.mk.injEq]
    constructor
    · rintro ⟨i, hi, rfl, rfl⟩
      exact ⟨hi, rfl⟩
    · rintro ⟨hlt, rfl⟩
      exact ⟨var, hlt, rfl, rfl⟩
  refine ⟨fun l hl hneg => ?_, fun clause hclause => ?_⟩
  · have hsame : v l.var = !l.sign := ((hmem _).1 hneg).2
    simp [((hmem l).1 hl).2] at hsame
  · obtain ⟨l, hl, hholds⟩ := Valuation.models_iff.1 hv clause hclause
    exact ⟨l, hl, (hmem l).2 ⟨hcovers clause hclause l hl, beq_iff_eq.1 hholds⟩⟩

theorem forall_goal {P : List Lit → Prop} :
    (∀ clause ∈ p.goal, P clause) ↔
      (∀ clause ∈ p.clauses, P clause) ∧ ∀ l ∈ p.assumptions, P [l] := by
  rw [Problem.goal, List.forall_mem_append, List.forall_mem_map]

/-- **The engine of the library is lawful.** -/
theorem lawful : Engine.Lawful Holds where
  fresh := ⟨rfl, rfl, rfl, nofun⟩
  numbering k p h := h.numVars_eq
  newVar k p h := by
    refine ⟨congrArg (· + 1) h.numVars_eq, h.clauses_eq, h.assumptions_eq, ?_⟩
    exact fun clause hclause l hl => Nat.lt_succ_of_lt (h.covers clause hclause l hl)
  addClause k p clause h hcovers := by
    obtain ⟨hclauses, hassumptions⟩ := forall_goal.1 h.covers
    refine ⟨h.numVars_eq, ?_, h.assumptions_eq, forall_goal.2 ⟨?_, hassumptions⟩⟩
    · exact Array.toList_push.trans (congrArg (· ++ [clause]) h.clauses_eq)
    · exact List.forall_mem_append.2 ⟨hclauses, List.forall_mem_singleton.2 hcovers⟩
  assume k p lits h hcovers := by
    refine ⟨h.numVars_eq, h.clauses_eq, rfl, forall_goal.2 ⟨(forall_goal.1 h.covers).1, ?_⟩⟩
    exact fun l hl => List.forall_mem_singleton.2 (hcovers l hl)
  solve k p h := ⟨h.numVars_eq, h.clauses_eq, h.assumptions_eq, h.covers⟩
  answers k p h := by
    refine ⟨_, rfl, ?_⟩
    rw [Option.isSome_map, ← h.goal_eq]
    exact Decision.isSome_model? _
  shows k p h hanswer := by
    have hsome : ((Decision.ofClauses k.goal).model?.map k.literals).isSome = true :=
      Except.ok.inj hanswer
    obtain ⟨v, hv⟩ := Option.isSome_iff_exists.1 ((Option.isSome_map ..).symm.trans hsome)
    have hmodels := Decision.models_of_model? hv
    refine ⟨k.literals v, congrArg (Option.map k.literals) hv, ?_⟩
    rw [h.goal_eq] at hmodels
    refine modelLiterals_literals hmodels ?_
    rw [h.numVars_eq]
    exact h.covers

end Kernel

end Tricolor
