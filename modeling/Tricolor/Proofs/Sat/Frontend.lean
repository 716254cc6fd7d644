import Tricolor.Proofs.Sat.Backend
import Tricolor.Proofs.Sat.Engine

/-!
# The solver keeps in step with its engine

With a lawful engine the table of variables is `0, 1, 2, …`, and the
engine holds the clauses that the solver was given, with variables counted
from 0 (`Tracks`). Every call keeps this. A call that solves sets its own
assumptions first, so the engine answers the question that the caller
asks, and the values read back through the table are those of its model
(`Tracks.solve_cases`). A solver with a lawful engine is therefore lawful
itself (`Frontend.lawful`).
-/

namespace Tricolor

open Backend (isKnown query valuation Loaded)
open Engine (Problem)

/-! ## Variables counted from 0 -/

/-- The literal with its variable counted from 0. -/
def Lit.fromZero (l : Lit) : Lit := ⟨l.var - 1, l.sign⟩

/-- Clauses with variables counted from 0. -/
def Cnf.fromZero (clauses : List (List Lit)) : List (List Lit) :=
  clauses.map fun clause => clause.map Lit.fromZero

section FromZero

variable {n : Nat} {v : Valuation} {clauses : List (List Lit)} {assumptions : List Lit}

/-- A valuation of the variables from 0 on is one of the variables from 1
on. -/
theorem Valuation.models_fromZero :
    v.models (Cnf.fromZero clauses) = Valuation.models (fun var => v (var - 1)) clauses := by
  rw [models, models, Cnf.fromZero, List.all_map]
  refine congrArg _ (funext fun clause => ?_)
  rw [Function.comp, satisfies, List.any_map]
  rfl

theorem satisfiable_fromZero_iff (hwithin : Cnf.Within n clauses) :
    Satisfiable (Cnf.fromZero clauses) ↔ Satisfiable clauses := by
  constructor
  · rintro ⟨v, hv⟩
    exact ⟨_, Valuation.models_fromZero.symm.trans hv⟩
  · rintro ⟨v, hv⟩
    refine ⟨fun i => v (i + 1), Valuation.models_fromZero.trans ?_⟩
    rw [Valuation.models_iff] at hv ⊢
    intro clause hclause
    obtain ⟨l, hl, hholds⟩ := hv clause hclause
    have hvar : l.var - 1 + 1 = l.var := Nat.sub_add_cancel (hwithin clause hclause l hl).1
    exact ⟨l, hl, by rwa [Valuation.holds, hvar]⟩

/-- What the engine is to satisfy is what is asked, counted from 0. -/
theorem goal_fromZero :
    Problem.goal ⟨n, Cnf.fromZero clauses, (assumptions.filter (isKnown n)).map Lit.fromZero⟩ =
      Cnf.fromZero (query clauses n assumptions) := by
  simp only [Problem.goal, query, Cnf.fromZero, List.map_append, List.map_map, Function.comp_def,
    List.map_cons, List.map_nil]

theorem covers_fromZero {lits : List Lit} (hlits : ∀ l ∈ lits, 0 < l.var ∧ l.var ≤ n) {p : Problem}
    (hp : p.numVars = n) : p.Covers (lits.map Lit.fromZero) := by
  refine List.forall_mem_map.2 fun l hl => ?_
  obtain ⟨hpos, hle⟩ := hlits l hl
  show l.var - 1 < p.numVars
  omega

end FromZero

namespace Frontend

variable {E : Type} {n var : Nat} {model : List Lit}

/-! ## The table -/

theorem translate?_range (n : Nat) (l : Lit) :
    translate? (Array.range n) l = if isKnown n l then some l.fromZero else none := by
  obtain ⟨var, sign⟩ := l
  cases var with
  | zero => rfl
  | succ i =>
    have hknown : isKnown n ⟨i + 1, sign⟩ = decide (i < n) :=
      decide_eq_decide.2 (and_iff_right (Nat.succ_pos i))
    rw [translate?, if_neg (Nat.succ_ne_zero i), hknown]
    by_cases hi : i < n
    · simp [hi, Lit.fromZero]
    · simp [hi]

/-- Literals over variables that are not allocated are dropped, and those
that are left are counted from 0. -/
theorem translate_range (n : Nat) (lits : List Lit) :
    translate (Array.range n) lits = (lits.filter (isKnown n)).map Lit.fromZero := by
  rw [translate, ← List.filterMap_eq_map, List.filterMap_filter]
  exact List.filterMap_congr fun l _ => translate?_range n l

/-- A slot in which one value only is set holds it in the end. -/
theorem getElem?_foldl_setIfInBounds {slots : Array Bool} {i : Nat} {value : Bool}
    (hi : i < slots.size) (hsame : ∀ l ∈ model, l.var = i → l.sign = value)
    (h : slots[i]? = some value ∨ ∃ l ∈ model, l.var = i) :
    (model.foldl (fun slots l => slots.setIfInBounds l.var l.sign) slots)[i]? = some value := by
  induction model generalizing slots with
  | nil => exact h.resolve_right nofun
  | cons l model ih =>
    obtain ⟨hl, hmodel⟩ := List.forall_mem_cons.1 hsame
    refine ih (by rwa [Array.size_setIfInBounds]) hmodel ?_
    rw [Array.getElem?_setIfInBounds]
    by_cases hvar : l.var = i
    · exact .inl (by rw [if_pos hvar, if_pos (hvar ▸ hi), hl hvar])
    · rw [if_neg hvar]
      refine h.imp_right ?_
      rintro ⟨l', hl', hvar'⟩
      rcases List.mem_cons.1 hl' with rfl | hl'
      · exact absurd hvar' hvar
      · exact ⟨l', hl', hvar'⟩

/-- A literal of the model is true in its slot. -/
theorem getElem?_byNumber {clauses : List (List Lit)} {l : Lit} {size : Nat}
    (hmodel : ModelLiterals model clauses) (hl : l ∈ model) (hlt : l.var < size) :
    (byNumber size model)[l.var]? = some l.sign :=
  getElem?_foldl_setIfInBounds (by rwa [Array.size_replicate])
    (fun _ hl' hvar => hmodel.sign_eq hl hl' hvar) (.inr ⟨l, hl, rfl⟩)

theorem getElem?_readBack (n i : Nat) (model : List Lit) :
    (readBack (Array.range n) model)[i]? =
      if i < n then some ((byNumber n model)[i]?.getD false) else none := by
  rw [readBack, Array.getElem?_map, Array.size_range]
  by_cases hi : i < n
  · simp [hi]
  · simp [hi]

/-! ## What the engine holds -/

variable [Engine E] {Holds : E → Problem → Prop} {s : Frontend E} {clauses : List (List Lit)}
variable {assumptions : List Lit}

/-- A solver with `n` variables and some clauses, and its engine in step
with it. -/
structure Tracks (Holds : E → Problem → Prop) (s : Frontend E) (n : Nat)
    (clauses : List (List Lit)) : Prop where
  vars : s.vars = Array.range n
  stats_vars : s.stats.vars = n
  within : Cnf.Within n clauses
  inner : ∃ assumptions, Holds s.inner ⟨n, Cnf.fromZero clauses, assumptions⟩

theorem tracks_empty (hE : Engine.Lawful Holds) : Tracks Holds (empty : Frontend E) 0 [] :=
  ⟨rfl, rfl, nofun, [], hE.fresh⟩

/-- **A new variable goes into its place**: the number that the engine has
for it is the next one in the table. -/
theorem Tracks.newVar (hE : Engine.Lawful Holds) (h : Tracks Holds s n clauses) :
    Tracks Holds s.newVar (n + 1) clauses := by
  obtain ⟨assumptions, hinner⟩ := h.inner
  have hvars : s.newVar.vars = Array.range (n + 1) := by
    show s.vars.push (Engine.newVar s.inner).1 = _
    rw [h.vars, hE.numbering _ _ hinner, Array.range_succ]
    exact Array.push_eq_append
  refine ⟨hvars, ?_, fun clause hclause l hl => ?_, assumptions, hE.newVar _ _ hinner⟩
  · show s.newVar.vars.size = _
    rw [hvars, Array.size_range]
  · exact (h.within clause hclause l hl).imp_right Nat.le_succ_of_le

theorem Tracks.addClause (hE : Engine.Lawful Holds) (h : Tracks Holds s n clauses)
    (clause : List Lit) :
    Tracks Holds (s.addClause clause) n (clauses ++ [clause.filter (isKnown n)]) := by
  obtain ⟨assumptions, hinner⟩ := h.inner
  have hwithin : Cnf.Within n [clause.filter (isKnown n)] := Backend.within_filter_isKnown
  refine ⟨h.vars, h.stats_vars, Cnf.within_append.2 ⟨h.within, hwithin⟩, assumptions, ?_⟩
  have hnext := hE.addClause _ _ _ hinner (covers_fromZero (hwithin _ (.head _)) rfl)
  rw [← translate_range, ← h.vars] at hnext
  have hclauses : Cnf.fromZero (clauses ++ [clause.filter (isKnown n)]) =
      Cnf.fromZero clauses ++ [translate s.vars clause] := by
    rw [Cnf.fromZero, List.map_append, h.vars, translate_range]
    rfl
  rw [hclauses]
  exact hnext

/-! ## Calls that solve -/

/-- What is asked of the engine in a call. -/
def ask (s : Frontend E) (assumptions : List Lit) : Except String Bool × E :=
  Engine.solve (Engine.assume s.inner (translate s.vars assumptions))

/-- The counts after a call that solves. -/
def counted (s : Frontend E) : SolverStats := { s.stats with solveCalls := s.stats.solveCalls + 1 }

variable {inner : E}

theorem solve_of_ask_true (h : s.ask assumptions = (.ok true, inner)) :
    s.solve assumptions = (.ok true, ⟨inner, s.vars,
      some (readBack s.vars ((Engine.model? inner).getD [])), s.counted⟩) := by
  rw [ask] at h
  simp only [solve, h]
  rfl

theorem solve_of_ask_false (h : s.ask assumptions = (.ok false, inner)) :
    s.solve assumptions = (.ok false, ⟨inner, s.vars, none, s.counted⟩) := by
  rw [ask] at h
  simp only [solve, h]
  rfl

/-- An engine that fails passes on its reason, and leaves no model to
show. -/
theorem value?_of_ask_error {reason : String} (h : s.ask assumptions = (.error reason, inner)) :
    (s.solve assumptions).1 = .error (.oracle backendName (.reported reason)) ∧
      ∀ var, (s.solve assumptions).2.value? var = none := by
  rw [ask] at h
  simp only [solve, h, true_and]
  intro var
  rw [value?]
  split <;> rfl

/-- **The assumptions of a call are its own**: whatever the engine assumed
before, it assumes these now. -/
theorem Tracks.assume (hE : Engine.Lawful Holds) (h : Tracks Holds s n clauses)
    (assumptions : List Lit) :
    Holds (Engine.assume s.inner (translate s.vars assumptions))
      ⟨n, Cnf.fromZero clauses, (assumptions.filter (isKnown n)).map Lit.fromZero⟩ := by
  obtain ⟨before, hinner⟩ := h.inner
  have hwithin : Cnf.Within n [assumptions.filter (isKnown n)] := Backend.within_filter_isKnown
  rw [h.vars, translate_range]
  exact hE.assume _ _ _ hinner (covers_fromZero (hwithin _ (.head _)) rfl)

/-- The values read back from a model of the engine are those of a model
of what is asked. -/
theorem models_readBack {goal : List (List Lit)} (hgoal : Cnf.Within n goal)
    (hmodel : ModelLiterals model (Cnf.fromZero goal))
    (hs : s.model = some (readBack (Array.range n) model)) : (valuation s).models goal := by
  refine Valuation.models_iff.2 fun clause hclause => ?_
  obtain ⟨l', hl', hshown⟩ := hmodel.meets _ (List.mem_map_of_mem hclause)
  obtain ⟨l, hl, rfl⟩ := List.mem_map.1 hl'
  obtain ⟨hpos, hle⟩ := hgoal clause hclause l hl
  have hlt : l.var - 1 < n := by omega
  have hslot : (byNumber n model)[l.var - 1]? = some l.sign := getElem?_byNumber hmodel hshown hlt
  have hvalue : s.value? l.var = some l.sign := by
    rw [value?, if_neg (Nat.ne_of_gt hpos), hs, Option.bind_some, getElem?_readBack, if_pos hlt, hslot]
    rfl
  refine ⟨l, hl, beq_iff_eq.2 ?_⟩
  exact congrArg (·.getD false) hvalue

omit [Engine E] in
/-- Values are shown for the variables that are allocated. -/
theorem isSome_value?_readBack (hs : s.model = some (readBack (Array.range n) model)) :
    (s.value? var).isSome ↔ 1 ≤ var ∧ var ≤ n := by
  rw [value?]
  split
  · rename_i hzero
    simp [hzero]
  · have hlt : var - 1 < n ↔ 1 ≤ var ∧ var ≤ n := by omega
    rw [hs, Option.bind_some, getElem?_readBack, ← hlt]
    by_cases hvar : var - 1 < n <;> simp [hvar]

/-- **What comes of a call that solves.** Either there is a model of what
is asked, and its values are shown, or there is none, and none is shown. -/
theorem Tracks.solve_cases (hE : Engine.Lawful Holds) (h : Tracks Holds s n clauses)
    (assumptions : List Lit) : ∃ s', Tracks Holds s' n clauses ∧
      (s.solve assumptions = (.ok true, s') ∧
          (∀ var, (s'.value? var).isSome ↔ 1 ≤ var ∧ var ≤ n) ∧
          (valuation s').models (query clauses n assumptions) ∨
        s.solve assumptions = (.ok false, s') ∧ (∀ var, s'.value? var = none) ∧
          ¬ Satisfiable (query clauses n assumptions)) := by
  have hassumed := h.assume hE assumptions
  have hwithin : Cnf.Within n (query clauses n assumptions) := Backend.within_query h.within
  have hgoal : Problem.goal _ = Cnf.fromZero (query clauses n assumptions) := goal_fromZero
  have hnext := hE.solve _ _ hassumed
  have hshows := hE.shows _ _ hassumed
  obtain ⟨answer, hanswer, hiff⟩ := hE.answers _ _ hassumed
  rw [hgoal] at hiff hshows
  rw [satisfiable_fromZero_iff hwithin] at hiff
  rcases hask : s.ask assumptions with ⟨result, inner⟩
  rw [← ask, hask] at hanswer hnext hshows
  obtain rfl : result = .ok answer := hanswer
  cases answer with
  | true =>
    obtain ⟨model, hmodel?, hmodel⟩ := hshows rfl
    have hsolve := solve_of_ask_true hask
    rw [h.vars, hmodel?, Option.getD_some] at hsolve
    refine ⟨⟨inner, Array.range n, some (readBack (Array.range n) model), s.counted⟩,
      ⟨rfl, h.stats_vars, h.within, _, hnext⟩, .inl ⟨hsolve, ?_, ?_⟩⟩
    · exact fun var => isSome_value?_readBack rfl
    · exact models_readBack hwithin hmodel rfl
  | false =>
    have hsolve := solve_of_ask_false hask
    refine ⟨⟨inner, s.vars, none, s.counted⟩, ⟨h.vars, h.stats_vars, h.within, _, hnext⟩,
      .inr ⟨hsolve, fun var => ?_, ?_⟩⟩
    · rw [value?]
      split <;> rfl
    · exact fun hsat => Bool.noConfusion (hiff.2 hsat)

/-- A call that solves leaves the clauses and variables as they are. -/
theorem Tracks.solve (hE : Engine.Lawful Holds) (h : Tracks Holds s n clauses)
    (assumptions : List Lit) : Tracks Holds (s.solve assumptions).2 n clauses := by
  obtain ⟨s', hs', ⟨hsolve, -⟩ | ⟨hsolve, -⟩⟩ := h.solve_cases hE assumptions
  · rwa [hsolve]
  · rwa [hsolve]

/-! ## Lawful solvers -/

theorem tracks_of_loaded (hE : Engine.Lawful Holds)
    (h : Loaded (empty : Frontend E) n clauses s) : Tracks Holds s n clauses := by
  induction h with
  | start => exact tracks_empty hE
  | allocate _ ih => exact ih.newVar hE
  | add clause _ ih => exact ih.addClause hE clause
  | call assumptions _ ih => exact ih.solve hE assumptions

/-- **A solver with a lawful engine is lawful.** -/
theorem lawful (hE : Engine.Lawful Holds) : Backend.Lawful (empty : Frontend E) where
  numVars_eq n clauses s h := (tracks_of_loaded hE h).stats_vars
  answers n clauses s assumptions h := by
    obtain ⟨s', -, ⟨hsolve, -, hmodels⟩ | ⟨hsolve, -, hunsat⟩⟩ :=
      (tracks_of_loaded hE h).solve_cases hE assumptions
    · exact ⟨true, congrArg Prod.fst hsolve, iff_of_true rfl ⟨_, hmodels⟩⟩
    · exact ⟨false, congrArg Prod.fst hsolve, iff_of_false Bool.false_ne_true hunsat⟩
  models n clauses s assumptions h hanswer := by
    obtain ⟨s', -, ⟨hsolve, -, hmodels⟩ | ⟨hsolve, -⟩⟩ :=
      (tracks_of_loaded hE h).solve_cases hE assumptions
    · show (valuation (s.solve assumptions).2).models _
      rwa [hsolve]
    · have hfalse : (s.solve assumptions).1 = .ok false := congrArg Prod.fst hsolve
      cases hfalse.symm.trans hanswer

end Frontend

namespace Solver

/-- **The solver of the library is lawful.** -/
theorem lawful_empty : Backend.Lawful empty := Frontend.lawful Kernel.lawful

/-- It always answers. -/
theorem solve_eq (s : Solver) (assumptions : List Lit) :
    Frontend.solve s assumptions = (.ok (s.solve assumptions).1, (s.solve assumptions).2) := by
  rcases hask : s.ask assumptions with ⟨_ | _ | _, inner⟩
  · have hanswers : (s.ask assumptions).1 = .ok _ := rfl
    rw [hask] at hanswers
    cases hanswers
  · rw [solve, Frontend.solve_of_ask_false hask]
  · rw [solve, Frontend.solve_of_ask_true hask]

end Solver

end Tricolor
