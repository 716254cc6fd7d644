import Tricolor.Proofs.Cnf.Basic
import Tricolor.Sat.Backend

/-!
# What solvers promise

A fresh solver is lawful if, after whatever calls, it answers soundly and
completely about the clauses it was given, each taken without the
literals over variables that were not allocated at the time (`Lawful`).
From nothing but that, a solver loaded with a formula decides it together
with the clauses that it was given before, and shows a model
(`Loaded.solveFormula_cases`); a fresh one decides the formula
(`Lawful.solveFormula_cases`).
-/

namespace Tricolor

namespace Backend

variable {S : Type} [Backend S]

/-- Whether the variable of a literal is among the first `n`. -/
def isKnown (n : Nat) (l : Lit) : Bool := decide (1 ≤ l.var ∧ l.var ≤ n)

/-- The valuation that a solver shows; variables that it leaves out are
false. -/
def valuation (s : S) : Valuation := fun var => (value? s var).getD false

/-- What is to be satisfied in a call: clauses, and assumptions over the
first `n` variables. -/
def query (clauses : List (List Lit)) (n : Nat) (assumptions : List Lit) : List (List Lit) :=
  clauses ++ (assumptions.filter (isKnown n)).map fun l => [l]

/-- The states after some calls, with the number of variables allocated
and the clauses added by these calls. -/
inductive Loaded (start : S) : Nat → List (List Lit) → S → Prop
  | start : Loaded start 0 [] start
  | allocate {n : Nat} {clauses : List (List Lit)} {s : S} :
      Loaded start n clauses s → Loaded start (n + 1) clauses (newVar s)
  | add {n : Nat} {clauses : List (List Lit)} {s : S} (clause : List Lit) :
      Loaded start n clauses s →
      Loaded start n (clauses ++ [clause.filter (isKnown n)]) (addClause s clause)
  | call {n : Nat} {clauses : List (List Lit)} {s : S} (assumptions : List Lit) :
      Loaded start n clauses s → Loaded start n clauses (solve s assumptions).2

/-- A fresh solver that counts its variables and answers every call
soundly and completely. -/
structure Lawful (start : S) : Prop where
  numVars_eq : ∀ n clauses s, Loaded start n clauses s → numVars s = n
  answers : ∀ n clauses s assumptions, Loaded start n clauses s → ∃ answer,
    (solve s assumptions).1 = .ok answer ∧
      (answer = true ↔ Satisfiable (query clauses n assumptions))
  models : ∀ n clauses s assumptions, Loaded start n clauses s →
    (solve s assumptions).1 = .ok true →
    (valuation (solve s assumptions).2).models (query clauses n assumptions)

variable {start s : S} {f : Formula} {m n : Nat} {held clauses clauses' : List (List Lit)}
variable {clause assumptions : List Lit}

/-! ## Clauses over allocated variables -/

theorem within_filter_isKnown : Cnf.Within n [clause.filter (isKnown n)] := by
  intro clause' hclause l hl
  rw [List.mem_singleton.1 hclause, List.mem_filter] at hl
  exact of_decide_eq_true hl.2

/-- What is to be satisfied is about allocated variables only. -/
theorem within_query (h : Cnf.Within n clauses) : Cnf.Within n (query clauses n assumptions) := by
  refine Cnf.within_append.2 ⟨h, fun clause hclause l hl => ?_⟩
  obtain ⟨l', hl', rfl⟩ := List.mem_map.1 hclause
  rw [List.mem_singleton.1 hl]
  exact of_decide_eq_true (List.mem_filter.1 hl').2

/-! ## Loading a formula -/

theorem Loaded.repeat_newVar (h : Loaded start m clauses s) (n : Nat) :
    Loaded start (m + n) clauses (Nat.repeat newVar n s) := by
  induction n with
  | zero => exact h
  | succ n ih => exact .allocate ih

theorem Loaded.foldl_addClause (h : Loaded start n clauses s) (hwithin : Cnf.Within n clauses') :
    Loaded start n (clauses ++ clauses') (clauses'.foldl addClause s) := by
  induction clauses' generalizing s clauses with
  | nil => rwa [List.append_nil]
  | cons clause clauses' ih =>
    have hkeep : clause.filter (isKnown n) = clause :=
      List.filter_eq_self.2 fun l hl => decide_eq_true (hwithin clause (.head clauses') l hl)
    have hnext := h.add clause
    rw [hkeep] at hnext
    have := ih hnext fun clause' h' => hwithin clause' (.tail clause h')
    rwa [List.append_assoc] at this

/-- The number of variables of a solver with `m` of them once a formula
with `n` is loaded. -/
def loadedVars (m n : Nat) : Nat := m + (n - m % Lit.varBound)

theorem le_loadedVars (m n : Nat) : n ≤ loadedVars m n := by
  have := Nat.mod_le m Lit.varBound
  rw [loadedVars]
  omega

/-- As long as variables are numbered by 32 bits, the missing ones are
allocated and no others. -/
theorem loadedVars_eq_max (hm : m < Lit.varBound) (n : Nat) : loadedVars m n = max m n := by
  rw [loadedVars, Nat.mod_eq_of_lt hm]
  omega

/-- **A solver takes a formula as it is**: the variables it lacks are
allocated, so no literal is dropped. -/
theorem Loaded.loadCnf (hS : Lawful start) (h : Loaded start m held s)
    (hwithin : Cnf.Within n clauses) :
    Loaded start (loadedVars m n) (held ++ clauses) (loadCnf s ⟨n, clauses⟩) := by
  rw [Backend.loadCnf, hS.numVars_eq _ _ _ h]
  refine (h.repeat_newVar _).foldl_addClause fun clause hclause l hl => ?_
  obtain ⟨hpos, hle⟩ := hwithin clause hclause l hl
  exact ⟨hpos, Nat.le_trans hle (le_loadedVars m n)⟩

/-- **It decides the clauses it holds together with those it is loaded
with.** -/
theorem Loaded.solve_loadCnf (hS : Lawful start) (h : Loaded start m held s)
    (hwithin : Cnf.Within n clauses) :
    ∃ s', Loaded start (loadedVars m n) (held ++ clauses) s' ∧
      (solve (Backend.loadCnf s ⟨n, clauses⟩) [] = (.ok true, s') ∧
          (valuation s').models (held ++ clauses) ∨
        solve (Backend.loadCnf s ⟨n, clauses⟩) [] = (.ok false, s') ∧
          ¬ Satisfiable (held ++ clauses)) := by
  have hloaded := h.loadCnf hS hwithin
  have hquery : query (held ++ clauses) (loadedVars m n) [] = held ++ clauses := List.append_nil _
  obtain ⟨answer, hanswer, hiff⟩ := hS.answers _ _ _ [] hloaded
  have hmodels := hS.models _ _ _ [] hloaded
  have hnext := hloaded.call []
  rw [hquery] at hiff hmodels
  generalize solve (Backend.loadCnf s ⟨n, clauses⟩) [] = r at hanswer hmodels hnext
  obtain ⟨_, s'⟩ := r
  subst hanswer
  refine ⟨s', hnext, ?_⟩
  cases answer with
  | true => exact .inl ⟨rfl, hmodels rfl⟩
  | false => exact .inr ⟨rfl, fun hsat => Bool.noConfusion (hiff.2 hsat)⟩

/-- A fresh solver decides the clauses it is loaded with. -/
theorem Lawful.solve_loadCnf (hS : Lawful start) (hwithin : Cnf.Within n clauses) :
    (∃ s, solve (Backend.loadCnf start ⟨n, clauses⟩) [] = (.ok true, s) ∧
        (valuation s).models clauses) ∨
      ∃ s, solve (Backend.loadCnf start ⟨n, clauses⟩) [] = (.ok false, s) ∧
        ¬ Satisfiable clauses := by
  obtain ⟨s, -, h | h⟩ := Loaded.start.solve_loadCnf hS hwithin
  · exact .inl ⟨s, h⟩
  · exact .inr ⟨s, h⟩

/-! ## Solving a formula -/

/-- Clauses and a formula are satisfied together by the valuations that
model the clauses and give the formula a satisfying assignment. -/
theorem models_append_litClauses_iff (hf : f.Valid) {v : Valuation} :
    v.models (held ++ f.litClauses) ↔
      v.models held ∧ f.isSatisfiedBy (v.assignment f.numVars.toNat) := by
  rw [Valuation.models, List.all_append, Bool.and_eq_true, ← Valuation.models, ← Valuation.models,
    Formula.models_litClauses_iff hf fun _ => Valuation.get?_assignment]

/-- **It decides a valid formula together with the clauses that it holds**,
and finds an assignment that satisfies the formula if there is one that
respects these clauses. -/
theorem Loaded.solveFormula_cases (hS : Lawful start) (h : Loaded start m held s)
    (hf : f.Valid) :
    ∃ s', Loaded start (loadedVars m f.numVars.toNat) (held ++ f.litClauses) s' ∧
      ((∃ v : Valuation, v.models held ∧ f.isSatisfiedBy (v.assignment f.numVars.toNat) ∧
          solveFormula s f = (.ok (some (v.assignment f.numVars.toNat)), s')) ∨
        (¬ ∃ v : Valuation, v.models held ∧ f.isSatisfiedBy (v.assignment f.numVars.toNat)) ∧
          solveFormula s f = (.ok none, s')) := by
  rw [solveFormula, Formula.validate_eq_ok_iff.2 hf, Formula.toCnf_eq hf]
  obtain ⟨s', hloaded, ⟨hsolve, hmodels⟩ | ⟨hsolve, hunsat⟩⟩ :=
    h.solve_loadCnf hS (Formula.within_litClauses hf)
  · obtain ⟨hheld, hsat⟩ := (models_append_litClauses_iff hf).1 hmodels
    exact ⟨s', hloaded, .inl ⟨valuation s', hheld, hsat, by simp only [hsolve]; rfl⟩⟩
  · refine ⟨s', hloaded, .inr ⟨fun ⟨v, hv⟩ => hunsat ?_, by simp only [hsolve]⟩⟩
    exact ⟨v, (models_append_litClauses_iff hf).2 hv⟩

/-- A fresh solver decides a valid formula. -/
theorem Lawful.solveFormula_cases (hS : Lawful start) (hf : f.Valid) :
    (∃ a, (solveFormula start f).1 = .ok (some a) ∧ a.size = f.numVars.toNat ∧
        f.isSatisfiedBy a) ∨
      (solveFormula start f).1 = .ok none ∧
        ¬ ∃ a : Assignment, a.size = f.numVars.toNat ∧ f.isSatisfiedBy a := by
  obtain ⟨_, -, ⟨v, -, hsat, hsolve⟩ | ⟨hnone, hsolve⟩⟩ := Loaded.start.solveFormula_cases hS hf
  · exact .inl ⟨_, by rw [hsolve], v.size_assignment _, hsat⟩
  · refine .inr ⟨by rw [hsolve], fun ⟨a, ha, hsat⟩ => hnone ?_⟩
    obtain ⟨v, hv⟩ := Valuation.exists_assignment a
    exact ⟨v, rfl, by rwa [← ha, hv]⟩

end Backend

end Tricolor
