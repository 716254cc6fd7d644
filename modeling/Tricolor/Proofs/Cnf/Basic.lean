import Mathlib.Data.List.Basic
import Tricolor.Cnf.Valuation
import Tricolor.Proofs.Formula.Truth

/-!
# Clauses over a range of variables

Clauses are within `n` variables if their literals are over the variables
`1..n`; a formula built from them has no more variables than that. Those
of a valid formula are within its variables, and a valuation models them
exactly if the assignment with the same values satisfies the formula
(`models_litClauses_iff`).
-/

namespace Tricolor

namespace Cnf

variable {n : Nat} {clause : List Lit} {clauses : List (List Lit)}

/-- Every literal is over one of the variables `1..n`. -/
def Within (n : Nat) (clauses : List (List Lit)) : Prop :=
  ∀ clause ∈ clauses, ∀ l ∈ clause, 0 < l.var ∧ l.var ≤ n

theorem within_append {clauses' : List (List Lit)} :
    Within n (clauses ++ clauses') ↔ Within n clauses ∧ Within n clauses' :=
  List.forall_mem_append

theorem coverVars_le_iff {m : Nat} :
    coverVars n clause ≤ m ↔ n ≤ m ∧ ∀ l ∈ clause, l.var ≤ m := by
  rw [coverVars]
  induction clause generalizing n with
  | nil => simp
  | cons l clause ih => rw [List.foldl_cons, ih, Nat.max_le, List.forall_mem_cons, and_assoc]

/-- **The number of variables of a formula** is the least that is as large
as was asked for and covers every literal. -/
theorem numVars_ofClauses_le_iff {m : Nat} :
    (ofClauses n clauses).numVars ≤ m ↔
      n ≤ m ∧ ∀ clause ∈ clauses, ∀ l ∈ clause, l.var ≤ m := by
  change clauses.foldl coverVars n ≤ m ↔ _
  induction clauses generalizing n with
  | nil => simp
  | cons clause clauses ih =>
    rw [List.foldl_cons, ih, coverVars_le_iff, List.forall_mem_cons, and_assoc]

/-- Clauses within the variables of a formula add none. -/
theorem ofClauses_eq (h : Within n clauses) : ofClauses n clauses = ⟨n, clauses⟩ := by
  have hle : (ofClauses n clauses).numVars ≤ n :=
    numVars_ofClauses_le_iff.2 ⟨Nat.le_refl n, fun clause hclause l hl =>
      (h clause hclause l hl).2⟩
  have hge : n ≤ (ofClauses n clauses).numVars := (numVars_ofClauses_le_iff.1 (Nat.le_refl _)).1
  exact congrArg (Cnf.mk · clauses) (Nat.le_antisymm hle hge)

end Cnf

namespace Valuation

variable {v : Valuation} {n : Nat}

/-- The values of the variables `1..n`. -/
def assignment (v : Valuation) (n : Nat) : Assignment := ⟨(List.range' 1 n).map v⟩

theorem size_assignment (v : Valuation) (n : Nat) : (v.assignment n).size = n := by
  simp [assignment, Assignment.size]

theorem get?_assignment {var : Nat} (hpos : 0 < var) (hle : var ≤ n) :
    (v.assignment n).get? var = some (v var) := by
  obtain ⟨i, rfl⟩ : ∃ i, var = i + 1 := ⟨var - 1, by omega⟩
  rw [Assignment.get?_succ, assignment, List.getElem?_map, List.getElem?_range' (by omega)]
  simp [Nat.add_comm]

/-- Every assignment gives the values of some valuation. -/
theorem exists_assignment (a : Assignment) : ∃ v : Valuation, v.assignment a.size = a := by
  refine ⟨fun var => (a.get? var).getD false, congrArg Assignment.mk ?_⟩
  refine List.ext_getElem (by simp [Assignment.size]) fun i hi hlt => ?_
  rw [List.getElem_map, List.getElem_range', Nat.one_mul, Nat.add_comm, Assignment.get?_succ,
    List.getElem?_eq_getElem hlt, Option.getD_some]

end Valuation

namespace Formula

variable {f : Formula} {a : Assignment} {v : Valuation}

/-- The clauses of a formula with variables and signs apart. -/
def litClauses (f : Formula) : List (List Lit) :=
  f.clauses.map fun c => c.literals.map fun x => ⟨x.var, x.isPositive⟩

theorem ofInt?_toInt {x : Literal} (h : 0 < x.var) :
    Lit.ofInt? x.toInt = some ⟨x.var, x.isPositive⟩ := by
  have hlt := x.toInt_lt
  have hge := x.le_toInt
  have hbound : Lit.varBound = 4294967296 := rfl
  have hin : ¬ (x.toInt = 0 ∨ Lit.varBound ≤ x.toInt.natAbs) := by
    rw [Literal.var] at h
    omega
  rw [Lit.ofInt?, if_neg hin]
  rfl

theorem within_litClauses (hf : f.Valid) : Cnf.Within f.numVars.toNat f.litClauses := by
  intro clause hclause l hl
  obtain ⟨c, hc, rfl⟩ := List.mem_map.1 hclause
  obtain ⟨x, hx, rfl⟩ := List.mem_map.1 hl
  exact hf c hc x hx

/-- No literal of a valid formula is dropped, and none is out of range. -/
theorem toCnf_eq (hf : f.Valid) : f.toCnf = ⟨f.numVars.toNat, f.litClauses⟩ := by
  have hclauses : (f.clauses.map fun c => c.literals.filterMap fun x => Lit.ofInt? x.toInt) =
      f.litClauses := by
    refine List.map_congr_left fun c hc => ?_
    rw [← List.filterMap_eq_map]
    exact List.filterMap_congr fun x hx => ofInt?_toInt (hf c hc x hx).1
  rw [toCnf, hclauses, Cnf.ofClauses_eq (within_litClauses hf)]

/-- **A valuation models the clauses of a formula** exactly if the
assignment with the same values satisfies the formula. -/
theorem models_litClauses_iff (hf : f.Valid)
    (hav : ∀ var, 0 < var → var ≤ f.numVars.toNat → a.get? var = some (v var)) :
    v.models f.litClauses ↔ f.isSatisfiedBy a := by
  have hholds : ∀ c ∈ f.clauses, ∀ x ∈ c.literals,
      v.holds ⟨x.var, x.isPositive⟩ = a.holds x := by
    intro c hc x hx
    rw [Assignment.holds_eq, hav x.var (hf c hc x hx).1 (hf c hc x hx).2, Valuation.holds,
      Option.some_beq_some]
  have hclause : ∀ c ∈ f.clauses, v.satisfies (c.literals.map fun x => ⟨x.var, x.isPositive⟩) =
      c.isSatisfiedBy a := by
    intro c hc
    rw [Valuation.satisfies, List.any_map, Clause.isSatisfiedBy, Bool.eq_iff_iff,
      List.any_eq_true, List.any_eq_true]
    exact exists_congr fun x => and_congr_right fun hx => by rw [Function.comp, hholds c hc x hx]
  have hall : f.isSatisfiedBy a ↔ ∀ c ∈ f.clauses, c.isSatisfiedBy a := List.all_eq_true
  rw [hall, Valuation.models, List.all_eq_true, litClauses, List.forall_mem_map]
  exact forall_congr' fun c => forall_congr' fun hc => by rw [hclause c hc]

end Formula

end Tricolor
