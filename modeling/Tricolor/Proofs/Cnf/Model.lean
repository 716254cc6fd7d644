import Tricolor.Proofs.Cnf.Basic

/-!
# Models of formulas in conjunctive normal form

A model gives the variables of a formula values under which every clause
holds. If the clauses are over these variables, the models are the
valuations that model the clauses, cut off at the last variable
(`Model.models`, `Model.exists_valuation_eq`).
-/

namespace Tricolor

namespace Cnf

variable {cnf : Cnf} {n x : Nat} {clauses : List (List Lit)} {v : Valuation}

/-- A model of a formula gives each of its variables a value, from
variable 1 on, such that every clause holds. -/
@[ext]
structure Model (cnf : Cnf) where
  values : List Bool
  length_eq : values.length = cnf.numVars
  eval : cnf.eval (false :: values)

/-- Clauses over the variables of a formula hold under a list of values
exactly if a valuation with these values models them. -/
theorem eval_iff_models {values : List Bool} (hwithin : Within n clauses)
    (hv : ∀ x, 0 < x → x ≤ n → values[x]? = some (v x)) :
    eval ⟨n, clauses⟩ values ↔ v.models clauses := by
  have hholds : ∀ clause ∈ clauses, ∀ l ∈ clause, (l.eval? values == some true) = v.holds l := by
    intro clause hclause l hl
    obtain ⟨hpos, hle⟩ := hwithin clause hclause l hl
    rw [Lit.eval?, hv l.var hpos hle, Valuation.holds]
    cases l.sign <;> cases v l.var <;> rfl
  have hclause : ∀ clause ∈ clauses, evalClause clause values = v.satisfies clause := by
    intro clause hclause
    rw [evalClause, Valuation.satisfies, Bool.eq_iff_iff, List.any_eq_true, List.any_eq_true]
    exact exists_congr fun l => and_congr_right fun hl => by rw [hholds clause hclause l hl]
  rw [eval, Valuation.models, List.all_eq_true, List.all_eq_true]
  exact forall_congr' fun clause => forall_congr' fun h => by rw [hclause clause h]

namespace Model

/-- The value of a variable; entry 0 is unused. -/
def get? (m : cnf.Model) (x : Nat) : Option Bool := (false :: m.values)[x]?

/-- The values of a model, as a valuation. -/
def valuation (m : cnf.Model) : Valuation := fun x => (m.get? x).getD false

theorem get?_eq (m : cnf.Model) (hle : x ≤ cnf.numVars) : m.get? x = some (m.valuation x) := by
  have hlt : x < (false :: m.values).length := by
    rw [List.length_cons, m.length_eq]
    omega
  rw [valuation, get?, List.getElem?_eq_getElem hlt, Option.getD_some]

theorem valuation_eq_true {m : cnf.Model} : m.valuation x = true ↔ m.get? x = some true := by
  rw [valuation]
  cases m.get? x <;> simp

theorem models (m : cnf.Model) (hwithin : Within cnf.numVars cnf.clauses) :
    m.valuation.models cnf.clauses :=
  (eval_iff_models hwithin fun _ _ hle => m.get?_eq hle).1 m.eval

/-- Models that give every variable the same value are the same. -/
theorem eq_of_valuation {m m' : cnf.Model}
    (h : ∀ x, 0 < x → x ≤ cnf.numVars → (m.valuation x = true ↔ m'.valuation x = true)) :
    m = m' := by
  refine Model.ext (List.ext_getElem? fun i => ?_)
  by_cases hi : i < cnf.numVars
  · have hget : m.get? (i + 1) = m'.get? (i + 1) := by
      rw [m.get?_eq hi, m'.get?_eq hi, Bool.eq_iff_iff.2 (h (i + 1) (Nat.succ_pos i) hi)]
    exact hget
  · rw [List.getElem?_eq_none (by have := m.length_eq; omega),
      List.getElem?_eq_none (by have := m'.length_eq; omega)]

/-- A valuation that models the clauses is that of a model. -/
theorem exists_valuation_eq (hwithin : Within n clauses) (hv : v.models clauses) :
    ∃ m : (Cnf.mk n clauses).Model, ∀ x, 0 < x → x ≤ n → m.valuation x = v x := by
  have hget : ∀ x, 0 < x → x ≤ n →
      (false :: (List.range' 1 n).map v)[x]? = some (v x) := by
    intro x hpos hle
    obtain ⟨i, rfl⟩ : ∃ i, x = i + 1 := ⟨x - 1, by omega⟩
    rw [List.getElem?_cons_succ, List.getElem?_map, List.getElem?_range' (by omega),
      Option.map_some, Nat.one_mul, Nat.add_comm]
  refine ⟨⟨(List.range' 1 n).map v, ?_, (eval_iff_models hwithin hget).2 hv⟩,
    fun x hpos hle => ?_⟩
  · rw [List.length_map, List.length_range']
  · rw [valuation, get?, hget x hpos hle, Option.getD_some]

end Model

end Cnf

end Tricolor
