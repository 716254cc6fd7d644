import Tricolor.Formula.Basic

/-!
# Valid formulas and their truth

A formula is valid if each literal names one of its variables
(`validate_eq_ok_iff`). Under an assignment a literal is true if its
variable has the value that its sign asks for (`holds_eq`), a clause if
one of its literals is, and a formula if each of its clauses is.
-/

namespace Tricolor

namespace Literal

theorem var_lt (x : Literal) : x.var < UInt32.size := by
  have hlt := x.toInt_lt
  have hge := x.le_toInt
  simp only [var, UInt32.size] at *
  omega

theorem var_pos_iff {x : Literal} : 0 < x.var ↔ x ≠ 0 := by
  rw [var, Int.natAbs_pos, ne_eq, ne_eq, ← Int32.toInt_inj]
  rfl

end Literal

namespace Assignment

/-- Whether a literal is true. -/
def holds (a : Assignment) (x : Literal) : Bool := a.literal? x == some true

/-- A literal is true if its variable has the value of its sign. -/
theorem holds_eq (a : Assignment) (x : Literal) :
    a.holds x = (a.get? x.var == some x.isPositive) := by
  rw [holds, literal?]
  cases a.get? x.var with
  | none => rfl
  | some value => cases value <;> cases x.isPositive <;> rfl

theorem get?_eq_some_of_le {a : Assignment} {var : Nat} (hpos : 0 < var) (hle : var ≤ a.size) :
    ∃ value, a.get? var = some value := by
  rw [size] at hle
  rw [get?, if_neg (by omega)]
  exact ⟨_, List.getElem?_eq_getElem (by omega)⟩

/-- Only the variables of an assignment have values. -/
theorem range_of_get? {a : Assignment} {var : Nat} {value : Bool} (h : a.get? var = some value) :
    0 < var ∧ var ≤ a.size := by
  rw [get?] at h
  split at h
  · cases h
  · have hlt := (List.getElem?_eq_some_iff.1 h).1
    rw [size]
    omega

theorem get?_succ (a : Assignment) (i : Nat) : a.get? (i + 1) = a.values[i]? := by
  rw [get?, if_neg (by omega), Nat.add_sub_cancel]

/-- Numbers of values below `2 ^ 32` are numbers of variables. -/
theorem numVars_eq {a : Assignment} (h : a.size < UInt32.size) : a.numVars = a.size :=
  Nat.mod_eq_of_lt h

/-- **The entries of an assignment** of fewer than `2 ^ 32` values are
these values, counted from 1. -/
theorem entries_eq {a : Assignment} (h : a.size < UInt32.size) :
    a.entries = (a.values.zipIdx 1).map fun (value, var) => (var, value) := by
  rw [entries, List.zipIdx_succ, List.map_map]
  refine List.map_congr_left fun e he => ?_
  obtain ⟨value, i⟩ := e
  have hlt : i < a.size := by
    have hget := List.mem_zipIdx_iff_getElem?.1 he
    exact (List.getElem?_eq_some_iff.1 hget).1
  have hsucc : (UInt32.ofNat i + 1).toNat = i + 1 := by
    rw [UInt32.toNat_add, UInt32.toNat_ofNat_of_lt' (Nat.lt_trans hlt h)]
    exact Nat.mod_eq_of_lt (Nat.lt_of_le_of_lt hlt h)
  simp only [Function.comp, hsucc]

theorem mem_entries_iff {a : Assignment} {var : Nat} {value : Bool} (h : a.size < UInt32.size) :
    (var, value) ∈ a.entries ↔ a.get? var = some value := by
  simp only [entries_eq h, List.mem_map, Prod.exists, List.mem_zipIdx_iff_le_and_getElem?_sub,
    Prod.mk.injEq]
  constructor
  · rintro ⟨_, _, ⟨hle, hget⟩, rfl, rfl⟩
    rwa [get?, if_neg (by omega)]
  · intro h
    rw [get?] at h
    split at h
    · cases h
    · exact ⟨value, var, ⟨by omega, h⟩, rfl, rfl⟩

end Assignment

namespace Clause

variable {c : Clause} {l : List Literal}

theorem literals_injective : Function.Injective literals := by
  rintro ⟨a, b, c⟩ ⟨a', b', c'⟩ h
  simpa [literals] using h

theorem ofList?_eq_some_iff : ofList? l = some c ↔ l = c.literals := by
  obtain ⟨x, y, z⟩ := c
  unfold ofList? literals
  split <;> simp_all

theorem ofList?_eq_none_of_length_ne (h : l.length ≠ 3) : ofList? l = none := by
  refine Option.eq_none_iff_forall_ne_some.2 fun c hc => h ?_
  rw [ofList?_eq_some_iff.1 hc]
  rfl

/-- Whether one of the literals of a clause is true. -/
def isSatisfiedBy (c : Clause) (a : Assignment) : Bool := c.literals.any a.holds

theorem isSatisfiedBy_eq (c : Clause) (a : Assignment) :
    c.isSatisfiedBy a = (a.holds c.first || (a.holds c.second || a.holds c.third)) := by
  simp [isSatisfiedBy, literals]

end Clause

namespace Formula

variable {f : Formula} {a : Assignment} {c : Clause} {k : Nat}

/-- Whether each literal names a variable of the formula. -/
def Valid (f : Formula) : Prop :=
  ∀ c ∈ f.clauses, ∀ x ∈ c.literals, 0 < x.var ∧ x.var ≤ f.numVars.toNat

/-- Some assignment to the variables of the formula satisfies it. -/
def Satisfiable (f : Formula) : Prop :=
  ∃ a : Assignment, a.size = f.numVars.toNat ∧ f.isSatisfiedBy a

/-- `1 ∨ 1 ∨ 1` with `-1 ∨ -1 ∨ -1` has no model. -/
theorem not_satisfiable_contradictory :
    ¬ Satisfiable ⟨1, [⟨1, 1, 1⟩, ⟨-1, -1, -1⟩]⟩ := by
  rintro ⟨⟨values⟩, ha, hsat⟩
  obtain ⟨value, rfl⟩ := List.length_eq_one_iff.1 ha
  cases value <;> exact absurd hsat (by decide)

theorem inRange_iff {n : Nat} {x : Literal} : inRange n x ↔ 0 < x.var ∧ x.var ≤ n := by
  simp only [inRange, Bool.and_eq_true, bne_iff_ne, decide_eq_true_eq]
  omega

/-- **A formula is accepted exactly if it is valid.** -/
theorem validate_eq_ok_iff : f.validate = .ok () ↔ f.Valid := by
  have hfault : f.firstFault = none ↔ f.Valid := by
    simp only [firstFault, List.findSome?_eq_none_iff, Prod.forall, Option.map_eq_none_iff,
      List.find?_eq_none, Bool.not_eq_true, Bool.not_eq_false', inRange_iff, Valid]
    constructor
    · intro h c hc
      obtain ⟨k, hk⟩ := List.getElem?_of_mem hc
      exact h c k (List.mem_zipIdx_iff_getElem?.2 hk)
    · exact fun h c k hck => h c (List.mem_of_getElem? (List.mem_zipIdx_iff_getElem?.1 hck))
  rw [← hfault, validate]
  cases f.firstFault <;> simp

/-- **A formula is refused exactly if it is not valid**, for a literal out
of range. -/
theorem exists_validate_eq_error_iff :
    (∃ k x n, f.validate = .error (.literalOutOfRange k x n)) ↔ ¬ f.Valid := by
  rw [← validate_eq_ok_iff, validate]
  cases f.firstFault <;> simp

theorem Valid.literal (h : f.Valid) (hk : f.clauses[k]? = some c) {x : Literal}
    (hx : x ∈ c.literals) : 0 < x.var ∧ x.var ≤ f.numVars.toNat :=
  h c (List.mem_of_getElem? hk) x hx

theorem isSatisfiedBy_iff :
    f.isSatisfiedBy a ↔ ∀ (k : Nat) (c : Clause), f.clauses[k]? = some c → c.isSatisfiedBy a := by
  have hall : f.isSatisfiedBy a ↔ ∀ c ∈ f.clauses, c.isSatisfiedBy a := List.all_eq_true
  rw [hall]
  constructor
  · exact fun h k c hk => h c (List.mem_of_getElem? hk)
  · intro h c hc
    obtain ⟨k, hk⟩ := List.getElem?_of_mem hc
    exact h k c hk

end Formula

end Tricolor
