import Tricolor.Sat.Decision

/-!
# The truth table

Whether clauses are satisfiable can be found out by trying both values
for every variable in turn. This takes long for more than a few
variables, but it always gives an answer.
-/

namespace Tricolor

namespace TruthTable

/-- The valuation with another value for one variable. -/
def update (v : Valuation) (x : Nat) (value : Bool) : Valuation :=
  fun y => if y = x then value else v y

/-- A valuation that makes every clause true and differs from `v` on the
given variables only. -/
def search (clauses : List (List Lit)) : List Nat → Valuation → Option Valuation
  | [], v => if v.models clauses then some v else none
  | x :: xs, v =>
    (search clauses xs (update v x true)).or (search clauses xs (update v x false))

theorem models_of_search {clauses : List (List Lit)} {xs : List Nat} {v w : Valuation}
    (h : search clauses xs v = some w) : w.models clauses := by
  induction xs generalizing v with
  | nil =>
    simp only [search] at h
    split at h <;> simp_all
  | cons x xs ih =>
    simp only [search, Option.or_eq_some_iff] at h
    rcases h with h | ⟨_, h⟩
    · exact ih h
    · exact ih h

theorem isSome_search {clauses : List (List Lit)} {xs : List Nat} {v w : Valuation}
    (agree : ∀ y ∉ xs, w y = v y) (hw : w.models clauses) : (search clauses xs v).isSome := by
  induction xs generalizing v with
  | nil =>
    have : w = v := funext fun y => agree y (by simp)
    subst this
    simp [search, hw]
  | cons x xs ih =>
    simp only [search, Option.isSome_or, Bool.or_eq_true]
    cases hx : w x
    · refine .inr (ih fun y hy => ?_)
      simp only [update]
      split
      · simp_all
      · exact agree y (by simp_all)
    · refine .inl (ih fun y hy => ?_)
      simp only [update]
      split
      · simp_all
      · exact agree y (by simp_all)

/-- The variables of some clauses. -/
def occurring (clauses : List (List Lit)) : List Nat := (clauses.flatten.map Lit.var).eraseDups

/-- A valuation may be changed on the variables that no clause has. -/
theorem models_restrict {clauses : List (List Lit)} {v w : Valuation}
    (agree : ∀ x ∈ occurring clauses, w x = v x) (h : v.models clauses) : w.models clauses := by
  rw [Valuation.models_iff] at h ⊢
  intro clause hc
  obtain ⟨l, hl, hh⟩ := h clause hc
  refine ⟨l, hl, ?_⟩
  have hx : l.var ∈ occurring clauses := by
    rw [occurring, List.mem_eraseDups]
    exact List.mem_map_of_mem (List.mem_flatten_of_mem hc hl)
  simpa only [Valuation.holds, agree l.var hx] using hh

/-- Decides by going through the whole table. -/
def decision (clauses : List (List Lit)) : Decision clauses :=
  match h : search clauses (occurring clauses) (fun _ => false) with
  | some v => .model v (models_of_search h)
  | none => .refuted <| by
    rintro ⟨v, hv⟩
    have agree : ∀ y ∉ occurring clauses, (decide (y ∈ occurring clauses) && v y) = false := by
      intro y hy
      simp [hy]
    have := isSome_search agree (models_restrict (by simp_all) hv)
    simp [h] at this

end TruthTable

end Tricolor
