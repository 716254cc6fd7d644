import Tricolor.Cnf.Valuation
import Tricolor.Sat.Marks

/-!
# Clauses that follow

A search represents a literal by a number, its code, and keeps clauses
that follow from the given ones, together with the proof that they do.
New ones are derived by resolution: of a clause with `x` and a clause
with the negation of `x`, everything but the two literals follows. A
derived clause without literals refutes the given ones
(`Consequence.not_satisfiable`).
-/

namespace Tricolor

/-! ## Codes of literals -/

namespace Lit

/-- The number that represents a literal: even for a variable, odd for
its negation. -/
def code (l : Lit) : Nat := 2 * l.var + if l.sign then 0 else 1

/-- The literal that a number represents. -/
def ofCode (n : Nat) : Lit := ⟨n / 2, n % 2 == 0⟩

/-- The variable of a code. -/
@[inline] def codeVar (n : Nat) : Nat := n / 2

/-- The code of the negated literal. -/
@[inline] def flip (n : Nat) : Nat := if n % 2 = 0 then n + 1 else n - 1

theorem ofCode_code (l : Lit) : ofCode l.code = l := by
  obtain ⟨x, s⟩ := l
  cases s
  · simp [code, ofCode]
    omega
  · simp [code, ofCode]

theorem ofCode_flip (n : Nat) : ofCode (flip n) = (ofCode n).negate := by
  unfold flip ofCode negate
  split <;> simp <;> grind

theorem flip_flip (n : Nat) : flip (flip n) = n := by
  unfold flip
  grind

end Lit

theorem Valuation.holds_flip (v : Valuation) (n : Nat) :
    v.holds (.ofCode (Lit.flip n)) = !v.holds (.ofCode n) := by
  rw [Lit.ofCode_flip, holds_negate]

/-! ## Consequences -/

/-- A clause that follows from the given clauses. -/
structure Consequence (clauses : List (List Lit)) where
  /-- The codes of its literals. -/
  codes : Array Nat
  follows : ∀ v : Valuation, v.models clauses → ∃ n ∈ codes, v.holds (.ofCode n)

namespace Consequence

variable {clauses : List (List Lit)}

/-- A given clause, without repeated literals. -/
def given (clause : List Lit) (h : clause ∈ clauses) : Consequence clauses where
  codes := (clause.map Lit.code).eraseDups.toArray
  follows := fun v hv => by
    obtain ⟨l, hl, hh⟩ := Valuation.models_iff.1 hv clause h
    refine ⟨l.code, ?_, by rwa [Lit.ofCode_code]⟩
    rw [List.mem_toArray, List.mem_eraseDups]
    exact List.mem_map_of_mem hl

/-- If a clause without literals follows, no valuation satisfies the
given clauses. -/
theorem not_satisfiable (c : Consequence clauses) (h : c.codes = #[]) : ¬ Satisfiable clauses := by
  rintro ⟨v, hv⟩
  obtain ⟨n, hn, _⟩ := c.follows v hv
  simp [h] at hn

/-- Whether the clause says nothing but that code `n` is true. -/
def isUnit (c : Consequence clauses) (n : Nat) : Bool := c.codes == #[n]

theorem holds_of_isUnit {c : Consequence clauses} {n : Nat} (h : c.isUnit n) {v : Valuation}
    (hv : v.models clauses) : v.holds (.ofCode n) := by
  obtain ⟨k, hk, hh⟩ := c.follows v hv
  have : c.codes = #[n] := by simpa [isUnit] using h
  simp_all

/-- The clause cut down to code `n`, if each of its other codes is
refuted by one of the known units. -/
def cut (c : Consequence clauses) (n : Nat) (known? : Nat → Option (Consequence clauses)) :
    Consequence clauses :=
  let refuted (k : Nat) : Bool := k == n || (known? (Lit.flip k)).any (·.isUnit (Lit.flip k))
  if h : c.codes.all refuted then
    { codes := #[n]
      follows := fun v hv => by
        obtain ⟨k, hk, hh⟩ := c.follows v hv
        have hr := Array.all_eq_true_iff_forall_mem.1 h k hk
        simp only [refuted, Bool.or_eq_true, beq_iff_eq, Option.any_eq_true] at hr
        rcases hr with rfl | ⟨d, _, hd⟩
        · exact ⟨k, by simp, hh⟩
        · have := holds_of_isUnit hd hv
          rw [Valuation.holds_flip, hh] at this
          simp at this }
  else c

end Consequence

/-! ## Resolution -/

/-- A clause that follows, as a set of codes. -/
structure Resolvent (clauses : List (List Lit)) where
  marks : Marks
  follows : ∀ v : Valuation, v.models clauses → ∃ n, marks.contains n ∧ v.holds (.ofCode n)

namespace Resolvent

variable {clauses : List (List Lit)}

/-- Puts the codes of a clause into a set, apart from one code. -/
def insertExcept (n : Nat) (m : Marks) (codes : Array Nat) : Marks :=
  codes.foldl (fun m k => if k = n then m else m.insert k) m

theorem contains_insertExcept (n k : Nat) (m : Marks) (codes : Array Nat) :
    (insertExcept n m codes).contains k ↔ m.contains k ∨ k ∈ codes ∧ k ≠ n := by
  rw [insertExcept, ← Array.foldl_toList, ← Array.mem_toList_iff]
  induction codes.toList generalizing m with
  | nil => simp
  | cons c rest ih =>
    rw [List.foldl_cons, ih]
    split
    · grind
    · rw [Marks.contains_insert]
      grind

/-- A clause as a set; `size` is an estimate of its largest code. -/
def ofConsequence (c : Consequence clauses) (size : Nat) : Resolvent clauses where
  marks := c.codes.foldl Marks.insert (.empty size)
  follows := fun v hv => by
    obtain ⟨n, hn, hh⟩ := c.follows v hv
    refine ⟨n, ?_, hh⟩
    rw [← Array.foldl_toList]
    have (m : Marks) (codes : List Nat) (h : n ∈ codes ∨ m.contains n) :
        (codes.foldl Marks.insert m).contains n := by
      induction codes generalizing m with
      | nil => simpa using h
      | cons c rest ih =>
        rw [List.foldl_cons]
        apply ih
        rw [Marks.contains_insert]
        grind
    exact this _ _ (.inl (by simpa using hn))

/-- Resolves with a clause that has code `n`: the negation of `n` leaves
the set, and the other codes of the clause enter it. -/
def resolve (r : Resolvent clauses) (n : Nat) (c : Consequence clauses) : Resolvent clauses where
  marks := insertExcept n (r.marks.erase (Lit.flip n)) c.codes
  follows := fun v hv => by
    obtain ⟨k, hk, hh⟩ := r.follows v hv
    by_cases hkn : k = Lit.flip n
    · subst hkn
      obtain ⟨j, hj, hjh⟩ := c.follows v hv
      refine ⟨j, (contains_insertExcept ..).2 (.inr ⟨hj, ?_⟩), hjh⟩
      rintro rfl
      rw [Valuation.holds_flip, hjh] at hh
      simp at hh
    · exact ⟨k, (contains_insertExcept ..).2 (.inl (Marks.contains_erase.2 ⟨hkn, hk⟩)), hh⟩

/-- The clause of the codes in the set. -/
def toConsequence (r : Resolvent clauses) : Consequence clauses where
  codes := r.marks.toList.toArray
  follows := fun v hv => by
    obtain ⟨n, hn, hh⟩ := r.follows v hv
    exact ⟨n, by simpa using Marks.mem_toList.2 hn, hh⟩

end Resolvent

end Tricolor
