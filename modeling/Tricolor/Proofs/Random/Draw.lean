import Mathlib.Data.List.Basic
import Tricolor.Random.ChaCha

/-!
# What a draw yields

A draw runs on a stream of random words, of which nothing is known here:
what is said of a value holds whatever the words are (`Yields`). A number
drawn below a bound is below it (`yields_below`), also where a second
word corrects the first one.

A checked draw may fail as well (`Checked`). Where its checks hold of
every value that can be drawn, it is a draw that cannot fail
(`lift_bind`). How the words come about, and how they are distributed, is
not said.
-/

namespace Tricolor

namespace Random

/-- A draw that may fail. -/
abbrev Checked := OptionT Draw

namespace Draw

variable {α β γ : Type} {p : α → Prop} {q : β → Prop} {draw : Draw α} {next : α → Draw β}
variable {a : α} {l : List γ} {n : Nat}

/-! ## Values of a draw -/

/-- Whatever the stream, the value that is drawn has a property. -/
def Yields (draw : Draw α) (p : α → Prop) : Prop := ∀ g, p (draw g).1

theorem yields_true (draw : Draw α) : Yields draw fun _ => True := fun _ => trivial

theorem Yields.pure (h : p a) : Yields (pure a) p := fun _ => h

theorem Yields.bind (h : Yields draw p) (hnext : ∀ a, p a → Yields (next a) q) :
    Yields (draw >>= next) q :=
  fun g => hnext _ (h g) _

theorem Yields.mapM (h : Yields draw p) :
    Yields (l.mapM fun _ => draw) fun r => r.length = l.length ∧ ∀ a ∈ r, p a := by
  induction l with
  | nil => exact .pure ⟨rfl, fun a ha => absurd ha List.not_mem_nil⟩
  | cons x l ih =>
    rw [List.mapM_cons]
    refine h.bind fun a ha => ih.bind fun r hr => .pure ⟨?_, ?_⟩
    · rw [List.length_cons, hr.1, List.length_cons]
    · exact List.forall_mem_cons.2 ⟨ha, hr.2⟩

/-! ## Numbers below a bound -/

theorem high_lt (word : UInt32) (hpos : 0 < n) : word.toNat * n / UInt32.size < n := by
  rw [Nat.div_lt_iff_lt_mul (by decide), Nat.mul_comm]
  exact Nat.mul_lt_mul_of_pos_left word.toNat_lt hpos

/-- Where the lower half of the product asks for a second word, the upper
half is not the greatest number yet: a word is at most `2 ^ 32 - 1`, so
at the greatest number the lower half is at most `2 ^ 32 - n`. -/
theorem high_succ_lt (word : UInt32) (hlow : UInt32.size - n < word.toNat * n % UInt32.size) :
    word.toNat * n / UInt32.size + 1 < n := by
  have hword : word.toNat ≤ 4294967295 := Nat.le_of_lt_succ word.toNat_lt
  have hproduct := Nat.mul_le_mul_right n hword
  simp only [UInt32.size] at *
  omega

/-- **A number drawn below a bound is below it**, for all words. -/
theorem yields_below (hpos : 0 < n) : Yields (below n) (· < n) := by
  unfold below
  refine (yields_true word).bind fun first _ => ?_
  by_cases hlow : UInt32.size - n < first.toNat * n % UInt32.size
  · rw [if_pos hlow]
    refine (yields_true word).bind fun second _ => .pure ?_
    split
    · exact high_succ_lt first hlow
    · exact high_lt first hpos
  · rw [if_neg hlow]
    exact .pure (high_lt first hpos)

/-! ## Checked draws -/

/-- A value without a draw, which may be missing. -/
def ofOption (o : Option α) : Checked α := OptionT.mk (pure o)

theorem ofOption_some_bind {next : α → Checked β} : ofOption (some a) >>= next = next a := rfl

/-- **A checked draw cannot fail** if it goes on without failure from
every value that can be drawn. -/
theorem lift_bind {next? : α → Checked β} (h : Yields draw p)
    (hnext : ∀ a, p a → next? a = OptionT.lift (next a)) :
    OptionT.lift draw >>= next? = OptionT.lift (draw >>= next) := by
  funext g
  exact congrFun (hnext _ (h g)) (draw g).2

theorem lift_mapM : (l.mapM fun _ => OptionT.lift draw) = OptionT.lift (l.mapM fun _ => draw) := by
  induction l with
  | nil => rfl
  | cons x l ih =>
    rw [List.mapM_cons, List.mapM_cons, ih]
    rfl

end Draw

end Random

end Tricolor
