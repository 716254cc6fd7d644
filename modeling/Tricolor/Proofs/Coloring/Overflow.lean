import Mathlib.Logic.Function.Iterate
import Mathlib.Order.Bounds.Basic
import Tricolor.Proofs.Coloring.FirstFit

/-!
# The search past the palette

Once the palette is exhausted, numbers are tried one after the other, with
a counter of 32 bits and no bound on the tries. Here this search is written
down try by try. While the numbers tried are in use, the counter is the
number of tries (`iterate_next_of_used`), so no color is tried twice, and
there are no more tries than colors in use before a free one is found. Then
the search is over, with the color that first fit gives. If fewer than 2³²
colors are in use, this comes about before the counter would wrap
(`firstFit_ends`); if all are taken, it never comes about
(`firstFit_eq_none_iff_trying`).
-/

namespace Tricolor

/-- The search for a free number, between two tries. -/
inductive OverflowSearch where
  /-- The number that is tried next. -/
  | trying (k : BitVec 32)
  | found (color : Color)
  deriving DecidableEq, Repr

namespace OverflowSearch

variable {taken palette : List Color} {c : Color} {n : Nat}

/-- Tries a number. The counter wraps: behind the last number comes 0. -/
def next (taken palette : List Color) : OverflowSearch → OverflowSearch
  | trying k => if Used taken palette ⟨k⟩ then trying (k + 1) else found ⟨k⟩
  | found color => found color

/-- **While the numbers tried are in use**, the counter is the number of
tries. -/
theorem iterate_next_of_used (h : ∀ c : Color, c.index < n → Used taken palette c) :
    (next taken palette)^[n] (trying 0) = trying (.ofNat 32 n) := by
  induction n with
  | zero => rfl
  | succ n ih =>
    have hused : Used taken palette ⟨.ofNat 32 n⟩ := h _ (Nat.lt_succ_of_le (Nat.mod_le ..))
    rw [Function.iterate_succ_apply', ih fun c hc => h c (by omega), next, if_pos hused,
      BitVec.ofNat_add]
    rfl

/-- **The run of the search**: it goes up to the lowest number that is not
in use, and is over. -/
theorem iterate_next (hfree : ¬ Used taken palette c)
    (hused : ∀ d : Color, d.index < c.index → Used taken palette d) (m : Nat) :
    (next taken palette)^[m] (trying 0) =
      if m < c.index + 1 then trying (.ofNat 32 m) else found c := by
  have hlt := c.index_lt
  rcases Nat.lt_or_ge c.index m with hlt | hle
  · -- the number is found by the try after those in use, and kept by all others
    obtain ⟨k, rfl⟩ : ∃ k, m = k + (c.index + 1) := ⟨m - (c.index + 1), by omega⟩
    have hnumber : BitVec.ofNat 32 c.index = c.number := by
      rw [Color.index, BitVec.ofNat_toNat, BitVec.setWidth_eq]
    have hfound : (next taken palette)^[c.index + 1] (trying 0) = found c := by
      rw [Function.iterate_succ_apply', iterate_next_of_used hused, hnumber]
      exact if_neg hfree
    rw [if_neg (by omega), Function.iterate_add_apply, hfound]
    exact Function.iterate_fixed rfl k
  · rw [if_pos (by omega)]
    exact iterate_next_of_used fun d hd => hused d (by omega)

/-- **Where first fit has no result, the search never ends**: after any
number of tries there is a next one. -/
theorem firstFit_eq_none_iff_trying (hall : ∀ c ∈ palette, c ∈ taken) :
    firstFit taken palette = none ↔
      ∀ m, ∃ k, (next taken palette)^[m] (trying 0) = trying k := by
  rw [firstFit_eq_none_iff]
  refine ⟨fun h m => ⟨_, iterate_next_of_used fun c _ => .inl (h c)⟩, fun h c => ?_⟩
  by_contra hc
  obtain ⟨d, hd, hmin⟩ := exists_lowest ⟨c, not_or.2 ⟨hc, mt (hall c) hc⟩⟩
  obtain ⟨k, hk⟩ := h (d.index + 1)
  rw [iterate_next hd hmin, if_neg (Nat.lt_irrefl _)] at hk
  cases hk

end OverflowSearch

open OverflowSearch

/-- **First fit ends, with the right color**, whatever is taken and
whatever the palette, as long as fewer than 2³² colors are in use. It gives
the first color of the palette that is not taken. If there is none, it
gives the lowest number that is neither taken nor in the palette: the
search for it is over after at most one try more than colors are in use,
and up to then its counter is the number of tries made, so it never wraps.
The color is not a taken one in either case. -/
theorem firstFit_ends (taken palette : List Color)
    (hsize : taken.toFinset.card + palette.length < UInt32.size) :
    ∃ color, firstFit taken palette = some color ∧ color ∉ taken ∧
      (∀ front c back, palette = front ++ c :: back → (∀ b ∈ front, b ∈ taken) → c ∉ taken →
        color = c) ∧
      ((∀ c ∈ palette, c ∈ taken) →
        IsLeast (Color.index '' {c | ¬ Used taken palette c}) color.index ∧
        ∃ tries ≤ taken.toFinset.card + palette.length + 1,
          (∀ m, (next taken palette)^[m] (.trying 0) =
            if m < tries then .trying (.ofNat 32 m) else .found color) ∧
          ∀ m < tries, (BitVec.ofNat 32 m).toNat = m) := by
  have hsome : firstFit taken palette ≠ none := fun hnone => by
    have hused : ∀ c : Color, c.index < UInt32.size → Used taken palette c := fun c _ =>
      .inl (firstFit_eq_none_iff.1 hnone c)
    have hle := le_card_of_used le_rfl hused
    omega
  obtain ⟨color, hcolor⟩ := Option.ne_none_iff_exists'.1 hsome
  refine ⟨color, hcolor, firstFit_not_mem hcolor, ?_, fun hall => ?_⟩
  · rintro front c back rfl hfront hc
    refine Option.some.inj (hcolor.symm.trans (firstFit_of_find? ?_))
    refine List.find?_eq_some_iff_append.2 ⟨by simpa using hc, front, back, rfl, fun b hb => ?_⟩
    simpa using hfront b hb
  · obtain ⟨htaken, hmin⟩ := (firstFit_eq_some_iff_lowest hall).1 hcolor
    have hfree : ¬ Used taken palette color := not_or.2 ⟨htaken, mt (hall color) htaken⟩
    have hused : ∀ d : Color, d.index < color.index → Used taken palette d := fun d hd =>
      .inl (by_contra fun hd' => absurd (hmin d hd') (by omega))
    have hcard := le_card_of_used color.index_lt.le hused
    refine ⟨⟨⟨color, hfree, rfl⟩, ?_⟩, color.index + 1, by omega, iterate_next hfree hused,
      fun m hm => ?_⟩
    · rintro _ ⟨d, hd, rfl⟩
      exact hmin d fun hd' => hd (.inl hd')
    · have := color.index_lt
      exact Color.index_ofNat (by omega)

/-- With the colors 0, 1, 3 and 4 taken, blue is the first that is free in
the palette 4, blue, 5. The palette 4, 1, 4 is exhausted, and the numbers
0 and 1 are tried before 2 is found. -/
theorem firstFit_ends_sparse :
    firstFit [⟨4⟩, .green, .grey, .red] [⟨4⟩, .blue, ⟨5⟩] = some .blue ∧
    firstFit [⟨4⟩, .green, .grey, .red] [⟨4⟩, .red, ⟨4⟩] = some .blue ∧
      ∃ tries ≤ 8, ∀ m, (next [⟨4⟩, .green, .grey, .red] [⟨4⟩, .red, ⟨4⟩])^[m] (.trying 0) =
        if m < tries then .trying (.ofNat 32 m) else .found .blue := by
  refine ⟨?_, ?_⟩
  · obtain ⟨color, hcolor, -, hfirst, -⟩ :=
      firstFit_ends [⟨4⟩, .green, .grey, .red] [⟨4⟩, .blue, ⟨5⟩] (by decide)
    rw [hcolor, hfirst [⟨4⟩] .blue [⟨5⟩] rfl (by decide) (by decide)]
  · obtain ⟨color, hcolor, htaken, -, hpast⟩ :=
      firstFit_ends [⟨4⟩, .green, .grey, .red] [⟨4⟩, .red, ⟨4⟩] (by decide)
    obtain ⟨hleast, tries, htries, hrun, -⟩ := hpast (by decide)
    have hne {d : Color} (hd : d ∈ [⟨4⟩, .green, .grey, .red]) : color.index ≠ d.index :=
      fun heq => htaken (Color.ext_index heq ▸ hd)
    have hgreen : color.index ≠ 0 := hne (d := .green) (by decide)
    have hred : color.index ≠ 1 := hne (d := .red) (by decide)
    have hle : color.index ≤ 2 := hleast.2 ⟨.blue, by decide, rfl⟩
    obtain rfl : color = .blue := Color.ext_index (by show color.index = 2; omega)
    exact ⟨hcolor, tries, htries, hrun⟩

end Tricolor
