import Mathlib.Data.Finset.Card
import Mathlib.Data.Nat.Find
import Tricolor.Coloring.FirstFit

/-!
# What first fit gives

First fit takes the first free color of the palette if there is one, and
otherwise the lowest number outside both the palette and what is taken
(`firstFit_of_find?`, `firstFit_eq_some_iff_lowest`). Numbers that are all
in use are no more than the colors in use (`le_card_of_used`). The search
past the palette comes to the lowest free number (`overflowFrom_of_lowest`)
and has no result if there is none (`overflowFrom_eq_none`), so first fit
fails only when every color there is has been taken, whatever the palette
(`firstFit_eq_none_iff`). All of this is one search through the palette
and then through all numbers (`firstFit_eq_or`). The color is never a taken one
(`firstFit_not_mem`), and taking more colors changes nothing while that
color stays free (`firstFit_of_subset`).
-/

namespace Tricolor

variable {taken taken' palette : List Color} {c : Color} {n : Nat}

/-- A color is in use if it is taken or in the palette. -/
def Used (taken palette : List Color) (c : Color) : Prop := c ∈ taken ∨ c ∈ palette

instance : Decidable (Used taken palette c) := inferInstanceAs (Decidable (_ ∨ _))

/-! ## The colors with low numbers -/

theorem Color.mem_below (hn : n ≤ UInt32.size) : c ∈ Color.below n ↔ c.index < n := by
  rw [Color.below, List.mem_map]
  constructor
  · rintro ⟨i, hi, rfl⟩
    have hi := List.mem_range.1 hi
    rwa [Color.index_ofNat (by omega)]
  · exact fun h => ⟨c.index, List.mem_range.2 h, Color.ofNat_index c⟩

theorem Color.sorted_below (hn : n ≤ UInt32.size) :
    (Color.below n).Pairwise fun c d => c.index < d.index := by
  rw [Color.below, List.pairwise_map]
  refine List.pairwise_lt_range.imp_of_mem fun hi hj hij => ?_
  have hi := List.mem_range.1 hi
  have hj := List.mem_range.1 hj
  rwa [Color.index_ofNat (by omega), Color.index_ofNat (by omega)]

theorem Color.nodup_below (hn : n ≤ UInt32.size) : (Color.below n).Nodup := by
  refine (Color.sorted_below hn).imp ?_
  rintro c _ hlt rfl
  exact Nat.lt_irrefl _ hlt

theorem Color.length_below (n : Nat) : (Color.below n).length = n := by
  rw [Color.below, List.length_map, List.length_range]

/-- **If the first `n` numbers are in use**, at least `n` colors are, even
more so if a color that the palette repeats is counted each time. -/
theorem le_card_of_used (hn : n ≤ UInt32.size) (h : ∀ c : Color, c.index < n → Used taken palette c) :
    n ≤ taken.toFinset.card + palette.length := by
  have hsub : (Color.below n).toFinset ⊆ (taken ++ palette).toFinset := by
    intro c hc
    have hc := (Color.mem_below hn).1 (List.mem_toFinset.1 hc)
    exact List.mem_toFinset.2 (List.mem_append.2 (h c hc))
  calc n = (Color.below n).toFinset.card := by
        rw [List.toFinset_card_of_nodup (Color.nodup_below hn), Color.length_below]
    _ ≤ (taken ++ palette).toFinset.card := Finset.card_le_card hsub
    _ ≤ taken.toFinset.card + palette.toFinset.card := by
        rw [List.toFinset_append]
        exact Finset.card_union_le _ _
    _ ≤ taken.toFinset.card + palette.length :=
        Nat.add_le_add_left palette.toFinset_card_le _

theorem le_length_of_taken (hn : n ≤ UInt32.size) (h : ∀ c : Color, c.index < n → c ∈ taken) :
    n ≤ taken.length := by
  have hused : ∀ c : Color, c.index < n → Used taken [] c := fun c hc => .inl (h c hc)
  exact (le_card_of_used hn hused).trans taken.toFinset_card_le

/-! ## The search past the palette -/

theorem overflowFrom_of_used {left : Nat} {k : BitVec 32} (h : Used taken palette ⟨k⟩) :
    overflowFrom taken palette (left + 1) k = overflowFrom taken palette left (k + 1) := by
  rw [overflowFrom, if_neg]
  simpa [Used, or_comm, imp_iff_not_or] using h

theorem overflowFrom_of_not_used {left : Nat} {k : BitVec 32} (h : ¬ Used taken palette ⟨k⟩) :
    overflowFrom taken palette (left + 1) k = some ⟨k⟩ := by
  rw [overflowFrom, if_pos]
  simpa [Used, and_comm] using h

/-- While numbers are in use, the search goes on. -/
theorem overflowFrom_zero (hn : n < UInt32.size)
    (h : ∀ c : Color, c.index < n → Used taken palette c) :
    overflowFrom taken palette UInt32.size 0 =
      overflowFrom taken palette (UInt32.size - n) (.ofNat 32 n) := by
  induction n with
  | zero => rfl
  | succ n ih =>
    have hused : Used taken palette ⟨.ofNat 32 n⟩ :=
      h _ (by rw [Color.index_ofNat (by omega)]; omega)
    have hleft : UInt32.size - n = UInt32.size - (n + 1) + 1 := by omega
    rw [ih (by omega) fun c hc => h c (by omega), hleft, overflowFrom_of_used hused,
      BitVec.ofNat_add]
    rfl

/-- **The search comes to the lowest free number.** -/
theorem overflowFrom_of_lowest (hc : ¬ Used taken palette c)
    (hmin : ∀ d : Color, d.index < c.index → Used taken palette d) :
    overflowFrom taken palette UInt32.size 0 = some c := by
  have hlt := c.index_lt
  have hleft : UInt32.size - c.index = UInt32.size - c.index - 1 + 1 := by omega
  rw [overflowFrom_zero hlt hmin, hleft, Color.index, BitVec.ofNat_toNat, BitVec.setWidth_eq]
  exact overflowFrom_of_not_used hc

/-- If there is a free number, there is a lowest one. -/
theorem exists_lowest (h : ∃ c, ¬ Used taken palette c) :
    ∃ c, ¬ Used taken palette c ∧ ∀ d : Color, d.index < c.index → Used taken palette d := by
  have hindex : ∃ i, ∃ c : Color, c.index = i ∧ ¬ Used taken palette c := by
    obtain ⟨c, hc⟩ := h
    exact ⟨c.index, c, rfl, hc⟩
  classical
  obtain ⟨c, hc, hfree⟩ := Nat.find_spec hindex
  refine ⟨c, hfree, fun d hd => ?_⟩
  by_contra hnot
  exact Nat.find_min hindex (hc ▸ hd) ⟨d, rfl, hnot⟩

/-- **Without a free number the search has no result**, however many it
tries. -/
theorem overflowFrom_eq_none (h : ∀ c, Used taken palette c) (left : Nat) (k : BitVec 32) :
    overflowFrom taken palette left k = none := by
  induction left generalizing k with
  | zero => rfl
  | succ left ih => rw [overflowFrom_of_used (h _), ih]

/-! ## Inside the palette and past it -/

/-- While the palette has a free color, the first one is taken. -/
theorem firstFit_of_find? (h : palette.find? (fun c => !taken.contains c) = some c) :
    firstFit taken palette = some c := by
  rw [firstFit, h]

/-- A palette without a free color is taken. -/
theorem find?_eq_none_iff :
    palette.find? (fun c => !taken.contains c) = none ↔ ∀ c ∈ palette, c ∈ taken := by
  simp [List.find?_eq_none]

theorem firstFit_overflow (h : ∀ c ∈ palette, c ∈ taken) :
    firstFit taken palette = overflowFrom taken palette UInt32.size 0 := by
  rw [firstFit, find?_eq_none_iff.2 h]

/-- **Once the palette is used up**, the color is the lowest free number. -/
theorem firstFit_eq_some_iff_lowest (h : ∀ c ∈ palette, c ∈ taken) :
    firstFit taken palette = some c ↔
      c ∉ taken ∧ ∀ d, d ∉ taken → c.index ≤ d.index := by
  have hused (d : Color) : Used taken palette d ↔ d ∈ taken :=
    ⟨fun hd => hd.elim id (h d), .inl⟩
  have hlowest (d : Color) (hd : d ∉ taken) (hmin : ∀ e, e ∉ taken → d.index ≤ e.index) :
      firstFit taken palette = some d := by
    rw [firstFit_overflow h]
    refine overflowFrom_of_lowest (mt (hused d).1 hd) fun e he => (hused e).2 ?_
    by_contra hfree
    exact absurd (hmin e hfree) (by omega)
  refine ⟨fun hc => ?_, fun ⟨hc, hmin⟩ => hlowest c hc hmin⟩
  by_cases hall : ∀ d, Used taken palette d
  · rw [firstFit_overflow h, overflowFrom_eq_none hall] at hc
    cases hc
  · obtain ⟨d, hd, hmin⟩ := exists_lowest (not_forall.1 hall)
    have hd : d ∉ taken := mt (hused d).2 hd
    have hmin : ∀ e, e ∉ taken → d.index ≤ e.index := fun e he =>
      Nat.not_lt.1 fun hlt => he ((hused e).1 (hmin e hlt))
    obtain rfl : d = c := Option.some.inj ((hlowest d hd hmin).symm.trans hc)
    exact ⟨hd, hmin⟩

/-- **First fit fails only if every color is taken.** The palette has no
say in it. -/
theorem firstFit_eq_none_iff : firstFit taken palette = none ↔ ∀ c, c ∈ taken := by
  cases hfind : palette.find? fun c => !taken.contains c with
  | some c =>
    rw [firstFit_of_find? hfind]
    refine iff_of_false nofun fun h => ?_
    simpa [h c] using List.find?_some hfind
  | none =>
    have hpalette := find?_eq_none_iff.1 hfind
    rw [firstFit_overflow hpalette]
    refine ⟨fun hnone c => ?_, fun h => overflowFrom_eq_none (fun c => .inl (h c)) _ 0⟩
    by_contra hc
    have hfree : ¬ Used taken palette c := not_or.2 ⟨hc, mt (hpalette c) hc⟩
    obtain ⟨d, hd, hmin⟩ := exists_lowest ⟨c, hfree⟩
    rw [overflowFrom_of_lowest hd hmin] at hnone
    cases hnone

/-- **First fit, said without a loop**: the first free color of the
palette, or else the first of all numbers that is neither in the palette
nor taken. -/
theorem firstFit_eq_or (taken palette : List Color) : firstFit taken palette =
    (palette.find? fun c => !taken.contains c).or
      ((Color.below UInt32.size).find? fun c => !palette.contains c && !taken.contains c) := by
  cases hfind : palette.find? fun c => !taken.contains c with
  | some c => exact firstFit_of_find? hfind
  | none =>
    have hpalette := find?_eq_none_iff.1 hfind
    rw [Option.none_or]
    cases hbelow : (Color.below UInt32.size).find? fun c =>
        !palette.contains c && !taken.contains c with
    | none =>
      refine firstFit_eq_none_iff.2 fun c => ?_
      have hused := List.find?_eq_none.1 hbelow c ((Color.mem_below le_rfl).2 c.index_lt)
      by_contra hc
      exact hused (by simpa [hc] using mt (hpalette c) hc)
    | some c =>
      obtain ⟨hc, as, bs, hsplit, has⟩ := List.find?_eq_some_iff_append.1 hbelow
      simp only [Bool.and_eq_true, Bool.not_eq_true', List.contains_eq_mem,
        decide_eq_false_iff_not] at hc
      refine (firstFit_eq_some_iff_lowest hpalette).2 ⟨hc.2, fun d hd => ?_⟩
      have hsorted := Color.sorted_below (n := UInt32.size) le_rfl
      have hmem := (Color.mem_below le_rfl).2 d.index_lt
      rw [hsplit] at hsorted hmem
      rcases List.mem_append.1 hmem with hmem | hmem
      · -- what comes before the color is in use
        exact absurd (has d hmem) (by simpa [hd] using mt (hpalette d) hd)
      · rcases List.mem_cons.1 hmem with rfl | hmem
        · exact Nat.le_refl _
        · exact ((List.pairwise_cons.1 (List.pairwise_append.1 hsorted).2.1).1 d hmem).le

/-- It gives a color if there are more colors than taken ones. -/
theorem exists_firstFit (taken palette : List Color) (h : taken.length < UInt32.size) :
    ∃ c, firstFit taken palette = some c := by
  refine Option.ne_none_iff_exists'.1 fun hnone => ?_
  have hle := le_length_of_taken le_rfl fun c _ => firstFit_eq_none_iff.1 hnone c
  omega

/-- **First fit never gives a taken color.** -/
theorem firstFit_not_mem (h : firstFit taken palette = some c) : c ∉ taken := by
  cases hfind : palette.find? fun c => !taken.contains c with
  | some d =>
    rw [firstFit_of_find? hfind] at h
    cases h
    simpa using List.find?_some hfind
  | none => exact ((firstFit_eq_some_iff_lowest (find?_eq_none_iff.1 hfind)).1 h).1

/-- The color is one of the palette, or its number is at most that of the
colors to avoid. -/
theorem firstFit_mem_or_le (h : firstFit taken palette = some c) :
    c ∈ palette ∨ c.index ≤ taken.length := by
  cases hfind : palette.find? fun c => !taken.contains c with
  | some d =>
    rw [firstFit_of_find? hfind] at h
    cases h
    exact .inl (List.mem_of_find?_eq_some hfind)
  | none =>
    obtain ⟨-, hmin⟩ := (firstFit_eq_some_iff_lowest (find?_eq_none_iff.1 hfind)).1 h
    refine .inr (le_length_of_taken c.index_lt.le fun d hd => ?_)
    by_contra hfree
    exact absurd (hmin d hfree) (by omega)

/-- **Taking more colors changes nothing** as long as the color that was
given stays free. -/
theorem firstFit_of_subset (hsub : taken ⊆ taken') (h : firstFit taken palette = some c)
    (hfree : c ∉ taken') : firstFit taken' palette = some c := by
  cases hfind : palette.find? fun c => !taken.contains c with
  | some d =>
    rw [firstFit_of_find? hfind] at h
    cases h
    apply firstFit_of_find?
    -- what comes before it in the palette was taken already
    obtain ⟨-, as, bs, hpalette, has⟩ := List.find?_eq_some_iff_append.1 hfind
    refine List.find?_eq_some_iff_append.2 ⟨by simpa using hfree, as, bs, hpalette, fun a ha => ?_⟩
    have htaken : a ∈ taken := by simpa using has a ha
    simpa using hsub htaken
  | none =>
    have hused := find?_eq_none_iff.1 hfind
    obtain ⟨-, hmin⟩ := (firstFit_eq_some_iff_lowest hused).1 h
    exact (firstFit_eq_some_iff_lowest fun c hc => hsub (hused c hc)).2
      ⟨hfree, fun d hd => hmin d fun h => hd (hsub h)⟩

/-- **First fit reads which colors are taken**, not their order or how
often they come. -/
theorem firstFit_congr (h : ∀ c, c ∈ taken ↔ c ∈ taken') :
    firstFit taken palette = firstFit taken' palette := by
  cases hfit : firstFit taken palette with
  | none =>
    refine (firstFit_eq_none_iff.2 fun c => (h c).1 ?_).symm
    exact firstFit_eq_none_iff.1 hfit c
  | some c =>
    refine (firstFit_of_subset (fun d hd => (h d).1 hd) hfit ?_).symm
    rw [← h]
    exact firstFit_not_mem hfit

end Tricolor
