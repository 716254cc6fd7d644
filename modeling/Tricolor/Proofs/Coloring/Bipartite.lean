import Tricolor.Proofs.Coloring.Dsatur

/-!
# Two colors where two suffice

On a bipartite graph the greedy coloring uses no more than two colors,
whatever the palette. A node with a colored neighbor comes before every
node without one, so a component is finished before the next is begun
(`IsNext.finished`). Each component starts with the color that first fit
gives when nothing is taken, and alternates from there with the one it
gives next. The sides of a component not yet begun can be exchanged, so
one bipartition of the whole graph accounts for all colors given
(`Step.alternates`), and there is always a color left to give
(`Alternates.not_stuck`).
-/

namespace Tricolor

/-- The colors that first fit gives on two sides: its first choice on one,
and beside each of them the other. -/
structure Sides (palette : List Color) (sideColor : Bool → Color) : Prop where
  first : firstFit [] palette = some (sideColor true)
  beside : ∀ side, firstFit [sideColor side] palette = some (sideColor !side)

theorem exists_sides (palette : List Color) : ∃ sideColor, Sides palette sideColor := by
  obtain ⟨c, hc⟩ := exists_firstFit [] palette (by decide)
  obtain ⟨d, hd⟩ := exists_firstFit [c] palette (show 1 < UInt32.size by decide)
  have hne : c ∉ [d] := by
    intro hmem
    apply firstFit_not_mem hd
    rw [List.mem_singleton] at hmem ⊢
    exact hmem.symm
  refine ⟨fun side => if side then c else d, hc, fun side => ?_⟩
  cases side with
  | true => exact hd
  | false => exact firstFit_of_subset (List.nil_subset _) hc hne

namespace Greedy

variable {α : Type} [DecidableEq α] {g : Graph α} {c c' d : Coloring α} {palette : List Color}
variable {a b : α} {side : α → Bool} {sideColor : Bool → Color}

/-- Two sides such that every edge leads from one to the other. -/
def Bipartition (g : Graph α) (side : α → Bool) : Prop :=
  ∀ a b, g.hasEdge a b → side a ≠ side b

/-- The ends of an edge show two colors. -/
theorem exists_colors_of_hasEdge (hd : Proper g d) (hab : g.hasEdge a b) :
    ∃ color ∈ d.colorsUsed, ∃ color' ∈ d.colorsUsed,
      d.get? a = some color ∧ d.get? b = some color' ∧ color ≠ color' := by
  obtain ⟨ha, hb⟩ := Graph.mem_nodes_of_hasEdge hab
  obtain ⟨color, hcolor⟩ := hd.colored a ha
  obtain ⟨color', hcolor'⟩ := hd.colored b hb
  refine ⟨color, Coloring.mem_colorsUsed.2 ⟨a, hcolor⟩, color',
    Coloring.mem_colorsUsed.2 ⟨b, hcolor'⟩, hcolor, hcolor', ?_⟩
  rintro rfl
  exact hd.distinct a b hab (hcolor.trans hcolor'.symm)

/-- In a proper coloring with at most two colors, the nodes that wear the
first of them are one side. -/
theorem exists_bipartition (hd : Proper g d) (hlength : d.colorsUsed.length ≤ 2) :
    ∃ side, Bipartition g side := by
  refine ⟨fun a => d.get? a == d.colorsUsed.head?, fun a b hab => ?_⟩
  obtain ⟨color, hmem, color', hmem', ha, hb, hne⟩ := exists_colors_of_hasEdge hd hab
  show (d.get? a == d.colorsUsed.head?) ≠ (d.get? b == d.colorsUsed.head?)
  rw [ha, hb]
  match d.colorsUsed, hlength, hmem, hmem' with
  | [first], _, hmem, hmem' =>
    exact absurd ((List.mem_singleton.1 hmem).trans (List.mem_singleton.1 hmem').symm) hne
  | [first, second], _, hmem, hmem' =>
    simp only [List.mem_cons, List.not_mem_nil, or_false] at hmem hmem'
    rcases hmem with rfl | rfl
    · simpa using hne.symm
    · -- the second color stands against the first
      have hfirst : color' = first := hmem'.resolve_right hne.symm
      simpa [hfirst] using hfirst ▸ hne

/-- A coloring whose nodes wear the color of their side. Only nodes with
an edge wear the second one. -/
structure Alternates (g : Graph α) (sideColor : Bool → Color) (side : α → Bool) (c : Coloring α) :
    Prop where
  bipartition : Bipartition g side
  wears : ∀ a color, c.get? a = some color → color = sideColor (side a)
  linked : ∀ a color, c.get? a = some color → side a = false → ∃ b, g.hasEdge a b

/-! ## Component by component -/

/-- **A node without colored neighbors is next only when every component
is finished or not begun:** then no open node has a colored neighbor. -/
theorem IsNext.finished (h : IsNext g c a) (ha : around g c a = []) (hb : c.get? b = none)
    {b' : α} (hbb' : g.hasEdge b b') : c.get? b' = none := by
  by_contra hcolored
  obtain ⟨color, hcolor⟩ := Option.ne_none_iff_exists'.1 hcolored
  have hmem : color ∈ around g c b := mem_around.2 ⟨b', hbb', hcolor⟩
  have hba : b ≠ a := by
    rintro rfl
    rw [ha] at hmem
    exact List.not_mem_nil hmem
  have hfirst := h.first b (Graph.mem_nodes_of_hasEdge hbb').1 hb hba
  have hpos := List.length_pos_of_mem hmem
  rw [Rank.before_iff] at hfirst
  simp only [rank, ha, List.length_nil] at hfirst
  omega

/-- Next to a colored neighbor a node takes the color of its own side. -/
theorem Alternates.fit_of_around (h : Alternates g sideColor side c)
    (hsides : Sides palette sideColor) (ha : around g c a ≠ []) :
    fit g palette c a = some (sideColor (side a)) := by
  have hother : ∀ b, g.hasEdge a b → side b = !side a := fun b hab =>
    Bool.eq_not_of_ne (h.bipartition a b hab).symm
  have hsame : ∀ color ∈ around g c a, color = sideColor (!side a) := by
    intro color hcolor
    obtain ⟨b, hab, hb⟩ := mem_around.1 hcolor
    rw [h.wears b color hb, hother b hab]
  obtain ⟨color, hcolor⟩ := List.exists_mem_of_ne_nil _ ha
  have hmem : ∀ color, color ∈ around g c a ↔ color ∈ [sideColor (!side a)] := by
    intro color'
    rw [List.mem_singleton]
    refine ⟨hsame color', ?_⟩
    rintro rfl
    exact hsame color hcolor ▸ hcolor
  rw [fit, firstFit_congr hmem, hsides.beside, Bool.not_not]

/-- The sides with those of the open nodes exchanged where that puts a
node on the first side. -/
def sidesFrom (c : Coloring α) (side : α → Bool) (a b : α) : Bool :=
  if c.get? b = none then side b == side a else side b

theorem sidesFrom_of_get? {color : Color} (hb : c.get? b = some color) :
    sidesFrom c side a b = side b := by
  rw [sidesFrom, if_neg (by rw [hb]; exact Option.some_ne_none color)]

theorem sidesFrom_self (ha : c.get? a = none) : sidesFrom c side a a = true := by
  rw [sidesFrom, if_pos ha, beq_self_eq_true]

/-- **A component is begun with the sides that suit it.** No edge joins an
open node to a colored one, so the sides of all open nodes can be
exchanged at once. -/
theorem Alternates.of_around_eq_nil (h : Alternates g sideColor side c) (hnext : IsNext g c a)
    (ha : around g c a = []) : Alternates g sideColor (sidesFrom c side a) c where
  bipartition x y hxy := by
    have hxy' := h.bipartition x y hxy
    unfold sidesFrom
    by_cases hx : c.get? x = none
    · have hy := hnext.finished ha hx hxy
      rw [if_pos hx, if_pos hy]
      revert hxy'
      generalize side x = p, side y = q, side a = r
      revert p q r
      decide
    · have hy : c.get? y ≠ none := fun hy => hx (hnext.finished ha hy (Graph.hasEdge_symm hxy))
      rw [if_neg hx, if_neg hy]
      exact hxy'
  wears x color hx := by
    rw [sidesFrom_of_get? hx]
    exact h.wears x color hx
  linked x color hx hside := by
    rw [sidesFrom_of_get? hx] at hside
    exact h.linked x color hx hside

/-- A node that gets the color of its side. -/
theorem Alternates.insert (h : Alternates g sideColor side c)
    (hlinked : side a = false → ∃ b, g.hasEdge a b) :
    Alternates g sideColor side (c.insert a (sideColor (side a))) where
  bipartition := h.bipartition
  wears b color hb := by
    rw [Coloring.get?_insert] at hb
    split at hb
    · rename_i hba
      rw [hba, Option.some.inj hb]
    · exact h.wears b color hb
  linked b color hb hside := by
    rw [Coloring.get?_insert] at hb
    split at hb
    · rename_i hba
      exact hba ▸ hlinked (hba ▸ hside)
    · exact h.linked b color hb hside

/-- **The next node takes the color of its side**, once the sides suit
it. -/
theorem Alternates.exists_fit (h : Alternates g sideColor side c) (hsides : Sides palette sideColor)
    (hnext : IsNext g c a) :
    ∃ side, Alternates g sideColor side c ∧ fit g palette c a = some (sideColor (side a)) ∧
      (side a = false → ∃ b, g.hasEdge a b) := by
  by_cases ha : around g c a = []
  · refine ⟨sidesFrom c side a, h.of_around_eq_nil hnext ha, ?_, fun hside => ?_⟩
    · rw [fit, ha, sidesFrom_self hnext.isOpen, hsides.first]
    · rw [sidesFrom_self hnext.isOpen] at hside
      cases hside
  · refine ⟨side, h, h.fit_of_around hsides ha, fun _ => ?_⟩
    obtain ⟨color, hcolor⟩ := List.exists_mem_of_ne_nil _ ha
    obtain ⟨b, hab, -⟩ := mem_around.1 hcolor
    exact ⟨b, hab⟩

/-- **A step keeps to two colors.** -/
theorem Step.alternates (hstep : Step g palette c c') (hsides : Sides palette sideColor)
    (h : Alternates g sideColor side c) : ∃ side, Alternates g sideColor side c' := by
  obtain ⟨hnext, hfit⟩ := hstep
  obtain ⟨side, h, hfit', hlinked⟩ := h.exists_fit hsides hnext
  obtain rfl := Option.some.inj (hfit.symm.trans hfit')
  exact ⟨side, h.insert hlinked⟩

/-- **A run keeps to two colors.** -/
theorem Run.alternates (hrun : Run g palette c c') (hsides : Sides palette sideColor)
    (h : ∃ side, Alternates g sideColor side c) : ∃ side, Alternates g sideColor side c' := by
  induction hrun with
  | refl => exact h
  | tail _ hstep ih =>
    obtain ⟨side, hside⟩ := ih
    exact hstep.alternates hsides hside

/-- With two colors a run does not get stuck. -/
theorem Alternates.not_stuck (h : Alternates g sideColor side c)
    (hsides : Sides palette sideColor) : ¬ Stuck g c := by
  rintro ⟨a, hnext, hfull⟩
  obtain ⟨side, -, hfit, -⟩ := h.exists_fit hsides hnext
  rw [fit_eq_none_iff.2 hfull] at hfit
  cases hfit

/-! ## How many colors there are -/

theorem Alternates.length_colorsUsed_le_two (h : Alternates g sideColor side c) :
    c.colorsUsed.length ≤ 2 := by
  have hworn : ∀ a color, c.get? a = some color →
      color ∈ [sideColor true, sideColor false] := by
    intro a color ha
    rw [h.wears a color ha]
    cases side a <;> simp
  exact Coloring.length_colorsUsed_le_of_get? hworn

/-- **No proper coloring has fewer colors.** The second color is only worn
where there is an edge, whose ends show two colors in any coloring. -/
theorem Alternates.length_colorsUsed_le (h : Alternates g sideColor side c)
    (hknown : ∀ a ∈ c.nodes, a ∈ g.nodes) (hd : Proper g d) :
    c.colorsUsed.length ≤ d.colorsUsed.length := by
  by_cases hedge : ∃ a b, g.hasEdge a b
  · obtain ⟨a, b, hab⟩ := hedge
    obtain ⟨color, hmem, color', hmem', -, -, hne⟩ := exists_colors_of_hasEdge hd hab
    have hnodup : [color, color'].Nodup := by simpa using hne
    have hsub : [color, color'] ⊆ d.colorsUsed := by
      simp only [List.cons_subset, List.nil_subset, and_true]
      exact ⟨hmem, hmem'⟩
    exact h.length_colorsUsed_le_two.trans (hnodup.subperm hsub).length_le
  · -- without edges all colored nodes wear the first color
    have hworn : ∀ a color, c.get? a = some color → color ∈ [sideColor true] := by
      intro a color ha
      have hside : side a = true := by
        by_contra hfalse
        exact hedge ⟨a, h.linked a color ha (Bool.eq_false_of_not_eq_true hfalse)⟩
      rw [h.wears a color ha, hside]
      exact List.mem_singleton_self _
    have hone : c.colorsUsed.length ≤ 1 := Coloring.length_colorsUsed_le_of_get? hworn
    cases hcolors : c.colorsUsed with
    | nil => exact Nat.zero_le _
    | cons color rest =>
      obtain ⟨a, ha⟩ := Coloring.mem_colorsUsed.1 (hcolors ▸ List.mem_cons_self)
      obtain ⟨color', hcolor'⟩ := hd.colored a (hknown a (Coloring.mem_nodes_of_get? ha))
      have hpos := List.length_pos_of_mem (Coloring.mem_colorsUsed.2 ⟨a, hcolor'⟩)
      rw [← hcolors]
      omega

end Greedy

section Dsatur

variable {α : Type} [DecidableEq α] [ToString α] {g : Graph α}

/-- **The greedy coloring of a bipartite graph is optimal.** If some proper
coloring has at most two colors, then the greedy one, started without a
seed, is proper and has at most two, and no more than any other proper
coloring. The palette has no say in it. -/
theorem dsatur_of_two_colorable
    (h : ∃ d : Coloring α, isProper g d ∧ d.colorsUsed.length ≤ 2) (palette : List Color) :
    ∃ c, dsatur g .empty palette = .ok c ∧ isProper g c ∧ c.colorsUsed.length ≤ 2 ∧
      ∀ d, isProper g d → c.colorsUsed.length ≤ d.colorsUsed.length := by
  obtain ⟨d, hd, hlength⟩ := h
  obtain ⟨side, hside⟩ := Greedy.exists_bipartition (isProper_iff.1 hd) hlength
  obtain ⟨sideColor, hsides⟩ := exists_sides palette
  have hstart : ∃ side, Greedy.Alternates g sideColor side .empty := ⟨side, hside, nofun, nofun⟩
  have hseed : ValidSeed g .empty := ⟨nofun, nofun⟩
  have hends : DsaturEnds g .empty palette := by
    by_contra hnot
    obtain ⟨c, hrun, hstuck⟩ := (not_dsaturEnds_iff hseed).1 hnot
    obtain ⟨side, hc⟩ := hrun.alternates hsides hstart
    exact hc.not_stuck hsides hstuck
  obtain ⟨c, hc, hrun, hall⟩ := dsatur_run hseed hends
  obtain ⟨side, hc'⟩ := hrun.alternates hsides hstart
  exact ⟨c, hc, isProper_iff.2 (hrun.proper hseed hall), hc'.length_colorsUsed_le_two,
    fun d hd => hc'.length_colorsUsed_le (hrun.validSeed hseed).known (isProper_iff.1 hd)⟩

/-- A square whose corners come in no good order, and an edge apart from
it; the palette has one color only. -/
theorem dsatur_of_two_colorable_square :
    let g : Graph Nat := Graph.empty.joinAll [(1, 2), (3, 4), (5, 6), (2, 3), (4, 1)]
    let d : Coloring Nat := .ofList
      [(1, .red), (2, .blue), (3, .red), (4, .blue), (5, .red), (6, .blue)]
    (isProper g d ∧ d.colorsUsed.length ≤ 2) ∧
      ∃ c, dsatur g .empty [.blue] = .ok c ∧ isProper g c ∧ c.colorsUsed.length ≤ 2 ∧
        ∀ d, isProper g d → c.colorsUsed.length ≤ d.colorsUsed.length := by
  intro g d
  have hproper : isProper g d := by decide +kernel
  have hlength : d.colorsUsed.length ≤ 2 := by
    rw [Coloring.length_colorsUsed]
    decide +kernel
  exact ⟨⟨hproper, hlength⟩, dsatur_of_two_colorable ⟨d, hproper, hlength⟩ [.blue]⟩

end Dsatur

end Tricolor
