import Mathlib.Data.List.TakeWhile
import Tricolor.Proofs.Coloring.Backtrack
import Tricolor.Proofs.Coloring.Refusal
import Tricolor.Proofs.Coloring.SatOracle
import Tricolor.Proofs.Sat.Frontend

/-!
# Where the exact oracles agree

Both exact oracles refuse a seed that is not valid, and both are exact
about one whose colors the palette has. They differ in when they look for
the colors of a seed: the encoding looks for all of them before it builds
anything, the search for each one as it plants the entry. So the search
never comes to a color that the palette lacks if the entries before it
leave some node nothing (`Overlooked`), and answers that there is no
coloring where the encoding reports the color. On every other input the
answers are of one kind (`color_sameKind_iff`).
-/

namespace Tricolor

open Backtrack (Starved)

variable {α : Type} [DecidableEq α] {g : Graph α} {seed : Coloring α} {palette : List Color}
variable {a : α} {color : Color}

/-- Answers of one kind: both refuse the seed, for the same fault, both
say that there is no coloring, or both give one. -/
inductive SameKind {α : Type} : OracleAnswer α → OracleAnswer α → Prop
  | refused {fault : SeedFault} :
      SameKind (.error (.invalidSeed fault)) (.error (.invalidSeed fault))
  | none : SameKind (.ok none) (.ok none)
  | some {c c' : Coloring α} : SameKind (.ok (some c)) (.ok (some c'))

/-- Exact answers to one problem are of one kind. -/
theorem Exact.sameKind {answer answer' : OracleAnswer α} (h : Exact g seed palette answer)
    (h' : Exact g seed palette answer') : SameKind answer answer' := by
  cases h with
  | found hp =>
    cases h' with
    | found => exact .some
    | refuted hnone => exact absurd ⟨_, hp⟩ hnone
  | refuted hnone =>
    cases h' with
    | found hp => exact absurd ⟨_, hp⟩ hnone
    | refuted => exact .none

/-! ## Colors that the palette lacks -/

/-- The entries of a seed up to the first color that the palette lacks. -/
def Coloring.inside (seed : Coloring α) (palette : List Color) : List (α × Color) :=
  seed.entries.takeWhile fun e => palette.contains e.2

/-- A seed with a color that the palette lacks, behind entries that leave
some node nothing. -/
structure Overlooked (g : Graph α) (seed : Coloring α) (palette : List Color) : Prop where
  valid : ValidSeed g seed
  outside : ∃ a color, seed.get? a = some color ∧ color ∉ palette
  starved : Starved g palette (seed.inside palette)

omit [DecidableEq α] in
theorem Coloring.mem_palette_of_mem_inside {e : α × Color} (h : e ∈ seed.inside palette) :
    e.2 ∈ palette := by
  have hinside := List.mem_takeWhile_imp h
  exact List.contains_iff_mem.1 hinside

/-- The entries of a seed have colors of the palette up to the first one
that does not. -/
theorem Coloring.exists_entries_eq (h : ∃ a color, seed.get? a = some color ∧ color ∉ palette) :
    ∃ a color rest, seed.entries = seed.inside palette ++ (a, color) :: rest ∧
      color ∉ palette := by
  have hsplit : seed.entries = seed.inside palette ++
      seed.entries.dropWhile fun e => palette.contains e.2 := List.takeWhile_append_dropWhile.symm
  have hfirst := List.head?_dropWhile_not (fun e : α × Color => palette.contains e.2) seed.entries
  cases hdrop : seed.entries.dropWhile fun e => palette.contains e.2 with
  | nil =>
    obtain ⟨a, color, ha, hcolor⟩ := h
    have hmem := List.dropWhile_eq_nil_iff.1 hdrop _ (get?_eq_some_iff.1 ha)
    exact absurd (List.contains_iff_mem.1 hmem) hcolor
  | cons e rest =>
    rw [hdrop] at hsplit hfirst
    refine ⟨e.1, e.2, rest, hsplit, fun hmem => ?_⟩
    exact Bool.false_ne_true (hfirst.symm.trans (List.contains_iff_mem.2 hmem))

namespace Backtrack

variable {done : List (α × Color)} {s : Search}

/-- Entries that were planted and left every node something starve none. -/
theorem Planted.not_starved (hs : Planted g palette done s)
    (hroom : palette ≠ [] → ∀ i < g.nodeCount, ¬ (s.domain i).isEmpty) :
    ¬ Starved g palette done := by
  rintro ⟨hpos, a, ha⟩
  obtain ⟨_, _, hedge, -, -⟩ := ha 0 (List.length_pos_iff.2 hpos)
  obtain ⟨i, hi⟩ := Graph.mem_nodes_iff.1 (Graph.mem_nodes_of_hasEdge hedge).1
  have hlt := Graph.lt_nodeCount_of_node? hi
  have htaken : ∀ c < palette.length, ∃ j, g.Linked i j ∧ s.choice? j = some c := by
    intro c hc
    obtain ⟨b, color, hab, hb, hidx⟩ := ha c hc
    obtain ⟨j, hj⟩ := Graph.mem_nodes_iff.1 (Graph.mem_nodes_of_hasEdge hab).2
    exact ⟨j, (Graph.hasEdge_iff_linked hi hj).1 hab, (hs.choice j b c hj).2 ⟨color, hb, hidx⟩⟩
  cases hchoice : s.choice? i with
  | none =>
    have hempty := hroom hpos i hlt
    rw [Domain.isEmpty_iff, not_forall] at hempty
    obtain ⟨c, hc⟩ := hempty
    obtain ⟨hck, hleft⟩ := (hs.sound.mem_domain i hlt hchoice c).1 (not_not.1 hc)
    obtain ⟨j, hij, hj⟩ := htaken c hck
    exact hleft j hij hj
  | some c =>
    obtain ⟨j, hij, hj⟩ := htaken c (hs.sound.lt i c hchoice)
    exact hs.sound.distinct i j c hij hchoice hj

omit [DecidableEq α] in
/-- A search over a palette with a color leaves every node something at
its start. -/
theorem domain_start_nonempty {i : Nat} (hsize : palette.length ≤ maxPalette)
    (hpos : palette ≠ []) (hi : i < g.nodeCount) :
    ¬ ((Search.start g.nodeCount palette.length).domain i).isEmpty := by
  intro hempty
  refine Domain.isEmpty_iff.1 hempty 0 ?_
  refine ((Search.consistent_start g hsize).mem_domain i hi (Search.choice?_start _ _ _) 0).2
    ⟨List.length_pos_iff.2 hpos, fun j _ hj => ?_⟩
  rw [Search.choice?_start] at hj
  exact Option.some_ne_none 0 hj.symm

variable [ToString α]

/-- Entries with colors of the palette are planted and leave every node
something, or some node is left nothing. -/
theorem plant_cases (hseed : ValidSeed g seed) (hinside : ∀ e ∈ seed.entries, e.2 ∈ palette)
    (hsize : palette.length ≤ maxPalette) :
    (∃ s, plant g g.adjacency palette seed.entries (.start g.nodeCount palette.length) =
          .ok (some s) ∧ Planted g palette seed.entries s ∧
        (palette ≠ [] → ∀ i < g.nodeCount, ¬ (s.domain i).isEmpty)) ∨
      plant g g.adjacency palette seed.entries (.start g.nodeCount palette.length) = .ok none ∧
        Starved g palette seed.entries := by
  have hplant := plant_append hseed hinside (List.append_nil _).symm (planted_start g hsize)
  rw [List.append_nil, List.nil_append] at hplant
  rcases hplant with ⟨s, hplant, hs, hkeep⟩ | ⟨hplant, hstarved⟩
  · exact .inl ⟨s, hplant, hs, fun hpos i hi => hkeep i (domain_start_nonempty hsize hpos hi)⟩
  · exact .inr ⟨hplant, hstarved⟩

/-- **A color that the palette lacks is reported if the search comes to
it.** -/
theorem color_of_outside {inside rest : List (α × Color)} (limit : Option Nat)
    (hseed : ValidSeed g seed) (hsize : palette.length ≤ maxPalette)
    (hinside : ∀ e ∈ inside, e.2 ∈ palette) (hcolor : color ∉ palette)
    (hsplit : seed.entries = inside ++ (a, color) :: rest) :
    (Starved g palette inside ∧ (Backtrack.color limit g seed palette).1 = .ok none) ∨
      ¬ Starved g palette inside ∧ (Backtrack.color limit g seed palette).1 =
        .error (.invalidSeed (.outsidePalette color (toString a))) := by
  rw [Backtrack.color, validateSeed_eq_ok_iff.2 hseed, hsplit]
  simp only [if_neg (Nat.not_lt.2 hsize)]
  rcases plant_append hseed hinside hsplit (planted_start g hsize) with
    ⟨s, hplant, hs, hkeep⟩ | ⟨hplant, hstarved⟩
  · right
    refine ⟨hs.not_starved fun hpos i hi => hkeep i (domain_start_nonempty hsize hpos hi), ?_⟩
    simp only [hplant, plant, List.idxOf?_eq_none_iff.2 hcolor]
  · left
    refine ⟨hstarved, ?_⟩
    simp only [hplant]

end Backtrack

/-! ## Where the answers differ -/

section Agree

variable [ToString α] {S : Type} [Backend S] {start : S}

/-- On a valid seed with a color that the palette lacks the solver's
oracle reports it, and so does the search unless it is overlooked. -/
theorem color_outside_cases (start : S) (hseed : ValidSeed g seed)
    (houtside : ∃ a color, seed.get? a = some color ∧ color ∉ palette)
    (hlength : palette.length ≤ Backtrack.maxPalette) :
    ∃ fault, (ColoringOracle.color (SatOracle.mk start) g seed palette).1 =
        .error (.invalidSeed fault) ∧
      ((Overlooked g seed palette ∧ (Backtrack.color none g seed palette).1 = .ok none) ∨
        ¬ Overlooked g seed palette ∧
          (Backtrack.color none g seed palette).1 = .error (.invalidSeed fault)) := by
  obtain ⟨a, color, rest, hsplit, hcolor⟩ := Coloring.exists_entries_eq houtside
  have hinside : ∀ e ∈ seed.inside palette, e.2 ∈ palette := fun _ =>
    Coloring.mem_palette_of_mem_inside
  refine ⟨_, SatOracle.color_eq_error _
    (Encoding.encode_eq_error_of_outside hseed hinside hcolor hsplit), ?_⟩
  rcases Backtrack.color_of_outside none hseed hlength hinside hcolor hsplit with
    ⟨hstarved, hanswer⟩ | ⟨hstarved, hanswer⟩
  · exact .inl ⟨⟨hseed, houtside, hstarved⟩, hanswer⟩
  · exact .inr ⟨fun h => hstarved h.starved, hanswer⟩

/-- **The exact oracles agree, unless a color is overlooked.** With a
lawful solver their answers are of one kind on every input but those with
a color that the palette lacks behind entries that leave some node
nothing. There the search answers that there is no coloring, while the
solver's oracle reports every color that the palette lacks. -/
theorem color_sameKind_iff (hS : Backend.Lawful start) (g : Graph α) (seed : Coloring α)
    (palette : List Color) (hlength : palette.length ≤ 64)
    (hsize : g.nodeCount * palette.length < UInt32.size) :
    (SameKind (ColoringOracle.color Backtracker.unlimited g seed palette).1
        (ColoringOracle.color (SatOracle.mk start) g seed palette).1 ↔
      ¬ Overlooked g seed palette) ∧
      (Overlooked g seed palette →
        (ColoringOracle.color Backtracker.unlimited g seed palette).1 = .ok none) ∧
      ((∃ a color, seed.get? a = some color ∧ color ∉ palette) → ∃ fault,
        (ColoringOracle.color (SatOracle.mk start) g seed palette).1 =
          .error (.invalidSeed fault)) := by
  have hunlimited : (ColoringOracle.color Backtracker.unlimited g seed palette).1 =
      (Backtrack.color none g seed palette).1 := rfl
  rw [hunlimited]
  by_cases hseed : ValidSeed g seed
  · by_cases houtside : ∃ a color, seed.get? a = some color ∧ color ∉ palette
    · obtain ⟨fault, hsat, ⟨hover, hanswer⟩ | ⟨hover, hanswer⟩⟩ :=
        color_outside_cases start hseed houtside hlength
      · rw [hsat, hanswer]
        exact ⟨iff_of_false nofun (not_not.2 hover), fun _ => rfl, fun _ => ⟨fault, rfl⟩⟩
      · rw [hsat, hanswer]
        exact ⟨iff_of_true .refused hover, fun h => absurd h hover, fun _ => ⟨fault, rfl⟩⟩
    · have hpalette : ∀ a color, seed.get? a = some color → color ∈ palette := fun a color ha =>
        by_contra fun hcolor => houtside ⟨a, color, ha, hcolor⟩
      have hanswer := Backtrack.exact_color hseed hpalette hlength
      have hsat := SatOracle.exact_colorWith hS hseed hpalette hsize
      exact ⟨iff_of_true (hanswer.sameKind hsat) fun h => houtside h.outside,
        fun h => absurd h.outside houtside, fun h => absurd h houtside⟩
  · obtain ⟨fault, hfault⟩ := exists_validateSeed_eq_error_iff.2 hseed
    rw [← hunlimited, Backtracker.checksSeed _ _ _ _ _ hfault,
      SatOracle.checksSeed _ _ _ _ _ hfault]
    exact ⟨iff_of_true .refused fun h => hseed h.valid, fun h => absurd h.valid hseed,
      fun _ => ⟨fault, rfl⟩⟩

/-- Two neighbors in green and red and a palette that lacks red: the
green node leaves its neighbor nothing, so the search answers that there
is no coloring, and the solver's oracle reports the red one. -/
theorem color_overlooked :
    let g : Graph (Fin 2) := Graph.empty.joinAll [(0, 1)]
    let seed : Coloring (Fin 2) := .ofList [(0, .green), (1, .red)]
    (ColoringOracle.color Backtracker.unlimited g seed [.green]).1 = .ok none ∧
      (ColoringOracle.color (SatOracle.mk Solver.empty) g seed [.green]).1 =
        .error (.invalidSeed (.outsidePalette .red "1")) :=
  ⟨by with_unfolding_all rfl, SatOracle.color_eq_error _ (by decide +kernel)⟩

/-- The same seed is overlooked with a palette of green alone, while with
one of red alone both oracles report the green node. -/
theorem color_sameKind_iff_edge :
    let g : Graph (Fin 2) := Graph.empty.joinAll [(0, 1)]
    let seed : Coloring (Fin 2) := .ofList [(0, .green), (1, .red)]
    (ColoringOracle.color Backtracker.unlimited g seed [.green]).1 = .ok none ∧
      SameKind (ColoringOracle.color Backtracker.unlimited g seed [.red]).1
        (ColoringOracle.color (SatOracle.mk Solver.empty) g seed [.red]).1 := by
  intro g seed
  have hvalid : ValidSeed g seed := validateSeed_eq_ok_iff.1 (by decide +kernel)
  constructor
  · refine (color_sameKind_iff Solver.lawful_empty g seed [.green] (by decide)
      (by decide +kernel)).2.1 ⟨hvalid, ⟨1, .red, rfl, by decide⟩, by decide, 1, fun c hc => ?_⟩
    obtain rfl : c = 0 := Nat.lt_one_iff.1 hc
    exact ⟨0, .green, by decide +kernel, .head [], rfl⟩
  · refine (color_sameKind_iff Solver.lawful_empty g seed [.red] (by decide)
      (by decide +kernel)).1.2 fun h => ?_
    obtain ⟨-, a, ha⟩ := h.starved
    obtain ⟨_, _, -, hmem, -⟩ := ha 0 (by decide)
    cases hmem

end Agree

end Tricolor
