import Tricolor.Proofs.Gadget.Renaming
import Tricolor.Proofs.Outcome

/-!
# The role colors are names

Which three colors stand for truth, falsity and the neutral node makes no
difference to the strategies whose oracles work with colors alone. With
other roles the greedy strategy and backtracking fail with the same
error, or return the same outcome in other colors (`solveFrom_rename`):
every color is renamed, past the role colors as well, where the renaming
follows the order of the numbers that are free.
-/

namespace Tricolor

/-- A refutation that speaks of renamed colors. -/
def Refutation.rename (ρ : Color → Color) : Refutation → Refutation
  | fourthColor node color => fourthColor node (ρ color)
  | noModel => noModel
  | noColoring oracle => noColoring oracle

/-- A verdict in renamed colors: an assignment stays the same. -/
def Verdict.rename (ρ : Color → Color) : Verdict → Verdict
  | satisfiable a => satisfiable a
  | unsatisfiable reason => unsatisfiable (reason.rename ρ)

/-- An outcome in renamed colors: oracle, graph and the number of colors
stay the same. -/
def Solution.rename (ρ : Color → Color) (s : Solution) : Solution :=
  { s with coloring := s.coloring.map (Coloring.recolor ρ), verdict := s.verdict.rename ρ }

namespace Reduction

open Gadget

variable {f : Formula} {r : ColorRoles} {strategy : Strategy}

/-- **A coloring is judged by its roles**, whatever their colors. -/
theorem judge_recolor (f : Formula) (oracle : String) (hr : r.Distinct) (c : Coloring Node) :
    judge f oracle r (c.recolor r.rename) =
      (judge f oracle .standard c).map (Verdict.rename r.rename) := by
  rw [judge, judge, ColorRoles.extract, ColorRoles.extract, ColorRoles.firstOverflow_recolor hr,
    ColorRoles.valuesFrom_recolor hr]
  cases ColorRoles.standard.firstOverflow c with
  | some e => rfl
  | none =>
    simp only [Option.map_none]
    cases hvalues : ColorRoles.standard.valuesFrom c 1 f.numVars.toNat with
    | ok values =>
      simp only [Except.map]
      split <;> rfl
    | error e =>
      obtain ⟨node, rfl⟩ := ColorRoles.exists_of_valuesFrom_eq_error hvalues
      rfl

theorem finish_recolor (f : Formula) (g : Graph Node) (oracle : String) (hr : r.Distinct)
    (c : Option (Coloring Node)) :
    finish f g oracle r (c.map (Coloring.recolor r.rename)) =
      (finish f g oracle .standard c).map (Solution.rename r.rename) := by
  cases c with
  | none => rfl
  | some c =>
    rw [Option.map_some, finish, finish, isProper_recolor hr.rename_injective,
      judge_recolor f oracle hr, Coloring.length_colorsUsed_recolor hr.rename_injective]
    cases isProper g c with
    | false => rfl
    | true => cases judge f oracle .standard c <;> rfl

/-- If an oracle answers in renamed colors, so does the reduction. -/
theorem solveWithOracle_recolor {σ : Type} [ColoringOracle σ Node] {state : σ} (hf : f.Valid)
    (hr : r.Distinct)
    (hanswer : (ColoringOracle.color state (graph f) r.referenceSeed r.palette).1 =
      (ColoringOracle.color state (graph f) ColorRoles.standard.referenceSeed
        ColorRoles.standard.palette).1.map (Option.map (Coloring.recolor r.rename))) :
    (solveWithOracle f state r).1 =
      (solveWithOracle f state .standard).1.map (Solution.rename r.rename) := by
  rw [solveWithOracle, solveWithOracle, build_eq_ok hf]
  simp only [hanswer]
  cases (ColoringOracle.color state (graph f) ColorRoles.standard.referenceSeed
      ColorRoles.standard.palette).1 with
  | error e => rfl
  | ok c => exact finish_recolor f (graph f) _ hr c

theorem solveFrom_dsatur_recolor {S : Type} [Backend S] (start : S) (hf : f.Valid)
    (hr : r.Distinct) :
    solveFrom start f .dsatur r =
      (solveFrom start f .dsatur .standard).map (Solution.rename r.rename) := by
  have hseed := validSeed_referenceSeed hf ColorRoles.distinct_standard
  have hends := dsaturEnds_graph hf (seedsReferences_referenceSeed .standard) hseed
    ColorRoles.standard.palette
  have hrun := dsaturWithStats_recolor hr.renames_rename hseed hends
  rw [ColorRoles.referenceSeed_recolor] at hrun
  refine solveWithOracle_recolor hf hr ?_
  simp only [ColoringOracle.color, hrun]
  cases dsaturWithStats (graph f) ColorRoles.standard.referenceSeed
      ColorRoles.standard.palette <;> rfl

theorem solveFrom_backtrack_recolor {S : Type} [Backend S] (start : S) (hf : f.Valid)
    (hr : r.Distinct) :
    solveFrom start f .backtrack r =
      (solveFrom start f .backtrack .standard).map (Solution.rename r.rename) := by
  have hpalette : ∀ b color, ColorRoles.standard.referenceSeed.get? b = some color →
      color ∈ ColorRoles.standard.palette := by
    intro b color hb
    obtain ⟨role, -, rfl⟩ := get?_referenceSeed_eq_some_iff.1 hb
    exact ColorRoles.standard.color_mem_palette role
  have hsearch := Backtrack.color_recolor none hr.rename_injective
    (validSeed_referenceSeed hf ColorRoles.distinct_standard) hpalette
  rw [ColorRoles.referenceSeed_recolor, hr.renames_rename.map_palette] at hsearch
  exact solveWithOracle_recolor hf hr (congrArg Prod.fst hsearch)

/-- **The role colors are names.** With other roles that differ from each
other, the greedy strategy and backtracking fail with the same error as
with the standard roles, or return the same verdict and assignment, as
many colors, and a coloring of the same nodes in the same order whose
colors are renamed: the standard role colors to the new ones, and the
`j`-th number after them to the `j`-th color without a role. -/
theorem solveFrom_rename {S : Type} [Backend S] (start : S) (f : Formula) (hr : r.Distinct)
    (hstrategy : strategy = .dsatur ∨ strategy = .backtrack) :
    solveFrom start f strategy r =
        (solveFrom start f strategy .standard).map (Solution.rename r.rename) ∧
      r.rename .green = r.truth ∧ r.rename .red = r.falsity ∧ r.rename .blue = r.neutral ∧
      ∀ j, j + 3 < UInt32.size →
        ((Color.below UInt32.size).filter (· ∉ r.palette))[j]? =
          some (r.rename ⟨.ofNat 32 (j + 3)⟩) := by
  refine ⟨?_, rfl, rfl, rfl, fun j hj => ?_⟩
  · cases hvalidate : f.validate with
    | error e =>
      rw [solveFrom_eq_error start strategy r hvalidate,
        solveFrom_eq_error start strategy .standard hvalidate]
      rfl
    | ok =>
      have hf := Formula.validate_eq_ok_iff.1 hvalidate
      rcases hstrategy with rfl | rfl
      · exact solveFrom_dsatur_recolor start hf hr
      · exact solveFrom_backtrack_recolor start hf hr
  · rw [ColorRoles.rename_of_index (Color.index_ofNat hj), ← ColorRoles.getElem?_free hj,
      ColorRoles.free]
    congr 2
    funext color
    rw [Bool.eq_iff_iff, decide_eq_true_eq, ColorRoles.isOverflow_iff]

/-- With the roles 5, 3 and 0 the greedy strategy runs into a fourth color
on `1 ∨ 1 ∨ 1` with `-1 ∨ -1 ∨ -1` as it does with the standard roles. The
free number 1 takes the place of grey. -/
theorem solveFrom_rename_descending :
    let r : ColorRoles := ⟨⟨5⟩, ⟨3⟩, ⟨0⟩⟩
    ∃ s, solve ⟨1, [⟨1, 1, 1⟩, ⟨-1, -1, -1⟩]⟩ .dsatur .standard = .ok s ∧
      solve ⟨1, [⟨1, 1, 1⟩, ⟨-1, -1, -1⟩]⟩ .dsatur r = .ok (s.rename r.rename) ∧
      (∃ reason, s.verdict = .unsatisfiable reason) ∧ r.rename .grey = ⟨1⟩ := by
  intro r
  have hf : Formula.Valid ⟨1, [⟨1, 1, 1⟩, ⟨-1, -1, -1⟩]⟩ :=
    Formula.validate_eq_ok_iff.1 (by decide)
  obtain ⟨oracle, c, verdict, hsolve, -, -, -, hborne⟩ :=
    exists_solveFrom_dsatur Solver.empty hf ColorRoles.distinct_standard
  have hrename := (solveFrom_rename Solver.empty ⟨1, [⟨1, 1, 1⟩, ⟨-1, -1, -1⟩]⟩ (r := r)
    ⟨by decide, by decide, by decide⟩ (.inl rfl)).1
  rw [hsolve] at hrename
  refine ⟨_, hsolve, hrename, ?_, by decide⟩
  cases hborne with
  | satisfiable _ ha hsat => exact absurd ⟨_, ha, hsat⟩ Formula.not_satisfiable_contradictory
  | overflow => exact ⟨_, rfl⟩

end Reduction

end Tricolor
