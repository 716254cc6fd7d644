import Tricolor.Proofs.Coloring.Backtrack
import Tricolor.Proofs.Coloring.SatOracle
import Tricolor.Proofs.Gadget.Extract
import Tricolor.Proofs.Gadget.Greedy
import Tricolor.Proofs.Sat.Frontend
import Tricolor.Reduction

/-!
# The exact strategies decide satisfiability

A proper coloring in the role colors that wears them at the references is
always read as a satisfying assignment, and a satisfying assignment gives
such a coloring. So an exact oracle decides the formula, and the greedy
coloring confirms every model that a solver finds.
-/

namespace Tricolor

namespace Reduction

open Gadget

variable {f : Formula} {r : ColorRoles} {c : Coloring Node} {a : Assignment} {oracle : String}
variable {g : Graph Node} {reason : Refutation}

/-- An outcome whose verdict is right about a formula. -/
structure Right (f : Formula) (s : Solution) : Prop where
  satisfiable_iff : (∃ a, s.verdict = .satisfiable a) ↔
    ∃ a : Assignment, a.size = f.numVars.toNat ∧ f.isSatisfiedBy a
  satisfies : ∀ a, s.verdict = .satisfiable a → a.size = f.numVars.toNat ∧ f.isSatisfiedBy a

theorem right_refuted
    (h : ¬ ∃ a : Assignment, a.size = f.numVars.toNat ∧ f.isSatisfiedBy a) :
    Right f (refuted oracle g reason) :=
  ⟨⟨nofun, fun hsat => absurd hsat h⟩, nofun⟩

/-- A proper coloring gets the verdict that it is judged by. -/
theorem finish_eq_ok {verdict : Verdict} (hc : Proper g c)
    (hjudge : judge f oracle r c = .ok verdict) :
    finish f g oracle r (some c) = .ok ⟨oracle, g, some c, c.colorsUsed.length, verdict⟩ := by
  simp only [finish, isProper_iff.2 hc, hjudge]
  rfl

/-- **A coloring in the role colors is read as a satisfying assignment.** -/
theorem judge_eq_satisfiable (hf : f.Valid) (hr : r.Distinct) (hc : Proper (graph f) c)
    (hpalette : ∀ b color, c.get? b = some color → color ∈ r.palette)
    (href : ∀ role, c.get? (.reference role) = some (r.color role)) (oracle : String) :
    judge f oracle r c = .ok (.satisfiable (read r c f.numVars.toNat)) ∧
      f.isSatisfiedBy (read r c f.numVars.toNat) := by
  have hsat := isSatisfiedBy_of_agrees hf (size_read r c f.numVars.toNat) hc
    (agrees_read hf hr hc hpalette href)
  refine ⟨?_, hsat⟩
  rw [judge, extract_eq_read hf hc hpalette]
  exact if_pos hsat

/-- **A coloring in the role colors decides the formula.** -/
theorem finish_right (hf : f.Valid) (hr : r.Distinct) (hc : Proper (graph f) c)
    (hpalette : ∀ b color, c.get? b = some color → color ∈ r.palette)
    (href : ∀ role, c.get? (.reference role) = some (r.color role)) (oracle : String) :
    ∃ s, finish f (graph f) oracle r (some c) = .ok s ∧ Right f s := by
  have hread := size_read r c f.numVars.toNat
  obtain ⟨hjudge, hsat⟩ := judge_eq_satisfiable hf hr hc hpalette href oracle
  refine ⟨_, finish_eq_ok hc hjudge, ⟨fun _ => ⟨_, hread, hsat⟩, fun _ => ⟨_, rfl⟩⟩, ?_⟩
  rintro _ ⟨⟩
  exact ⟨hread, hsat⟩

/-- What an exact strategy ends with: a coloring in the role colors that is
still to be judged, or the answer that the formula has no model. -/
inductive Decided (f : Formula) (r : ColorRoles) : Except Error Solution → Prop
  | colored {oracle : String} {c : Coloring Node} :
      RoleColored f r c → Decided f r (finish f (graph f) oracle r (some c))
  | refuted {oracle : String} {reason : Refutation} :
      ¬ f.Satisfiable → Decided f r (.ok (refuted oracle (graph f) reason))

theorem Decided.right {outcome : Except Error Solution} (hf : f.Valid) (hr : r.Distinct)
    (h : Decided f r outcome) : ∃ s, outcome = .ok s ∧ Right f s := by
  cases h with
  | colored hc => exact finish_right hf hr hc.proper hc.palette hc.reference _
  | refuted hunsat => exact ⟨_, rfl, right_refuted hunsat⟩

/-- The coloring of a placement that keeps the references. -/
theorem roleColored_of_realizes {p : Node → Nat} (hf : f.Valid) (hr : r.Distinct)
    (hp : Placement (graph f) r.referenceSeed r.palette p)
    (hc : Realizes (graph f) r.palette p c) : RoleColored f r c where
  proper := hc.proper hp hr.nodup_palette
  palette _ _ := hc.mem_palette
  reference role := hc.get?_seeded hp (validSeed_referenceSeed hf hr)
    (get?_referenceSeed_eq_some_iff.2 ⟨role, rfl, rfl⟩)

/-- A satisfying assignment gives a placement that keeps the references. -/
theorem exists_placement_of_satisfiable (hf : f.Valid) (hr : r.Distinct) (h : f.Satisfiable) :
    ∃ p, Placement (graph f) r.referenceSeed r.palette p := by
  obtain ⟨a, ha, hsat⟩ := h
  have hagrees := agrees_painted (r := r) hf ha hsat
  exact exists_placement (proper_painted hr ha) hagrees.palette
    (keeps_referenceSeed_iff.2 hagrees.reference)

/-- **An exact oracle decides the formula.** -/
theorem solveWithOracle_decided {σ : Type} [ColoringOracle σ Node] {state : σ} (hf : f.Valid)
    (hr : r.Distinct)
    (hexact : Exact (graph f) r.referenceSeed r.palette
      (ColoringOracle.color state (graph f) r.referenceSeed r.palette).1) :
    Decided f r (solveWithOracle f state r).1 := by
  rw [solveWithOracle, build_eq_ok hf]
  generalize hanswer : (ColoringOracle.color state (graph f) r.referenceSeed r.palette).1 = answer
    at hexact
  simp only [hanswer]
  cases hexact with
  | found hp hc => exact .colored (roleColored_of_realizes hf hr hp hc)
  | refuted hnone => exact .refuted fun hsat => hnone (exists_placement_of_satisfiable hf hr hsat)

theorem solveWithOracle_right {σ : Type} [ColoringOracle σ Node] {state : σ} (hf : f.Valid)
    (hr : r.Distinct)
    (hexact : Exact (graph f) r.referenceSeed r.palette
      (ColoringOracle.color state (graph f) r.referenceSeed r.palette).1) :
    ∃ s, (solveWithOracle f state r).1 = .ok s ∧ Right f s :=
  (solveWithOracle_decided hf hr hexact).right hf hr

/-- **What follows on the solver's answer**: a model seeds the greedy
coloring, and without a model nothing is colored, whatever the roles. -/
theorem solveModelSeeded_cases {S : Type} [Backend S] {start : S} (hS : Backend.Lawful start)
    (hf : f.Valid) (r : ColorRoles) :
    (∃ a : Assignment, a.size = f.numVars.toNat ∧ f.isSatisfiedBy a ∧
      solveModelSeeded start f r = (dsatur (graph f) (r.modelSeed a) r.palette).bind
        fun c => finish f (graph f) Strategy.modelSeeded.name r (some c)) ∨
      ¬ f.Satisfiable ∧ solveModelSeeded start f r =
        .ok (refuted Strategy.modelSeeded.name (graph f) .noModel) := by
  rw [solveModelSeeded, build_eq_ok hf]
  rcases hS.solveFormula_cases hf with ⟨a, hsolve, ha, hsat⟩ | ⟨hsolve, hnone⟩
  · refine .inl ⟨a, ha, hsat, ?_⟩
    simp only [hsolve, bind, Except.bind]
  · refine .inr ⟨hnone, ?_⟩
    simp only [hsolve, bind, Except.bind]
    rfl

/-- The greedy coloring of a seeded model is in the role colors. -/
theorem exists_dsatur_roleColored (hf : f.Valid) (hr : r.Distinct)
    (hvars : (f.numVars.toNat : Int) ≤ Int32.maxValue.toInt) (ha : a.size = f.numVars.toNat)
    (hsat : f.isSatisfiedBy a) :
    ∃ c, dsatur (graph f) (r.modelSeed a) r.palette = .ok c ∧ RoleColored f r c := by
  obtain ⟨c, hc, hproper, hget⟩ := dsatur_modelSeed hf hr ha (ha ▸ hvars)
  refine ⟨c, hc, hproper, fun b color hb => ?_,
    fun role => (hget _ _).2 ⟨reference_mem_nodes hf role, rfl⟩⟩
  obtain ⟨hmem, rfl⟩ := (hget b color).1 hb
  rw [nodeColor, ColorRoles.wear_mem_palette_iff]
  exact (hue_ne_none_iff hf).2 hsat b hmem

/-- **Every model that a solver finds is confirmed.** -/
theorem solveModelSeeded_decided {S : Type} [Backend S] {start : S} (hS : Backend.Lawful start)
    (hf : f.Valid) (hr : r.Distinct) (hvars : (f.numVars.toNat : Int) ≤ Int32.maxValue.toInt) :
    Decided f r (solveModelSeeded start f r) := by
  rcases solveModelSeeded_cases hS hf r with ⟨a, ha, hsat, hsolve⟩ | ⟨hunsat, hsolve⟩
  · obtain ⟨c, hc, hcolored⟩ := exists_dsatur_roleColored hf hr hvars ha hsat
    rw [hsolve, hc]
    exact .colored hcolored
  · rw [hsolve]
    exact .refuted hunsat

theorem solveModelSeeded_right {S : Type} [Backend S] {start : S} (hS : Backend.Lawful start)
    (hf : f.Valid) (hr : r.Distinct) (hvars : (f.numVars.toNat : Int) ≤ Int32.maxValue.toInt) :
    ∃ s, solveModelSeeded start f r = .ok s ∧ Right f s :=
  (solveModelSeeded_decided hS hf hr hvars).right hf hr

/-- **The exact strategies decide satisfiability.** From a fresh solver
that is sound and complete, each of the three finds that a valid formula
is satisfiable exactly if some assignment satisfies it, and shows one
that does. The bounds keep literals and the variables of the encoding
within 32 bits. -/
theorem solveFrom_satisfiable_iff {S : Type} [Backend S] {start : S} (hS : Backend.Lawful start)
    (hf : f.validate = .ok ()) (hvars : (f.numVars.toNat : Int) ≤ Int32.maxValue.toInt)
    (hsize : 3 * (graph f).nodeCount < UInt32.size) (hr : r.Distinct) {strategy : Strategy}
    (hstrategy : strategy ≠ .dsatur) :
    ∃ s, solveFrom start f strategy r = .ok s ∧
      ((∃ a, s.verdict = .satisfiable a) ↔
        ∃ a : Assignment, a.size = f.numVars.toNat ∧ f.isSatisfiedBy a) ∧
      ∀ a, s.verdict = .satisfiable a → a.size = f.numVars.toNat ∧ f.isSatisfiedBy a := by
  have hvalid := Formula.validate_eq_ok_iff.1 hf
  have hseed := validSeed_referenceSeed hvalid hr
  have hpalette : ∀ b color, r.referenceSeed.get? b = some color → color ∈ r.palette := by
    intro b color hb
    obtain ⟨role, -, rfl⟩ := get?_referenceSeed_eq_some_iff.1 hb
    exact r.color_mem_palette role
  have hright : ∃ s, solveFrom start f strategy r = .ok s ∧ Right f s := by
    cases strategy with
    | dsatur => exact absurd rfl hstrategy
    | modelSeeded => exact solveModelSeeded_right hS hvalid hr hvars
    | satColoring =>
      have hbound : (graph f).nodeCount * r.palette.length < Lit.varBound := by
        rw [Nat.mul_comm]
        exact hsize
      exact solveWithOracle_right hvalid hr (SatOracle.exact_colorWith hS hseed hpalette hbound)
    | backtrack =>
      have hlength : r.palette.length ≤ Backtrack.maxPalette := by
        show 3 ≤ 64
        omega
      exact solveWithOracle_right hvalid hr (Backtrack.exact_color hseed hpalette hlength)
  obtain ⟨s, hs, hright⟩ := hright
  exact ⟨s, hs, hright.satisfiable_iff, hright.satisfies⟩

/-- With the solver of the library, `1 ∨ 1 ∨ 1` with `-1 ∨ 2 ∨ -1` is
found satisfiable, and `1 ∨ 1 ∨ 1` with `-1 ∨ -1 ∨ -1` is not. -/
theorem solveFrom_satisfiable_iff_repeated :
    (∃ s, solve ⟨2, [⟨1, 1, 1⟩, ⟨-1, 2, -1⟩]⟩ .modelSeeded .standard = .ok s ∧
      ∃ a, s.verdict = .satisfiable a) ∧
    ∃ s, solve ⟨1, [⟨1, 1, 1⟩, ⟨-1, -1, -1⟩]⟩ .satColoring .standard = .ok s ∧
      ¬ ∃ a, s.verdict = .satisfiable a := by
  have hr : ColorRoles.standard.Distinct := ⟨by decide, by decide, by decide⟩
  constructor
  · obtain ⟨s, hs, hiff, -⟩ := solveFrom_satisfiable_iff Solver.lawful_empty
      (f := ⟨2, [⟨1, 1, 1⟩, ⟨-1, 2, -1⟩]⟩) (by decide) (by decide) (by decide +kernel) hr
      (show Strategy.modelSeeded ≠ .dsatur by decide)
    exact ⟨s, hs, hiff.2 ⟨⟨[true, true]⟩, by decide, by decide⟩⟩
  · obtain ⟨s, hs, hiff, -⟩ := solveFrom_satisfiable_iff Solver.lawful_empty
      (f := ⟨1, [⟨1, 1, 1⟩, ⟨-1, -1, -1⟩]⟩) (by decide) (by decide) (by decide +kernel) hr
      (show Strategy.satColoring ≠ .dsatur by decide)
    refine ⟨s, hs, fun h => ?_⟩
    obtain ⟨⟨values⟩, ha, hsat⟩ := hiff.1 h
    obtain ⟨value, rfl⟩ := List.length_eq_one_iff.1 ha
    cases value <;> exact absurd hsat (by decide)

end Reduction

end Tricolor
