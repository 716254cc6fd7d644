import Tricolor.Proofs.Coloring.Completion
import Tricolor.Proofs.Substitution

/-!
# What a reduction returns

With three different role colors every strategy comes to an end on a
valid formula, in one of three ways (`Settled`): a coloring in the role
colors is read as an assignment, the greedy coloring runs into a fourth
color, or an exact strategy answers that there is no model
(`exists_settled`). So the parts of an outcome belong together
(`solveFrom_consistent`): the verdict tells whether there is a coloring,
how many colors it wears and what is read off it.
-/

namespace Tricolor

namespace Reduction

open Gadget

variable {S : Type} [Backend S] {start : S} {f : Formula} {r : ColorRoles} {strategy : Strategy}
variable {c : Coloring Node} {a : Assignment} {s : Solution} {oracle : String} {e : Error}

/-- The size of a formula bounds the variables of its coloring problem in
three colors, and its own. -/
theorem bounds_of_size (hf : f.Valid)
    (hsize : 3 * (3 + 2 * f.numVars.toNat + 6 * f.clauses.length) < UInt32.size) :
    (f.numVars.toNat : Int) ≤ Int32.maxValue.toInt ∧
      (graph f).nodeCount * r.palette.length < Lit.varBound := by
  have hwords : UInt32.size = 4294967296 := rfl
  have hlength : r.palette.length = 3 := rfl
  rw [nodeCount_graph hf, hlength, Int32.toInt_maxValue]
  refine ⟨by omega, ?_⟩
  rw [Nat.mul_comm]
  exact hsize

/-! ## What each strategy ends with -/

/-- **Each exact strategy decides a valid formula.** -/
theorem solveFrom_decided (hS : Backend.Lawful start) (hf : f.Valid)
    (hsize : 3 * (3 + 2 * f.numVars.toNat + 6 * f.clauses.length) < UInt32.size) (hr : r.Distinct)
    (hstrategy : strategy ≠ .dsatur) : Decided f r (solveFrom start f strategy r) := by
  obtain ⟨hvars, hbound⟩ := bounds_of_size (r := r) hf hsize
  have hseed := validSeed_referenceSeed hf hr
  have hpalette : ∀ b color, r.referenceSeed.get? b = some color → color ∈ r.palette := by
    intro b color hb
    obtain ⟨role, -, rfl⟩ := get?_referenceSeed_eq_some_iff.1 hb
    exact r.color_mem_palette role
  cases strategy with
  | dsatur => exact absurd rfl hstrategy
  | modelSeeded => exact solveModelSeeded_decided hS hf hr hvars
  | satColoring =>
    exact solveWithOracle_decided hf hr (SatOracle.exact_colorWith hS hseed hpalette hbound)
  | backtrack =>
    have hlength : r.palette.length ≤ Backtrack.maxPalette := by
      show 3 ≤ 64
      omega
    exact solveWithOracle_decided hf hr (Backtrack.exact_color hseed hpalette hlength)

/-- **The greedy strategy returns the verdict that its coloring bears
out.** -/
theorem exists_solveFrom_dsatur (start : S) (hf : f.Valid) (hr : r.Distinct) :
    ∃ oracle c verdict, solveFrom start f .dsatur r =
        .ok ⟨oracle, graph f, some c, c.colorsUsed.length, verdict⟩ ∧
      Proper (graph f) c ∧ (∀ role, c.get? (.reference role) = some (r.color role)) ∧
      judge f oracle r c = .ok verdict ∧ BorneOut f r c verdict := by
  have hseed := validSeed_referenceSeed hf hr
  have hends := dsaturEnds_graph hf (seedsReferences_referenceSeed r) hseed r.palette
  obtain ⟨c, stats, hc, hcompletes⟩ := exists_completes hseed hends
  have hproper := isProper_iff.1 hcompletes.proper
  have href := keeps_referenceSeed_iff.1 hcompletes.keeps
  obtain ⟨verdict, hjudge, hborne⟩ :=
    exists_judge_borneOut hf hr hproper href (ColoringOracle.name Dsatur Node)
  refine ⟨_, c, verdict, ?_, hproper, href, hjudge, hborne⟩
  have hanswer : (ColoringOracle.color (default : Dsatur) (graph f) r.referenceSeed
      r.palette).1 = .ok (some c) := by
    simp only [ColoringOracle.color, hc]
  rw [solveFrom, solveWithOracle, build_eq_ok hf]
  simp only [hanswer]
  exact finish_eq_ok hproper hjudge

/-! ## Three ways to end -/

/-- An assignment is what was read off the coloring. -/
theorem extract_of_judge (h : judge f oracle r c = .ok (.satisfiable a)) :
    r.extract c f.numVars.toNat = .ok a := by
  rw [judge] at h
  split at h
  · split at h
    · cases h
      assumption
    · cases h
  · cases h
  · cases h

/-- What a reduction of a valid formula may return. -/
inductive Settled (f : Formula) (r : ColorRoles) (strategy : Strategy) : Solution → Prop
  /-- A coloring in the role colors is read as an assignment. -/
  | satisfiable {oracle : String} {c : Coloring Node} {a : Assignment} :
      RoleColored f r c → r.extract c f.numVars.toNat = .ok a →
      Settled f r strategy ⟨oracle, graph f, some c, c.colorsUsed.length, .satisfiable a⟩
  /-- The greedy coloring wears a fourth color. -/
  | overflow {oracle : String} {c : Coloring Node} {reason : Refutation} :
      strategy = .dsatur → Proper (graph f) c →
      (∀ role, c.get? (.reference role) = some (r.color role)) →
      (∃ b color, c.get? b = some color ∧ color ∉ r.palette) →
      Settled f r strategy ⟨oracle, graph f, some c, c.colorsUsed.length, .unsatisfiable reason⟩
  /-- An exact strategy finds that there is no model. -/
  | refuted {oracle : String} {reason : Refutation} :
      strategy ≠ .dsatur → ¬ f.Satisfiable →
      Settled f r strategy (refuted oracle (graph f) reason)

/-- **Every strategy comes to one of the three ends.** -/
theorem exists_settled (hS : Backend.Lawful start) (hf : f.Valid)
    (hsize : 3 * (3 + 2 * f.numVars.toNat + 6 * f.clauses.length) < UInt32.size) (hr : r.Distinct)
    (strategy : Strategy) :
    ∃ s, solveFrom start f strategy r = .ok s ∧ Settled f r strategy s := by
  by_cases hstrategy : strategy = .dsatur
  · subst hstrategy
    obtain ⟨oracle, c, verdict, hsolve, hproper, href, hjudge, hborne⟩ :=
      exists_solveFrom_dsatur start hf hr
    refine ⟨_, hsolve, ?_⟩
    cases hborne with
    | satisfiable =>
      have hextract := extract_of_judge hjudge
      exact .satisfiable ⟨hproper, ColorRoles.mem_palette_of_extract hextract, href⟩ hextract
    | @overflow e hmem hout =>
      exact .overflow rfl hproper href ⟨e.1, e.2, Coloring.get?_eq_some_iff.2 hmem, hout⟩
  · have hdecided := solveFrom_decided hS hf hsize hr hstrategy
    generalize solveFrom start f strategy r = outcome at hdecided
    cases hdecided with
    | colored hc =>
      obtain ⟨hjudge, -⟩ := judge_eq_satisfiable hf hr hc.proper hc.palette hc.reference _
      exact ⟨_, finish_eq_ok hc.proper hjudge, .satisfiable hc (extract_of_judge hjudge)⟩
    | refuted hunsat => exact ⟨_, rfl, .refuted hstrategy hunsat⟩

/-- A formula that is not valid is refused before anything is colored. -/
theorem solveFrom_eq_error (start : S) (strategy : Strategy) (r : ColorRoles)
    (h : f.validate = .error e) : solveFrom start f strategy r = .error e := by
  have hbuild : build f = .error e := by
    rw [build, h]
    rfl
  cases strategy with
  | modelSeeded =>
    rw [solveFrom, solveModelSeeded, hbuild]
    rfl
  | _ => rw [solveFrom, solveWithOracle, hbuild]

/-- **The parts of an outcome belong together.** Whatever a strategy
returns, the graph is that of the formula. An assignment comes with a
proper coloring in exactly the three role colors that keeps the
reference triangle and off which it is read. A refutation by the greedy
strategy comes with a proper coloring in four colors or more, and one by
an exact strategy without any. -/
theorem solveFrom_consistent (hS : Backend.Lawful start)
    (hsize : 3 * (3 + 2 * f.numVars.toNat + 6 * f.clauses.length) < UInt32.size) (hr : r.Distinct)
    (hs : solveFrom start f strategy r = .ok s) :
    build f = .ok s.graph ∧
      (∀ a, s.verdict = .satisfiable a → ∃ c, s.coloring = some c ∧ isProper s.graph c ∧
        (∀ b color, r.referenceSeed.get? b = some color → c.get? b = some color) ∧
        (∀ color, color ∈ c.colorsUsed ↔ color ∈ r.palette) ∧ s.colorsUsed = 3 ∧
        r.extract c f.numVars.toNat = .ok a) ∧
      ∀ reason, s.verdict = .unsatisfiable reason →
        (strategy = .dsatur → ∃ c, s.coloring = some c ∧ isProper s.graph c ∧
          (∀ b color, r.referenceSeed.get? b = some color → c.get? b = some color) ∧
          s.colorsUsed = c.colorsUsed.length ∧ 4 ≤ s.colorsUsed) ∧
        (strategy ≠ .dsatur → s.coloring = none ∧ s.colorsUsed = 0) := by
  have hvalidate : f.validate = .ok () := by
    cases h : f.validate with
    | ok => rfl
    | error e =>
      rw [solveFrom_eq_error start strategy r h] at hs
      cases hs
  have hf := Formula.validate_eq_ok_iff.1 hvalidate
  obtain ⟨s', hs', hsettled⟩ := exists_settled hS hf hsize hr strategy
  obtain rfl : s' = s := Except.ok.inj (hs'.symm.trans hs)
  cases hsettled with
  | @satisfiable oracle c a hc hextract =>
    refine ⟨build_eq_ok hf, ?_, nofun⟩
    rintro _ ⟨⟩
    exact ⟨c, rfl, isProper_iff.2 hc.proper, keeps_referenceSeed_iff.2 hc.reference,
      fun _ => hc.mem_colorsUsed_iff, (length_colorsUsed_eq_iff hr hc.reference).2 hc.palette,
      hextract⟩
  | @overflow oracle c reason hstrategy hproper href hover =>
    refine ⟨build_eq_ok hf, nofun, fun _ _ => ⟨fun _ => ?_, fun hne => absurd hstrategy hne⟩⟩
    have hge := three_le_length_colorsUsed hr href
    have hne : c.colorsUsed.length ≠ 3 := fun h => by
      obtain ⟨b, color, hb, hout⟩ := hover
      exact hout ((length_colorsUsed_eq_iff hr href).1 h b color hb)
    have hfour : 4 ≤ c.colorsUsed.length := by omega
    exact ⟨c, rfl, isProper_iff.2 hproper, keeps_referenceSeed_iff.2 href, rfl, hfour⟩
  | refuted hne =>
    exact ⟨build_eq_ok hf, nofun, fun _ _ => ⟨fun heq => absurd heq hne, fun _ => ⟨rfl, rfl⟩⟩⟩

/-- With the solver of the library, `1 ∨ 1 ∨ 1` with `-1 ∨ 2 ∨ -1` is
found satisfiable by a coloring in three colors, and the refutation of
`1 ∨ 1 ∨ 1` with `-1 ∨ -1 ∨ -1` comes without one. -/
theorem solveFrom_consistent_repeated :
    (∃ s c, solve ⟨2, [⟨1, 1, 1⟩, ⟨-1, 2, -1⟩]⟩ .modelSeeded .standard = .ok s ∧
      s.coloring = some c ∧ isProper s.graph c ∧ s.colorsUsed = 3) ∧
    ∃ s, solve ⟨1, [⟨1, 1, 1⟩, ⟨-1, -1, -1⟩]⟩ .backtrack .standard = .ok s ∧
      s.coloring = none := by
  have hr := ColorRoles.distinct_standard
  constructor
  · have hf : Formula.Valid ⟨2, [⟨1, 1, 1⟩, ⟨-1, 2, -1⟩]⟩ :=
      Formula.validate_eq_ok_iff.1 (by decide)
    obtain ⟨s, hs, hright⟩ := (solveFrom_decided Solver.lawful_empty hf (by decide) hr
      (show Strategy.modelSeeded ≠ .dsatur by decide)).right hf hr
    obtain ⟨a, ha⟩ := hright.satisfiable_iff.2 ⟨⟨[true, true]⟩, by decide, by decide⟩
    obtain ⟨-, hsat, -⟩ := solveFrom_consistent Solver.lawful_empty (by decide) hr hs
    obtain ⟨c, hc, hproper, -, -, hcount, -⟩ := hsat a ha
    exact ⟨s, c, hs, hc, hproper, hcount⟩
  · have hf : Formula.Valid ⟨1, [⟨1, 1, 1⟩, ⟨-1, -1, -1⟩]⟩ :=
      Formula.validate_eq_ok_iff.1 (by decide)
    obtain ⟨s, hs, hright⟩ := (solveFrom_decided Solver.lawful_empty hf (by decide) hr
      (show Strategy.backtrack ≠ .dsatur by decide)).right hf hr
    obtain ⟨-, -, hunsat⟩ := solveFrom_consistent Solver.lawful_empty (by decide) hr hs
    refine ⟨s, hs, ?_⟩
    cases hverdict : s.verdict with
    | unsatisfiable reason => exact ((hunsat reason hverdict).2 (by decide)).1
    | satisfiable a =>
      exact absurd (hright.satisfiable_iff.1 ⟨a, hverdict⟩) Formula.not_satisfiable_contradictory

end Reduction

end Tricolor
