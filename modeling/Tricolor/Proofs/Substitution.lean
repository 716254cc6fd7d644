import Tricolor.Proofs.Reduction

/-!
# Any oracle may be substituted

Of an oracle the reduction asks no more than a proper coloring that keeps
the reference triangle. Such a coloring may be any, in any number of
colors: the reduction never fails on it, and the verdict is the one that
the coloring bears out (`BorneOut`). Without a fourth color it is read as
a satisfying assignment, so the checks of `Reduction.judge` refuse
nothing. With a fourth color it is a refutation that names the entry.
That refutation holds of the coloring, not always of the formula.
-/

namespace Tricolor

namespace Reduction

open Gadget

variable {f : Formula} {r : ColorRoles} {c : Coloring Node} {oracle : String}
variable {verdict : Verdict} {e : Node × Color}

/-- The verdicts that a coloring bears out. -/
inductive BorneOut (f : Formula) (r : ColorRoles) (c : Coloring Node) : Verdict → Prop
  | satisfiable {a : Assignment} : (∀ e ∈ c.entries, e.2 ∈ r.palette) →
      a.size = f.numVars.toNat → f.isSatisfiedBy a → BorneOut f r c (.satisfiable a)
  | overflow {e : Node × Color} : e ∈ c.entries → e.2 ∉ r.palette →
      BorneOut f r c (.unsatisfiable (.fourthColor e.1.label e.2))

/-- **A coloring that overflows is a refutation.** -/
theorem judge_eq_unsatisfiable (h : r.firstOverflow c = some e) :
    judge f oracle r c = .ok (.unsatisfiable (.fourthColor e.1.label e.2)) := by
  simp only [judge, ColorRoles.extract, h]

/-- **Every proper coloring that keeps the references is judged**, and
bears its verdict out. -/
theorem exists_judge_borneOut (hf : f.Valid) (hr : r.Distinct) (hc : Proper (graph f) c)
    (href : ∀ role, c.get? (.reference role) = some (r.color role)) (oracle : String) :
    ∃ verdict, judge f oracle r c = .ok verdict ∧ BorneOut f r c verdict := by
  cases hover : r.firstOverflow c with
  | none =>
    have hpalette := ColorRoles.firstOverflow_eq_none_iff.1 hover
    obtain ⟨hjudge, hsat⟩ := judge_eq_satisfiable hf hr hc hpalette href oracle
    exact ⟨_, hjudge, .satisfiable (fun e he => hpalette e.1 e.2 (Coloring.get?_eq_some_iff.2 he))
      (size_read r c f.numVars.toNat) hsat⟩
  | some e =>
    obtain ⟨hmem, hout⟩ := ColorRoles.of_firstOverflow_eq_some hover
    exact ⟨_, judge_eq_unsatisfiable hover, .overflow hmem hout⟩

theorem BorneOut.satisfiable_iff (h : BorneOut f r c verdict) :
    (∃ a, verdict = .satisfiable a ∧ a.size = f.numVars.toNat ∧ f.isSatisfiedBy a) ↔
      ∀ e ∈ c.entries, e.2 ∈ r.palette := by
  cases h with
  | satisfiable hpalette ha hsat => exact iff_of_true ⟨_, rfl, ha, hsat⟩ hpalette
  | overflow hmem hout => exact ⟨nofun, fun hpalette => absurd (hpalette _ hmem) hout⟩

theorem BorneOut.unsatisfiable_iff (h : BorneOut f r c verdict) :
    (∃ reason, verdict = .unsatisfiable reason) ↔ ∃ e ∈ c.entries, e.2 ∉ r.palette := by
  cases h with
  | satisfiable hpalette =>
    exact ⟨nofun, fun ⟨e, hmem, hout⟩ => absurd (hpalette e hmem) hout⟩
  | overflow hmem hout => exact iff_of_true ⟨_, rfl⟩ ⟨_, hmem, hout⟩

theorem BorneOut.reason_eq {reason : Refutation} (h : BorneOut f r c (.unsatisfiable reason)) :
    ∃ e ∈ c.entries, e.2 ∉ r.palette ∧ reason = .fourthColor e.1.label e.2 := by
  cases h with
  | overflow hmem hout => exact ⟨_, hmem, hout, rfl⟩

/-- **No proper answer of an oracle trips the reduction.** If the oracle
answers with a proper coloring that keeps the reference triangle, in
whatever colors, the reduction returns a verdict. It is satisfiable, with
an assignment that satisfies the formula, exactly if only the role colors
are worn, and unsatisfiable exactly if some entry has another color; the
reason then names such an entry. -/
theorem solveWithOracle_verdict_iff {σ : Type} [ColoringOracle σ Node] (state : σ)
    (hf : f.validate = .ok ()) (hr : r.Distinct) :
    ∃ g, build f = .ok g ∧ ∀ c : Coloring Node,
      (ColoringOracle.color state g r.referenceSeed r.palette).1 = .ok (some c) →
      isProper g c →
      (∀ b color, r.referenceSeed.get? b = some color → c.get? b = some color) →
      ∃ s, (solveWithOracle f state r).1 = .ok s ∧ s.coloring = some c ∧
        ((∃ a, s.verdict = .satisfiable a ∧ a.size = f.numVars.toNat ∧ f.isSatisfiedBy a) ↔
          ∀ e ∈ c.entries, e.2 ∈ r.palette) ∧
        ((∃ reason, s.verdict = .unsatisfiable reason) ↔ ∃ e ∈ c.entries, e.2 ∉ r.palette) ∧
        ∀ reason, s.verdict = .unsatisfiable reason →
          ∃ e ∈ c.entries, e.2 ∉ r.palette ∧ reason = .fourthColor e.1.label e.2 := by
  have hvalid := Formula.validate_eq_ok_iff.1 hf
  refine ⟨graph f, build_eq_ok hvalid, fun c hanswer hisProper hkeeps => ?_⟩
  have hc := isProper_iff.1 hisProper
  have href : ∀ role, c.get? (.reference role) = some (r.color role) := fun role =>
    hkeeps _ _ (get?_referenceSeed_eq_some_iff.2 ⟨role, rfl, rfl⟩)
  obtain ⟨verdict, hjudge, hborne⟩ :=
    exists_judge_borneOut hvalid hr hc href (ColoringOracle.name σ Node)
  have hsolve : (solveWithOracle f state r).1 =
      .ok ⟨ColoringOracle.name σ Node, graph f, some c, c.colorsUsed.length, verdict⟩ := by
    rw [solveWithOracle, build_eq_ok hvalid]
    simp only [hanswer]
    exact finish_eq_ok hc hjudge
  refine ⟨_, hsolve, rfl, hborne.satisfiable_iff, hborne.unsatisfiable_iff, ?_⟩
  rintro reason rfl
  exact hborne.reason_eq

/-- An oracle that gives one coloring to every call. -/
structure Scripted where
  coloring : Coloring Node

instance : ColoringOracle Scripted Node where
  name := "scripted"
  color oracle _ _ _ := (.ok (some oracle.coloring), oracle)

/-- The clause `1 ∨ 1 ∨ -1` is found satisfiable by a coloring in the
three role colors, and refuted by one that wears grey at one node. -/
theorem solveWithOracle_verdict_iff_scripted :
    let c : Coloring Node := .ofList [(.truth, .green), (.falsity, .red), (.neutral, .blue),
      (.literal 1 true, .red), (.literal 1 false, .green), (.auxiliary 0 .in1, .green),
      (.auxiliary 0 .in2, .blue), (.auxiliary 0 .or12, .red), (.auxiliary 0 .in12, .blue),
      (.auxiliary 0 .in3, .red), (.auxiliary 0 .or123, .green)]
    (∃ s a, (solveWithOracle ⟨1, [⟨1, 1, -1⟩]⟩ (Scripted.mk c) .standard).1 = .ok s ∧
        s.verdict = .satisfiable a) ∧
      ∃ s reason, (solveWithOracle ⟨1, [⟨1, 1, -1⟩]⟩
          (Scripted.mk (c.insert (.auxiliary 0 .in3) .grey)) .standard).1 = .ok s ∧
        s.verdict = .unsatisfiable reason := by
  intro c
  have hr : ColorRoles.standard.Distinct := ⟨by decide, by decide, by decide⟩
  have hkeeps : ∀ b color, ColorRoles.standard.referenceSeed.get? b = some color →
      c.get? b = some color ∧ (c.insert (.auxiliary 0 .in3) .grey).get? b = some color := by
    intro b color hb
    obtain ⟨role, rfl, rfl⟩ := get?_referenceSeed_eq_some_iff.1 hb
    cases role <;> decide
  constructor
  · obtain ⟨g, hg, hsolve⟩ := solveWithOracle_verdict_iff (f := ⟨1, [⟨1, 1, -1⟩]⟩)
      (Scripted.mk c) (by decide) hr
    obtain rfl : graph ⟨1, [⟨1, 1, -1⟩]⟩ = g := Except.ok.inj hg
    obtain ⟨s, hs, -, hsat, -⟩ :=
      hsolve c rfl (by decide +kernel) fun b color hb => (hkeeps b color hb).1
    obtain ⟨a, ha, -⟩ := hsat.2 (by decide)
    exact ⟨s, a, hs, ha⟩
  · obtain ⟨g, hg, hsolve⟩ := solveWithOracle_verdict_iff (f := ⟨1, [⟨1, 1, -1⟩]⟩)
      (Scripted.mk (c.insert (.auxiliary 0 .in3) .grey)) (by decide) hr
    obtain rfl : graph ⟨1, [⟨1, 1, -1⟩]⟩ = g := Except.ok.inj hg
    obtain ⟨s, hs, -, -, hunsat, -⟩ :=
      hsolve _ rfl (by decide +kernel) fun b color hb => (hkeeps b color hb).2
    obtain ⟨reason, hreason⟩ := hunsat.2 (by decide)
    exact ⟨s, reason, hs, hreason⟩

end Reduction

end Tricolor
