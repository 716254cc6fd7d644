import Tricolor.Proofs.Gadget.Extract

/-!
# What a 3-coloring says

In a proper coloring with three colors the reference triangle fixes which
color stands for what (`ColorRoles.ofColoring_eq_ok`). A variable and its negation
then wear truth and falsity, one each, and the output of every clause
wears truth, since it stands next to both other colors
(`Agrees.get?_or123`). So every such coloring, however it was found and
whatever its colors are, is read as an assignment that satisfies the
formula (`extract_of_three_colors`).
-/

namespace Tricolor

namespace Gadget

open ColorRoles (Distinct)

variable {f : Formula} {a : Assignment} {r : ColorRoles} {c : Coloring Node} {cl : Clause}
variable {k var : Nat}

/-- The roles are read off the reference triangle. -/
theorem ColorRoles.ofColoring_eq_ok
    (href : ∀ role, c.get? (.reference role) = some (r.color role)) :
    ColorRoles.ofColoring c = .ok r := by
  have htruth : c.get? .truth = some r.truth := href .truth
  have hfalsity : c.get? .falsity = some r.falsity := href .falsity
  have hneutral : c.get? .neutral = some r.neutral := href .neutral
  simp only [ColorRoles.ofColoring, htruth, hfalsity, hneutral]
  rfl

/-- **A variable and its negation wear truth and falsity**, in one order
or the other. -/
theorem Agrees.literal_pair (h : Agrees r a c) (hpos : 0 < var) (hle : var ≤ a.size) :
    (c.get? (.literal var true) = some r.truth ∧
        c.get? (.literal var false) = some r.falsity) ∨
      c.get? (.literal var true) = some r.falsity ∧
        c.get? (.literal var false) = some r.truth := by
  obtain ⟨value, hvalue⟩ := Assignment.get?_eq_some_of_le hpos hle
  have hpair := h.literal var value hvalue
  cases value with
  | true => exact .inl hpair
  | false => exact .inr hpair

/-- **The output of a clause wears truth**: its neighbors wear the other
two colors. -/
theorem Agrees.get?_or123 (h : Agrees r a c) (hf : f.Valid) (hc : Proper (graph f) c)
    (hk : f.clauses[k]? = some cl) : c.get? (.auxiliary k .or123) = some r.truth := by
  obtain ⟨role, hrole⟩ := exists_role hc h.palette (auxiliary_mem_nodes hf hk .or123)
  have hedge : ∀ e ∈ clauseEdges k cl, e ∈ edges f :=
    fun e he => mem_edges_iff.2 (.inr (.inr ⟨k, cl, hk, he⟩))
  have hfalsityEdge : (.auxiliary k .or123, .falsity) ∈ edges f :=
    hedge _ (by simp [clauseEdges])
  have hneutralEdge : (.auxiliary k .or123, .neutral) ∈ edges f :=
    hedge _ (by simp [clauseEdges])
  have hfalsity : role ≠ .falsity :=
    role_ne_of_mem_edges hc hfalsityEdge hrole (h.reference .falsity)
  have hneutral : role ≠ .neutral :=
    role_ne_of_mem_edges hc hneutralEdge hrole (h.reference .neutral)
  cases role with
  | truth => exact hrole
  | falsity => exact absurd rfl hfalsity
  | neutral => exact absurd rfl hneutral

/-- **Every proper 3-coloring is read as a model.** -/
theorem extract_of_three_colors (hf : f.validate = .ok ()) :
    ∃ g, build f = .ok g ∧
      ∀ c : Coloring Node, c.nodes.Perm g.nodes → isProper g c → c.colorsUsed.length ≤ 3 →
        ∃ r, ColorRoles.ofColoring c = .ok r ∧ r.Distinct ∧
          (∀ var, 0 < var → var ≤ f.numVars.toNat →
            (c.get? (.literal var true) = some r.truth ∧
                c.get? (.literal var false) = some r.falsity) ∨
              c.get? (.literal var true) = some r.falsity ∧
                c.get? (.literal var false) = some r.truth) ∧
          (∀ k cl, f.clauses[k]? = some cl →
            c.get? (.auxiliary k .or123) = some r.truth) ∧
          ∃ a, r.extract c f.numVars.toNat = .ok a ∧ a.size = f.numVars.toNat ∧
            f.isSatisfiedBy a := by
  have hvalid := Formula.validate_eq_ok_iff.1 hf
  refine ⟨graph f, build_eq_ok hvalid, fun c _ hisProper hcount => ?_⟩
  have hc := isProper_iff.1 hisProper
  obtain ⟨r, hr, href⟩ := exists_roles hvalid hc
  have hpalette : ∀ b color, c.get? b = some color → color ∈ r.palette :=
    fun _ _ => mem_palette_of_colorsUsed hr href hcount
  have hagrees := agrees_read hvalid hr hc hpalette href
  have hread := size_read r c f.numVars.toNat
  refine ⟨r, ColorRoles.ofColoring_eq_ok href, hr,
    fun var hpos hle => hagrees.literal_pair hpos (hle.trans_eq hread.symm),
    fun k cl hk => hagrees.get?_or123 hvalid hc hk, read r c f.numVars.toNat,
    extract_eq_read hvalid hc hpalette, hread, isSatisfiedBy_of_agrees hvalid hread hc hagrees⟩

/-- The clause `1 ∨ 1 ∨ -1`, colored with the numbers 5, 7 and 9. -/
theorem extract_of_three_colors_renamed :
    let c : Coloring Node := .ofList [(.truth, ⟨7⟩), (.falsity, ⟨5⟩), (.neutral, ⟨9⟩),
      (.literal 1 true, ⟨5⟩), (.literal 1 false, ⟨7⟩), (.auxiliary 0 .in1, ⟨7⟩),
      (.auxiliary 0 .in2, ⟨9⟩), (.auxiliary 0 .or12, ⟨5⟩), (.auxiliary 0 .in12, ⟨9⟩),
      (.auxiliary 0 .in3, ⟨5⟩), (.auxiliary 0 .or123, ⟨7⟩)]
    ∃ r a, ColorRoles.ofColoring c = .ok r ∧ r.extract c 1 = .ok a ∧
      Formula.isSatisfiedBy ⟨1, [⟨1, 1, -1⟩]⟩ a := by
  intro c
  obtain ⟨g, hg, hread⟩ := extract_of_three_colors (f := ⟨1, [⟨1, 1, -1⟩]⟩) (by decide)
  obtain rfl : graph ⟨1, [⟨1, 1, -1⟩]⟩ = g := Except.ok.inj hg
  obtain ⟨r, hr, -, -, -, a, ha, -, hsat⟩ :=
    hread c (by decide +kernel) (by decide +kernel)
      (by rw [Coloring.length_colorsUsed]; decide +kernel)
  exact ⟨r, a, hr, ha, hsat⟩

end Gadget

end Tricolor
