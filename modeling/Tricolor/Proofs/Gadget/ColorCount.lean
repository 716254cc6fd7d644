import Tricolor.Proofs.Coloring.Models
import Tricolor.Proofs.Gadget.Colorability

/-!
# How many colors a gadget graph needs

The reference triangle takes three colors and no gadget takes more than
four, so two colors never suffice, four always do, and three do exactly
if the formula has a model. The formula in conjunctive normal form that
asks for a coloring in the first `k` colors has models accordingly
(`encode_build_model_iff`). No seed is needed for that: whichever colors
the references wear take the roles of truth, falsity and neutral.
-/

namespace Tricolor

namespace Gadget

variable {f : Formula} {a : Assignment} {palette : List Color} {p : Node → Nat} {k : Nat}

/-! ## From placements to models -/

/-- **Two colors are too few** for the reference triangle. -/
theorem three_le_of_placement (hf : f.Valid) (hp : Placement (graph f) .empty palette p) :
    3 ≤ palette.length := by
  have hlt := fun role => hp.lt _ (reference_mem_nodes hf role)
  have hne : ∀ {role role' : Reference}, role ≠ role' →
      p (.reference role) ≠ p (.reference role') := fun h => hp.distinct _ _ (hasEdge_reference h)
  have htruth := hlt .truth
  have hfalsity := hlt .falsity
  have hneutral := hlt .neutral
  have htf := hne (show Reference.truth ≠ .falsity by decide)
  have htn := hne (show Reference.truth ≠ .neutral by decide)
  have hfn := hne (show Reference.falsity ≠ .neutral by decide)
  omega

/-- **With three colors there is a model.** -/
theorem satisfiable_of_placement (hf : f.Valid) (hp : Placement (graph f) .empty palette p)
    (hlength : palette.length ≤ 3) : f.Satisfiable := by
  -- positions are read as colors, so that a color is worn at one position only
  let c := (graph f).paint fun b => ⟨.ofNat 32 (p b)⟩
  have hsize : palette.length < UInt32.size := hlength.trans_lt (by decide)
  have hindex : ∀ b ∈ (graph f).nodes, (⟨.ofNat 32 (p b)⟩ : Color).index = p b := fun b hb =>
    Color.index_ofNat ((hp.lt b hb).trans hsize)
  have hc : Proper (graph f) c := Graph.proper_paint_iff.2 fun b b' h heq => by
    obtain ⟨hb, hb'⟩ := Graph.mem_nodes_of_hasEdge h
    have heq := congrArg Color.index heq
    rw [hindex b hb, hindex b' hb'] at heq
    exact hp.distinct b b' h heq
  have hworn : ∀ b color, c.get? b = some color → color ∈ Color.below palette.length := by
    intro b color hb
    have hmem : b ∈ (graph f).nodes := Graph.nodes_paint (graph f) _ ▸ Coloring.mem_nodes_of_get? hb
    rw [Graph.get?_paint hmem] at hb
    cases hb
    rw [Color.mem_below hsize.le, hindex b hmem]
    exact hp.lt b hmem
  have hcount := Coloring.length_colorsUsed_le_of_get? hworn
  rw [Color.length_below] at hcount
  exact exists_isSatisfiedBy_of_colorsUsed hf hc (hcount.trans hlength)

/-! ## From assignments to placements -/

/-- An assignment whose colors are among the first `k` places the nodes
at these. -/
theorem exists_placement_of_nodeColor (hk : k ≤ UInt32.size) (ha : a.size = f.numVars.toNat)
    (hlt : ∀ b ∈ (graph f).nodes, (nodeColor f .standard a b).index < k) :
    ∃ p, Placement (graph f) .empty (Color.below k) p := by
  refine exists_placement (proper_painted ColorRoles.distinct_standard ha) (fun b color hb => ?_) nofun
  have hmem : b ∈ (graph f).nodes := Graph.nodes_paint (graph f) _ ▸ Coloring.mem_nodes_of_get? hb
  rw [painted, Graph.get?_paint hmem] at hb
  cases hb
  exact (Color.mem_below hk).2 (hlt b hmem)

/-- A node without a hue wears grey, the lowest color that has no role. -/
theorem wear_none_standard : ColorRoles.standard.wear none = .grey := by
  have hgrey : firstFit ColorRoles.standard.palette ColorRoles.standard.palette = some .grey := by
    refine (firstFit_eq_some_iff_lowest fun _ => id).2 ⟨by decide, fun d hd => ?_⟩
    by_contra hlt
    have hlt : d.index < 3 := Nat.not_le.1 hlt
    refine hd ?_
    rw [← Color.ofNat_index d]
    revert hlt
    generalize d.index = i
    revert i
    decide
  exact Option.some.inj (ColorRoles.standard.firstFit_palette.symm.trans hgrey)

/-- The hues wear the first four colors, a node without a hue the
fourth. -/
theorem index_wear_standard (hue : Option Reference) :
    (ColorRoles.standard.wear hue).index < 4 ∧
      (hue ≠ none → (ColorRoles.standard.wear hue).index < 3) := by
  cases hue with
  | none => exact ⟨by rw [wear_none_standard]; decide, fun h => absurd rfl h⟩
  | some role => cases role <;> decide

/-- **Which numbers of colors suffice.** -/
theorem exists_placement_iff (hk : k ≤ UInt32.size) (hf : f.Valid) :
    (∃ p, Placement (graph f) .empty (Color.below k) p) ↔ 4 ≤ k ∨ k = 3 ∧ f.Satisfiable := by
  have hlength : (Color.below k).length = k := Color.length_below k
  constructor
  · rintro ⟨p, hp⟩
    have hthree := three_le_of_placement hf hp
    rcases Nat.lt_or_ge 3 (Color.below k).length with hlt | hle
    · exact .inl (hlength ▸ hlt)
    · exact .inr ⟨by omega, satisfiable_of_placement hf hp hle⟩
  · rintro (hfour | ⟨rfl, a, ha, hsat⟩)
    · exact exists_placement_of_nodeColor hk (a := ⟨List.replicate f.numVars.toNat false⟩)
        List.length_replicate fun b _ => (index_wear_standard _).1.trans_le hfour
    · exact exists_placement_of_nodeColor hk ha fun b hb =>
        (index_wear_standard _).2 ((hue_ne_none_iff hf).2 hsat b hb)

/-- **The coloring problem of a gadget graph means what the formula
means.** For every number of colors in which the variables of the problem
fit into 32 bits it is encoded, and its formula has no model with up to
two colors, has one with three exactly if the formula it comes from has
one, and always has one with four or more. -/
theorem encode_build_model_iff (hf : f.validate = .ok ()) :
    ∃ g, build f = .ok g ∧ ∀ k, k * g.nodeCount < UInt32.size →
      ∃ enc, Encoding.encode g .empty (Color.below k) = .ok enc ∧
        (k ≤ 2 → ¬ Nonempty enc.cnf.Model) ∧
        (k = 3 → (Nonempty enc.cnf.Model ↔
          ∃ a : Assignment, a.size = f.numVars.toNat ∧ f.isSatisfiedBy a)) ∧
        (4 ≤ k → Nonempty enc.cnf.Model) := by
  have hvalid := Formula.validate_eq_ok_iff.1 hf
  refine ⟨graph f, build_eq_ok hvalid, fun k hsize => ?_⟩
  have hseed : ValidSeed (graph f) .empty := ⟨nofun, nofun⟩
  have hbound : (graph f).nodeCount * (Color.below k).length < Lit.varBound := by
    rw [Color.length_below, Nat.mul_comm]
    exact hsize
  have hk : k ≤ UInt32.size := by
    have hcount : 1 ≤ (graph f).nodeCount := by
      rw [nodeCount_graph hvalid]
      omega
    exact (Nat.le_mul_of_pos_right k hcount).trans hsize.le
  have hmodel := (Encoding.nonempty_model_iff hseed nofun hbound).trans
    (exists_placement_iff hk hvalid)
  refine ⟨_, Encoding.encode_eq_ok hseed nofun hbound, ?_⟩
  simp only [hmodel]
  refine ⟨by omega, ?_, fun h => .inl h⟩
  rintro rfl
  exact ⟨fun h => (h.resolve_left (by decide)).2, fun h => .inr ⟨rfl, h⟩⟩

/-- The graph of `1 ∨ 1 ∨ 1` with `-1 ∨ -1 ∨ -1` has 17 nodes; its
coloring problem has no model in three colors and one in four. -/
theorem encode_build_model_iff_contradictory :
    ∃ g, build ⟨1, [⟨1, 1, 1⟩, ⟨-1, -1, -1⟩]⟩ = .ok g ∧
      (∃ enc, Encoding.encode g .empty [.green, .red, .blue] = .ok enc ∧
        ¬ Nonempty enc.cnf.Model) ∧
      ∃ enc, Encoding.encode g .empty [.green, .red, .blue, .grey] = .ok enc ∧
        Nonempty enc.cnf.Model := by
  obtain ⟨g, hg, h⟩ :=
    encode_build_model_iff (f := ⟨1, [⟨1, 1, 1⟩, ⟨-1, -1, -1⟩]⟩) (by decide)
  have hcount : g.nodeCount = 17 := by
    have hvalid : Formula.Valid ⟨1, [⟨1, 1, 1⟩, ⟨-1, -1, -1⟩]⟩ :=
      Formula.validate_eq_ok_iff.1 (by decide)
    obtain rfl := Except.ok.inj ((build_eq_ok hvalid).symm.trans hg)
    exact nodeCount_graph hvalid
  obtain ⟨three, hthree, -, hiff, -⟩ := h 3 (by rw [hcount]; decide)
  obtain ⟨four, hfour, -, -, hmodel⟩ := h 4 (by rw [hcount]; decide)
  refine ⟨g, hg, ⟨three, hthree, fun hnonempty => ?_⟩, four, hfour, hmodel (by decide)⟩
  exact Formula.not_satisfiable_contradictory ((hiff rfl).1 hnonempty)

end Gadget

end Tricolor
