import Mathlib.Logic.Equiv.Defs
import Tricolor.Proofs.Cnf.Model
import Tricolor.Proofs.Coloring.Encoding

/-!
# The models of a coloring problem

An arrangement is a placement of the nodes of a graph and of nothing
else. A model of the formula of a coloring problem describes an
arrangement if the true variables are those of the positions taken
(`Describes`). Every model describes one arrangement, and every
arrangement is described by one model, so the two correspond one to one
(`encode_models_equiv`). What is decoded from a model is the coloring of
its arrangement; in particular no model leaves a node without a color.
-/

namespace Tricolor

namespace Encoding

variable {α : Type} [DecidableEq α] {g : Graph α} {seed : Coloring α} {palette : List Color}
variable {cnf : Cnf} {m m' : cnf.Model} {p p' : Arrangement g seed palette}

/-- A model and an arrangement that say the same: the variable of a node
and a position is true exactly if the node takes that position. -/
def Describes (m : cnf.Model) (p : Arrangement g seed palette) : Prop :=
  ∀ (a : g.Vertex) (c : Fin palette.length),
    m.get? (varOf palette.length (g.position a) c) = some true ↔ p.position a = c

theorem Describes.arrangement_unique (h : Describes m p) (h' : Describes m p') : p = p' :=
  Arrangement.ext (funext fun a => ((h a _).1 ((h' a _).2 rfl)))

/-- **No two models describe one arrangement**: each variable is that of a
choice. -/
theorem Describes.model_unique (hsize : g.nodeCount * palette.length < Lit.varBound)
    (hcnf : cnf.numVars = g.nodeCount * palette.length) (h : Describes m p)
    (h' : Describes m' p) : m = m' := by
  refine Cnf.Model.eq_of_valuation fun x hpos hle => ?_
  obtain ⟨i, hi, c, hc, rfl⟩ := exists_varOf hsize hpos (hcnf ▸ hle)
  obtain ⟨a, rfl⟩ := Graph.exists_position_eq hi
  rw [Cnf.Model.valuation_eq_true, Cnf.Model.valuation_eq_true]
  exact (h a ⟨c, hc⟩).trans (h' a ⟨c, hc⟩).symm

theorem positionAt_extend (p : Arrangement g seed palette) (a : g.Vertex) :
    positionAt g p.extend (g.position a) = p.position a := by
  rw [positionAt_eq p.extend (Graph.node?_position a), p.extend_eq]

theorem describes_iff_positions :
    Describes m p ↔
      Positions g.nodeCount palette.length m.valuation (positionAt g p.extend) := by
  constructor
  · intro h
    refine ⟨fun i hi => ?_, fun i hi c hc => ?_⟩ <;> obtain ⟨a, rfl⟩ := Graph.exists_position_eq hi
    · rw [positionAt_extend]
      exact Fin.is_lt _
    · rw [Cnf.Model.valuation_eq_true, h a ⟨c, hc⟩, positionAt_extend, Fin.ext_iff]
      exact eq_comm
  · intro h a c
    rw [← Cnf.Model.valuation_eq_true, h.iff _ (Graph.position_lt a) c c.2, positionAt_extend,
      Fin.ext_iff]
    exact eq_comm

/-- The formula of a coloring problem. -/
abbrev formula (g : Graph α) (seed : Coloring α) (palette : List Color) : Cnf :=
  ⟨g.nodeCount * palette.length, clauses g seed palette⟩

/-- **Every model describes an arrangement.** -/
theorem exists_arrangement (hseed : ValidSeed g seed)
    (hpalette : ∀ a color, seed.get? a = some color → color ∈ palette)
    (hsize : g.nodeCount * palette.length < Lit.varBound) (m : (formula g seed palette).Model) :
    ∃ p : Arrangement g seed palette, Describes m p := by
  obtain ⟨q, hq, hedges, hunits⟩ :=
    (models_clauses_iff hseed hpalette).1 (m.models (within_clauses hsize))
  have hp := placement_of_positions hseed hq hedges hunits
  refine ⟨.ofPlacement hp, describes_iff_positions.2 (hq.congr hsize (fun _ _ _ => rfl) ?_)⟩
  intro i hi
  obtain ⟨a, rfl⟩ := Graph.exists_position_eq hi
  exact positionAt_extend (.ofPlacement hp) a

/-- **Every arrangement is described by a model.** -/
theorem exists_model (hseed : ValidSeed g seed)
    (hpalette : ∀ a color, seed.get? a = some color → color ∈ palette)
    (hsize : g.nodeCount * palette.length < Lit.varBound) (p : Arrangement g seed palette) :
    ∃ m : (formula g seed palette).Model, Describes m p := by
  have hp := p.placement hseed
  obtain ⟨m, hm⟩ := Cnf.Model.exists_valuation_eq (within_clauses hsize)
    (models_valuation hseed hpalette hsize hp)
  exact ⟨m, describes_iff_positions.2
    ((positions_valuation hsize hp.lt).congr hsize hm fun _ _ => rfl)⟩

/-- **A problem has a model exactly if it has a placement.** -/
theorem nonempty_model_iff (hseed : ValidSeed g seed)
    (hpalette : ∀ a color, seed.get? a = some color → color ∈ palette)
    (hsize : g.nodeCount * palette.length < Lit.varBound) :
    Nonempty (formula g seed palette).Model ↔ ∃ p, Placement g seed palette p := by
  constructor
  · rintro ⟨m⟩
    obtain ⟨p, -⟩ := exists_arrangement hseed hpalette hsize m
    exact ⟨_, p.placement hseed⟩
  · rintro ⟨p, hp⟩
    obtain ⟨m, -⟩ := exists_model hseed hpalette hsize (.ofPlacement hp)
    exact ⟨m⟩

/-- **A model is decoded into the coloring of its arrangement.** -/
theorem Describes.decode {m : (formula g seed palette).Model} {value? : Nat → Option Bool}
    (h : Describes m p) (hsize : g.nodeCount * palette.length < Lit.varBound)
    (hvalue : ∀ x, 0 < x → x ≤ g.nodeCount * palette.length → value? x = m.get? x) :
    ∃ c, Encoding.decode ⟨formula g seed palette, g.nodeCount, palette⟩ g value? = some c ∧
      c.nodes = g.nodes ∧ ∀ a : g.Vertex, c.get? a = some (palette.get (p.position a)) := by
  have hq := (describes_iff_positions.1 h).congr hsize
    (w := fun x => (value? x).getD false) (fun x hpos hle => by rw [hvalue x hpos hle]; rfl)
    fun _ _ => rfl
  obtain ⟨c, hc, hdecode⟩ := realizes_decode (formula g seed palette) hq
  refine ⟨c, hdecode, hc.nodes, fun a => ?_⟩
  rw [hc.color a a.2, positionAt_extend]
  exact List.getElem?_eq_getElem (Fin.is_lt _)

/-- **The formula of a coloring problem is exact.** The models of the
formula and the arrangements of the graph correspond one to one, a
variable being true exactly if its node takes its position. Whatever
else a valuation with the values of a model says, it is decoded into the
coloring that lists the nodes in order, each with the color at its
position. -/
theorem encode_models_equiv [ToString α] (g : Graph α) (seed : Coloring α) (palette : List Color)
    (hseed : validateSeed g seed = .ok ())
    (hpalette : ∀ a color, seed.get? a = some color → color ∈ palette)
    (hsize : g.nodeCount * palette.length < UInt32.size) :
    ∃ enc, encode g seed palette = .ok enc ∧
      enc.cnf.numVars = g.nodeCount * palette.length ∧
      ∃ φ : enc.cnf.Model ≃ Arrangement g seed palette, ∀ m,
        (∀ (a : g.Vertex) (c : Fin palette.length),
          m.get? (enc.var (g.position a) c) = some true ↔ (φ m).position a = c) ∧
        ∀ value? : Nat → Option Bool,
          (∀ x, 0 < x → x ≤ enc.cnf.numVars → value? x = m.get? x) →
          ∃ c, enc.decode g value? = some c ∧ c.nodes = g.nodes ∧
            ∀ a : g.Vertex, c.get? a = some (palette.get ((φ m).position a)) := by
  have hvalid := validateSeed_eq_ok_iff.1 hseed
  choose arrange harrange using exists_arrangement hvalid hpalette hsize
  choose model hmodel using exists_model hvalid hpalette hsize
  refine ⟨_, encode_eq_ok hvalid hpalette hsize, rfl, ⟨arrange, model, fun m => ?_, fun p => ?_⟩,
    fun m => ⟨harrange m, fun value? hvalue => (harrange m).decode hsize hvalue⟩⟩
  · exact (hmodel (arrange m)).model_unique hsize rfl (harrange m)
  · exact (harrange (model p)).arrangement_unique (hmodel p)

/-- Two neighbors, one of them seeded, and a palette that holds the
color of the seed twice: in the only model the other node takes the
second position. -/
theorem encode_models_equiv_edge :
    let g : Graph (Fin 2) := Graph.empty.joinAll [(0, 1)]
    ∃ enc, encode g (.ofList [(0, .red)]) [.red, .red] = .ok enc ∧
      ∃ m : enc.cnf.Model, (∀ m', m' = m) ∧
        ∃ c, enc.decode g m.get? = some c ∧ c.nodes = g.nodes := by
  intro g
  have hseeded : ∀ (a : Fin 2) (color : Color),
      (Coloring.ofList [((0 : Fin 2), Color.red)]).get? a = some color → a = 0 ∧ color = .red := by
    intro a color h
    cases List.mem_singleton.1 (Coloring.get?_eq_some_iff.1 h)
    exact ⟨rfl, rfl⟩
  obtain ⟨enc, henc, -, φ, hφ⟩ := encode_models_equiv g (.ofList [(0, .red)]) [.red, .red]
    (by decide +kernel) (fun a color h => by simp [(hseeded a color h).2]) (by decide +kernel)
  have hmem : ∀ a, a ∈ g.nodes := by decide +kernel
  have hedge : g.hasEdge 0 1 := by decide +kernel
  -- the seed takes position 0, which leaves position 1 to its neighbor
  have hposition : ∀ (p : Arrangement g (.ofList [(0, .red)]) [.red, .red]) (a : g.Vertex),
      p.position a = a.1 := by
    intro p a
    have hzero : p.position ⟨0, hmem 0⟩ = 0 :=
      Fin.ext (Option.some.inj (p.seeded ⟨0, hmem 0⟩ .red rfl)).symm
    have hone := p.distinct ⟨0, hmem 0⟩ ⟨1, hmem 1⟩ hedge
    obtain ⟨a, ha⟩ := a
    match a with
    | 0 => exact hzero
    | 1 =>
      have hother : ∀ c : Fin 2, 0 ≠ c → c = 1 := by decide
      exact hother _ fun h => hone (hzero.trans h)
  let p : Arrangement g (.ofList [(0, .red)]) [.red, .red] :=
    { position := fun a => a.1
      distinct := fun a b hab => Graph.ne_of_hasEdge hab
      seeded := fun a color h => by
        obtain ⟨ha, rfl⟩ := hseeded a color h
        rw [ha]
        rfl }
  obtain ⟨c, hc, hnodes, -⟩ := (hφ (φ.symm p)).2 _ fun _ _ _ => rfl
  refine ⟨enc, henc, φ.symm p, fun m => ?_, c, hc, hnodes⟩
  rw [Equiv.eq_symm_apply]
  exact Arrangement.ext (funext fun a => (hposition _ a).trans (hposition p a).symm)

end Encoding

end Tricolor
