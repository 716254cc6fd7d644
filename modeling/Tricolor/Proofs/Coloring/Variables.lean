import Mathlib.Data.Set.Function
import Tricolor.Proofs.Coloring.Agreement
import Tricolor.Proofs.Gadget.Shape

/-!
# How far the variables of an encoding reach

The variables of a coloring problem number the choices of a node and a
position from 1 on, so that every choice has one of its own. They are
32-bit numbers, though, and a problem with more choices is encoded all the
same. Then the last of `2 ^ 32` choices is numbered 0, and with one choice
more the first and the last share a variable (`var_of_encode`). What the
clauses say is not followed past that point: they no longer describe the
problem. A gadget graph is large enough for it (`var_collides`).
-/

namespace Tricolor

namespace Encoding

variable {α : Type} [DecidableEq α] {g : Graph α} {seed : Coloring α} {palette : List Color}
variable {i c : Nat} {enc : Encoding}

/-! ## Numbers past 32 bits -/

/-- The choices of a node and a position. -/
def choices (enc : Encoding) : Set (Nat × Nat) :=
  {x | x.1 < enc.nodeCount ∧ x.2 < enc.palette.length}

/-- How many choices there are. -/
def numChoices (enc : Encoding) : Nat := enc.nodeCount * enc.palette.length

theorem varBound_eq : Lit.varBound = 4294967296 := rfl

/-- **The variables tell `2 ^ 32` choices apart**, and no more. -/
theorem injOn_var_iff (enc : Encoding) :
    enc.choices.InjOn (Function.uncurry enc.var) ↔ enc.numChoices ≤ Lit.varBound := by
  constructor
  · intro hinj
    by_contra hsize
    -- the choices with the numbers 0 and `2 ^ 32`
    obtain ⟨i, hi, c, hc, hfirst⟩ := exists_number (show 0 < enc.numChoices by omega)
    obtain ⟨j, hj, d, hd, hlast⟩ := exists_number (Nat.lt_of_not_le hsize)
    have hshared : enc.var i c = enc.var j d := by
      rw [var, var, varOf, varOf, hfirst, hlast]
      rfl
    have hsame : (i, c) = (j, d) := hinj ⟨hi, hc⟩ ⟨hj, hd⟩ hshared
    rw [Prod.mk.injEq] at hsame
    rw [(number_inj hc hd).2 hsame, hlast] at hfirst
    cases hfirst
  · rintro hsize ⟨i, c⟩ ⟨hi, hc⟩ ⟨j, d⟩ ⟨hj, hd⟩ h
    have hle : i * enc.palette.length + c + 1 ≤ Lit.varBound := (succ_le_mul hi hc).trans hsize
    have hle' : j * enc.palette.length + d + 1 ≤ Lit.varBound := (succ_le_mul hj hd).trans hsize
    simp only [Function.uncurry_apply_pair, var, varOf] at h
    rw [varBound_eq] at h hle hle'
    rw [Prod.mk.injEq, ← number_inj hc hd]
    omega

/-- **With `2 ^ 32` choices one of them is numbered 0.** -/
theorem var_pos_iff (enc : Encoding) :
    (∀ x ∈ enc.choices, 0 < enc.var x.1 x.2) ↔ enc.numChoices < Lit.varBound := by
  constructor
  · intro hpos
    by_contra hsize
    have hlast : Lit.varBound - 1 < enc.numChoices := by
      rw [varBound_eq] at *
      omega
    obtain ⟨i, hi, c, hc, hx⟩ := exists_number hlast
    have hzero : enc.var i c = 0 := by
      rw [var, varOf, hx]
      rfl
    exact Nat.ne_of_gt (hpos (i, c) ⟨hi, hc⟩) hzero
  · rintro hsize ⟨i, c⟩ ⟨hi, hc⟩
    exact (varOf_range hsize hi hc).1

/-- An encoding that has a variable for each choice, up to the last 32-bit
number. -/
def Numbered (enc : Encoding) : Prop :=
  enc.cnf.numVars = min enc.numChoices (Lit.varBound - 1)

theorem Numbered.var_le (h : enc.Numbered) {x : Nat × Nat} (hx : x ∈ enc.choices) :
    enc.var x.1 x.2 ≤ enc.cnf.numVars := by
  have hle : enc.var x.1 x.2 ≤ enc.numChoices :=
    (Nat.mod_le _ _).trans (succ_le_mul hx.1 hx.2)
  have hlt : enc.var x.1 x.2 < Lit.varBound := Nat.mod_lt _ (by decide)
  rw [h]
  exact Nat.le_min.2 ⟨hle, Nat.le_sub_one_of_lt hlt⟩

theorem Numbered.mapsTo_var_iff (h : enc.Numbered) :
    enc.choices.MapsTo (Function.uncurry enc.var) (Set.Icc 1 enc.cnf.numVars) ↔
      enc.numChoices < Lit.varBound := by
  rw [← var_pos_iff]
  exact ⟨fun hmaps x hx => (hmaps hx).1, fun hpos x hx => ⟨hpos x hx, h.var_le hx⟩⟩

/-- **The choices and the variables correspond one to one** if there are
fewer than `2 ^ 32` choices. -/
theorem Numbered.bijOn_var_iff (h : enc.Numbered) :
    enc.choices.BijOn (Function.uncurry enc.var) (Set.Icc 1 enc.cnf.numVars) ↔
      enc.numChoices < Lit.varBound := by
  refine ⟨fun hbij => h.mapsTo_var_iff.1 hbij.mapsTo, fun hsize =>
    ⟨h.mapsTo_var_iff.2 hsize, (injOn_var_iff enc).2 (Nat.le_of_lt hsize), ?_⟩⟩
  rintro x ⟨hpos, hle⟩
  have hx : x ≤ enc.numChoices := hle.trans (h.trans_le (Nat.min_le_left _ _))
  obtain ⟨i, hi, c, hc, hvar⟩ := exists_varOf hsize hpos hx
  exact ⟨(i, c), ⟨hi, hc⟩, hvar⟩

/-! ## The number of variables -/

/-- The variable of every choice occurs in the clause that gives the node
a position. -/
theorem exists_pos_varOf_mem (seed : Coloring α) (hi : i < g.nodeCount)
    (hc : c < palette.length) :
    ∃ clause ∈ clauses g seed palette, .pos (varOf palette.length i c) ∈ clause := by
  refine ⟨(List.range palette.length).map fun c => .pos (varOf palette.length i c), ?_,
    List.mem_map.2 ⟨c, List.mem_range.2 hc, rfl⟩⟩
  rw [clauses, List.mem_append, List.mem_append, List.mem_flatMap]
  exact .inl (.inl ⟨i, List.mem_range.2 hi, .head _⟩)

/-- The number of variables that an encoding has: it is cut off, but grows
to cover the largest. -/
theorem numVars_ofClauses_clauses (g : Graph α) (seed : Coloring α) (palette : List Color) :
    (Cnf.ofClauses (g.nodeCount * palette.length % Lit.varBound)
      (clauses g seed palette)).numVars =
      min (g.nodeCount * palette.length) (Lit.varBound - 1) := by
  have hbound : 0 < Lit.varBound := by decide
  have hcovers := Cnf.numVars_ofClauses_le_iff.1 (Nat.le_refl
    (Cnf.ofClauses (g.nodeCount * palette.length % Lit.varBound)
      (clauses g seed palette)).numVars)
  apply Nat.le_antisymm
  · refine Cnf.numVars_ofClauses_le_iff.2 ⟨Nat.le_min.2 ⟨Nat.mod_le _ _,
      Nat.le_sub_one_of_lt (Nat.mod_lt _ hbound)⟩, fun clause hclause l hl => ?_⟩
    obtain ⟨i, hi, c, hc, hvar⟩ := overChoices_clauses g seed palette clause hclause l hl
    rw [hvar, varOf]
    exact Nat.le_min.2 ⟨(Nat.mod_le _ _).trans (succ_le_mul hi hc),
      Nat.le_sub_one_of_lt (Nat.mod_lt _ hbound)⟩
  · rcases Nat.lt_or_ge (g.nodeCount * palette.length) Lit.varBound with hlt | hge
    · exact (Nat.min_le_left _ _).trans ((Nat.mod_eq_of_lt hlt).symm ▸ hcovers.1)
    · -- the largest 32-bit number is that of a choice
      have hnumber : Lit.varBound - 2 < g.nodeCount * palette.length := by
        rw [varBound_eq] at *
        omega
      obtain ⟨i, hi, c, hc, hx⟩ := exists_number hnumber
      have hvar : varOf palette.length i c = Lit.varBound - 1 := by
        rw [varOf, hx]
        rfl
      obtain ⟨clause, hclause, hmem⟩ := exists_pos_varOf_mem seed hi hc
      exact (Nat.min_le_right _ _).trans (hvar ▸ hcovers.2 clause hclause _ hmem)

/-! ## What is encoded -/

section Encode

variable [ToString α]

/-- **Just the valid seeds with colors of the palette are encoded.** -/
theorem encode_eq_ok_iff :
    encode g seed palette = .ok enc ↔ ValidSeed g seed ∧
      (∀ a color, seed.get? a = some color → color ∈ palette) ∧
      enc = ⟨.ofClauses (g.nodeCount * palette.length % Lit.varBound) (clauses g seed palette),
        g.nodeCount, palette⟩ := by
  constructor
  · intro h
    have hseed : ValidSeed g seed := by
      by_contra hseed
      obtain ⟨fault, hfault⟩ := exists_validateSeed_eq_error_iff.2 hseed
      rw [encode_eq_error hfault] at h
      cases h
    have hpalette : ∀ a color, seed.get? a = some color → color ∈ palette := by
      by_contra! houtside
      obtain ⟨a, color, rest, hsplit, hcolor⟩ := Coloring.exists_entries_eq houtside
      rw [encode_eq_error_of_outside hseed (fun _ => Coloring.mem_palette_of_mem_inside) hcolor
        hsplit] at h
      cases h
    rw [encode_eq_ofClauses hseed hpalette] at h
    exact ⟨hseed, hpalette, (Except.ok.inj h).symm⟩
  · rintro ⟨hseed, hpalette, rfl⟩
    exact encode_eq_ofClauses hseed hpalette

/-- Whatever is encoded has a variable for each choice that can have one. -/
theorem numbered_of_encode (h : encode g seed palette = .ok enc) : enc.Numbered := by
  obtain ⟨-, -, rfl⟩ := encode_eq_ok_iff.1 h
  exact numVars_ofClauses_clauses g seed palette

/-- **How the variables of an encoding number the choices.** Encode any
graph, seed and palette that are accepted. There are as many variables as
choices of a node and a color, or as many as 32-bit numbers allow. They tell
the choices apart if and only if there are at most `2 ^ 32` of them, and
each choice has one of the variables of the formula if and only if there
are fewer; then choices and variables correspond one to one. -/
theorem var_of_encode (h : encode g seed palette = .ok enc) :
    enc.cnf.numVars = min (g.nodeCount * palette.length) (UInt32.size - 1) ∧
      (enc.choices.InjOn (Function.uncurry enc.var) ↔
        g.nodeCount * palette.length ≤ UInt32.size) ∧
      (enc.choices.MapsTo (Function.uncurry enc.var) (Set.Icc 1 enc.cnf.numVars) ↔
        g.nodeCount * palette.length < UInt32.size) ∧
      (enc.choices.BijOn (Function.uncurry enc.var) (Set.Icc 1 enc.cnf.numVars) ↔
        g.nodeCount * palette.length < UInt32.size) := by
  have hnumbered := numbered_of_encode h
  have hchoices : enc.numChoices = g.nodeCount * palette.length := by
    obtain ⟨-, -, rfl⟩ := encode_eq_ok_iff.1 h
    rfl
  rw [← hchoices]
  exact ⟨hnumbered, injOn_var_iff enc, hnumbered.mapsTo_var_iff, hnumbered.bijOn_var_iff⟩

end Encode

/-- Two nodes that are joined, and two colors. -/
theorem var_of_encode_edge :
    ∃ enc, encode (Graph.empty.joinAll [((0 : Fin 2), (1 : Fin 2))]) .empty [.red, .blue] =
        .ok enc ∧
      enc.choices.BijOn (Function.uncurry enc.var) (Set.Icc 1 enc.cnf.numVars) := by
  have hseed : ValidSeed (Graph.empty.joinAll [((0 : Fin 2), (1 : Fin 2))]) .empty :=
    validateSeed_eq_ok_iff.1 (by decide +kernel)
  have henc : encode _ .empty [.red, .blue] = .ok _ := encode_eq_ofClauses hseed nofun
  exact ⟨_, henc, (var_of_encode henc).2.2.2.2 (by decide +kernel)⟩

/-- **Choices share a variable.** The gadget graph of a formula without
clauses over `2 ^ 31 - 1` variables has `2 ^ 32 + 1` nodes. To color it with
one color the first node and the last have the same variable, and the node
before the last has variable 0. -/
theorem var_collides :
    ∃ g enc, Gadget.build ⟨2147483647, []⟩ = .ok g ∧ encode g .empty [.green] = .ok enc ∧
      (0, 0) ∈ enc.choices ∧ (4294967296, 0) ∈ enc.choices ∧
      enc.var 0 0 = enc.var 4294967296 0 ∧
      (4294967295, 0) ∈ enc.choices ∧ enc.var 4294967295 0 = 0 := by
  have hvalid : Formula.Valid ⟨2147483647, []⟩ := nofun
  have hcount : (Gadget.graph ⟨2147483647, []⟩).nodeCount = 4294967297 := by
    rw [Gadget.nodeCount_graph hvalid]
    rfl
  have hbuild := Gadget.build_eq_ok hvalid
  -- from here on only the number of its nodes is used of the graph
  generalize Gadget.graph ⟨2147483647, []⟩ = g at hcount hbuild
  have hshared : varOf 1 0 0 = varOf 1 4294967296 0 := by decide
  have hzero : varOf 1 4294967295 0 = 0 := by decide
  have hnode : ∀ i ≤ 4294967296, i < g.nodeCount := by omega
  exact ⟨g, _, hbuild, encode_eq_ofClauses ⟨nofun, nofun⟩ nofun,
    ⟨hnode 0 (by decide), Nat.one_pos⟩, ⟨hnode _ (Nat.le_refl _), Nat.one_pos⟩, hshared,
    ⟨hnode 4294967295 (by decide), Nat.one_pos⟩, hzero⟩

end Encoding

end Tricolor
