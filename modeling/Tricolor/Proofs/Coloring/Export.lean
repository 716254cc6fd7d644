import Mathlib.Algebra.BigOperators.Intervals
import Tricolor.Proofs.Cnf.Dimacs
import Tricolor.Proofs.Coloring.Encoding
import Tricolor.Proofs.Graph.Edges

/-!
# The text of an encoding

What is written for the encoding of a coloring problem is for other
programs to read. Its header announces one variable for each choice of a
node and a position, and as many clauses as the nodes, the edges and the
seed give (`length_clauses`); behind it come just the literals of these
clauses, each with a 0 after it (`toDimacs_encode`). This holds as long as
the choices can be numbered in 32 bits.
-/

namespace Tricolor

namespace Encoding

variable {α : Type} [DecidableEq α] {g : Graph α} {seed : Coloring α} {palette : List Color}

/-! ## The number of clauses -/

theorem length_pairs (k : Nat) : (pairs k).length = k * (k - 1) / 2 := by
  have hsum : (pairs k).length = ∑ a ∈ Finset.range k, (k - 1 - a) := by
    have hrow : ∀ a ∈ List.range k,
        ((List.range' (a + 1) (k - (a + 1))).map fun b => (a, b)).length = k - 1 - a := by
      intro a _
      rw [List.length_map, List.length_range']
      omega
    rw [pairs, List.length_flatMap, List.map_congr_left hrow]
    rfl
  rw [hsum, Finset.sum_range_reflect (fun a => a), Finset.sum_range_id]

theorem length_nodeClauses (k i : Nat) : (nodeClauses k i).length = 1 + k * (k - 1) / 2 := by
  rw [nodeClauses, List.length_cons, List.length_map, length_pairs, Nat.add_comm]

theorem length_edgeClauses (k i j : Nat) : (edgeClauses k i j).length = k := by
  rw [edgeClauses, List.length_map, List.length_range]

/-- A seed entry gives one clause, if its node and its color are known. -/
theorem length_units {e : α × Color} (hnode : e.1 ∈ g.nodes) (hcolor : e.2 ∈ palette) :
    (units g palette e).length = 1 := by
  obtain ⟨c, hc⟩ := exists_idxOf? hcolor
  obtain ⟨i, hi⟩ := Graph.mem_nodes_iff.1 hnode
  rw [units, hc, Graph.indexOf?_eq_some_iff.2 hi]
  rfl

/-- **How many clauses a problem has.** -/
theorem length_clauses (hseed : ValidSeed g seed)
    (hpalette : ∀ a color, seed.get? a = some color → color ∈ palette) :
    (clauses g seed palette).length =
      g.nodeCount * (1 + palette.length * (palette.length - 1) / 2) +
        g.edgeCount * palette.length + seed.size := by
  have hunits : (seed.entries.flatMap (units g palette)).length = seed.size := by
    rw [List.length_flatMap, List.map_eq_replicate_iff.2 fun e he => ?_, List.sum_replicate_nat,
      Nat.mul_one, Coloring.size]
    have hget : seed.get? e.1 = some e.2 := Coloring.get?_eq_some_iff.2 he
    exact length_units (hseed.known e.1 (Coloring.mem_nodes_of_get? hget)) (hpalette _ _ hget)
  rw [clauses, List.length_append, List.length_append, hunits, List.length_flatMap,
    List.length_flatMap]
  simp only [length_nodeClauses, length_edgeClauses, List.map_const', List.sum_replicate_nat,
    List.length_range, Graph.length_edgeIndices]

/-! ## The text -/

/-- **What is written for a coloring problem.** Take a seed that is valid
and has its colors from the palette. The text starts with a header for one
variable for each choice and one clause for each node, each two positions
of a node, each position of an edge and each entry of the seed. The words
that follow are numerals. Cut at the zeros they are the clauses of the
encoding, literal by literal; there are as many zeros as clauses, and the
literals are numbers of variables that the header announces. -/
theorem toDimacs_encode [ToString α] (g : Graph α) (seed : Coloring α) (palette : List Color)
    (hseed : validateSeed g seed = .ok ())
    (hpalette : ∀ a color, seed.get? a = some color → color ∈ palette)
    (hsize : g.nodeCount * palette.length < UInt32.size) :
    ∃ (enc : Encoding) (body : String) (tokens : List Int) (numVars numClauses : Nat),
      encode g seed palette = .ok enc ∧
      numVars = g.nodeCount * palette.length ∧
      numClauses = g.nodeCount * (1 + palette.length * (palette.length - 1) / 2) +
        g.edgeCount * palette.length + seed.size ∧
      enc.cnf.toDimacs = s!"p cnf {numVars} {numClauses}\n" ++ body ∧
      (Text.words body.toList).map Text.Numeral.signed? = tokens.map some ∧
      tokens.splitOn 0 = enc.cnf.clauses.map (List.map Lit.toInt) ++ [[]] ∧
      tokens.count 0 = numClauses ∧
      ∀ clause ∈ enc.cnf.clauses, ∀ l ∈ clause,
        l.toInt ≠ 0 ∧ l.toInt.natAbs ≤ numVars ∧ Lit.ofInt? l.toInt = some l := by
  have hvalid := validateSeed_eq_ok_iff.1 hseed
  have hwithin : Cnf.Within (g.nodeCount * palette.length) (clauses g seed palette) :=
    within_clauses hsize
  have hpos : ∀ clause ∈ clauses g seed palette, ∀ l ∈ clause, 0 < l.var :=
    fun clause hclause l hl => (hwithin clause hclause l hl).1
  have hlength := length_clauses hvalid hpalette
  obtain ⟨body, hbody, hwords⟩ :=
    Cnf.exists_toDimacs_eq ⟨g.nodeCount * palette.length, clauses g seed palette⟩
  refine ⟨_, body, _, _, _, encode_eq_ok hvalid hpalette hsize, rfl, rfl, ?_, hwords,
    Cnf.splitOn_numerals hpos, (Cnf.count_numerals hpos).trans hlength,
    fun clause hclause l hl => ?_⟩
  · rw [hbody, hlength]
    rfl
  · obtain ⟨hlpos, hle⟩ := hwithin clause hclause l hl
    exact ⟨Lit.toInt_ne_zero hlpos, (Lit.natAbs_toInt l).symm ▸ hle,
      Lit.ofInt?_toInt hlpos (Nat.lt_of_le_of_lt hle hsize)⟩

/-- A path of three nodes, the first of them seeded, and a palette that
repeats a color. -/
theorem toDimacs_encode_path :
    ∃ (enc : Encoding) (body : String) (tokens : List Int),
      encode (Graph.empty.joinAll [((0 : Fin 3), (1 : Fin 3)), (1, 2)]) (.ofList [(0, .red)])
        [.red, .red, .blue] = .ok enc ∧
      enc.cnf.toDimacs = "p cnf 9 19\n" ++ body ∧
      (Text.words body.toList).map Text.Numeral.signed? = tokens.map some ∧
      tokens.splitOn 0 = enc.cnf.clauses.map (List.map Lit.toInt) ++ [[]] ∧
      tokens.count 0 = 19 := by
  have hseeded (a : Fin 3) (color : Color)
      (h : (Coloring.ofList [((0 : Fin 3), Color.red)]).get? a = some color) :
      color ∈ [Color.red, .red, .blue] := by
    cases List.mem_singleton.1 (Coloring.get?_eq_some_iff.1 h)
    exact .head _
  obtain ⟨enc, body, tokens, _, _, henc, rfl, rfl, htext, hwords, hsplit, hcount, -⟩ :=
    toDimacs_encode (Graph.empty.joinAll [((0 : Fin 3), (1 : Fin 3)), (1, 2)])
      (.ofList [(0, .red)]) [.red, .red, .blue] (by decide +kernel) hseeded (by decide +kernel)
  have hnodes : (Graph.empty.joinAll [((0 : Fin 3), (1 : Fin 3)), (1, 2)]).nodeCount = 3 := by
    decide +kernel
  have hedges : (Graph.empty.joinAll [((0 : Fin 3), (1 : Fin 3)), (1, 2)]).edgeCount = 2 := by
    decide +kernel
  rw [hnodes, hedges] at htext hcount
  exact ⟨enc, body, tokens, henc, htext, hwords, hsplit, hcount⟩

end Encoding

end Tricolor
