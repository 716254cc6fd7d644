import Tricolor.Coloring.Encoding
import Tricolor.Proofs.Cnf.Basic
import Tricolor.Proofs.Coloring.Placement

/-!
# The encoding of coloring problems is exact

As long as the numbers of the variables fit in 32 bits, no two choices of
a node and a position share a variable (`varOf_inj`), and a valuation
models the clauses exactly if at every node just one position is true,
and these positions part neighbors and keep the seed
(`models_clauses_iff`). Such a valuation is decoded into the coloring of
a placement, and every placement comes from one.
-/

namespace Tricolor

namespace Encoding

/-! ## Variables -/

variable {n k i j c d : Nat} {v w : Valuation}

theorem succ_le_mul (hi : i < n) (hc : c < k) : i * k + c + 1 ≤ n * k := by
  have hmul : (i + 1) * k ≤ n * k := Nat.mul_le_mul_right k hi
  rw [Nat.add_mul, Nat.one_mul] at hmul
  omega

/-- The choices of a node and a position are numbered one for one. -/
theorem number_inj (hc : c < k) (hd : d < k) : i * k + c = j * k + d ↔ i = j ∧ c = d := by
  constructor
  · intro h
    have hij : i = j := by
      have hdiv := congrArg (· / k) h
      simp only [Nat.mul_comm _ k, Nat.mul_add_div (Nat.zero_lt_of_lt hc), Nat.div_eq_of_lt hc,
        Nat.div_eq_of_lt hd, Nat.add_zero] at hdiv
      exact hdiv
    subst hij
    exact ⟨rfl, Nat.add_left_cancel h⟩
  · rintro ⟨rfl, rfl⟩
    rfl

/-- Every number below that of the choices is that of one. -/
theorem exists_number {x : Nat} (hx : x < n * k) : ∃ i < n, ∃ c < k, i * k + c = x := by
  have hk : 0 < k := by
    refine Nat.pos_of_ne_zero ?_
    rintro rfl
    omega
  exact ⟨x / k, (Nat.div_lt_iff_lt_mul hk).2 hx, x % k, Nat.mod_lt x hk, Nat.div_add_mod' x k⟩

/-- The variables of a problem do not wrap around. -/
theorem varOf_eq (hsize : n * k < Lit.varBound) (hi : i < n) (hc : c < k) :
    varOf k i c = i * k + c + 1 :=
  Nat.mod_eq_of_lt (Nat.lt_of_le_of_lt (succ_le_mul hi hc) hsize)

theorem varOf_range (hsize : n * k < Lit.varBound) (hi : i < n) (hc : c < k) :
    0 < varOf k i c ∧ varOf k i c ≤ n * k := by
  rw [varOf_eq hsize hi hc]
  exact ⟨Nat.succ_pos _, succ_le_mul hi hc⟩

/-- **No two choices share a variable.** -/
theorem varOf_inj (hsize : n * k < Lit.varBound) (hi : i < n) (hj : j < n) (hc : c < k)
    (hd : d < k) : varOf k i c = varOf k j d ↔ i = j ∧ c = d := by
  rw [varOf_eq hsize hi hc, varOf_eq hsize hj hd, Nat.add_right_cancel_iff, number_inj hc hd]

/-- Every variable is that of a node and a position. -/
theorem exists_varOf {n k x : Nat} (hsize : n * k < Lit.varBound) (hpos : 0 < x)
    (hle : x ≤ n * k) : ∃ i < n, ∃ c < k, varOf k i c = x := by
  obtain ⟨i, hi, c, hc, hx⟩ := exists_number (show x - 1 < n * k by omega)
  refine ⟨i, hi, c, hc, ?_⟩
  rw [varOf_eq hsize hi hc, hx]
  exact Nat.sub_add_cancel hpos

/-! ## What the clauses say -/

theorem mem_pairs : (c, d) ∈ pairs k ↔ c < d ∧ d < k := by
  simp only [pairs, List.mem_flatMap, List.mem_range, List.mem_map, List.mem_range'_1,
    Prod.mk.injEq]
  constructor
  · rintro ⟨_, hc, _, hd, rfl, rfl⟩
    omega
  · intro h
    exact ⟨c, by omega, d, by omega, rfl, rfl⟩

theorem holds_pos {x : Nat} : v.holds (.pos x) ↔ v x = true := beq_iff_eq

theorem holds_neg {x : Nat} : v.holds (.neg x) ↔ ¬ v x = true := by
  rw [Valuation.holds, Lit.neg, beq_iff_eq, Bool.not_eq_true]

/-- **The clauses of a node** say that just one position is true. -/
theorem models_nodeClauses_iff :
    v.models (nodeClauses k i) ↔ ∃ q < k, ∀ c < k, v (varOf k i c) = true ↔ c = q := by
  have hsome : (∃ l ∈ (List.range k).map fun c => Lit.pos (varOf k i c), v.holds l) ↔
      ∃ q < k, v (varOf k i q) = true := by
    simp only [List.mem_map, List.mem_range, exists_exists_and_eq_and, holds_pos]
  rw [Valuation.models_iff, nodeClauses, List.forall_mem_cons, hsome]
  simp only [List.forall_mem_map, Prod.forall, mem_pairs, List.exists_mem_cons_iff,
    List.not_mem_nil, false_and, exists_false, or_false, holds_neg, ← not_and_or, and_imp]
  constructor
  · rintro ⟨⟨q, hq, htrue⟩, hatMost⟩
    refine ⟨q, hq, fun c hc => ⟨fun h => ?_, fun h => h ▸ htrue⟩⟩
    rcases Nat.lt_trichotomy c q with hlt | heq | hgt
    · exact absurd ⟨h, htrue⟩ (hatMost c q hlt hq)
    · exact heq
    · exact absurd ⟨htrue, h⟩ (hatMost q c hgt hc)
  · rintro ⟨q, hq, hiff⟩
    refine ⟨⟨q, hq, (hiff q hq).2 rfl⟩, fun c d hcd hd h => ?_⟩
    have hc := (hiff c (by omega)).1 h.1
    have hd := (hiff d hd).1 h.2
    omega

theorem models_edgeClauses_iff :
    v.models (edgeClauses k i j) ↔
      ∀ c < k, ¬ (v (varOf k i c) = true ∧ v (varOf k j c) = true) := by
  simp only [Valuation.models_iff, edgeClauses, List.forall_mem_map, List.mem_range,
    List.exists_mem_cons_iff, List.not_mem_nil, false_and, exists_false, or_false, holds_neg,
    not_and_or]

theorem models_append {l m : List (List Lit)} : v.models (l ++ m) ↔ v.models l ∧ v.models m := by
  rw [Valuation.models, List.all_append, Bool.and_eq_true]
  rfl

theorem models_flatMap {β : Type} {l : List β} {f : β → List (List Lit)} :
    v.models (l.flatMap f) ↔ ∀ e ∈ l, v.models (f e) := by
  rw [Valuation.models, List.all_flatMap, List.all_eq_true]
  rfl

/-! ## The formula of a problem -/

section Problem

variable {α : Type} [DecidableEq α] {g : Graph α} {seed : Coloring α} {palette : List Color}
variable {a b : α} {color : Color} {p : α → Nat} {q q' : Nat → Nat}

/-- The unit clauses of a seed entry. -/
def units (g : Graph α) (palette : List Color) (entry : α × Color) : List (List Lit) :=
  match palette.idxOf? entry.2, g.indexOf? entry.1 with
  | some c, some i => [[.pos (varOf palette.length i c)]]
  | _, _ => []

/-- The clauses of a problem: those of the nodes, the edges and the seed. -/
def clauses (g : Graph α) (seed : Coloring α) (palette : List Color) : List (List Lit) :=
  (List.range g.nodeCount).flatMap (nodeClauses palette.length) ++
    g.edgeIndices.flatMap (fun (i, j) => edgeClauses palette.length i j) ++
    seed.entries.flatMap (units g palette)

/-- A choice of positions that the true variables describe. -/
structure Positions (n k : Nat) (v : Valuation) (q : Nat → Nat) : Prop where
  lt : ∀ i < n, q i < k
  iff : ∀ i < n, ∀ c < k, (v (varOf k i c) = true ↔ c = q i)

/-- What is chosen depends on the variables of the choices only. -/
theorem Positions.congr (h : Positions n k v q) (hsize : n * k < Lit.varBound)
    (hv : ∀ x, 0 < x → x ≤ n * k → w x = v x) (hq : ∀ i < n, q' i = q i) :
    Positions n k w q' where
  lt i hi := hq i hi ▸ h.lt i hi
  iff i hi c hc := by
    obtain ⟨hpos, hle⟩ := varOf_range hsize hi hc
    rw [hv _ hpos hle, hq i hi]
    exact h.iff i hi c hc

theorem mem_units {clause : List Lit} (hidx : palette.idxOf? color = some c)
    (hi : g.indexOf? a = some i) :
    clause ∈ units g palette (a, color) ↔ clause = [.pos (varOf palette.length i c)] := by
  rw [units, hidx, hi, List.mem_singleton]

theorem models_nodes_iff :
    v.models ((List.range n).flatMap (nodeClauses k)) ↔ ∃ q, Positions n k v q := by
  simp only [models_flatMap, List.mem_range, models_nodeClauses_iff]
  constructor
  · intro h
    choose! q hq using h
    exact ⟨q, fun i hi => (hq i hi).1, fun i hi => (hq i hi).2⟩
  · rintro ⟨q, hq⟩ i hi
    exact ⟨q i, hq.lt i hi, hq.iff i hi⟩

omit [DecidableEq α] in
theorem models_edges_iff (hq : Positions g.nodeCount k v q) :
    v.models (g.edgeIndices.flatMap fun (i, j) => edgeClauses k i j) ↔
      ∀ i j, g.Linked i j → q i ≠ q j := by
  have hedge : ∀ i j, g.Linked i j → (v.models (edgeClauses k i j) ↔ q i ≠ q j) := by
    intro i j hij
    obtain ⟨hi, hj⟩ := hij.lt
    rw [models_edgeClauses_iff]
    constructor
    · intro h heq
      exact h (q i) (hq.lt i hi) ⟨(hq.iff i hi _ (hq.lt i hi)).2 rfl,
        (hq.iff j hj _ (hq.lt i hi)).2 heq⟩
    · rintro h c hc ⟨hic, hjc⟩
      exact h (((hq.iff i hi c hc).1 hic).symm.trans ((hq.iff j hj c hc).1 hjc))
  simp only [models_flatMap, Prod.forall, Graph.mem_edgeIndices]
  constructor
  · intro h i j hij
    rcases Nat.lt_or_gt_of_ne hij.ne with hlt | hgt
    · exact (hedge i j hij).1 (h i j ⟨hlt, hij⟩)
    · exact ((hedge j i hij.symm).1 (h j i ⟨hgt, hij.symm⟩)).symm
  · exact fun h i j hij => (hedge i j hij.2).2 (h i j hij.2)

theorem models_units_iff (hseed : ValidSeed g seed)
    (hpalette : ∀ a color, seed.get? a = some color → color ∈ palette)
    (hq : Positions g.nodeCount palette.length v q) :
    v.models (seed.entries.flatMap (units g palette)) ↔
      ∀ i a color, g.node? i = some a → seed.get? a = some color →
        palette.idxOf? color = some (q i) := by
  simp only [models_flatMap, Prod.forall, ← Coloring.get?_eq_some_iff]
  have hunit : ∀ i a color, g.node? i = some a → seed.get? a = some color →
      (v.models (units g palette (a, color)) ↔ palette.idxOf? color = some (q i)) := by
    intro i a color hi ha
    obtain ⟨c, hc⟩ := exists_idxOf? (hpalette a color ha)
    have hlt := (List.getElem?_eq_some_iff.1 (getElem?_of_idxOf? hc)).1
    have hiff := hq.iff i (Graph.lt_nodeCount_of_node? hi) c hlt
    simp only [Valuation.models_iff, mem_units hc (Graph.indexOf?_eq_some_iff.2 hi), forall_eq,
      List.mem_singleton, exists_eq_left, holds_pos, hiff, hc, Option.some.injEq]
  constructor
  · exact fun h i a color hi ha => (hunit i a color hi ha).1 (h a color ha)
  · intro h a color ha
    obtain ⟨i, hi⟩ := Graph.mem_nodes_iff.1 (hseed.known a (Coloring.mem_nodes_of_get? ha))
    exact (hunit i a color hi ha).2 (h i a color hi ha)

/-- **What the formula of a problem says.** -/
theorem models_clauses_iff (hseed : ValidSeed g seed)
    (hpalette : ∀ a color, seed.get? a = some color → color ∈ palette) :
    v.models (clauses g seed palette) ↔
      ∃ q, Positions g.nodeCount palette.length v q ∧ (∀ i j, g.Linked i j → q i ≠ q j) ∧
        ∀ i a color, g.node? i = some a → seed.get? a = some color →
          palette.idxOf? color = some (q i) := by
  rw [clauses, models_append, models_append, models_nodes_iff]
  constructor
  · rintro ⟨⟨⟨q, hq⟩, hedges⟩, hunits⟩
    exact ⟨q, hq, (models_edges_iff hq).1 hedges, (models_units_iff hseed hpalette hq).1 hunits⟩
  · rintro ⟨q, hq, hedges, hunits⟩
    exact ⟨⟨⟨q, hq⟩, (models_edges_iff hq).2 hedges⟩,
      (models_units_iff hseed hpalette hq).2 hunits⟩

/-! ## The variables of the clauses -/

/-- Every literal of some clauses stands for a choice of a node below `n`
and a position below `k`. -/
def OverChoices (n k : Nat) (clauses : List (List Lit)) : Prop :=
  ∀ clause ∈ clauses, ∀ l ∈ clause, ∃ i < n, ∃ c < k, l.var = varOf k i c

theorem overChoices_nodeClauses (hi : i < n) : OverChoices n k (nodeClauses k i) := by
  intro clause hclause l hl
  rcases List.mem_cons.1 hclause with rfl | hclause
  · obtain ⟨c, hc, rfl⟩ := List.mem_map.1 hl
    exact ⟨i, hi, c, List.mem_range.1 hc, rfl⟩
  · obtain ⟨⟨c, d⟩, hcd, rfl⟩ := List.mem_map.1 hclause
    rw [mem_pairs] at hcd
    rcases List.mem_pair.1 hl with rfl | rfl
    · exact ⟨i, hi, c, by omega, rfl⟩
    · exact ⟨i, hi, d, hcd.2, rfl⟩

theorem overChoices_edgeClauses (hi : i < n) (hj : j < n) :
    OverChoices n k (edgeClauses k i j) := by
  intro clause hclause l hl
  obtain ⟨c, hc, rfl⟩ := List.mem_map.1 hclause
  rw [List.mem_range] at hc
  rcases List.mem_pair.1 hl with rfl | rfl
  · exact ⟨i, hi, c, hc, rfl⟩
  · exact ⟨j, hj, c, hc, rfl⟩

theorem overChoices_units (e : α × Color) :
    OverChoices g.nodeCount palette.length (units g palette e) := by
  obtain ⟨a, color⟩ := e
  intro clause hclause l hl
  cases hc : palette.idxOf? color with
  | none => simp [units, hc] at hclause
  | some c =>
    cases hi : g.indexOf? a with
    | none => simp [units, hc, hi] at hclause
    | some i =>
      rw [mem_units hc hi] at hclause
      subst hclause
      rw [List.mem_singleton.1 hl]
      exact ⟨i, Graph.lt_nodeCount_of_node? (Graph.indexOf?_eq_some_iff.1 hi), c,
        (List.getElem?_eq_some_iff.1 (getElem?_of_idxOf? hc)).1, rfl⟩

/-- **Every literal of the formula stands for a choice.** -/
theorem overChoices_clauses (g : Graph α) (seed : Coloring α) (palette : List Color) :
    OverChoices g.nodeCount palette.length (clauses g seed palette) := by
  intro clause hclause
  rw [clauses, List.mem_append, List.mem_append, List.mem_flatMap, List.mem_flatMap,
    List.mem_flatMap] at hclause
  rcases hclause with (⟨i, hi, hclause⟩ | ⟨⟨i, j⟩, hij, hclause⟩) | ⟨e, -, hclause⟩
  · exact overChoices_nodeClauses (List.mem_range.1 hi) clause hclause
  · obtain ⟨hi, hj⟩ := (Graph.mem_edgeIndices.1 hij).2.lt
    exact overChoices_edgeClauses hi hj clause hclause
  · exact overChoices_units e clause hclause

theorem within_clauses (hsize : g.nodeCount * palette.length < Lit.varBound) :
    Cnf.Within (g.nodeCount * palette.length) (clauses g seed palette) := by
  intro clause hclause l hl
  obtain ⟨i, hi, c, hc, hvar⟩ := overChoices_clauses g seed palette clause hclause l hl
  exact hvar ▸ varOf_range hsize hi hc

/-! ## Encoding and decoding -/

/-- A pass whose steps all succeed collects their results. -/
theorem mapM_eq_pure {m : Type → Type} [Monad m] [LawfulMonad m] {β γ : Type} {l : List β}
    {f : β → m γ} {h : β → γ} (hall : ∀ e ∈ l, f e = pure (h e)) : l.mapM f = pure (l.map h) := by
  induction l with
  | nil => rw [List.mapM_nil, List.map_nil]
  | cons e l ih =>
    rw [List.mapM_cons, hall e (.head l), ih fun e' he' => hall e' (.tail e he'), pure_bind,
      pure_bind, List.map_cons]

/-- Entries with colors of the palette have their clauses. -/
theorem mapM_seedClauses [ToString α] {entries : List (α × Color)}
    (hentries : ∀ e ∈ entries, e.2 ∈ palette) :
    entries.mapM (seedClauses g palette) =
      (.ok (entries.map (units g palette)) : Except Error _) := by
  refine mapM_eq_pure fun e he => ?_
  obtain ⟨c, hc⟩ := exists_idxOf? (hentries e he)
  rw [seedClauses, units, hc]
  cases g.indexOf? e.1 <;> rfl

/-- **A valid seed with colors of the palette is encoded**, whatever the
number of the choices. -/
theorem encode_eq_ofClauses [ToString α] (hseed : ValidSeed g seed)
    (hpalette : ∀ a color, seed.get? a = some color → color ∈ palette) :
    encode g seed palette = .ok
      ⟨.ofClauses (g.nodeCount * palette.length % Lit.varBound) (clauses g seed palette),
        g.nodeCount, palette⟩ := by
  have hunits := mapM_seedClauses (g := g) fun e (he : e ∈ seed.entries) =>
    hpalette e.1 e.2 (Coloring.get?_eq_some_iff.2 he)
  rw [encode, validateSeed_eq_ok_iff.2 hseed]
  simp only [hunits, bind, Except.bind, pure, Except.pure]
  rw [← List.flatMap_def]
  rfl

/-- If the variables do not wrap around, they are the choices. -/
theorem encode_eq_ok [ToString α] (hseed : ValidSeed g seed)
    (hpalette : ∀ a color, seed.get? a = some color → color ∈ palette)
    (hsize : g.nodeCount * palette.length < Lit.varBound) :
    encode g seed palette = .ok
      ⟨⟨g.nodeCount * palette.length, clauses g seed palette⟩, g.nodeCount, palette⟩ := by
  rw [encode_eq_ofClauses hseed hpalette, Nat.mod_eq_of_lt hsize,
    Cnf.ofClauses_eq (within_clauses hsize)]

/-- **The first entry with a color that the palette lacks is reported**,
whatever the graph and the entries beside it. -/
theorem encode_eq_error_of_outside [ToString α] {inside rest : List (α × Color)}
    (hseed : ValidSeed g seed) (hinside : ∀ e ∈ inside, e.2 ∈ palette) (hcolor : color ∉ palette)
    (hsplit : seed.entries = inside ++ (a, color) :: rest) :
    encode g seed palette = .error (.invalidSeed (.outsidePalette color (toString a))) := by
  have hfault : seedClauses g palette (a, color) =
      .error (.invalidSeed (.outsidePalette color (toString a))) := by
    rw [seedClauses, List.idxOf?_eq_none_iff.2 hcolor]
  have hentries : seed.entries.mapM (seedClauses g palette) =
      .error (.invalidSeed (.outsidePalette color (toString a))) := by
    rw [hsplit, List.mapM_append, mapM_seedClauses hinside, List.mapM_cons, hfault]
    rfl
  rw [encode, validateSeed_eq_ok_iff.2 hseed]
  simp only [hentries, bind, Except.bind]

/-- The valuation in which just the choices of `p` are true. -/
def valuation (g : Graph α) (k : Nat) (p : α → Nat) : Valuation :=
  fun x => g.nodes.zipIdx.any fun e => x == varOf k e.2 (p e.1)

/-- The position that is chosen for the node at an index. -/
def positionAt (g : Graph α) (p : α → Nat) (i : Nat) : Nat := ((g.node? i).map p).getD 0

omit [DecidableEq α] in
theorem positionAt_eq (p : α → Nat) (ha : g.node? i = some a) : positionAt g p i = p a := by
  rw [positionAt, ha, Option.map_some, Option.getD_some]

omit [DecidableEq α] in
theorem positions_valuation (hsize : g.nodeCount * k < Lit.varBound)
    (hlt : ∀ a ∈ g.nodes, p a < k) :
    Positions g.nodeCount k (valuation g k p) (positionAt g p) where
  lt i hi := by
    obtain ⟨a, ha⟩ := Graph.exists_node?_of_lt hi
    rw [positionAt_eq p ha]
    exact hlt a (Graph.mem_nodes_iff.2 ⟨i, ha⟩)
  iff i hi c hc := by
    obtain ⟨a, ha⟩ := Graph.exists_node?_of_lt hi
    simp only [valuation, positionAt_eq p ha, List.any_eq_true, Prod.exists, beq_iff_eq,
      List.mk_mem_zipIdx_iff_getElem?, Graph.getElem?_nodes]
    constructor
    · rintro ⟨b, j, hb, heq⟩
      have hj := Graph.lt_nodeCount_of_node? hb
      have hpb := hlt b (Graph.mem_nodes_iff.2 ⟨j, hb⟩)
      obtain ⟨rfl, rfl⟩ := (varOf_inj hsize hi hj hc hpb).1 heq
      rw [Option.some.inj (ha.symm.trans hb)]
    · rintro rfl
      exact ⟨a, i, ha, rfl⟩

/-- **A placement is a model.** -/
theorem models_valuation (hseed : ValidSeed g seed)
    (hpalette : ∀ a color, seed.get? a = some color → color ∈ palette)
    (hsize : g.nodeCount * palette.length < Lit.varBound) (hp : Placement g seed palette p) :
    (valuation g palette.length p).models (clauses g seed palette) := by
  refine (models_clauses_iff hseed hpalette).2
    ⟨positionAt g p, positions_valuation hsize hp.lt, fun i j hij => ?_,
      fun i a color ha hcolor => ?_⟩
  · obtain ⟨a, ha⟩ := Graph.exists_node?_of_lt hij.lt.1
    obtain ⟨b, hb⟩ := Graph.exists_node?_of_lt hij.lt.2
    rw [positionAt_eq p ha, positionAt_eq p hb]
    exact hp.distinct a b ((Graph.hasEdge_iff_linked ha hb).2 hij)
  · rw [positionAt_eq p ha]
    exact hp.seeded a color hcolor

/-- The positions that a model describes are a placement. -/
theorem placement_of_positions (hseed : ValidSeed g seed)
    (hq : Positions g.nodeCount palette.length v q) (hedges : ∀ i j, g.Linked i j → q i ≠ q j)
    (hunits : ∀ i a color, g.node? i = some a → seed.get? a = some color →
      palette.idxOf? color = some (q i)) :
    Placement g seed palette fun a => q (g.position a) where
  lt a ha := by
    obtain ⟨i, hi⟩ := Graph.mem_nodes_iff.1 ha
    rw [Graph.position_eq_of_node? hi]
    exact hq.lt i (Graph.lt_nodeCount_of_node? hi)
  distinct a b hab := by
    obtain ⟨i, j, hi, hj, hij⟩ := Graph.hasEdge_iff.1 hab
    rw [Graph.position_eq_of_node? hi, Graph.position_eq_of_node? hj]
    exact hedges i j hij
  seeded a color ha := by
    obtain ⟨i, hi⟩ := Graph.mem_nodes_iff.1 (hseed.known a (Coloring.mem_nodes_of_get? ha))
    rw [Graph.position_eq_of_node? hi]
    exact hunits i a color hi ha

variable {cnf : Cnf} {value? : Nat → Option Bool}

/-- The first true position is the only one. -/
theorem position?_eq
    (hq : Positions n palette.length (fun x => (value? x).getD false) q) (hi : i < n) :
    position? ⟨cnf, n, palette⟩ value? i = some (q i) := by
  have htrue : ∀ c < palette.length,
      (value? (varOf palette.length i c) == some true) = true ↔ c = q i := by
    intro c hc
    rw [← hq.iff i hi c hc, beq_iff_eq]
    cases value? (varOf palette.length i c) <;> simp
  have hlt := hq.lt i hi
  cases hfind : position? ⟨cnf, n, palette⟩ value? i with
  | none => exact absurd ((htrue _ hlt).2 rfl) (List.find?_eq_none.1 hfind _ (List.mem_range.2 hlt))
  | some c =>
    have hc := List.mem_range.1 (List.mem_of_find?_eq_some hfind)
    have hcolored := List.find?_some hfind
    exact congrArg some ((htrue c hc).1 hcolored)

theorem decode_eq (hq : Positions g.nodeCount palette.length (fun x => (value? x).getD false) q) :
    decode ⟨cnf, g.nodeCount, palette⟩ g value? = some
      (.ofList (g.nodes.zipIdx.map fun e => (e.1, (palette[q e.2]?).getD .green))) := by
  have hentry : ∀ e ∈ g.nodes.zipIdx,
      (color? ⟨cnf, g.nodeCount, palette⟩ value? e.2).map (fun c => (e.1, c)) =
        pure (e.1, (palette[q e.2]?).getD .green) := by
    rintro ⟨a, i⟩ he
    rw [List.mk_mem_zipIdx_iff_getElem?, Graph.getElem?_nodes] at he
    have hi := Graph.lt_nodeCount_of_node? he
    rw [color?, position?_eq hq hi, Option.bind_some, List.getElem?_eq_getElem (hq.lt i hi)]
    rfl
  rw [decode, mapM_eq_pure hentry]
  rfl

/-- What is decoded lists the nodes in order, each with the color at its
position. -/
theorem realizes_decode (cnf : Cnf)
    (hq : Positions g.nodeCount palette.length (fun x => (value? x).getD false) q) :
    ∃ c, Realizes g palette (fun a => q (g.position a)) c ∧
      decode ⟨cnf, g.nodeCount, palette⟩ g value? = some c := by
  refine ⟨_, realizes_ofList ?_ ?_, decode_eq hq⟩
  · rw [List.map_map]
    exact List.zipIdx_map_fst 0 g.nodes
  · intro e he
    obtain ⟨⟨a, i⟩, hai, rfl⟩ := List.mem_map.1 he
    rw [List.mk_mem_zipIdx_iff_getElem?, Graph.getElem?_nodes] at hai
    have hlt := hq.lt i (Graph.lt_nodeCount_of_node? hai)
    rw [Graph.position_eq_of_node? hai, List.getElem?_eq_getElem hlt]
    rfl

/-- **A model is decoded into the coloring of a placement.** -/
theorem exists_decode (cnf : Cnf) (hseed : ValidSeed g seed)
    (hpalette : ∀ a color, seed.get? a = some color → color ∈ palette)
    (hv : Valuation.models (fun x => (value? x).getD false) (clauses g seed palette)) :
    ∃ p c, Placement g seed palette p ∧ Realizes g palette p c ∧
      decode ⟨cnf, g.nodeCount, palette⟩ g value? = some c := by
  obtain ⟨q, hq, hedges, hunits⟩ := (models_clauses_iff hseed hpalette).1 hv
  obtain ⟨c, hc, hdecode⟩ := realizes_decode cnf hq
  exact ⟨_, c, placement_of_positions hseed hq hedges hunits, hc, hdecode⟩

end Problem

end Encoding

end Tricolor
