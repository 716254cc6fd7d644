import Tricolor.Proofs.Gadget.Room

/-!
# The greedy coloring of a gadget graph

Once the literals are colored, an auxiliary node has no neighbors outside
its gadget that are still open, so the gadgets are colored independently
of each other, whatever the order in which their nodes take turns. Each
one is colored in an order that only the truth of its literals decides
(`paintOrder`), and that first fit gives every node of the order the
color of its hue is checked for all eight cases (`localRank_before`,
`fitHue_next`). A greedy run keeps to the painting (`Painting`), so it
ends with the colors of the assignment.
-/

namespace Tricolor

namespace Gadget

open ColorRoles (Distinct)

/-! ## A single gadget -/

/-- The number of a role in its gadget. -/
def Role.number (role : Role) : Nat := Role.all.idxOf role

/-- The order in which the nodes of a gadget are colored, by the truth of
the three literals. -/
def paintOrder (v₁ v₂ v₃ : Bool) : List Role :=
  if v₃ then [.or123, .in1, .in2, .or12, .in12, .in3]
  else if !v₁ && v₂ then [.or123, .in3, .in12, .in1, .or12, .in2]
  else [.or123, .in3, .in12, .in1, .in2, .or12]

/-- The hue of a node once the first `n` nodes of the order are colored,
`none` for an open node. -/
def shade (v₁ v₂ v₃ : Bool) (n : Nat) (role : Role) : Option (Option Reference) :=
  if role ∈ (paintOrder v₁ v₂ v₃).take n then some (gadgetHue v₁ v₂ v₃ role) else none

/-- The hues on the colored neighbors of a node. -/
def huesAround (v₁ v₂ v₃ : Bool) (n : Nat) : Role → List (Option Reference)
  | .in1 => some (literalHue v₁) :: [.in2, .or12].filterMap (shade v₁ v₂ v₃ n)
  | .in2 => some (literalHue v₂) :: [.in1, .or12].filterMap (shade v₁ v₂ v₃ n)
  | .or12 => [.in1, .in2, .in12].filterMap (shade v₁ v₂ v₃ n)
  | .in12 => [.or12, .in3, .or123].filterMap (shade v₁ v₂ v₃ n)
  | .in3 => some (literalHue v₃) :: [.in12, .or123].filterMap (shade v₁ v₂ v₃ n)
  | .or123 => [.in12, .in3].filterMap (shade v₁ v₂ v₃ n) ++ [some .falsity, some .neutral]

/-- The rank of a node among those of its gadget. -/
def localRank (v₁ v₂ v₃ : Bool) (n : Nat) (role : Role) : Rank :=
  ⟨(huesAround v₁ v₂ v₃ n role).eraseDups.length, if role = .or123 then 4 else 3, role.number⟩

/-- The hue of the first role that is missing around a node. -/
def fitHue (hues : List (Option Reference)) : Option Reference :=
  [.truth, .falsity, .neutral].find? fun role => !hues.contains (some role)

variable {v₁ v₂ v₃ : Bool} {n : Nat} {role role' : Role}

theorem mem_paintOrder (v₁ v₂ v₃ : Bool) (role : Role) : role ∈ paintOrder v₁ v₂ v₃ := by
  revert v₁ v₂ v₃
  cases role <;> decide

theorem nodup_paintOrder (v₁ v₂ v₃ : Bool) : (paintOrder v₁ v₂ v₃).Nodup := by
  revert v₁ v₂ v₃
  decide

theorem length_paintOrder (v₁ v₂ v₃ : Bool) : (paintOrder v₁ v₂ v₃).length = 6 := by
  revert v₁ v₂ v₃
  decide

theorem shade_eq_none_iff :
    shade v₁ v₂ v₃ n role = none ↔ role ∉ (paintOrder v₁ v₂ v₃).take n := by
  rw [shade]
  split <;> simp [*]

/-- While a node is open, so is the next one of the order. -/
theorem exists_next (h : shade v₁ v₂ v₃ n role = none) :
    ∃ next, (paintOrder v₁ v₂ v₃)[n]? = some next ∧ shade v₁ v₂ v₃ n next = none := by
  rw [shade_eq_none_iff] at h
  have hlt : n < (paintOrder v₁ v₂ v₃).length := by
    by_contra hge
    rw [List.take_of_length_le (by omega)] at h
    exact h (mem_paintOrder v₁ v₂ v₃ role)
  refine ⟨_, List.getElem?_eq_getElem hlt, ?_⟩
  rw [shade_eq_none_iff, List.mem_take_iff_getElem]
  rintro ⟨i, hi, heq⟩
  have := (nodup_paintOrder v₁ v₂ v₃).getElem_inj_iff.1 heq
  omega

theorem shade_succ {next : Role} (h : (paintOrder v₁ v₂ v₃)[n]? = some next) :
    shade v₁ v₂ v₃ (n + 1) role =
      if role = next then some (gadgetHue v₁ v₂ v₃ next) else shade v₁ v₂ v₃ n role := by
  have hmem : role ∈ (paintOrder v₁ v₂ v₃).take (n + 1) ↔
      role ∈ (paintOrder v₁ v₂ v₃).take n ∨ role = next := by
    rw [List.take_add_one, h, Option.toList_some, List.mem_append, List.mem_singleton]
  by_cases hrole : role = next
  · rw [shade, if_pos (hmem.2 (.inr hrole)), if_pos hrole, hrole]
  · simp only [shade, hmem, hrole, or_false, if_false]

/-- **The next node of the order is more urgent than the other open ones.** -/
theorem localRank_before {next : Role} (h : (paintOrder v₁ v₂ v₃)[n]? = some next)
    (hopen : shade v₁ v₂ v₃ n role = none) (hne : role ≠ next) :
    (localRank v₁ v₂ v₃ n next).before (localRank v₁ v₂ v₃ n role) := by
  have hall : ∀ v₁ v₂ v₃, ∀ n < 6, ∀ next ∈ (paintOrder v₁ v₂ v₃)[n]?, ∀ role ∈ Role.all,
      shade v₁ v₂ v₃ n role = none → role ≠ next →
      (localRank v₁ v₂ v₃ n next).before (localRank v₁ v₂ v₃ n role) := by
    decide
  have hn := (List.getElem?_eq_some_iff.1 h).1
  rw [length_paintOrder] at hn
  exact hall v₁ v₂ v₃ n hn next h role (by cases role <;> decide) hopen hne

/-- **First fit gives it its hue.** -/
theorem fitHue_next (h : (paintOrder v₁ v₂ v₃)[n]? = some role) :
    none ∉ huesAround v₁ v₂ v₃ n role ∧
      fitHue (huesAround v₁ v₂ v₃ n role) = gadgetHue v₁ v₂ v₃ role := by
  have hall : ∀ v₁ v₂ v₃, ∀ n < 6, ∀ role ∈ (paintOrder v₁ v₂ v₃)[n]?,
      none ∉ huesAround v₁ v₂ v₃ n role ∧
        fitHue (huesAround v₁ v₂ v₃ n role) = gadgetHue v₁ v₂ v₃ role := by
    decide
  have hn := (List.getElem?_eq_some_iff.1 h).1
  rw [length_paintOrder] at hn
  exact hall v₁ v₂ v₃ n hn role h

/-- First fit on colors is first fit on hues. -/
theorem firstFit_wear {r : ColorRoles} (hr : r.Distinct) {hues : List (Option Reference)}
    (hnone : none ∉ hues) :
    firstFit (hues.map r.wear) r.palette = some (r.wear (fitHue hues)) := by
  have hpalette : r.palette = [.truth, .falsity, .neutral].map r.color := rfl
  have htaken : ∀ role, (hues.map r.wear).contains (r.color role) = hues.contains (some role) := by
    intro role
    have hwear : r.color role = r.wear (some role) := rfl
    rw [Bool.eq_iff_iff, List.contains_iff_mem, List.contains_iff_mem, hwear]
    exact List.mem_map_of_injective hr.wear_injective
  have hfind : r.palette.find? (fun c => !(hues.map r.wear).contains c) =
      (fitHue hues).map r.color := by
    rw [hpalette, List.find?_map, fitHue]
    congr 2
    funext role
    rw [Function.comp_apply, htaken]
  cases hfit : fitHue hues with
  | some role =>
    rw [hfit] at hfind
    exact firstFit_of_find? hfind
  | none =>
    -- all three roles are there, so what is taken is the palette
    rw [hfit, Option.map_none, find?_eq_none_iff] at hfind
    rw [← r.firstFit_palette]
    refine firstFit_congr fun color => ⟨fun h => ?_, hfind color⟩
    obtain ⟨hue, hhue, rfl⟩ := List.mem_map.1 h
    rw [ColorRoles.wear_mem_palette_iff]
    rintro rfl
    exact hnone hhue

/-! ## The gadgets of a graph -/

variable {f : Formula} {r : ColorRoles} {a : Assignment} {c c' : Coloring Node} {cl : Clause}
variable {k : Nat} {b : Node}

/-- The first `n` nodes of the gadget of a clause have the colors of their
hues, and the others are open. -/
def Shaded (r : ColorRoles) (a : Assignment) (c : Coloring Node) (k : Nat) (cl : Clause) (n : Nat) :
    Prop :=
  ∀ role, c.get? (.auxiliary k role) =
    (shade (a.holds cl.first) (a.holds cl.second) (a.holds cl.third) n role).map r.wear

/-- What a greedy run from the seed of an assignment has colored so far:
the references and the literals, and each gadget up to some node. -/
structure Painting (f : Formula) (r : ColorRoles) (a : Assignment) (c : Coloring Node) : Prop where
  skeleton : ∀ b ∈ referenceNodes ++ variableNodes f.numVars.toNat,
    c.get? b = some (nodeColor f r a b)
  gadget : ∀ k cl, f.clauses[k]? = some cl → ∃ n, Shaded r a c k cl n

/-- The nodes of a gadget are numbered in the order of their roles. -/
theorem exists_position (hf : f.Valid) (hk : f.clauses[k]? = some cl) :
    ∃ base, ∀ role, (graph f).position (.auxiliary k role) = base + role.number := by
  have hlt := (List.getElem?_eq_some_iff.1 hk).1
  obtain ⟨before, after, hrange⟩ := List.append_of_mem (List.mem_range.2 hlt)
  refine ⟨(referenceNodes ++ variableNodes f.numVars.toNat ++ before.flatMap clauseNodes).length,
    fun role => Graph.position_eq_of_node? ?_⟩
  rw [← Graph.getElem?_nodes, nodes_graph hf, auxiliaryNodes, hrange, List.flatMap_append,
    List.flatMap_cons, ← List.append_assoc, List.getElem?_append_right (Nat.le_add_right _ _),
    Nat.add_sub_cancel_left]
  cases role <;> rfl

theorem Painting.ofLiteral (h : Painting f r a c) (hf : f.Valid) (hk : f.clauses[k]? = some cl)
    {x : Literal} (hx : x ∈ cl.literals) :
    c.get? (.ofLiteral x) = some (r.wear (some (literalHue (a.holds x)))) := by
  have hmem : Node.ofLiteral x ∈ referenceNodes ++ variableNodes f.numVars.toNat :=
    List.mem_append_right _ (literal_mem_variableNodes.2 (hf.literal hk hx))
  rw [h.skeleton _ hmem, nodeColor, hue_ofLiteral]

/-- The colors around a node of a gadget are those of the hues around it. -/
theorem Painting.filterMap_neighbors (h : Painting f r a c) (hf : f.Valid)
    (hk : f.clauses[k]? = some cl) (hn : Shaded r a c k cl n) (role : Role) :
    (auxiliaryNeighbors k cl role).filterMap c.get? =
      (huesAround (a.holds cl.first) (a.holds cl.second) (a.holds cl.third) n role).map r.wear := by
  have haux : ∀ roles : List Role, (roles.map (Node.auxiliary k)).filterMap c.get? =
      (roles.filterMap
        (shade (a.holds cl.first) (a.holds cl.second) (a.holds cl.third) n)).map r.wear := by
    intro roles
    rw [List.filterMap_map, List.map_filterMap]
    exact List.filterMap_congr fun role _ => hn role
  have hx₁ := h.ofLiteral hf hk (x := cl.first) (by simp [Clause.literals])
  have hx₂ := h.ofLiteral hf hk (x := cl.second) (by simp [Clause.literals])
  have hx₃ := h.ofLiteral hf hk (x := cl.third) (by simp [Clause.literals])
  have hfalsity : c.get? .falsity = some (r.wear (some .falsity)) :=
    h.skeleton _ (List.mem_append_left _ (by simp [referenceNodes]))
  have hneutral : c.get? .neutral = some (r.wear (some .neutral)) :=
    h.skeleton _ (List.mem_append_left _ (by simp [referenceNodes]))
  cases role with
  | in1 => exact (List.filterMap_cons_some hx₁).trans (congrArg _ (haux [.in2, .or12]))
  | in2 => exact (List.filterMap_cons_some hx₂).trans (congrArg _ (haux [.in1, .or12]))
  | or12 => exact haux [.in1, .in2, .in12]
  | in12 => exact haux [.or12, .in3, .or123]
  | in3 => exact (List.filterMap_cons_some hx₃).trans (congrArg _ (haux [.in12, .or123]))
  | or123 =>
    have hsplit : auxiliaryNeighbors k cl .or123 =
        [.in12, .in3].map (Node.auxiliary k) ++ [.falsity, .neutral] := rfl
    rw [hsplit, List.filterMap_append, haux, List.filterMap_cons_some hfalsity,
      List.filterMap_cons_some hneutral, huesAround, List.map_append]
    rfl

/-- **The colors around a node of a gadget**, counted and looked up. -/
theorem Painting.mem_around (h : Painting f r a c) (hf : f.Valid) (hk : f.clauses[k]? = some cl)
    (hn : Shaded r a c k cl n) {color : Color} :
    color ∈ Greedy.around (graph f) c (.auxiliary k role) ↔
      color ∈ (huesAround (a.holds cl.first) (a.holds cl.second) (a.holds cl.third) n role).map
        r.wear := by
  rw [Greedy.around, List.mem_eraseDups, ← h.filterMap_neighbors hf hk hn]
  have hneighbors : ((graph f).neighbors (.auxiliary k role)).Perm (auxiliaryNeighbors k cl role) :=
    neighbors_auxiliary hk
  exact (hneighbors.filterMap c.get?).mem_iff

theorem Painting.rank_eq (h : Painting f r a c) (hf : f.Valid) (hr : r.Distinct)
    (hk : f.clauses[k]? = some cl) (hn : Shaded r a c k cl n) (role : Role) :
    Greedy.rank (graph f) c (.auxiliary k role) =
      { localRank (a.holds cl.first) (a.holds cl.second) (a.holds cl.third) n role with
        node := (graph f).position (.auxiliary k role) } := by
  generalize hhues : huesAround (a.holds cl.first) (a.holds cl.second) (a.holds cl.third) n role =
    hues
  have hsaturation : (Greedy.around (graph f) c (.auxiliary k role)).length =
      hues.eraseDups.length := by
    have hnodup : (hues.eraseDups.map r.wear).Nodup :=
      (nodup_eraseDups hues).map hr.wear_injective
    rw [← List.length_map r.wear]
    refine ((List.perm_ext_iff_of_nodup (Greedy.nodup_around _ _ _) hnodup).2
      fun color => ?_).length_eq
    rw [h.mem_around hf hk hn, hhues]
    simp only [List.mem_map, List.mem_eraseDups]
  have hdegree : ((graph f).neighbors (.auxiliary k role)).length =
      if role = .or123 then 4 else 3 := by
    rw [(neighbors_auxiliary hk).length_eq]
    cases role <;> rfl
  rw [Greedy.rank, hsaturation, hdegree, localRank, hhues]

/-- In a gadget the greedy rule goes by the local ranks. -/
theorem Painting.before_iff (h : Painting f r a c) (hf : f.Valid) (hr : r.Distinct)
    (hk : f.clauses[k]? = some cl) (hn : Shaded r a c k cl n) (role role' : Role) :
    (Greedy.rank (graph f) c (.auxiliary k role)).before
        (Greedy.rank (graph f) c (.auxiliary k role')) ↔
      (localRank (a.holds cl.first) (a.holds cl.second) (a.holds cl.third) n role).before
        (localRank (a.holds cl.first) (a.holds cl.second) (a.holds cl.third) n role') := by
  obtain ⟨base, hbase⟩ := exists_position hf hk
  rw [h.rank_eq hf hr hk hn, h.rank_eq hf hr hk hn, Rank.before_iff, Rank.before_iff, hbase, hbase]
  simp only [localRank, Nat.add_lt_add_iff_left]

/-! ## Greedy runs -/

/-- A node that a greedy run may still color is an auxiliary one. -/
theorem Painting.exists_of_open (h : Painting f r a c) (hf : f.Valid) (hb : b ∈ (graph f).nodes)
    (hopen : c.get? b = none) :
    ∃ k cl role, f.clauses[k]? = some cl ∧ b = .auxiliary k role := by
  rw [nodes_graph hf] at hb
  rcases List.mem_append.1 hb with hb | hb
  · rw [h.skeleton b hb] at hopen
    cases hopen
  · obtain ⟨k, role, rfl⟩ := exists_of_mem_auxiliaryNodes hb
    exact ⟨k, _, role, List.getElem?_eq_getElem (auxiliary_mem_auxiliaryNodes.1 hb), rfl⟩

/-- **The next node of the graph is the next one of its gadget.** -/
theorem Painting.isNext (h : Painting f r a c) (hf : f.Valid) (hr : r.Distinct)
    (hk : f.clauses[k]? = some cl) (hn : Shaded r a c k cl n)
    (hnext : Greedy.IsNext (graph f) c (.auxiliary k role)) :
    (paintOrder (a.holds cl.first) (a.holds cl.second) (a.holds cl.third))[n]? = some role := by
  have hshade : ∀ role, c.get? (.auxiliary k role) = none ↔
      shade (a.holds cl.first) (a.holds cl.second) (a.holds cl.third) n role = none := by
    intro role
    rw [hn role, Option.map_eq_none_iff]
  have hopen := (hshade role).1 hnext.isOpen
  obtain ⟨next, hget, hnextOpen⟩ := exists_next hopen
  rw [hget, Option.some.injEq]
  by_contra hne
  -- the next node of the gadget is open as well, and each would come before the other
  have hfirst := localRank_before hget hopen (Ne.symm hne)
  have hsecond := hnext.first (.auxiliary k next) (auxiliary_mem_nodes hf hk next)
    ((hshade next).2 hnextOpen) fun heq => hne (Node.auxiliary.inj heq).2
  rw [h.before_iff hf hr hk hn] at hsecond
  exact Rank.before_irrefl _ (Rank.before_trans hfirst hsecond)

/-- **A greedy step keeps to the painting.** -/
theorem Painting.step (h : Painting f r a c) (hf : f.Valid) (hr : r.Distinct)
    (hstep : Greedy.Step (graph f) r.palette c c') : Painting f r a c' := by
  obtain ⟨hnext, hcolor⟩ := hstep
  obtain ⟨k, cl, role, hk, rfl⟩ := h.exists_of_open hf hnext.mem hnext.isOpen
  obtain ⟨n, hn⟩ := h.gadget k cl hk
  have hget := h.isNext hf hr hk hn hnext
  obtain ⟨hnone, hfit⟩ := fitHue_next hget
  rw [Greedy.fit, firstFit_congr fun _ => h.mem_around hf hk hn, firstFit_wear hr hnone, hfit]
    at hcolor
  obtain rfl := Option.some.inj hcolor
  refine ⟨fun b hb => ?_, fun k' cl' hk' => ?_⟩
  · rw [Coloring.get?_insert_of_ne, h.skeleton b hb]
    rintro rfl
    exact Option.some_ne_none _ ((h.skeleton _ hb).symm.trans hnext.isOpen)
  · by_cases hkk : k' = k
    · -- its own gadget is one node further
      subst hkk
      cases hk.symm.trans hk'
      refine ⟨n + 1, fun role' => ?_⟩
      rw [Coloring.get?_insert, shade_succ hget]
      by_cases hrole : role' = role
      · rw [if_pos (congrArg _ hrole), if_pos hrole]
        rfl
      · rw [if_neg fun heq => hrole (Node.auxiliary.inj heq).2, if_neg hrole]
        exact hn role'
    · obtain ⟨n', hn'⟩ := h.gadget k' cl' hk'
      refine ⟨n', fun role' => ?_⟩
      rw [Coloring.get?_insert_of_ne fun heq => hkk (Node.auxiliary.inj heq).1]
      exact hn' role'

theorem Painting.run (h : Painting f r a c) (hf : f.Valid) (hr : r.Distinct)
    (hrun : Greedy.Run (graph f) r.palette c c') : Painting f r a c' := by
  induction hrun with
  | refl => exact h
  | tail _ hstep ih => exact ih.step hf hr hstep

/-- **A painting without open nodes is that of the assignment.** -/
theorem Painting.get?_eq (h : Painting f r a c) (hf : f.Valid) (hb : b ∈ (graph f).nodes)
    (hcolored : c.get? b ≠ none) : c.get? b = some (nodeColor f r a b) := by
  rw [nodes_graph hf] at hb
  rcases List.mem_append.1 hb with hb | hb
  · exact h.skeleton b hb
  · obtain ⟨k, role, rfl⟩ := exists_of_mem_auxiliaryNodes hb
    have hk := List.getElem?_eq_getElem (auxiliary_mem_auxiliaryNodes.1 hb)
    obtain ⟨n, hn⟩ := h.gadget k _ hk
    rw [hn role, shade] at hcolored ⊢
    rw [nodeColor, hue_auxiliary hk]
    split at hcolored
    · rw [if_pos ‹_›]
      rfl
    · exact absurd rfl hcolored

/-- The seed of an assignment is a painting in which all gadgets are
open. -/
theorem painting_modelSeed (r : ColorRoles) (ha : a.size = f.numVars.toNat)
    (hle : (a.size : Int) ≤ Int32.maxValue.toInt) : Painting f r a (r.modelSeed a) where
  skeleton b hb := (get?_modelSeed_eq_some_iff f hle).2 ⟨ha ▸ hb, rfl⟩
  gadget k cl _ := by
    refine ⟨0, fun role => ?_⟩
    have hopen : (r.modelSeed a).get? (.auxiliary k role) = none := by
      rw [Coloring.get?_eq_none_iff, nodes_modelSeed f r hle]
      exact auxiliary_notMem_skeletonNodes
    rw [hopen, shade_eq_none_iff.2 (by simp)]
    rfl

/-- **The greedy coloring of a seeded assignment** gives all nodes the
colors of the assignment, and colors no others. -/
theorem dsatur_modelSeed (hf : f.Valid) (hr : r.Distinct) (ha : a.size = f.numVars.toNat)
    (hle : (a.size : Int) ≤ Int32.maxValue.toInt) :
    ∃ c, dsatur (graph f) (r.modelSeed a) r.palette = .ok c ∧ Proper (graph f) c ∧
      ∀ b color, c.get? b = some color ↔ b ∈ (graph f).nodes ∧ nodeColor f r a b = color := by
  have hseed := validSeed_modelSeed hf hr ha hle
  have hends := dsaturEnds_graph hf (seedsReferences_modelSeed f r hle) hseed r.palette
  obtain ⟨c, hc, hrun, hall⟩ := dsatur_run hseed hends
  have hget := fun b hb => ((painting_modelSeed r ha hle).run hf hr hrun).get?_eq hf hb (hall b hb)
  refine ⟨c, hc, hrun.proper hseed hall, fun b color => ⟨fun h => ?_, fun ⟨hb, hcolor⟩ => ?_⟩⟩
  · have hb := (hrun.validSeed hseed).known b (Coloring.mem_nodes_of_get? h)
    exact ⟨hb, Option.some.inj ((hget b hb).symm.trans h)⟩
  · exact hcolor ▸ hget b hb

/-- **Overflow marks the false clauses.** Seeded with an assignment, the
greedy coloring leaves the palette in the gadgets of the false clauses
and nowhere else, each time at the first disjunction only. It uses three
colors exactly if the assignment satisfies the formula. -/
theorem dsatur_overflow_iff (hf : f.validate = .ok ())
    (hvars : (f.numVars.toNat : Int) ≤ Int32.maxValue.toInt) (hr : r.Distinct)
    (ha : a.size = f.numVars.toNat) :
    ∃ g c, build f = .ok g ∧ dsatur g (r.modelSeed a) r.palette = .ok c ∧
      (∀ b ∈ g.nodes, ∃ color, c.get? b = some color) ∧
      (∀ k cl, f.clauses[k]? = some cl →
        ((∃ role color, c.get? (.auxiliary k role) = some color ∧ color ∉ r.palette) ↔
          ¬ cl.isSatisfiedBy a)) ∧
      (∀ b color, c.get? b = some color → color ∉ r.palette →
        ∃ k cl, f.clauses[k]? = some cl ∧ ¬ cl.isSatisfiedBy a ∧ b = .auxiliary k .or12) ∧
      (c.colorsUsed.length = 3 ↔ f.isSatisfiedBy a) := by
  have hvalid := Formula.validate_eq_ok_iff.1 hf
  obtain ⟨c, hc, hproper, hget⟩ := dsatur_modelSeed hvalid hr ha (ha ▸ hvars)
  have hpalette : ∀ b color, c.get? b = some color → (color ∉ r.palette ↔ hue f a b = none) := by
    intro b color h
    obtain ⟨-, rfl⟩ := (hget b color).1 h
    rw [nodeColor, ColorRoles.wear_mem_palette_iff, not_not]
  refine ⟨graph f, c, build_eq_ok hvalid, hc, hproper.colored, fun k cl hk => ?_,
    fun b color h hover => ?_, ?_⟩
  · constructor
    · rintro ⟨role, color, h, hover⟩
      obtain ⟨k', cl', hk', hfalse, heq⟩ := (hue_eq_none_iff ((hget _ _).1 h).1 hvalid).1
        ((hpalette _ _ h).1 hover)
      cases heq
      cases hk.symm.trans hk'
      exact hfalse
    · intro hfalse
      have hmem := auxiliary_mem_nodes hvalid hk .or12
      have hcolor := (hget _ _).2 ⟨hmem, rfl⟩
      exact ⟨.or12, _, hcolor, (hpalette _ _ hcolor).2
        ((hue_eq_none_iff hmem hvalid).2 ⟨k, cl, hk, hfalse, rfl⟩)⟩
  · exact (hue_eq_none_iff ((hget b color).1 h).1 hvalid).1 ((hpalette b color h).1 hover)
  · have href : ∀ role, c.get? (.reference role) = some (r.color role) :=
      fun role => (hget _ _).2 ⟨reference_mem_nodes hvalid role, rfl⟩
    rw [length_colorsUsed_eq_iff hr href, ← hue_ne_none_iff hvalid]
    constructor
    · intro h b hb hnone
      have hcolor := (hget b _).2 ⟨hb, rfl⟩
      exact (hpalette b _ hcolor).2 hnone (h b _ hcolor)
    · intro h b color hcolor
      by_contra hover
      exact h b ((hget b color).1 hcolor).1 ((hpalette b color hcolor).1 hover)

/-- Of the clauses `1 ∨ 1 ∨ 1` and `-1 ∨ 2 ∨ -1` the first one is false if
1 is, and only its first disjunction needs a fourth color. -/
theorem dsatur_overflow_iff_repeated :
    ∃ g c, build ⟨2, [⟨1, 1, 1⟩, ⟨-1, 2, -1⟩]⟩ = .ok g ∧
      dsatur g (ColorRoles.standard.modelSeed ⟨[false, true]⟩) ColorRoles.standard.palette = .ok c ∧
      (∃ role color, c.get? (.auxiliary 0 role) = some color ∧
        color ∉ ColorRoles.standard.palette) ∧
      ∀ b color, c.get? b = some color → color ∉ ColorRoles.standard.palette →
        b = .auxiliary 0 .or12 := by
  obtain ⟨g, c, hg, hc, -, hclause, hnode, -⟩ :=
    dsatur_overflow_iff (f := ⟨2, [⟨1, 1, 1⟩, ⟨-1, 2, -1⟩]⟩) (r := .standard) (a := ⟨[false, true]⟩)
      (by decide) (by decide) ⟨by decide, by decide, by decide⟩ (by decide)
  refine ⟨g, c, hg, hc, (hclause 0 _ rfl).2 (by decide), fun b color h hover => ?_⟩
  obtain ⟨k, cl, hk, hfalse, rfl⟩ := hnode b color h hover
  match k, hk with
  | 0, _ => rfl
  | 1, hk =>
    cases hk
    exact absurd (by decide) hfalse

end Gadget

end Tricolor
