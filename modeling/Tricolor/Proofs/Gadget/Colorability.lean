import Tricolor.Proofs.Coloring.Proper
import Tricolor.Proofs.Gadget.Hues

/-!
# Colorability of gadget graphs

A coloring agrees with an assignment if it stays within the role colors
and wears them at the references and the literals (`Agrees`). The hues of
a satisfying assignment paint the graph in such a way
(`agrees_painted`). Conversely a gadget passes falsity on from its
literals to its output (`get?_or123_of_literals`), which stands next to
falsity, so whatever assignment a proper coloring agrees with satisfies
the formula (`isSatisfiedBy_of_agrees`). Every proper coloring with three
colors agrees with the assignment that is read off it (`agrees_read`).
-/

namespace Tricolor

namespace Gadget

open ColorRoles (Distinct)

variable {f : Formula} {a : Assignment} {r : ColorRoles} {c : Coloring Node} {cl : Clause}
variable {k var : Nat} {b b' : Node}

/-- A coloring stays within the role colors, and wears those of an
assignment at the references and the literals. -/
structure Agrees (r : ColorRoles) (a : Assignment) (c : Coloring Node) : Prop where
  palette : ∀ b color, c.get? b = some color → color ∈ r.palette
  reference : ∀ role, c.get? (.reference role) = some (r.color role)
  literal : ∀ var value, a.get? var = some value →
    c.get? (.literal var true) = some (r.color (literalHue value)) ∧
      c.get? (.literal var false) = some (r.color (literalHue !value))

/-- A proper coloring in the role colors that wears them at the
references. -/
structure RoleColored (f : Formula) (r : ColorRoles) (c : Coloring Node) : Prop where
  proper : Proper (graph f) c
  palette : ∀ b color, c.get? b = some color → color ∈ r.palette
  reference : ∀ role, c.get? (.reference role) = some (r.color role)

/-! ## From assignments to colorings -/

/-- The color of a node under an assignment. -/
def nodeColor (f : Formula) (r : ColorRoles) (a : Assignment) (b : Node) : Color :=
  r.wear (hue f a b)

/-- The graph in the colors of an assignment, satisfying or not. -/
def painted (f : Formula) (r : ColorRoles) (a : Assignment) : Coloring Node :=
  (graph f).paint (nodeColor f r a)

theorem reference_mem_nodes (hf : f.Valid) (role : Reference) :
    .reference role ∈ (graph f).nodes := by
  rw [nodes_graph hf]
  cases role <;> simp [referenceNodes, Node.truth, Node.falsity, Node.neutral]

theorem literal_mem_nodes (hf : f.Valid) (hpos : 0 < var) (hle : var ≤ f.numVars.toNat)
    (positive : Bool) : .literal var positive ∈ (graph f).nodes := by
  rw [nodes_graph hf]
  exact List.mem_append_left _
    (List.mem_append_right _ (literal_mem_variableNodes.2 ⟨hpos, hle⟩))

/-- **The colors of an assignment are always proper.** -/
theorem proper_painted (hr : r.Distinct) (ha : a.size = f.numVars.toNat) :
    Proper (graph f) (painted f r a) := by
  refine Graph.proper_paint_iff.2 fun b b' h heq => ?_
  have hhue : hue f a b = hue f a b' := hr.wear_injective heq
  rcases hasEdge_graph.1 h with he | he
  · exact hue_ne_of_mem_edges ha he hhue
  · exact hue_ne_of_mem_edges ha he hhue.symm

/-- **Those of a satisfying assignment are role colors.** -/
theorem agrees_painted (hf : f.Valid) (ha : a.size = f.numVars.toNat)
    (hsat : f.isSatisfiedBy a) : Agrees r a (painted f r a) where
  palette b color h := by
    have hb : b ∈ (graph f).nodes :=
      Graph.nodes_paint (graph f) _ ▸ Coloring.mem_nodes_of_get? h
    rw [painted, Graph.get?_paint hb, Option.some.injEq] at h
    rw [← h, nodeColor, ColorRoles.wear_mem_palette_iff]
    exact (hue_ne_none_iff hf).2 hsat b hb
  reference role := Graph.get?_paint (reference_mem_nodes hf role)
  literal var value h := by
    obtain ⟨hpos, hle⟩ := Assignment.range_of_get? h
    rw [ha] at hle
    rw [painted, Graph.get?_paint (literal_mem_nodes hf hpos hle _),
      Graph.get?_paint (literal_mem_nodes hf hpos hle _), nodeColor, nodeColor, hue, hue, h]
    cases value <;> exact ⟨rfl, rfl⟩

/-! ## From colorings to assignments -/

/-- **A disjunction passes on what its inputs agree on**: its output
wears the color of both inputs if they wear the same. -/
theorem role_or_eq_of_eq {x i j o : Reference} (hi : x ≠ i) (hj : x ≠ j) (hij : i ≠ j)
    (hio : i ≠ o) (hjo : j ≠ o) : o = x := by
  cases x <;> cases i <;> cases j <;> cases o <;> simp_all

/-- A node of the graph wears a role. -/
theorem exists_role (hc : Proper (graph f) c)
    (hpal : ∀ b color, c.get? b = some color → color ∈ r.palette) (hb : b ∈ (graph f).nodes) :
    ∃ role, c.get? b = some (r.color role) := by
  obtain ⟨color, hcolor⟩ := hc.colored b hb
  obtain ⟨role, rfl⟩ := ColorRoles.exists_color_of_mem_palette (hpal b color hcolor)
  exact ⟨role, hcolor⟩

theorem role_ne_of_mem_edges (hc : Proper (graph f) c) {x y : Reference}
    (he : (b, b') ∈ edges f) (hb : c.get? b = some (r.color x))
    (hb' : c.get? b' = some (r.color y)) : x ≠ y := by
  rintro rfl
  exact hc.distinct b b' (hasEdge_graph.2 (.inl he)) (hb.trans hb'.symm)

theorem Agrees.ofLiteral (h : Agrees r a c) {x : Literal} (hpos : 0 < x.var)
    (hle : x.var ≤ a.size) :
    c.get? (.ofLiteral x) = some (r.color (literalHue (a.holds x))) := by
  obtain ⟨value, hvalue⟩ := Assignment.get?_eq_some_of_le hpos hle
  have hlit := h.literal x.var value hvalue
  have hnode : Node.ofLiteral x = .literal x.var x.isPositive := rfl
  rw [hnode, Assignment.holds_eq, hvalue]
  cases x.isPositive
  · rw [hlit.2]
    cases value <;> rfl
  · rw [hlit.1]
    cases value <;> rfl

/-- **A gadget passes on what its literals agree on.** -/
theorem get?_or123_of_literals (hf : f.Valid) (hc : Proper (graph f) c)
    (hpal : ∀ b color, c.get? b = some color → color ∈ r.palette) (hk : f.clauses[k]? = some cl)
    {z : Reference} (hz : ∀ x ∈ cl.literals, c.get? (.ofLiteral x) = some (r.color z)) :
    c.get? (.auxiliary k .or123) = some (r.color z) := by
  have hrole := fun role => exists_role hc hpal (auxiliary_mem_nodes hf hk role)
  obtain ⟨in1, hin1⟩ := hrole .in1
  obtain ⟨in2, hin2⟩ := hrole .in2
  obtain ⟨or12, hor12⟩ := hrole .or12
  obtain ⟨in12, hin12⟩ := hrole .in12
  obtain ⟨in3, hin3⟩ := hrole .in3
  obtain ⟨or123, hor123⟩ := hrole .or123
  have hx₁ := hz cl.first (by simp [Clause.literals])
  have hx₂ := hz cl.second (by simp [Clause.literals])
  have hx₃ := hz cl.third (by simp [Clause.literals])
  have hne : ∀ {b b' x y}, (b, b') ∈ clauseEdges k cl → c.get? b = some (r.color x) →
      c.get? b' = some (r.color y) → x ≠ y := fun he =>
    role_ne_of_mem_edges hc (mem_edges_iff.2 (.inr (.inr ⟨k, cl, hk, he⟩)))
  have hfirst : or12 = z :=
    role_or_eq_of_eq (hne (by simp [clauseEdges]) hx₁ hin1) (hne (by simp [clauseEdges]) hx₂ hin2)
      (hne (by simp [clauseEdges]) hin1 hin2) (hne (by simp [clauseEdges]) hin1 hor12)
      (hne (by simp [clauseEdges]) hin2 hor12)
  subst hfirst
  have hsecond : or123 = or12 :=
    role_or_eq_of_eq (hne (by simp [clauseEdges]) hor12 hin12)
      (hne (by simp [clauseEdges]) hx₃ hin3) (hne (by simp [clauseEdges]) hin12 hin3)
      (hne (by simp [clauseEdges]) hin12 hor123) (hne (by simp [clauseEdges]) hin3 hor123)
  exact hsecond ▸ hor123

/-- **Soundness of the gadgets.** An assignment that a proper coloring
agrees with satisfies every clause. -/
theorem isSatisfiedBy_of_agrees (hf : f.Valid) (ha : a.size = f.numVars.toNat)
    (hc : Proper (graph f) c) (h : Agrees r a c) : f.isSatisfiedBy a := by
  refine Formula.isSatisfiedBy_iff.2 fun k cl hk => ?_
  by_contra hfalse
  have hliteral : ∀ x ∈ cl.literals, c.get? (.ofLiteral x) = some (r.color .falsity) := by
    intro x hx
    have hrange := hf.literal hk hx
    have hx' : a.holds x = false := by
      by_contra htrue
      exact hfalse (List.any_eq_true.2 ⟨x, hx, by simpa using htrue⟩)
    rw [h.ofLiteral hrange.1 (ha ▸ hrange.2), hx']
    rfl
  -- so the output is false, but it stands next to falsity
  have hout := get?_or123_of_literals hf hc h.palette hk hliteral
  have hedge : (.auxiliary k .or123, .falsity) ∈ edges f :=
    mem_edges_iff.2 (.inr (.inr ⟨k, cl, hk, by simp [clauseEdges]⟩))
  exact role_ne_of_mem_edges hc hedge hout (h.reference .falsity) rfl

/-- The assignment to `n` variables that is read off a coloring. -/
def read (r : ColorRoles) (c : Coloring Node) (n : Nat) : Assignment :=
  ⟨(List.range' 1 n).map fun var => c.get? (.literal var true) == some r.truth⟩

theorem size_read (r : ColorRoles) (c : Coloring Node) (n : Nat) :
    (read r c n).size = n := by
  simp [Assignment.size, read]

theorem get?_read {n : Nat} {value : Bool} (h : (read r c n).get? var = some value) :
    0 < var ∧ var ≤ n ∧ value = (c.get? (.literal var true) == some r.truth) := by
  obtain rfl | hpos := Nat.eq_zero_or_pos var
  · cases h
  · obtain ⟨i, rfl⟩ : ∃ i, var = i + 1 := ⟨var - 1, by omega⟩
    rw [Assignment.get?_succ, read, List.getElem?_map, Option.map_eq_some_iff] at h
    obtain ⟨_, hget, rfl⟩ := h
    obtain ⟨hlt, rfl⟩ := List.getElem?_eq_some_iff.1 hget
    rw [List.length_range'] at hlt
    refine ⟨by omega, by omega, ?_⟩
    rw [List.getElem_range']
    congr 3
    omega

/-- **A proper coloring in the role colors agrees with the assignment
read off it.** -/
theorem agrees_read (hf : f.Valid) (hr : r.Distinct) (hc : Proper (graph f) c)
    (hpal : ∀ b color, c.get? b = some color → color ∈ r.palette)
    (href : ∀ role, c.get? (.reference role) = some (r.color role)) :
    Agrees r (read r c f.numVars.toNat) c where
  palette := hpal
  reference := href
  literal var value h := by
    obtain ⟨hpos, hle, hvalue⟩ := get?_read h
    have hedge : ∀ e ∈ variableEdges var, e ∈ edges f :=
      fun e he => mem_edges_iff.2 (.inr (.inl ⟨var, hpos, hle, he⟩))
    obtain ⟨x, hx⟩ := exists_role hc hpal (literal_mem_nodes hf hpos hle true)
    obtain ⟨y, hy⟩ := exists_role hc hpal (literal_mem_nodes hf hpos hle false)
    have hneutral : c.get? .neutral = some (r.color .neutral) := href .neutral
    have hxy : x ≠ y := role_ne_of_mem_edges hc (hedge _ (by simp [variableEdges])) hx hy
    have hxn : x ≠ .neutral :=
      role_ne_of_mem_edges hc (hedge _ (by simp [variableEdges])) hx hneutral
    have hyn : y ≠ .neutral :=
      role_ne_of_mem_edges hc (hedge _ (by simp [variableEdges])) hy hneutral
    have htruth : value = decide (x = .truth) := by
      have hcolor : r.truth = r.color .truth := rfl
      rw [hvalue, hx, hcolor, Bool.eq_iff_iff, beq_iff_eq, Option.some.injEq,
        hr.color_injective.eq_iff, decide_eq_true_eq]
    rw [hx, hy, htruth]
    cases x <;> cases y <;> first | exact ⟨rfl, rfl⟩ | contradiction

/-! ## Three colors -/

/-- Roles whose colors part the edges of the reference triangle are three
different colors. -/
theorem distinct_of_hasEdge
    (h : ∀ x y, (graph f).hasEdge (.reference x) (.reference y) → r.color x ≠ r.color y) :
    r.Distinct := by
  refine ColorRoles.distinct_of_injective fun x y hxy => ?_
  by_contra hne
  exact h x y (hasEdge_reference hne) hxy

/-- The reference triangle of a proper coloring wears three different
colors. -/
theorem exists_roles (hf : f.Valid) (hc : Proper (graph f) c) :
    ∃ r : ColorRoles, r.Distinct ∧ ∀ role, c.get? (.reference role) = some (r.color role) := by
  obtain ⟨t, ht⟩ := hc.colored _ (reference_mem_nodes hf .truth)
  obtain ⟨u, hu⟩ := hc.colored _ (reference_mem_nodes hf .falsity)
  obtain ⟨n, hn⟩ := hc.colored _ (reference_mem_nodes hf .neutral)
  have href : ∀ role, c.get? (.reference role) = some (ColorRoles.color ⟨t, u, n⟩ role) := by
    intro role
    cases role
    · exact ht
    · exact hu
    · exact hn
  refine ⟨⟨t, u, n⟩, distinct_of_hasEdge (f := f) fun x y hxy heq => ?_, href⟩
  exact hc.distinct _ _ hxy (by rw [href, href, heq])

theorem palette_subset_colorsUsed
    (href : ∀ role, c.get? (.reference role) = some (r.color role)) : r.palette ⊆ c.colorsUsed := by
  intro color hcolor
  obtain ⟨role, rfl⟩ := ColorRoles.exists_color_of_mem_palette hcolor
  exact Coloring.mem_colorsUsed.2 ⟨_, href role⟩

/-- With three colors in all there is none but those of the triangle. -/
theorem mem_palette_of_colorsUsed (hr : r.Distinct)
    (href : ∀ role, c.get? (.reference role) = some (r.color role))
    (hcount : c.colorsUsed.length ≤ 3) {color : Color} (h : c.get? b = some color) :
    color ∈ r.palette := by
  have hperm : r.palette.Perm c.colorsUsed :=
    (hr.nodup_palette.subperm (palette_subset_colorsUsed href)).perm_of_length_le hcount
  exact hperm.mem_iff.2 (Coloring.mem_colorsUsed.2 ⟨b, h⟩)

theorem length_colorsUsed_le (hpal : ∀ b color, c.get? b = some color → color ∈ r.palette) :
    c.colorsUsed.length ≤ 3 :=
  Coloring.length_colorsUsed_le_of_get? hpal

theorem three_le_length_colorsUsed (hr : r.Distinct)
    (href : ∀ role, c.get? (.reference role) = some (r.color role)) : 3 ≤ c.colorsUsed.length :=
  (hr.nodup_palette.subperm (palette_subset_colorsUsed href)).length_le

/-- **Three colors are used exactly if all nodes wear role colors.** -/
theorem length_colorsUsed_eq_iff (hr : r.Distinct)
    (href : ∀ role, c.get? (.reference role) = some (r.color role)) :
    c.colorsUsed.length = 3 ↔ ∀ b color, c.get? b = some color → color ∈ r.palette :=
  ⟨fun h _ _ => mem_palette_of_colorsUsed hr href h.le,
    fun h => (length_colorsUsed_le h).antisymm (three_le_length_colorsUsed hr href)⟩

/-- In a coloring in the role colors these are the colors in use. -/
theorem RoleColored.mem_colorsUsed_iff (h : RoleColored f r c) {color : Color} :
    color ∈ c.colorsUsed ↔ color ∈ r.palette := by
  refine ⟨fun hused => ?_, fun hpal => palette_subset_colorsUsed h.reference hpal⟩
  obtain ⟨b, hb⟩ := Coloring.mem_colorsUsed.1 hused
  exact h.palette b color hb

/-- A formula whose graph has a proper coloring with three colors has a
model. -/
theorem exists_isSatisfiedBy_of_colorsUsed (hf : f.Valid) (hc : Proper (graph f) c)
    (hcount : c.colorsUsed.length ≤ 3) :
    ∃ a : Assignment, a.size = f.numVars.toNat ∧ f.isSatisfiedBy a := by
  obtain ⟨r, hr, href⟩ := exists_roles hf hc
  have hagrees := agrees_read hf hr hc (fun _ _ => mem_palette_of_colorsUsed hr href hcount) href
  have hread := size_read r c f.numVars.toNat
  exact ⟨_, hread, isSatisfiedBy_of_agrees hf hread hc hagrees⟩

/-- **The reduction is correct for each assignment**, and so the graph of
a formula has a 3-coloring exactly if the formula has a model. -/
theorem build_colorable_iff (hf : f.validate = .ok ()) :
    ∃ g, build f = .ok g ∧
      (∀ r : ColorRoles, r.Distinct → ∀ a : Assignment, a.size = f.numVars.toNat →
        ((∃ c, c.nodes.Perm g.nodes ∧ Proper g c ∧ Agrees r a c) ↔ f.isSatisfiedBy a)) ∧
      ((∃ c, c.nodes.Perm g.nodes ∧ Proper g c ∧ c.colorsUsed.length ≤ 3) ↔
        ∃ a : Assignment, a.size = f.numVars.toNat ∧ f.isSatisfiedBy a) := by
  have hvalid := Formula.validate_eq_ok_iff.1 hf
  have hnodes : ∀ r a, (painted f r a).nodes.Perm (graph f).nodes := fun r a =>
    .of_eq (Graph.nodes_paint _ _)
  refine ⟨graph f, build_eq_ok hvalid, fun r hr a ha => ⟨?_, fun hsat => ?_⟩, ?_, ?_⟩
  · rintro ⟨c, -, hc, hagrees⟩
    exact isSatisfiedBy_of_agrees hvalid ha hc hagrees
  · exact ⟨_, hnodes r a, proper_painted hr ha, agrees_painted hvalid ha hsat⟩
  · rintro ⟨c, -, hc, hcount⟩
    exact exists_isSatisfiedBy_of_colorsUsed hvalid hc hcount
  · rintro ⟨a, ha, hsat⟩
    have hr : ColorRoles.standard.Distinct := ⟨by decide, by decide, by decide⟩
    exact ⟨_, hnodes _ a, proper_painted hr ha,
      length_colorsUsed_le (agrees_painted hvalid ha hsat).palette⟩

/-- The clauses `1 ∨ 1 ∨ 1` and `1 ∨ -1 ∨ 2`: only variable 1 matters. -/
theorem build_colorable_iff_repeated :
    ∃ g, build ⟨2, [⟨1, 1, 1⟩, ⟨1, -1, 2⟩]⟩ = .ok g ∧
      (∃ c, c.nodes.Perm g.nodes ∧ Proper g c ∧ Agrees .standard ⟨[true, false]⟩ c) ∧
      ¬ ∃ c, c.nodes.Perm g.nodes ∧ Proper g c ∧ Agrees .standard ⟨[false, true]⟩ c := by
  obtain ⟨g, hg, hiff, -⟩ := build_colorable_iff (f := ⟨2, [⟨1, 1, 1⟩, ⟨1, -1, 2⟩]⟩) (by decide)
  have hr : ColorRoles.standard.Distinct := ⟨by decide, by decide, by decide⟩
  refine ⟨g, hg, (hiff _ hr ⟨[true, false]⟩ (by decide)).2 (by decide), fun h => ?_⟩
  exact absurd ((hiff _ hr ⟨[false, true]⟩ (by decide)).1 h) (by decide)

end Gadget

end Tricolor
