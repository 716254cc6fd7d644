import Tricolor.Coloring.Dsatur
import Tricolor.Proofs.Coloring.Agenda
import Tricolor.Proofs.Coloring.Greedy

/-!
# The bookkeeping follows the greedy rule

The state of a run knows the color of every position (`Assigns`), lists
for every open position the colors worn around it (`Heard`), and its
agenda lists the open positions by rank (`Listed`). Assigning a color and
telling the neighbors of it keeps all three up to date, so the head of the
agenda is the node that the greedy rule picks, and no step looks at a rank
that is out of date. A run ends where a greedy run ends that leaves no
node open, and has no result exactly if that run gets stuck
(`dsaturWithStats?_cases`).
-/

namespace Tricolor

namespace DsaturState

variable {α : Type} {g : Graph α} {adj : Adjacency} {s s' : DsaturState α} {color : Color}
variable {i j : Nat} {js opens : List Nat}

/-! ## Telling the neighbors -/

/-- Some positions have been told of a color: the open ones among them
have it on their lists, those of other open positions are as before, and
but for lists and agenda so is the state. -/
structure Told (color : Color) (js : List Nat) (s s' : DsaturState α) : Prop where
  assigned : s'.assigned = s.assigned
  coloring : s'.coloring = s.coloring
  selections : s'.selections = s.selections
  size : s'.taken.size = s.taken.size
  takenAt : ∀ i, ¬ s.isAssigned i →
    s'.takenAt i = if i ∈ js then (s.takenAt i).insert color else s.takenAt i

theorem Told.isAssigned (h : Told color js s s') (i : Nat) : s'.isAssigned i = s.isAssigned i := by
  rw [DsaturState.isAssigned, h.assigned, DsaturState.isAssigned]

theorem Told.nil (color : Color) (s : DsaturState α) : Told color [] s s :=
  ⟨rfl, rfl, rfl, rfl, fun _ _ => rfl⟩

theorem Told.cons {s'' : DsaturState α} (h : Told color [j] s s') (h' : Told color js s' s'')
    (hj : j ∉ js) : Told color (j :: js) s s'' where
  assigned := h'.assigned.trans h.assigned
  coloring := h'.coloring.trans h.coloring
  selections := h'.selections.trans h.selections
  size := h'.size.trans h.size
  takenAt i hi := by
    rw [h'.takenAt i (h.isAssigned i ▸ hi), h.takenAt i hi]
    by_cases hij : i = j
    · subst hij
      rw [if_neg hj, if_pos List.mem_cons_self, if_pos List.mem_cons_self]
    · simp only [List.mem_cons, List.not_mem_nil, hij, false_or, if_false]

theorem told_hear (color : Color) (hj : j < s.taken.size) : Told color [j] s (s.hear color j) where
  assigned := rfl
  coloring := rfl
  selections := rfl
  size := Array.size_modify
  takenAt i _ := by
    simp only [hear, DsaturState.takenAt, Array.getElem?_modify, List.mem_singleton]
    by_cases hij : i = j
    · subst hij
      rw [if_pos rfl, if_pos rfl, Array.getElem?_eq_getElem hj]
      rfl
    · rw [if_neg (Ne.symm hij), if_neg hij]

/-- The agenda lists the given positions by rank. -/
abbrev Listed (adj : Adjacency) (opens : List Nat) (s : DsaturState α) : Prop :=
  Agenda.Lists (s.rank adj) opens s.agenda

theorem told_notice (adj : Adjacency) (color : Color) (hj : j < s.taken.size) :
    Told color [j] s (s.notice adj color j) := by
  rw [notice]
  split
  · rename_i hassigned
    refine ⟨rfl, rfl, rfl, rfl, fun i hi => ?_⟩
    rw [if_neg]
    rintro hij
    exact hi (List.mem_singleton.1 hij ▸ hassigned)
  · split
    · rename_i hmem
      refine ⟨rfl, rfl, rfl, rfl, fun i _ => ?_⟩
      split
      · rename_i hij
        obtain rfl := List.mem_singleton.1 hij
        rw [List.insert_of_mem (List.contains_iff_mem.1 hmem)]
      · rfl
    · have htold := told_hear (s := s) color hj
      exact ⟨rfl, rfl, rfl, htold.size, htold.takenAt⟩

/-- **An open position that notices a color** moves to its place among the
others, and a position with a color does nothing. -/
theorem listed_notice (color : Color) (h : Listed adj opens s) (hnodup : opens.Nodup)
    (hj : ¬ s.isAssigned j → j ∈ opens) : Listed adj opens (s.notice adj color j) := by
  rw [notice]
  split
  · exact h
  · rename_i hopen
    split
    · exact h
    · refine Agenda.Lists.move h hnodup (fun _ => rfl) rfl (fun i hi => ?_) (hj hopen)
      simp only [rank, DsaturState.takenAt, hear, Array.getElem?_modify, if_neg (Ne.symm hi)]

theorem told_foldl_hear (color : Color) (hnodup : js.Nodup) (hlt : ∀ j ∈ js, j < s.taken.size) :
    Told color js s (js.foldl (hear color) s) := by
  induction js generalizing s with
  | nil => exact .nil color s
  | cons j js ih =>
    obtain ⟨hj, hnodup⟩ := List.nodup_cons.1 hnodup
    have htold := told_hear (s := s) color (hlt j (.head js))
    refine htold.cons (ih hnodup fun i hi => ?_) hj
    rw [htold.size]
    exact hlt i (.tail j hi)

theorem told_foldl_notice (adj : Adjacency) (color : Color) (hnodup : js.Nodup)
    (hlt : ∀ j ∈ js, j < s.taken.size) : Told color js s (js.foldl (notice adj color) s) := by
  induction js generalizing s with
  | nil => exact .nil color s
  | cons j js ih =>
    obtain ⟨hj, hnodup⟩ := List.nodup_cons.1 hnodup
    have htold := told_notice adj color (hlt j (.head js))
    refine htold.cons (ih hnodup fun i hi => ?_) hj
    rw [htold.size]
    exact hlt i (.tail j hi)

theorem listed_foldl_notice (color : Color) (h : Listed adj opens s) (hopens : opens.Nodup)
    (hlt : ∀ j ∈ js, j < s.taken.size) (hopen : ∀ j ∈ js, ¬ s.isAssigned j → j ∈ opens) :
    Listed adj opens (js.foldl (notice adj color) s) := by
  induction js generalizing s with
  | nil => exact h
  | cons j js ih =>
    have htold := told_notice adj color (hlt j (.head js))
    refine ih (listed_notice color h hopens (hopen j (.head js))) (fun i hi => ?_)
      fun i hi hi' => ?_
    · rw [htold.size]
      exact hlt i (.tail j hi)
    · rw [htold.isAssigned] at hi'
      exact hopen i (.tail j hi) hi'

/-! ## What positions have heard -/

/-- Every open position lists, each once, the colors of the linked
positions. -/
structure Heard (g : Graph α) (s : DsaturState α) : Prop where
  size_assigned : s.assigned.size = g.nodeCount
  size_taken : s.taken.size = g.nodeCount
  nodup : ∀ i, ¬ s.isAssigned i → (s.takenAt i).Nodup
  mem : ∀ i, i < g.nodeCount → ¬ s.isAssigned i → ∀ color,
    color ∈ s.takenAt i ↔ ∃ j, g.Linked i j ∧ s.assigned[j]?.join = some color

theorem assigned_assign (hi : i < s.assigned.size) :
    (s.assign i color).assigned[j]?.join = if j = i then some color else s.assigned[j]?.join := by
  rw [assign, Array.getElem?_setIfInBounds]
  by_cases hj : i = j
  · rw [if_pos hj, if_pos hi, if_pos hj.symm]
    rfl
  · rw [if_neg hj, if_neg (Ne.symm hj)]

theorem isAssigned_iff : s.isAssigned i ↔ ∃ color, s.assigned[i]?.join = some color :=
  Option.isSome_iff_exists

theorem not_isAssigned_iff : ¬ s.isAssigned i ↔ s.assigned[i]?.join = none := by
  rw [isAssigned, Option.not_isSome_iff_eq_none]

/-- **Assigning a color.** Once its neighbors are told, the lists are up
to date again. -/
theorem Heard.assign (h : Heard g s) (hi : i < g.nodeCount) (hopen : ¬ s.isAssigned i)
    (hassigned : s'.assigned = (s.assign i color).assigned)
    (hsize : s'.taken.size = s.taken.size)
    (htaken : ∀ j, ¬ s'.isAssigned j → s'.takenAt j =
      if j ∈ g.neighborIndices i then (s.takenAt j).insert color else s.takenAt j) :
    Heard g s' := by
  have hassign (j : Nat) : s'.assigned[j]?.join =
      if j = i then some color else s.assigned[j]?.join := by
    rw [hassigned]
    exact assigned_assign (h.size_assigned ▸ hi)
  have hopen' (j : Nat) (hj : ¬ s'.isAssigned j) : ¬ s.isAssigned j := by
    rw [not_isAssigned_iff, hassign] at hj
    rw [not_isAssigned_iff]
    split at hj
    · cases hj
    · exact hj
  refine ⟨?_, hsize.trans h.size_taken, fun j hj => ?_, fun j hlt hj color' => ?_⟩
  · rw [hassigned, DsaturState.assign, Array.size_setIfInBounds]
    exact h.size_assigned
  · rw [htaken j hj]
    split
    · exact (h.nodup j (hopen' j hj)).insert
    · exact h.nodup j (hopen' j hj)
  · have hmem : color' ∈ s'.takenAt j ↔
        (g.Linked j i ∧ color' = color) ∨ color' ∈ s.takenAt j := by
      rw [htaken j hj]
      split
      · rename_i hij
        rw [List.mem_insert_iff, and_iff_right (Graph.mem_neighborIndices.1 hij).symm]
      · rename_i hij
        rw [or_iff_right fun hji => hij (Graph.mem_neighborIndices.2 hji.1.symm)]
    rw [hmem, h.mem j hlt (hopen' j hj)]
    constructor
    · rintro (⟨hji, rfl⟩ | ⟨k, hjk, hk⟩)
      · exact ⟨i, hji, by rw [hassign, if_pos rfl]⟩
      · refine ⟨k, hjk, ?_⟩
        rwa [hassign, if_neg]
        rintro rfl
        exact hopen (isAssigned_iff.2 ⟨color', hk⟩)
    · rintro ⟨k, hjk, hk⟩
      rw [hassign] at hk
      split at hk
      · rename_i hki
        exact .inl ⟨hki ▸ hjk, (Option.some.inj hk).symm⟩
      · exact .inr ⟨k, hjk, hk⟩

/-! ## Open positions -/

variable [DecidableEq α] {c : Coloring α} {a b : α} {palette : List Color}

/-- The positions without a color, in ascending order. -/
def openPositions (g : Graph α) (c : Coloring α) : List Nat :=
  (List.range g.nodeCount).filter fun i => (g.node? i).any (!c.contains ·)

theorem mem_openPositions (ha : g.node? i = some a) :
    i ∈ openPositions g c ↔ c.get? a = none := by
  simp [openPositions, ha, Graph.lt_nodeCount_of_node? ha, Coloring.contains]

theorem exists_of_mem_openPositions (h : i ∈ openPositions g c) :
    ∃ a, g.node? i = some a ∧ c.get? a = none := by
  obtain ⟨a, ha⟩ :=
    Graph.exists_node?_of_lt (List.mem_range.1 (List.mem_filter.1 h).1)
  exact ⟨a, ha, (mem_openPositions ha).1 h⟩

theorem nodup_openPositions (g : Graph α) (c : Coloring α) : (openPositions g c).Nodup :=
  List.nodup_range.filter _

/-- Coloring a node takes its position from the open ones. -/
theorem perm_openPositions (ha : g.node? i = some a) (hopen : c.get? a = none) (color : Color) :
    (openPositions g c).Perm (i :: openPositions g (c.insert a color)) := by
  have hnot : i ∉ openPositions g (c.insert a color) := by
    rw [mem_openPositions ha, Coloring.get?_insert_self]
    exact Option.some_ne_none color
  refine (List.perm_ext_iff_of_nodup (nodup_openPositions g c)
    (List.nodup_cons.2 ⟨hnot, nodup_openPositions g _⟩)).2 fun j => ?_
  rw [List.mem_cons]
  by_cases hj : j = i
  · simp only [hj, true_or, iff_true]
    exact (mem_openPositions ha).2 hopen
  · -- at any other position nothing has changed
    simp only [hj, false_or]
    have hsame : ∀ b, g.node? j = some b → (c.insert a color).get? b = c.get? b := by
      intro b hb
      refine Coloring.get?_insert_of_ne fun hba => hj ?_
      exact Graph.node?_injective (hba ▸ hb) ha
    constructor
    · intro h
      obtain ⟨b, hb, hb'⟩ := exists_of_mem_openPositions h
      exact (mem_openPositions hb).2 ((hsame b hb).trans hb')
    · intro h
      obtain ⟨b, hb, hb'⟩ := exists_of_mem_openPositions h
      exact (mem_openPositions hb).2 ((hsame b hb).symm.trans hb')

/-- The state knows which node wears which color. -/
def Assigns (g : Graph α) (color? : α → Option Color) (s : DsaturState α) : Prop :=
  ∀ i, s.assigned[i]?.join = (g.node? i).bind color?

omit [DecidableEq α] in
theorem Assigns.eq_of_node? {color? : α → Option Color} (h : Assigns g color? s)
    (ha : g.node? i = some a) : s.assigned[i]?.join = color? a := by
  rw [h, ha, Option.bind_some]

theorem Assigns.not_isAssigned_iff (h : Assigns g c.get? s) (ha : g.node? i = some a) :
    ¬ s.isAssigned i ↔ c.get? a = none := by
  rw [DsaturState.not_isAssigned_iff, h.eq_of_node? ha]

/-- The positions without a color are those whose nodes have none. -/
theorem Assigns.filter_range (h : Assigns g c.get? s) :
    (List.range g.nodeCount).filter (!s.isAssigned ·) = openPositions g c := by
  refine List.filter_congr fun i hi => ?_
  obtain ⟨a, ha⟩ := Graph.exists_node?_of_lt (List.mem_range.1 hi)
  rw [isAssigned, h.eq_of_node? ha, ha]
  rfl

/-- What is listed at an open position are the colors around its node. -/
theorem Heard.mem_takenAt (h : Heard g s) (hc : Assigns g c.get? s) (ha : g.node? i = some a)
    (hopen : c.get? a = none) : color ∈ s.takenAt i ↔ color ∈ Greedy.around g c a := by
  rw [h.mem i (Graph.lt_nodeCount_of_node? ha) ((hc.not_isAssigned_iff ha).2 hopen),
    Greedy.mem_around]
  constructor
  · rintro ⟨j, hij, hj⟩
    obtain ⟨b, hb⟩ := Graph.exists_node?_of_lt hij.lt.2
    rw [hc.eq_of_node? hb] at hj
    exact ⟨b, (Graph.hasEdge_iff_linked ha hb).2 hij, hj⟩
  · rintro ⟨b, hab, hb⟩
    obtain ⟨j, hj⟩ := Graph.mem_nodes_iff.1 (Graph.mem_nodes_of_hasEdge hab).2
    exact ⟨j, (Graph.hasEdge_iff_linked ha hj).1 hab, (hc.eq_of_node? hj).trans hb⟩

/-- **The ranks kept are those of the greedy rule.** -/
theorem Heard.rank_eq (h : Heard g s) (hc : Assigns g c.get? s) (ha : g.node? i = some a)
    (hopen : c.get? a = none) : s.rank g.adjacency i = Greedy.rank g c a := by
  have hlength : (s.takenAt i).length = (Greedy.around g c a).length :=
    ((List.perm_ext_iff_of_nodup (h.nodup i ((hc.not_isAssigned_iff ha).2 hopen))
      (Greedy.nodup_around g c a)).2 fun _ => h.mem_takenAt hc ha hopen).length_eq
  rw [rank, Greedy.rank, hlength, Graph.degree_adjacency, Graph.degreeAt_eq_length_neighbors ha,
    Graph.position_eq_of_node? ha]

/-! ## Planting the seed -/

/-- A node gets its color. -/
theorem Assigns.assign {color? : α → Option Color} (h : Assigns g color? s)
    (hsize : s.assigned.size = g.nodeCount) (ha : g.node? i = some a)
    (hassigned : s'.assigned = (s.assign i color).assigned) :
    Assigns g (fun b => if b = a then some color else color? b) s' := by
  intro j
  have hi := Graph.lt_nodeCount_of_node? ha
  rw [hassigned, assigned_assign (hsize ▸ hi), h j]
  cases hb : g.node? j with
  | none =>
    rw [if_neg]
    · rfl
    · rintro rfl
      rw [ha] at hb
      cases hb
  | some b =>
    have hiff : j = i ↔ b = a := by
      constructor
      · rintro rfl
        exact Option.some.inj (hb.symm.trans ha)
      · rintro rfl
        exact Graph.node?_injective hb ha
    simp only [Option.bind_some, hiff]

theorem told_plant (ha : g.node? i = some a) (hsize : s.taken.size = g.nodeCount) :
    Told color (g.neighborIndices i) (s.assign i color) (s.plant g g.adjacency (a, color)) := by
  have hlt : ∀ j ∈ g.neighborIndices i, j < (s.assign i color).taken.size :=
    fun j hj => hsize ▸ (Graph.mem_neighborIndices.1 hj).lt.2
  simp only [plant, Graph.indexOf?_eq_some_iff.2 ha, Graph.neighbors_adjacency]
  exact told_foldl_hear color (g.nodup_neighborIndices i) hlt

/-- Planting the entries of a seed one after the other, each at a node
that has no color yet. -/
theorem foldl_plant (entries : List (α × Color)) {color? : α → Option Color} (h : Heard g s)
    (hc : Assigns g color? s) (hnodup : (entries.map Prod.fst).Nodup)
    (hnew : ∀ e ∈ entries, color? e.1 = none) :
    ∃ s', entries.foldl (plant g g.adjacency) s = s' ∧ Heard g s' ∧
      Assigns g (fun a => (entries.lookup a).or (color? a)) s' ∧
      s'.coloring = s.coloring ∧ s'.selections = s.selections := by
  induction entries generalizing s color? with
  | nil => exact ⟨s, rfl, h, hc, rfl, rfl⟩
  | cons e entries ih =>
    obtain ⟨a, color⟩ := e
    obtain ⟨ha, hnodup⟩ := List.nodup_cons.1 hnodup
    have hother : ∀ e ∈ entries, e.1 ≠ a := by
      rintro e he rfl
      exact ha (List.mem_map.2 ⟨e, he, rfl⟩)
    have hopen : color? a = none := hnew (a, color) (.head entries)
    rw [List.foldl_cons]
    cases hi : g.indexOf? a with
    | none =>
      -- a node that the graph lacks is passed over
      have hskip : s.plant g g.adjacency (a, color) = s := by simp only [plant, hi]
      obtain ⟨s', hs', hheard, hassigns, hrest⟩ :=
        ih h hc hnodup fun e he => hnew e (.tail _ he)
      rw [hskip]
      refine ⟨s', hs', hheard, fun j => (hassigns j).trans ?_, hrest⟩
      cases hb : g.node? j with
      | none => rfl
      | some b =>
        have hba : b ≠ a := by
          rintro rfl
          exact Graph.indexOf?_eq_none_iff.1 hi (Graph.mem_nodes_iff.2 ⟨j, hb⟩)
        simp only [Option.bind_some, List.lookup_cons, beq_eq_false_iff_ne.2 hba]
    | some i =>
      rw [Graph.indexOf?_eq_some_iff] at hi
      have htold : Told color _ (s.assign i color) (s.plant g g.adjacency (a, color)) :=
        told_plant hi h.size_taken
      have hassigns := hc.assign h.size_assigned hi htold.assigned
      have hheard := h.assign (Graph.lt_nodeCount_of_node? hi)
        ((DsaturState.not_isAssigned_iff).2 ((hc.eq_of_node? hi).trans hopen)) htold.assigned
        htold.size fun j hj => htold.takenAt j (htold.isAssigned j ▸ hj)
      obtain ⟨s', hs', hheard', hassigns', hcoloring, hselections⟩ :=
        ih hheard hassigns hnodup fun e he => by
          rw [if_neg (hother e he)]
          exact hnew e (.tail _ he)
      refine ⟨s', hs', hheard', fun j => (hassigns' j).trans ?_, hcoloring.trans htold.coloring,
        hselections.trans htold.selections⟩
      cases g.node? j with
      | none => rfl
      | some b =>
        simp only [Option.bind_some, List.lookup_cons]
        by_cases hba : b = a
        · subst hba
          rw [List.lookup_eq_none_iff.2 fun e he => ?_, beq_self_eq_true, if_pos rfl]
          · rfl
          · exact bne_iff_ne.2 (hother e he).symm
        · rw [beq_eq_false_iff_ne.2 hba, if_neg hba]

/-! ## Following the greedy rule -/

/-- A state whose bookkeeping is that of its coloring. -/
structure Tracks (g : Graph α) (s : DsaturState α) : Prop where
  assigns : Assigns g s.coloring.get? s
  heard : Heard g s
  listed : Listed g.adjacency (openPositions g s.coloring) s

/-- **The run starts from the seed.** -/
theorem start_spec (g : Graph α) (seed : Coloring α) :
    Tracks g (start g g.adjacency seed) ∧ (start g g.adjacency seed).coloring = seed ∧
      (start g g.adjacency seed).selections = 0 := by
  generalize hblank : DsaturState.mk (Array.replicate g.nodeCount none)
    (Array.replicate g.nodeCount []) [] seed 0 = blank
  have hassigned (i : Nat) : blank.assigned[i]?.join = none := by
    simp only [← hblank, Array.getElem?_replicate]
    split <;> rfl
  have htaken (i : Nat) : blank.takenAt i = [] := by
    simp only [← hblank, takenAt, Array.getElem?_replicate]
    split <;> rfl
  have hheard : Heard g blank := by
    refine ⟨?_, ?_, fun i _ => ?_, fun i _ _ color => ?_⟩
    · simp [← hblank]
    · simp [← hblank]
    · simp [htaken]
    · simp [htaken, hassigned]
  have hassigns : Assigns g (fun _ => none) blank := by
    intro i
    rw [hassigned]
    cases g.node? i <;> rfl
  obtain ⟨s, hs, hheard, hassigns, hcoloring, hselections⟩ :=
    foldl_plant seed.entries hheard hassigns seed.entries_nodup fun _ _ => rfl
  simp only [Option.or_none] at hassigns
  have hassigns : Assigns g seed.get? s := hassigns
  have hstart : start g g.adjacency seed =
      { s with agenda := .ofList ((openPositions g seed).map (s.rank g.adjacency)) } := by
    simp only [start, hblank, hs, hassigns.filter_range]
  have hnodes : ((openPositions g seed).map (s.rank g.adjacency)).map Rank.node =
      openPositions g seed := by
    rw [List.map_map]
    exact List.map_id _
  rw [← hblank] at hcoloring hselections
  rw [hstart]
  refine ⟨⟨?_, ⟨hheard.size_assigned, hheard.size_taken, hheard.nodup, hheard.mem⟩, ?_⟩, hcoloring,
    hselections⟩
  · simp only [hcoloring]
    exact hassigns
  · simp only [hcoloring]
    obtain ⟨hsorted, hperm⟩ := Agenda.sorted_ofList (hnodes ▸ nodup_openPositions g seed)
    exact ⟨hsorted, hperm⟩

/-- The rank that heads the agenda is that of the next node. -/
theorem Tracks.isNext (h : Tracks g s) {r : Rank} {rest : Agenda} (hagenda : s.agenda = r :: rest) :
    ∃ i a, r = s.rank g.adjacency i ∧ g.node? i = some a ∧ Greedy.IsNext g s.coloring a := by
  have hperm := h.listed.perm
  have hsorted := h.listed.sorted
  rw [hagenda] at hperm hsorted
  obtain ⟨i, hi, rfl⟩ := List.mem_map.1 (hperm.subset (.head rest))
  obtain ⟨a, ha, hopen⟩ := exists_of_mem_openPositions hi
  refine ⟨i, a, rfl, ha, Graph.mem_nodes_iff.2 ⟨i, ha⟩, hopen, fun b hb hbopen hba => ?_⟩
  obtain ⟨j, hj⟩ := Graph.mem_nodes_iff.1 hb
  -- every other open node has its rank on the rest of the agenda
  have hmem := hperm.symm.subset (List.mem_map_of_mem ((mem_openPositions hj).2 hbopen))
  rw [← h.heard.rank_eq h.assigns ha hopen, ← h.heard.rank_eq h.assigns hj hbopen]
  refine List.rel_of_pairwise_cons hsorted ((List.mem_cons.1 hmem).resolve_left fun heq => hba ?_)
  have hji : j = i := congrArg Rank.node heq
  rw [hji, ha] at hj
  exact (Option.some.inj hj).symm

/-- **Selecting the next node** keeps the bookkeeping up to date, and
takes one rank off the agenda. -/
theorem Tracks.select (h : Tracks g s) {rest : Agenda}
    (hagenda : s.agenda = s.rank g.adjacency i :: rest) (ha : g.node? i = some a)
    (hopen : s.coloring.get? a = none) (color : Color) :
    ∃ s', select g g.adjacency i color { s with agenda := rest } = s' ∧ Tracks g s' ∧
      s'.coloring = s.coloring.insert a color ∧ s'.selections = s.selections + 1 ∧
      s'.agenda.length = rest.length := by
  generalize htake : DsaturState.mk (s.assign i color).assigned s.taken rest
    (s.coloring.insert a color) (s.selections + 1) = t
  have hselect : DsaturState.select g g.adjacency i color { s with agenda := rest } =
      (g.neighborIndices i).foldl (notice g.adjacency color) t := by
    simp only [DsaturState.select, ha, Graph.neighbors_adjacency, ← htake]
    rfl
  have hi := Graph.lt_nodeCount_of_node? ha
  have hassigns : Assigns g (s.coloring.insert a color).get? t := by
    have hassigned : t.assigned = (s.assign i color).assigned := by rw [← htake]
    intro j
    rw [h.assigns.assign h.heard.size_assigned ha hassigned]
    simp only [Coloring.get?_insert]
  have hopens := perm_openPositions ha hopen color
  have hlisted : Listed g.adjacency (openPositions g (s.coloring.insert a color)) t := by
    have hperm := h.listed.perm.trans (hopens.map _)
    have hsorted := h.listed.sorted
    rw [hagenda] at hperm hsorted
    rw [← htake]
    exact ⟨(List.pairwise_cons.1 hsorted).2, hperm.cons_inv⟩
  have hlt : ∀ j ∈ g.neighborIndices i, j < t.taken.size := fun j hj => by
    rw [← htake]
    exact h.heard.size_taken ▸ (Graph.mem_neighborIndices.1 hj).lt.2
  have htold := told_foldl_notice g.adjacency color (g.nodup_neighborIndices i) hlt
  have hlisted' := listed_foldl_notice color hlisted (nodup_openPositions g _) hlt
    fun j hj hj' => by
      obtain ⟨b, hb⟩ := Graph.exists_node?_of_lt (Graph.mem_neighborIndices.1 hj).lt.2
      exact (mem_openPositions hb).2 ((hassigns.not_isAssigned_iff hb).1 hj')
  generalize (g.neighborIndices i).foldl (notice g.adjacency color) t = s' at *
  have hcoloring : s'.coloring = s.coloring.insert a color := by rw [htold.coloring, ← htake]
  refine ⟨s', hselect, ⟨?_, ?_, hcoloring ▸ hlisted'⟩, hcoloring, ?_, ?_⟩
  · intro j
    rw [htold.assigned, hcoloring, hassigns j]
  · have hassigned : s'.assigned = (s.assign i color).assigned := by rw [htold.assigned, ← htake]
    refine h.heard.assign hi ((h.assigns.not_isAssigned_iff ha).2 hopen) hassigned ?_ fun j hj => ?_
    · rw [htold.size, ← htake]
    · rw [htold.takenAt j (htold.isAssigned j ▸ hj), ← htake]
      rfl
  · rw [htold.selections, ← htake]
  · have hrest := hlisted.perm.length_eq
    rw [← htake] at hrest
    rw [hlisted'.perm.length_eq, List.length_map, ← List.length_map, ← hrest]

/-- **A step follows the greedy rule.** It colors the next node and takes
its rank off the agenda, or finds the run stuck. -/
theorem Tracks.step (h : Tracks g s) (palette : List Color) {r : Rank} {rest : Agenda}
    (hagenda : s.agenda = r :: rest) :
    (s.step g g.adjacency palette = none ∧ Greedy.Stuck g s.coloring) ∨
      ∃ s', s.step g g.adjacency palette = some s' ∧
        Greedy.Step g palette s.coloring s'.coloring ∧ Tracks g s' ∧
        s'.selections = s.selections + 1 ∧ s'.agenda.length = rest.length := by
  obtain ⟨i, a, rfl, ha, hnext⟩ := h.isNext hagenda
  have hfit : firstFit (s.takenAt i) palette = Greedy.fit g palette s.coloring a :=
    firstFit_congr fun _ => h.heard.mem_takenAt h.assigns ha hnext.isOpen
  have hnode : (s.rank g.adjacency i).node = i := rfl
  rw [DsaturState.step, hagenda]
  simp only [hnode, hfit]
  cases hcolor : Greedy.fit g palette s.coloring a with
  | none => exact .inl ⟨rfl, a, hnext, Greedy.fit_eq_none_iff.1 hcolor⟩
  | some color =>
    obtain ⟨s', hs', htracks, hcoloring, hselections, hlength⟩ :=
      h.select hagenda ha hnext.isOpen color
    exact .inr ⟨s', congrArg some hs', hcoloring ▸ .color hnext hcolor, htracks, hselections,
      hlength⟩

/-- **A run follows the greedy rule to its end**: it gets stuck, or comes
to a state whose agenda is empty and whose coloring leaves no node
open. -/
theorem Tracks.complete (h : Tracks g s) (palette : List Color) :
    (s.complete g g.adjacency palette = none ∧
        ∃ c, Greedy.Run g palette s.coloring c ∧ Greedy.Stuck g c) ∨
      ∃ s', s.complete g g.adjacency palette = some s' ∧
        Greedy.Run g palette s.coloring s'.coloring ∧ s'.agenda = [] ∧
        (∀ a ∈ g.nodes, s'.coloring.get? a ≠ none) ∧
        s'.selections = s.selections + (openPositions g s.coloring).length := by
  have hlength := h.listed.perm.length_eq
  rw [List.length_map] at hlength
  rw [DsaturState.complete, ← hlength]
  -- each step takes one rank off the agenda
  generalize hn : s.agenda.length = n
  clear hlength
  induction n generalizing s with
  | zero =>
    have hnil := List.eq_nil_of_length_eq_zero hn
    refine .inr ⟨s, rfl, .refl, hnil, fun a ha hopen => ?_, rfl⟩
    obtain ⟨i, hi⟩ := Graph.mem_nodes_iff.1 ha
    have hmem := h.listed.perm.symm.subset (List.mem_map_of_mem ((mem_openPositions hi).2 hopen))
    rw [hnil] at hmem
    exact absurd hmem List.not_mem_nil
  | succ n ih =>
    obtain ⟨r, rest, hagenda⟩ := List.exists_cons_of_length_eq_add_one hn
    rw [run]
    rcases h.step palette hagenda with
      ⟨hnone, hstuck⟩ | ⟨s₁, hsome, hstep, htracks, hselections, hlength⟩
    · exact .inl ⟨by rw [hnone], s.coloring, .refl, hstuck⟩
    · rw [hagenda, List.length_cons, Nat.add_right_cancel_iff] at hn
      rw [hsome]
      rcases ih htracks (hlength.trans hn) with
        ⟨hnone, c, hrun, hstuck⟩ | ⟨s', hs', hrun, hnil, hall, hselections'⟩
      · exact .inl ⟨hnone, c, .head hstep hrun, hstuck⟩
      · refine .inr ⟨s', hs', .head hstep hrun, hnil, hall, ?_⟩
        rw [hselections', hselections, Nat.add_right_comm, Nat.add_assoc]

end DsaturState

section Dsatur

variable {α : Type} [DecidableEq α] [ToString α] {g : Graph α} {seed c : Coloring α}

/-- What the greedy coloring tells of a completed seed. -/
def DsaturStats.of (g : Graph α) (seed c : Coloring α) : DsaturStats :=
  ⟨seed.size, (DsaturState.openPositions g seed).length, c.colorsUsed.length⟩

/-- **A valid seed is completed by a greedy run**, or the run gets stuck
and there is no result. -/
theorem dsaturWithStats?_cases (hseed : ValidSeed g seed) (palette : List Color) :
    (dsaturWithStats? g seed palette = .ok none ∧
        ∃ c, Greedy.Run g palette seed c ∧ Greedy.Stuck g c) ∨
      ∃ c, dsaturWithStats? g seed palette = .ok (some (c, .of g seed c)) ∧
        Greedy.Run g palette seed c ∧ ∀ a ∈ g.nodes, c.get? a ≠ none := by
  obtain ⟨htracks, hcoloring, hselections⟩ := DsaturState.start_spec g seed
  have hdsatur : dsaturWithStats? g seed palette =
      .ok (((DsaturState.start g g.adjacency seed).complete g g.adjacency palette).map fun s =>
        (s.coloring, ⟨seed.size, s.selections, s.coloring.colorsUsed.length⟩)) := by
    rw [dsaturWithStats?, validateSeed_eq_ok_iff.2 hseed]
    rfl
  have hcomplete := htracks.complete palette
  rw [hcoloring, hselections, Nat.zero_add] at hcomplete
  rw [hdsatur]
  rcases hcomplete with ⟨hnone, hstuck⟩ | ⟨s, hs, hrun, -, hall, hselections'⟩
  · exact .inl ⟨by rw [hnone]; rfl, hstuck⟩
  · refine .inr ⟨s.coloring, ?_, hrun, hall⟩
    rw [hs, DsaturStats.of, ← hselections']
    rfl

/-! ## Calls that end -/

/-- A call that ends: it refuses its seed or has a result. -/
def DsaturEnds (g : Graph α) (seed : Coloring α) (palette : List Color) : Prop :=
  dsaturWithStats? g seed palette ≠ .ok none

variable {palette : List Color} {result : Coloring α × DsaturStats}

theorem dsaturWithStats_eq_ok (h : dsaturWithStats? g seed palette = .ok (some result)) :
    dsaturWithStats g seed palette = .ok result := by
  rw [dsaturWithStats, h]

/-- **A valid seed whose call ends is completed by a greedy run.** -/
theorem dsaturWithStats_run (hseed : ValidSeed g seed) (hends : DsaturEnds g seed palette) :
    ∃ c, dsaturWithStats g seed palette = .ok (c, .of g seed c) ∧
      Greedy.Run g palette seed c ∧ ∀ a ∈ g.nodes, c.get? a ≠ none := by
  rcases dsaturWithStats?_cases hseed palette with ⟨hnone, -⟩ | ⟨c, hc, hrun, hall⟩
  · exact absurd hnone hends
  · exact ⟨c, dsaturWithStats_eq_ok hc, hrun, hall⟩

theorem dsatur_run (hseed : ValidSeed g seed) (hends : DsaturEnds g seed palette) :
    ∃ c, dsatur g seed palette = .ok c ∧ Greedy.Run g palette seed c ∧
      ∀ a ∈ g.nodes, c.get? a ≠ none := by
  obtain ⟨c, hc, hrun, hall⟩ := dsaturWithStats_run hseed hends
  exact ⟨c, by rw [dsatur, hc]; rfl, hrun, hall⟩

/-- **A call does not end exactly if its run gets stuck.** -/
theorem not_dsaturEnds_iff (hseed : ValidSeed g seed) :
    ¬ DsaturEnds g seed palette ↔ ∃ c, Greedy.Run g palette seed c ∧ Greedy.Stuck g c := by
  rw [DsaturEnds, not_not]
  rcases dsaturWithStats?_cases hseed palette with ⟨hnone, hstuck⟩ | ⟨c, hc, hrun, hall⟩
  · exact iff_of_true hnone hstuck
  · refine iff_of_false (by rw [hc]; nofun) ?_
    rintro ⟨d, hrun', hstuck⟩
    exact hrun.not_stuck hall hrun' hstuck

/-- A run that leaves no node open is that of a call that ends. -/
theorem dsaturEnds_of_run (hseed : ValidSeed g seed) (hrun : Greedy.Run g palette seed c)
    (hall : ∀ a ∈ g.nodes, c.get? a ≠ none) : DsaturEnds g seed palette := by
  by_contra hnot
  obtain ⟨d, hrun', hstuck⟩ := (not_dsaturEnds_iff hseed).1 hnot
  exact hrun.not_stuck hall hrun' hstuck

/-- **A call that does not end** has an open node with as many neighbors
as there are colors. -/
theorem exists_degree_of_not_dsaturEnds (hseed : ValidSeed g seed)
    (hends : ¬ DsaturEnds g seed palette) :
    ∃ a ∈ g.nodes, seed.get? a = none ∧ UInt32.size ≤ g.degree a := by
  obtain ⟨c, hrun, a, hnext, hfull⟩ := (not_dsaturEnds_iff hseed).1 hends
  exact ⟨a, hnext.mem, hrun.get?_eq_none hnext.isOpen, Greedy.size_le_degree_of_full hfull⟩

theorem dsaturEnds_of_degree (hseed : ValidSeed g seed)
    (hdegree : ∀ a ∈ g.nodes, seed.get? a = none → g.degree a < UInt32.size) :
    DsaturEnds g seed palette := by
  by_contra hnot
  obtain ⟨a, ha, hopen, hle⟩ := exists_degree_of_not_dsaturEnds hseed hnot
  exact absurd (hdegree a ha hopen) (Nat.not_lt.2 hle)

end Dsatur

end Tricolor
