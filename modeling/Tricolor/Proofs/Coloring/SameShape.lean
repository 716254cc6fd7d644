import Tricolor.Proofs.Coloring.Agreement
import Tricolor.Proofs.Coloring.Locality

/-!
# What a coloring depends on

A graph lists the neighbors of a node in the order in which its edges
were added, and a seed its entries in the order in which they were made.
No coloring depends on either (`colorings_of_sameShape`).

For the greedy rule this is locality with nothing left out, and covers
whether a call ends. The search
goes through other states: it prunes neighbors in another order, stops at
another one if a choice is refused, and the nodes of the seed lose their
positions in another order. But its choices say what is left to each
open node, and so does the shape of the graph whether one is refused
(`Alike.wipes_iff`). Two searches with the same choices after as many
steps therefore branch on the same node, try the same positions and end
alike (`Alike.solve`).
-/

namespace Tricolor

variable {α : Type} {g h : Graph α}

namespace Backtrack

variable {k i node c d n depth : Nat} {limit : Option Nat} {pruned : List Nat}

namespace Search

variable {s s' t t' : Search}

/-! ## Refused choices -/

/-- A choice that leaves an open neighbor of its node nothing. -/
def Wipes (g : Graph α) (s : Search) (node c : Nat) : Prop :=
  ∃ j, g.Linked node j ∧ s.choice? j = none ∧ ((s.domain j).erase c).isEmpty

/-- A choice takes its position from the neighbors of its node. -/
theorem Assigned.left_iff (h : Assigned g k s node c pruned s') (hnode : node < s.chosen.size)
    (hopen : s.choice? node = none) :
    s'.Left g k i d ↔ s.Left g k i d ∧ (g.Linked i node → d ≠ c) := by
  rw [← left_choose hnode hopen]
  simp only [Left, h.choice, choice?_choose hnode]

/-- A choice that was made leaves all open neighbors something, if they
had something. -/
theorem Assigned.not_wipes (h : Assigned g k s node c pruned s') (hs : Consistent g k s)
    (hnode : node < g.nodeCount) (hopen : s.choice? node = none) (hc : c < 64)
    (hroom : ∀ i < g.nodeCount, s.choice? i = none → ¬ (s.domain i).isEmpty) :
    ¬ Wipes g s node c := by
  rintro ⟨j, hj, hjopen, hempty⟩
  have hjopen' : s'.choice? j = none := by rw [h.choice, if_neg hj.ne.symm, hjopen]
  have hnonempty := h.nonempty j (hroom j hj.lt.2 hjopen)
  rw [Domain.isEmpty_iff, not_forall] at hnonempty
  obtain ⟨d, hd⟩ := hnonempty
  have hleft := (h.consistent.mem_domain j hj.lt.2 hjopen' d).1 (not_not.1 hd)
  obtain ⟨hleft, hdc⟩ := (h.left_iff (hs.size_chosen ▸ hnode) hopen).1 hleft
  exact Domain.isEmpty_iff.1 hempty d
    ((Domain.mem_erase hc).2 ⟨(hs.mem_domain j hj.lt.2 hjopen d).2 hleft, hdc hj.symm⟩)

/-! ## Searches with the same choices -/

/-- Searches over two graphs that have made the same choices in as many
steps, and left each open node something. -/
structure Alike (g h : Graph α) (k : Nat) (s t : Search) : Prop where
  first : Consistent g k s
  second : Consistent h k t
  choice : ∀ i, s.choice? i = t.choice? i
  steps : s.steps = t.steps
  room : 0 < k → ∀ i < g.nodeCount, s.choice? i = none → ¬ (s.domain i).isEmpty

namespace Alike

theorem withSteps (hst : Alike g h k s t) (n : Nat) :
    Alike g h k { s with steps := n } { t with steps := n } where
  first := ⟨hst.first.size_domains, hst.first.size_chosen, hst.first.mem_domain⟩
  second := ⟨hst.second.size_domains, hst.second.size_chosen, hst.second.mem_domain⟩
  choice := hst.choice
  steps := rfl
  room := hst.room

variable [DecidableEq α] (hst : Alike g h k s t) (hgh : g.SameShape h)
include hst hgh

/-- **The choices say what is left to an open node.** -/
theorem domain_eq (hi : i < g.nodeCount) (hopen : s.choice? i = none) :
    s.domain i = t.domain i := by
  refine Domain.ext_mem fun c => ?_
  rw [hst.first.mem_domain i hi hopen,
    hst.second.mem_domain i (hgh.nodeCount_eq ▸ hi) (hst.choice i ▸ hopen)]
  simp only [Left, hgh.linked_iff, hst.choice]

theorem openNodes_eq : s.openNodes = t.openNodes := by
  simp only [openNodes, hst.first.size_chosen, hst.second.size_chosen, hgh.nodeCount_eq,
    hst.choice]

omit hst hgh [DecidableEq α] in
/-- A pass that keeps the better one of two depends on how the candidates
compare. -/
theorem foldl_best_congr {better better' : Nat → Nat → Bool} {candidates : List Nat}
    (hbetter : ∀ i ∈ candidates, ∀ j ∈ candidates, better i j = better' i j) (l : List Nat)
    (hl : l ⊆ candidates) (best : Option Nat) (hbest : ∀ j, best = some j → j ∈ candidates) :
    l.foldl (fun best i =>
      match best with
      | some j => if better i j then some i else some j
      | none => some i) best =
    l.foldl (fun best i =>
      match best with
      | some j => if better' i j then some i else some j
      | none => some i) best := by
  induction l generalizing best with
  | nil => rfl
  | cons i l ih =>
    have hi := hl (.head l)
    have hrest : l ⊆ candidates := fun j hj => hl (.tail i hj)
    rw [List.foldl_cons, List.foldl_cons]
    cases best with
    | none => exact ih hrest _ fun j hj => Option.some.inj hj ▸ hi
    | some j =>
      have hj := hbest j rfl
      simp only [hbetter i hi j hj]
      refine ih hrest _ fun l hl => ?_
      split at hl
      · exact Option.some.inj hl ▸ hi
      · exact Option.some.inj hl ▸ hj

/-- **The searches branch on the same node.** -/
theorem pick_eq : s.pick g.adjacency = t.pick h.adjacency := by
  rw [pick, pick, ← hst.openNodes_eq hgh]
  refine foldl_best_congr (fun i hi j hj => ?_) _ (fun _ hi => hi) none
    fun j hj => absurd hj.symm (Option.some_ne_none j)
  rw [mem_openNodes, hst.first.size_chosen] at hi hj
  simp only [moreUrgent, hst.domain_eq hgh hi.1 hi.2, hst.domain_eq hgh hj.1 hj.2,
    Graph.degree_adjacency, hgh.degreeAt_eq]

/-- **The choices say which choice is refused next.** -/
theorem wipes_iff : Wipes g s node c ↔ Wipes h t node c := by
  refine exists_congr fun j => ?_
  rw [hgh.linked_iff, ← hst.choice]
  refine and_congr_right fun hj => and_congr_right fun hopen => ?_
  rw [hst.domain_eq hgh hj.lt.2 hopen]

/-- **Choosing a position** succeeds in both searches, or in none. -/
theorem assign (hnode : node < g.nodeCount) (hopen : s.choice? node = none) (hc : c < 64)
    (hk : 0 < k) :
    (∃ pruned pruned' s' t', s.assign g.adjacency node c = (some pruned, s') ∧
        t.assign h.adjacency node c = (some pruned', t') ∧ Alike g h k s' t' ∧
        Assigned g k s node c pruned s' ∧ Assigned h k t node c pruned' t') ∨
      s.assign g.adjacency node c = (none, s) ∧ t.assign h.adjacency node c = (none, t) := by
  have hnode' : node < h.nodeCount := hgh.nodeCount_eq ▸ hnode
  have hopen' : t.choice? node = none := hst.choice node ▸ hopen
  have hroom' : ∀ i < h.nodeCount, t.choice? i = none → ¬ (t.domain i).isEmpty := by
    intro i hi hiopen
    rw [hgh.nodeCount_eq] at hi
    rw [← hst.choice] at hiopen
    exact hst.domain_eq hgh hi hiopen ▸ hst.room hk i hi hiopen
  rcases assign_cases hst.first hnode hopen hc with
    ⟨pruned, s', hassign, hs'⟩ | ⟨hassign, hwipes⟩
  · have hnot := hs'.not_wipes hst.first hnode hopen hc (hst.room hk)
    rcases assign_cases hst.second hnode' hopen' hc with
      ⟨pruned', t', hassign', ht'⟩ | ⟨-, hwipes'⟩
    · refine .inl ⟨pruned, pruned', s', t', hassign, hassign', ?_, hs', ht'⟩
      refine ⟨hs'.consistent, ht'.consistent, fun i => ?_, ?_, fun _ i hi hiopen => ?_⟩
      · rw [hs'.choice, ht'.choice, hst.choice]
      · rw [hs'.steps, ht'.steps, hst.steps]
      · rw [hs'.choice] at hiopen
        split at hiopen
        · cases hiopen
        · exact hs'.nonempty i (hst.room hk i hi hiopen)
    · exact absurd ((hst.wipes_iff hgh).2 hwipes') hnot
  · rcases assign_cases hst.second hnode' hopen' hc with
      ⟨pruned', t', -, ht'⟩ | ⟨hassign', -⟩
    · exact absurd ((hst.wipes_iff hgh).1 hwipes)
        (ht'.not_wipes hst.second hnode' hopen' hc hroom')
    · exact .inr ⟨hassign, hassign'⟩

end Alike

/-! ## Searches that end alike -/

/-- How two searches with the same choices end: with the same choices for
all nodes, as they began, or with the same error, and in as many steps. -/
inductive EndAlike (s t : Search) :
    Except Error Bool × Search → Except Error Bool × Search → Prop
  | found {s' t' : Search} : (∀ i, s'.choice? i = t'.choice? i) → s'.steps = t'.steps →
      EndAlike s t (.ok true, s') (.ok true, t')
  | refuted (n : Nat) :
      EndAlike s t (.ok false, { s with steps := n }) (.ok false, { t with steps := n })
  | failed {s' t' : Search} (e : Error) : s'.steps = t'.steps →
      EndAlike s t (.error e, s') (.error e, t')

variable {r r' : Except Error Bool × Search}

theorem EndAlike.of_withSteps
    (hend : EndAlike { s with steps := n } { t with steps := n } r r') : EndAlike s t r r' := by
  cases hend with
  | found hchoice hsteps => exact .found hchoice hsteps
  | refuted n => exact .refuted n
  | failed e hsteps => exact .failed e hsteps

theorem EndAlike.refuted_self (h : s.steps = t.steps) :
    EndAlike s t (.ok false, s) (.ok false, t) := by
  have hend : EndAlike s t _ _ := .refuted t.steps
  have hs : ({ s with steps := t.steps } : Search) = s := by rw [← h]
  rwa [hs] at hend

variable [DecidableEq α]

/-- **Trying positions.** If the rest of the searches ends alike whenever
it starts alike, so do the branches. -/
theorem Alike.branch {rest rest' : Search → Except Error Bool × Search} (limit : Option Nat)
    (hgh : g.SameShape h)
    (hrest : ∀ s' t', Alike g h k s' t' → EndAlike s' t' (rest s') (rest' t'))
    (hst : Alike g h k s t) (hnode : node < g.nodeCount) (hopen : s.choice? node = none)
    (cs : List Nat) (hcs : ∀ c ∈ cs, c ∈ s.domain node) :
    EndAlike s t (branch g.adjacency limit rest node cs s)
      (branch h.adjacency limit rest' node cs t) := by
  induction cs generalizing s t with
  | nil => exact .refuted_self hst.steps
  | cons c cs ih =>
    have hc := hcs c (.head cs)
    have hk : 0 < k := Nat.zero_lt_of_lt ((hst.first.mem_domain node hnode hopen c).1 hc).1
    have hnext : ∀ n, EndAlike s t
        (Search.branch g.adjacency limit rest node cs { s with steps := n })
        (Search.branch h.adjacency limit rest' node cs { t with steps := n }) := fun n =>
      (ih (hst.withSteps n) hopen fun d hd => hcs d (.tail c hd)).of_withSteps
    rw [Search.branch, Search.branch, ← hst.steps]
    -- both have counted as many steps, so both are over the limit or neither is
    cases hlimit : exhausted limit { s with steps := s.steps + 1 } with
    | some l =>
      have hlimit' : exhausted limit { t with steps := s.steps + 1 } = some l := hlimit
      simp only [hlimit']
      exact .failed _ rfl
    | none =>
      have hlimit' : exhausted limit { t with steps := s.steps + 1 } = none := hlimit
      simp only [hlimit']
      rcases (hst.withSteps (s.steps + 1)).assign hgh hnode hopen (Domain.lt_of_mem hc) hk with
        ⟨pruned, pruned', s', t', hassign, hassign', hst', hs', ht'⟩ | ⟨hassign, hassign'⟩
      · have hend := hrest s' t' hst'
        simp only [hassign, hassign']
        generalize rest s' = r at hend
        generalize rest' t' = r' at hend
        cases hend with
        | found hchoice hsteps => exact .found hchoice hsteps
        | refuted n =>
          simp only [hs'.undo, ht'.undo]
          exact hnext n
        | failed e hsteps => exact .failed e hsteps
      · simp only [hassign, hassign']
        exact hnext (s.steps + 1)

/-- **Searches with the same choices end alike.** -/
theorem Alike.solve (limit : Option Nat) (depth : Nat) (hgh : g.SameShape h)
    (hst : Alike g h k s t) :
    EndAlike s t (s.solve g.adjacency limit depth) (t.solve h.adjacency limit depth) := by
  induction depth generalizing s t with
  | zero =>
    rw [Search.solve, Search.solve, ← hst.pick_eq hgh]
    cases (s.pick g.adjacency).isNone
    · exact .refuted_self hst.steps
    · exact .found hst.choice hst.steps
  | succ depth ih =>
    rw [Search.solve, Search.solve, ← hst.pick_eq hgh]
    rcases pick_cases g.adjacency s with ⟨hpick, -⟩ | ⟨i, hi, hpick⟩
    · rw [hpick]
      exact .found hst.choice hst.steps
    · obtain ⟨hlt, hopen⟩ := mem_openNodes.1 hi
      rw [hst.first.size_chosen] at hlt
      rw [hpick]
      simp only
      rw [← hst.domain_eq hgh hlt hopen]
      exact Alike.branch limit hgh (fun _ _ => ih) hst hlt hopen _ fun _ => Domain.mem_positions.1

end Search

/-! ## Seeds with the same entries -/

section Plant

variable [DecidableEq α] {seed seed' : Coloring α} {palette : List Color}
variable {done done' : List (α × Color)} {s t : Search}

/-- Which nodes are left nothing depends on the shape of the graph and on
which entries there are. -/
theorem Starved.of_sameShape (hs : Starved g palette done) (hgh : g.SameShape h)
    (hsub : ∀ e ∈ done, e ∈ done') : Starved h palette done' := by
  obtain ⟨hpos, a, ha⟩ := hs
  refine ⟨hpos, a, fun c hc => ?_⟩
  obtain ⟨b, color, hab, hb, hidx⟩ := ha c hc
  exact ⟨b, color, (hgh.hasEdge a b).trans hab, hsub _ hb, hidx⟩

/-- Planting the same entries makes the same choices. -/
theorem Planted.choice?_eq (hs : Planted g palette done s) (ht : Planted h palette done' t)
    (hgh : g.SameShape h) (hperm : done.Perm done') (i : Nat) : s.choice? i = t.choice? i := by
  by_cases hi : i < g.nodeCount
  · obtain ⟨a, ha⟩ := Graph.exists_node?_of_lt hi
    refine Option.ext fun c => ?_
    rw [hs.choice i a c ha, ht.choice i a c ((hgh.node?_eq i).trans ha)]
    simp only [hperm.mem_iff]
  · have hpast : ∀ {x : Search}, x.chosen.size = g.nodeCount → x.choice? i = none := by
      intro x hx
      rw [Search.choice?, Array.getElem?_eq_none (hx ▸ Nat.le_of_not_lt hi), Option.join_none]
    rw [hpast hs.sound.size_chosen, hpast (ht.sound.size_chosen.trans hgh.nodeCount_eq)]

variable [ToString α]

/-- **Planting the same entries in two orders** succeeds in both, with
the same choices, or leaves some node nothing in both. -/
theorem plant_alike (hgh : g.SameShape h) (hseed : ValidSeed g seed) (hseed' : ValidSeed h seed')
    (hperm : seed.entries.Perm seed'.entries)
    (hpalette : ∀ a color, seed.get? a = some color → color ∈ palette)
    (hsize : palette.length ≤ maxPalette) :
    (∃ s t, plant g g.adjacency palette seed.entries (.start g.nodeCount palette.length) =
          .ok (some s) ∧
        plant h h.adjacency palette seed'.entries (.start h.nodeCount palette.length) =
          .ok (some t) ∧ Search.Alike g h palette.length s t) ∨
      plant g g.adjacency palette seed.entries (.start g.nodeCount palette.length) = .ok none ∧
        plant h h.adjacency palette seed'.entries (.start h.nodeCount palette.length) =
          .ok none := by
  have hinside : ∀ e ∈ seed.entries, e.2 ∈ palette := fun e he =>
    hpalette e.1 e.2 (Coloring.get?_eq_some_iff.2 he)
  have hplanted := plant_cases hseed hinside hsize
  have hplanted' := plant_cases hseed' (fun e he => hinside e (hperm.mem_iff.2 he)) hsize
  rcases hplanted with ⟨s, hplant, hs, hroom⟩ | ⟨hplant, hstarved⟩
  · rcases hplanted' with ⟨t, hplant', ht, -⟩ | ⟨-, hstarved⟩
    · refine .inl ⟨s, t, hplant, hplant', hs.sound.toConsistent, ht.sound.toConsistent,
        hs.choice?_eq ht hgh hperm, ?_, fun hk i hi _ => hroom (List.length_pos_iff.1 hk) i hi⟩
      rw [steps_plant _ hplant, steps_plant _ hplant']
      rfl
    · exact absurd (hstarved.of_sameShape hgh.symm fun e he => hperm.mem_iff.2 he)
        (hs.not_starved hroom)
  · rcases hplanted' with ⟨t, -, ht, hroom⟩ | ⟨hplant', -⟩
    · exact absurd (hstarved.of_sameShape hgh fun e he => hperm.mem_iff.1 he)
        (ht.not_starved hroom)
    · exact .inr ⟨hplant, hplant'⟩

/-- **The search depends on the shape of the graph and the entries of the
seed.** -/
theorem color_sameShape (limit : Option Nat) (hgh : g.SameShape h) (hseed : ValidSeed g seed)
    (hseed' : ValidSeed h seed') (hperm : seed.entries.Perm seed'.entries)
    (hpalette : ∀ a color, seed.get? a = some color → color ∈ palette)
    (hsize : palette.length ≤ maxPalette) :
    color limit g seed palette = color limit h seed' palette := by
  rw [color, color, validateSeed_eq_ok_iff.2 hseed, validateSeed_eq_ok_iff.2 hseed']
  simp only [if_neg (Nat.not_lt.2 hsize)]
  rcases plant_alike hgh hseed hseed' hperm hpalette hsize with
    ⟨s, t, hplant, hplant', hst⟩ | ⟨hplant, hplant'⟩
  · have hend := hst.solve limit g.nodeCount hgh
    simp only [hplant, hplant']
    rw [hgh.nodeCount_eq]
    generalize s.solve g.adjacency limit g.nodeCount = r at hend
    generalize t.solve h.adjacency limit g.nodeCount = r' at hend
    cases hend with
    | found hchoice hsteps => simp only [readColoring, hgh.nodes, hchoice, hsteps]
    | refuted n => rfl
    | failed e hsteps => simp only [hsteps]
  · simp only [hplant, hplant']

end Plant

end Backtrack

/-! ## What colorings depend on -/

section Color

variable [DecidableEq α] [ToString α] {seed seed' : Coloring α}

omit [ToString α] in
/-- A seed shows everything of a seed with the same entries. -/
theorem Greedy.Shows.of_perm (hperm : seed.entries.Perm seed'.entries) :
    Greedy.Shows g (fun _ => true) seed seed' where
  get? a := by
    refine Option.ext fun color => ?_
    rw [if_pos rfl, Coloring.get?_eq_some_iff, Coloring.get?_eq_some_iff, hperm.mem_iff]
  enclosed _ _ _ _ _ := rfl

omit [ToString α] in
/-- What a run that leaves no node open adds to its seed are the nodes
that the seed leaves open, each once. -/
theorem Greedy.Run.perm_selected {palette : List Color} {c : Coloring α}
    {selected : List (α × Color)} (hrun : Greedy.Run g palette seed c) (hseed : ValidSeed g seed)
    (hall : ∀ a ∈ g.nodes, c.get? a ≠ none) (hentries : c.entries = seed.entries ++ selected) :
    (selected.map Prod.fst).Perm (g.nodes.filter fun a => !seed.contains a) := by
  have hnodes : c.nodes = seed.nodes ++ selected.map Prod.fst := by
    rw [Coloring.nodes, hentries, List.map_append, Coloring.nodes]
  have hperm := (hrun.validSeed hseed).perm_nodes hall
  have hnodup : c.nodes.Nodup := c.entries_nodup
  rw [hnodes] at hperm hnodup
  refine (List.perm_ext_iff_of_nodup (List.nodup_append.1 hnodup).2.1
    (g.nodes_nodup.filter _)).2 fun a => ?_
  rw [List.mem_filter, ← hperm.mem_iff, List.mem_append, Bool.not_eq_true', ← Bool.not_eq_true,
    Coloring.contains_iff]
  constructor
  · exact fun ha => ⟨.inr ha, fun hseeded => (List.nodup_append.1 hnodup).2.2 a hseeded a ha rfl⟩
  · exact fun ⟨ha, hopen⟩ => ha.resolve_left hopen

/-- **Colorings depend on the order of the nodes, the set of edges and
the set of seed entries.** For two graphs of one shape and two orders of
the entries of a seed, the greedy coloring ends in both cases or in none.
If it ends, all nodes are colored, the open ones in the same order, and
with the same colors. The search, limited or not, gives the same answer
after as many steps. -/
theorem colorings_of_sameShape (hgh : g.SameShape h) (hseed : ValidSeed g seed)
    (hperm : seed.entries.Perm seed'.entries) (palette : List Color) :
    (DsaturEnds g seed palette ↔ DsaturEnds h seed' palette) ∧
      (DsaturEnds g seed palette →
        ∃ c c' selected, dsatur g seed palette = .ok c ∧ dsatur h seed' palette = .ok c' ∧
          (∀ a, c'.get? a = c.get? a) ∧ (∀ a ∈ g.nodes, ∃ color, c.get? a = some color) ∧
          c.entries = seed.entries ++ selected ∧ c'.entries = seed'.entries ++ selected ∧
          (selected.map Prod.fst).Perm (g.nodes.filter fun a => !seed.contains a)) ∧
      (palette.length ≤ 64 → (∀ a color, seed.get? a = some color → color ∈ palette) →
        ∀ oracle : Backtracker, ColoringOracle.color oracle g seed palette =
          ColoringOracle.color oracle h seed' palette) := by
  have hs : Greedy.Shows g (fun _ => true) seed seed' := .of_perm hperm
  have hseed' := hs.validSeed hgh.induced hseed
  refine ⟨⟨fun hends => ?_, fun hends => ?_⟩, fun hends => ?_, fun hsize hpalette oracle => ?_⟩
  · exact (dsatur_induced hgh.induced hs hseed hends).1
  · exact (dsatur_induced hgh.symm.induced (.of_perm hperm.symm) hseed' hends).1
  · obtain ⟨-, c, c', selected, hc, hc', hrun, hall, hsame, hentries, hentries'⟩ :=
      dsatur_induced hgh.induced hs hseed hends
    rw [List.filter_true] at hentries'
    exact ⟨c, c', selected, hc, hc', fun a => hsame a rfl,
      fun a ha => Option.ne_none_iff_exists'.1 (hall a ha), hentries, hentries',
      hrun.perm_selected hseed hall hentries⟩
  · have hcolor := Backtrack.color_sameShape oracle.limit hgh hseed hseed' hperm hpalette hsize
    simp only [ColoringOracle.color, hcolor]

/-- A square with a diagonal, its edges added in two orders, and a seed
with its entries in two orders. -/
theorem colorings_of_sameShape_square :
    let g : Graph (Fin 4) := Graph.empty.joinAll [(0, 1), (1, 2), (2, 3), (3, 0), (0, 2)]
    let h : Graph (Fin 4) := Graph.empty.joinAll [(0, 1), (2, 0), (3, 0), (2, 1), (3, 2), (0, 2)]
    let seed : Coloring (Fin 4) := .ofList [(1, .red), (3, .green)]
    let seed' : Coloring (Fin 4) := .ofList [(3, .green), (1, .red)]
    (∃ c c' selected, dsatur g seed [.red] = .ok c ∧ dsatur h seed' [.red] = .ok c' ∧
        (∀ a, c'.get? a = c.get? a) ∧ c.entries = seed.entries ++ selected ∧
        c'.entries = seed'.entries ++ selected ∧ (selected.map Prod.fst).Perm [0, 2]) ∧
      ∀ oracle : Backtracker, ColoringOracle.color oracle g seed [.red, .green, .blue] =
        ColoringOracle.color oracle h seed' [.red, .green, .blue] := by
  intro g h seed seed'
  have hgh : g.SameShape h := ⟨by decide +kernel, by decide +kernel⟩
  have hseed : ValidSeed g seed := validateSeed_eq_ok_iff.1 (by decide +kernel)
  have hperm : seed.entries.Perm seed'.entries := .swap _ _ []
  have hdegree : ∀ a ∈ g.nodes, g.degree a < UInt32.size := by decide +kernel
  have hopen : (g.nodes.filter fun a => !seed.contains a) = [0, 2] := by decide +kernel
  have hpalette : ∀ a color, seed.get? a = some color →
      color ∈ [Color.red, .green, .blue] := by
    intro a color ha
    have hmem := Coloring.get?_eq_some_iff.1 ha
    rcases List.mem_pair.1 hmem with heq | heq <;> cases heq <;> decide
  obtain ⟨c, c', selected, hc, hc', hsame, -, hentries, hentries', hselected⟩ :=
    (colorings_of_sameShape hgh hseed hperm [.red]).2.1
      (dsaturEnds_of_degree hseed fun a ha _ => hdegree a ha)
  exact ⟨⟨c, c', selected, hc, hc', hsame, hentries, hentries', hopen ▸ hselected⟩,
    (colorings_of_sameShape hgh hseed hperm _).2.2 (by decide) hpalette⟩

end Color

end Tricolor
