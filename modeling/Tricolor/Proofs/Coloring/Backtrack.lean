import Mathlib.Data.List.Perm.Subperm
import Tricolor.Proofs.Coloring.Placement
import Tricolor.Proofs.Coloring.Search

/-!
# The backtracking search is exact

A solution follows the choices of a search if it makes them too. Every
solution that does gives each open node a position of its domain, so a
node whose positions all fail refutes the choices. By induction on the
number of open nodes the search finds a solution that follows the
choices it started from, or there is none (`solve_outcome`). Planting a
seed makes exactly the choices that its placements make, and stops early
only where the entries planted leave some node nothing (`plant_append`).
-/

namespace Tricolor

namespace Backtrack

variable {α : Type} {g : Graph α} {p : α → Nat} {limit : Option Nat}
variable {k i j c n node depth : Nat} {pruned : List Nat} {a b : α}

namespace Search

variable {s s' : Search}

/-! ## Sound searches -/

/-- A consistent search whose choices so far are in order. -/
structure Sound (g : Graph α) (k : Nat) (s : Search) : Prop extends Consistent g k s where
  lt : ∀ i c, s.choice? i = some c → c < k
  distinct : ∀ i j c, g.Linked i j → s.choice? i = some c → s.choice? j ≠ some c

theorem Sound.withSteps (hs : Sound g k s) (n : Nat) : Sound g k { s with steps := n } :=
  ⟨hs.toConsistent.withSteps n, hs.lt, hs.distinct⟩

/-- A choice of a position that its neighbors leave keeps the search
sound. -/
theorem Sound.assigned (hs : Sound g k s) (hleft : s.Left g k node c)
    (h : Assigned g k s node c pruned s') : Sound g k s' where
  toConsistent := h.consistent
  lt i d hi := by
    rw [h.choice] at hi
    split at hi
    · exact Option.some.inj hi ▸ hleft.1
    · exact hs.lt i d hi
  distinct i j d hij hi hj := by
    rw [h.choice] at hi hj
    split at hi <;> split at hj
    · exact hij.ne (by simp only [*])
    · rename_i hin _
      cases hi
      exact hleft.2 j (hin ▸ hij) hj
    · rename_i hjn
      cases hj
      exact hleft.2 i (hjn ▸ hij.symm) hi
    · exact hs.distinct i j d hij hi hj

/-- The earlier choices stand. -/
theorem Assigned.keeps (h : Assigned g k s node c pruned s') (hopen : s.choice? node = none)
    {d : Nat} (hi : s.choice? i = some d) : s'.choice? i = some d := by
  rw [h.choice, if_neg]
  · exact hi
  · rintro rfl
    exact Option.some_ne_none d (hi.symm.trans hopen)

/-- The positions are those that the search has chosen, where it has. -/
def Follows (g : Graph α) (s : Search) (p : α → Nat) : Prop :=
  ∀ i a c, g.node? i = some a → s.choice? i = some c → p a = c

/-- Positions that follow a search and have the position chosen follow it
after the choice. -/
theorem Assigned.follows (h : Assigned g k s node c pruned s') (ha : g.node? node = some a)
    (hf : Follows g s p) (hpa : p a = c) : Follows g s' p := by
  intro i b d hb hi
  rw [h.choice] at hi
  split at hi
  · rename_i hin
    cases hi
    rw [hin, ha] at hb
    exact Option.some.inj hb ▸ hpa
  · exact hf i b d hb hi

/-! ## Picking a node -/

theorem mem_openNodes : i ∈ s.openNodes ↔ i < s.chosen.size ∧ s.choice? i = none := by
  rw [openNodes, List.mem_filter, List.mem_range, Option.isNone_iff_eq_none]

theorem nodup_openNodes (s : Search) : s.openNodes.Nodup :=
  List.nodup_range.filter _

/-- A choice takes its node from the open ones. -/
theorem Assigned.length_openNodes_lt (h : Assigned g k s node c pruned s')
    (hsize : s.chosen.size = g.nodeCount) (hnode : node ∈ s.openNodes) :
    s'.openNodes.length < s.openNodes.length := by
  have hsub : node :: s'.openNodes ⊆ s.openNodes := by
    rintro i hi
    rcases List.mem_cons.1 hi with rfl | hi
    · exact hnode
    · rw [mem_openNodes, h.choice, h.consistent.size_chosen, ← hsize] at hi
      rw [mem_openNodes]
      split at hi
      · exact absurd hi.2 (Option.some_ne_none c)
      · exact hi
  have hnot : node ∉ s'.openNodes := by
    rw [mem_openNodes, h.choice, if_pos rfl]
    exact fun h => absurd h.2 (Option.some_ne_none c)
  exact (List.subperm_of_subset (List.nodup_cons.2 ⟨hnot, nodup_openNodes s'⟩) hsub).length_le

/-- A pass that keeps the better one of two ends at one of the candidates. -/
theorem foldl_best_mem (better : Nat → Nat → Bool) (l : List Nat) (best : Nat) :
    ∃ i ∈ best :: l, l.foldl (fun best i =>
      match best with
      | some j => if better i j then some i else some j
      | none => some i) (some best) = some i := by
  induction l generalizing best with
  | nil => exact ⟨best, .head [], rfl⟩
  | cons j l ih =>
    rw [List.foldl_cons]
    simp only
    split
    · obtain ⟨i, hi, hfold⟩ := ih j
      exact ⟨i, .tail best hi, hfold⟩
    · obtain ⟨i, hi, hfold⟩ := ih best
      refine ⟨i, ?_, hfold⟩
      rcases List.mem_cons.1 hi with rfl | hi
      · exact .head _
      · exact .tail best (.tail j hi)

/-- **A node is picked while some node is open.** -/
theorem pick_cases (adj : Adjacency) (s : Search) :
    (s.pick adj = none ∧ s.openNodes = []) ∨ ∃ i ∈ s.openNodes, s.pick adj = some i := by
  rw [pick]
  cases hopen : s.openNodes with
  | nil => exact .inl ⟨rfl, rfl⟩
  | cons i l =>
    obtain ⟨j, hj, hfold⟩ := foldl_best_mem (s.moreUrgent adj) l i
    exact .inr ⟨j, hj, hfold⟩

/-! ## Solutions -/

variable [DecidableEq α]

/-- Positions for all nodes that differ between neighbors. -/
structure Solution (g : Graph α) (k : Nat) (p : α → Nat) : Prop where
  lt : ∀ a ∈ g.nodes, p a < k
  distinct : ∀ a b, g.hasEdge a b → p a ≠ p b

/-- A solution that follows the choices takes a position of the domain of
every open node. -/
theorem mem_domain_of_follows (hs : Sound g k s) (hp : Solution g k p) (hf : Follows g s p)
    (ha : g.node? i = some a) (hopen : s.choice? i = none) : p a ∈ s.domain i := by
  refine (hs.mem_domain i (Graph.lt_nodeCount_of_node? ha) hopen _).2
    ⟨hp.lt a (Graph.mem_nodes_iff.2 ⟨i, ha⟩), fun j hij hj => ?_⟩
  obtain ⟨b, hb⟩ := Graph.exists_node?_of_lt hij.lt.2
  exact hp.distinct a b ((Graph.hasEdge_iff_linked ha hb).2 hij) (hf j b _ hb hj).symm

/-- **Choosing a position of the domain.** A refused choice is made by no
solution that follows the search. -/
theorem assign_outcome (hs : Sound g k s) (ha : g.node? node = some a)
    (hopen : s.choice? node = none) (hc : c ∈ s.domain node) :
    (∃ pruned s', s.assign g.adjacency node c = (some pruned, s') ∧ Sound g k s' ∧
        Assigned g k s node c pruned s') ∨
      s.assign g.adjacency node c = (none, s) ∧
        ∀ p, Solution g k p → Follows g s p → p a ≠ c := by
  have hnode := Graph.lt_nodeCount_of_node? ha
  have hlt := Domain.lt_of_mem hc
  rcases assign_cases hs.toConsistent hnode hopen hlt with
    ⟨pruned, s', hassign, h⟩ | ⟨hassign, j, hj, hjopen, hempty⟩
  · exact .inl ⟨pruned, s', hassign, hs.assigned ((hs.mem_domain node hnode hopen c).1 hc) h, h⟩
  · refine .inr ⟨hassign, fun p hp hf hpa => ?_⟩
    obtain ⟨b, hb⟩ := Graph.exists_node?_of_lt hj.lt.2
    have hne : p b ≠ c := by
      rw [← hpa]
      exact (hp.distinct a b ((Graph.hasEdge_iff_linked ha hb).2 hj)).symm
    have hmem := mem_domain_of_follows hs hp hf hb hjopen
    exact Domain.isEmpty_iff.1 hempty (p b) ((Domain.mem_erase hlt).2 ⟨hmem, hne⟩)

/-! ## The search -/

/-- What a search started from `s` may end with: all nodes have a choice
and the earlier choices stand; or no solution follows the choices of `s`,
which are as they were; or the limit was passed. -/
inductive Outcome (g : Graph α) (k : Nat) (limit : Option Nat) (s : Search) :
    Except Error Bool × Search → Prop
  | found {s' : Search} : Sound g k s' → s'.openNodes = [] →
      (∀ i c, s.choice? i = some c → s'.choice? i = some c) → Outcome g k limit s (.ok true, s')
  | refuted (n : Nat) : (∀ p, Solution g k p → ¬ Follows g s p) →
      Outcome g k limit s (.ok false, { s with steps := n })
  | exhausted (l : Nat) (s' : Search) : limit = some l →
      Outcome g k limit s (.error (.oracle oracleName (.stepLimit l)), s')

theorem Outcome.of_withSteps {r : Except Error Bool × Search}
    (h : Outcome g k limit { s with steps := n } r) : Outcome g k limit s r := by
  cases h with
  | found hs' hopen hchoice => exact .found hs' hopen hchoice
  | refuted n hnone => exact .refuted n hnone
  | exhausted l s' hl => exact .exhausted l s' hl

/-- **Trying positions.** If the rest of the search is exact and every
solution takes one of the positions, so is the branch. -/
theorem branch_outcome {rest : Search → Except Error Bool × Search}
    (hrest : ∀ s', Sound g k s' → s'.openNodes.length ≤ depth → Outcome g k limit s' (rest s'))
    (ha : g.node? node = some a) (hs : Sound g k s) (hopen : s.choice? node = none)
    (hdepth : s.openNodes.length ≤ depth + 1) (cs : List Nat) (hcs : ∀ c ∈ cs, c ∈ s.domain node)
    (htakes : ∀ p, Solution g k p → Follows g s p → p a ∈ cs) :
    Outcome g k limit s (branch g.adjacency limit rest node cs s) := by
  induction cs generalizing s with
  | nil => exact .refuted s.steps fun p hp hf => absurd (htakes p hp hf) List.not_mem_nil
  | cons c cs ih =>
    rw [branch]
    split
    · rename_i l hl
      exact .exhausted l _ (Option.eq_some_of_filter_eq_some hl)
    · have hs₁ := hs.withSteps (s.steps + 1)
      -- once position `c` is refuted, the solutions take one of the others
      have hnext : (∀ p, Solution g k p → Follows g s p → p a ≠ c) → ∀ n,
          Outcome g k limit s (branch g.adjacency limit rest node cs { s with steps := n }) := by
        refine fun hc n => (ih (hs.withSteps n) hopen hdepth (fun d hd => hcs d (.tail c hd))
          fun p hp hf => ?_).of_withSteps
        exact (List.mem_cons.1 (htakes p hp hf)).resolve_left (hc p hp hf)
      rcases assign_outcome hs₁ ha hopen (hcs c (.head cs)) with
        ⟨pruned, s', hassign, hs', h⟩ | ⟨hassign, hnone⟩
      · have hlt : s'.openNodes.length < s.openNodes.length := by
          refine h.length_openNodes_lt hs.size_chosen (mem_openNodes.2 ⟨?_, hopen⟩)
          exact hs.size_chosen ▸ Graph.lt_nodeCount_of_node? ha
        have hout := hrest s' hs' (by omega)
        simp only [hassign]
        generalize rest s' = r at hout
        cases hout with
        | found hs'' hall hkeep =>
          exact .found hs'' hall fun i d hi => hkeep i d (h.keeps hopen hi)
        | refuted n hnone =>
          simp only [h.undo]
          exact hnext (fun p hp hf hpa => hnone p hp (h.follows ha hf hpa)) n
        | exhausted l s'' hl => exact .exhausted l s'' hl
      · simp only [hassign]
        exact hnext hnone _

/-- **The search is exact.** -/
theorem solve_outcome (limit : Option Nat) (hs : Sound g k s)
    (hdepth : s.openNodes.length ≤ depth) :
    Outcome g k limit s (s.solve g.adjacency limit depth) := by
  induction depth generalizing s with
  | zero =>
    have hopen := List.eq_nil_of_length_eq_zero (Nat.le_zero.1 hdepth)
    rcases pick_cases g.adjacency s with ⟨hpick, -⟩ | ⟨i, hi, -⟩
    · rw [solve, hpick]
      exact .found hs hopen fun _ _ h => h
    · rw [hopen] at hi
      exact absurd hi List.not_mem_nil
  | succ depth ih =>
    rw [solve]
    rcases pick_cases g.adjacency s with ⟨hpick, hopen⟩ | ⟨i, hi, hpick⟩
    · rw [hpick]
      exact .found hs hopen fun _ _ h => h
    · obtain ⟨hlt, hopen⟩ := mem_openNodes.1 hi
      obtain ⟨a, ha⟩ := Graph.exists_node?_of_lt (hs.size_chosen ▸ hlt)
      rw [hpick]
      exact branch_outcome (fun s' hs' => ih hs') ha hs hopen hdepth _
        (fun _ => Domain.mem_positions.1)
        fun p hp hf => Domain.mem_positions.2 (mem_domain_of_follows hs hp hf ha hopen)

/-! ## Reading off a coloring -/

/-- The position of each node that a search has chosen. -/
def placed (g : Graph α) (s : Search) (a : α) : Nat := (s.choice? (g.position a)).getD 0

theorem choice?_eq_placed (hs : Sound g k s) (hall : s.openNodes = []) (ha : g.node? i = some a) :
    s.choice? i = some (placed g s a) := by
  have hopen : i ∉ s.openNodes := by rw [hall]; exact List.not_mem_nil
  rw [mem_openNodes, not_and, hs.size_chosen] at hopen
  obtain ⟨c, hc⟩ := Option.ne_none_iff_exists'.1 (hopen (Graph.lt_nodeCount_of_node? ha))
  rw [placed, Graph.position_eq_of_node? ha, hc, Option.getD_some]

/-- The choices of a finished search solve the problem. -/
theorem solution_placed (hs : Sound g k s) (hall : s.openNodes = []) :
    Solution g k (placed g s) where
  lt a ha := by
    obtain ⟨i, hi⟩ := Graph.mem_nodes_iff.1 ha
    exact hs.lt i _ (choice?_eq_placed hs hall hi)
  distinct a b hab heq := by
    obtain ⟨i, j, hi, hj, hij⟩ := Graph.hasEdge_iff.1 hab
    refine hs.distinct i j _ hij (choice?_eq_placed hs hall hi) ?_
    rw [choice?_eq_placed hs hall hj, heq]

theorem realizes_readColoring {palette : List Color} (hs : Sound g palette.length s)
    (hall : s.openNodes = []) : Realizes g palette (placed g s) (readColoring g palette s) := by
  have hread : ∀ e ∈ g.nodes.zipIdx, ∃ color, palette[placed g s e.1]? = some color ∧
      ((s.choice? e.2).bind (palette[·]?)).map (fun color => (e.1, color)) = some (e.1, color) := by
    rintro ⟨a, i⟩ he
    have hi : g.node? i = some a := by
      rw [← Graph.getElem?_nodes]
      exact List.mk_mem_zipIdx_iff_getElem?.1 he
    have hlt := (solution_placed hs hall).lt a (Graph.mem_nodes_iff.2 ⟨i, hi⟩)
    refine ⟨palette[placed g s a], List.getElem?_eq_getElem hlt, ?_⟩
    rw [choice?_eq_placed hs hall hi, Option.bind_some, List.getElem?_eq_getElem hlt]
    rfl
  refine realizes_ofList ?_ fun e he => ?_
  · rw [List.map_filterMap]
    calc _ = g.nodes.zipIdx.filterMap fun e => some e.1 := by
          refine List.filterMap_congr fun e he => ?_
          obtain ⟨color, -, hcolor⟩ := hread e he
          simp only [hcolor, Option.map_some]
      _ = g.nodes := by rw [List.filterMap_eq_map', List.zipIdx_map_fst]
  · obtain ⟨⟨a, i⟩, he', heq⟩ := List.mem_filterMap.1 he
    obtain ⟨color, hcolor, hcolor'⟩ := hread (a, i) he'
    cases heq.symm.trans hcolor'
    exact hcolor

end Search

/-! ## Planting a seed -/

section Plant

variable {seed : Coloring α} {palette : List Color} {entries done : List (α × Color)}
variable {s s' : Search}

/-- The search has chosen the positions of the given seed entries, and no
others. -/
structure Planted (g : Graph α) (palette : List Color) (done : List (α × Color)) (s : Search) :
    Prop where
  sound : Search.Sound g palette.length s
  choice : ∀ i a c, g.node? i = some a →
    (s.choice? i = some c ↔ ∃ color, (a, color) ∈ done ∧ palette.idxOf? color = some c)

theorem planted_start (g : Graph α) (hsize : palette.length ≤ maxPalette) :
    Planted g palette [] (.start g.nodeCount palette.length) where
  sound := by
    refine ⟨Search.consistent_start g hsize, fun i c h => ?_, fun i j c _ h => ?_⟩ <;>
    · rw [Search.choice?_start] at h
      exact absurd h.symm (Option.some_ne_none c)
  choice i a c _ := by simp [Search.choice?_start]

/-- No two entries of a seed name one node. -/
theorem notMem_of_entries_eq {color color' : Color}
    (hsplit : seed.entries = done ++ (a, color) :: entries) : (a, color') ∉ done := by
  intro h
  have hnodup := seed.entries_nodup
  rw [hsplit, List.map_append, List.nodup_append] at hnodup
  exact hnodup.2.2 a (List.mem_map_of_mem h) a (List.mem_map_of_mem (.head entries)) rfl

theorem Planted.choice?_eq_none (hs : Planted g palette done s) (hi : g.node? i = some a)
    (hfresh : ∀ color, (a, color) ∉ done) : s.choice? i = none := by
  rw [Option.eq_none_iff_forall_ne_some]
  intro d hd
  obtain ⟨color, h, -⟩ := (hs.choice i a d hi).1 hd
  exact hfresh color h

theorem Planted.step {color : Color} (hs : Planted g palette done s) (hi : g.node? i = some a)
    (hfresh : ∀ color, (a, color) ∉ done)
    (hc : palette.idxOf? color = some c) (hs' : Search.Sound g palette.length s')
    (h : Search.Assigned g palette.length s i c pruned s') :
    Planted g palette (done ++ [(a, color)]) s' := by
  refine ⟨hs', fun j b d hb => ?_⟩
  rw [h.choice]
  by_cases hji : j = i
  · rw [hji, hi] at hb
    cases hb
    rw [if_pos hji]
    constructor
    · rintro ⟨⟩
      exact ⟨color, List.mem_append_right _ (.head []), hc⟩
    · rintro ⟨color', h, hd⟩
      rcases List.mem_append.1 h with h | h
      · exact absurd h (hfresh color')
      · cases List.mem_singleton.1 h
        exact hc.symm.trans hd
  · rw [if_neg hji, hs.choice j b d hb]
    have hba : b ≠ a := fun heq => hji (Graph.node?_injective (heq ▸ hb) hi)
    simp [hba]

variable [DecidableEq α]

theorem solution_of_placement (hp : Placement g seed palette p) :
    Search.Solution g palette.length p :=
  ⟨hp.lt, hp.distinct⟩

/-- A placement follows a search in which only seed entries are planted. -/
theorem follows_of_planted (hs : Planted g palette done s) (hdone : ∀ e ∈ done, e ∈ seed.entries)
    (hp : Placement g seed palette p) : Search.Follows g s p := by
  intro i a c ha hi
  obtain ⟨color, hmem, hidx⟩ := (hs.choice i a c ha).1 hi
  have hseeded := hp.seeded a color (Coloring.get?_eq_some_iff.2 (hdone _ hmem))
  exact Option.some.inj (hseeded.symm.trans hidx)

/-- The planted neighbors of a seeded node have other colors, so its
position is left to it. -/
theorem Planted.mem_domain {color : Color} (hs : Planted g palette done s)
    (hseed : ValidSeed g seed) (hdone : ∀ e ∈ done, e ∈ seed.entries) (hi : g.node? i = some a)
    (hopen : s.choice? i = none) (hget : seed.get? a = some color)
    (hc : palette.idxOf? color = some c) : c ∈ s.domain i := by
  refine (hs.sound.mem_domain i (Graph.lt_nodeCount_of_node? hi) hopen c).2
    ⟨(List.getElem?_eq_some_iff.1 (getElem?_of_idxOf? hc)).1, fun j hij hj => ?_⟩
  obtain ⟨b, hb⟩ := Graph.exists_node?_of_lt hij.lt.2
  obtain ⟨color', h, hc'⟩ := (hs.choice j b c hb).1 hj
  have hsame := (getElem?_of_idxOf? hc).symm.trans (getElem?_of_idxOf? hc')
  refine hseed.distinct a b color ((Graph.hasEdge_iff_linked hi hb).2 hij) hget ?_
  rw [Option.some.inj hsame]
  exact Coloring.get?_eq_some_iff.2 (hdone _ h)

/-- A finished search that keeps the planted choices is a placement. -/
theorem Planted.placement (hs : Planted g palette seed.entries s) (hseed : ValidSeed g seed)
    (hpalette : ∀ a color, seed.get? a = some color → color ∈ palette)
    (hs' : Search.Sound g palette.length s') (hall : s'.openNodes = [])
    (hkeep : ∀ i c, s.choice? i = some c → s'.choice? i = some c) :
    Placement g seed palette (Search.placed g s') := by
  obtain ⟨hlt, hdistinct⟩ := Search.solution_placed hs' hall
  refine ⟨hlt, hdistinct, fun a color ha => ?_⟩
  obtain ⟨i, hi⟩ := Graph.mem_nodes_iff.1 (hseed.known a (Coloring.mem_nodes_of_get? ha))
  obtain ⟨c, hc⟩ := exists_idxOf? (hpalette a color ha)
  have hchoice := (hs.choice i a c hi).2 ⟨color, Coloring.get?_eq_some_iff.1 ha, hc⟩
  rw [hc]
  exact (hkeep i c hchoice).symm.trans (Search.choice?_eq_placed hs' hall hi)

/-- Seed entries that leave some node nothing: they give its neighbors
all positions of a palette. -/
def Starved (g : Graph α) (palette : List Color) (done : List (α × Color)) : Prop :=
  palette ≠ [] ∧ ∃ a, ∀ c < palette.length, ∃ b color, g.hasEdge a b ∧ (b, color) ∈ done ∧
    palette.idxOf? color = some c

theorem Starved.mono {done' : List (α × Color)} (h : Starved g palette done)
    (hsub : ∀ e ∈ done, e ∈ done') : Starved g palette done' := by
  obtain ⟨hpos, a, ha⟩ := h
  refine ⟨hpos, a, fun c hc => ?_⟩
  obtain ⟨b, color, hab, hb, hidx⟩ := ha c hc
  exact ⟨b, color, hab, hsub _ hb, hidx⟩

/-- A starved node has no place beside its neighbors. -/
theorem Starved.not_placement (h : Starved g palette done)
    (hdone : ∀ e ∈ done, e ∈ seed.entries) : ¬ ∃ p, Placement g seed palette p := by
  rintro ⟨p, hp⟩
  obtain ⟨hpos, a, ha⟩ := h
  obtain ⟨_, _, hedge, -, -⟩ := ha 0 (List.length_pos_iff.2 hpos)
  obtain ⟨b, color, hab, hb, hidx⟩ := ha (p a) (hp.lt a (Graph.mem_nodes_of_hasEdge hedge).1)
  have hseeded := hp.seeded b color (Coloring.get?_eq_some_iff.2 (hdone _ hb))
  exact hp.distinct a b hab (Option.some.inj (hidx.symm.trans hseeded))

/-- **Planting an entry.** Its position is chosen, or an open neighbor is
left nothing. -/
theorem Planted.assign_cases {color : Color} (hs : Planted g palette done s)
    (hseed : ValidSeed g seed) (hsplit : seed.entries = done ++ (a, color) :: entries)
    (hi : g.node? i = some a) (hc : palette.idxOf? color = some c) :
    (∃ pruned s', s.assign g.adjacency i c = (some pruned, s') ∧
        Planted g palette (done ++ [(a, color)]) s' ∧
        ∀ j, ¬ (s.domain j).isEmpty → ¬ (s'.domain j).isEmpty) ∨
      s.assign g.adjacency i c = (none, s) ∧ Starved g palette (done ++ [(a, color)]) := by
  have hlt := Graph.lt_nodeCount_of_node? hi
  have hfresh : ∀ color', (a, color') ∉ done := fun _ => notMem_of_entries_eq hsplit
  have hopen := hs.choice?_eq_none hi hfresh
  have hmem := hs.mem_domain hseed (fun e he => hsplit ▸ List.mem_append_left _ he) hi hopen
    (Coloring.get?_eq_some_iff.2 (hsplit ▸ List.mem_append_right _ (.head entries))) hc
  have hleft := (hs.sound.mem_domain i hlt hopen c).1 hmem
  rcases Search.assign_cases hs.sound.toConsistent hlt hopen (Domain.lt_of_mem hmem) with
    ⟨pruned, s', hassign, h⟩ | ⟨hassign, j, hij, hjopen, hempty⟩
  · exact .inl ⟨pruned, s', hassign, hs.step hi hfresh hc (hs.sound.assigned hleft h) h,
      h.nonempty⟩
  · refine .inr ⟨hassign, List.ne_nil_of_length_pos (Nat.zero_lt_of_lt hleft.1), ?_⟩
    obtain ⟨b, hb⟩ := Graph.exists_node?_of_lt hij.lt.2
    refine ⟨b, fun d hd => ?_⟩
    by_cases hdc : d = c
    · exact ⟨a, color, (Graph.hasEdge_iff_linked hb hi).2 hij.symm, by simp, hdc ▸ hc⟩
    · -- the domain held at most the position that was chosen
      have hnot : d ∉ s.domain j := fun hmem' => Domain.isEmpty_iff.1 hempty d
        ((Domain.mem_erase (Domain.lt_of_mem hmem)).2 ⟨hmem', hdc⟩)
      obtain ⟨l, hjl, hl⟩ : ∃ l, g.Linked j l ∧ s.choice? l = some d := by
        by_contra hnone
        exact hnot ((hs.sound.mem_domain j hij.lt.2 hjopen d).2
          ⟨hd, fun l hjl hl => hnone ⟨l, hjl, hl⟩⟩)
      obtain ⟨x, hx⟩ := Graph.exists_node?_of_lt hjl.lt.2
      obtain ⟨color', hx', hd'⟩ := (hs.choice l x d hx).1 hl
      exact ⟨x, color', (Graph.hasEdge_iff_linked hb hx).2 hjl, List.mem_append_left _ hx', hd'⟩

variable [ToString α]

/-- Planting takes no steps. -/
theorem steps_plant (adj : Adjacency)
    (h : plant g adj palette entries s = .ok (some s')) : s'.steps = s.steps := by
  induction entries generalizing s with
  | nil =>
    cases h
    rfl
  | cons e entries ih =>
    rw [plant] at h
    split at h
    · cases h
    · split at h
      · exact ih h
      · split at h
        · cases h
        · rename_i hassign
          have hsteps := congrArg (·.2.steps) hassign
          simp only [Search.steps_assign] at hsteps
          exact (ih h).trans hsteps.symm

/-- **Planting entry by entry**, as long as the palette has their colors:
all are planted and no node is left nothing, or some node is. -/
theorem plant_append {inside rest : List (α × Color)} (hseed : ValidSeed g seed)
    (hinside : ∀ e ∈ inside, e.2 ∈ palette) (hsplit : seed.entries = done ++ inside ++ rest)
    (hs : Planted g palette done s) :
    (∃ s', plant g g.adjacency palette (inside ++ rest) s =
          plant g g.adjacency palette rest s' ∧
        Planted g palette (done ++ inside) s' ∧
        ∀ i, ¬ (s.domain i).isEmpty → ¬ (s'.domain i).isEmpty) ∨
      plant g g.adjacency palette (inside ++ rest) s = .ok none ∧
        Starved g palette (done ++ inside) := by
  induction inside generalizing done s with
  | nil => exact .inl ⟨s, rfl, (List.append_nil done).symm ▸ hs, fun _ h => h⟩
  | cons e inside ih =>
    obtain ⟨a, color⟩ := e
    have hfirst : seed.entries = done ++ (a, color) :: (inside ++ rest) := by
      rw [hsplit, List.append_assoc, List.cons_append]
    have hnext : done ++ (a, color) :: inside = done ++ [(a, color)] ++ inside := by
      rw [List.append_assoc, List.singleton_append]
    have hget : seed.get? a = some color :=
      Coloring.get?_eq_some_iff.2 (hfirst ▸ List.mem_append_right _ (.head _))
    obtain ⟨c, hc⟩ := exists_idxOf? (hinside _ (.head inside))
    obtain ⟨i, hi⟩ := Graph.mem_nodes_iff.1 (hseed.known a (Coloring.mem_nodes_of_get? hget))
    simp only [List.cons_append, plant, hc, Graph.indexOf?_eq_some_iff.2 hi]
    rw [hnext]
    rcases hs.assign_cases hseed hfirst hi hc with
      ⟨pruned, s', hassign, hs', hkeep⟩ | ⟨hassign, hstarved⟩
    · simp only [hassign]
      rcases ih (fun e he => hinside e (.tail _ he)) (hnext ▸ hsplit) hs' with
        ⟨s'', hplant, hs'', hkeep'⟩ | hnone
      · exact .inl ⟨s'', hplant, hs'', fun j hj => hkeep' j (hkeep j hj)⟩
      · exact .inr hnone
    · simp only [hassign]
      exact .inr ⟨trivial, hstarved.mono fun e he => List.mem_append_left _ he⟩

/-- **Planting a seed.** All entries of a valid seed are planted, unless
there is no placement. -/
theorem plant_outcome (hseed : ValidSeed g seed)
    (hpalette : ∀ a color, seed.get? a = some color → color ∈ palette)
    (hsize : palette.length ≤ maxPalette) :
    (∃ s, plant g g.adjacency palette seed.entries (.start g.nodeCount palette.length) =
          .ok (some s) ∧
        Planted g palette seed.entries s) ∨
      plant g g.adjacency palette seed.entries (.start g.nodeCount palette.length) = .ok none ∧
        ¬ ∃ p, Placement g seed palette p := by
  have hinside : ∀ e ∈ seed.entries, e.2 ∈ palette := fun e he =>
    hpalette e.1 e.2 (Coloring.get?_eq_some_iff.2 he)
  have hplant := plant_append hseed hinside (List.append_nil _).symm (planted_start g hsize)
  rw [List.append_nil, List.nil_append] at hplant
  rcases hplant with ⟨s, hplant, hs, -⟩ | ⟨hplant, hstarved⟩
  · exact .inl ⟨s, hplant, hs⟩
  · exact .inr ⟨hplant, hstarved.not_placement fun _ h => h⟩

/-- **Only a step limit keeps the search from an exact answer.** -/
theorem color_exact_or_limited (limit : Option Nat) (hseed : ValidSeed g seed)
    (hpalette : ∀ a color, seed.get? a = some color → color ∈ palette)
    (hsize : palette.length ≤ maxPalette) :
    Exact g seed palette (color limit g seed palette).1 ∨
      ∃ l, limit = some l ∧
        (color limit g seed palette).1 = .error (.oracle oracleName (.stepLimit l)) := by
  rw [color, validateSeed_eq_ok_iff.2 hseed]
  simp only [if_neg (Nat.not_lt.2 hsize)]
  rcases plant_outcome hseed hpalette hsize with
    ⟨s, hplant, hs⟩ | ⟨hplant, hnone⟩
  · have hdepth : s.openNodes.length ≤ g.nodeCount := by
      rw [← hs.sound.size_chosen, ← List.length_range (n := s.chosen.size)]
      exact List.length_filter_le _ _
    have hout := Search.solve_outcome limit hs.sound hdepth
    simp only [hplant]
    generalize s.solve g.adjacency limit g.nodeCount = r at hout
    cases hout with
    | found hs' hall hkeep =>
      exact .inl (.found (hs.placement hseed hpalette hs' hall hkeep)
        (Search.realizes_readColoring hs' hall))
    | refuted n hnone =>
      refine .inl (.refuted fun ⟨p, hp⟩ => ?_)
      exact hnone p (solution_of_placement hp) (follows_of_planted hs (fun _ h => h) hp)
    | exhausted l s' hl => exact .inr ⟨l, hl, rfl⟩
  · simp only [hplant]
    exact .inl (.refuted hnone)

/-- **Without a limit the answer is exact.** -/
theorem exact_color (hseed : ValidSeed g seed)
    (hpalette : ∀ a color, seed.get? a = some color → color ∈ palette)
    (hsize : palette.length ≤ maxPalette) : Exact g seed palette (color none g seed palette).1 := by
  rcases color_exact_or_limited none hseed hpalette hsize with h | ⟨l, hl, -⟩
  · exact h
  · exact absurd hl.symm (Option.some_ne_none l)

end Plant

end Backtrack

namespace Backtracker

variable {α : Type} [DecidableEq α] [ToString α]

/-- **Backtracking is exact.** The unlimited search finds a coloring
exactly if there is a placement, and otherwise says that there is none.
What it finds is the coloring of a placement: it lists the nodes in their
order, keeps the seed, and is proper if the palette has no color twice. -/
theorem color_unlimited_iff (g : Graph α) (seed : Coloring α) (palette : List Color)
    (hseed : validateSeed g seed = .ok ())
    (hpalette : ∀ a color, seed.get? a = some color → color ∈ palette)
    (hsize : palette.length ≤ 64) :
    ((∃ c, (ColoringOracle.color unlimited g seed palette).1 = .ok (some c)) ↔
        ∃ p, Placement g seed palette p) ∧
      ((ColoringOracle.color unlimited g seed palette).1 = .ok none ↔
        ¬ ∃ p, Placement g seed palette p) ∧
      ∀ c, (ColoringOracle.color unlimited g seed palette).1 = .ok (some c) →
        (∃ p, Placement g seed palette p ∧ c.nodes = g.nodes ∧
          ∀ a ∈ g.nodes, c.get? a = palette[p a]?) ∧
        (∀ a color, seed.get? a = some color → c.get? a = some color) ∧
        (palette.Nodup → isProper g c) := by
  have hvalid := validateSeed_eq_ok_iff.1 hseed
  have hexact : Exact g seed palette (ColoringOracle.color unlimited g seed palette).1 :=
    Backtrack.exact_color hvalid hpalette hsize
  generalize (ColoringOracle.color unlimited g seed palette).1 = answer at hexact
  cases hexact with
  | found hp hc =>
    refine ⟨⟨fun _ => ⟨_, hp⟩, fun _ => ⟨_, rfl⟩⟩, ⟨nofun, fun h => absurd ⟨_, hp⟩ h⟩, ?_⟩
    rintro _ ⟨⟩
    exact ⟨⟨_, hp, hc.nodes, hc.color⟩, fun a color h => hc.get?_seeded hp hvalid h,
      fun hnodup => isProper_iff.2 (hc.proper hp hnodup)⟩
  | refuted hnone =>
    exact ⟨⟨nofun, fun h => absurd h hnone⟩, ⟨fun _ => hnone, fun _ => rfl⟩, nofun⟩

/-- A triangle is completed from a palette that holds a color twice: its
entries count as positions. -/
theorem color_unlimited_iff_triangle :
    ∃ c, (ColoringOracle.color unlimited
      (Graph.empty.joinAll [((0 : Fin 3), 1), (1, 2), (2, 0)]) (.ofList [(0, .red)])
      [.green, .green, .red]).1 = .ok (some c) := by
  refine (color_unlimited_iff _ _ _ (by decide +kernel) ?_ (by decide)).1.2
    ⟨fun a => if a = 0 then 2 else a.val - 1, by decide +kernel, by decide +kernel, ?_⟩ <;>
  · intro a color h
    have hentries := Coloring.get?_eq_some_iff.1 h
    cases List.mem_singleton.1 hentries
    decide

end Backtracker

end Tricolor
