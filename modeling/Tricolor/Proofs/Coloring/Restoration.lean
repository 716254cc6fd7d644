import Tricolor.Proofs.Coloring.Backtrack

/-!
# A search that fails leaves no trace

The search changes one state in place, and takes back what it did. In a
consistent search this restores everything but the number of steps: a
choice is taken back in the domains from which it was pruned, and the
search below it has left these as it found them (`branch_cons_cases`). By
induction on the depth, a search that finds nothing ends with the domains
and the choices that it started with (`solve_restores`). So every choice
meets the same search, and a bound on the depth that allows for all open
nodes does not show (`solve_eq_of_le`).
-/

namespace Tricolor

namespace Backtrack

namespace Search

variable {α : Type} {g : Graph α} {s : Search} {limit : Option Nat} {c : Nat} {cs : List Nat}
variable {k node depth : Nat} {rest rest' : Search → Except Error Bool × Search}
variable {r : Except Error Bool × Search}

/-! ## Going on after a failure -/

/-- If a search ends with nothing found, it is as before but for its
steps. -/
def Restores (s : Search) (r : Except Error Bool × Search) : Prop :=
  ∀ s', r = (.ok false, s') → ∃ n, s' = { s with steps := n }

/-- Goes on where a search has found nothing, and else keeps its end. -/
def retry (next : Search → Except Error Bool × Search) :
    Except Error Bool × Search → Except Error Bool × Search
  | (.ok false, s) => next s
  | r => r

/-- What goes on after a search that restores starts from the same state
but for its steps. -/
theorem Restores.retry_cases (h : Restores s r) :
    ((∀ s', r ≠ (.ok false, s')) ∧ ∀ next, retry next r = r) ∨
      ∃ n, ∀ next, retry next r = next { s with steps := n } := by
  obtain ⟨answer, s'⟩ := r
  cases answer with
  | error e =>
    refine .inl ⟨?_, fun _ => rfl⟩
    rintro _ ⟨⟩
  | ok found =>
    cases found with
    | true =>
      refine .inl ⟨?_, fun _ => rfl⟩
      rintro _ ⟨⟩
    | false =>
      obtain ⟨n, rfl⟩ := h s' rfl
      exact .inr ⟨n, fun _ => rfl⟩

/-! ## The search -/

section Branch

variable (hs : Consistent g k s) (hnode : node < g.nodeCount) (hopen : s.choice? node = none)

include hs hnode hopen

/-- **What trying a position does.** It is over the limit; or it is refused
and leaves the search as it was; or the search goes on with fewer open
nodes, and the choice can be taken back whatever steps were counted. -/
theorem branch_cons_cases (limit : Option Nat) (hc : c < 64) (cs : List Nat) :
    (∃ e s', ∀ rest, branch g.adjacency limit rest node (c :: cs) s = (.error e, s')) ∨
      (∃ n, ∀ rest, branch g.adjacency limit rest node (c :: cs) s =
        branch g.adjacency limit rest node cs { s with steps := n }) ∨
      ∃ pruned s', Consistent g k s' ∧ s'.openNodes.length < s.openNodes.length ∧
        (∀ n, ({ s' with steps := n } : Search).undo node c pruned = { s with steps := n }) ∧
        ∀ rest, branch g.adjacency limit rest node (c :: cs) s =
          retry (fun s'' => branch g.adjacency limit rest node cs (s''.undo node c pruned))
            (rest s') := by
  simp only [branch]
  cases hlimit : exhausted limit { s with steps := s.steps + 1 } with
  | some l => exact .inl ⟨_, _, fun _ => rfl⟩
  | none =>
    rcases assign_cases (hs.withSteps (s.steps + 1)) hnode hopen hc with
      ⟨pruned, s', hassign, h⟩ | ⟨hassign, -⟩
    · have hlt : s'.openNodes.length < s.openNodes.length :=
        h.length_openNodes_lt hs.size_chosen (mem_openNodes.2 ⟨hs.size_chosen ▸ hnode, hopen⟩)
      refine .inr (.inr ⟨pruned, s', h.consistent, hlt, h.undo, fun rest => ?_⟩)
      simp only [hassign]
      obtain ⟨answer, s''⟩ := rest s'
      cases answer with
      | error e => rfl
      | ok found => cases found <;> rfl
    · refine .inr (.inl ⟨s.steps + 1, fun rest => ?_⟩)
      simp only [hassign]

variable (hcs : ∀ c ∈ cs, c < 64) (hrest : ∀ s', Consistent g k s' → Restores s' (rest s'))

include hcs hrest

/-- **Trying positions.** Each that fails is taken back before the next
one. -/
theorem branch_restores : Restores s (branch g.adjacency limit rest node cs s) := by
  induction cs generalizing s with
  | nil =>
    rintro _ ⟨⟩
    exact ⟨s.steps, rfl⟩
  | cons c cs ih =>
    have hnext (n : Nat) :
        Restores s (branch g.adjacency limit rest node cs { s with steps := n }) :=
      ih (hs.withSteps n) hopen fun d hd => hcs d (.tail c hd)
    rcases branch_cons_cases hs hnode hopen limit (hcs c (.head cs)) cs with
      ⟨e, s', h⟩ | ⟨n, h⟩ | ⟨pruned, s', hs', -, hundo, h⟩
    · rw [h]
      rintro _ ⟨⟩
    · rw [h]
      exact hnext n
    · rw [h]
      rcases (hrest s' hs').retry_cases with ⟨hend, hretry⟩ | ⟨n, hretry⟩
      · rw [hretry]
        exact fun s'' heq => absurd heq (hend s'')
      · rw [hretry, hundo]
        exact hnext n

/-- A branch asks the rest of the search only where fewer nodes are
open. -/
theorem branch_congr (hdepth : s.openNodes.length ≤ depth + 1)
    (heq : ∀ s', Consistent g k s' → s'.openNodes.length ≤ depth → rest s' = rest' s') :
    branch g.adjacency limit rest node cs s = branch g.adjacency limit rest' node cs s := by
  induction cs generalizing s with
  | nil => rfl
  | cons c cs ih =>
    have hnext (n : Nat) : branch g.adjacency limit rest node cs { s with steps := n } =
        branch g.adjacency limit rest' node cs { s with steps := n } :=
      ih (hs.withSteps n) hopen (fun d hd => hcs d (.tail c hd)) hdepth
    rcases branch_cons_cases hs hnode hopen limit (hcs c (.head cs)) cs with
      ⟨e, s', h⟩ | ⟨n, h⟩ | ⟨pruned, s', hs', hlt, hundo, h⟩
    · rw [h, h]
    · rw [h, h, hnext]
    · rw [h, h, ← heq s' hs' (by omega)]
      rcases (hrest s' hs').retry_cases with ⟨-, hretry⟩ | ⟨n, hretry⟩
      · rw [hretry, hretry]
      · rw [hretry, hretry, hundo, hnext]

end Branch

/-- **A search that finds nothing** is as before but for its steps. -/
theorem solve_restores (hs : Consistent g k s) (limit : Option Nat) (depth : Nat) :
    Restores s (s.solve g.adjacency limit depth) := by
  induction depth generalizing s with
  | zero =>
    intro s' h
    exact ⟨s.steps, (congrArg Prod.snd h).symm⟩
  | succ depth ih =>
    rw [solve]
    rcases pick_cases g.adjacency s with ⟨hpick, -⟩ | ⟨node, hnode, hpick⟩
    · rw [hpick]
      rintro _ ⟨⟩
    · obtain ⟨hlt, hopen⟩ := mem_openNodes.1 hnode
      rw [hpick]
      exact branch_restores hs (hs.size_chosen ▸ hlt) hopen
        (fun _ hc => Domain.lt_of_mem (Domain.mem_positions.1 hc)) fun _ => ih

/-- One level more than there are open nodes is not reached. -/
theorem solve_succ (hs : Consistent g k s) (hdepth : s.openNodes.length ≤ depth) :
    s.solve g.adjacency limit (depth + 1) = s.solve g.adjacency limit depth := by
  induction depth generalizing s with
  | zero =>
    rcases pick_cases g.adjacency s with ⟨hpick, -⟩ | ⟨node, hnode, -⟩
    · rw [solve, solve, hpick]
      rfl
    · rw [List.eq_nil_of_length_eq_zero (Nat.le_zero.1 hdepth)] at hnode
      exact absurd hnode List.not_mem_nil
  | succ depth ih =>
    rw [solve, solve]
    rcases pick_cases g.adjacency s with ⟨hpick, -⟩ | ⟨node, hnode, hpick⟩
    · rw [hpick]
    · obtain ⟨hlt, hopen⟩ := mem_openNodes.1 hnode
      rw [hpick]
      exact branch_congr hs (hs.size_chosen ▸ hlt) hopen
        (fun _ hc => Domain.lt_of_mem (Domain.mem_positions.1 hc))
        (fun s' hs' => solve_restores hs' limit (depth + 1)) hdepth fun _ => ih

/-- **The bound on the depth does not show** if it allows for all open
nodes. -/
theorem solve_eq_of_le (hs : Consistent g k s) (hdepth : s.openNodes.length ≤ depth) :
    s.solve g.adjacency limit depth = s.solve g.adjacency limit s.openNodes.length := by
  induction depth, hdepth using Nat.le_induction with
  | base => rfl
  | succ depth hdepth ih => rw [solve_succ hs hdepth, ih]

/-- **What fails is taken back exactly.** In a consistent search, choosing
a position that is left to an open node either changes nothing, and some
open neighbor has no other position, or it gives a consistent search with
that choice and no domain emptied, and then taking the choice back restores
the search. A search from there that finds nothing leaves the domains and
the choices as they were, whatever its limit and its depth. -/
theorem assign_solve_restores (hs : Consistent g k s) :
    (∀ node c, node < g.nodeCount → s.choice? node = none → c ∈ s.domain node →
      (s.assign g.adjacency node c = (none, s) ∧
          ∃ j, g.Linked node j ∧ s.choice? j = none ∧ ((s.domain j).erase c).isEmpty) ∨
        ∃ pruned s', s.assign g.adjacency node c = (some pruned, s') ∧
          Consistent g k s' ∧
          (∀ i, s'.choice? i = if i = node then some c else s.choice? i) ∧
          (∀ i, ¬ (s.domain i).isEmpty → ¬ (s'.domain i).isEmpty) ∧
          s'.undo node c pruned = s) ∧
      ∀ limit depth, (s.solve g.adjacency limit depth).1 = .ok false →
        (s.solve g.adjacency limit depth).2.domains = s.domains ∧
          (s.solve g.adjacency limit depth).2.chosen = s.chosen := by
  refine ⟨fun node c hnode hopen hc => ?_, fun limit depth hnone => ?_⟩
  · rcases assign_cases hs hnode hopen (Domain.lt_of_mem hc) with
      ⟨pruned, s', hassign, h⟩ | hrefused
    · have hundo : s'.undo node c pruned = { s with steps := s'.steps } := h.undo s'.steps
      rw [h.steps] at hundo
      exact .inr ⟨pruned, s', hassign, h.consistent, h.choice, h.nonempty, hundo⟩
    · exact .inl hrefused
  · have hback := solve_restores hs limit depth
    generalize s.solve g.adjacency limit depth = r at hnone hback ⊢
    obtain ⟨answer, s'⟩ := r
    obtain rfl : answer = .ok false := hnone
    obtain ⟨n, rfl⟩ := hback s' rfl
    exact ⟨rfl, rfl⟩

/-- Two positions are too few for a triangle. A first choice can be made,
and taken back, and a whole search ends as it started. -/
theorem assign_solve_restores_triangle :
    let g : Graph (Fin 3) := Graph.empty.joinAll [(0, 1), (1, 2), (2, 0)]
    let s := start g.nodeCount 2
    (∃ s', s.assign g.adjacency 0 1 = (some [1, 2], s') ∧ s'.undo 0 1 [1, 2] = s) ∧
      (s.solve g.adjacency none 3).1 = .ok false ∧
      (s.solve g.adjacency none 3).2.steps = 4 ∧
      (s.solve g.adjacency none 3).2.domains = s.domains ∧
      (s.solve g.adjacency none 3).2.chosen = s.chosen := by
  intro g s
  obtain ⟨hassign, hsolve⟩ := assign_solve_restores (consistent_start g (k := 2) (by decide))
  have hnone : (s.solve g.adjacency none 3).1 = .ok false := by decide +kernel
  refine ⟨?_, hnone, by decide +kernel, hsolve none 3 hnone⟩
  have hmade : (s.assign g.adjacency 0 1).1 = some [1, 2] := by decide +kernel
  rcases hassign 0 1 (by decide +kernel) (choice?_start _ _ _)
      ((Domain.contains_iff (by decide)).1 (by decide +kernel)) with
    ⟨hrefused, -⟩ | ⟨pruned, s', hassign, -, -, -, hundo⟩
  · rw [hrefused] at hmade
    cases hmade
  · rw [hassign] at hmade
    cases hmade
    exact ⟨s', hassign, hundo⟩

end Search

end Backtrack

end Tricolor
