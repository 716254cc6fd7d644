import Tricolor.Coloring.Backtrack
import Tricolor.Proofs.Coloring.Domain
import Tricolor.Proofs.Distinct
import Tricolor.Proofs.Graph.Lookup

/-!
# Choosing and taking back

A search is consistent if the domain of every open node holds what the
choices of its neighbors leave to it. Choosing a position keeps a search
consistent, and taking the choice back restores the search as it was
(`Assigned`). A choice is refused only if it leaves some neighbor nothing,
and then the search is unchanged (`assign_cases`).
-/

namespace Tricolor

namespace Backtrack

namespace Search

variable {α : Type} {g : Graph α} {s s' : Search} {i j k c node : Nat} {js pruned : List Nat}
variable {kept : Bool}

/-! ## Reading a search -/

/-- A position that the choices of its neighbors leave to a node. -/
def Left (g : Graph α) (k : Nat) (s : Search) (i c : Nat) : Prop :=
  c < k ∧ ∀ j, g.Linked i j → s.choice? j ≠ some c

/-- A search over the nodes of a graph in which the domain of each open
node holds what its neighbors leave. -/
structure Consistent (g : Graph α) (k : Nat) (s : Search) : Prop where
  size_domains : s.domains.size = g.nodeCount
  size_chosen : s.chosen.size = g.nodeCount
  mem_domain : ∀ i, i < g.nodeCount → s.choice? i = none → ∀ c, c ∈ s.domain i ↔ s.Left g k i c

theorem Consistent.withSteps (hs : Consistent g k s) (n : Nat) :
    Consistent g k { s with steps := n } :=
  ⟨hs.size_domains, hs.size_chosen, hs.mem_domain⟩

theorem choice?_start (n k i : Nat) : (start n k).choice? i = none := by
  simp only [start, choice?, Array.getElem?_replicate]
  split <;> rfl

theorem consistent_start (g : Graph α) (hk : k ≤ 64) :
    Consistent g k (.start g.nodeCount k) where
  size_domains := by simp [start]
  size_chosen := by simp [start]
  mem_domain i hi _ c := by
    have hfull : (start g.nodeCount k).domain i = Domain.full k := by
      simp [start, domain, hi]
    rw [hfull, Domain.mem_full hk]
    exact ⟨fun hc => ⟨hc, fun j _ h => Option.some_ne_none c (h.symm.trans (choice?_start _ _ j))⟩,
      fun h => h.1⟩

/-! ## Changing domains -/

theorem getElem?_foldl_modify {β : Type} (f : β → β) (hnodup : js.Nodup) (xs : Array β) (i : Nat) :
    (js.foldl (fun xs j => xs.modify j f) xs)[i]? =
      if i ∈ js then xs[i]?.map f else xs[i]? := by
  induction js generalizing xs with
  | nil => simp
  | cons j js ih =>
    obtain ⟨hj, hnodup⟩ := List.nodup_cons.1 hnodup
    rw [List.foldl_cons, ih hnodup, Array.getElem?_modify]
    by_cases hij : i = j
    · subst hij
      rw [if_neg hj, if_pos rfl, if_pos List.mem_cons_self]
    · rw [if_neg (Ne.symm hij)]
      simp only [List.mem_cons, hij, false_or]

theorem size_foldl_modify {β : Type} (f : β → β) (js : List Nat) (xs : Array β) :
    (js.foldl (fun xs j => xs.modify j f) xs).size = xs.size := by
  induction js generalizing xs with
  | nil => rfl
  | cons j js ih => rw [List.foldl_cons, ih, Array.size_modify]

/-- Removes a position from the domains of some nodes. -/
def erase (s : Search) (c : Nat) (js : List Nat) : Search :=
  { s with domains := js.foldl (fun domains j => domains.modify j (Domain.erase c)) s.domains }

theorem domain_erase (hnodup : js.Nodup) :
    (s.erase c js).domain i = if i ∈ js then (s.domain i).erase c else s.domain i := by
  rw [domain, erase, getElem?_foldl_modify _ hnodup, domain]
  split
  · cases s.domains[i]? with
    | none => exact (Domain.erase_empty c).symm
    | some d => rfl
  · rfl

theorem domain_erase_of_notMem (hi : i ∉ js) (hnodup : js.Nodup) :
    (s.erase c js).domain i = s.domain i := by
  rw [domain_erase hnodup, if_neg hi]

/-! ## Pruning -/

/-- A node that pruning position `c` concerns: it is open and the position
is left to it. -/
def Concerned (s : Search) (c j : Nat) : Prop := s.choice? j = none ∧ c ∈ s.domain j

/-- What pruning position `c` from a list of nodes does. It takes the
position from nodes that are concerned. If it goes through, these are all
of them and each keeps some position; if not, one is left with nothing. -/
structure Pruned (s : Search) (c : Nat) (js : List Nat) (kept : Bool) (pruned : List Nat) :
    Prop where
  sublist : pruned.Sublist js
  concerned : ∀ j ∈ pruned, s.Concerned c j
  all : kept = true → ∀ j ∈ js, s.Concerned c j → j ∈ pruned
  nonempty : kept = true → ∀ j ∈ pruned, ¬ ((s.domain j).erase c).isEmpty
  wiped : kept = false → ∃ j ∈ js, s.choice? j = none ∧ ((s.domain j).erase c).isEmpty

theorem Pruned.skip (h : s.Pruned c js kept pruned) (hj : ¬ s.Concerned c j) :
    s.Pruned c (j :: js) kept pruned where
  sublist := h.sublist.cons j
  concerned := h.concerned
  all hkept i hi hconcerned := by
    rcases List.mem_cons.1 hi with rfl | hi
    · exact absurd hconcerned hj
    · exact h.all hkept i hi hconcerned
  nonempty := h.nonempty
  wiped hkept := by
    obtain ⟨i, hi, hempty⟩ := h.wiped hkept
    exact ⟨i, .tail j hi, hempty⟩

theorem Pruned.wipe (hj : s.Concerned c j) (hempty : ((s.domain j).erase c).isEmpty) :
    s.Pruned c (j :: js) false [j] where
  sublist := List.singleton_sublist.2 (.head js)
  concerned _ hi := (List.mem_singleton.1 hi).symm ▸ hj
  all := nofun
  nonempty := nofun
  wiped _ := ⟨j, .head js, hj.1, hempty⟩

/-- The other nodes keep their domains when one is pruned. -/
theorem Pruned.cons (hjs : j ∉ js) (h : (s.erase c [j]).Pruned c js kept pruned)
    (hj : s.Concerned c j) (hnonempty : ¬ ((s.domain j).erase c).isEmpty) :
    s.Pruned c (j :: js) kept (j :: pruned) := by
  have hother : ∀ i ∈ js, (s.erase c [j]).domain i = s.domain i := fun i hi =>
    domain_erase_of_notMem (fun h => hjs (List.mem_singleton.1 h ▸ hi)) (List.nodup_singleton j)
  refine ⟨h.sublist.cons_cons j, fun i hi => ?_, fun hkept i hi hconcerned => ?_,
    fun hkept i hi => ?_, fun hkept => ?_⟩
  · rcases List.mem_cons.1 hi with rfl | hi
    · exact hj
    · have := h.concerned i hi
      rwa [Concerned, hother i (h.sublist.subset hi)] at this
  · rcases List.mem_cons.1 hi with rfl | hi
    · exact .head pruned
    · refine .tail j (h.all hkept i hi ?_)
      rwa [Concerned, hother i hi]
  · rcases List.mem_cons.1 hi with rfl | hi
    · exact hnonempty
    · have := h.nonempty hkept i hi
      rwa [hother i (h.sublist.subset hi)] at this
  · obtain ⟨i, hi, hopen, hempty⟩ := h.wiped hkept
    rw [hother i hi] at hempty
    exact ⟨i, .tail j hi, hopen, hempty⟩

/-- **Pruning, node by node.** -/
theorem prune_spec (hc : c < 64) (js : List Nat) (s : Search) (hnodup : js.Nodup) :
    ∃ kept pruned, prune c js s = (kept, pruned, s.erase c pruned) ∧
      s.Pruned c js kept pruned := by
  induction js generalizing s with
  | nil => exact ⟨true, [], rfl, .slnil, nofun, nofun, nofun, nofun⟩
  | cons j js ih =>
    obtain ⟨hjs, hnodup⟩ := List.nodup_cons.1 hnodup
    have hskip : ((s.choice? j).isSome || !(s.domain j).contains c) ↔ ¬ s.Concerned c j := by
      rw [Concerned, ← Domain.contains_iff hc, ← Option.not_isSome_iff_eq_none]
      cases (s.choice? j).isSome <;> cases (s.domain j).contains c <;> decide
    rw [prune]
    split
    · rename_i h
      obtain ⟨kept, pruned, hprune, hspec⟩ := ih s hnodup
      exact ⟨kept, pruned, hprune, hspec.skip (hskip.1 h)⟩
    · rename_i h
      have hj := not_not.1 (mt hskip.2 h)
      have hstep : ({ s with domains := s.domains.modify j (Domain.erase c) } : Search) =
          s.erase c [j] := rfl
      have hdomain : (s.erase c [j]).domain j = (s.domain j).erase c := by
        rw [domain_erase (List.nodup_singleton j), if_pos (List.mem_singleton.2 rfl)]
      simp only [hstep, hdomain]
      split
      · exact ⟨false, [j], rfl, .wipe hj ‹_›⟩
      · obtain ⟨kept, pruned, hprune, hspec⟩ := ih (s.erase c [j]) hnodup
        rw [hprune]
        exact ⟨kept, j :: pruned, rfl, hspec.cons hjs hj ‹_›⟩

/-- Pruning takes no steps. -/
theorem steps_prune (c : Nat) (js : List Nat) (s : Search) :
    (prune c js s).2.2.steps = s.steps := by
  induction js generalizing s with
  | nil => rfl
  | cons j js ih =>
    rw [prune]
    split
    · exact ih s
    · simp only
      split
      · rfl
      · exact ih _

/-! ## Choosing -/

/-- A choice is no step until the search counts it. -/
theorem steps_assign (adj : Adjacency) (s : Search) (node c : Nat) :
    (s.assign adj node c).2.steps = s.steps := by
  have hprune := steps_prune c (adj.neighbors node)
    { s with chosen := s.chosen.setIfInBounds node (some c) }
  rw [assign]
  split
  · rename_i h
    rwa [h] at hprune
  · rename_i h
    rwa [h] at hprune

/-- Sets the choice of a node. -/
def choose (s : Search) (node : Nat) (choice : Option Nat) : Search :=
  { s with chosen := s.chosen.setIfInBounds node choice }

theorem choice?_choose {choice : Option Nat} (hnode : node < s.chosen.size) :
    (s.choose node choice).choice? i = if i = node then choice else s.choice? i := by
  rw [choice?, choose, Array.getElem?_setIfInBounds, choice?]
  by_cases hi : i = node
  · rw [if_pos hi.symm, if_pos hnode, if_pos hi]
    rfl
  · rw [if_neg (Ne.symm hi), if_neg hi]

/-- Restoring the positions that were removed gives back the domains. -/
theorem restore_erase (hnodup : js.Nodup) (hjs : ∀ j ∈ js, c ∈ s.domain j) :
    js.foldl (fun domains j => domains.modify j (Domain.restore c)) (s.erase c js).domains =
      s.domains := by
  refine Array.ext_getElem? fun i => ?_
  rw [getElem?_foldl_modify _ hnodup, erase, getElem?_foldl_modify _ hnodup]
  split
  · rename_i hi
    cases hd : s.domains[i]? with
    | none => rfl
    | some d =>
      have hmem := hjs i hi
      rw [domain, hd] at hmem
      exact congrArg some (Domain.restore_erase hmem)
  · rfl

/-- Opening a node whose choice was set gives back the choices. -/
theorem reopen_choose (hopen : s.choice? node = none) (hnode : node < s.chosen.size) :
    (s.choose node (some c)).chosen.setIfInBounds node none = s.chosen := by
  refine Array.ext_getElem? fun i => ?_
  rw [choose, Array.getElem?_setIfInBounds, Array.getElem?_setIfInBounds,
    Array.size_setIfInBounds]
  by_cases hi : node = i
  · subst hi
    rw [if_pos rfl, if_pos hnode]
    rw [choice?, Array.getElem?_eq_getElem hnode, Option.join_some] at hopen
    rw [Array.getElem?_eq_getElem hnode, hopen]
  · rw [if_neg hi, if_neg hi]

/-- Taking back a choice restores the search, whatever steps were counted
in the meantime. -/
theorem undo_erase_choose (hopen : s.choice? node = none) (hnode : node < s.chosen.size)
    (hnodup : js.Nodup) (hjs : ∀ j ∈ js, c ∈ s.domain j) (n : Nat) :
    ({ (s.choose node (some c)).erase c js with steps := n } : Search).undo node c js =
      { s with steps := n } := by
  have hdomains := restore_erase (s := s) hnodup hjs
  have hchosen := reopen_choose (c := c) hopen hnode
  simp only [erase, choose] at hdomains hchosen
  simp only [undo, erase, choose, hdomains, hchosen]

/-- What the neighbors leave after a choice: the position goes from the
neighbors of the node. -/
theorem left_choose {d : Nat} (hnode : node < s.chosen.size) (hopen : s.choice? node = none) :
    (s.choose node (some c)).Left g k i d ↔ s.Left g k i d ∧ (g.Linked i node → d ≠ c) := by
  simp only [Left, choice?_choose hnode]
  constructor
  · rintro ⟨hd, h⟩
    refine ⟨⟨hd, fun j hj => ?_⟩, fun hi hdc => h node hi (by rw [if_pos rfl, hdc])⟩
    by_cases hjn : j = node
    · rw [hjn, hopen]
      exact (Option.some_ne_none d).symm
    · have := h j hj
      rwa [if_neg hjn] at this
  · rintro ⟨⟨hd, h⟩, hdc⟩
    refine ⟨hd, fun j hj => ?_⟩
    split
    · rename_i hjn
      exact fun heq => hdc (hjn ▸ hj) (Option.some.inj heq).symm
    · exact h j hj

theorem open_of_choose (hnode : node < s.chosen.size)
    (h : (s.choose node (some c)).choice? i = none) : s.choice? i = none := by
  rw [choice?_choose hnode] at h
  split at h
  · exact absurd h (Option.some_ne_none c)
  · exact h

/-- Pruning the neighbors of a node makes up for its choice. -/
theorem Consistent.prune (hs : Consistent g k s) (hnode : node < g.nodeCount)
    (hopen : s.choice? node = none) (hc : c < 64)
    (h : (s.choose node (some c)).Pruned c (g.neighborIndices node) true pruned) :
    Consistent g k ((s.choose node (some c)).erase c pruned) where
  size_domains := (size_foldl_modify _ _ _).trans hs.size_domains
  size_chosen := Array.size_setIfInBounds.trans hs.size_chosen
  mem_domain i hi hi' d := by
    have hsize : node < s.chosen.size := hs.size_chosen ▸ hnode
    have hmem : d ∈ (s.choose node (some c)).domain i ↔ s.Left g k i d :=
      hs.mem_domain i hi (open_of_choose hsize hi') d
    refine Iff.trans ?_ (left_choose hsize hopen).symm
    rw [domain_erase (h.sublist.nodup (g.nodup_neighborIndices node)), ← hmem]
    split
    · -- only neighbors are pruned
      rename_i hin
      have hlinked := (Graph.mem_neighborIndices.1 (h.sublist.subset hin)).symm
      rw [Domain.mem_erase hc]
      exact and_congr_right fun _ => ⟨fun h _ => h, fun h => h hlinked⟩
    · -- a neighbor that was not pruned had already lost the position
      rename_i hnot
      refine (and_iff_left_of_imp fun hd hlinked hdc => hnot ?_).symm
      exact h.all rfl i (Graph.mem_neighborIndices.2 hlinked.symm) ⟨hi', hdc ▸ hd⟩

/-- What the search is after a choice was made: consistent, with one more
choice and no domain emptied, and the choice can be taken back. -/
structure Assigned (g : Graph α) (k : Nat) (s : Search) (node c : Nat) (pruned : List Nat)
    (s' : Search) : Prop where
  consistent : Consistent g k s'
  choice : ∀ i, s'.choice? i = if i = node then some c else s.choice? i
  nonempty : ∀ i, ¬ (s.domain i).isEmpty → ¬ (s'.domain i).isEmpty
  steps : s'.steps = s.steps
  undo : ∀ n, ({ s' with steps := n } : Search).undo node c pruned = { s with steps := n }

/-- **Choosing a position.** Either the choice is made, or nothing is
changed, and some open neighbor had no other position left. -/
theorem assign_cases (hs : Consistent g k s) (hnode : node < g.nodeCount)
    (hopen : s.choice? node = none) (hc : c < 64) :
    (∃ pruned s', s.assign g.adjacency node c = (some pruned, s') ∧
        Assigned g k s node c pruned s') ∨
      s.assign g.adjacency node c = (none, s) ∧
        ∃ j, g.Linked node j ∧ s.choice? j = none ∧ ((s.domain j).erase c).isEmpty := by
  have hsize : node < s.chosen.size := hs.size_chosen ▸ hnode
  obtain ⟨kept, pruned, hprune, hspec⟩ := prune_spec hc (g.neighborIndices node)
    (s.choose node (some c)) (g.nodup_neighborIndices node)
  have hnodup := hspec.sublist.nodup (g.nodup_neighborIndices node)
  have hundo := undo_erase_choose hopen hsize hnodup fun j hj => (hspec.concerned j hj).2
  have hassign : s.assign g.adjacency node c =
      if kept then (some pruned, (s.choose node (some c)).erase c pruned)
      else (none, ((s.choose node (some c)).erase c pruned).undo node c pruned) := by
    rw [assign, Graph.neighbors_adjacency]
    simp only [choose] at hprune ⊢
    rw [hprune]
    cases kept <;> rfl
  rw [hassign]
  cases kept with
  | false =>
    right
    obtain ⟨j, hj, hj', hempty⟩ := hspec.wiped rfl
    refine ⟨?_, j, Graph.mem_neighborIndices.1 hj, open_of_choose hsize hj', hempty⟩
    exact congrArg (Prod.mk none) (hundo s.steps)
  | true =>
    left
    refine ⟨pruned, _, rfl, hs.prune hnode hopen hc hspec, fun _ => choice?_choose hsize,
      fun i hne => ?_, rfl, hundo⟩
    rw [domain_erase hnodup]
    split
    · exact hspec.nonempty rfl i ‹_›
    · exact hne

end Search

end Backtrack

end Tricolor
