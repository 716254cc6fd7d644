import Tricolor.Proofs.Graph.Calls

/-!
# Graphs kept in place

A graph that is changed in place keeps, with every node, the set of the
positions of its neighbors, in the order of their insertion, and a
counter of the edges. Linking two positions looks for the second one in
the set of the first, and if it is missing there, enters each into the
set of the other and counts, without looking any further. A batch is
entered edge by edge, and what was entered before a failure stays.

All this is sound only as far as the sets are symmetric. They are: run
side by side, the sets are those of the graph after every sequence of
calls, and the answers are the same (`after_neighborSets`,
`perform_neighborSets`), so in particular no failing call leaves a trace.
-/

namespace Tricolor

/-- Nodes, each with the positions of its neighbors, and the number of
edges. -/
@[ext]
structure NeighborSets (α : Type) where
  entries : List (α × List Nat)
  edgeCount : Nat
  deriving DecidableEq, Repr

namespace NeighborSets

open Tricolor.Graph (Call Answer History)

variable {α : Type}

/-! ## Operations -/

/-- No nodes. -/
def empty : NeighborSets α := ⟨[], 0⟩

/-- The set of a position. -/
def neighbors (t : NeighborSets α) (i : Nat) : List Nat := (t.entries[i]?.map Prod.snd).getD []

/-- Enters position `j` into the set of position `i`, behind what is
there. -/
def enter (i j : Nat) (t : NeighborSets α) : NeighborSets α :=
  { t with
    entries := t.entries.modify i fun (a, set) => (a, if j ∈ set then set else set ++ [j]) }

/-- Links two positions, and tells whether the link is new, by the set of
the first position alone. -/
def link (t : NeighborSets α) (i j : Nat) : Bool × NeighborSets α :=
  if j ∈ t.neighbors i then (false, t)
  else
    let t := (t.enter i j).enter j i
    (true, { t with edgeCount := t.edgeCount + 1 })

variable [DecidableEq α]

/-- The position of a node, which is added if it is missing. -/
def addNode (t : NeighborSets α) (a : α) : Nat × NeighborSets α :=
  match t.entries.findIdx? (·.1 == a) with
  | some i => (i, t)
  | none => (t.entries.length, { t with entries := t.entries ++ [(a, [])] })

variable [ToString α]

/-- Links two nodes, which must differ. -/
def addEdge (t : NeighborSets α) (a b : α) : Except Error Bool × NeighborSets α :=
  if a = b then (.error (.selfLoop (toString a)), t)
  else
    let (i, t) := t.addNode a
    let (j, t) := t.addNode b
    let (fresh, t) := t.link i j
    (.ok fresh, t)

/-- Links pairs of nodes one after the other, up to the first failure. -/
def addAll (t : NeighborSets α) : List (α × α) → Except Error Unit × NeighborSets α
  | [] => (.ok (), t)
  | e :: edges =>
    match t.addEdge e.1 e.2 with
    | (.ok _, t) => t.addAll edges
    | (.error cause, t) => (.error cause, t)

/-- Links pairs of nodes one after the other, unless one is a loop. -/
def addEdges (t : NeighborSets α) (edges : List (α × α)) : Except Error Unit × NeighborSets α :=
  match edges.find? fun e => e.1 == e.2 with
  | some (a, _) => (.error (.selfLoop (toString a)), t)
  | none => t.addAll edges

/-- Makes a call. -/
def perform (t : NeighborSets α) : Call α → Except Error Answer × NeighborSets α
  | .addNode a => ((t.addNode a).map (fun i => .ok (.position i)) id)
  | .addEdge a b => (t.addEdge a b).map (·.map .fresh) id
  | .addEdges edges => (t.addEdges edges).map (·.map fun () => .done) id

/-- **A call with a loop leaves no trace.** -/
theorem perform_of_loop {call : Call α} {a : α} (h : call.loop? = some a) (t : NeighborSets α) :
    t.perform call = (.error (.selfLoop (toString a)), t) := by
  rcases Call.loop?_cases h with rfl | ⟨edges, b, rfl, hfind⟩
  · simp [perform, addEdge, Except.map]
  · simp [perform, addEdges, hfind, Except.map]

/-- The sets after some calls. -/
def after : History α → NeighborSets α
  | [] => empty
  | call :: past => ((after past).perform call).2

end NeighborSets

/-! ## The sets of a graph -/

namespace Graph

variable {α : Type} {g : Graph α} {a b : α} {i j : Nat}

/-- The neighbors of every node, and the number of edges. -/
def neighborSets (g : Graph α) : NeighborSets α :=
  ⟨g.nodes.mapIdx fun i a => (a, g.neighborIndices i), g.edgeCount⟩

theorem getElem?_entries (g : Graph α) (i : Nat) :
    g.neighborSets.entries[i]? = (g.node? i).map fun a => (a, g.neighborIndices i) := by
  rw [neighborSets, List.getElem?_mapIdx, getElem?_nodes]

theorem neighbors_neighborSets (h : i < g.nodeCount) :
    g.neighborSets.neighbors i = g.neighborIndices i := by
  obtain ⟨a, ha⟩ := exists_node?_of_lt h
  rw [NeighborSets.neighbors, getElem?_entries, ha]
  rfl

theorem eq_neighborSets {t : NeighborSets α} (hcount : t.edgeCount = g.edgeCount)
    (h : ∀ i, t.entries[i]? = (g.node? i).map fun a => (a, g.neighborIndices i)) :
    t = g.neighborSets :=
  NeighborSets.ext (List.ext_getElem? fun i => (h i).trans (g.getElem?_entries i).symm) hcount

theorem getElem?_enter (t : NeighborSets α) (i j p : Nat) :
    (t.enter i j).entries[p]? = t.entries[p]?.map fun e =>
      if i = p then (e.1, if j ∈ e.2 then e.2 else e.2 ++ [j]) else e :=
  List.getElem?_modify ..

/-- **Linking from one side.** What is missing in the set of the first
position is missing in that of the second, so both sets grow by one. -/
theorem link_neighborSets (hi : i < g.nodeCount) (hj : j < g.nodeCount) (hne : i ≠ j) :
    g.neighborSets.link i j = (!decide (g.Linked i j), (g.link i j).neighborSets) := by
  simp only [NeighborSets.link, neighbors_neighborSets hi, mem_neighborIndices]
  by_cases hl : g.Linked i j
  · simp only [if_pos hl, link_of_linked hl, decide_eq_true hl, Bool.not_true]
  · have hcount : g.edgeCount + 1 = (g.link i j).edgeCount := by
      rw [← length_links, ← length_links, links_link hi hj hne hl, List.length_append]
      rfl
    have hnot : j ∉ g.neighborIndices i := mt mem_neighborIndices.1 hl
    have hnot' : i ∉ g.neighborIndices j := fun h => hl (mem_neighborIndices.1 h).symm
    simp only [if_neg hl, decide_eq_false hl, Bool.not_false]
    refine Prod.ext rfl (eq_neighborSets hcount fun p => ?_)
    rw [getElem?_enter, getElem?_enter, getElem?_entries, node?_link]
    cases g.node? p with
    | none => rfl
    | some a =>
      simp only [Option.map_some, neighborIndices_link hi hj hne hl, otherEnd]
      -- the set of `i` takes `j` in, that of `j` takes `i` in, and no other changes
      by_cases hip : i = p
      · subst hip
        simp [Ne.symm hne, hnot]
      · by_cases hjp : j = p
        · subst hjp
          simp [hne, hnot']
        · simp [hip, hjp]

variable [DecidableEq α]

theorem findIdx?_entries (g : Graph α) (a : α) :
    (g.neighborSets.entries.findIdx? fun e => e.1 == a) = g.indexOf? a := by
  have hnodes : g.neighborSets.entries.map Prod.fst = g.nodes := by
    refine List.ext_getElem? fun i => ?_
    rw [List.getElem?_map, getElem?_entries, getElem?_nodes, Option.map_map]
    cases g.node? i <;> rfl
  have hindex : g.indexOf? a = g.nodes.findIdx? (· == a) := by
    rw [← List.findIdx?_toArray, nodes, Array.toArray_toList, indexOf?]
  rw [hindex, ← hnodes, List.findIdx?_map]
  rfl

theorem addNode_neighborSets (g : Graph α) (a : α) :
    g.neighborSets.addNode a = ((g.addNode a).position a, (g.addNode a).neighborSets) := by
  rw [NeighborSets.addNode, findIdx?_entries]
  cases hidx : g.indexOf? a with
  | some i =>
    rw [indexOf?_eq_some_iff] at hidx
    rw [addNode_of_mem (mem_nodes_iff.2 ⟨i, hidx⟩), position_eq_of_node? hidx]
  | none =>
    rw [indexOf?_eq_none_iff] at hidx
    have hnodes := nodes_addNode_of_not_mem hidx
    have hlength : g.neighborSets.entries.length = g.nodes.length := List.length_mapIdx
    have hlast : (g.addNode a).node? g.nodes.length = some a := by
      rw [← getElem?_nodes, hnodes, List.getElem?_concat_length]
    have hcount : g.edgeCount = (g.addNode a).edgeCount := by
      rw [← length_links, ← length_links, links_addNode]
    have hentries : (g.addNode a).neighborSets.entries = g.neighborSets.entries ++ [(a, [])] := by
      simp only [neighborSets, hnodes, List.mapIdx_concat, neighborIndices_addNode,
        neighborIndices_of_le (Nat.le_of_eq g.length_nodes.symm)]
    refine Prod.ext ?_ (NeighborSets.ext hentries.symm hcount)
    rw [position_eq_of_node? hlast, hlength]

variable [ToString α]

theorem addEdge_neighborSets (hne : a ≠ b) :
    g.neighborSets.addEdge a b = (.ok !g.hasEdge a b, (g.join a b).neighborSets) := by
  obtain ⟨i, j, hi, hj, hij, hjoin⟩ := exists_join_eq_link g hne
  have hi' : ((g.addNode a).addNode b).node? i = some a := node?_addNode hi
  have hfresh : g.hasEdge a b = decide (((g.addNode a).addNode b).Linked i j) := by
    rw [Bool.eq_iff_iff, decide_eq_true_iff, ← hasEdge_iff_linked hi' hj, hasEdge_addNode,
      hasEdge_addNode]
  simp only [NeighborSets.addEdge, if_neg hne, addNode_neighborSets, position_eq_of_node? hi,
    position_eq_of_node? hj, link_neighborSets (lt_nodeCount_of_node? hi')
      (lt_nodeCount_of_node? hj) hij, hfresh, hjoin]

theorem addAll_neighborSets {edges : List (α × α)} (hne : ∀ e ∈ edges, e.1 ≠ e.2) :
    g.neighborSets.addAll edges = (.ok (), (g.joinAll edges).neighborSets) := by
  induction edges generalizing g with
  | nil => rfl
  | cons e edges ih =>
    rw [NeighborSets.addAll, addEdge_neighborSets (hne e (.head edges))]
    exact ih fun f hf => hne f (.tail e hf)

theorem addEdges_neighborSets {edges : List (α × α)} (hne : ∀ e ∈ edges, e.1 ≠ e.2) :
    g.neighborSets.addEdges edges = (.ok (), (g.joinAll edges).neighborSets) := by
  rw [NeighborSets.addEdges, find?_loop hne]
  exact addAll_neighborSets hne

/-- **A call has the same answer and effect in place.** -/
theorem perform_neighborSets (g : Graph α) (call : Call α) :
    g.neighborSets.perform call = (g.perform call).map id neighborSets := by
  cases hloop : call.loop? with
  | some _ =>
    rw [NeighborSets.perform_of_loop hloop, perform_of_loop hloop]
    rfl
  | none =>
    rw [Call.loop?_eq_none_iff] at hloop
    cases call with
    | addNode a => rw [NeighborSets.perform, addNode_neighborSets]; rfl
    | addEdge a b =>
      have hne := hloop (a, b) (.head [])
      rw [NeighborSets.perform, addEdge_neighborSets hne, perform_addEdge hne]
      rfl
    | addEdges edges =>
      have hne : ∀ e ∈ edges, e.1 ≠ e.2 := hloop
      rw [NeighborSets.perform, addEdges_neighborSets hne, perform_addEdges hne]
      rfl

/-- **A graph kept in place is the graph**, after every sequence of
calls. -/
theorem after_neighborSets (past : History α) :
    NeighborSets.after past = (after past).neighborSets := by
  induction past with
  | nil => rfl
  | cons call past ih => rw [NeighborSets.after, ih, perform_neighborSets, after]; rfl

end Graph

end Tricolor
