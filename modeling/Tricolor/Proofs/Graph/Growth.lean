import Tricolor.Proofs.Distinct
import Tricolor.Proofs.Graph.Lookup

/-!
# How a graph grows

Joining two nodes adds what is missing: the nodes behind those that are
there (`nodes_join`), and one edge, in both directions (`hasEdge_join`).
A graph that is built edge by edge therefore has the nodes in the order
in which the edges first name them (`nodes_joinAll`), no edges but those
that were joined (`hasEdge_joinAll`), and the neighbors of each node in
the order in which they were joined with it (`neighbors_joinAll`).
-/

namespace Tricolor

namespace Graph

variable {α : Type} {g : Graph α} {a b c d : α} {i j p q : Nat}

/-! ## Linking positions -/

theorem nodes_link (g : Graph α) (i j : Nat) : (g.link i j).nodes = g.nodes := by
  unfold link
  split <;> rfl

theorem node?_link (g : Graph α) (i j p : Nat) : (g.link i j).node? p = g.node? p := by
  unfold link
  split <;> rfl

/-- Linking positions again changes nothing, whichever comes first. -/
theorem link_of_linked (h : g.Linked i j) : g.link i j = g := dif_neg fun hnew => hnew.2.2.2 h

/-- A new link comes last. -/
theorem links_link (hi : i < g.nodeCount) (hj : j < g.nodeCount) (hne : i ≠ j)
    (hnew : ¬ g.Linked i j) : (g.link i j).links = g.links ++ [(i, j)] := by
  rw [link, dif_pos ⟨hi, hj, hne, hnew⟩]
  exact Array.toList_push

/-- Linking two different positions links these two and no others. -/
theorem linked_link (hi : i < g.nodeCount) (hj : j < g.nodeCount) (hne : i ≠ j) :
    (g.link i j).Linked p q ↔ g.Linked p q ∨ (p = i ∧ q = j) ∨ (p = j ∧ q = i) := by
  by_cases hl : g.Linked i j
  · rw [link_of_linked hl]
    constructor
    · exact .inl
    · rintro (h | ⟨rfl, rfl⟩ | ⟨rfl, rfl⟩)
      · exact h
      · exact hl
      · exact hl.symm
  · simp only [Linked, links_link hi hj hne hl, List.mem_append, List.mem_singleton,
      Prod.mk.injEq]
    constructor
    · rintro ((h | h) | (h | h))
      · exact .inl (.inl h)
      · exact .inr (.inl h)
      · exact .inl (.inr h)
      · exact .inr (.inr h.symm)
    · rintro ((h | h) | (h | h))
      · exact .inl (.inl h)
      · exact .inr (.inl h)
      · exact .inl (.inr h)
      · exact .inr (.inr h.symm)

/-- A new neighbor comes behind those that are there. -/
theorem neighborIndices_link (hi : i < g.nodeCount) (hj : j < g.nodeCount) (hne : i ≠ j)
    (hnew : ¬ g.Linked i j) (p : Nat) :
    (g.link i j).neighborIndices p = g.neighborIndices p ++ (otherEnd p (i, j)).toList := by
  rw [neighborIndices, links_link hi hj hne hnew, List.filterMap_append]
  cases h : otherEnd p (i, j) <;> simp [h, neighborIndices]

/-! ## Adding nodes -/

variable [DecidableEq α]

theorem links_addNode (g : Graph α) (a : α) : (g.addNode a).links = g.links := by
  unfold addNode
  split <;> rfl

theorem addNode_of_mem (h : a ∈ g.nodes) : g.addNode a = g := dif_pos (contains_iff.2 h)

/-- A new node comes last. -/
theorem nodes_addNode_of_not_mem (h : a ∉ g.nodes) : (g.addNode a).nodes = g.nodes ++ [a] := by
  rw [addNode, dif_neg (mt contains_iff.1 h)]
  exact Array.toList_push

theorem nodes_addNode (g : Graph α) (a : α) :
    (g.addNode a).nodes = (g.nodes ++ [a]).eraseDups := by
  rw [eraseDups_append_of_nodup g.nodes_nodup]
  by_cases ha : a ∈ g.nodes
  · simp [addNode_of_mem ha, ha]
  · rw [nodes_addNode_of_not_mem ha, List.filter_eq_self.2 (by simpa using ha),
      eraseDups_eq_self (by simp)]

theorem mem_nodes_addNode : b ∈ (g.addNode a).nodes ↔ b ∈ g.nodes ∨ b = a := by
  simp [nodes_addNode]

/-- A position once given to a node is never given to another. -/
theorem node?_addNode (h : g.node? i = some c) : (g.addNode a).node? i = some c := by
  rw [← getElem?_nodes] at h ⊢
  rw [nodes_addNode, eraseDups_append_of_nodup g.nodes_nodup,
    List.getElem?_append_left (List.getElem?_eq_some_iff.1 h).1, h]

/-- Adding a node leaves the edges as they are. -/
theorem hasEdge_addNode : (g.addNode a).hasEdge c d ↔ g.hasEdge c d := by
  have hlinked : ∀ i j, (g.addNode a).Linked i j ↔ g.Linked i j := by
    intro i j
    simp only [Linked, links_addNode]
  simp only [hasEdge_iff, hlinked]
  constructor
  · rintro ⟨i, j, hi, hj, hl⟩
    -- both ends of an old link are old nodes, in their old places
    obtain ⟨c', hc'⟩ := exists_node?_of_lt hl.lt.1
    obtain ⟨d', hd'⟩ := exists_node?_of_lt hl.lt.2
    rw [node?_addNode hc'] at hi
    rw [node?_addNode hd'] at hj
    exact ⟨i, j, hc'.trans hi, hd'.trans hj, hl⟩
  · rintro ⟨i, j, hi, hj, hl⟩
    exact ⟨i, j, node?_addNode hi, node?_addNode hj, hl⟩

theorem neighborIndices_addNode (g : Graph α) (a : α) (i : Nat) :
    (g.addNode a).neighborIndices i = g.neighborIndices i := by
  rw [neighborIndices, links_addNode, neighborIndices]

/-- A node that is added has no neighbors yet, and the others keep theirs. -/
theorem neighbors_addNode (g : Graph α) (a c : α) :
    (g.addNode a).neighbors c = g.neighbors c := by
  by_cases hc : c ∈ g.nodes
  · obtain ⟨i, hi⟩ := mem_nodes_iff.1 hc
    rw [neighbors_eq_of_node? (node?_addNode hi), neighbors_eq_of_node? hi,
      neighborIndices_addNode]
    refine List.filterMap_congr fun j hj => ?_
    obtain ⟨d, hd⟩ := exists_node?_of_lt (mem_neighborIndices.1 hj).lt.2
    rw [node?_addNode hd, hd]
  · rw [neighbors_of_not_mem hc, neighbors_eq_nil_iff]
    exact fun d hd => hc (mem_nodes_of_hasEdge (hasEdge_addNode.1 hd)).1

/-! ## Joining nodes -/

theorem nodes_join (g : Graph α) (a b : α) :
    (g.join a b).nodes = (g.nodes ++ [a, b]).eraseDups := by
  rw [join, nodes_link, nodes_addNode, nodes_addNode, eraseDups_append_left,
    List.append_assoc, List.singleton_append]

/-- A join links the positions of its two nodes. -/
theorem exists_join_eq_link (g : Graph α) (hne : a ≠ b) :
    ∃ i j, (g.addNode a).node? i = some a ∧ ((g.addNode a).addNode b).node? j = some b ∧
      i ≠ j ∧ g.join a b = ((g.addNode a).addNode b).link i j := by
  obtain ⟨i, hi⟩ := mem_nodes_iff.1 (mem_nodes_addNode.2 (.inr rfl) : a ∈ (g.addNode a).nodes)
  obtain ⟨j, hj⟩ :=
    mem_nodes_iff.1 (mem_nodes_addNode.2 (.inr rfl) : b ∈ ((g.addNode a).addNode b).nodes)
  have hi' : ((g.addNode a).addNode b).node? i = some a := node?_addNode hi
  refine ⟨i, j, hi, hj, ?_, ?_⟩
  · rintro rfl
    exact hne (Option.some.inj (hi'.symm.trans hj))
  · rw [join, position_eq_of_node? hi', position_eq_of_node? hj]

/-- **Joining two different nodes adds the edge between them.** -/
theorem hasEdge_join (hne : a ≠ b) :
    (g.join a b).hasEdge c d ↔ g.hasEdge c d ∨ (c = a ∧ d = b) ∨ (c = b ∧ d = a) := by
  have hedge : ((g.addNode a).addNode b).hasEdge c d ↔ g.hasEdge c d := by
    rw [hasEdge_addNode, hasEdge_addNode]
  obtain ⟨i, j, hi, hj, hij, hjoin⟩ := exists_join_eq_link g hne
  replace hi : ((g.addNode a).addNode b).node? i = some a := node?_addNode hi
  rw [hjoin, ← hedge]
  generalize (g.addNode a).addNode b = g' at hi hj
  simp only [hasEdge_iff, node?_link,
    linked_link (lt_nodeCount_of_node? hi) (lt_nodeCount_of_node? hj) hij]
  constructor
  · rintro ⟨p, q, hp, hq, hl | ⟨rfl, rfl⟩ | ⟨rfl, rfl⟩⟩
    · exact .inl ⟨p, q, hp, hq, hl⟩
    · exact .inr (.inl ⟨Option.some.inj (hp.symm.trans hi), Option.some.inj (hq.symm.trans hj)⟩)
    · exact .inr (.inr ⟨Option.some.inj (hp.symm.trans hj), Option.some.inj (hq.symm.trans hi)⟩)
  · rintro (⟨p, q, hp, hq, hl⟩ | ⟨rfl, rfl⟩ | ⟨rfl, rfl⟩)
    · exact ⟨p, q, hp, hq, .inl hl⟩
    · exact ⟨i, j, hi, hj, .inr (.inl ⟨rfl, rfl⟩)⟩
    · exact ⟨j, i, hj, hi, .inr (.inr ⟨rfl, rfl⟩)⟩

/-- A join keeps the positions. -/
theorem node?_join (h : g.node? i = some c) : (g.join a b).node? i = some c := by
  rw [join, node?_link]
  exact node?_addNode (node?_addNode h)

/-- The other end of a pair at a node. -/
def partner (a : α) (e : α × α) : Option α :=
  if e.1 = a then some e.2 else if e.2 = a then some e.1 else none

theorem partner_eq_some {e : α × α} (hne : e.1 ≠ e.2) :
    partner a e = some b ↔ e = (a, b) ∨ e = (b, a) := by
  obtain ⟨c, d⟩ := e
  simp only [partner, Prod.mk.injEq]
  grind

/-- The nodes at the other ends of a link are the partners of the pair. -/
theorem node?_otherEnd {p : Nat} (hi : g.node? i = some a) (hj : g.node? j = some b)
    (hp : g.node? p = some c) :
    (otherEnd p (i, j)).toList.filterMap g.node? = (partner c (a, b)).toList := by
  have hc : ∀ {q d}, g.node? q = some d → (q = p ↔ d = c) := by
    intro q d hq
    constructor
    · rintro rfl
      exact Option.some.inj (hq.symm.trans hp)
    · rintro rfl
      exact node?_injective hq hp
  simp only [otherEnd, partner, hc hi, hc hj]
  split
  · simp [hj]
  · split
    · simp [hi]
    · rfl

/-- **A join puts each of the two nodes behind the neighbors of the
other**, unless it is one of them. -/
theorem neighbors_join (hne : a ≠ b) (c : α) :
    (g.join a b).neighbors c = (g.neighbors c ++ (partner c (a, b)).toList).eraseDups := by
  have hold : ((g.addNode a).addNode b).neighbors c = g.neighbors c := by
    rw [neighbors_addNode, neighbors_addNode]
  obtain ⟨i, j, hi, hj, hij, hjoin⟩ := exists_join_eq_link g hne
  replace hi : ((g.addNode a).addNode b).node? i = some a := node?_addNode hi
  rw [hjoin, ← hold]
  generalize (g.addNode a).addNode b = g' at hi hj
  have hmem : ∀ d, d ∈ (partner c (a, b)).toList ↔ (a, b) = (c, d) ∨ (a, b) = (d, c) := by
    intro d
    rw [Option.mem_toList, partner_eq_some hne]
  by_cases hl : g'.Linked i j
  · -- the partner is a neighbor already
    have hedge : g'.hasEdge a b := (hasEdge_iff_linked hi hj).2 hl
    have hsub : (partner c (a, b)).toList.filter (· ∉ g'.neighbors c) = [] := by
      rw [List.filter_eq_nil_iff]
      intro d hd
      rw [decide_eq_true_eq, not_not, mem_neighbors]
      rcases (hmem d).1 hd with h | h <;> cases h
      · exact hedge
      · exact hasEdge_symm hedge
    rw [link_of_linked hl, eraseDups_append_of_nodup (g'.nodup_neighbors c), hsub]
    simp
  · have happend : (g'.link i j).neighbors c = g'.neighbors c ++ (partner c (a, b)).toList := by
      by_cases hc : c ∈ g'.nodes
      · obtain ⟨p, hp⟩ := mem_nodes_iff.1 hc
        have hp' : (g'.link i j).node? p = some c := by rwa [node?_link]
        have hnode : (g'.link i j).node? = g'.node? := funext (node?_link g' i j)
        rw [neighbors_eq_of_node? hp', neighbors_eq_of_node? hp, hnode,
          neighborIndices_link (lt_nodeCount_of_node? hi) (lt_nodeCount_of_node? hj) hij hl,
          List.filterMap_append, node?_otherEnd hi hj hp]
      · have hpartner : partner c (a, b) = none := by
          have ha : a ≠ c := fun h => hc (h ▸ mem_nodes_iff.2 ⟨i, hi⟩)
          have hb : b ≠ c := fun h => hc (h ▸ mem_nodes_iff.2 ⟨j, hj⟩)
          simp only [partner, if_neg ha, if_neg hb]
        rw [neighbors_of_not_mem hc, neighbors_of_not_mem (nodes_link g' i j ▸ hc), hpartner]
        rfl
    rw [← happend, eraseDups_eq_self (nodup_neighbors _ c)]

/-! ## Joining batches of nodes -/

theorem joinAll_cons (g : Graph α) (e : α × α) (edges : List (α × α)) :
    g.joinAll (e :: edges) = (g.join e.1 e.2).joinAll edges := rfl

theorem joinAll_singleton (g : Graph α) (a b : α) : g.joinAll [(a, b)] = g.join a b := rfl

theorem joinAll_append (g : Graph α) (l m : List (α × α)) :
    g.joinAll (l ++ m) = (g.joinAll l).joinAll m := by
  rw [joinAll, List.foldl_append, joinAll, joinAll]

/-- Joining batch after batch is joining all of them. -/
theorem foldl_joinAll {β : Type} (batch : β → List (α × α)) (l : List β) (g : Graph α) :
    l.foldl (fun g x => g.joinAll (batch x)) g = g.joinAll (l.flatMap batch) := by
  induction l generalizing g with
  | nil => rfl
  | cons x l ih => rw [List.foldl_cons, ih, List.flatMap_cons, joinAll_append]

/-- The ends of some edges, in the order in which they are named. -/
def ends (edges : List (α × α)) : List α := edges.flatMap fun e => [e.1, e.2]

/-- **The nodes of a graph built edge by edge** are those that were there
and then the ends of the edges, each where it is named first. -/
theorem nodes_joinAll (g : Graph α) (edges : List (α × α)) :
    (g.joinAll edges).nodes = (g.nodes ++ ends edges).eraseDups := by
  induction edges generalizing g with
  | nil => simp [joinAll, ends, eraseDups_eq_self g.nodes_nodup]
  | cons e edges ih =>
    have hends : ends (e :: edges) = [e.1, e.2] ++ ends edges := rfl
    rw [joinAll_cons, ih, nodes_join, eraseDups_append_left, hends, List.append_assoc]

/-- **Its edges are those that were there and those that were joined.** -/
theorem hasEdge_joinAll {edges : List (α × α)} (hne : ∀ e ∈ edges, e.1 ≠ e.2) :
    (g.joinAll edges).hasEdge c d ↔ g.hasEdge c d ∨ (c, d) ∈ edges ∨ (d, c) ∈ edges := by
  induction edges generalizing g with
  | nil => simp [joinAll]
  | cons e edges ih =>
    rw [joinAll_cons, ih fun f hf => hne f (.tail e hf), hasEdge_join (hne e (.head edges)),
      List.mem_cons, List.mem_cons]
    simp only [Prod.ext_iff]
    tauto

/-- **The neighbors of a node are its partners**, each where it is joined
first. -/
theorem neighbors_joinAll {edges : List (α × α)} (hne : ∀ e ∈ edges, e.1 ≠ e.2) (c : α) :
    (g.joinAll edges).neighbors c = (g.neighbors c ++ edges.filterMap (partner c)).eraseDups := by
  induction edges generalizing g with
  | nil => simp [joinAll, eraseDups_eq_self (g.nodup_neighbors c)]
  | cons e edges ih =>
    have hpartners : (e :: edges).filterMap (partner c) =
        (partner c e).toList ++ edges.filterMap (partner c) := by
      rw [List.filterMap_cons]
      cases partner c e <;> rfl
    rw [joinAll_cons, ih fun f hf => hne f (.tail e hf), neighbors_join (hne e (.head edges)),
      eraseDups_append_left, hpartners, List.append_assoc]

/-- Joining keeps the positions. -/
theorem node?_joinAll {edges : List (α × α)} (h : g.node? i = some c) :
    (g.joinAll edges).node? i = some c := by
  induction edges generalizing g with
  | nil => exact h
  | cons e edges ih => exact ih (node?_join h)

end Graph

end Tricolor
