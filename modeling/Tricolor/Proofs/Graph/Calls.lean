import Tricolor.Proofs.Graph.Growth

/-!
# Graphs and the calls that build them

A graph is built by calls, each of which adds a node, an edge or a batch
of edges, and is rejected if it would join a node to itself. What a graph
shows can be read off these calls: the nodes in the order in which the
accepted calls name them first, the neighbors of a node in the order in
which it is first joined with them (`shows_after`). Positions once given
stay (`node?_after_append`), and a batch does what its edges do one by
one (`after_addEdges`).

How a rejected call leaves a graph that is kept in place is not said
here, where a failing operation returns no graph: see
`Tricolor.Proofs.Graph.NeighborSets`.
-/

namespace Tricolor

namespace Graph

/-- A call that builds a graph. -/
inductive Call (α : Type)
  | addNode (a : α)
  | addEdge (a b : α)
  | addEdges (edges : List (α × α))
  deriving DecidableEq, Repr

/-- What an accepted call answers. -/
inductive Answer
  /-- The position of the node. -/
  | position (i : Nat)
  /-- Whether the edge is new. -/
  | fresh (isNew : Bool)
  | done
  deriving DecidableEq, Repr

/-- The calls that have built a graph, the latest first. -/
abbrev History (α : Type) := List (Call α)

variable {α : Type}

/-! ## What calls say -/

namespace Call

/-- The edges that a call is to add. -/
def edges : Call α → List (α × α)
  | addNode _ => []
  | addEdge a b => [(a, b)]
  | addEdges edges => edges

/-- The nodes that a call names, in order. -/
def names : Call α → List α
  | addNode a => [a]
  | addEdge a b => [a, b]
  | addEdges edges => ends edges

variable [DecidableEq α]

/-- The first node that a call would join to itself. -/
def loop? (call : Call α) : Option α := (call.edges.find? fun e => e.1 == e.2).map Prod.fst

/-- A loop is added by itself or in a batch. -/
theorem loop?_cases {call : Call α} {a : α} (h : call.loop? = some a) :
    call = addEdge a a ∨
      ∃ edges b, call = addEdges edges ∧ (edges.find? fun e => e.1 == e.2) = some (a, b) := by
  cases call with
  | addNode _ => simp [loop?, edges] at h
  | addEdge x y =>
    obtain ⟨rfl, rfl⟩ : x = y ∧ x = a := by simpa [loop?, edges] using h
    exact .inl rfl
  | addEdges es =>
    obtain ⟨⟨x, y⟩, hfind, rfl⟩ := Option.map_eq_some_iff.1 h
    exact .inr ⟨es, y, rfl, hfind⟩

theorem loop?_eq_none_iff {call : Call α} : call.loop? = none ↔ ∀ e ∈ call.edges, e.1 ≠ e.2 := by
  simp [loop?]

end Call

variable [DecidableEq α]

/-- The edges of the accepted calls, in the order of the calls. -/
def joinedEdges : History α → List (α × α)
  | [] => []
  | call :: past => if call.loop?.isSome then joinedEdges past else joinedEdges past ++ call.edges

/-- The nodes that the accepted calls name, in the order of the calls. -/
def namedNodes : History α → List α
  | [] => []
  | call :: past => if call.loop?.isSome then namedNodes past else namedNodes past ++ call.names

/-- Whether an accepted call has joined two nodes, in either order. -/
def Joined (past : History α) (a b : α) : Prop :=
  ∃ call ∈ past, call.loop? = none ∧ ((a, b) ∈ call.edges ∨ (b, a) ∈ call.edges)

variable {past later : History α} {call : Call α} {g : Graph α} {a b c : α} {i : Nat}

theorem joined_cons : Joined (call :: past) a b ↔
    (call.loop? = none ∧ ((a, b) ∈ call.edges ∨ (b, a) ∈ call.edges)) ∨ Joined past a b := by
  simp only [Joined, List.mem_cons, exists_eq_or_imp]

/-! ## What calls do -/

variable [ToString α]

/-- Makes a call. A graph that rejects it stays as it is. -/
def perform (g : Graph α) : Call α → Except Error Answer × Graph α
  | .addNode a => (.ok (.position ((g.addNode a).position a)), g.addNode a)
  | .addEdge a b =>
    match g.addEdge a b with
    | .ok (fresh, g) => (.ok (.fresh fresh), g)
    | .error e => (.error e, g)
  | .addEdges edges =>
    match g.addEdges edges with
    | .ok g => (.ok .done, g)
    | .error e => (.error e, g)

/-- The graph after some calls. -/
def after : History α → Graph α
  | [] => empty
  | call :: past => ((after past).perform call).2

/-- The answer to the next call. -/
def answer (past : History α) (call : Call α) : Except Error Answer :=
  ((after past).perform call).1

/-- **A call with a loop is rejected**, with the first node that it would
join to itself. -/
theorem perform_of_loop (h : call.loop? = some a) :
    g.perform call = (.error (.selfLoop (toString a)), g) := by
  rcases Call.loop?_cases h with rfl | ⟨edges, b, rfl, hfind⟩
  · simp [perform, addEdge]
  · simp only [perform, addEdges, hfind]

omit [ToString α] in
/-- Without a loop nothing stops a batch. -/
theorem find?_loop {edges : List (α × α)} (hne : ∀ e ∈ edges, e.1 ≠ e.2) :
    (edges.find? fun e => e.1 == e.2) = none := by
  simpa using hne

theorem perform_addEdge (hne : a ≠ b) :
    g.perform (.addEdge a b) = (.ok (.fresh !g.hasEdge a b), g.join a b) := by
  simp only [perform, addEdge, if_neg hne]

theorem perform_addEdges {edges : List (α × α)} (hne : ∀ e ∈ edges, e.1 ≠ e.2) :
    g.perform (.addEdges edges) = (.ok .done, g.joinAll edges) := by
  simp only [perform, addEdges, find?_loop hne]

/-- What a call adds to a graph. -/
structure Grown (g : Graph α) (call : Call α) (g' : Graph α) : Prop where
  nodes : g'.nodes = (g.nodes ++ call.names).eraseDups
  neighbors : ∀ c, g'.neighbors c = (g.neighbors c ++ call.edges.filterMap (partner c)).eraseDups
  hasEdge : ∀ c d, g'.hasEdge c d ↔ g.hasEdge c d ∨ (c, d) ∈ call.edges ∨ (d, c) ∈ call.edges
  keeps : ∀ i c, g.node? i = some c → g'.node? i = some c

omit [ToString α] in
theorem grown_joinAll {edges : List (α × α)} (hnames : call.names = ends call.edges)
    (hedges : call.edges = edges) (hne : ∀ e ∈ edges, e.1 ≠ e.2) :
    Grown g call (g.joinAll edges) where
  nodes := by rw [nodes_joinAll, hnames, hedges]
  neighbors c := by rw [neighbors_joinAll hne, hedges]
  hasEdge c d := by rw [hasEdge_joinAll hne, hedges]
  keeps _ _ := node?_joinAll

/-- **A step of a history.** An accepted call adds the nodes and edges
that it names. -/
theorem grown_perform (h : call.loop? = none) : Grown g call (g.perform call).2 := by
  rw [Call.loop?_eq_none_iff] at h
  cases call with
  | addNode a =>
    refine ⟨g.nodes_addNode a, fun c => ?_, fun c d => ?_, fun _ _ => node?_addNode⟩
    · simp [perform, Call.edges, neighbors_addNode, eraseDups_eq_self (g.nodup_neighbors c)]
    · simp [perform, Call.edges, hasEdge_addNode]
  | addEdge a b =>
    rw [perform_addEdge (h (a, b) (.head [])), ← joinAll_singleton]
    exact grown_joinAll rfl rfl h
  | addEdges edges =>
    have hne : ∀ e ∈ edges, e.1 ≠ e.2 := h
    rw [perform_addEdges hne]
    exact grown_joinAll rfl rfl hne

/-! ## What histories leave -/

/-- A graph that shows what the accepted calls of a history say. -/
structure Shows (g : Graph α) (past : History α) : Prop where
  /-- Nodes come in the order in which they are named first. -/
  nodes : g.nodes = (namedNodes past).eraseDups
  /-- Neighbors come in the order in which they are joined first. -/
  neighbors : ∀ a, g.neighbors a = ((joinedEdges past).filterMap (partner a)).eraseDups
  hasEdge : ∀ a b, g.hasEdge a b ↔ Joined past a b

omit [ToString α] in
theorem shows_empty : Shows (empty : Graph α) [] := by
  have hnodes : ∀ a, a ∉ (empty : Graph α).nodes := fun _ => List.not_mem_nil
  refine ⟨rfl, fun a => neighbors_of_not_mem (hnodes a), fun a b => ?_⟩
  constructor
  · exact fun h => absurd h (not_hasEdge_empty a b)
  · rintro ⟨_, h, -⟩
    exact absurd h List.not_mem_nil

theorem Shows.perform (h : Shows g past) (call : Call α) :
    Shows (g.perform call).2 (call :: past) := by
  cases hloop : call.loop? with
  | some _ =>
    have hnamed : namedNodes (call :: past) = namedNodes past := by simp [namedNodes, hloop]
    have hjoined : joinedEdges (call :: past) = joinedEdges past := by simp [joinedEdges, hloop]
    rw [perform_of_loop hloop]
    refine ⟨hnamed ▸ h.nodes, hjoined ▸ h.neighbors, fun c d => ?_⟩
    rw [h.hasEdge, joined_cons, hloop]
    simp
  | none =>
    have hnamed : namedNodes (call :: past) = namedNodes past ++ call.names := by
      simp [namedNodes, hloop]
    have hjoined : joinedEdges (call :: past) = joinedEdges past ++ call.edges := by
      simp [joinedEdges, hloop]
    have hgrown := grown_perform (g := g) hloop
    refine ⟨?_, fun c => ?_, fun c d => ?_⟩
    · rw [hgrown.nodes, h.nodes, eraseDups_append_left, hnamed]
    · rw [hgrown.neighbors, h.neighbors, eraseDups_append_left, hjoined, List.filterMap_append]
    · rw [hgrown.hasEdge, h.hasEdge, joined_cons, or_comm, and_iff_right hloop]

/-- **A graph shows its history.** -/
theorem shows_after (past : History α) : Shows (after past) past := by
  induction past with
  | nil => exact shows_empty
  | cons call past ih => exact ih.perform call

/-- A position once given to a node stays with it. -/
theorem node?_after_append (later : History α) (h : (after past).node? i = some a) :
    (after (later ++ past)).node? i = some a := by
  induction later with
  | nil => exact h
  | cons call later ih =>
    rw [List.cons_append, after]
    cases hloop : call.loop? with
    | some _ => rwa [perform_of_loop hloop]
    | none => exact (grown_perform hloop).keeps i a ih

theorem after_cons_addEdge (hne : a ≠ b) :
    after (.addEdge a b :: past) = (after past).join a b := by
  rw [after, perform_addEdge hne]

theorem after_cons_addEdges {edges : List (α × α)} (hne : ∀ e ∈ edges, e.1 ≠ e.2) :
    after (.addEdges edges :: past) = (after past).joinAll edges := by
  rw [after, perform_addEdges hne]

/-- **A batch does what its edges do one by one.** -/
theorem after_addEdges {edges : List (α × α)} (hne : ∀ e ∈ edges, e.1 ≠ e.2) :
    after (.addEdges edges :: past) =
      after ((edges.map fun e => .addEdge e.1 e.2).reverse ++ past) := by
  induction edges generalizing past with
  | nil => exact after_cons_addEdges hne
  | cons e edges ih =>
    have hrest : ∀ f ∈ edges, f.1 ≠ f.2 := fun f hf => hne f (.tail e hf)
    rw [List.map_cons, List.reverse_cons, List.append_assoc, List.singleton_append, ← ih hrest,
      after_cons_addEdges hne, after_cons_addEdges hrest, after_cons_addEdge (hne e (.head edges)),
      joinAll_cons]

end Graph

end Tricolor
