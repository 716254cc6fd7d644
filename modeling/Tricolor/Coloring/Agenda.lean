/-!
# The agenda of a greedy coloring

The nodes that are still open, ordered by how urgent it is to color them:
the more colors a node's colored neighbors wear, the more urgent it is;
of equally saturated nodes the one with more neighbors comes first, and
then the earlier one.
-/

namespace Tricolor

/-- What decides the place of an open node on the agenda. -/
structure Rank where
  /-- The number of colors among the node's colored neighbors. -/
  saturation : Nat
  degree : Nat
  node : Nat
  deriving DecidableEq, Repr

/-- Whether a rank is more urgent than another. -/
def Rank.before (a b : Rank) : Bool :=
  decide (b.saturation < a.saturation) || (a.saturation == b.saturation &&
    (decide (b.degree < a.degree) || (a.degree == b.degree && decide (a.node < b.node))))

/-- Open nodes, the most urgent one first. -/
abbrev Agenda := List Rank

namespace Agenda

/-- Puts a rank into its place, before the first one that it precedes. One
that is there already is not added again. -/
def insert (r : Rank) : Agenda → Agenda
  | [] => [r]
  | q :: rest =>
    if r.before q then r :: q :: rest
    else if q = r then q :: rest
    else q :: insert r rest

/-- The agenda of some ranks. -/
def ofList (ranks : List Rank) : Agenda := ranks.foldr insert []

/-- Takes a rank off the agenda, if it is there. -/
def remove (r : Rank) : Agenda → Agenda
  | [] => []
  | q :: rest => if q = r then rest else q :: remove r rest

theorem remove_eq_erase (r : Rank) (agenda : Agenda) : remove r agenda = agenda.erase r := by
  induction agenda with
  | nil => rfl
  | cons q rest ih => simp only [remove, ih, List.erase_cons, beq_iff_eq]

end Agenda

end Tricolor
