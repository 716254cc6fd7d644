import Mathlib.Data.List.Perm.Basic
import Tricolor.Coloring.Agenda

/-!
# The agenda stays in order

Ranks are strictly ordered, and different ones are comparable. Inserting
and removing a rank keep an agenda in order, and say what is on it up to
permutation, so its head is the rank that comes before all others. When
the rank of a node changes, the old one is there to be removed and the new
one is not there yet (`Lists.move`), so no stale rank stays behind and no
node is listed twice.
-/

namespace Tricolor

namespace Rank

variable {a b c : Rank}

theorem before_iff : a.before b ↔
    b.saturation < a.saturation ∨ a.saturation = b.saturation ∧
      (b.degree < a.degree ∨ a.degree = b.degree ∧ a.node < b.node) := by
  simp only [before, Bool.or_eq_true, Bool.and_eq_true, decide_eq_true_eq, beq_iff_eq]

theorem before_irrefl (a : Rank) : ¬ a.before a := by
  rw [before_iff]
  omega

theorem before_trans (hab : a.before b) (hbc : b.before c) : a.before c := by
  rw [before_iff] at *
  omega

/-- Of two ranks of different nodes one comes first. -/
theorem before_or_before (h : a.node ≠ b.node) : a.before b ∨ b.before a := by
  rw [before_iff, before_iff]
  omega

end Rank

namespace Agenda

variable {r q : Rank} {agenda rest : Agenda}

/-- The most urgent ranks come first. -/
def Sorted (agenda : Agenda) : Prop := agenda.Pairwise fun a b => a.before b

theorem Sorted.nodup (h : agenda.Sorted) : agenda.Nodup := by
  refine List.Pairwise.imp ?_ h
  rintro a _ hab rfl
  exact Rank.before_irrefl a hab

theorem perm_insert (h : r ∉ agenda) : (insert r agenda).Perm (r :: agenda) := by
  induction agenda with
  | nil => exact .refl [r]
  | cons q rest ih =>
    rw [List.mem_cons, not_or] at h
    rw [insert, if_neg (Ne.symm h.1)]
    split
    · exact .refl _
    · exact ((ih h.2).cons q).trans (.swap r q rest)

/-- A rank of a new node is put in order. -/
theorem sorted_insert (hsorted : agenda.Sorted) (hnew : ∀ q ∈ agenda, q.node ≠ r.node) :
    (insert r agenda).Sorted := by
  induction agenda with
  | nil => exact List.pairwise_singleton ..
  | cons q rest ih =>
    obtain ⟨hq, hrest⟩ := List.pairwise_cons.1 hsorted
    have hqr : q ≠ r := fun heq => hnew q (.head rest) (congrArg Rank.node heq)
    have hnot : r ∉ rest := fun hr => hnew r (.tail q hr) rfl
    rw [insert, if_neg hqr]
    split
    · rename_i hrq
      refine List.pairwise_cons.2 ⟨fun x hx => ?_, hsorted⟩
      rcases List.mem_cons.1 hx with rfl | hx
      · exact hrq
      · exact Rank.before_trans hrq (hq x hx)
    · rename_i hrq
      have hfirst := (Rank.before_or_before (hnew q (.head rest))).resolve_right hrq
      refine List.pairwise_cons.2 ⟨fun x hx => ?_, ih hrest fun x hx => hnew x (.tail q hx)⟩
      rcases List.mem_cons.1 ((perm_insert hnot).subset hx) with rfl | hx
      · exact hfirst
      · exact hq x hx

/-- Ranks of different nodes are all put on the agenda, in order. -/
theorem sorted_ofList {ranks : List Rank} (h : (ranks.map Rank.node).Nodup) :
    (ofList ranks).Sorted ∧ (ofList ranks).Perm ranks := by
  induction ranks with
  | nil => exact ⟨.nil, .refl []⟩
  | cons r ranks ih =>
    obtain ⟨hr, hranks⟩ := List.nodup_cons.1 h
    obtain ⟨hsorted, hperm⟩ := ih hranks
    have hnew : ∀ q ∈ ofList ranks, q.node ≠ r.node := fun q hq heq =>
      hr (heq ▸ List.mem_map_of_mem (hperm.subset hq))
    exact ⟨sorted_insert hsorted hnew,
      (perm_insert fun hmem => hnew r hmem rfl).trans (hperm.cons r)⟩

/-! ## Ranked nodes -/

/-- An agenda that lists some nodes in the order of their ranks. -/
structure Lists (rank : Nat → Rank) (nodes : List Nat) (agenda : Agenda) : Prop where
  sorted : agenda.Sorted
  perm : agenda.Perm (nodes.map rank)

variable {rank rank' : Nat → Rank} {nodes : List Nat} {j : Nat}

/-- **A node whose rank changes** keeps its place among the others: its old
rank is on the agenda, and its new one is not. -/
theorem Lists.move (h : Lists rank nodes agenda) (hnodup : nodes.Nodup)
    (hnode : ∀ i, (rank i).node = i) (hnode' : (rank' j).node = j)
    (hother : ∀ i, i ≠ j → rank' i = rank i) (hj : j ∈ nodes) :
    Lists rank' nodes ((agenda.remove (rank j)).insert (rank' j)) := by
  have hsplit := List.perm_cons_erase hj
  have hrest : (nodes.erase j).map rank' = (nodes.erase j).map rank :=
    List.map_congr_left fun i hi => hother i (hnodup.mem_erase_iff.1 hi).1
  have herase : (agenda.remove (rank j)).Perm ((nodes.erase j).map rank) := by
    have := (h.perm.trans (hsplit.map rank)).erase (rank j)
    rwa [List.map_cons, List.erase_cons_head, ← remove_eq_erase] at this
  -- what is left on the agenda are ranks of the other nodes
  have hnew : ∀ q ∈ agenda.remove (rank j), q.node ≠ (rank' j).node := by
    intro q hq heq
    obtain ⟨i, hi, rfl⟩ := List.mem_map.1 (herase.subset hq)
    rw [hnode, hnode'] at heq
    exact (hnodup.mem_erase_iff.1 hi).1 heq
  refine ⟨sorted_insert ?_ hnew, (perm_insert fun hmem => hnew _ hmem rfl).trans ?_⟩
  · rw [remove_eq_erase]
    exact h.sorted.sublist List.erase_sublist
  · refine .trans ?_ (hsplit.map rank').symm
    rw [List.map_cons, hrest]
    exact herase.cons _

end Agenda

end Tricolor
