import Mathlib.Data.Fintype.Basic
import Tricolor.Proofs.Coloring.Dsatur
import Tricolor.Proofs.Graph.Induced

/-!
# The greedy coloring is local

Some nodes of a graph are kept and the others left out, so that every
open node that is kept has lost no neighbor. Whenever the greedy rule
then colors a node that is kept, it is the next one in the subgraph too,
and takes the same color there; coloring a node that is left out goes
unnoticed (`Shows.step`). The run in the subgraph is therefore what the
run in the graph selects of the nodes that are kept (`Shows.run`), and
what lies behind seeded nodes changes no color (`dsatur_local`).
-/

namespace Tricolor

variable {α : Type} [DecidableEq α] {g h : Graph α} {keep : α → Bool} {a b : α}

namespace Greedy

variable {c c' d : Coloring α} {palette : List Color} {color : Color}

/-- A coloring shows of another one what concerns the nodes that are
kept, and none of them that is open has a neighbor that is not. -/
structure Shows (g : Graph α) (keep : α → Bool) (c d : Coloring α) : Prop where
  get? : ∀ a, d.get? a = if keep a then c.get? a else none
  enclosed : ∀ a b, keep a → c.get? a = none → g.hasEdge a b → keep b

namespace Shows

variable (hs : Shows g keep c d)
include hs

theorem get?_eq (ha : keep a) : d.get? a = c.get? a := by
  rw [hs.get?, if_pos ha]

theorem keep_of_get? (ha : d.get? a = some color) : keep a := by
  by_contra hnot
  rw [hs.get?, if_neg hnot] at ha
  cases ha

/-- Coloring a node that is kept shows. -/
theorem insert (ha : keep a) (color : Color) :
    Shows g keep (c.insert a color) (d.insert a color) where
  get? b := by
    rw [Coloring.get?_insert, Coloring.get?_insert]
    split
    · rename_i hba
      rw [if_pos (hba ▸ ha)]
    · exact hs.get? b
  enclosed b b' hb hopen hedge := by
    rw [Coloring.get?_insert] at hopen
    split at hopen
    · cases hopen
    · exact hs.enclosed b b' hb hopen hedge

/-- Coloring another node does not. -/
theorem skip (ha : ¬ keep a) (color : Color) : Shows g keep (c.insert a color) d where
  get? b := by
    rw [Coloring.get?_insert, hs.get?]
    by_cases hba : b = a
    · rw [hba, if_neg ha, if_neg ha]
    · rw [if_neg hba]
  enclosed b b' hb hopen hedge := by
    rw [Coloring.get?_insert] at hopen
    split at hopen
    · cases hopen
    · exact hs.enclosed b b' hb hopen hedge

variable (hh : g.Induced keep h)
include hh

theorem validSeed (hc : ValidSeed g c) : ValidSeed h d where
  known a ha := by
    obtain ⟨color, hcolor⟩ := Coloring.mem_nodes_iff.1 ha
    have hkeep := hs.keep_of_get? hcolor
    rw [hs.get?_eq hkeep] at hcolor
    exact hh.mem_nodes_iff.2 ⟨hc.known a (Coloring.mem_nodes_of_get? hcolor), hkeep⟩
  distinct a b color hab ha hb := by
    obtain ⟨hedge, hkeep, hkeep'⟩ := (hh.hasEdge a b).1 hab
    rw [hs.get?_eq hkeep] at ha
    rw [hs.get?_eq hkeep'] at hb
    exact hc.distinct a b color hedge ha hb

/-- An open node that is kept has the same colors around it. -/
theorem mem_around (ha : keep a) (hopen : c.get? a = none) :
    color ∈ around h d a ↔ color ∈ around g c a := by
  rw [Greedy.mem_around, Greedy.mem_around]
  constructor
  · rintro ⟨b, hab, hb⟩
    obtain ⟨hedge, -, hkeep⟩ := (hh.hasEdge a b).1 hab
    exact ⟨b, hedge, hs.get?_eq hkeep ▸ hb⟩
  · rintro ⟨b, hab, hb⟩
    have hkeep := hs.enclosed a b ha hopen hab
    exact ⟨b, (hh.hasEdge a b).2 ⟨hab, ha, hkeep⟩, (hs.get?_eq hkeep).trans hb⟩

theorem fit_eq (ha : keep a) (hopen : c.get? a = none) (palette : List Color) :
    fit h palette d a = fit g palette c a :=
  firstFit_congr fun _ => hs.mem_around hh ha hopen

/-- **Open nodes that are kept come in the same order.** -/
theorem before_iff (ha : keep a) (hopen : c.get? a = none) (hb : keep b)
    (hopen' : c.get? b = none) :
    (rank h d a).before (rank h d b) ↔ (rank g c a).before (rank g c b) := by
  have hsaturation : ∀ {x}, keep x → c.get? x = none →
      (around h d x).length = (around g c x).length := fun hx hxopen =>
    ((List.perm_ext_iff_of_nodup (nodup_around h d _) (nodup_around g c _)).2
      fun _ => hs.mem_around hh hx hxopen).length_eq
  have hdegree : ∀ {x}, keep x → c.get? x = none →
      (h.neighbors x).length = (g.neighbors x).length := fun hx hxopen =>
    (hh.neighbors_perm hx fun y => hs.enclosed _ y hx hxopen).length_eq
  simp only [Rank.before_iff, rank, hsaturation ha hopen, hsaturation hb hopen',
    hdegree ha hopen, hdegree hb hopen', hh.position_lt_iff ha hb]

/-- The next node, if it is kept, is the next one of the subgraph. -/
theorem isNext (hnext : IsNext g c a) (ha : keep a) : IsNext h d a where
  mem := hh.mem_nodes_iff.2 ⟨hnext.mem, ha⟩
  isOpen := (hs.get?_eq ha).trans hnext.isOpen
  first b hb hopen hba := by
    obtain ⟨hmem, hkeep⟩ := hh.mem_nodes_iff.1 hb
    rw [hs.get?_eq hkeep] at hopen
    exact (hs.before_iff hh ha hnext.isOpen hkeep hopen).2 (hnext.first b hmem hopen hba)

/-- **A step colors a node of the subgraph as the rule does there, or
leaves the subgraph alone.** -/
theorem step (hstep : Step g palette c c') :
    ∃ d' e, Run h palette d d' ∧ Shows g keep c' d' ∧ c'.entries = c.entries ++ [e] ∧
      d'.entries = d.entries ++ [e].filter (keep ·.1) := by
  obtain ⟨hnext, hfit⟩ := hstep
  rename_i a color
  have hentries : (c.insert a color).entries = c.entries ++ [(a, color)] :=
    Coloring.entries_insert hnext.isOpen
  by_cases ha : keep a
  · have hnext' := hs.isNext hh hnext ha
    rw [← hs.fit_eq hh ha hnext.isOpen] at hfit
    refine ⟨_, _, .single (.color hnext' hfit), hs.insert ha _, hentries, ?_⟩
    rw [Coloring.entries_insert hnext'.isOpen, List.filter_singleton, ha, cond_true]
  · refine ⟨d, _, .refl, hs.skip ha _, hentries, ?_⟩
    rw [List.filter_singleton, eq_false_of_ne_true ha, cond_false, List.append_nil]

/-- **A run in the graph is a run in the subgraph** without the nodes
that are left out. -/
theorem run (hrun : Run g palette c c') :
    ∃ d' selected, Run h palette d d' ∧ Shows g keep c' d' ∧
      c'.entries = c.entries ++ selected ∧
      d'.entries = d.entries ++ selected.filter (keep ·.1) := by
  induction hrun with
  | refl => exact ⟨d, [], .refl, hs, (List.append_nil _).symm, (List.append_nil _).symm⟩
  | tail _ hstep ih =>
    obtain ⟨d', selected, hrun', hs', hentries, hentries'⟩ := ih
    obtain ⟨d'', e, hrest, hs'', hlast, hlast'⟩ := hs'.step hh hstep
    refine ⟨d'', selected ++ [e], hrun'.trans hrest, hs'', ?_, ?_⟩
    · rw [hlast, hentries, List.append_assoc]
    · rw [hlast', hentries', List.filter_append, List.append_assoc]

end Shows

end Greedy

section Dsatur

variable [ToString α] {seed seed' : Coloring α} {palette : List Color}

/-- **The greedy coloring of a subgraph.** If each open node that is kept
keeps all its neighbors, the subgraph is colored as the graph is, in the
same order. -/
theorem dsatur_induced (hh : g.Induced keep h) (hs : Greedy.Shows g keep seed seed')
    (hseed : ValidSeed g seed) (hends : DsaturEnds g seed palette) :
    DsaturEnds h seed' palette ∧
      ∃ c d selected, dsatur g seed palette = .ok c ∧ dsatur h seed' palette = .ok d ∧
        Greedy.Run g palette seed c ∧ (∀ a ∈ g.nodes, c.get? a ≠ none) ∧
        (∀ a, keep a → d.get? a = c.get? a) ∧ c.entries = seed.entries ++ selected ∧
        d.entries = seed'.entries ++ selected.filter (keep ·.1) := by
  obtain ⟨c, hc, hrun, hall⟩ := dsatur_run hseed hends
  obtain ⟨d', selected, hrun', hs', hentries, hentries'⟩ := hs.run hh hrun
  have hall' : ∀ a ∈ h.nodes, d'.get? a ≠ none := by
    intro a ha
    obtain ⟨hmem, hkeep⟩ := hh.mem_nodes_iff.1 ha
    rw [hs'.get?_eq hkeep]
    exact hall a hmem
  have hseed' := hs.validSeed hh hseed
  have hends' := dsaturEnds_of_run hseed' hrun' hall'
  obtain ⟨d, hd, hrun'', hall''⟩ := dsatur_run hseed' hends'
  obtain rfl := hrun''.unique hrun' (Greedy.final_of_colored hall'') (Greedy.final_of_colored hall')
  exact ⟨hends', c, d, selected, hc, hd, hrun, hall, fun a ha => hs'.get?_eq ha, hentries,
    hentries'⟩

/-- A set of open nodes whose neighbors are seeded or in the set. -/
structure Enclosed (g : Graph α) (seed : Coloring α) (C : Finset α) : Prop where
  known : ∀ a ∈ C, a ∈ g.nodes
  isOpen : ∀ a ∈ C, seed.get? a = none
  closed : ∀ a ∈ C, ∀ b, g.hasEdge a b → b ∈ C ∨ b ∈ seed.nodes

omit [ToString α] in
/-- Of an enclosed set and the seeded nodes a seed shows everything. -/
theorem Enclosed.shows {C : Finset α} (hC : Enclosed g seed C) :
    Greedy.Shows g (fun a => a ∈ C ∨ a ∈ seed.nodes) seed seed where
  get? a := by
    split
    · rfl
    · rename_i ha
      rw [decide_eq_true_eq, not_or] at ha
      exact Coloring.get?_eq_none_iff.2 ha.2
  enclosed a b ha hopen hab := by
    rw [decide_eq_true_eq] at ha ⊢
    exact hC.closed a (ha.resolve_right (Coloring.get?_eq_none_iff.1 hopen)) b hab

/-- **The greedy coloring is local between seeded nodes.** The nodes of
an enclosed set wear the colors that they get in the subgraph that the
set and the seeded nodes induce, with the same seed and palette: whatever
else there is in the graph changes none of them. All that can happen
elsewhere is that the call does not end, for which some open node needs
as many neighbors as there are colors; the call for the subgraph ends if
the other one does. -/
theorem dsatur_local (hseed : ValidSeed g seed) {C : Finset α} (hC : Enclosed g seed C)
    (hh : g.Induced (fun a => a ∈ C ∨ a ∈ seed.nodes) h) (palette : List Color) :
    (DsaturEnds g seed palette → DsaturEnds h seed palette ∧
      ∃ c d, dsatur g seed palette = .ok c ∧ dsatur h seed palette = .ok d ∧
        ∀ a ∈ C, ∃ color, c.get? a = some color ∧ d.get? a = some color) ∧
      ((∀ a ∈ g.nodes, seed.get? a = none → g.degree a < UInt32.size) →
        DsaturEnds g seed palette) := by
  refine ⟨fun hends => ?_, dsaturEnds_of_degree hseed⟩
  obtain ⟨hends', c, d, _, hc, hd, -, hall, hsame, -, -⟩ := dsatur_induced hh hC.shows hseed hends
  refine ⟨hends', c, d, hc, hd, fun a ha => ?_⟩
  obtain ⟨color, hcolor⟩ := Option.ne_none_iff_exists'.1 (hall a (hC.known a ha))
  exact ⟨color, hcolor, (hsame a (decide_eq_true (.inl ha))).trans hcolor⟩

/-- Two triangles share a seeded node: the one is colored as if the other
were not there. -/
theorem dsatur_local_triangles :
    let g : Graph (Fin 5) := Graph.empty.joinAll [(0, 1), (3, 4), (1, 2), (4, 0), (2, 0), (0, 3)]
    let seed : Coloring (Fin 5) := .ofList [(0, .red)]
    let C : Finset (Fin 5) := {1, 2}
    ∃ c d, dsatur g seed [.green] = .ok c ∧
      dsatur (g.induce fun a => a ∈ C ∨ a ∈ seed.nodes) seed [.green] = .ok d ∧
      ∀ a ∈ C, ∃ color, c.get? a = some color ∧ d.get? a = some color := by
  intro g seed C
  have hseed : ValidSeed g seed := validateSeed_eq_ok_iff.1 (by decide +kernel)
  have hC : Enclosed g seed C := ⟨by decide +kernel, by decide +kernel, by decide +kernel⟩
  have hdegree : ∀ a ∈ g.nodes, g.degree a < UInt32.size := by decide +kernel
  obtain ⟨hresult, hends⟩ := dsatur_local hseed hC (g.induced_induce _) [.green]
  exact (hresult (hends fun a ha _ => hdegree a ha)).2

end Dsatur

end Tricolor
