import Tricolor.Proofs.Coloring.Agreement

/-!
# A step limit cuts the search and changes nothing else

Without a limit a search always comes to an end, and counts its steps
upwards (`solve_completes`). A limited search does the same until it is
over the limit: it ends as the unlimited one if that takes no more steps,
and otherwise fails with the first step too many (`solve_cut`). Whether a
search is made at all does not depend on the limit (`color_cases`).

The number of steps that an oracle remembers is that of its latest
search. A call that is rejected makes none, and one that is refuted while
its seed is planted makes one without steps, which no limit cuts
(`limited_cuts`).
-/

namespace Tricolor

namespace Backtrack

namespace Search

variable {adj : Adjacency} {s : Search} {L n m node c : Nat} {cs : List Nat}
variable {rest rest' : Search → Except Error Bool × Search} {r : Except Error Bool × Search}

/-! ## Searches without a limit -/

/-- A search that has come to an end, with at least some number of steps
counted. -/
def Completes (n : Nat) (r : Except Error Bool × Search) : Prop :=
  ∃ found s, r = (.ok found, s) ∧ n ≤ s.steps

theorem Completes.mono (h : Completes m r) (hle : n ≤ m) : Completes n r := by
  obtain ⟨found, s, hr, hm⟩ := h
  exact ⟨found, s, hr, hle.trans hm⟩

theorem branch_cons_completes (hrest : ∀ s, Completes s.steps (rest s))
    (hcs : ∀ s, Completes s.steps (branch adj none rest node cs s)) (s : Search) :
    Completes (s.steps + 1) (branch adj none rest node (c :: cs) s) := by
  have hlimit : exhausted none { s with steps := s.steps + 1 } = none := rfl
  have hsteps : (assign adj { s with steps := s.steps + 1 } node c).2.steps = s.steps + 1 :=
    steps_assign adj _ node c
  rw [branch]
  simp only [hlimit]
  generalize assign adj { s with steps := s.steps + 1 } node c = r at hsteps
  obtain ⟨pruned?, s'⟩ := r
  rw [← hsteps]
  cases pruned? with
  | none => exact hcs s'
  | some pruned =>
    obtain ⟨found, s'', hend, hle⟩ := hrest s'
    simp only [hend]
    cases found with
    | false => exact (hcs (s''.undo node c pruned)).mono hle
    | true => exact ⟨true, s'', rfl, hle⟩

theorem branch_completes (hrest : ∀ s, Completes s.steps (rest s)) (cs : List Nat) (s : Search) :
    Completes s.steps (branch adj none rest node cs s) := by
  induction cs generalizing s with
  | nil => exact ⟨false, s, rfl, le_refl s.steps⟩
  | cons c cs ih => exact (branch_cons_completes hrest ih s).mono (Nat.le_succ s.steps)

/-- **Without a limit a search comes to an end**, and takes back none of
the steps that it has counted. -/
theorem solve_completes (adj : Adjacency) (depth : Nat) (s : Search) :
    Completes s.steps (s.solve adj none depth) := by
  induction depth generalizing s with
  | zero => exact ⟨_, s, rfl, le_refl s.steps⟩
  | succ depth ih =>
    rw [solve]
    split
    · exact ⟨true, s, rfl, le_refl s.steps⟩
    · exact branch_completes ih _ s

/-! ## Searches with a limit -/

/-- How a search ends under a limit: as it does without, if that takes no
more steps, and else with the first step over the limit. -/
inductive Cut (L : Nat) : Except Error Bool × Search → Except Error Bool × Search → Prop
  | within {found : Bool} {s : Search} : s.steps ≤ L → Cut L (.ok found, s) (.ok found, s)
  | exceeded {found : Bool} {s s' : Search} : L < s.steps → s'.steps = L + 1 →
      Cut L (.ok found, s) (.error (.oracle oracleName (.stepLimit L)), s')

theorem exhausted_eq_none (h : s.steps ≤ L) : exhausted (some L) s = none := by
  simp [exhausted, h]

theorem exhausted_eq_some (h : L < s.steps) : exhausted (some L) s = some L := by
  simp [exhausted, h]

/-- **Trying positions.** A branch is cut if the rest of its search is. -/
theorem branch_cut (hrest : ∀ s, Completes s.steps (rest s))
    (hcut : ∀ s, s.steps ≤ L → Cut L (rest s) (rest' s)) (hs : s.steps ≤ L) (cs : List Nat) :
    Cut L (branch adj none rest node cs s) (branch adj (some L) rest' node cs s) := by
  induction cs generalizing s with
  | nil => exact .within hs
  | cons c cs ih =>
    rcases Nat.lt_or_eq_of_le hs with hlt | heq
    · have hlimit : exhausted none { s with steps := s.steps + 1 } = none := rfl
      have hlimit' : exhausted (some L) { s with steps := s.steps + 1 } = none :=
        exhausted_eq_none hlt
      have hsteps : (assign adj { s with steps := s.steps + 1 } node c).2.steps = s.steps + 1 :=
        steps_assign adj _ node c
      rw [branch, branch]
      simp only [hlimit, hlimit']
      generalize assign adj { s with steps := s.steps + 1 } node c = r at hsteps
      obtain ⟨pruned?, s'⟩ := r
      have hs' : s'.steps ≤ L := hsteps.trans_le hlt
      cases pruned? with
      | none => exact ih hs'
      | some pruned =>
        have hend := hcut s' hs'
        simp only
        generalize rest s' = r at hend
        generalize rest' s' = r' at hend
        cases hend with
        | @within found s'' hle =>
          cases found with
          | false => exact ih hle
          | true => exact .within hle
        | @exceeded found s'' t hover ht =>
          cases found with
          | false =>
            -- without the limit the branch goes on, and counts on
            obtain ⟨found, s₃, hbranch, hle⟩ :=
              branch_completes hrest cs (s''.undo node c pruned)
            simp only
            rw [hbranch]
            exact .exceeded (hover.trans_le hle) ht
          | true => exact .exceeded hover ht
    · -- the next step is the first one over the limit
      have hlimit' : exhausted (some L) { s with steps := s.steps + 1 } = some L :=
        exhausted_eq_some (Nat.lt_succ_of_le heq.ge)
      obtain ⟨found, s', hbranch, hle⟩ := branch_cons_completes hrest (branch_completes hrest cs) s
      rw [hbranch, branch]
      simp only [hlimit']
      exact .exceeded (heq ▸ hle) (heq ▸ rfl)

/-- **A limit cuts the search and changes nothing else.** -/
theorem solve_cut (adj : Adjacency) (depth : Nat) (hs : s.steps ≤ L) :
    Cut L (s.solve adj none depth) (s.solve adj (some L) depth) := by
  induction depth generalizing s with
  | zero => exact .within hs
  | succ depth ih =>
    rw [solve, solve]
    split
    · exact .within hs
    · exact branch_cut (solve_completes adj depth) (fun _ => ih) hs _

/-- A search fails over its limit only. -/
theorem error_of_solve {limit : Option Nat} {depth : Nat} {e : Error} (hs : s.steps = 0)
    (h : (s.solve adj limit depth).1 = .error e) :
    ∃ L, e = .oracle oracleName (.stepLimit L) := by
  cases limit with
  | none =>
    obtain ⟨found, s', hsolve, -⟩ := solve_completes adj depth s
    rw [hsolve] at h
    cases h
  | some L =>
    have hcut : Cut L _ _ := solve_cut adj depth (hs ▸ Nat.zero_le L)
    generalize s.solve adj none depth = r at hcut
    generalize s.solve adj (some L) depth = r' at hcut h
    cases hcut with
    | within => cases h
    | exceeded =>
      cases h
      exact ⟨L, rfl⟩

end Search

/-! ## Calls -/

variable {α : Type} [DecidableEq α] [ToString α] {g : Graph α} {seed : Coloring α}
variable {palette : List Color} {limit : Option Nat}

/-- How a call reports the end of its search. -/
def report (g : Graph α) (palette : List Color) :
    Except Error Bool × Search → OracleAnswer α × Option Nat
  | (.error e, s) => (.error e, some s.steps)
  | (.ok false, s) => (.ok none, some s.steps)
  | (.ok true, s) => (.ok (some (readColoring g palette s)), some s.steps)

omit [ToString α] in
theorem error_of_report {r : Except Error Bool × Search} {e : Error}
    (h : (report g palette r).1 = .error e) : r.1 = .error e := by
  obtain ⟨answer, s⟩ := r
  cases answer with
  | error e' =>
    cases h
    rfl
  | ok found => cases found <;> cases h

/-- Planting fails over the colors of the seed only. -/
theorem exists_fault_of_plant {adj : Adjacency} {entries : List (α × Color)} {s : Search}
    {e : Error} (h : plant g adj palette entries s = .error e) :
    ∃ fault, e = .invalidSeed fault := by
  induction entries generalizing s with
  | nil => cases h
  | cons entry entries ih =>
    rw [plant] at h
    split at h
    · cases h
      exact ⟨_, rfl⟩
    · split at h
      · exact ih h
      · split at h
        · cases h
        · exact ih h

/-- **How a call goes, whatever its limit.** It is rejected for its seed
or its palette, it is refuted while the seed is planted, or there is a
search, which starts without steps. -/
theorem color_cases (g : Graph α) (seed : Coloring α) (palette : List Color) :
    (∃ fault, ∀ limit, color limit g seed palette = (.error (.invalidSeed fault), none)) ∨
      (∀ limit, color limit g seed palette =
        (.error (.oracle oracleName (.paletteTooLarge palette.length maxPalette)), none)) ∨
      (∀ limit, color limit g seed palette = (.ok none, some 0)) ∨
      ∃ s : Search, s.steps = 0 ∧ ∀ limit, color limit g seed palette =
        report g palette (s.solve g.adjacency limit g.nodeCount) := by
  by_cases hseed : ValidSeed g seed
  · have hvalid := validateSeed_eq_ok_iff.2 hseed
    by_cases hsize : maxPalette < palette.length
    · exact .inr (.inl fun limit => by simp only [color, hvalid, if_pos hsize])
    · cases hplant : plant g g.adjacency palette seed.entries
          (.start g.nodeCount palette.length) with
      | error e =>
        obtain ⟨fault, rfl⟩ := exists_fault_of_plant hplant
        exact .inl ⟨fault, fun limit => by simp only [color, hvalid, if_neg hsize, hplant]⟩
      | ok s? =>
        cases s? with
        | none =>
          exact .inr (.inr (.inl fun limit => by simp only [color, hvalid, if_neg hsize, hplant]))
        | some s =>
          refine .inr (.inr (.inr ⟨s, steps_plant _ hplant, fun limit => ?_⟩))
          simp only [color, hvalid, if_neg hsize, hplant]
          generalize s.solve g.adjacency limit g.nodeCount = r
          obtain ⟨answer, s'⟩ := r
          cases answer with
          | error e => rfl
          | ok found => cases found <;> rfl
  · obtain ⟨fault, hfault⟩ := exists_validateSeed_eq_error_iff.2 hseed
    exact .inl ⟨fault, fun limit => by simp only [color, hfault]⟩

/-- **A limit cuts a call and changes nothing else.** -/
theorem color_limited {answer : Option (Coloring α)}
    (hok : (color none g seed palette).1 = .ok answer) :
    ∃ n, color none g seed palette = (.ok answer, some n) ∧ ∀ L,
      (n ≤ L → color (some L) g seed palette = (.ok answer, some n)) ∧
      (L < n → color (some L) g seed palette =
        (.error (.oracle oracleName (.stepLimit L)), some (L + 1))) := by
  rcases color_cases g seed palette with ⟨fault, h⟩ | h | h | ⟨s, hs, h⟩
  · rw [h] at hok
    cases hok
  · rw [h] at hok
    cases hok
  · rw [h] at hok
    cases hok
    exact ⟨0, h none, fun L => ⟨fun _ => h (some L), fun hlt => absurd hlt (Nat.not_lt_zero L)⟩⟩
  · obtain ⟨found, s', hsolve, -⟩ := Search.solve_completes g.adjacency g.nodeCount s
    have hreport : color none g seed palette = (.ok answer, some s'.steps) := by
      rw [h, hsolve] at hok ⊢
      cases found <;> exact congrArg (·, some s'.steps) hok
    refine ⟨s'.steps, hreport, fun L => ?_⟩
    have hcut : Search.Cut L _ _ := Search.solve_cut g.adjacency g.nodeCount (hs ▸ Nat.zero_le L)
    rw [hsolve] at hcut
    rw [h, hsolve] at hreport
    rw [h]
    generalize s.solve g.adjacency (some L) g.nodeCount = r at hcut
    cases hcut with
    | within hle => exact ⟨fun _ => hreport, fun hlt => absurd hle (Nat.not_le.2 hlt)⟩
    | exceeded hlt hsteps =>
      refine ⟨fun hle => absurd hlt (Nat.not_lt.2 hle), fun _ => ?_⟩
      rw [report, hsteps]

/-- A call makes no search if it is rejected for its seed or its
palette. -/
theorem steps_of_rejected (h : (∃ fault, (color limit g seed palette).1 =
      .error (.invalidSeed fault)) ∨ maxPalette < palette.length) :
    (color limit g seed palette).2 = none := by
  rcases h with ⟨fault, hfault⟩ | hsize
  · rcases color_cases g seed palette with ⟨_, h⟩ | h | h | ⟨s, hs, h⟩
    · rw [h]
    · rw [h]
    · rw [h] at hfault
      cases hfault
    · rw [h] at hfault
      obtain ⟨L, hL⟩ := Search.error_of_solve hs (error_of_report hfault)
      cases hL
  · rw [color]
    split
    · rfl
    · rw [if_pos hsize]

/-- **Which calls are refuted while their seed is planted**: those with
entries that leave some node nothing, before any color that the palette
lacks. -/
theorem plant_eq_none_iff (hseed : ValidSeed g seed) (hsize : palette.length ≤ maxPalette) :
    plant g g.adjacency palette seed.entries (.start g.nodeCount palette.length) = .ok none ↔
      Starved g palette (seed.inside palette) := by
  by_cases houtside : ∃ a color, seed.get? a = some color ∧ color ∉ palette
  · obtain ⟨a, color, rest, hsplit, hcolor⟩ := Coloring.exists_entries_eq houtside
    have hinside : ∀ e ∈ seed.inside palette, e.2 ∈ palette := fun _ =>
      Coloring.mem_palette_of_mem_inside
    have hplant := plant_append hseed hinside hsplit (planted_start g hsize)
    rw [← hsplit, List.nil_append] at hplant
    rcases hplant with ⟨s, hplant, hs, hkeep⟩ | ⟨hplant, hstarved⟩
    · have herror : plant g g.adjacency palette ((a, color) :: rest) s =
          .error (.invalidSeed (.outsidePalette color (toString a))) := by
        simp only [plant, List.idxOf?_eq_none_iff.2 hcolor]
      rw [hplant, herror]
      refine iff_of_false (fun h => ?_)
        (hs.not_starved fun hpos i hi => hkeep i (domain_start_nonempty hsize hpos hi))
      cases h
    · exact iff_of_true hplant hstarved
  · have hinside : ∀ e ∈ seed.entries, e.2 ∈ palette := fun e he =>
      by_contra fun hcolor => houtside ⟨e.1, e.2, Coloring.get?_eq_some_iff.2 he, hcolor⟩
    have hall : seed.inside palette = seed.entries :=
      List.takeWhile_eq_self_iff.2 fun e he => List.contains_iff_mem.2 (hinside e he)
    rw [hall]
    rcases plant_cases hseed hinside hsize with ⟨s, hplant, hs, hroom⟩ | ⟨hplant, hstarved⟩
    · rw [hplant]
      refine iff_of_false (fun h => ?_) (hs.not_starved hroom)
      cases h
    · exact iff_of_true hplant hstarved

theorem color_of_starved (limit : Option Nat) (hseed : ValidSeed g seed)
    (hsize : palette.length ≤ maxPalette) (hstarved : Starved g palette (seed.inside palette)) :
    color limit g seed palette = (.ok none, some 0) := by
  rw [color, validateSeed_eq_ok_iff.2 hseed]
  simp only [if_neg (Nat.not_lt.2 hsize), (plant_eq_none_iff hseed hsize).2 hstarved]

end Backtrack

/-! ## Runs of an oracle -/

namespace Backtracker

open Backtrack (Starved)

/-- A call of the oracle. One oracle may color graphs with nodes of
different types. -/
structure Call where
  {Node : Type}
  [decEq : DecidableEq Node]
  [toStr : ToString Node]
  graph : Graph Node
  seed : Coloring Node
  palette : List Color

attribute [instance] Call.decEq Call.toStr

/-- The calls of a run, the latest first. -/
abbrev History := List Call

/-- The answer of an oracle to a call. -/
def answer (oracle : Backtracker) (call : Call) : OracleAnswer call.Node :=
  (ColoringOracle.color oracle call.graph call.seed call.palette).1

/-- An oracle after some calls. -/
def after (oracle : Backtracker) : History → Backtracker
  | [] => oracle
  | call :: past =>
    (ColoringOracle.color (after oracle past) call.graph call.seed call.palette).2

/-- The steps that a call takes, if it makes a search. -/
def Call.steps? (limit : Option Nat) (call : Call) : Option Nat :=
  (Backtrack.color limit call.graph call.seed call.palette).2

variable {oracle : Backtracker}

/-- **An oracle remembers the steps of its latest search**, and keeps its
limit. -/
theorem after_eq (oracle : Backtracker) (past : History) : after oracle past =
    ⟨oracle.limit, (past.findSome? (Call.steps? oracle.limit)).getD oracle.steps⟩ := by
  induction past with
  | nil => rfl
  | cons call past ih =>
    have hstep : after oracle (call :: past) =
        { after oracle past with
          steps := (call.steps? (after oracle past).limit).getD (after oracle past).steps } := rfl
    rw [hstep, ih, List.findSome?_cons]
    cases call.steps? oracle.limit <;> rfl

theorem answer_after (oracle : Backtracker) (past : History) (call : Call) :
    answer (after oracle past) call =
      (Backtrack.color oracle.limit call.graph call.seed call.palette).1 := by
  rw [after_eq]
  rfl

theorem steps_after_cons (oracle : Backtracker) (past : History) (call : Call) :
    (after oracle (call :: past)).steps =
      (Backtrack.color oracle.limit call.graph call.seed call.palette).2.getD
        (after oracle past).steps := by
  have hlimit : (after oracle past).limit = oracle.limit := by rw [after_eq]
  rw [← hlimit]
  rfl

/-- **A step limit cuts the search and changes nothing else.** Where the
unlimited oracle answers, an oracle with a limit gives the same answer
after as many steps if these are within the limit, and otherwise fails
with the first step over it, whatever it was asked before. In every run a
call that is rejected leaves the number of steps as it was, and one that
is refuted while its seed is planted sets it to 0, under every limit. -/
theorem limited_cuts (past : History) (call : Call) :
    (∀ outcome, answer unlimited call = .ok outcome → ∀ L,
      ((after unlimited [call]).steps ≤ L →
        answer (after (limited L) past) call = .ok outcome ∧
          (after (limited L) (call :: past)).steps = (after unlimited [call]).steps) ∧
      (L < (after unlimited [call]).steps →
        answer (after (limited L) past) call = .error (.oracle "backtrack" (.stepLimit L)) ∧
          (OracleFault.stepLimit L).message = s!"step limit {L} exceeded" ∧
          (after (limited L) (call :: past)).steps = L + 1)) ∧
      ∀ oracle : Backtracker,
        ((∃ fault, answer (after oracle past) call = .error (.invalidSeed fault)) ∨
            64 < call.palette.length →
          (after oracle (call :: past)).steps = (after oracle past).steps) ∧
        (ValidSeed call.graph call.seed → call.palette.length ≤ 64 →
          Starved call.graph call.palette (call.seed.inside call.palette) →
          answer (after oracle past) call = .ok none ∧
            (after oracle (call :: past)).steps = 0) := by
  refine ⟨fun outcome hok L => ?_, fun oracle => ⟨fun hrejected => ?_, ?_⟩⟩
  · obtain ⟨n, hunlimited, hcut⟩ := Backtrack.color_limited hok
    have hn : (after unlimited [call]).steps = n := by
      rw [steps_after_cons]
      exact congrArg (·.2.getD 0) hunlimited
    have hlimit : (limited L).limit = some L := rfl
    rw [hn, answer_after, steps_after_cons, hlimit]
    constructor
    · intro hle
      rw [(hcut L).1 hle]
      exact ⟨rfl, rfl⟩
    · intro hlt
      rw [(hcut L).2 hlt]
      exact ⟨rfl, rfl, rfl⟩
  · rw [answer_after] at hrejected
    rw [steps_after_cons, Backtrack.steps_of_rejected hrejected]
    rfl
  · intro hseed hsize hstarved
    rw [answer_after, steps_after_cons, Backtrack.color_of_starved _ hseed hsize hstarved]
    exact ⟨rfl, rfl⟩

/-- An edge and two colors take two steps: a limit of 2 lets them pass and
one of 1 does not. A seed with two neighbors in one color then changes
nothing, and one that takes the only color from a neighbor takes no
steps. -/
theorem limited_cuts_edge :
    let g : Graph (Fin 2) := Graph.empty.joinAll [(0, 1)]
    let search : Call := ⟨g, .empty, [.red, .green]⟩
    let refused : Call := ⟨g, .ofList [(0, .red), (1, .red)], [.red]⟩
    let starved : Call := ⟨g, .ofList [(0, .red)], [.red]⟩
    answer (limited 2) search = answer unlimited search ∧
      (after (limited 2) [search]).steps = 2 ∧
      answer (limited 1) search = .error (.oracle "backtrack" (.stepLimit 1)) ∧
      (after (limited 1) [search]).steps = 2 ∧
      (after (limited 1) [refused, search]).steps = 2 ∧
      answer (after (limited 1) [refused, search]) starved = .ok none ∧
      (after (limited 1) [starved, refused, search]).steps = 0 := by
  intro g search refused starved
  have hok : (answer unlimited search).isOk := by decide +kernel
  cases hanswer : answer unlimited search with
  | error e =>
    rw [hanswer] at hok
    cases hok
  | ok outcome =>
    have hsteps : (after unlimited [search]).steps = 2 := by decide +kernel
    have hrefused : ¬ ValidSeed g refused.seed := by
      rw [← validateSeed_eq_ok_iff]
      decide +kernel
    have hseed : ValidSeed g starved.seed := validateSeed_eq_ok_iff.1 (by decide +kernel)
    have hstarved : Starved g [.red] (starved.seed.inside [.red]) := by
      refine ⟨by decide, 1, fun c hc => ⟨0, .red, by decide +kernel, .head [], ?_⟩⟩
      rw [Nat.lt_one_iff.1 hc]
      rfl
    have hcut := (limited_cuts [] search).1 outcome hanswer
    rw [hsteps] at hcut
    obtain ⟨hwithin, hwithin'⟩ := (hcut 2).1 (by decide)
    obtain ⟨hover, -, hover'⟩ := (hcut 1).2 (by decide)
    have hkeep := ((limited_cuts [search] refused).2 (limited 1)).1
      (.inl (checksSeed _ |>.exists_fault hrefused _))
    obtain ⟨hnone, hzero⟩ :=
      ((limited_cuts [refused, search] starved).2 (limited 1)).2 hseed (by decide) hstarved
    exact ⟨hwithin, hwithin', hover, hover', hkeep.trans hover', hnone, hzero⟩

end Backtracker

end Tricolor
