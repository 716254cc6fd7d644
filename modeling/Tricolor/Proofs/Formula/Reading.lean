import Mathlib.Data.List.Forall2
import Mathlib.Data.List.Induction
import Mathlib.Order.Basic
import Tricolor.Proofs.Formula.Grammar
import Tricolor.Proofs.Text.Encoding

/-!
# Reading DIMACS text

The reader accepts the texts that the grammar describes, and returns the
formula that they describe (`ofDimacsBytes_eq_ok_iff`). What carries the
proof is that a reader is determined by what it has read: its clauses and
the open one are the pieces of the literals so far, cut at the zeros
(`Reader.Holds`). So a literal, a line, and all lines can be taken exactly
if there is a reader that holds what has been read then.
-/

namespace Tricolor

theorem Except.bind_eq_ok_iff {ε α β : Type} {x : Except ε α} {k : α → Except ε β} {b : β} :
    x >>= k = .ok b ↔ ∃ a, x = .ok a ∧ k a = .ok b := by
  cases x with
  | error e => simp [bind, Except.bind]
  | ok a => simp [bind, Except.bind]

namespace Formula

open Text (words)
open Grammar

namespace Reader

variable {r r' : Reader} {read more : List Literal} {x : Literal} {f : Formula}

/-! ## What a reader holds -/

/-- What has been read so far, cut at the zeros, are the clauses that have
ended and the open one. -/
def Holds (r : Reader) (read : List Literal) : Prop :=
  read.splitOn 0 = r.clauses.toList.map Clause.literals ++ [r.pending.toList]

theorem holds_iff : r.Holds read ↔
    read = (r.clauses.toList.map Clause.literals).flatMap (· ++ [0]) ++ r.pending.toList ∧
      (∀ literals ∈ r.clauses.toList.map Clause.literals, 0 ∉ literals) ∧ 0 ∉ r.pending.toList :=
  splitOn_eq_append_singleton_iff

theorem holds_start : start.Holds [] := rfl

/-- **What a reader has read determines it**, up to the header. -/
theorem Holds.eq_iff (h : r.Holds read) :
    r = r' ↔ r'.Holds read ∧ r'.declared = r.declared := by
  refine ⟨fun heq => heq ▸ ⟨h, rfl⟩, fun ⟨h', hdeclared⟩ => ?_⟩
  obtain ⟨hclauses, hpending⟩ := List.append_inj' (h.symm.trans h') rfl
  have hclauses := List.map_injective_iff.2 Clause.literals_injective hclauses
  obtain ⟨_, ⟨_⟩, ⟨_⟩⟩ := r
  obtain ⟨_, ⟨_⟩, ⟨_⟩⟩ := r'
  simp_all

theorem Holds.push (h : r.Holds read) (hx : x ≠ 0) :
    Holds { r with pending := r.pending.push x } (read ++ [x]) := by
  rw [holds_iff] at h ⊢
  obtain ⟨rfl, hclauses, hpending⟩ := h
  exact ⟨by simp, hclauses, by simpa using And.intro hpending hx.symm⟩

/-- Before the last literal, a reader held the same without it, or had the
clause open that it ended. -/
theorem Holds.of_concat (h : r.Holds (read ++ [x])) : ∃ r' : Reader, r'.Holds read := by
  obtain ⟨hread, hclauses, hpending⟩ := holds_iff.1 h
  rcases List.eq_nil_or_concat' r.pending.toList with hnil | ⟨literals, y, hliterals⟩
  · rcases List.eq_nil_or_concat' r.clauses.toList with hnil' | ⟨clauses, c, hc⟩
    · simp [hnil, hnil'] at hread
    · -- the last literal is the zero after the last clause
      rw [hnil, List.append_nil, hc, List.map_append, List.flatMap_append] at hread
      rw [hc, List.map_append] at hclauses
      have hread : read ++ [x] =
          (clauses.map Clause.literals).flatMap (· ++ [0]) ++ c.literals ++ [0] := by
        rw [hread, List.append_assoc]
        simp
      refine ⟨⟨none, clauses.toArray, c.literals.toArray⟩,
        holds_iff.2 ⟨(List.append_inj' hread rfl).1, fun literals hl => ?_, ?_⟩⟩
      · exact hclauses literals (List.mem_append_left _ hl)
      · simpa using hclauses c.literals (by simp)
  · rw [hliterals] at hread hpending
    rw [← List.append_assoc] at hread
    exact ⟨{ r with pending := literals.toArray }, holds_iff.2
      ⟨(List.append_inj' hread rfl).1, hclauses, fun h => hpending (List.mem_append_left _ h)⟩⟩

/-- What is held may be cut back to what was read before. -/
theorem Holds.of_append (h : r.Holds (read ++ more)) (declared : Option UInt32) :
    ∃ r' : Reader, r'.Holds read ∧ r'.declared = declared := by
  induction more using List.reverseRecOn generalizing r with
  | nil => exact ⟨{ r with declared := declared }, by rwa [List.append_nil] at h, rfl⟩
  | append_singleton more x ih =>
    rw [← List.append_assoc] at h
    obtain ⟨r', h'⟩ := h.of_concat
    exact ih h'

/-- A zero ends the open clause, if it has three literals. -/
theorem closeClause_eq_ok_iff (h : r.Holds read) :
    r.closeClause = .ok r' ↔ r'.Holds (read ++ [0]) ∧ r'.declared = r.declared := by
  have hsplit : (read ++ [0]).splitOn 0 =
      r.clauses.toList.map Clause.literals ++ [r.pending.toList] ++ [[]] := by
    rw [← h, List.splitOn_append_cons_self, List.splitOn_nil]
  unfold closeClause
  cases hc : Clause.ofList? r.pending.toList with
  | some c =>
    have hclose : Holds { r with clauses := r.clauses.push c, pending := #[] } (read ++ [0]) := by
      rw [Holds, hsplit, Clause.ofList?_eq_some_iff.1 hc]
      simp
    show Except.ok _ = Except.ok r' ↔ _
    rw [Except.ok.injEq, hclose.eq_iff]
  | none =>
    -- a reader that holds the zero has the open clause among its clauses
    refine ⟨nofun, fun ⟨h', _⟩ => ?_⟩
    obtain ⟨hclauses, -⟩ := List.append_inj' (h'.symm.trans hsplit) rfl
    obtain ⟨clauses, last, -, -, hlast⟩ := List.map_eq_append_iff.1 hclauses
    obtain ⟨c, rfl, hc'⟩ := List.map_eq_singleton_iff.1 hlast
    rw [Clause.ofList?_eq_some_iff.2 hc'.symm] at hc
    cases hc

/-- **A word is taken** if it is a literal and a reader can hold it. -/
theorem takeToken_eq_ok_iff {token : List Char} (h : r.Holds read) :
    r.takeToken token = .ok r' ↔
      ∃ x, Text.Numeral.int32? token = some x ∧ r'.Holds (read ++ [x]) ∧
        r'.declared = r.declared := by
  unfold takeToken
  cases Text.Numeral.int32? token with
  | none => simp
  | some x =>
    simp only [Option.some.injEq, exists_eq_left']
    by_cases hx : x = 0
    · rw [if_pos hx, hx, closeClause_eq_ok_iff h]
    · rw [if_neg hx, Except.ok.injEq, (h.push hx).eq_iff]

/-- **Words are taken** if they are literals and a reader can hold them. -/
theorem foldlM_takeToken_eq_ok_iff {tokens : List (List Char)} (h : r.Holds read) :
    tokens.foldlM takeToken r = .ok r' ↔
      ∃ literals : List Literal, tokens.map Text.Numeral.int32? = literals.map some ∧
        r'.Holds (read ++ literals) ∧ r'.declared = r.declared := by
  induction tokens generalizing r read with
  | nil =>
    have hnil : ([].foldlM takeToken r = .ok r') ↔ r = r' := Iff.of_eq (Except.ok.injEq r r')
    rw [hnil, h.eq_iff]
    simp
  | cons token tokens ih =>
    rw [List.foldlM_cons, Except.bind_eq_ok_iff]
    constructor
    · rintro ⟨mid, hmid, hrest⟩
      obtain ⟨x, hx, hmid, hdeclared⟩ := (takeToken_eq_ok_iff h).1 hmid
      obtain ⟨literals, hliterals, h', hdeclared'⟩ := (ih hmid).1 hrest
      refine ⟨x :: literals, by simp [hx, hliterals], ?_, hdeclared'.trans hdeclared⟩
      rwa [List.append_cons]
    · rintro ⟨literals, hliterals, h', hdeclared⟩
      obtain ⟨x, literals, rfl, hx, hliterals⟩ := List.map_eq_cons_iff.1 hliterals.symm
      rw [List.append_cons] at h'
      obtain ⟨mid, hmid, hmiddeclared⟩ := h'.of_append r.declared
      refine ⟨mid, (takeToken_eq_ok_iff h).2 ⟨x, hx.symm, hmid, hmiddeclared⟩, ?_⟩
      exact (ih hmid).2 ⟨literals, hliterals.symm, h', hdeclared.trans hmiddeclared.symm⟩

/-! ## Lines -/

theorem readHeader_eq_ok_iff {line : List Char} {n : UInt32} :
    readHeader (words line) = .ok n ↔ DeclaresVars line n := by
  constructor
  · intro h
    unfold readHeader at h
    split at h
    · rename_i vars count hwords
      split at h
      · cases h
      · rename_i m hm
        split at h
        · cases h
        · rename_i k hk
          cases h
          exact ⟨vars, count, m, k, hwords, hm, hk, rfl⟩
    · cases h
  · rintro ⟨vars, count, m, k, hwords, hm, hk, rfl⟩
    simp only [hwords, readHeader, hm, hk]

/-- A line of data: a header, or literals. -/
def takeLine (r : Reader) (line : List Char) : Except ParseFault Reader :=
  if isHeader line then r.takeHeader (words line) else (words line).foldlM takeToken r

theorem takeLine_header_eq_ok_iff {line : List Char} (hline : isHeader line) :
    r.takeLine line = .ok r' ↔
      r.declared = none ∧ ∃ n, DeclaresVars line n ∧ r' = { r with declared := some n } := by
  rw [takeLine, if_pos hline, takeHeader]
  cases hdeclared : r.declared with
  | some d => simp
  | none =>
    simp only [← readHeader_eq_ok_iff]
    cases readHeader (words line) with
    | error fault => simp [Except.map]
    | ok n => simp [Except.map, eq_comm]

/-- **What a line does**, by what it holds. -/
theorem readLines_some {line : List Char} {rest : List (Option (List Char))} {n : Nat} :
    r.readLines n (some line :: rest) =
      if isIgnored line then r.readLines (n + 1) rest
      else if isStop line then r.finish (n + 1)
      else match r.takeLine line with
        | .ok r => r.readLines (n + 1) rest
        | .error fault => .error (.parse (n + 1) fault) := by
  rw [readLines, LineKind.ofLine_eq, takeLine]
  by_cases hignored : isIgnored line
  · simp [hignored]
  · by_cases hstop : isStop line
    · simp [hignored, hstop]
    · rw [if_neg hignored, if_neg hstop, if_neg hignored, if_neg hstop]
      cases isHeader line <;> rfl

theorem exists_map_some_cons {α : Type} {a : α} {l : List (Option α)} {P : List α → Prop} :
    (∃ xs, some a :: l = xs.map some ∧ P xs) ↔ ∃ xs, l = xs.map some ∧ P (a :: xs) := by
  constructor
  · rintro ⟨xs, hxs, h⟩
    obtain ⟨b, xs, rfl, hb, hl⟩ := List.map_eq_cons_iff.1 hxs.symm
    cases hb
    exact ⟨xs, hl.symm, h⟩
  · rintro ⟨xs, rfl, h⟩
    exact ⟨a :: xs, rfl, h⟩

/-- **Reading is taking the lines of data** up to the end of the input,
all of which can be decoded. -/
theorem readLines_eq_ok_iff {lines : List (Option (List Char))} {n : Nat} :
    r.readLines n lines = .ok f ↔
      ∃ texts, upToStop lines = texts.map some ∧
        ∃ r', (dataLines texts).foldlM takeLine r = .ok r' ∧
          r'.finish (n + texts.length) = .ok f := by
  induction lines generalizing r n with
  | nil =>
    constructor
    · exact fun h => ⟨[], rfl, r, rfl, h⟩
    · rintro ⟨texts, htexts, r', hr', h⟩
      obtain rfl := List.map_eq_nil_iff.1 htexts.symm
      cases hr'
      exact h
  | cons line lines ih =>
    cases line with
    | none =>
      refine ⟨nofun, fun ⟨texts, htexts, _⟩ => ?_⟩
      obtain ⟨text, _, _, htext, _⟩ := List.map_eq_cons_iff.1 htexts.symm
      cases htext
    | some line =>
      rw [readLines_some, upToStop, Option.any_some]
      by_cases hignored : isIgnored line
      · rw [if_pos hignored, isStop_eq_false_of_isIgnored hignored, if_neg Bool.false_ne_true,
          exists_map_some_cons, ih]
        simp [dataLines, hignored, Nat.add_comm, Nat.add_left_comm]
      · rw [if_neg hignored]
        by_cases hstop : isStop line
        · rw [if_pos hstop, if_pos hstop, exists_map_some_cons]
          simp [dataLines, hstop, pure, Except.pure]
        · have hdata (texts) : dataLines (line :: texts) = line :: dataLines texts := by
            simp [dataLines, hignored, hstop]
          rw [if_neg hstop, if_neg hstop, exists_map_some_cons]
          simp only [hdata, List.foldlM_cons]
          cases r.takeLine line with
          | error fault => simp [bind, Except.bind]
          | ok mid => simp [bind, Except.bind, ih, Nat.add_comm, Nat.add_left_comm]

/-- **Lines of data are taken** if the headers declare something to the
reader and the words of the other lines are literals that a reader can
hold. -/
theorem foldlM_takeLine_eq_ok_iff {data : List (List Char)} (h : r.Holds read) :
    data.foldlM takeLine r = .ok r' ↔
      ∃ (declared : List UInt32) (literals : List Literal),
        List.Forall₂ DeclaresVars (data.filter isHeader) declared ∧
        r'.declared.toList = r.declared.toList ++ declared ∧
        ((data.filter (!isHeader ·)).flatMap words).map Text.Numeral.int32? = literals.map some ∧
        r'.Holds (read ++ literals) := by
  induction data generalizing r read with
  | nil =>
    have hnil : ([].foldlM takeLine r = .ok r') ↔ r = r' := Iff.of_eq (Except.ok.injEq r r')
    have hdeclared : r'.declared.toList = r.declared.toList ↔ r'.declared = r.declared := by
      cases r.declared <;> cases r'.declared <;> simp
    rw [hnil, h.eq_iff]
    simp [hdeclared, and_comm]
  | cons line data ih =>
    rw [List.foldlM_cons, Except.bind_eq_ok_iff]
    by_cases hline : isHeader line
    · simp only [takeLine_header_eq_ok_iff hline, List.filter_cons, hline, if_true,
        Bool.not_true, Bool.false_eq_true, if_false]
      constructor
      · rintro ⟨mid, ⟨hnone, n, hn, rfl⟩, hrest⟩
        have hmid : Holds { r with declared := some n } read := h
        obtain ⟨declared, literals, hheaders, hdeclared, hrest⟩ := (ih hmid).1 hrest
        exact ⟨n :: declared, literals, .cons hn hheaders, hnone ▸ hdeclared, hrest⟩
      · rintro ⟨declared, literals, hheaders, hdeclared, hrest⟩
        obtain ⟨n, declared, hn, hmore, rfl⟩ := List.forall₂_cons_left_iff.1 hheaders
        -- there is room for one declared number only
        have hnone : r.declared = none := by
          cases hr : r.declared <;> cases hr' : r'.declared <;> simp_all
        have hmid : Holds { r with declared := some n } read := h
        refine ⟨{ r with declared := some n }, ⟨hnone, n, hn, rfl⟩, ?_⟩
        refine (ih hmid).2 ⟨declared, literals, hmore, ?_, hrest⟩
        rw [hdeclared, hnone]
        rfl
    · simp only [takeLine, foldlM_takeToken_eq_ok_iff h, List.filter_cons,
        Bool.eq_false_iff.2 hline, Bool.false_eq_true, if_false, Bool.not_false, if_true,
        List.flatMap_cons, List.map_append]
      constructor
      · rintro ⟨mid, ⟨front, hfront, hmid, hdeclared⟩, hrest⟩
        obtain ⟨declared, literals, hheaders, hdeclared', htokens, h'⟩ := (ih hmid).1 hrest
        refine ⟨declared, front ++ literals, hheaders, hdeclared ▸ hdeclared', ?_, ?_⟩
        · rw [hfront, htokens, List.map_append]
        · rwa [← List.append_assoc]
      · rintro ⟨declared, literals, hheaders, hdeclared, htokens, h'⟩
        obtain ⟨front, literals, rfl, hfront, htokens⟩ := List.map_eq_append_iff.1 htokens.symm
        -- a reader between the lines is found by cutting back the one at the end
        rw [← List.append_assoc] at h'
        obtain ⟨mid, hmid, hmiddeclared⟩ := h'.of_append r.declared
        refine ⟨mid, ⟨front, hfront.symm, hmid, hmiddeclared⟩, ?_⟩
        refine (ih hmid).2 ⟨declared, literals, hheaders, ?_, htokens.symm, h'⟩
        rw [hmiddeclared, hdeclared]

/-! ## The end of the input -/

/-- The reader with the clause that is still open closed. -/
def closed (r : Reader) : Except ParseFault Reader :=
  if r.pending.isEmpty then .ok r else r.closeClause

/-- The last clause is ended by the end of the input. -/
theorem exists_closed_iff (h : r.Holds read) {clauses : List Clause} :
    (∃ r' : Reader, r.closed = .ok r' ∧ r'.clauses.toList = clauses ∧ r'.declared = r.declared) ↔
      CutInto read clauses := by
  unfold closed CutInto
  split
  · rename_i hempty
    have hread : read.splitOn 0 = r.clauses.toList.map Clause.literals ++ [[]] := by
      rw [h, Array.isEmpty_iff.1 hempty]
    simp only [Except.ok.injEq, exists_eq_left', and_true, hread, List.append_left_inj,
      (List.map_injective_iff.2 Clause.literals_injective).eq_iff]
    refine ⟨.inl, fun hor => hor.resolve_right fun hlast => ?_⟩
    obtain ⟨c, -, hc⟩ := List.mem_map.1 (hlast ▸ List.mem_append_right _ (.head []))
    cases hc
  · rename_i hopen
    have hsplit : (read ++ [0]).splitOn 0 = read.splitOn 0 ++ [[]] := by
      rw [List.splitOn_append_cons_self, List.splitOn_nil]
    constructor
    · rintro ⟨r', hclose, rfl, -⟩
      obtain ⟨h', -⟩ := (closeClause_eq_ok_iff h).1 hclose
      exact .inr (List.append_inj' (hsplit.symm.trans h') rfl).1
    · rintro (hread | hread)
      · obtain ⟨-, hpending⟩ := List.append_inj' (h.symm.trans hread) rfl
        simp_all
      · have h' : Holds ⟨r.declared, clauses.toArray, #[]⟩ (read ++ [0]) := by
          rw [Holds, hsplit, hread]
        exact ⟨_, (closeClause_eq_ok_iff h).2 ⟨h', rfl⟩, rfl, rfl⟩

theorem declared_of_closed (h : r.closed = .ok r') : r'.declared = r.declared := by
  unfold closed closeClause at h
  split at h
  · cases h
    rfl
  · split at h <;> cases h
    rfl

/-- Clauses that have been read are held by some reader. -/
theorem exists_holds {clauses : List Clause} (h : CutInto read clauses)
    (declared : Option UInt32) : ∃ r : Reader, r.Holds read ∧ r.declared = declared := by
  rcases h with h | h
  · exact ⟨⟨declared, clauses.toArray, #[]⟩, by rw [Holds, h], rfl⟩
  · rcases List.eq_nil_or_concat' clauses with rfl | ⟨clauses, c, rfl⟩
    · exact absurd h (List.splitOn_ne_nil 0 read)
    · refine ⟨⟨declared, clauses.toArray, c.literals.toArray⟩, ?_, rfl⟩
      rw [Holds, h, List.map_append]
      rfl

/-- **The input may end** if the last clause can be closed and the formula
is valid. -/
theorem finish_eq_ok_iff {n : Nat} :
    r.finish n = .ok f ↔ ∃ r', r.closed = .ok r' ∧ r'.formula = f ∧ f.Valid := by
  have hvalidate (r : Reader) :
      (r.formula.validate >>= fun _ => .ok r.formula : Except Error Formula) = .ok f ↔
        r.formula = f ∧ f.Valid := by
    rw [Except.bind_eq_ok_iff, ← validate_eq_ok_iff]
    constructor
    · rintro ⟨_, hvalid, ⟨⟩⟩
      exact ⟨rfl, hvalid⟩
    · rintro ⟨rfl, hvalid⟩
      exact ⟨(), hvalid, rfl⟩
  rw [finish, closed]
  split
  · rw [Except.bind_eq_ok_iff]
    simp only [Except.ok.injEq, exists_eq_left']
    exact hvalidate r
  · rw [Except.bind_eq_ok_iff]
    cases r.closeClause with
    | error fault => simp [Except.mapError]
    | ok r' =>
      simp only [Except.mapError, Except.ok.injEq, exists_eq_left']
      exact hvalidate r'

/-! ## Variables -/

theorem largestVar_le_iff {clauses : List Clause} {n : Nat} :
    Reader.largestVar clauses ≤ n ↔ ∀ c ∈ clauses, ∀ x ∈ c.literals, x.var ≤ n := by
  have hfoldl (literals : List Literal) (m : Nat) :
      literals.foldl (fun m x => max m x.var) m ≤ n ↔ m ≤ n ∧ ∀ x ∈ literals, x.var ≤ n := by
    induction literals generalizing m with
    | nil => simp
    | cons x literals ih =>
      rw [List.foldl_cons, ih, Nat.max_le, and_assoc, List.forall_mem_cons]
  rw [Reader.largestVar, ← List.foldl_flatMap, hfoldl, List.forall_mem_flatMap]
  exact and_iff_right (Nat.zero_le n)

/-- The number of variables of a formula whose clauses have been read is
what the grammar asks for, if the formula is valid. -/
theorem numVars_iff {declared : Option UInt32} (h : CutInto read f.clauses) :
    f.numVars = declared.getD (UInt32.ofNat (Reader.largestVar f.clauses)) ∧ f.Valid ↔
      (∀ n, declared = some n → ∀ x ∈ read, x.var ≤ n.toNat) ∧
        f.numVars.toNat = declared.elim (Grammar.largestVar read) UInt32.toNat := by
  have hlargest : Reader.largestVar f.clauses = Grammar.largestVar read := by
    refine eq_of_forall_ge_iff fun n => ?_
    rw [Reader.largestVar_le_iff, Grammar.largestVar_le_iff, h.forall_var_le_iff]
  rw [h.valid_iff, hlargest]
  cases declared with
  | none =>
    have hlt := Grammar.largestVar_lt read
    simp only [Option.getD_none, Option.elim_none, reduceCtorEq, false_imp_iff, implies_true,
      true_and, ← UInt32.toNat_inj, UInt32.toNat_ofNat_of_lt' hlt]
    exact and_iff_left_of_imp fun heq => Grammar.largestVar_le_iff.1 heq.ge
  | some n =>
    simp only [Option.getD_some, Option.some.injEq, forall_eq', Option.elim_some,
      UInt32.toNat_inj]
    constructor
    · rintro ⟨rfl, hle⟩
      exact ⟨hle, rfl⟩
    · rintro ⟨hle, rfl⟩
      exact ⟨rfl, hle⟩

/-- **Closing the last clause** yields the formula that the grammar asks
for. -/
theorem finish_eq_ok_iff_of_holds (h : r.Holds read) {n : Nat} :
    r.finish n = .ok f ↔
      CutInto read f.clauses ∧
      (∀ n, r.declared = some n → ∀ x ∈ read, x.var ≤ n.toNat) ∧
      f.numVars.toNat = r.declared.elim (Grammar.largestVar read) UInt32.toNat := by
  rw [finish_eq_ok_iff]
  constructor
  · rintro ⟨r', hr', rfl, hvalid⟩
    have hdeclared := declared_of_closed hr'
    have hclauses := (exists_closed_iff h).1 ⟨r', hr', rfl, hdeclared⟩
    exact ⟨hclauses, hdeclared ▸ (numVars_iff hclauses).1 ⟨rfl, hvalid⟩⟩
  · rintro ⟨hclauses, hvars⟩
    obtain ⟨r', hr', hr'clauses, hdeclared⟩ := (exists_closed_iff h).2 hclauses
    obtain ⟨hnumVars, hvalid⟩ := (numVars_iff hclauses).2 hvars
    refine ⟨r', hr', ?_, hvalid⟩
    rw [formula, hr'clauses, hdeclared, ← hnumVars]

end Reader

/-- **A text is read as its bytes are.** -/
theorem ofDimacsBytes_toUTF8 (text : String) :
    ofDimacsBytes text.toUTF8.data.toList = ofDimacs text := by
  have hbytes : text.toUTF8.data.toList = Text.encode text.toList := by
    have hdata := Text.data_toByteArray_ofList text.toList
    rw [String.ofList_toList] at hdata
    exact congrArg Array.toList hdata
  rw [ofDimacsBytes, hbytes, Text.map_decode?_byteLines, ofDimacs]

open Grammar Reader in
/-- **The reader accepts its grammar.** Bytes are read as a formula
exactly if the lines up to the end of the input can be decoded and
describe it. -/
theorem ofDimacsBytes_eq_ok_iff {bytes : List UInt8} {f : Formula} :
    ofDimacsBytes bytes = .ok f ↔
      ∃ texts declared literals,
        upToStop ((Text.byteLines bytes).map Text.decode?) = texts.map some ∧
        Describes texts declared literals f := by
  rw [ofDimacsBytes, readLines_eq_ok_iff]
  constructor
  · rintro ⟨texts, htexts, r, hr, hfinish⟩
    obtain ⟨declared, literals, hheaders, hdeclared, htokens, hholds⟩ :=
      (foldlM_takeLine_eq_ok_iff holds_start).1 hr
    obtain ⟨hclauses, hcovered, hnumVars⟩ := (finish_eq_ok_iff_of_holds hholds).1 hfinish
    have hdeclared : r.declared.toList = declared := hdeclared
    exact ⟨texts, r.declared, literals, htexts, hdeclared ▸ hheaders, htokens, hclauses,
      hcovered, hnumVars⟩
  · rintro ⟨texts, declared, literals, htexts, hheaders, htokens, hclauses, hcovered, hnumVars⟩
    obtain ⟨r, hholds, rfl⟩ := exists_holds hclauses declared
    exact ⟨texts, htexts, r,
      (foldlM_takeLine_eq_ok_iff holds_start).2
        ⟨r.declared.toList, literals, hheaders, rfl, htokens, hholds⟩,
      (finish_eq_ok_iff_of_holds hholds).2 ⟨hclauses, hcovered, hnumVars⟩⟩

end Formula

end Tricolor
