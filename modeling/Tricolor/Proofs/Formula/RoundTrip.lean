import Tricolor.Proofs.Cnf.Dimacs
import Tricolor.Proofs.Formula.Reading

/-!
# Reading what was written

The text of a formula is read back as the formula, if it is valid
(`ofDimacs_toDimacs`). The text is a line of words for the header and one
for every clause (`textLines_toDimacs`), and the reader has no clause open
between two lines, so it goes from clause to clause
(`Reader.readLines_append_clauses`). A literal 0 ends its clause too soon;
this is noticed on its line, before the range of the other literals is
looked at.
-/

namespace Tricolor

namespace Formula

open Text (words)

/-! ## The text -/

/-- The line of a clause. -/
def clauseRow (c : Clause) : List Char :=
  [' '].intercalate (Dimacs.clauseWords (c.literals.map Int32.toInt))

/-- The lines of the text of a formula. -/
def rows (f : Formula) : List (List Char) :=
  [' '].intercalate (Dimacs.headerWords f.numVars.toNat f.clauses.length) ::
    f.clauses.map clauseRow

variable {f : Formula}

theorem words_clauseRow {c : Clause} :
    words (clauseRow c) = Dimacs.clauseWords (c.literals.map Int32.toInt) :=
  Text.words_intercalate (by decide) fun _ => Dimacs.solid_of_mem_clauseWords

theorem not_mem_of_mem_rows {row : List Char} (hrow : row ∈ f.rows) {d : Char}
    (hd : Text.isBlank d) (hne : d ≠ ' ') : d ∉ row := by
  rcases List.mem_cons.1 hrow with rfl | hrow
  · exact Text.not_mem_intercalate (fun _ => Dimacs.solid_of_mem_headerWords) hd hne
  · obtain ⟨c, -, rfl⟩ := List.mem_map.1 hrow
    exact Text.not_mem_intercalate (fun _ => Dimacs.solid_of_mem_clauseWords) hd hne

theorem toList_toDimacs (f : Formula) : f.toDimacs.toList = f.rows.flatMap (· ++ ['\n']) := by
  rw [toDimacs, String.toList_append, Dimacs.toList_header, String.toList_join, rows]
  simp [List.flatMap_map, Dimacs.toList_clauseLine, clauseRow]

/-- **The lines of the text** are a header and the clauses. -/
theorem textLines_toDimacs (f : Formula) : Text.textLines f.toDimacs.toList = f.rows := by
  rw [Text.textLines, toList_toDimacs]
  exact Text.lines_flatMap (fun _ hrow => not_mem_of_mem_rows hrow (by decide) (by decide))
    fun _ hrow => not_mem_of_mem_rows hrow (by decide) (by decide)

/-! ## The header and the clauses -/

namespace Reader

variable {r : Reader} {c : Clause} {n : Nat}

/-- What is printed for a literal. -/
def printed (x : Literal) : List Char := (toString x.toInt).toList

/-- Takes a literal that is read, which may be the zero at the end of a
clause. -/
def take (r : Reader) (x : Literal) : Except ParseFault Reader :=
  if x = 0 then r.closeClause else .ok { r with pending := r.pending.push x }

theorem takeToken_printed (r : Reader) (x : Literal) : r.takeToken (printed x) = r.take x := by
  rw [takeToken, printed, Text.Numeral.int32?_toString, take]

theorem clauseWords_eq (c : Clause) :
    Dimacs.clauseWords (c.literals.map Int32.toInt) = (c.literals ++ [0]).map printed := by
  rw [Dimacs.clauseWords, List.map_map, List.map_append]
  rfl

/-- Literals that are not zero stay open. -/
theorem foldlM_take_append {front rest : List Literal} (h : 0 ∉ front) :
    (front ++ rest).foldlM take r =
      rest.foldlM take { r with pending := r.pending ++ front.toArray } := by
  induction front generalizing r with
  | nil => simp
  | cons x front ih =>
    rw [List.mem_cons, not_or] at h
    rw [List.cons_append, List.foldlM_cons, take, if_neg (Ne.symm h.1)]
    refine (ih h.2).trans ?_
    simp

/-- **A line of a clause** adds the clause, unless a zero ends it too
soon. -/
theorem foldlM_take (hr : r.pending = #[]) (c : Clause) :
    (c.literals ++ [0]).foldlM take r =
      if 0 ∈ c.literals then .error (.clauseWidth (c.literals.takeWhile (· ≠ 0)).length)
      else .ok { r with clauses := r.clauses.push c } := by
  split
  · rename_i hzero
    obtain ⟨front, back, hc, hfront⟩ := List.eq_append_cons_of_mem hzero
    have hshort : front.length < 3 := by
      have := congrArg List.length hc
      simp only [Clause.literals, List.length_append, List.length_cons, List.length_nil] at this
      omega
    have htake : c.literals.takeWhile (· ≠ 0) = front := by
      rw [hc, List.takeWhile_append_of_pos fun x hx => by
        simpa using fun h0 : x = 0 => hfront (h0 ▸ hx)]
      simp
    rw [htake, hc, List.append_assoc, foldlM_take_append hfront, hr, List.cons_append,
      List.foldlM_cons, take, if_pos rfl, closeClause]
    simp only [Array.empty_append, List.toList_toArray, List.size_toArray]
    rw [Clause.ofList?_eq_none_of_length_ne hshort.ne]
    rfl
  · rename_i hzero
    rw [foldlM_take_append hzero, hr, List.foldlM_cons, take, if_pos rfl, closeClause]
    simp only [Array.empty_append, List.toList_toArray]
    rw [Clause.ofList?_eq_some_iff.2 rfl]
    rfl

/-- The header declares its number of variables. -/
theorem readLines_header {rest : List (Option (List Char))} {numVars : UInt32} {numClauses : Nat}
    (hr : r.declared = none) (hcount : numClauses < UInt64.size) :
    r.readLines n
        (some ([' '].intercalate (Dimacs.headerWords numVars.toNat numClauses)) :: rest) =
      { r with declared := some numVars }.readLines (n + 1) rest := by
  have hwords := Dimacs.words_header numVars.toNat numClauses
  have hread : readHeader (Dimacs.headerWords numVars.toNat numClauses) = .ok numVars := by
    rw [Dimacs.headerWords, readHeader, Text.Numeral.below?_toString numVars.toNat_lt,
      Text.Numeral.below?_toString hcount]
    exact congrArg Except.ok UInt32.ofNat_toNat
  have hkind : LineKind.ofLine ([' '].intercalate (Dimacs.headerWords numVars.toNat numClauses)) =
      .header (Dimacs.headerWords numVars.toNat numClauses) := by
    rw [LineKind.ofLine, hwords]
    rfl
  rw [readLines, hkind]
  simp only [takeHeader, hr, hread]
  rfl

/-- The line of a clause is a line of literals. -/
theorem ofLine_clauseRow (c : Clause) :
    LineKind.ofLine (clauseRow c) = .literals ((c.literals ++ [0]).map printed) := by
  have hfirst (d : Char) (hd : d = 'c' ∨ d = '%' ∨ d = 'p') :
      (printed c.first).head? ≠ some d := by
    intro h
    have hmem := Text.Numeral.eq_minus_or_isDigit_of_mem (List.mem_of_mem_head? h)
    rcases hd with rfl | rfl | rfl <;> exact absurd hmem (by decide)
  rw [LineKind.ofLine, words_clauseRow, clauseWords_eq]
  simp only [Clause.literals, List.cons_append, List.map_cons]
  split
  · exact absurd ‹_› (hfirst 'c' (.inl rfl))
  · exact absurd ‹_› (hfirst '%' (.inr (.inl rfl)))
  · exact absurd ‹_› (hfirst 'p' (.inr (.inr rfl)))
  · rfl

/-- **What the line of a clause does.** -/
theorem readLines_clause {rest : List (Option (List Char))} (hr : r.pending = #[]) :
    r.readLines n (some (clauseRow c) :: rest) =
      if 0 ∈ c.literals then
        .error (.parse (n + 1) (.clauseWidth (c.literals.takeWhile (· ≠ 0)).length))
      else { r with clauses := r.clauses.push c }.readLines (n + 1) rest := by
  have htake : ((c.literals ++ [0]).map printed).foldlM takeToken r =
      (c.literals ++ [0]).foldlM take r := by
    rw [List.foldlM_map]
    simp only [takeToken_printed]
  rw [readLines, ofLine_clauseRow]
  simp only [htake, foldlM_take hr]
  by_cases hzero : 0 ∈ c.literals
  · simp only [if_pos hzero]
  · simp only [if_neg hzero]

/-- **Clauses without zeros are read one by one.** -/
theorem readLines_append_clauses {clauses : List Clause} {rest : List (Option (List Char))}
    (hr : r.pending = #[]) (hclauses : ∀ c ∈ clauses, 0 ∉ c.literals) :
    r.readLines n (clauses.map (fun c => some (clauseRow c)) ++ rest) =
      { r with clauses := r.clauses ++ clauses.toArray }.readLines (n + clauses.length) rest := by
  induction clauses generalizing r n with
  | nil => simp
  | cons c clauses ih =>
    rw [List.map_cons, List.cons_append, readLines_clause hr, if_neg (hclauses c (.head clauses))]
    have hnext := ih (r := { r with clauses := r.clauses.push c }) (n := n + 1) hr
      fun c' h' => hclauses c' (.tail c h')
    rw [hnext, Nat.add_assoc, Nat.add_comm 1]
    simp

theorem finish_eq_validate (hr : r.pending = #[]) :
    r.finish n = r.formula.validate.map fun _ => r.formula := by
  rw [finish, hr]
  rfl

end Reader

/-- The header has been read, and the clauses are to come. -/
theorem ofDimacs_toDimacs_eq (h : f.clauses.length < UInt64.size) :
    ofDimacs f.toDimacs =
      Reader.readLines ⟨some f.numVars, #[], #[]⟩ 1 (f.clauses.map fun c => some (clauseRow c)) := by
  rw [ofDimacs, textLines_toDimacs, rows, List.map_cons, Reader.readLines_header rfl h,
    List.map_map]
  rfl

/-- A formula without zeros is read back, and then validated. -/
theorem ofDimacs_toDimacs_of_nonzero (h : f.clauses.length < UInt64.size)
    (hzero : ∀ c ∈ f.clauses, 0 ∉ c.literals) :
    ofDimacs f.toDimacs = f.validate.map fun _ => f := by
  have hformula : Reader.formula ⟨some f.numVars, #[] ++ f.clauses.toArray, #[]⟩ = f := by
    simp [Reader.formula]
  rw [ofDimacs_toDimacs_eq h, ← List.append_nil (f.clauses.map _),
    Reader.readLines_append_clauses rfl hzero, Reader.readLines, Reader.finish_eq_validate rfl,
    hformula]

/-- The first clause with a zero is refused on its line. -/
theorem ofDimacs_toDimacs_of_zero {clauses rest : List Clause} {c : Clause}
    (h : f.clauses.length < UInt64.size) (hf : f.clauses = clauses ++ c :: rest)
    (hclauses : ∀ c ∈ clauses, 0 ∉ c.literals) (hzero : 0 ∈ c.literals) :
    ofDimacs f.toDimacs =
      .error (.parse (clauses.length + 2)
        (.clauseWidth (c.literals.takeWhile (· ≠ 0)).length)) := by
  rw [ofDimacs_toDimacs_eq h, hf, List.map_append, Reader.readLines_append_clauses rfl hclauses,
    List.map_cons, Reader.readLines_clause rfl, if_pos hzero]
  rw [show 1 + clauses.length + 1 = clauses.length + 2 by omega]

/-- **Writing and reading.** The text of a formula is read as that
formula exactly if the formula is valid. If a clause has a literal 0, the
line of the first such clause is refused, for the number of literals
before the first 0; if no clause has one, the error is that of the
formula. Clauses are counted by a number of machine size. -/
theorem ofDimacs_toDimacs (f : Formula) (h : f.clauses.length < UInt64.size) :
    (ofDimacs f.toDimacs = .ok f ↔ f.validate = .ok ()) ∧
    (∀ k c, f.clauses[k]? = some c → 0 ∈ c.literals →
      (∀ c ∈ f.clauses.take k, 0 ∉ c.literals) →
      let found := (c.literals.takeWhile (· ≠ 0)).length
      ofDimacs f.toDimacs = .error (.parse (k + 2) (.clauseWidth found)) ∧
        (ParseFault.clauseWidth found).message =
          s!"expected 3 literals per clause, found {found}") ∧
    ((∀ c ∈ f.clauses, 0 ∉ c.literals) → ∀ e, f.validate = .error e →
      ofDimacs f.toDimacs = .error e) := by
  refine ⟨?_, fun k c hc hzero hbefore => ⟨?_, ?_⟩, fun hzero e he => ?_⟩
  · cases hfirst : f.clauses.find? fun c => decide (0 ∈ c.literals) with
    | none =>
      have hzero (c) (hc : c ∈ f.clauses) : 0 ∉ c.literals := by
        simpa using List.find?_eq_none.1 hfirst c hc
      rw [ofDimacs_toDimacs_of_nonzero h hzero]
      cases f.validate <;> simp [Except.map]
    | some c =>
      obtain ⟨hzero, clauses, rest, hf, hbefore⟩ := List.find?_eq_some_iff_append.1 hfirst
      have hzero := of_decide_eq_true hzero
      have hinvalid : ¬ f.Valid := fun hvalid =>
        Literal.var_pos_iff.1 (hvalid c (hf ▸ List.mem_append_right _ (.head rest)) 0 hzero).1 rfl
      rw [ofDimacs_toDimacs_of_zero h hf (fun c' hc' => by simpa using hbefore c' hc') hzero,
        validate_eq_ok_iff]
      simp [hinvalid]
  · obtain ⟨hlt, rfl⟩ := List.getElem?_eq_some_iff.1 hc
    have hf : f.clauses = f.clauses.take k ++ f.clauses[k] :: f.clauses.drop (k + 1) := by
      rw [List.getElem_cons_drop, List.take_append_drop]
    have hread := ofDimacs_toDimacs_of_zero h hf hbefore hzero
    rwa [List.length_take_of_le hlt.le] at hread
  · rfl
  · rw [ofDimacs_toDimacs_of_nonzero h hzero, he]
    rfl

/-- A valid formula is read back, a zero is noticed on the line of its
clause, and the least literal is out of range. -/
theorem ofDimacs_toDimacs_outcomes :
    ofDimacs (toDimacs ⟨2, [⟨1, -2, 1⟩, ⟨2, 2, -1⟩]⟩) = .ok ⟨2, [⟨1, -2, 1⟩, ⟨2, 2, -1⟩]⟩ ∧
    ofDimacs (toDimacs ⟨2, [⟨1, 5, 1⟩, ⟨2, 0, 0⟩]⟩) = .error (.parse 3 (.clauseWidth 1)) ∧
    ofDimacs (toDimacs ⟨2, [⟨1, 2, -2147483648⟩]⟩) =
      .error (.literalOutOfRange 0 (-2147483648) 2) := by
  obtain ⟨hok, -, -⟩ := ofDimacs_toDimacs ⟨2, [⟨1, -2, 1⟩, ⟨2, 2, -1⟩]⟩ (by decide)
  obtain ⟨-, hzero, -⟩ := ofDimacs_toDimacs ⟨2, [⟨1, 5, 1⟩, ⟨2, 0, 0⟩]⟩ (by decide)
  obtain ⟨-, -, hrange⟩ := ofDimacs_toDimacs ⟨2, [⟨1, 2, -2147483648⟩]⟩ (by decide)
  exact ⟨hok.2 (by decide), (hzero 1 ⟨2, 0, 0⟩ rfl (by decide) (by decide)).1,
    hrange (by decide) _ (by decide)⟩

end Formula

end Tricolor
