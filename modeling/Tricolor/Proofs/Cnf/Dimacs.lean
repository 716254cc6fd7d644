import Tricolor.Cnf.Dimacs
import Tricolor.Proofs.Text.Numeral

/-!
# Tokens of DIMACS text

The lines of a DIMACS text are words with a blank between them, and their
words are the numerals of the literals with a 0 after each clause. So what
follows the header of the text of a formula reads as a sequence of
integers, and cutting these at the zeros gives back the clauses, empty ones
included (`Cnf.splitOn_numerals`), as long as no literal is over variable 0.
-/

namespace Tricolor

namespace Dimacs

open Text (Solid words)

/-- The words of the header line. -/
def headerWords (numVars numClauses : Nat) : List (List Char) :=
  [['p'], ['c', 'n', 'f'], (toString numVars).toList, (toString numClauses).toList]

/-- The words of the line of a clause. -/
def clauseWords (literals : List Int) : List (List Char) :=
  literals.map (fun x => (toString x).toList) ++ [['0']]

variable {numVars numClauses : Nat} {literals : List Int} {word : List Char}

theorem solid_of_mem_headerWords (h : word ∈ headerWords numVars numClauses) : Solid word := by
  simp only [headerWords, List.mem_cons, List.not_mem_nil, or_false] at h
  rcases h with rfl | rfl | rfl | rfl
  · exact Text.solid_of_all (by decide) (by decide)
  · exact Text.solid_of_all (by decide) (by decide)
  · exact Text.Numeral.solid_toString numVars
  · exact Text.Numeral.solid_toString numClauses

theorem solid_of_mem_clauseWords (h : word ∈ clauseWords literals) : Solid word := by
  rcases List.mem_append.1 h with h | h
  · obtain ⟨x, -, rfl⟩ := List.mem_map.1 h
    exact Text.Numeral.solid_toString_int x
  · rw [List.mem_singleton.1 h]
    exact Text.solid_of_all (by decide) (by decide)

theorem toList_header : (header numVars numClauses).toList =
    [' '].intercalate (headerWords numVars numClauses) ++ ['\n'] := by
  simp [header, headerWords, List.intercalate]

theorem words_header (numVars numClauses : Nat) :
    words ([' '].intercalate (headerWords numVars numClauses)) = headerWords numVars numClauses :=
  Text.words_intercalate (by decide) fun _ => solid_of_mem_headerWords

theorem toList_clauseLine : (clauseLine literals).toList =
    [' '].intercalate (clauseWords literals) ++ ['\n'] := by
  rw [clauseWords, intercalate_append_singleton, clauseLine, String.toList_append,
    String.toList_join]
  simp [List.flatMap_map]

/-- The words of the lines of clauses are the words of each. -/
theorem words_clauseLines (clauses : List (List Int)) :
    words (String.join (clauses.map clauseLine)).toList = clauses.flatMap clauseWords := by
  rw [String.toList_join]
  induction clauses with
  | nil => rfl
  | cons literals clauses ih =>
    have hline : words ([' '].intercalate (clauseWords literals)) = clauseWords literals :=
      Text.words_intercalate (by decide) fun _ => solid_of_mem_clauseWords
    rw [List.map_cons, List.flatMap_cons, toList_clauseLine, List.append_assoc,
      List.singleton_append, Text.words_append_blank (by decide), hline, ih, List.flatMap_cons]

/-- The words of a text are those of its header and of its clauses. -/
theorem words_text (numVars numClauses : Nat) (clauses : List (List Int)) :
    words (header numVars numClauses ++ String.join (clauses.map clauseLine)).toList =
      headerWords numVars numClauses ++ clauses.flatMap clauseWords := by
  rw [String.toList_append, toList_header, List.append_assoc, List.singleton_append,
    Text.words_append_blank (by decide), words_header, words_clauseLines]

/-- The words of the line of a clause are numerals, and read as its
literals and a 0. -/
theorem signed?_clauseWords (literals : List Int) :
    (clauseWords literals).map Text.Numeral.signed? = (literals ++ [0]).map some := by
  have hprinted : Text.Numeral.signed? ∘ (fun x : Int => (toString x).toList) = some :=
    funext Text.Numeral.signed?_toString
  rw [clauseWords, List.map_append, List.map_map, hprinted, List.map_append]
  rfl

/-- The words of the lines of clauses read as their literals, with a 0
after each clause. -/
theorem signed?_flatMap_clauseWords (clauses : List (List Int)) :
    (clauses.flatMap clauseWords).map Text.Numeral.signed? =
      (clauses.flatMap (· ++ [0])).map some := by
  simp only [List.map_flatMap, signed?_clauseWords]

/-- **A text shows its numbers**: those of its header, and the integers of
its clauses with a 0 after each clause. -/
theorem numbers_eq_of_text_eq {numVars' numClauses' : Nat} {clauses clauses' : List (List Int)}
    (h : header numVars numClauses ++ String.join (clauses.map clauseLine) =
      header numVars' numClauses' ++ String.join (clauses'.map clauseLine)) :
    numVars = numVars' ∧ clauses.flatMap (· ++ [0]) = clauses'.flatMap (· ++ [0]) := by
  have hwords := congrArg (fun text => words text.toList) h
  simp only [words_text] at hwords
  obtain ⟨hheader, hbody⟩ := List.append_inj hwords rfl
  have hvars : (toString numVars).toList = (toString numVars').toList := by
    simp only [headerWords, List.cons.injEq] at hheader
    exact hheader.2.2.1
  have hnumerals := congrArg (List.map Text.Numeral.signed?) hbody
  rw [signed?_flatMap_clauseWords, signed?_flatMap_clauseWords] at hnumerals
  exact ⟨Text.Numeral.toList_toString_inj.1 hvars,
    (List.map_inj_right fun _ _ => Option.some.inj).1 hnumerals⟩

/-- The zeros among these integers are those of the clauses, and one after
each clause. -/
theorem count_zero_flatMap (clauses : List (List Int)) :
    (clauses.flatMap (· ++ [0])).count 0 = clauses.flatten.count 0 + clauses.length := by
  induction clauses with
  | nil => rfl
  | cons literals clauses ih =>
    rw [List.flatMap_cons, List.count_append, ih, List.count_append, List.flatten_cons,
      List.count_append, List.length_cons, List.count_singleton_self]
    omega

end Dimacs

namespace Lit

variable {l : Lit}

theorem natAbs_toInt (l : Lit) : l.toInt.natAbs = l.var := by
  unfold toInt
  split <;> simp

theorem toInt_ne_zero (h : 0 < l.var) : l.toInt ≠ 0 := by
  rw [← Int.natAbs_ne_zero, natAbs_toInt]
  exact Nat.pos_iff_ne_zero.1 h

/-- **No literal is lost in print.** -/
theorem ofInt?_toInt (hpos : 0 < l.var) (hlt : l.var < varBound) : ofInt? l.toInt = some l := by
  have hin : ¬ (l.toInt = 0 ∨ varBound ≤ l.toInt.natAbs) := by
    rw [natAbs_toInt]
    exact not_or.2 ⟨toInt_ne_zero hpos, Nat.not_le.2 hlt⟩
  have hsign : decide (0 < l.toInt) = l.sign := by
    cases h : l.sign <;> simp [toInt, h, hpos]
  rw [ofInt?, if_neg hin, natAbs_toInt, hsign]

end Lit

namespace Cnf

variable {cnf : Cnf}

/-- The literals of the clauses as integers, with a 0 after each clause. -/
def numerals (cnf : Cnf) : List Int :=
  cnf.clauses.flatMap fun clause => clause.map Lit.toInt ++ [0]

theorem numerals_eq (cnf : Cnf) :
    cnf.numerals = (cnf.clauses.map (List.map Lit.toInt)).flatMap (· ++ [0]) := by
  rw [numerals, List.flatMap_map]

/-- The text of a formula, by the integers of its clauses. -/
theorem toDimacs_eq (cnf : Cnf) : cnf.toDimacs = Dimacs.header cnf.numVars cnf.clauses.length ++
    String.join ((cnf.clauses.map (List.map Lit.toInt)).map Dimacs.clauseLine) := by
  rw [toDimacs, List.map_map]
  rfl

/-- **The text of a formula** is its header, and words that read as its
literals. -/
theorem exists_toDimacs_eq (cnf : Cnf) : ∃ body,
    cnf.toDimacs = Dimacs.header cnf.numVars cnf.clauses.length ++ body ∧
      (Text.words body.toList).map Text.Numeral.signed? = cnf.numerals.map some := by
  refine ⟨_, toDimacs_eq cnf, ?_⟩
  rw [Dimacs.words_clauseLines, Dimacs.signed?_flatMap_clauseWords, numerals_eq]

section Positive

variable (hpos : ∀ clause ∈ cnf.clauses, ∀ l ∈ clause, 0 < l.var)

include hpos

theorem zero_notMem_map_toInt {clause : List Lit} (hclause : clause ∈ cnf.clauses) :
    0 ∉ clause.map Lit.toInt := by
  intro hmem
  obtain ⟨l, hl, hzero⟩ := List.mem_map.1 hmem
  exact Lit.toInt_ne_zero (hpos clause hclause l hl) hzero

/-- **Cutting the integers at the zeros** gives back the clauses, with
nothing behind the last zero. -/
theorem splitOn_numerals :
    cnf.numerals.splitOn 0 = cnf.clauses.map (List.map Lit.toInt) ++ [[]] := by
  refine splitOn_eq_append_singleton_iff.2 ⟨?_, fun piece hpiece => ?_, List.not_mem_nil⟩
  · rw [numerals, List.flatMap_map, List.append_nil]
  · obtain ⟨clause, hclause, rfl⟩ := List.mem_map.1 hpiece
    exact zero_notMem_map_toInt hpos hclause

/-- There is one zero for each clause. -/
theorem count_numerals : cnf.numerals.count 0 = cnf.clauses.length := by
  have hzero : 0 ∉ (cnf.clauses.map (List.map Lit.toInt)).flatten := by
    rw [List.mem_flatten]
    rintro ⟨_, hmem, h⟩
    obtain ⟨clause, hclause, rfl⟩ := List.mem_map.1 hmem
    exact zero_notMem_map_toInt hpos hclause h
  rw [numerals_eq, Dimacs.count_zero_flatMap, List.count_eq_zero.2 hzero, List.length_map,
    Nat.zero_add]

end Positive

end Cnf

end Tricolor
