import Mathlib.Data.List.TakeWhile
import Tricolor.Formula.Dimacs
import Tricolor.Proofs.Formula.Truth
import Tricolor.Proofs.Text.Split

/-!
# The grammar of DIMACS text

What the lines of a text say, whichever way they are read. The input ends
with the first line that starts with `%`; blank lines, comments and that
line hold no data. Of the lines that do, those that start with `p` are
headers, of which there is at most one, and the words of the others are
the literals, cut into clauses at the zeros (`Describes`). The reader
tells lines apart as the grammar does (`LineKind.ofLine_eq`); that it
follows the grammar is left to the module on reading.
-/

namespace Tricolor

namespace Formula

open Text (isBlank words)

namespace Grammar

/-- Whether a line starts with a character, blanks before it aside. -/
def startsWith (c : Char) (line : List Char) : Bool := (line.dropWhile isBlank).head? == some c

/-- Whether a line ends the input. -/
def isStop (line : List Char) : Bool := startsWith '%' line

/-- Whether a line is blank or a comment. -/
def isIgnored (line : List Char) : Bool := line.all isBlank || startsWith 'c' line

/-- Whether a line of data is a header. -/
def isHeader (line : List Char) : Bool := startsWith 'p' line

/-- The lines up to the first that ends the input, with that line. A line
that cannot be decoded is given as `none`. -/
def upToStop : List (Option (List Char)) → List (Option (List Char))
  | [] => []
  | line :: rest => if line.any isStop then [line] else line :: upToStop rest

/-- The lines that hold data. -/
def dataLines (lines : List (List Char)) : List (List Char) :=
  lines.filter fun line => !(isIgnored line || isStop line)

/-- Whether a line is a header for a number of variables. The number of
clauses is any number of machine size. -/
def DeclaresVars (line : List Char) (n : UInt32) : Prop :=
  ∃ vars count m k, words line = [['p'], ['c', 'n', 'f'], vars, count] ∧
    Text.Numeral.below? UInt32.size vars = some m ∧
    Text.Numeral.below? UInt64.size count = some k ∧ n = UInt32.ofNat m

/-- Whether literals, cut at the zeros, are the literals of clauses. The
last clause need not be ended by a zero. -/
def CutInto (literals : List Literal) (clauses : List Clause) : Prop :=
  literals.splitOn 0 = clauses.map Clause.literals ++ [[]] ∨
    literals.splitOn 0 = clauses.map Clause.literals

/-- The largest variable of the literals, 0 if there is none. -/
def largestVar (literals : List Literal) : Nat := (literals.map Literal.var).max?.getD 0

/-- What lines say: a formula, read off the number of variables that is
declared, if one is, and the literals. -/
structure Describes (lines : List (List Char)) (declared : Option UInt32)
    (literals : List Literal) (f : Formula) : Prop where
  /-- There is no header, or one. -/
  headers : List.Forall₂ DeclaresVars ((dataLines lines).filter isHeader) declared.toList
  tokens : (((dataLines lines).filter (!isHeader ·)).flatMap words).map Text.Numeral.int32? =
    literals.map some
  clauses : CutInto literals f.clauses
  covered : ∀ n, declared = some n → ∀ x ∈ literals, x.var ≤ n.toNat
  numVars : f.numVars.toNat = declared.elim (largestVar literals) UInt32.toNat

variable {literals : List Literal} {clauses : List Clause} {c : Clause} {x : Literal} {n : Nat}

theorem CutInto.mem_splitOn (h : CutInto literals clauses) (hc : c ∈ clauses) :
    c.literals ∈ literals.splitOn 0 := by
  rcases h with h | h <;> simp [h, List.mem_map_of_mem hc]

/-- No literal of a clause is zero. -/
theorem CutInto.var_pos (h : CutInto literals clauses) (hc : c ∈ clauses) (hx : x ∈ c.literals) :
    0 < x.var :=
  Literal.var_pos_iff.2 fun h0 => not_mem_of_mem_splitOn (h.mem_splitOn hc) (h0 ▸ hx)

/-- The literals, zeros aside, are those of the clauses. -/
theorem CutInto.mem_iff (h : CutInto literals clauses) (hx : x ≠ 0) :
    x ∈ literals ↔ ∃ c ∈ clauses, x ∈ c.literals := by
  rw [mem_iff_exists_mem_splitOn hx]
  rcases h with h | h <;> simp [h, or_and_right, exists_or]

/-- A bound on the variables of the literals is one on those of the
clauses. -/
theorem CutInto.forall_var_le_iff (h : CutInto literals clauses) :
    (∀ x ∈ literals, x.var ≤ n) ↔ ∀ c ∈ clauses, ∀ x ∈ c.literals, x.var ≤ n := by
  constructor
  · intro hle c hc x hx
    exact hle x ((h.mem_iff (Literal.var_pos_iff.1 (h.var_pos hc hx))).2 ⟨c, hc, hx⟩)
  · intro hle x hx
    by_cases hx0 : x = 0
    · exact hx0 ▸ Nat.zero_le n
    · obtain ⟨c, hc, hx⟩ := (h.mem_iff hx0).1 hx
      exact hle c hc x hx

theorem CutInto.valid_iff {f : Formula} (h : CutInto literals f.clauses) :
    f.Valid ↔ ∀ x ∈ literals, x.var ≤ f.numVars.toNat := by
  rw [h.forall_var_le_iff]
  exact ⟨fun hf c hc x hx => (hf c hc x hx).2,
    fun hle c hc x hx => ⟨h.var_pos hc hx, hle c hc x hx⟩⟩

theorem largestVar_le_iff :
    largestVar literals ≤ n ↔ ∀ x ∈ literals, x.var ≤ n := by
  unfold largestVar
  cases hmax : (literals.map Literal.var).max? with
  | none =>
    obtain rfl := List.map_eq_nil_iff.1 (List.max?_eq_none_iff.1 hmax)
    simp
  | some m =>
    rw [Option.getD_some, List.max?_le_iff hmax]
    simp

theorem largestVar_lt (literals : List Literal) : largestVar literals < UInt32.size :=
  Nat.lt_of_le_of_lt (largestVar_le_iff.2 fun x _ => Nat.le_pred_of_lt x.var_lt)
    (by decide : UInt32.size - 1 < UInt32.size)

/-- A comment or a blank line does not end the input. -/
theorem isStop_eq_false_of_isIgnored {line : List Char} (h : isIgnored line) :
    isStop line = false := by
  rw [isIgnored, Bool.or_eq_true] at h
  rw [isStop, startsWith]
  rcases h with h | h
  · rw [List.dropWhile_eq_nil_iff.2 (List.all_eq_true.1 h)]
    rfl
  · rw [startsWith, beq_iff_eq] at h
    rw [h]
    rfl

end Grammar

open Grammar

/-- **The reader tells lines apart as the grammar does.** -/
theorem LineKind.ofLine_eq (line : List Char) :
    LineKind.ofLine line =
      if isIgnored line then .skipped
      else if isStop line then .stop
      else if isHeader line then .header (words line)
      else .literals (words line) := by
  have hblank := Text.words_eq_nil_iff line
  rw [ofLine, isIgnored, isStop, isHeader, startsWith, startsWith, startsWith,
    ← Text.head?_words line]
  cases hwords : words line with
  | nil => simp [hblank.1 hwords]
  | cons token rest =>
    have hsome : line.all isBlank = false :=
      Bool.eq_false_iff.2 fun h => List.cons_ne_nil token rest (hwords ▸ hblank.2 h)
    simp only [hsome, List.head?_cons, Option.bind_some, Bool.false_or, beq_iff_eq]
    generalize token.head? = first
    split <;> simp_all

end Formula

end Tricolor
