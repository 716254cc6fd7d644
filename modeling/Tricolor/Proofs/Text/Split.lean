import Mathlib.Data.List.Basic
import Tricolor.Text.Blank
import Tricolor.Text.Lines

/-!
# Pieces, lines and words

To split a list at an element is to take apart what was put together from
pieces, each with that element after it (`splitOn_eq_append_singleton_iff`).
This says what the lines of a text are whose lines are all ended, and what
the words are of a line that is put together from words.
-/

namespace Tricolor

section Pieces

variable {α : Type} [BEq α] [LawfulBEq α] {a : α} {xs last : List α} {pieces : List (List α)}

theorem not_mem_of_mem_splitOn : ∀ {xs piece : List α}, piece ∈ xs.splitOn a → a ∉ piece := by
  intro xs
  induction xs with
  | nil => simp
  | cons x xs ih =>
    intro piece h
    rw [List.splitOn_cons_eq_if_modifyHead] at h
    obtain ⟨head, rest, hrest⟩ := List.exists_cons_of_ne_nil (List.splitOn_ne_nil a xs)
    rw [hrest] at h ih
    split at h
    · rcases List.mem_cons.1 h with rfl | h
      · exact List.not_mem_nil
      · exact ih h
    · rename_i hx
      rw [List.modifyHead_cons] at h
      rcases List.mem_cons.1 h with rfl | h
      · have hax : a ≠ x := fun hax => hx (hax ▸ beq_self_eq_true x)
        exact List.not_mem_cons_of_ne_of_not_mem hax (ih (.head rest))
      · exact ih (.tail head h)

omit [BEq α] [LawfulBEq α] in
/-- Pieces with a separator after each of them, and a last one. -/
theorem intercalate_append_singleton :
    [a].intercalate (pieces ++ [last]) = pieces.flatMap (· ++ [a]) ++ last := by
  induction pieces with
  | nil => exact List.intercalate_singleton
  | cons piece pieces ih =>
    rw [List.cons_append, List.intercalate_cons_of_ne_nil (by simp), ih, List.flatMap_cons,
      ← List.append_assoc]

/-- **The pieces of a list** are the lists without the separator from
which it is put together. -/
theorem splitOn_eq_append_singleton_iff : xs.splitOn a = pieces ++ [last] ↔
    xs = pieces.flatMap (· ++ [a]) ++ last ∧ (∀ piece ∈ pieces, a ∉ piece) ∧ a ∉ last := by
  rw [← intercalate_append_singleton]
  constructor
  · intro h
    have hpieces (piece) (hpiece : piece ∈ pieces ++ [last]) : a ∉ piece :=
      not_mem_of_mem_splitOn (h ▸ hpiece)
    refine ⟨by rw [← h, List.intercalate_splitOn], fun piece hpiece => ?_, ?_⟩
    · exact hpieces piece (List.mem_append_left _ hpiece)
    · exact hpieces last (List.mem_append_right _ (.head []))
  · rintro ⟨rfl, hpieces, hlast⟩
    refine List.splitOn_intercalate a (fun piece hpiece => ?_) (by simp)
    rcases List.mem_append.1 hpiece with h | h
    · exact hpieces piece h
    · exact List.mem_singleton.1 h ▸ hlast

omit [BEq α] [LawfulBEq α] in
/-- **A piece ends at the first separator**, whatever follows. -/
theorem append_separator_inj {piece piece' rest rest' : List α} (h : a ∉ piece) (h' : a ∉ piece') :
    piece ++ a :: rest = piece' ++ a :: rest' ↔ piece = piece' ∧ rest = rest' := by
  refine ⟨fun heq => ?_, by rintro ⟨rfl, rfl⟩; rfl⟩
  induction piece generalizing piece' with
  | nil =>
    cases piece' with
    | nil => exact ⟨rfl, (List.cons.inj heq).2⟩
    | cons x piece' => exact absurd (List.cons.inj heq).1 (List.ne_of_not_mem_cons h')
  | cons x piece ih =>
    cases piece' with
    | nil => exact absurd (List.cons.inj heq).1.symm (List.ne_of_not_mem_cons h)
    | cons x' piece' =>
      obtain ⟨rfl, htail⟩ := List.cons.inj heq
      obtain ⟨rfl, hrest⟩ :=
        ih (List.not_mem_of_not_mem_cons h) (List.not_mem_of_not_mem_cons h') htail
      exact ⟨rfl, hrest⟩

/-- Nothing but separators is lost between the pieces. -/
theorem mem_iff_exists_mem_splitOn {x : α} (hx : x ≠ a) :
    x ∈ xs ↔ ∃ piece ∈ xs.splitOn a, x ∈ piece := by
  obtain ⟨pieces, last, h⟩ :=
    (List.eq_nil_or_concat' (xs.splitOn a)).resolve_left (List.splitOn_ne_nil a xs)
  obtain ⟨hxs, -⟩ := splitOn_eq_append_singleton_iff.1 h
  rw [h]
  conv_lhs => rw [hxs]
  simp [hx, or_and_right, exists_or]

end Pieces

namespace Text

/-! ## Lines -/

section Lines

variable {β : Type} [BEq β] [LawfulBEq β] {lf cr : β} {row : List β} {rows : List (List β)}

theorem dropReturn_of_getLast?_ne (h : row.getLast? ≠ some cr) : dropReturn cr row = row := by
  rw [dropReturn, if_neg (mt beq_iff_eq.1 h)]

/-- **The lines of a text** whose lines are all ended are these lines, if
they have neither a line feed nor a carriage return of their own. -/
theorem lines_flatMap (hlf : ∀ row ∈ rows, lf ∉ row) (hcr : ∀ row ∈ rows, cr ∉ row) :
    lines lf cr (rows.flatMap (· ++ [lf])) = rows := by
  have hpieces : (rows.flatMap (· ++ [lf])).splitOn lf = rows ++ [[]] :=
    splitOn_eq_append_singleton_iff.2 ⟨(List.append_nil _).symm, hlf, List.not_mem_nil⟩
  have hdrop : rows.map (dropReturn cr) = rows :=
    (List.map_congr_left fun row hrow => dropReturn_of_getLast?_ne
      fun hlast => hcr row hrow (List.mem_of_getLast? hlast)).trans (List.map_id rows)
  rw [lines, hpieces, List.dropLast_concat, List.getLast?_concat, hdrop]
  simp

/-- **A line that is ended is ended for good**: what follows it is cut into
lines by itself. -/
theorem lines_append {xs : List β} (h : xs.getLast? = some lf) (ys : List β) :
    lines lf cr (xs ++ ys) = lines lf cr xs ++ lines lf cr ys := by
  obtain ⟨front, rfl⟩ := List.getLast?_eq_some_iff.1 h
  have hcut (ys : List β) : lines lf cr (front ++ lf :: ys) =
      (front.splitOn lf).map (dropReturn cr) ++ lines lf cr ys := by
    have hne := List.splitOn_ne_nil lf ys
    simp only [lines, List.splitOn_append_cons_self, List.dropLast_append_of_ne_nil hne,
      List.getLast?_append_of_ne_nil _ hne, List.map_append, List.append_assoc]
  rw [List.append_assoc, List.singleton_append, hcut, hcut]
  simp [lines]

end Lines

/-! ## Words -/

variable {line rest word : List Char} {c : Char}

theorem words_cons_blank (h : isBlank c) : words (c :: line) = words line := by
  rw [words, List.splitOnP_cons_eq_if_modifyHead, if_pos h]
  rfl

/-- Words are apart if a blank is between them. -/
theorem words_append_blank (h : isBlank c) : words (line ++ c :: rest) = words line ++ words rest := by
  rw [words, List.splitOnP_append_cons line rest h, List.filter_append]
  rfl

/-- A word is a nonempty run of characters that are no blanks. -/
def Solid (word : List Char) : Prop := word ≠ [] ∧ ∀ c ∈ word, isBlank c = false

theorem solid_of_all (hne : word ≠ []) (h : word.all fun c => !isBlank c) : Solid word :=
  ⟨hne, fun c hc => by simpa using List.all_eq_true.1 h c hc⟩

theorem words_of_solid (h : Solid word) : words word = [word] := by
  rw [words, List.splitOnP_eq_singleton h.2]
  simp [h.1]

/-- A line of words with blanks between them has just these words. -/
theorem words_intercalate {ws : List (List Char)} (hc : isBlank c) (h : ∀ w ∈ ws, Solid w) :
    words ([c].intercalate ws) = ws := by
  induction ws with
  | nil => rfl
  | cons w ws ih =>
    have hw := words_of_solid (h w (.head ws))
    cases ws with
    | nil => rwa [List.intercalate_singleton]
    | cons w' ws =>
      rw [List.intercalate_cons_of_ne_nil (List.cons_ne_nil w' ws), List.append_assoc]
      rw [List.singleton_append, words_append_blank hc, hw, ih fun w' h' => h w' (.tail w h')]
      rfl

/-- It has no other blank. -/
theorem not_mem_intercalate {ws : List (List Char)} {d : Char} (h : ∀ w ∈ ws, Solid w)
    (hd : isBlank d) (hdc : d ≠ c) : d ∉ [c].intercalate ws := by
  have hword (w) (hw : w ∈ ws) : d ∉ w :=
    fun hdw => Bool.noConfusion (hd.symm.trans ((h w hw).2 d hdw))
  rcases List.eq_nil_or_concat' ws with rfl | ⟨ws, w, rfl⟩
  · exact List.not_mem_nil
  · rw [intercalate_append_singleton]
    simp only [List.mem_append, List.mem_flatMap, List.mem_singleton] at hword ⊢
    rintro (⟨w, hw, hdw | hdc'⟩ | hdw)
    · exact hword w (.inl hw) hdw
    · exact hdc hdc'
    · exact hword _ (.inr rfl) hdw

theorem exists_words_cons (h : isBlank c = false) (line : List Char) : ∃ word rest,
    words (c :: line) = (c :: word) :: rest := by
  obtain ⟨word, rest, hrest⟩ := List.exists_cons_of_ne_nil (List.splitOnP_ne_nil isBlank line)
  refine ⟨word, rest.filter (!·.isEmpty), ?_⟩
  rw [words, List.splitOnP_cons_eq_if_modifyHead, h, hrest]
  rfl

/-- The first word starts where the blanks at the start end. -/
theorem head?_words (line : List Char) :
    (words line).head?.bind List.head? = (line.dropWhile isBlank).head? := by
  induction line with
  | nil => rfl
  | cons c line ih =>
    rw [List.dropWhile_cons]
    split
    · rename_i h
      rw [words_cons_blank h, ih]
    · rename_i h
      obtain ⟨word, rest, hwords⟩ := exists_words_cons (Bool.eq_false_iff.2 h) line
      rw [hwords]
      rfl

/-- A line without words is blank. -/
theorem words_eq_nil_iff (line : List Char) : words line = [] ↔ line.all isBlank := by
  induction line with
  | nil => simp [words]
  | cons c line ih =>
    rw [List.all_cons]
    cases h : isBlank c with
    | true => rw [words_cons_blank h, ih, Bool.true_and]
    | false =>
      obtain ⟨word, rest, hwords⟩ := exists_words_cons h line
      simp [hwords]

end Text

end Tricolor
