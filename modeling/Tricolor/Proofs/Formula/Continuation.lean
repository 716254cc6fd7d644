import Tricolor.Proofs.Formula.Reading

/-!
# What follows a text

A text whose lines are all ended either decides what is read, whatever
follows it, or leaves that open (`ofDimacsBytes_append_eq_iff`). It is
decided by a line that ends the input, and by the first line that a reader
refuses; the error then names that line. What carries the proof is that
lines are read through, or end the input, or are refused at one of them
(`Reader.reads_or_halts`), and that reading goes on from the reader which
the lines read through leave behind (`Reader.readLines_append`). A clause
left open and a literal out of range are noticed at the end only, so they
decide nothing for a text that goes on; the line of the open clause is the
last one read.
-/

namespace Tricolor

namespace Formula

open Text (words)
open Grammar

/-- The lines of encoded text; `none` stands for one that cannot be
decoded. -/
def linesOf (bytes : List UInt8) : List (Option (List Char)) :=
  (Text.byteLines bytes).map Text.decode?

namespace Reader

variable {r r' mid : Reader} {text : List Char} {line : Option (List Char)}
  {lines front rest : List (Option (List Char))} {n m : Nat} {fault : ParseFault}

/-- **Lines that are read through** take a reader to another: all can be
decoded, none ends the input, and what they hold is taken. -/
inductive Reads : Reader → List (Option (List Char)) → Reader → Prop
  | done (r : Reader) : Reads r [] r
  | skipped {r r' : Reader} {text : List Char} {lines : List (Option (List Char))} :
      isIgnored text → Reads r lines r' → Reads r (some text :: lines) r'
  | taken {r mid r' : Reader} {text : List Char} {lines : List (Option (List Char))} :
      ¬ isIgnored text → ¬ isStop text → r.takeLine text = .ok mid → Reads mid lines r' →
      Reads r (some text :: lines) r'

/-- **A line that a reader refuses**, for a fault of the line. -/
inductive Refuses (r : Reader) : Option (List Char) → ParseFault → Prop
  | undecodable : Refuses r none .notUtf8
  | fault {text : List Char} {fault : ParseFault} :
      ¬ isIgnored text → ¬ isStop text → r.takeLine text = .error fault →
      Refuses r (some text) fault

/-- Reading fails on line `n`: the lines before it are read through, and
the line is refused. -/
def FailsOn (lines : List (Option (List Char))) (n : Nat) (fault : ParseFault) : Prop :=
  ∃ front line rest r, lines = front ++ line :: rest ∧ front.length + 1 = n ∧
    Reads start front r ∧ r.Refuses line fault

theorem not_isIgnored_of_isStop (h : isStop text) : ¬ isIgnored text := by
  intro hignored
  rw [isStop_eq_false_of_isIgnored hignored] at h
  exact Bool.false_ne_true h

/-! ## Reading on -/

/-- **Reading goes on** from the reader that the lines before leave. -/
theorem readLines_append (h : Reads r front r') :
    r.readLines n (front ++ rest) = r'.readLines (n + front.length) rest := by
  induction h generalizing n with
  | done r => rfl
  | skipped hignored _ ih =>
    rw [List.cons_append, readLines_some, if_pos hignored, ih, List.length_cons]
    congr 1
    omega
  | taken hignored hstop htake _ ih =>
    rw [List.cons_append, readLines_some, if_neg hignored, if_neg hstop]
    simp only [htake]
    rw [ih, List.length_cons]
    congr 1
    omega

theorem readLines_eq_finish (h : Reads r lines r') :
    r.readLines n lines = r'.finish (n + lines.length) := by
  have hread : r.readLines n (lines ++ []) = r'.readLines (n + lines.length) [] :=
    readLines_append h
  rwa [List.append_nil] at hread

/-- The line that ends the input is the last one read. -/
theorem readLines_stop (h : isStop text) : r.readLines n (some text :: rest) = r.finish (n + 1) := by
  rw [readLines_some, if_neg (not_isIgnored_of_isStop h), if_pos h]

/-- The line that is refused is the one that the error names. -/
theorem readLines_refused (h : r.Refuses line fault) :
    r.readLines n (line :: rest) = .error (.parse (n + 1) fault) := by
  cases h with
  | undecodable => rfl
  | fault hignored hstop htake =>
    rw [readLines_some, if_neg hignored, if_neg hstop]
    simp only [htake]

theorem Reads.isStop_eq_false (h : Reads r lines r') (hmem : some text ∈ lines) :
    isStop text = false := by
  induction h with
  | done r => cases hmem
  | skipped hignored _ ih =>
    rcases List.mem_cons.1 hmem with heq | hmem
    · cases heq
      exact isStop_eq_false_of_isIgnored hignored
    · exact ih hmem
  | taken _ hstop _ _ ih =>
    rcases List.mem_cons.1 hmem with heq | hmem
    · cases heq
      exact Bool.eq_false_iff.2 hstop
    · exact ih hmem

/-- **Lines that halt a reader**: behind some that are read through, one
ends the input or is refused. -/
inductive Halts (r : Reader) : List (Option (List Char)) → Prop
  | stop {front rest : List (Option (List Char))} {r' : Reader} {text : List Char} :
      Reads r front r' → isStop text → Halts r (front ++ some text :: rest)
  | fault {front rest : List (Option (List Char))} {r' : Reader} {line : Option (List Char)}
      {fault : ParseFault} :
      Reads r front r' → r'.Refuses line fault → Halts r (front ++ line :: rest)

/-- A first line that is read through stands in front of what halts. -/
theorem Halts.cons (hfirst : ∀ {lines r'}, Reads mid lines r' → Reads r (line :: lines) r')
    (h : mid.Halts lines) : r.Halts (line :: lines) := by
  cases h with
  | stop hreads hstop => exact .stop (hfirst hreads) hstop
  | fault hreads hrefused => exact .fault (hfirst hreads) hrefused

/-- **Lines are read through or halt the reader.** -/
theorem reads_or_halts (r : Reader) (lines : List (Option (List Char))) :
    (∃ r', Reads r lines r') ∨ r.Halts lines := by
  induction lines generalizing r with
  | nil => exact .inl ⟨r, .done r⟩
  | cons line lines ih =>
    have hcons {mid : Reader}
        (hfirst : ∀ {lines r'}, Reads mid lines r' → Reads r (line :: lines) r') :
        (∃ r', Reads r (line :: lines) r') ∨ r.Halts (line :: lines) :=
      (ih mid).imp (fun ⟨r', h⟩ => ⟨r', hfirst h⟩) (.cons hfirst)
    cases line with
    | none => exact .inr (.fault (.done r) .undecodable)
    | some text =>
      by_cases hstop : isStop text
      · exact .inr (.stop (.done r) hstop)
      · by_cases hignored : isIgnored text
        · exact hcons (.skipped hignored)
        · cases htake : r.takeLine text with
          | ok mid => exact hcons (.taken hignored hstop htake)
          | error fault => exact .inr (.fault (.done r) (.fault hignored hstop htake))

/-- **Lines that halt a reader decide the result.** -/
theorem Halts.readLines_append (h : r.Halts lines) :
    r.readLines n (lines ++ rest) = r.readLines n lines := by
  cases h with
  | stop hreads hstop =>
    rw [List.append_assoc, List.cons_append, Reader.readLines_append hreads,
      Reader.readLines_append hreads, readLines_stop hstop, readLines_stop hstop]
  | fault hreads hrefused =>
    rw [List.append_assoc, List.cons_append, Reader.readLines_append hreads,
      Reader.readLines_append hreads, readLines_refused hrefused, readLines_refused hrefused]

/-- Lines with one that ends the input halt the reader, there or before. -/
theorem halts_of_isStop (hmem : some text ∈ lines) (hstop : isStop text) : r.Halts lines := by
  refine (reads_or_halts r lines).resolve_left fun ⟨r', hreads⟩ => ?_
  rw [hreads.isStop_eq_false hmem] at hstop
  exact Bool.false_ne_true hstop

theorem stops_or_failsOn_of_halts (h : start.Halts lines) :
    (∃ text, some text ∈ lines ∧ isStop text) ∨ ∃ n fault, FailsOn lines n fault := by
  cases h with
  | stop hreads hstop => exact .inl ⟨_, by simp, hstop⟩
  | fault hreads hrefused => exact .inr ⟨_, _, _, _, _, _, rfl, rfl, hreads, hrefused⟩

/-- Reading that fails on a line fails there, whatever follows. -/
theorem FailsOn.readLines_append (h : FailsOn lines n fault) :
    start.readLines 0 (lines ++ rest) = .error (.parse n fault) := by
  obtain ⟨front, line, more, r, rfl, rfl, hreads, hrefused⟩ := h
  rw [List.append_assoc, List.cons_append, Reader.readLines_append hreads,
    readLines_refused hrefused, Nat.zero_add]

/-- A line that no reader takes. -/
theorem refuses_letter (r : Reader) : r.Refuses (some ['x']) (.badLiteral "x") :=
  .fault (by decide) (by decide) rfl

/-! ## The end of the input -/

/-- At the end of the input the error of a line is that of the last
line. -/
theorem eq_of_finish_eq_error (h : r.finish n = .error (.parse m fault)) : m = n := by
  have hvalidate (f : Formula) : f.validate >>= (fun _ => .ok f) ≠ .error (.parse m fault) := by
    unfold validate
    cases f.firstFault <;> simp [bind, Except.bind]
  unfold finish at h
  split at h
  · exact absurd h (hvalidate _)
  · cases hclose : r.closeClause with
    | error fault' =>
      rw [hclose] at h
      cases h
      rfl
    | ok r' =>
      rw [hclose] at h
      exact absurd h (hvalidate _)

/-- **A clause left open** with a wrong number of literals is refused. -/
theorem finish_of_open (hopen : r.pending ≠ #[]) (hwidth : r.pending.size ≠ 3) :
    r.finish n = .error (.parse n (.clauseWidth r.pending.size)) := by
  have hnone : Clause.ofList? r.pending.toList = none := Clause.ofList?_eq_none_of_length_ne hwidth
  rw [finish, if_neg (by simpa using hopen), closeClause, hnone]
  rfl

/-- The data of the lines up to the end of the input has been taken. -/
theorem readLines_eq_finish_of_upToStop {texts : List (List Char)}
    (htexts : upToStop lines = texts.map some)
    (hdata : (dataLines texts).foldlM takeLine r = .ok r') :
    r.readLines n lines = r'.finish (n + texts.length) := by
  induction lines generalizing r n texts with
  | nil =>
    obtain rfl := List.map_eq_nil_iff.1 htexts.symm
    cases hdata
    rfl
  | cons line lines ih =>
    obtain ⟨text, texts, rfl⟩ : ∃ text texts', texts = text :: texts' := by
      cases texts with
      | nil => rw [upToStop] at htexts; split at htexts <;> cases htexts
      | cons text texts => exact ⟨text, texts, rfl⟩
    by_cases hstop : line.any isStop
    · rw [upToStop, if_pos hstop, List.map_cons, List.cons.injEq, eq_comm (a := [])] at htexts
      obtain ⟨rfl, hnil⟩ := htexts
      obtain rfl := List.map_eq_nil_iff.1 hnil
      have hnone : dataLines [text] = [] := by simpa [dataLines] using fun _ => hstop
      rw [hnone] at hdata
      cases hdata
      exact readLines_stop hstop
    · rw [upToStop, if_neg hstop, List.map_cons, List.cons.injEq] at htexts
      obtain ⟨rfl, htexts⟩ := htexts
      have hlength : n + (text :: texts).length = n + 1 + texts.length := by
        rw [List.length_cons]
        omega
      rw [Option.any_some] at hstop
      rw [readLines_some, hlength]
      by_cases hignored : isIgnored text
      · rw [if_pos hignored]
        refine ih htexts ?_
        simpa [dataLines, hignored] using hdata
      · rw [if_neg hignored, if_neg hstop]
        have hcons : dataLines (text :: texts) = text :: dataLines texts := by
          simp [dataLines, hignored, hstop]
        rw [hcons, List.foldlM_cons, Except.bind_eq_ok_iff] at hdata
        obtain ⟨mid, hmid, hdata⟩ := hdata
        simp only [hmid]
        exact ih htexts hdata

end Reader

open Reader

/-- A text whose lines are ended has them in front of the lines of what
follows. -/
theorem ofDimacsBytes_append_eq {bytes : List UInt8} (hended : bytes.getLast? = some 10)
    (more : List UInt8) :
    ofDimacsBytes (bytes ++ more) = start.readLines 0 (linesOf bytes ++ linesOf more) := by
  rw [ofDimacsBytes, Text.byteLines, Text.lines_append hended, List.map_append]
  rfl

/-- A text that is read through is not decided: a line that no reader takes
may follow. -/
theorem Reader.Reads.exists_ofDimacsBytes_append_ne {bytes : List UInt8} {r : Reader}
    (hended : bytes.getLast? = some 10) (hreads : Reads start (linesOf bytes) r) :
    ∃ more, ofDimacsBytes (bytes ++ more) ≠ ofDimacsBytes bytes := by
  refine ⟨Text.encode ['x', '\n'], fun heq => ?_⟩
  have hline : linesOf (Text.encode ['x', '\n']) = [some ['x']] := by
    rw [linesOf, Text.map_decode?_byteLines]
    rfl
  have hwhole : ofDimacsBytes bytes = r.finish (0 + (linesOf bytes).length) :=
    readLines_eq_finish hreads
  rw [ofDimacsBytes_append_eq hended, hline, readLines_append hreads,
    readLines_refused (refuses_letter r), hwhole] at heq
  have := eq_of_finish_eq_error heq.symm
  omega

/-- **What a text decides.** Take a text that ends in a line feed. What is
read is the same whatever follows it, be that encoded or not, exactly if
one of its lines ends the input or reading fails on one of them; and then
the error names that line and its fault. A clause that is left open at
the end of the input, with another number of literals than three, is
refused on the last line that was read. -/
theorem ofDimacsBytes_append_eq_iff :
    (∀ bytes : List UInt8, bytes.getLast? = some 10 →
      ((∀ more, ofDimacsBytes (bytes ++ more) = ofDimacsBytes bytes) ↔
        (∃ text, some text ∈ linesOf bytes ∧ isStop text) ∨
          ∃ n fault, FailsOn (linesOf bytes) n fault) ∧
      ∀ n fault, FailsOn (linesOf bytes) n fault →
        ∀ more, ofDimacsBytes (bytes ++ more) = .error (.parse n fault)) ∧
    ∀ (bytes : List UInt8) (texts : List (List Char)) (declared : Option UInt32)
      (literals : List Literal) (clauses : List Clause) (opened : List Literal),
      upToStop (linesOf bytes) = texts.map some →
      List.Forall₂ DeclaresVars ((dataLines texts).filter isHeader) declared.toList →
      (((dataLines texts).filter (!isHeader ·)).flatMap words).map Text.Numeral.int32? =
        literals.map some →
      literals.splitOn 0 = clauses.map Clause.literals ++ [opened] →
      opened ≠ [] → opened.length ≠ 3 →
      ofDimacsBytes bytes = .error (.parse texts.length (.clauseWidth opened.length)) := by
  refine ⟨fun bytes hended => ⟨⟨fun hdecided => ?_, ?_⟩, fun n fault hfails more => ?_⟩, ?_⟩
  · refine stops_or_failsOn_of_halts
      ((reads_or_halts start (linesOf bytes)).resolve_left fun ⟨r, hreads⟩ => ?_)
    obtain ⟨more, hne⟩ := hreads.exists_ofDimacsBytes_append_ne hended
    exact hne (hdecided more)
  · rintro (⟨text, hmem, hstop⟩ | ⟨n, fault, hfails⟩) more
    · rw [ofDimacsBytes_append_eq hended, (halts_of_isStop hmem hstop).readLines_append]
      rfl
    · have hself : start.readLines 0 (linesOf bytes ++ []) = .error (.parse n fault) :=
        hfails.readLines_append
      rw [List.append_nil] at hself
      rw [ofDimacsBytes_append_eq hended, hfails.readLines_append]
      exact hself.symm
  · rw [ofDimacsBytes_append_eq hended, hfails.readLines_append]
  · intro bytes texts declared literals clauses opened htexts hheaders htokens hcut hne hwidth
    -- the reader that holds the literals has the last piece open
    obtain ⟨r, hr, hpending⟩ : ∃ r, (dataLines texts).foldlM takeLine start = .ok r ∧
        r.pending = opened.toArray :=
      ⟨⟨declared, clauses.toArray, opened.toArray⟩, (foldlM_takeLine_eq_ok_iff holds_start).2
        ⟨declared.toList, literals, hheaders, rfl, htokens, hcut⟩, rfl⟩
    have hread := readLines_eq_finish_of_upToStop (n := 0) htexts hr
    rw [Nat.zero_add, finish_of_open (by simpa [hpending] using hne)
      (by simpa [hpending] using hwidth), hpending, List.size_toArray] at hread
    exact hread

/-- A line with `%` and a word that is no literal decide, also if what
follows is no text. The clause `1 2` is open at the line with `%`. -/
theorem ofDimacsBytes_append_eq_iff_outcomes :
    ofDimacsBytes (Text.encode ['%', '\n'] ++ [255]) = ofDimacsBytes (Text.encode ['%', '\n']) ∧
    ofDimacsBytes (Text.encode ['c', '\n', '1', ' ', 'x', '\n'] ++ [255]) =
      .error (.parse 2 (.badLiteral "x")) ∧
    ofDimacsBytes (Text.encode ['1', ' ', '2', '\n', '%', '\n', 'x']) =
      .error (.parse 2 (.clauseWidth 2)) := by
  obtain ⟨hdecides, hopen⟩ := ofDimacsBytes_append_eq_iff
  have hlines (cs : List Char) : linesOf (Text.encode cs) = (Text.textLines cs).map some :=
    Text.map_decode?_byteLines cs
  refine ⟨((hdecides _ (by decide)).1.2 (.inl ⟨['%'], ?_, by decide⟩)) [255],
    (hdecides _ (by decide)).2 2 (.badLiteral "x") ?_ [255],
    hopen _ [['1', ' ', '2'], ['%']] none [1, 2] [] [1, 2] ?_ ?_ ?_ ?_ (by decide) (by decide)⟩
  · rw [hlines]
    decide
  · exact ⟨[some ['c']], some ['1', ' ', 'x'], [], start, hlines _, rfl,
      .skipped (by decide) (.done start), .fault (by decide) (by decide) rfl⟩
  · rw [hlines]
    decide
  · exact .nil
  · decide
  · decide

end Formula

end Tricolor
