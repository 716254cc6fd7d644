import Mathlib.Data.List.Basic
import Tricolor.Graph.Dot

/-!
# DOT text loses nothing but the numbers of unnamed colors

A quoted label ends at the first quote that no backslash escapes, so it
shows where it ends, whatever follows (`quoted_append_inj`). A line begins
with a label, and what comes next tells whether it is the line of a node,
of a colored node or of an edge; so lines show where they end as well, and
no label can imitate one (`Statement.line_append_inj`). A text can be read
in one way only (`text_inj`), and the text of a graph therefore gives back
its nodes, its edges and the fill of every node (`toDot_eq_iff`). A fill
names one of the first four colors; all others are black (`fill_eq_iff`).
-/

namespace Tricolor

namespace Dot

variable {label label' : String} {cs cs' rest rest' : List Char}

/-! ## Labels -/

/-- Escaping the backslashes first and the quotes in a second pass comes to
the same. In the other order the backslash of a quote would be doubled. -/
theorem flatMap_escapeChar (cs : List Char) :
    (cs.flatMap fun c => if c = '\\' then ['\\', '\\'] else [c]).flatMap
        (fun c => if c = '"' then ['\\', '"'] else [c]) = cs.flatMap escapeChar := by
  rw [List.flatMap_assoc]
  refine List.flatMap_congr fun c _ => ?_
  unfold escapeChar
  grind

/-- What is written for a character shows where it ends. -/
theorem escapeChar_append_inj {c c' : Char}
    (h : escapeChar c ++ rest = escapeChar c' ++ rest') : c = c' ∧ rest = rest' := by
  unfold escapeChar at h
  grind

/-- Nothing that is written for a character begins with a quote. -/
theorem escapeChar_append_ne (c : Char) : escapeChar c ++ rest ≠ '"' :: rest' := by
  unfold escapeChar
  split <;> simp_all

/-- The label ends at the first quote that is not escaped. -/
theorem flatMap_escapeChar_append_inj
    (h : cs.flatMap escapeChar ++ '"' :: rest = cs'.flatMap escapeChar ++ '"' :: rest') :
    cs = cs' ∧ rest = rest' := by
  induction cs generalizing cs' with
  | nil =>
    cases cs' with
    | nil => exact ⟨rfl, (List.cons.inj h).2⟩
    | cons c' cs' =>
      rw [List.flatMap_cons, List.append_assoc] at h
      exact absurd h.symm (escapeChar_append_ne c')
  | cons c cs ih =>
    rw [List.flatMap_cons, List.append_assoc] at h
    cases cs' with
    | nil => exact absurd h (escapeChar_append_ne c)
    | cons c' cs' =>
      rw [List.flatMap_cons, List.append_assoc] at h
      obtain ⟨rfl, htail⟩ := escapeChar_append_inj h
      obtain ⟨rfl, hrest⟩ := ih htail
      exact ⟨rfl, hrest⟩

theorem toList_quoted (label : String) :
    (quoted label).toList = '"' :: (label.toList.flatMap escapeChar ++ ['"']) := by
  simp [quoted]

/-- **A quoted label shows where it ends**, whatever it is and whatever
follows. -/
theorem quoted_append_inj
    (h : (quoted label).toList ++ rest = (quoted label').toList ++ rest') :
    label = label' ∧ rest = rest' := by
  rw [toList_quoted, toList_quoted, List.cons_append, List.cons_append, List.append_assoc,
    List.append_assoc] at h
  obtain ⟨hlabel, hrest⟩ := flatMap_escapeChar_append_inj (List.cons.inj h).2
  exact ⟨String.toList_inj.1 hlabel, hrest⟩

/-! ## Fills -/

variable {color color' : Color}

theorem named_cases (h : ¬ Color.grey.index < color.index) :
    color = .green ∨ color = .red ∨ color = .blue ∨ color = .grey := by
  have hle : color.index ≤ 3 := Nat.not_lt.1 h
  have hcases : color.index = 0 ∨ color.index = 1 ∨ color.index = 2 ∨ color.index = 3 := by omega
  exact hcases.imp Color.ext_index (.imp Color.ext_index (.imp Color.ext_index Color.ext_index))

/-- Only the colors without a name are black. -/
theorem fill_eq_black_iff : fill color = "black" ↔ Color.grey.index < color.index := by
  constructor
  · intro hblack
    by_contra h
    rcases named_cases h with rfl | rfl | rfl | rfl <;> exact absurd hblack (by decide)
  · exact fun h => if_neg (Nat.not_le.2 h)

/-- **Fills tell the named colors apart**, from each other and from the
colors without a name, which share one. -/
theorem fill_eq_iff : fill color = fill color' ↔
    color = color' ∨ Color.grey.index < color.index ∧ Color.grey.index < color'.index := by
  by_cases h : Color.grey.index < color.index
  · rw [fill_eq_black_iff.2 h, eq_comm, fill_eq_black_iff]
    exact ⟨fun h' => .inr ⟨h, h'⟩, fun heq => heq.elim (· ▸ h) And.right⟩
  · by_cases h' : Color.grey.index < color'.index
    · rw [fill_eq_black_iff.2 h', fill_eq_black_iff]
      exact ⟨fun h => absurd h ‹_›, fun heq => heq.elim (· ▸ h') And.left⟩
    · rcases named_cases h with rfl | rfl | rfl | rfl <;>
        rcases named_cases h' with rfl | rfl | rfl | rfl <;> decide

/-- The fill of a node, if it is colored. -/
def fill? {α : Type} [DecidableEq α] (coloring : Option (Coloring α)) (a : α) : Option String :=
  (coloring.bind (·.get? a)).map fill

/-- There is nothing to escape in the name of a fill. -/
theorem quoted_fill (color : Color) : quoted (fill color) = "\"" ++ fill color ++ "\"" := by
  by_cases h : Color.grey.index < color.index
  · rw [fill_eq_black_iff.2 h]
    simp [quoted, escapeChar]
  · rcases named_cases h with rfl | rfl | rfl | rfl <;>
      simp [quoted, fill, escapeChar, Color.green, Color.red, Color.blue, Color.grey, Color.name,
        Color.index]

/-! ## Lines -/

/-- What a line of the text says. -/
inductive Statement where
  | node (name : String) (fill : Option String)
  | edge (name name' : String)

namespace Statement

/-- The label that a line begins with. -/
def name : Statement → String
  | node name _ => name
  | edge name _ => name

/-- What a line has behind its first label. -/
def suffix : Statement → String
  | node _ none => ";\n"
  | node _ (some fill) => " [style=filled, fillcolor=" ++ quoted fill ++ "];\n"
  | edge _ name' => " -- " ++ quoted name' ++ ";\n"

/-- The line of a statement. -/
def line (s : Statement) : String := "  " ++ quoted s.name ++ s.suffix

/-- The node of a line, with its fill. -/
def node? : Statement → Option (String × Option String)
  | node name fill => some (name, fill)
  | edge _ _ => none

/-- The edge of a line. -/
def edge? : Statement → Option (String × String)
  | node _ _ => none
  | edge name name' => some (name, name')

variable {s s' : Statement} {ss ss' : List Statement}

/-- The first characters behind the label tell the kinds of lines apart. -/
theorem suffix_append_inj (hname : s.name = s'.name)
    (h : s.suffix.toList ++ rest = s'.suffix.toList ++ rest') : s = s' ∧ rest = rest' := by
  rcases s with ⟨a, _ | fill⟩ | ⟨a, b⟩ <;> rcases s' with ⟨a', _ | fill'⟩ | ⟨a', b'⟩
  all_goals
    obtain rfl : a = a' := hname
    unfold suffix at h
    simp at h
  -- the lines are of one kind
  · exact ⟨rfl, h⟩
  · obtain ⟨rfl, hrest⟩ := quoted_append_inj h
    exact ⟨rfl, by simpa using hrest⟩
  · obtain ⟨rfl, hrest⟩ := quoted_append_inj h
    exact ⟨rfl, by simpa using hrest⟩

/-- **A line shows what it says and where it ends**, whatever follows. -/
theorem line_append_inj (h : s.line.toList ++ rest = s'.line.toList ++ rest') :
    s = s' ∧ rest = rest' := by
  simp only [line, String.toList_append, List.append_assoc, List.append_cancel_left_eq] at h
  obtain ⟨hname, hsuffix⟩ := quoted_append_inj h
  exact suffix_append_inj hname hsuffix

/-- **Lines up to a closing brace** show what they say. -/
theorem lines_append_inj
    (h : ss.flatMap (·.line.toList) ++ '\x7d' :: rest =
      ss'.flatMap (·.line.toList) ++ '\x7d' :: rest') : ss = ss' := by
  have hline (s : Statement) :
      s.line.toList = ' ' :: (" " ++ quoted s.name ++ s.suffix).toList := by
    simp [line]
  induction ss generalizing ss' with
  | nil =>
    cases ss' with
    | nil => rfl
    | cons s' ss' => simp [hline] at h
  | cons s ss ih =>
    rw [List.flatMap_cons, List.append_assoc] at h
    cases ss' with
    | nil => simp [hline] at h
    | cons s' ss' =>
      rw [List.flatMap_cons, List.append_assoc] at h
      obtain ⟨rfl, htail⟩ := line_append_inj h
      rw [ih htail]

end Statement

/-- The text of a graph that its lines describe. -/
def text (ss : List Statement) : String :=
  "graph G \x7b\n" ++ String.join (ss.map (·.line)) ++ "\x7d\n"

/-- **A text can be read in one way only.** -/
theorem text_inj {ss ss' : List Statement} : text ss = text ss' ↔ ss = ss' := by
  have hchars (ss : List Statement) : (text ss).toList =
      "graph G \x7b\n".toList ++ (ss.flatMap (·.line.toList) ++ ['\x7d', '\n']) := by
    simp [text, String.toList_join, List.flatMap_map]
  rw [← String.toList_inj, hchars, hchars, List.append_cancel_left_eq]
  exact ⟨Statement.lines_append_inj, fun h => by rw [h]⟩

end Dot

/-! ## Texts -/

namespace Graph

section Statements

variable {α : Type} [DecidableEq α] [ToString α] {g g' : Graph α}
variable {coloring coloring' : Option (Coloring α)}

/-- What the text of a graph says, line by line. -/
def statements (g : Graph α) (coloring : Option (Coloring α)) : List Dot.Statement :=
  g.nodes.map (fun a => .node (toString a) (Dot.fill? coloring a)) ++
    g.edges.map fun e => .edge (toString e.1) (toString e.2)

theorem nodeLine_eq (a : α) : Dot.nodeLine (toString a) (coloring.bind (·.get? a)) =
    (Dot.Statement.node (toString a) (Dot.fill? coloring a)).line := by
  rw [Dot.fill?]
  cases coloring.bind (·.get? a) with
  | none => rfl
  | some color =>
    refine String.toList_inj.1 ?_
    unfold Dot.nodeLine Dot.Statement.line Dot.Statement.name Dot.Statement.suffix
    simp [Dot.quoted_fill]

theorem edgeLine_eq (name name' : String) :
    Dot.edgeLine name name' = (Dot.Statement.edge name name').line := by
  refine String.toList_inj.1 ?_
  unfold Dot.edgeLine Dot.Statement.line Dot.Statement.name Dot.Statement.suffix
  simp

/-- **The text of a graph** is made of the lines of its statements. -/
theorem toDot_eq_text (g : Graph α) (coloring : Option (Coloring α)) :
    g.toDot coloring = Dot.text (g.statements coloring) := by
  have hlines : (g.statements coloring).map (·.line) =
      g.nodes.map (fun a => Dot.nodeLine (toString a) (coloring.bind (·.get? a))) ++
        g.edges.map fun e => Dot.edgeLine (toString e.1) (toString e.2) := by
    simp [statements, nodeLine_eq, edgeLine_eq, Function.comp_def]
  rw [Dot.text, hlines, String.join_append, ← String.append_assoc]
  rfl

/-- **Texts tell apart what they say.** -/
theorem toDot_eq_iff_statements : g.toDot coloring = g'.toDot coloring' ↔
    g.statements coloring = g'.statements coloring' := by
  rw [toDot_eq_text, toDot_eq_text, Dot.text_inj]

/-- The lines of the nodes come in the order of the nodes. -/
theorem nodes_statements (g : Graph α) (coloring : Option (Coloring α)) :
    (g.statements coloring).filterMap (·.node?) =
      g.nodes.map fun a => (toString a, Dot.fill? coloring a) := by
  simp only [statements, List.filterMap_append, List.filterMap_map, Function.comp_def,
    Dot.Statement.node?, List.filterMap_eq_map', List.filterMap_none, List.append_nil]

/-- The lines of the edges come in the order of the edges. -/
theorem edges_statements (g : Graph α) (coloring : Option (Coloring α)) :
    (g.statements coloring).filterMap (·.edge?) =
      g.edges.map fun e => (toString e.1, toString e.2) := by
  simp only [statements, List.filterMap_append, List.filterMap_map, Function.comp_def,
    Dot.Statement.edge?, List.filterMap_eq_map', List.filterMap_none, List.nil_append]

/-- The lines of the nodes and those of the edges can be told apart. -/
theorem statements_eq_iff : g.statements coloring = g'.statements coloring' ↔
    (g.nodes.map fun a => (toString a, Dot.fill? coloring a)) =
        (g'.nodes.map fun a => (toString a, Dot.fill? coloring' a)) ∧
      (g.edges.map fun e => (toString e.1, toString e.2)) =
        g'.edges.map fun e => (toString e.1, toString e.2) := by
  have hsplit (g : Graph α) (coloring : Option (Coloring α)) : g.statements coloring =
      (g.nodes.map fun a => (toString a, Dot.fill? coloring a)).map (fun n => .node n.1 n.2) ++
        (g.edges.map fun e => (toString e.1, toString e.2)).map fun e => .edge e.1 e.2 := by
    rw [List.map_map, List.map_map]
    rfl
  constructor
  · intro h
    rw [← nodes_statements, ← nodes_statements, ← edges_statements, ← edges_statements, h]
    exact ⟨rfl, rfl⟩
  · rintro ⟨hnodes, hedges⟩
    rw [hsplit, hsplit, hnodes, hedges]

end Statements

/-- **DOT text is lossless** but for the numbers of unnamed colors. Two
graphs with names of any text have one DOT text exactly if they have the
same nodes and the same edges in the same order, and every node is without
a color in both or has one fill in both. Two colors have one fill only if
they are the same or neither is among the four that have a name. -/
theorem toDot_eq_iff (g g' : Graph String) (coloring coloring' : Option (Coloring String)) :
    (g.toDot coloring = g'.toDot coloring' ↔
      g.nodes = g'.nodes ∧ g.edges = g'.edges ∧
        ∀ a ∈ g.nodes, Dot.fill? coloring a = Dot.fill? coloring' a) ∧
    ∀ color color' : Color, Dot.fill color = Dot.fill color' ↔
      color = color' ∨ Color.grey.index < color.index ∧ Color.grey.index < color'.index := by
  refine ⟨?_, fun color color' => Dot.fill_eq_iff⟩
  -- the label of a name is the name
  have hedges (g : Graph String) : (g.edges.map fun e => (toString e.1, toString e.2)) = g.edges :=
    List.map_id g.edges
  have hnodes (g : Graph String) (coloring : Option (Coloring String)) :
      (g.nodes.map fun a => (toString a, Dot.fill? coloring a)) =
        g.nodes.map fun a => (a, Dot.fill? coloring a) := rfl
  rw [toDot_eq_iff_statements, statements_eq_iff, hedges, hedges, hnodes, hnodes]
  constructor
  · rintro ⟨h, hedges⟩
    have hnames := congrArg (List.map Prod.fst) h
    simp only [List.map_map, Function.comp_def, List.map_id_fun', id_eq] at hnames
    rw [← hnames] at h
    exact ⟨hnames, hedges, fun a ha => (Prod.mk.inj (List.map_inj_left.1 h a ha)).2⟩
  · rintro ⟨hnames, hedges, hfills⟩
    rw [← hnames]
    exact ⟨List.map_congr_left fun a ha => by rw [hfills a ha], hedges⟩

end Graph

end Tricolor
