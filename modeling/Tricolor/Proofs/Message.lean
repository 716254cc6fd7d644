import Mathlib.Data.List.Nodup
import Tricolor.Coloring.Encoding
import Tricolor.Proofs.Graph.Dot
import Tricolor.Proofs.Text.Numeral

/-!
# Messages about nodes

Errors name nodes by their labels. What an error can say about nodes is a
`NodeFault`, which has the nodes themselves. No message begins as those of
another kind of fault do (`NodeFault.opening_eq_of_append`), and then the
labels come with blanks between them. So a message tells which fault it is,
and which nodes it is about, if no label has a blank and no two nodes share
one (`NodeFault.message_inj`). The names of colors are as good as the colors
(`Color.name_inj`). A seed that is refused, or that the palette does not
fit, has a fault of this kind (`NodeFault.exists_of_encode`).
-/

namespace Tricolor

/-! ## Names of colors -/

namespace Color

variable {color color' : Color}

/-- A color past the named ones has its number for a name. -/
theorem toList_name (h : grey.index < color.index) :
    color.name.toList = "color".toList ++ (toString color.index).toList := by
  have hlt : 3 < color.index := h
  obtain ⟨k, hk⟩ : ∃ k, color.index = k + 4 := ⟨color.index - 4, by omega⟩
  rw [name, hk]
  exact String.toList_append

/-- Its name begins like none of the four. -/
theorem head?_name (h : grey.index < color.index) : color.name.toList.head? = some 'c' := by
  rw [toList_name h]
  rfl

theorem blank_notMem_name (color : Color) : ' ' ∉ color.name.toList := by
  by_cases h : grey.index < color.index
  · rw [toList_name h, List.mem_append, Text.Numeral.toList_toString]
    rintro (hword | hdigit)
    · exact absurd hword (by decide)
    · exact absurd (Text.Numeral.isDigit_of_mem_toDigits hdigit) (by decide)
  · rcases Dot.named_cases h with rfl | rfl | rfl | rfl <;> decide

/-- No color past the named ones has the name of one of them. -/
theorem name_ne (h : ¬ grey.index < color.index) (h' : grey.index < color'.index) :
    color.name ≠ color'.name := by
  intro heq
  have hhead := head?_name h'
  rw [← heq] at hhead
  rcases Dot.named_cases h with rfl | rfl | rfl | rfl <;> exact absurd hhead (by decide)

/-- **No two colors have one name.** -/
theorem name_inj : color.name = color'.name ↔ color = color' := by
  refine ⟨fun heq => ?_, fun heq => by rw [heq]⟩
  by_cases h : grey.index < color.index <;> by_cases h' : grey.index < color'.index
  · have hchars := congrArg String.toList heq
    rw [toList_name h, toList_name h', List.append_cancel_left_eq] at hchars
    exact ext_index (Text.Numeral.toList_toString_inj.1 hchars)
  · exact absurd heq.symm (name_ne h' h)
  · exact absurd heq (name_ne h h')
  · have hnodup : ([green, red, blue, grey].map name).Nodup := by decide
    have hmem {c : Color} (hc : ¬ grey.index < c.index) : c ∈ [green, red, blue, grey] := by
      simpa using Dot.named_cases hc
    exact List.inj_on_of_nodup_map hnodup (hmem h) (hmem h') heq

end Color

/-! ## Faults of nodes -/

/-- What an error says about nodes. -/
inductive NodeFault (α : Type) where
  /-- An edge joins the node to itself. -/
  | selfLoop (a : α)
  /-- A seed colors a node that the graph does not have. -/
  | unknown (a : α)
  /-- A seed gives one color to two neighbors. -/
  | adjacentSame (a b : α) (color : Color)
  /-- A seed gives the node a color that the palette does not offer. -/
  | outsidePalette (color : Color) (a : α)
  /-- The node needed a color without a role. -/
  | fourthColor (a : α) (color : Color)
  /-- The node has no color. -/
  | uncolored (a : α)
  deriving DecidableEq, Repr

namespace NodeFault

section Opening

variable {α : Type} {x y : NodeFault α}

/-- How the message of a fault begins. -/
def opening : NodeFault α → String
  | selfLoop _ => "invalid edge: self-loop on node "
  | unknown _ => "invalid seed: node "
  | adjacentSame .. => "invalid seed: adjacent nodes "
  | outsidePalette .. => "invalid seed: seed color "
  | fourthColor .. => "unsatisfiable: node "
  | uncolored _ => "incomplete coloring: node "

/-- The ways in which messages begin, one for each kind of fault. -/
def openings : List String :=
  [selfLoop (), unknown (), adjacentSame () () .green, outsidePalette .green (),
    fourthColor () .green, uncolored ()].map opening

theorem opening_mem (x : NodeFault α) : x.opening ∈ openings := by
  unfold openings opening
  cases x <;> simp

/-- **A message shows how it begins**: no opening begins with another. -/
theorem opening_eq_of_append {rest rest' : List Char}
    (h : x.opening.toList ++ rest = y.opening.toList ++ rest') : x.opening = y.opening := by
  have hfree : ∀ s ∈ openings, ∀ t ∈ openings, s.toList <+: t.toList → s = t := by decide
  have hx : x.opening.toList <+: y.opening.toList ++ rest' := h ▸ List.prefix_append _ rest
  rcases List.prefix_or_prefix_of_prefix hx (List.prefix_append _ rest') with hxy | hyx
  · exact hfree _ x.opening_mem _ y.opening_mem hxy
  · exact (hfree _ y.opening_mem _ x.opening_mem hyx).symm

end Opening

section Message

variable {α : Type} [ToString α] {x y : NodeFault α}

/-- The error that reports a fault. -/
def error : NodeFault α → Error
  | selfLoop a => .selfLoop (toString a)
  | unknown a => .invalidSeed (.unknownNode (toString a))
  | adjacentSame a b color => .invalidSeed (.adjacentSame (toString a) (toString b) color)
  | outsidePalette color a => .invalidSeed (.outsidePalette color (toString a))
  | fourthColor a color => .unsatisfiable (.fourthColor (toString a) color)
  | uncolored a => .uncolored (toString a)

/-- How the message goes on. A name has a blank behind it, or nothing but
what all messages of the kind end with. -/
def ending : NodeFault α → List Char
  | selfLoop a => (toString a).toList
  | unknown a => (toString a).toList ++ " is not in the graph".toList
  | adjacentSame a b color =>
    (toString a).toList ++ ' ' :: ("and ".toList ++
      ((toString b).toList ++ ' ' :: ("are both ".toList ++ color.name.toList)))
  | outsidePalette color a =>
    color.name.toList ++ ' ' :: ("of node ".toList ++
      ((toString a).toList ++ " is not in the palette".toList))
  | fourthColor a color =>
    (toString a).toList ++ ' ' :: ("needed a fourth color (".toList ++
      (color.name.toList ++ [')']))
  | uncolored a => (toString a).toList ++ " has no color".toList

theorem toList_message (x : NodeFault α) :
    x.error.message.toList = x.opening.toList ++ x.ending := by
  cases x <;> unfold error Error.message opening ending
  case unknown | adjacentSame | outsidePalette =>
    unfold SeedFault.message
    simp [toString]
  case fourthColor =>
    unfold Refutation.message
    simp [toString]
  case selfLoop | uncolored => simp [toString]

/-- **The message shows the fault**, if labels have no blanks and belong to
one node each. -/
theorem message_inj (hblank : ∀ a : α, ' ' ∉ (toString a).toList)
    (hlabel : Function.Injective (toString : α → String)) :
    x.error.message = y.error.message ↔ x = y := by
  refine ⟨fun h => ?_, fun h => by rw [h]⟩
  rw [← String.toList_inj, toList_message, toList_message] at h
  have hopening := opening_eq_of_append h
  have hname {a b : α} (h : (toString a).toList = (toString b).toList) : a = b :=
    hlabel (String.toList_inj.1 h)
  have hcolor {color color' : Color} (h : color.name.toList = color'.name.toList) :
      color = color' := Color.name_inj.1 (String.toList_inj.1 h)
  cases x with
  | selfLoop a =>
    cases y with
    | selfLoop a' => rw [hname (List.append_cancel_left h)]
    | _ =>
      unfold opening at hopening
      simp at hopening
  | unknown a =>
    cases y with
    | unknown a' => rw [hname (List.append_cancel_right (List.append_cancel_left h))]
    | _ =>
      unfold opening at hopening
      simp at hopening
  | adjacentSame a b color =>
    cases y with
    | adjacentSame a' b' color' =>
      obtain ⟨ha, h⟩ :=
        (append_separator_inj (hblank a) (hblank a')).1 (List.append_cancel_left h)
      obtain ⟨hb, h⟩ :=
        (append_separator_inj (hblank b) (hblank b')).1 (List.append_cancel_left h)
      rw [hname ha, hname hb, hcolor (List.append_cancel_left h)]
    | _ =>
      unfold opening at hopening
      simp at hopening
  | outsidePalette color a =>
    cases y with
    | outsidePalette color' a' =>
      obtain ⟨hword, h⟩ := (append_separator_inj color.blank_notMem_name
        color'.blank_notMem_name).1 (List.append_cancel_left h)
      rw [hcolor hword, hname (List.append_cancel_right (List.append_cancel_left h))]
    | _ =>
      unfold opening at hopening
      simp at hopening
  | fourthColor a color =>
    cases y with
    | fourthColor a' color' =>
      obtain ⟨ha, h⟩ :=
        (append_separator_inj (hblank a) (hblank a')).1 (List.append_cancel_left h)
      rw [hname ha, hcolor (List.append_cancel_right (List.append_cancel_left h))]
    | _ =>
      unfold opening at hopening
      simp at hopening
  | uncolored a =>
    cases y with
    | uncolored a' => rw [hname (List.append_cancel_right (List.append_cancel_left h))]
    | _ =>
      unfold opening at hopening
      simp at hopening

end Message

end NodeFault

/-! ## Seeds that are refused -/

section Except

variable {ε α β : Type} {e : ε}

/-- A computation fails in its first part or in the second. -/
theorem Except.bind_eq_error_iff {x : Except ε α} {k : α → Except ε β} :
    x >>= k = .error e ↔ x = .error e ∨ ∃ a, x = .ok a ∧ k a = .error e := by
  cases x with
  | error e' => simp [bind, Except.bind]
  | ok a => simp [bind, Except.bind]

/-- A pass fails only at one of its steps. -/
theorem exists_of_mapM_eq_error {f : α → Except ε β} {l : List α} (h : l.mapM f = .error e) :
    ∃ a ∈ l, f a = .error e := by
  induction l with
  | nil => cases h
  | cons a l ih =>
    rw [List.mapM_cons] at h
    rcases Except.bind_eq_error_iff.1 h with ha | ⟨_, -, h⟩
    · exact ⟨a, .head l, ha⟩
    · rcases Except.bind_eq_error_iff.1 h with hl | ⟨_, -, h⟩
      · obtain ⟨b, hmem, hb⟩ := ih hl
        exact ⟨b, .tail a hmem, hb⟩
      · cases h

end Except

namespace NodeFault

section Seed

variable {α : Type} [DecidableEq α] [ToString α] {g : Graph α} {seed : Coloring α}
variable {palette : List Color} {e : Error}

theorem exists_of_seedFault {fault : SeedFault} (h : seedFault g seed = some fault) :
    ∃ x : NodeFault α, .invalidSeed fault = x.error := by
  obtain ⟨⟨a, color⟩, -, hentry⟩ := List.exists_of_findSome?_eq_some h
  dsimp only at hentry
  by_cases ha : g.contains a
  · rw [if_pos ha] at hentry
    obtain ⟨b, -, rfl⟩ := Option.map_eq_some_iff.1 hentry
    exact ⟨.adjacentSame a b color, rfl⟩
  · rw [if_neg ha] at hentry
    cases hentry
    exact ⟨.unknown a, rfl⟩

theorem exists_of_validateSeed (h : validateSeed g seed = .error e) :
    ∃ x : NodeFault α, e = x.error := by
  rw [validateSeed] at h
  cases hfault : seedFault g seed with
  | none =>
    rw [hfault] at h
    cases h
  | some fault =>
    rw [hfault] at h
    cases h
    exact exists_of_seedFault hfault

theorem exists_of_seedClauses {entry : α × Color}
    (h : Encoding.seedClauses g palette entry = .error e) : ∃ x : NodeFault α, e = x.error := by
  rw [Encoding.seedClauses] at h
  cases hcolor : palette.idxOf? entry.2 with
  | none =>
    rw [hcolor] at h
    cases h
    exact ⟨.outsidePalette entry.2 entry.1, rfl⟩
  | some c =>
    rw [hcolor] at h
    cases hnode : g.indexOf? entry.1 <;> simp [hnode] at h

/-- **A seed that is not encoded** has a fault: it is not valid, or the
palette lacks one of its colors. -/
theorem exists_of_encode (h : Encoding.encode g seed palette = .error e) :
    ∃ x : NodeFault α, e = x.error := by
  rcases Except.bind_eq_error_iff.1 h with h | ⟨_, -, h⟩
  · exact exists_of_validateSeed h
  · rcases Except.bind_eq_error_iff.1 h with h | ⟨seeded, -, h⟩
    · obtain ⟨entry, -, hentry⟩ := exists_of_mapM_eq_error h
      exact exists_of_seedClauses hentry
    · cases h

end Seed

end NodeFault

end Tricolor
