import Tricolor.Proofs.Gadget.Extract
import Tricolor.Proofs.Message

/-!
# Labels tell the nodes of a gadget graph apart

Some tags begin like others, and numbers follow them, but the number of an
auxiliary node is set off by an underscore, which neither a tag nor a
number has. So a label shows its tag and its number, and no two nodes have
one label (`label_injective`). A label has no character that is escaped in
DOT text and no blank, so this also holds of what exports and messages show
(`label_eq_iff`).
-/

namespace Tricolor

namespace Gadget

variable {f : Formula} {a b : Node} {role role' : Role} {c : Char} {k var : Nat} {positive : Bool}

/-! ## Tags -/

namespace Role

/-- **Tags tell roles apart.** -/
theorem tag_inj : role.tag = role'.tag ↔ role = role' := by
  have hnodup : (all.map tag).Nodup := by decide
  exact ⟨fun h => List.inj_on_of_nodup_map hnodup role.mem_all role'.mem_all h,
    fun h => by rw [h]⟩

theorem isAlphanum_of_mem_tag (h : c ∈ role.tag.toList) : c.isAlphanum := by
  have hall : all.all (fun role => role.tag.toList.all Char.isAlphanum) := by decide
  exact List.all_eq_true.1 (List.all_eq_true.1 hall role role.mem_all) c h

end Role

namespace Node

/-! ## The characters of a label -/

theorem toList_label_literal : (literal var positive).label.toList =
    (if positive then [] else ['-']) ++ Nat.toDigits 10 var := by
  cases positive <;> simp [label]

theorem toList_label_auxiliary : (auxiliary k role).label.toList =
    role.tag.toList ++ '_' :: Nat.toDigits 10 k := by
  simp [label]

theorem eq_minus_or_isDigit (h : c ∈ (literal var positive).label.toList) :
    c = '-' ∨ c.isDigit := by
  rw [toList_label_literal, List.mem_append] at h
  refine h.imp (fun hsign => ?_) Text.Numeral.isDigit_of_mem_toDigits
  cases positive
  · exact List.mem_singleton.1 hsign
  · exact absurd hsign List.not_mem_nil

/-- A label has letters and digits, and at most a minus sign or an
underscore. -/
theorem isAlphanum_or (h : c ∈ a.label.toList) : c.isAlphanum ∨ c = '-' ∨ c = '_' := by
  have hdigit (hc : c.isDigit) : c.isAlphanum := by simp [Char.isAlphanum, hc]
  cases a with
  | reference r =>
    have hletter : (reference r).label.toList.all Char.isAlphanum := by cases r <;> decide
    exact .inl (List.all_eq_true.1 hletter c h)
  | literal var positive =>
    rcases eq_minus_or_isDigit h with rfl | hc
    · exact .inr (.inl rfl)
    · exact .inl (hdigit hc)
  | auxiliary k role =>
    rw [toList_label_auxiliary, List.mem_append, List.mem_cons] at h
    rcases h with htag | rfl | hnumber
    · exact .inl (Role.isAlphanum_of_mem_tag htag)
    · exact .inr (.inr rfl)
    · exact .inl (hdigit (Text.Numeral.isDigit_of_mem_toDigits hnumber))

theorem blank_notMem_label (a : Node) : ' ' ∉ a.label.toList :=
  fun h => absurd (isAlphanum_or h) (by decide)

/-- There is nothing to escape in a label. -/
theorem quoted_label (a : Node) : Dot.quoted a.label = "\"" ++ a.label ++ "\"" := by
  have hplain (c) (hc : c ∈ a.label.toList) : Dot.escapeChar c = [c] := by
    unfold Dot.escapeChar
    split
    · exact absurd (isAlphanum_or hc) (by decide)
    · exact absurd (isAlphanum_or hc) (by decide)
    · rfl
  rw [Dot.quoted, List.flatMap_congr hplain, List.flatMap_singleton', String.ofList_toList]

/-! ## Nodes of one label -/

theorem reference_of_label {r r' : Reference}
    (h : (reference r).label = (reference r').label) : reference r = reference r' := by
  have hnodup : (referenceNodes.map label).Nodup := by decide
  have hmem (r : Reference) : reference r ∈ referenceNodes := by
    cases r <;> simp [referenceNodes, truth, falsity, neutral]
  exact List.inj_on_of_nodup_map hnodup (hmem r) (hmem r') h

/-- Only a negation begins with a minus sign. -/
theorem literal_of_label {var' : Nat} {positive' : Bool}
    (h : (literal var positive).label = (literal var' positive').label) :
    literal var positive = literal var' positive' := by
  have hminus (var : Nat) : '-' ∉ Nat.toDigits 10 var :=
    fun hmem => absurd (Text.Numeral.isDigit_of_mem_toDigits hmem) (by decide)
  rw [← String.toList_inj, toList_label_literal, toList_label_literal] at h
  have hsign := congrArg ('-' ∈ ·) h
  obtain rfl : positive = positive' := by
    cases positive <;> cases positive' <;> simp [hminus] at hsign ⊢
  rw [Text.Numeral.toDigits_inj.1 (List.append_cancel_left h)]

/-- The tag ends at the underscore. -/
theorem auxiliary_of_label {k' : Nat}
    (h : (auxiliary k role).label = (auxiliary k' role').label) :
    auxiliary k role = auxiliary k' role' := by
  have htag (role : Role) : '_' ∉ role.tag.toList :=
    fun hmem => absurd (Role.isAlphanum_of_mem_tag hmem) (by decide)
  rw [← String.toList_inj, toList_label_auxiliary, toList_label_auxiliary,
    append_separator_inj (htag role) (htag role'), String.toList_inj, Role.tag_inj] at h
  rw [h.1, Text.Numeral.toDigits_inj.1 h.2]

/-- Only an auxiliary node has an underscore. -/
theorem underscore_mem_label : '_' ∈ a.label.toList ↔ ∃ k role, a = auxiliary k role := by
  constructor
  · intro h
    cases a with
    | reference r => cases r <;> exact absurd h (by decide)
    | literal var positive => exact absurd (eq_minus_or_isDigit h) (by decide)
    | auxiliary k role => exact ⟨k, role, rfl⟩
  · rintro ⟨k, role, rfl⟩
    rw [toList_label_auxiliary]
    simp

/-- No literal has a letter. -/
theorem label_reference_ne (r : Reference) (var : Nat) (positive : Bool) :
    (reference r).label ≠ (literal var positive).label := by
  intro h
  have hchars (c) (hc : c ∈ (reference r).label.toList) : c = '-' ∨ c.isDigit :=
    eq_minus_or_isDigit (h ▸ hc)
  cases r <;> exact absurd (hchars _ (.head [])) (by decide)

/-- **No two nodes have one label.** -/
theorem label_injective : Function.Injective label := by
  intro a b h
  have hkind : (∃ k role, a = auxiliary k role) ↔ ∃ k role, b = auxiliary k role := by
    rw [← underscore_mem_label, ← underscore_mem_label, h]
  cases a with
  | auxiliary k role =>
    obtain ⟨k', role', rfl⟩ := hkind.1 ⟨k, role, rfl⟩
    exact auxiliary_of_label h
  | reference r =>
    cases b with
    | reference r' => exact reference_of_label h
    | literal var' positive' => exact absurd h (label_reference_ne r var' positive')
    | auxiliary k' role' => simp at hkind
  | literal var positive =>
    cases b with
    | reference r' => exact absurd h.symm (label_reference_ne r' var positive)
    | literal var' positive' => exact literal_of_label h
    | auxiliary k' role' => simp at hkind

end Node

/-! ## Labels that are shown -/

/-- The labels of a gadget graph with `n` variables and `m` clauses. -/
def labels (n m : Nat) : List String :=
  ["T", "F", "N"] ++
    (List.range' 1 n).flatMap (fun var => [toString var, "-" ++ toString var]) ++
    (List.range m).flatMap fun k => Role.all.map fun role => role.tag ++ "_" ++ toString k

theorem map_label_nodes (hf : f.Valid) :
    (graph f).nodes.map Node.label = labels f.numVars.toNat f.clauses.length := by
  rw [nodes_graph hf, List.map_append, List.map_append, variableNodes, auxiliaryNodes,
    List.map_flatMap, List.map_flatMap]
  rfl

/-- **A coloring that is not read as an assignment** has a fault: a node
needed a fourth color, or a variable has none. -/
theorem exists_of_extract {r : ColorRoles} {c : Coloring Node} {n : Nat} {e : Error}
    (h : r.extract c n = .error e) : ∃ x : NodeFault Node, e = x.error := by
  rw [ColorRoles.extract] at h
  cases hover : r.firstOverflow c with
  | some entry =>
    rw [hover] at h
    cases h
    exact ⟨.fourthColor entry.1 entry.2, rfl⟩
  | none =>
    rw [hover] at h
    cases hvalues : r.valuesFrom c 1 n with
    | error e' =>
      obtain ⟨i, rfl⟩ := ColorRoles.exists_of_valuesFrom_eq_error hvalues
      rw [hvalues] at h
      cases h
      exact ⟨.uncolored (.literal i true), rfl⟩
    | ok values =>
      rw [hvalues] at h
      cases h

/-- **Labels are unambiguous.** Two nodes have one label only if they are
the same, so no label comes twice in the gadget graph of a formula. Its DOT
text can be read in one way only, and names its nodes and its edges by
these labels, in which there is nothing to escape. If a coloring of it
cannot be begun or read, this is for a fault of nodes, and two errors about
nodes have one message only if they report the same fault of the same
nodes. -/
theorem label_eq_iff :
    (∀ a b : Node, a.label = b.label ↔ a = b) ∧
    (∀ f : Formula, f.Valid → ∃ g, build f = .ok g ∧
      g.nodes.map Node.label = labels f.numVars.toNat f.clauses.length ∧
      (g.nodes.map Node.label).Nodup ∧
      (∀ coloring : Option (Coloring Node), ∃ ss : List Dot.Statement,
        (∀ ss', g.toDot coloring = Dot.text ss' ↔ ss' = ss) ∧
        (ss.filterMap (·.node?)).map Prod.fst = g.nodes.map Node.label ∧
        ss.filterMap (·.edge?) = g.edges.map fun e => (e.1.label, e.2.label)) ∧
      (∀ seed palette e, Encoding.encode g seed palette = .error e →
        ∃ x : NodeFault Node, e = x.error) ∧
      ∀ (r : ColorRoles) c e, r.extract c f.numVars.toNat = .error e →
        ∃ x : NodeFault Node, e = x.error) ∧
    (∀ a : Node, Dot.quoted a.label = "\"" ++ a.label ++ "\"") ∧
    ∀ x y : NodeFault Node, x.error.message = y.error.message ↔ x = y := by
  refine ⟨fun a b => Node.label_injective.eq_iff, fun f hf => ?_, Node.quoted_label, fun x y => ?_⟩
  · refine ⟨graph f, build_eq_ok hf, map_label_nodes hf,
      (graph f).nodes_nodup.map Node.label_injective, fun coloring => ?_,
      fun _ _ _ => NodeFault.exists_of_encode, fun _ _ _ => exists_of_extract⟩
    refine ⟨(graph f).statements coloring, fun ss' => ?_, ?_, Graph.edges_statements _ coloring⟩
    · rw [Graph.toDot_eq_text, Dot.text_inj, eq_comm]
    · rw [Graph.nodes_statements, List.map_map]
      rfl
  · exact NodeFault.message_inj Node.blank_notMem_label Node.label_injective

/-- The labels of the graph of `1 ∨ 1 ∨ -1`, in DOT text as well; and an
error about the first node of clause 12 has another message than one about
the fourth node of clause 1. -/
theorem label_eq_iff_repeated :
    Formula.Valid ⟨1, [⟨1, 1, -1⟩]⟩ ∧
    (∃ g, build ⟨1, [⟨1, 1, -1⟩]⟩ = .ok g ∧
      g.nodes.map Node.label =
        ["T", "F", "N", "1", "-1", "i1_0", "i2_0", "or12_0", "i12_0", "i3_0", "or123_0"] ∧
      ∃ ss : List Dot.Statement, g.toDot none = Dot.text ss ∧
        (ss.filterMap (·.node?)).map Prod.fst = g.nodes.map Node.label) ∧
    (NodeFault.uncolored (Node.auxiliary 12 .in1)).error.message ≠
      (NodeFault.uncolored (Node.auxiliary 1 .in12)).error.message := by
  have hf : Formula.Valid ⟨1, [⟨1, 1, -1⟩]⟩ := Formula.validate_eq_ok_iff.1 (by decide)
  obtain ⟨-, hgraph, -, hmessage⟩ := label_eq_iff
  obtain ⟨g, hg, hlabels, -, htext⟩ := hgraph _ hf
  obtain ⟨ss, hss, hnodes, -⟩ := htext.1 none
  refine ⟨hf, ⟨g, hg, hlabels.trans (by decide), ss, (hss ss).2 rfl, hnodes⟩, ?_⟩
  exact fun h => absurd ((hmessage _ _).1 h) (by decide)

end Gadget

end Tricolor
