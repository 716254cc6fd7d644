import Tricolor.Proofs.Gadget.Colorability

/-!
# Seeds of assignments

The seed of an assignment colors the references and then the literals,
variable by variable, in the colors of their hues (`entries_modelSeed`).
These are proper, so the seed is valid for the graph of every formula
over the same variables. Variables are written as 32-bit literals, so
they must not run past what those can hold.
-/

namespace Tricolor

namespace Gadget

open ColorRoles (Distinct)

variable {f : Formula} {a : Assignment} {r : ColorRoles} {var : Nat} {value : Bool} {b : Node}

/-! ## The seed of the references -/

theorem get?_referenceSeed_eq_some_iff {color : Color} :
    r.referenceSeed.get? b = some color ↔ ∃ role, b = .reference role ∧ color = r.color role := by
  have hentries : r.referenceSeed.entries =
      [(.truth, r.truth), (.falsity, r.falsity), (.neutral, r.neutral)] := rfl
  rw [Coloring.get?_eq_some_iff, hentries]
  simp only [List.mem_cons, List.not_mem_nil, or_false, Prod.mk.injEq]
  constructor
  · rintro (⟨rfl, rfl⟩ | ⟨rfl, rfl⟩ | ⟨rfl, rfl⟩)
    · exact ⟨.truth, rfl, rfl⟩
    · exact ⟨.falsity, rfl, rfl⟩
    · exact ⟨.neutral, rfl, rfl⟩
  · rintro ⟨role, rfl, rfl⟩
    cases role
    · exact .inl ⟨rfl, rfl⟩
    · exact .inr (.inl ⟨rfl, rfl⟩)
    · exact .inr (.inr ⟨rfl, rfl⟩)

/-- A coloring keeps the seed of the references if it wears the role
colors there. -/
theorem keeps_referenceSeed_iff {c : Coloring Node} :
    (∀ b color, r.referenceSeed.get? b = some color → c.get? b = some color) ↔
      ∀ role, c.get? (.reference role) = some (r.color role) := by
  constructor
  · exact fun h role => h _ _ (get?_referenceSeed_eq_some_iff.2 ⟨role, rfl, rfl⟩)
  · intro h b color hb
    obtain ⟨role, rfl, rfl⟩ := get?_referenceSeed_eq_some_iff.1 hb
    exact h role

/-- The seed of the references is valid for every formula. -/
theorem validSeed_referenceSeed (hf : f.Valid) (hr : r.Distinct) :
    ValidSeed (graph f) r.referenceSeed where
  known b hb := by
    obtain ⟨color, hcolor⟩ := Coloring.mem_nodes_iff.1 hb
    obtain ⟨role, rfl, -⟩ := get?_referenceSeed_eq_some_iff.1 hcolor
    exact reference_mem_nodes hf role
  distinct b b' color h hb hb' := by
    obtain ⟨role, rfl, rfl⟩ := get?_referenceSeed_eq_some_iff.1 hb
    obtain ⟨role', rfl, heq⟩ := get?_referenceSeed_eq_some_iff.1 hb'
    exact Graph.ne_of_hasEdge h (congrArg _ (hr.color_injective heq))

/-! ## The seed of an assignment -/

/-- The entries of a variable are for the node that its number is taken
for, and for the negation of that. -/
theorem literalEntries_of_ofLiteral {var' : Nat} {positive : Bool} (r : ColorRoles) (value : Bool)
    (h : Node.ofLiteral (Int32.ofNat var) = .literal var' positive) :
    r.literalEntries var value =
      [(.literal var' positive, r.color (literalHue value)),
        (.literal var' !positive, r.color (literalHue !value))] := by
  rw [ColorRoles.literalEntries, h]
  cases value <;> rfl

theorem literalEntries_eq (r : ColorRoles) (value : Bool) (hpos : 0 < var)
    (hle : (var : Int) ≤ Int32.maxValue.toInt) :
    r.literalEntries var value =
      [(.literal var true, r.color (literalHue value)),
        (.literal var false, r.color (literalHue !value))] := by
  rw [Int32.toInt_maxValue] at hle
  have hint : (Int32.ofNat var).toInt = var := Int32.toInt_ofNat_of_lt (by omega)
  exact literalEntries_of_ofLiteral r value (by simp [Node.ofLiteral, hint, hpos])

theorem size_lt_of_le (hle : (a.size : Int) ≤ Int32.maxValue.toInt) : a.size < UInt32.size := by
  have hwords : UInt32.size = 4294967296 := rfl
  rw [Int32.toInt_maxValue] at hle
  omega

/-- The variables of an assignment, in order. -/
theorem map_fst_entries (h : a.size < UInt32.size) :
    a.entries.map Prod.fst = List.range' 1 a.size := by
  rw [Assignment.entries_eq h, List.map_map]
  exact List.zipIdx_map_snd 1 a.values

theorem nodup_skeletonNodes (n : Nat) : (referenceNodes ++ variableNodes n).Nodup :=
  eraseDups_ends_variablesEdges n ▸ nodup_eraseDups _

/-- **The seed of an assignment** wears at the references and the literals
the colors of the assignment. -/
theorem entries_modelSeed (f : Formula) (r : ColorRoles)
    (hle : (a.size : Int) ≤ Int32.maxValue.toInt) :
    (r.modelSeed a).entries =
      (referenceNodes ++ variableNodes a.size).map fun b => (b, nodeColor f r a b) := by
  have hliterals : (a.entries.flatMap fun e => r.literalEntries e.1 e.2) =
      (variableNodes a.size).map fun b => (b, nodeColor f r a b) := by
    rw [variableNodes, ← map_fst_entries (size_lt_of_le hle), List.flatMap_map, List.map_flatMap]
    refine List.flatMap_congr fun e he => ?_
    obtain ⟨var, value⟩ := e
    have hvar : var ∈ List.range' 1 a.size := map_fst_entries (size_lt_of_le hle) ▸ List.mem_map_of_mem he
    rw [List.mem_range'_1] at hvar
    simp only [literalEntries_eq r value hvar.1 (show (var : Int) ≤ Int32.maxValue.toInt by omega)]
    have hget := (Assignment.mem_entries_iff (size_lt_of_le hle)).1 he
    cases value <;> simp only [List.map_cons, List.map_nil, nodeColor, hue, hget] <;> rfl
  have hreferences : r.referenceSeed.entries =
      referenceNodes.map fun b => (b, nodeColor f r a b) := rfl
  have hsplit : (referenceNodes ++ variableNodes a.size).map (fun b => (b, nodeColor f r a b)) =
      r.referenceSeed.entries ++ (variableNodes a.size).map fun b => (b, nodeColor f r a b) := by
    rw [List.map_append, hreferences]
  rw [ColorRoles.modelSeed, hliterals, hsplit]
  refine Coloring.entries_foldl_insert ?_
  rw [← hsplit, List.map_map]
  exact (List.map_id _).symm ▸ nodup_skeletonNodes a.size

/-- The nodes of the seed of an assignment are the references and the
literals. -/
theorem nodes_modelSeed (f : Formula) (r : ColorRoles)
    (hle : (a.size : Int) ≤ Int32.maxValue.toInt) :
    (r.modelSeed a).nodes = referenceNodes ++ variableNodes a.size := by
  rw [Coloring.nodes, entries_modelSeed f r hle, List.map_map]
  exact List.map_id _

theorem get?_modelSeed_eq_some_iff (f : Formula)
    (hle : (a.size : Int) ≤ Int32.maxValue.toInt) {color : Color} :
    (r.modelSeed a).get? b = some color ↔
      b ∈ referenceNodes ++ variableNodes a.size ∧ nodeColor f r a b = color := by
  rw [Coloring.get?_eq_some_iff, entries_modelSeed f r hle]
  simp only [List.mem_map, Prod.mk.injEq]
  exact ⟨fun ⟨_, hb, rfl, hcolor⟩ => ⟨hb, hcolor⟩, fun ⟨hb, hcolor⟩ => ⟨b, hb, rfl, hcolor⟩⟩

/-- **The seed of an assignment is valid** for every formula over its
variables. -/
theorem validSeed_modelSeed (hf : f.Valid) (hr : r.Distinct) (ha : a.size = f.numVars.toNat)
    (hle : (a.size : Int) ≤ Int32.maxValue.toInt) : ValidSeed (graph f) (r.modelSeed a) where
  known b hb := by
    obtain ⟨color, hcolor⟩ := Coloring.mem_nodes_iff.1 hb
    rw [nodes_graph hf]
    exact List.mem_append_left _ (ha ▸ ((get?_modelSeed_eq_some_iff f hle).1 hcolor).1)
  distinct b b' color h hb hb' := by
    have hmem := Graph.mem_nodes_of_hasEdge h
    refine (proper_painted hr ha).distinct b b' h ?_
    rw [painted, Graph.get?_paint hmem.1, Graph.get?_paint hmem.2,
      ((get?_modelSeed_eq_some_iff f hle).1 hb).2, ((get?_modelSeed_eq_some_iff f hle).1 hb').2]

end Gadget

end Tricolor
