import Tricolor.Proofs.Text.Split

/-!
# Lines of encoded text

Cutting bytes into lines and decoding these is the same as decoding first
(`map_decode?_byteLines`): the bytes that end a line encode the characters
that do, and no other character has them in its encoding.
-/

namespace Tricolor

namespace Text

open String (utf8EncodeChar)

/-- The bytes that encode characters. -/
def encode (cs : List Char) : List UInt8 := cs.flatMap utf8EncodeChar

variable {c : Char} {cs : List Char}

/-- They are the bytes of a string with these characters. -/
theorem data_toByteArray_ofList (cs : List Char) :
    (String.ofList cs).toByteArray.data = (encode cs).toArray := by
  rw [String.toByteArray_ofList, List.utf8Encode, List.data_toByteArray, encode]

theorem decode?_encode (cs : List Char) : decode? (encode cs) = some cs := by
  have hbytes : (⟨(encode cs).toArray⟩ : ByteArray) = (String.ofList cs).toByteArray :=
    ByteArray.ext (data_toByteArray_ofList cs).symm
  rw [decode?, hbytes, String.fromUTF8?, dif_pos (String.ofList cs).isValidUTF8]
  exact congrArg some String.toList_ofList

/-- A byte below 128 encodes one character, and has no part in the
encoding of another. -/
theorem eq_of_mem_utf8EncodeChar {b : UInt8} (h : b ∈ utf8EncodeChar c) (hb : b.toNat < 128) :
    c = Char.ofNat b.toNat := by
  have hcode : c.toNat = b.toNat := by
    have hval : c.toNat = c.val.toNat := rfl
    simp only [utf8EncodeChar] at h
    split at h
    · rw [List.mem_singleton.1 h, UInt8.toNat_ofNat']
      omega
    -- the other bytes have their highest bit set
    · exfalso
      split at h
      · simp only [List.mem_cons, List.not_mem_nil, or_false] at h
        rcases h with rfl | rfl <;> rw [UInt8.toNat_ofNat'] at hb <;> omega
      · split at h
        · simp only [List.mem_cons, List.not_mem_nil, or_false] at h
          rcases h with rfl | rfl | rfl <;> rw [UInt8.toNat_ofNat'] at hb <;> omega
        · simp only [List.mem_cons, List.not_mem_nil, or_false] at h
          rcases h with rfl | rfl | rfl | rfl <;> rw [UInt8.toNat_ofNat'] at hb <;> omega
  rw [← hcode, Char.ofNat_toNat]

theorem isEmpty_encode (cs : List Char) : (encode cs).isEmpty = cs.isEmpty := by
  cases cs with
  | nil => rfl
  | cons c cs =>
    simp [encode, String.utf8EncodeChar_ne_nil]

/-- Splitting commutes with encoding. -/
theorem splitOn_flatMap {α β : Type} [BEq α] [LawfulBEq α] [BEq β] [LawfulBEq β] {e : α → List β}
    {a : α} {b : β} (ha : e a = [b]) (hb : ∀ x, b ∈ e x → x = a) (xs : List α) :
    (xs.flatMap e).splitOn b = (xs.splitOn a).map (·.flatMap e) := by
  obtain ⟨pieces, last, h⟩ :=
    (List.eq_nil_or_concat' (xs.splitOn a)).resolve_left (List.splitOn_ne_nil a xs)
  obtain ⟨hxs, hpieces, hlast⟩ := splitOn_eq_append_singleton_iff.1 h
  have hfree {piece : List α} (hpiece : a ∉ piece) : b ∉ piece.flatMap e := by
    intro hmem
    obtain ⟨x, hx, hbx⟩ := List.mem_flatMap.1 hmem
    exact hpiece (hb x hbx ▸ hx)
  rw [h, List.map_append]
  refine splitOn_eq_append_singleton_iff.2 ⟨?_, fun piece hpiece => ?_, hfree hlast⟩
  · rw [hxs, List.flatMap_append, List.flatMap_map, List.flatMap_assoc]
    simp [ha, List.flatMap_append]
  · obtain ⟨piece, hmem, rfl⟩ := List.mem_map.1 hpiece
    exact hfree (hpieces piece hmem)

theorem dropReturn_encode (line : List Char) :
    dropReturn 13 (encode line) = encode (dropReturn '\r' line) := by
  rcases List.eq_nil_or_concat' line with rfl | ⟨front, c, rfl⟩
  · rfl
  · have hencode : encode (front ++ [c]) = encode front ++ utf8EncodeChar c := by
      rw [encode, List.flatMap_append, List.flatMap_singleton]
      rfl
    by_cases hc : c = '\r'
    · subst hc
      have hreturn : utf8EncodeChar '\r' = [13] := by decide
      rw [hencode, hreturn, dropReturn, dropReturn, List.getLast?_concat, List.getLast?_concat]
      simp
    · have hlast : (encode (front ++ [c])).getLast? ≠ some 13 := by
        rw [hencode, List.getLast?_append_of_ne_nil _ String.utf8EncodeChar_ne_nil]
        exact fun h => hc (eq_of_mem_utf8EncodeChar (List.mem_of_getLast? h) (by decide))
      rw [dropReturn_of_getLast?_ne hlast, dropReturn_of_getLast?_ne]
      rw [List.getLast?_concat]
      exact fun h => hc (Option.some.inj h)

/-- So do lines. -/
theorem byteLines_encode (cs : List Char) :
    byteLines (encode cs) = (textLines cs).map encode := by
  have hsplit : (encode cs).splitOn 10 = (cs.splitOn '\n').map encode :=
    splitOn_flatMap (by decide) (fun c hc => eq_of_mem_utf8EncodeChar hc (by decide)) cs
  have hdrop : dropReturn 13 ∘ encode = encode ∘ dropReturn '\r' := funext dropReturn_encode
  have hempty : (fun bytes : List UInt8 => !bytes.isEmpty) ∘ encode = fun cs => !cs.isEmpty :=
    funext fun cs => congrArg (! ·) (isEmpty_encode cs)
  rw [byteLines, lines, hsplit, textLines, lines, List.map_append, List.map_map,
    ← List.map_dropLast, List.map_map, hdrop, List.getLast?_map, Option.filter_map, hempty,
    Option.toList_map]

/-- **The lines of encoded text** are its lines, each of which can be
decoded. -/
theorem map_decode?_byteLines (cs : List Char) :
    (byteLines (encode cs)).map decode? = (textLines cs).map some := by
  rw [byteLines_encode, List.map_map]
  exact List.map_congr_left fun line _ => decode?_encode line

end Text

end Tricolor
