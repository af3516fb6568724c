import TypingsIndex.Declaration.ByteCursor
import TypingsIndex.Proofs.Declaration.Cuts
import TypingsIndex.Proofs.Text.Offsets

/-!
# Searching the bytes of a line

A search over the bytes of a text finds the offset of what the search over its characters finds. No byte inside a
character is a bracket, an end of a type or a stop of one byte, so the search over the bytes passes such bytes and
keeps its depth; at the first byte of a character it does what the other search does at the character.
-/

set_option autoImplicit false

namespace TypingsIndex.ByteCursor

open Text

variable {bytes : ByteArray} {offset depth : Nat} {c mark : Char} {text : List Char} {byte : UInt8}

/-! ## Brackets -/

/-- A byte that looks like a character opens a group if the character does; so for the other classes. -/
theorem opensGroup_eq (like : LooksLike byte c) : opensGroup byte = Cursor.opensGroup c := by
  unfold opensGroup Cursor.opensGroup
  rw [like _ rfl, like _ rfl, like _ rfl]

/-- A byte that looks like a character closes a group if the character does. -/
theorem closesGroup_eq (like : LooksLike byte c) : closesGroup byte = Cursor.closesGroup c := by
  unfold closesGroup Cursor.closesGroup
  rw [like _ rfl, like _ rfl, like _ rfl]

/-- A byte that looks like a character opens a bracket of a type if the character does. -/
theorem opensType_eq (like : LooksLike byte c) : opensType byte = Cursor.opensType c := by
  unfold opensType Cursor.opensType
  rw [opensGroup_eq like, like _ rfl]

/-- A byte that looks like a character closes a bracket of a type if the character does. -/
theorem closesType_eq (like : LooksLike byte c) : closesType byte = Cursor.closesType c := by
  unfold closesType Cursor.closesType
  rw [closesGroup_eq like, like _ rfl]

/-- A byte that looks like a character ends a type if the character does. -/
theorem endsType_eq (like : LooksLike byte c) : endsType byte = Cursor.endsType c := by
  unfold endsType Cursor.endsType
  rw [like _ rfl, like _ rfl]

/-- A byte inside a character is no bracket, no end and no equals sign: it looks like a character of two bytes. -/
theorem looksWide (inside : ¬ byte.IsUTF8FirstByte) : LooksLike byte '\u0080' :=
  looksLike_of_inside inside (by decide)

/-! ## The searches -/

/-- The offset of what a search over characters has found. -/
def offsetOf (offset : Nat) (cut : Option (List Char × List Char)) : Option Nat :=
  cut.map fun found => offset + String.utf8Len found.1

/-- One more character in front of what is taken is one more character to the offset. -/
theorem offsetOf_consTaken (cut : Option (List Char × List Char)) :
    offsetOf offset (Cursor.consTaken c cut) = offsetOf (offset + c.utf8Size) cut := by
  cases cut with
  | none => rfl
  | some found =>
    change some (offset + (String.utf8Len found.1 + c.utf8Size)) = some (offset + c.utf8Size + String.utf8Len found.1)
    congr 1
    omega

/-- The step of the search for a terminator at an offset inside of the bytes. -/
theorem terminatedOffset?_of_lt {stop : UInt8} (h : offset < bytes.size) :
    terminatedOffset? stop bytes depth offset =
      if opensGroup bytes[offset] then terminatedOffset? stop bytes (depth + 1) (offset + 1)
      else if closesGroup bytes[offset] then terminatedOffset? stop bytes (depth - 1) (offset + 1)
      else if depth = 0 ∧ bytes[offset] = stop then some offset
      else terminatedOffset? stop bytes depth (offset + 1) := by
  rw [terminatedOffset?, dif_pos h]

/-- The search for a mark goes on at every byte inside a character. -/
theorem terminatedOffset?_inside (ascii : mark.utf8Size = 1) (h : offset < bytes.size)
    (inside : ¬ bytes[offset].IsUTF8FirstByte) :
    terminatedOffset? mark.toUInt8 bytes depth offset = terminatedOffset? mark.toUInt8 bytes depth (offset + 1) := by
  have hstop : ¬ (depth = 0 ∧ bytes[offset] = mark.toUInt8) := fun hstop =>
    inside (hstop.2 ▸ firstByte_of_ascii ascii)
  rw [terminatedOffset?_of_lt h, opensGroup_eq (looksWide inside), closesGroup_eq (looksWide inside), if_neg hstop]
  rfl

/-- A stop outside all groups is found at the offset where it stands. -/
theorem terminatedOffset?_eq (ascii : mark.utf8Size = 1) (encodes : EncodesFrom bytes offset text) :
    terminatedOffset? mark.toUInt8 bytes depth offset = offsetOf offset (Cursor.terminated? mark depth text) := by
  induction text generalizing offset depth with
  | nil =>
    rw [terminatedOffset?, dif_neg encodes.not_lt]
    rfl
  | cons c rest ih =>
    have hrest : ∀ depth, terminatedOffset? mark.toUInt8 bytes depth (offset + 1) =
        offsetOf (offset + c.utf8Size) (Cursor.terminated? mark depth rest) := fun depth => by
      rw [encodes.skip (terminatedOffset? mark.toUInt8 bytes depth) fun _ => terminatedOffset?_inside ascii,
        ih encodes.next]
    have hlt := encodes.lt
    have hlike := encodes.looksLike hlt
    have hstop : bytes[offset] = mark.toUInt8 ↔ c = mark := by
      rw [← beq_iff_eq, hlike _ ascii, beq_iff_eq]
    rw [terminatedOffset?_of_lt hlt, Cursor.terminated?]
    simp only [opensGroup_eq hlike, closesGroup_eq hlike, hstop, hrest]
    split
    · rw [offsetOf_consTaken]
    · split
      · rw [offsetOf_consTaken]
      · split
        · rfl
        · rw [offsetOf_consTaken]

/-- Where a stop is found, its byte stands. -/
theorem getElem_of_terminatedOffset? {stop : UInt8} {found : Nat}
    (h : terminatedOffset? stop bytes depth offset = some found) :
    ∃ inside : found < bytes.size, bytes[found] = stop := by
  fun_induction terminatedOffset? stop bytes depth offset with
  | case1 depth offset _ _ _ ih | case2 depth offset _ _ _ _ ih | case4 depth offset _ _ _ _ _ ih => exact ih h
  | case3 depth offset hlt _ _ _ hstop =>
    cases h
    exact ⟨hlt, hstop.2⟩
  | case5 => cases h

/-- The step of the search for the end of a type at an offset inside of the bytes. -/
theorem typeEndOffset?_of_lt (h : offset < bytes.size) :
    typeEndOffset? bytes depth offset =
      if bytes[offset] = '='.toUInt8 ∧ bytes.data[offset + 1]? = some '>'.toUInt8 then
        typeEndOffset? bytes depth (offset + 2)
      else if opensType bytes[offset] then typeEndOffset? bytes (depth + 1) (offset + 1)
      else if depth = 0 ∧ endsType bytes[offset] then some offset
      else if closesType bytes[offset] then typeEndOffset? bytes (depth - 1) (offset + 1)
      else typeEndOffset? bytes depth (offset + 1) := by
  rw [typeEndOffset?, dif_pos h]

/-- The search for the end of a type goes on at every byte inside a character. -/
theorem typeEndOffset?_inside (h : offset < bytes.size) (inside : ¬ bytes[offset].IsUTF8FirstByte) :
    typeEndOffset? bytes depth offset = typeEndOffset? bytes depth (offset + 1) := by
  have hequals : bytes[offset] ≠ '='.toUInt8 := fun hequals => inside (hequals ▸ firstByte_of_ascii rfl)
  have hends : ¬ (depth = 0 ∧ endsType bytes[offset] = true) := by
    rw [endsType_eq (looksWide inside)]
    exact fun hends => Bool.false_ne_true hends.2
  rw [typeEndOffset?_of_lt h, if_neg fun harrow => hequals harrow.1, opensType_eq (looksWide inside), if_neg hends,
    closesType_eq (looksWide inside)]
  rfl

/-- An arrow is where its two bytes are. -/
theorem arrow_iff (encodes : EncodesFrom bytes offset (c :: text)) (h : offset < bytes.size) :
    bytes[offset] = '='.toUInt8 ∧ bytes.data[offset + 1]? = some '>'.toUInt8 ↔ Cursor.IsArrow c text := by
  rw [← beq_iff_eq, encodes.looksLike h _ rfl, beq_iff_eq]
  unfold Cursor.IsArrow
  refine and_congr_right ?_
  rintro rfl
  exact encodes.next.getElem?_eq_some_iff rfl

/-- The end of a type is found at the offset where it stands. -/
theorem typeEndOffset?_eq (encodes : EncodesFrom bytes offset text) :
    typeEndOffset? bytes depth offset = offsetOf offset (Cursor.typeSpan? depth text) := by
  -- on the length, since an arrow takes two characters at once
  induction hlength : text.length using Nat.strongRecOn generalizing offset depth text with
  | ind length ih =>
    match text with
    | [] =>
      rw [typeEndOffset?, dif_neg encodes.not_lt]
      rfl
    | c :: rest =>
      rw [List.length_cons] at hlength
      have hlt := encodes.lt
      rw [typeEndOffset?_of_lt hlt]
      by_cases harrow : Cursor.IsArrow c rest
      · rw [if_pos ((arrow_iff encodes hlt).mpr harrow)]
        obtain ⟨rfl, hhead⟩ := harrow
        obtain ⟨rest, rfl⟩ := List.head?_eq_some_iff.mp hhead
        rw [List.length_cons] at hlength
        have hrest : EncodesFrom bytes (offset + 1 + 1) rest := encodes.next.next
        rw [Cursor.typeSpan?, offsetOf_consTaken, offsetOf_consTaken]
        exact ih rest.length (by omega) hrest rfl
      · have hrest : ∀ depth, typeEndOffset? bytes depth (offset + 1) =
            offsetOf (offset + c.utf8Size) (Cursor.typeSpan? depth rest) := fun depth => by
          rw [encodes.skip (typeEndOffset? bytes depth) fun _ => typeEndOffset?_inside]
          exact ih rest.length (by omega) encodes.next rfl
        have hlike := encodes.looksLike hlt
        rw [if_neg (mt (arrow_iff encodes hlt).mp harrow), Cursor.typeSpan?]
        · simp only [opensType_eq hlike, endsType_eq hlike, closesType_eq hlike, hrest]
          split
          · rw [offsetOf_consTaken]
          · split
            · rfl
            · split <;> rw [offsetOf_consTaken]
        · rintro text rfl rfl
          exact harrow ⟨rfl, rfl⟩

/-- The step of the search for a mark at an offset inside of the bytes. -/
theorem untilOffset?_of_lt (h : offset < bytes.size) :
    untilOffset? mark bytes offset =
      if String.utf8EncodeChar mark <+: bytes.data.toList.drop offset then some offset
      else untilOffset? mark bytes (offset + 1) := by
  rw [untilOffset?, if_pos h]

/-- No character is found inside another one. -/
theorem untilOffset?_inside (h : offset < bytes.size) (inside : ¬ bytes[offset].IsUTF8FirstByte) :
    untilOffset? mark bytes offset = untilOffset? mark bytes (offset + 1) := by
  rw [untilOffset?_of_lt h, if_neg (not_encoded_prefix_of_inside h inside)]

/-- A character is found at the offset where it stands. -/
theorem untilOffset?_eq (encodes : EncodesFrom bytes offset text) :
    untilOffset? mark bytes offset = offsetOf offset (Cursor.until? mark text) := by
  induction text generalizing offset with
  | nil =>
    rw [untilOffset?, if_neg encodes.not_lt]
    rfl
  | cons c rest ih =>
    rw [untilOffset?_of_lt encodes.lt, Cursor.until?]
    simp only [encodes.encoded_iff, List.head?_cons, Option.some_inj]
    split
    · rfl
    · rw [encodes.skip (untilOffset? mark bytes) fun _ => untilOffset?_inside, ih encodes.next, offsetOf_consTaken]

end TypingsIndex.ByteCursor
