import Mathlib.Data.String.Basic

/-!
# The bytes of a text

A search through the bytes of a text is at an offset from which on the bytes are those of the characters that are left
(`EncodesFrom`). The first byte of a character tells which of the characters of one byte it is, if it is one of them,
and no later byte can be taken for a first one (`LooksLike`). So a search that goes on by one byte at a time, and
stops at first bytes only, goes on from character to character (`EncodesFrom.skip`).
-/

set_option autoImplicit false

namespace TypingsIndex.Text

/-- The bytes of a text. -/
def bytesOf (text : List Char) : List UInt8 :=
  text.flatMap String.utf8EncodeChar

/-- From the offset on, the bytes are those of a text. -/
def EncodesFrom (bytes : ByteArray) (offset : Nat) (text : List Char) : Prop :=
  bytes.data.toList.drop offset = bytesOf text

variable {bytes : ByteArray} {offset : Nat} {c mark : Char} {text front : List Char}

/-- The bytes of a text begin with those of its first character. -/
theorem bytesOf_cons : bytesOf (c :: text) = String.utf8EncodeChar c ++ bytesOf text :=
  rfl

/-- A text is held as the bytes of its characters. -/
theorem toList_toByteArray (text : String) : text.toByteArray.data.toList = bytesOf text.toList := by
  rw [← String.utf8Encode_toList]
  simp [List.utf8Encode, bytesOf]

/-- The bytes of a text are those of its characters from the beginning. -/
theorem encodesFrom_zero (text : String) : EncodesFrom text.toByteArray 0 text.toList :=
  toList_toByteArray text

/-- The bytes of a text begin with those of another exactly if the text begins with the other. -/
theorem bytesOf_prefix_iff : bytesOf front <+: bytesOf text ↔ front <+: text := by
  constructor
  · rintro ⟨more, heq⟩
    have hbytes := congrArg List.toByteArray heq
    rw [List.toByteArray_append] at hbytes
    exact List.isPrefix_of_utf8Encode_append_eq_utf8Encode _ hbytes
  · rintro ⟨back, rfl⟩
    exact ⟨bytesOf back, by simp [bytesOf]⟩

/-- The bytes of a text begin with those of a character exactly if the text begins with the character. -/
theorem encoded_prefix_iff : String.utf8EncodeChar c <+: bytesOf text ↔ text.head? = some c := by
  have hone : String.utf8EncodeChar c = bytesOf [c] := by simp [bytesOf]
  rw [hone, bytesOf_prefix_iff, List.singleton_prefix_iff_head?_eq_some]

/-! ## Marks

A mark is a character of one byte. -/

/-- A mark is encoded as one byte. -/
theorem encoded_of_ascii (ascii : mark.utf8Size = 1) : String.utf8EncodeChar mark = [mark.toUInt8] :=
  String.utf8EncodeChar_eq_singleton ascii

/-- The byte of a mark is the first byte of a character. -/
theorem firstByte_of_ascii (ascii : mark.utf8Size = 1) : mark.toUInt8.IsUTF8FirstByte := by
  have hfirst := @UInt8.isUTF8FirstByte_getElem_zero_utf8EncodeChar mark
  simp only [encoded_of_ascii ascii] at hfirst
  exact hfirst

/-- The character of a byte's number has that byte as its number. -/
theorem toUInt8_ofUInt8 (byte : UInt8) : (Char.ofUInt8 byte).toUInt8 = byte :=
  UInt8.toUInt8_toUInt32 byte

/-- A byte below 128 is the byte of a mark. -/
theorem utf8Size_ofUInt8 {byte : UInt8} (ascii : byte < 0x80) : (Char.ofUInt8 byte).utf8Size = 1 := by
  rw [Char.utf8Size_eq_one_iff, UInt32.le_iff_toNat_le]
  have hval : (Char.ofUInt8 byte).val.toNat = byte.toNat := UInt8.toNat_toUInt32 byte
  have hbound : byte.toNat < 128 := UInt8.lt_iff_toNat_lt.mp ascii
  rw [hval]
  exact Nat.le_of_lt_succ hbound

/-- The byte of a mark is below 128. -/
theorem toUInt8_lt_of_ascii (ascii : mark.utf8Size = 1) : mark.toUInt8 < 0x80 := by
  rw [Char.utf8Size_eq_one_iff, UInt32.le_iff_toNat_le] at ascii
  have hval : mark.toUInt8.toNat = mark.val.toNat % 256 := UInt32.toNat_toUInt8 mark.val
  have hbound : mark.val.toNat ≤ 127 := ascii
  rw [UInt8.lt_iff_toNat_lt, hval]
  change mark.val.toNat % 256 < 128
  omega

/-- A byte looks like a character if it is the byte of just those marks that the character is. -/
def LooksLike (byte : UInt8) (c : Char) : Prop :=
  ∀ mark : Char, mark.utf8Size = 1 → (byte == mark.toUInt8) = (c == mark)

/-- The byte of a mark looks like the mark. -/
theorem looksLike_mark (ascii : c.utf8Size = 1) : LooksLike c.toUInt8 c := by
  intro mark hmark
  rw [Bool.eq_iff_iff, beq_iff_eq, beq_iff_eq]
  constructor
  · intro heq
    have hprefix : String.utf8EncodeChar mark <+: bytesOf [c] := by
      rw [bytesOf_cons, encoded_of_ascii ascii, heq, encoded_of_ascii hmark]
      exact List.prefix_append _ _
    exact Option.some.inj (encoded_prefix_iff.mp hprefix)
  · rintro rfl
    rfl

/-- A byte inside a character looks like no mark. -/
theorem looksLike_of_inside {byte : UInt8} (inside : ¬ byte.IsUTF8FirstByte) (wide : c.utf8Size ≠ 1) :
    LooksLike byte c := by
  intro mark hmark
  have hbyte : (byte == mark.toUInt8) = false := by
    rw [beq_eq_false_iff_ne]
    rintro rfl
    exact inside (firstByte_of_ascii hmark)
  have hc : (c == mark) = false := by
    rw [beq_eq_false_iff_ne]
    rintro rfl
    exact wide hmark
  rw [hbyte, hc]

/-- No character begins with a byte inside a character. -/
theorem not_encoded_prefix_of_inside (h : offset < bytes.size) (inside : ¬ bytes[offset].IsUTF8FirstByte) :
    ¬ String.utf8EncodeChar mark <+: bytes.data.toList.drop offset := by
  rintro ⟨more, heq⟩
  have hlength : 0 < (String.utf8EncodeChar mark).length := String.length_utf8EncodeChar mark ▸ mark.utf8Size_pos
  have hget := congrArg (·[0]?) heq
  simp only [List.getElem?_append_left hlength, List.getElem?_eq_getElem hlength, List.getElem?_drop] at hget
  obtain ⟨_, hget⟩ := List.getElem?_eq_some_iff.mp hget.symm
  have hfirst : bytes[offset] = (String.utf8EncodeChar mark)[0] := hget
  rw [hfirst] at inside
  exact inside UInt8.isUTF8FirstByte_getElem_zero_utf8EncodeChar

namespace EncodesFrom

/-- Where no character is left, no byte is. -/
theorem not_lt (encodes : EncodesFrom bytes offset []) : ¬ offset < bytes.size := by
  have hlength := congrArg List.length encodes
  rw [List.length_drop] at hlength
  simp only [bytesOf, List.flatMap_nil, List.length_nil, Array.length_toList, ByteArray.size_data] at hlength
  omega

/-- Behind the bytes of a character are those of the characters after it. -/
theorem next (encodes : EncodesFrom bytes offset (c :: text)) : EncodesFrom bytes (offset + c.utf8Size) text := by
  unfold EncodesFrom at encodes ⊢
  rw [← List.drop_drop, encodes, bytesOf_cons]
  exact List.drop_left' (String.length_utf8EncodeChar c)

/-- Behind the bytes of the first part of a text are those of the other part. -/
theorem drop (encodes : EncodesFrom bytes offset (front ++ text)) :
    EncodesFrom bytes (offset + String.utf8Len front) text := by
  induction front generalizing offset with
  | nil => exact encodes
  | cons c front ih =>
    have hrest := ih encodes.next
    rwa [String.utf8Len_cons, Nat.add_comm (String.utf8Len front), ← Nat.add_assoc]

/-- The bytes of the next character, one by one. -/
theorem getElem (encodes : EncodesFrom bytes offset (c :: text)) {i : Nat}
    (hi : i < (String.utf8EncodeChar c).length) :
    ∃ h : offset + i < bytes.size, bytes[offset + i] = (String.utf8EncodeChar c)[i] := by
  have hget := congrArg (·[i]?) encodes
  simp only [List.getElem?_drop, bytesOf_cons, List.getElem?_append_left hi, List.getElem?_eq_getElem hi] at hget
  obtain ⟨h, heq⟩ := List.getElem?_eq_some_iff.mp hget
  rw [Array.length_toList] at h
  exact ⟨h, heq⟩

/-- Where a character is left, a byte is. -/
theorem lt (encodes : EncodesFrom bytes offset (c :: text)) : offset < bytes.size :=
  (encodes.getElem (String.length_utf8EncodeChar c ▸ c.utf8Size_pos)).1

/-- The bytes of a character come next exactly if the character does. -/
theorem encoded_iff (encodes : EncodesFrom bytes offset text) :
    String.utf8EncodeChar mark <+: bytes.data.toList.drop offset ↔ text.head? = some mark := by
  rw [← encoded_prefix_iff, ← encodes]

/-- The byte of a mark comes next exactly if the mark does. -/
theorem getElem?_eq_some_iff (encodes : EncodesFrom bytes offset text) (ascii : mark.utf8Size = 1) :
    bytes.data[offset]? = some mark.toUInt8 ↔ text.head? = some mark := by
  rw [← encodes.encoded_iff, encoded_of_ascii ascii, List.singleton_prefix_iff_head?_eq_some]
  simp

/-- The next byte looks like the next character. -/
theorem looksLike (encodes : EncodesFrom bytes offset (c :: text)) (h : offset < bytes.size) :
    LooksLike bytes[offset] c := by
  intro mark hmark
  rw [Bool.eq_iff_iff, beq_iff_eq, beq_iff_eq]
  have hiff := encodes.getElem?_eq_some_iff hmark
  rw [Array.getElem?_eq_getElem h, Option.some_inj, List.head?_cons, Option.some_inj] at hiff
  exact hiff

/-- A search that goes on at every byte inside a character goes on behind the character. -/
theorem skip {α : Type} (encodes : EncodesFrom bytes offset (c :: text)) (search : Nat → α)
    (pass : ∀ place (h : place < bytes.size), ¬ bytes[place].IsUTF8FirstByte → search place = search (place + 1)) :
    search (offset + 1) = search (offset + c.utf8Size) := by
  have hinside : ∀ i, 1 + i ≤ c.utf8Size → search (offset + 1) = search (offset + (1 + i)) := by
    intro i
    induction i with
    | zero => exact fun _ => rfl
    | succ i ih =>
      intro hi
      have hlength : 1 + i < (String.utf8EncodeChar c).length := by
        rw [String.length_utf8EncodeChar]
        omega
      obtain ⟨h, hget⟩ := encodes.getElem hlength
      rw [ih (by omega), pass _ h]
      · rfl
      · rw [hget, UInt8.isUTF8FirstByte_getElem_utf8EncodeChar]
        omega
  have hpos := c.utf8Size_pos
  rw [hinside (c.utf8Size - 1) (by omega), Nat.add_sub_cancel' hpos]

end EncodesFrom

end TypingsIndex.Text
