import TypingsIndex.Json.Draft
import TypingsIndex.Json.Printer

/-!
# Strings in JSON

Reading a quoted text gives the text, whatever its characters are: each escape is read back as the code of the
character that it stands for, and no character of a text is half of a surrogate pair.
-/

set_option autoImplicit false

namespace TypingsIndex.Json

variable {c : Char} {rest : List Char}

/-- The hexadecimal escape of a character below U+0020. -/
theorem hexCode?_low (h : c.toNat < 0x20) :
    Text.hexCode? '0' '0' (Text.hexDigit (c.toNat / 16)) (Text.hexDigit (c.toNat % 16)) = some c.toNat := by
  have hzero : Text.hexValue? '0' = some 0 := by decide
  unfold Text.hexCode?
  rw [hzero, Text.hexValue?_hexDigit _ (by omega), Text.hexValue?_hexDigit _ (by omega)]
  change some _ = some _
  congr 1
  omega

/-- The escapes of one letter, with the characters that they stand for. -/
def shortEscapes : List (Char × Char) :=
  [('"', '"'), ('\\', '\\'), ('b', '\x08'), ('t', '\t'), ('n', '\n'), ('f', '\x0c'), ('r', '\r')]

/-- A short escape is read as the character that it stands for. -/
theorem units?_short {letter : Char} (h : (letter, c) ∈ shortEscapes) :
    units? ('\\' :: letter :: rest) = (units? rest).map fun (units, rest) => (c.toNat :: units, rest) := by
  simp only [shortEscapes, List.mem_cons, List.not_mem_nil, or_false, Prod.mk.injEq] at h
  rcases h with ⟨rfl, rfl⟩ | ⟨rfl, rfl⟩ | ⟨rfl, rfl⟩ | ⟨rfl, rfl⟩ | ⟨rfl, rfl⟩ | ⟨rfl, rfl⟩ | ⟨rfl, rfl⟩
  all_goals
    rw [units?]
    cases units? rest <;> rfl

/-- An escape of four hexadecimal digits is read as the control character that it was written for. -/
theorem units?_hexadecimal (low : c.toNat < 0x20) :
    units? ('\\' :: 'u' :: '0' :: '0' :: Text.hexDigit (c.toNat / 16) :: Text.hexDigit (c.toNat % 16) :: rest) =
      (units? rest).map fun (units, rest) => (c.toNat :: units, rest) := by
  rw [units?, hexCode?_low low]
  cases units? rest <;> rfl

/-- A character that needs no escape is read as itself. -/
theorem units?_plain (quote : c ≠ '"') (backslash : c ≠ '\\') (high : ¬ c.toNat < 0x20) :
    units? (c :: rest) = (units? rest).map fun (units, rest) => (c.toNat :: units, rest) := by
  rw [units?]
  · rw [if_neg]
    rintro (h | h)
    · exact backslash h
    · exact high h
  · exact quote
  · intro a b c d more h
    exact absurd h backslash
  · intro d more h
    exact absurd h backslash

/-- An escaped character is read as its code. -/
theorem units?_escape (c : Char) (rest : List Char) :
    units? (escape c ++ rest) = (units? rest).map fun (units, rest) => (c.toNat :: units, rest) := by
  have hshort : ∀ {letter meaning}, c = meaning → (letter, meaning) ∈ shortEscapes →
      units? (['\\', letter] ++ rest) = (units? rest).map fun (units, rest) => (c.toNat :: units, rest) := by
    rintro letter meaning rfl hmem
    exact units?_short hmem
  unfold escape
  split
  · next h => exact hshort h (by decide)
  split
  · next h => exact hshort h (by decide)
  split
  · next h => exact hshort h (by decide)
  split
  · next h => exact hshort h (by decide)
  split
  · next h => exact hshort h (by decide)
  split
  · next h => exact hshort h (by decide)
  split
  · next h => exact hshort h (by decide)
  split
  · next hlow => exact units?_hexadecimal hlow
  · next hquote hbackslash _ _ _ _ _ hhigh => exact units?_plain hquote hbackslash hhigh

/-- The units of a text are read back from its escaped characters, up to the quote. -/
theorem units?_quoted (text rest : List Char) :
    units? (text.flatMap escape ++ '"' :: rest) = some (text.map Char.toNat, rest) := by
  induction text with
  | nil => rfl
  | cons c text ih =>
    rw [List.flatMap_cons, List.append_assoc, units?_escape, ih]
    rfl

/-- No character is half of a surrogate pair. -/
theorem not_surrogate (c : Char) : isHighSurrogate c.toNat = false ∧ isLowSurrogate c.toNat = false := by
  have hvalid : c.toNat < 0xD800 ∨ 0xDFFF < c.toNat ∧ c.toNat < 0x110000 := c.valid
  unfold isHighSurrogate isLowSurrogate
  simp only [Bool.and_eq_false_iff, decide_eq_false_iff_not]
  omega

/-- The code points of a text, as units, make up the text. -/
theorem textOfUnits?_toNat (text : List Char) : textOfUnits? (text.map Char.toNat) = some text := by
  induction text with
  | nil => rfl
  | cons c text ih =>
    obtain ⟨hhigh, hlow⟩ := not_surrogate c
    cases text with
    | nil =>
      simp only [List.map_cons, List.map_nil]
      unfold textOfUnits?
      rw [hhigh, hlow]
      simp
    | cons d text =>
      simp only [List.map_cons] at ih ⊢
      unfold textOfUnits?
      rw [hhigh, hlow, ih]
      simp

/-- A quoted text is read as the text. -/
theorem string?_quoted (text : String) (rest : List Char) :
    string? (text.toList.flatMap escape ++ '"' :: rest) = some (some text, rest) := by
  unfold string?
  rw [units?_quoted, Option.map_some]
  dsimp only
  rw [textOfUnits?_toNat, Option.map_some, String.ofList_toList]

end TypingsIndex.Json
