import Mathlib.Data.List.TakeWhile
import TypingsIndex.Text.Letter

/-!
# Trimming

A text without blanks at its ends is left as it is by every trim, and blanks at an end do not matter. No character
of an identifier is blank.
-/

set_option autoImplicit false

namespace TypingsIndex.Text

/-- A text of blanks only. -/
def Blanks (text : List Char) : Prop :=
  ∀ c ∈ text, isBlank c = true

/-- A text with no blank at either end. -/
structure Trimmed (text : List Char) : Prop where
  head : ∀ c, text.head? = some c → isBlank c = false
  last : ∀ c, text.getLast? = some c → isBlank c = false

variable {text blanks : List Char}

/-- Only blanks at the front are dropped. -/
theorem trimStart_eq_self (h : ∀ c, text.head? = some c → isBlank c = false) : trimStart text = text := by
  cases text with
  | nil => rfl
  | cons c rest => exact trimStart_cons_of_not_isBlank (h c rfl) rest

/-- Only blanks at the end are dropped. -/
theorem trimEnd_eq_self (h : ∀ c, text.getLast? = some c → isBlank c = false) : trimEnd text = text := by
  unfold trimEnd
  rw [trimStart_eq_self, List.reverse_reverse]
  intro c hc
  rw [List.head?_reverse] at hc
  exact h c hc

/-- A trimmed text is left as it is. -/
theorem Trimmed.trim_eq (h : Trimmed text) : trim text = text := by
  unfold trim
  rw [trimStart_eq_self h.head, trimEnd_eq_self h.last]

/-- A trimmed text is left as it is. -/
theorem Trimmed.trimEnd_eq (h : Trimmed text) : trimEnd text = text :=
  trimEnd_eq_self h.last

/-- A text without blanks is trimmed. -/
theorem trimmed_of_forall (h : ∀ c ∈ text, isBlank c = false) : Trimmed text :=
  ⟨fun c hc => h c (List.mem_of_mem_head? hc), fun c hc => h c (List.mem_of_getLast? hc)⟩

/-- A trimmed text that is not empty is not blank. -/
theorem Trimmed.not_blanks (h : Trimmed text) (nonempty : text ≠ []) : ¬ Blanks text := by
  intro hblanks
  obtain ⟨c, rest, rfl⟩ := List.exists_cons_of_ne_nil nonempty
  have hblank := hblanks c List.mem_cons_self
  rw [h.head c rfl] at hblank
  cases hblank

/-- Trimmed texts one after the other are trimmed. -/
theorem Trimmed.append {more : List Char} (first : Trimmed text) (second : Trimmed more) :
    Trimmed (text ++ more) where
  head c hc := by
    rw [List.head?_append, Option.or_eq_some_iff] at hc
    rcases hc with hc | ⟨-, hc⟩
    · exact first.head c hc
    · exact second.head c hc
  last c hc := by
    rw [List.getLast?_append, Option.or_eq_some_iff] at hc
    rcases hc with hc | ⟨-, hc⟩
    · exact second.last c hc
    · exact first.last c hc

/-- Blanks at the end do not matter. -/
theorem trimEnd_append_blanks (h : Blanks blanks) : trimEnd (text ++ blanks) = trimEnd text := by
  unfold trimEnd trimStart
  rw [List.reverse_append, List.dropWhile_append_of_pos]
  intro c hc
  exact h c (List.mem_reverse.mp hc)

/-- A text is what is left of it when its end is trimmed, and blanks. -/
theorem exists_trimEnd_append (text : List Char) : ∃ blanks, Blanks blanks ∧ text = trimEnd text ++ blanks := by
  refine ⟨(text.reverse.takeWhile isBlank).reverse, fun c hc => ?_, ?_⟩
  · exact List.mem_takeWhile_imp (List.mem_reverse.mp hc)
  · unfold trimEnd trimStart
    rw [← List.reverse_append, List.takeWhile_append_dropWhile, List.reverse_reverse]

/-- What is left when an end is trimmed has no blank there. -/
theorem getLast?_trimEnd {c : Char} (h : (trimEnd text).getLast? = some c) : isBlank c = false := by
  unfold trimEnd trimStart at h
  rw [List.getLast?_reverse] at h
  have hhead := List.head?_dropWhile_not isBlank text.reverse
  rw [h] at hhead
  simpa using hhead

/-- What is left when a text is trimmed is trimmed. -/
theorem trimmed_trim (text : List Char) : Trimmed (trim text) := by
  refine ⟨fun c hc => ?_, fun c hc => getLast?_trimEnd hc⟩
  unfold trim at hc
  obtain ⟨blanks, -, heq⟩ := exists_trimEnd_append (trimStart text)
  have hhead : (trimStart text).head? = some c := by
    rw [heq, List.head?_append, hc]
    rfl
  unfold trimStart at hhead
  have hnot := List.head?_dropWhile_not isBlank text
  rw [hhead] at hnot
  simpa using hnot

/-- A trimmed text whose end is cut off and trimmed again is trimmed. -/
theorem Trimmed.trimEnd_of_prefix {front : List Char} (h : Trimmed text) (cut : front <+: text) :
    Trimmed (trimEnd front) := by
  refine ⟨fun c hc => h.head c ?_, fun c hc => getLast?_trimEnd hc⟩
  obtain ⟨blanks, -, heq⟩ := exists_trimEnd_append front
  obtain ⟨back, rfl⟩ := cut
  rw [heq, List.append_assoc, List.head?_append, hc]
  rfl

/-- Trimming makes no text longer. -/
theorem trim_length_le (text : List Char) : (trim text).length ≤ text.length :=
  calc (trim text).length ≤ (trimStart text).length := trimEnd_length_le (trimStart text)
    _ ≤ text.length := trimStart_length_le text

/-- What ends with no blank stays when it comes after a text that is not blank. -/
theorem trim_append {more : List Char} {c : Char} (filled : ¬ Blanks text) (last : more.getLast? = some c)
    (h : isBlank c = false) : trim (text ++ more) = trimStart text ++ more := by
  have hleft : (text.dropWhile isBlank).isEmpty = false := by
    rw [List.isEmpty_eq_false_iff, ne_eq, List.dropWhile_eq_nil_iff]
    exact filled
  unfold trim trimStart
  rw [List.dropWhile_append, hleft, if_neg Bool.false_ne_true]
  refine trimEnd_eq_self fun d hd => ?_
  rw [List.getLast?_append, last, Option.some_or] at hd
  exact Option.some.inj hd ▸ h

/-- Whether a text is trimmed can be checked. -/
instance : Decidable (Trimmed text) :=
  decidable_of_iff (trim text = text) ⟨fun h => h ▸ trimmed_trim text, Trimmed.trim_eq⟩

/-- A text that starts with no blank still starts so when it is trimmed. -/
theorem head?_trim {c : Char} (h : isBlank c = false) : (trim (c :: text)).head? = some c := by
  unfold trim
  rw [trimStart_cons_of_not_isBlank h]
  obtain ⟨blanks, hblanks, heq⟩ := exists_trimEnd_append (c :: text)
  cases htrim : trimEnd (c :: text) with
  | nil =>
    rw [htrim, List.nil_append] at heq
    have hblank := hblanks c (heq ▸ List.mem_cons_self)
    rw [h] at hblank
    cases hblank
  | cons d rest =>
    rw [htrim, List.cons_append] at heq
    rw [(List.cons.inj heq).1]
    rfl

/-! ## Identifiers -/

/-- The blank characters, one by one. -/
def blankCharacters : List Char :=
  [9, 10, 11, 12, 13, 0x20, 0x85, 0xA0, 0x1680, 0x2000, 0x2001, 0x2002, 0x2003, 0x2004, 0x2005, 0x2006,
    0x2007, 0x2008, 0x2009, 0x200A, 0x2028, 0x2029, 0x202F, 0x205F, 0x3000].map Char.ofNat

/-- A blank is one of the blank characters. -/
theorem mem_blankCharacters {c : Char} (h : isBlank c = true) : c ∈ blankCharacters := by
  unfold blankCharacters
  rw [List.mem_map]
  refine ⟨c.toNat, ?_, Char.ofNat_toNat c⟩
  simp only [isBlank, inRanges, blankRanges, List.any_cons, List.any_nil, Bool.or_false, Bool.or_eq_true,
    Bool.and_eq_true, decide_eq_true_eq] at h
  simp only [List.mem_cons, List.not_mem_nil, or_false]
  omega

/-- No character of an identifier is blank. -/
theorem isBlank_of_continuesIdentifier {c : Char} (h : continuesIdentifier c = true) :
    isBlank c = false := by
  rw [← Bool.not_eq_true]
  intro hblank
  have hnone : blankCharacters.all (fun blank => !continuesIdentifier blank) = true := by
    decide +kernel
  have hother := List.all_eq_true.mp hnone c (mem_blankCharacters hblank)
  rw [h] at hother
  cases hother

end TypingsIndex.Text
