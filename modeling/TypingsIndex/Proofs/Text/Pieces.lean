import Mathlib.Data.List.Basic
import TypingsIndex.Text.Basic

/-!
# Pieces between separators

Splitting a text at a separator and putting separators between the pieces undo each other: pieces without separators
come back from the text that they make (`splitAt_intercalate`), and a text comes back from its pieces
(`intercalate_splitAt`).
-/

set_option autoImplicit false

namespace TypingsIndex.Text

/-- A separator at the front ends an empty piece. -/
theorem splitAt_cons_self (separator : Char) (text : List Char) :
    splitAt separator (separator :: text) = [] :: splitAt separator text := by
  simp [splitAt]

/-- Any other character in front of a text is put in front of its first piece. -/
theorem splitAt_cons_of_ne {separator c : Char} {text piece : List Char} {others : List (List Char)}
    (h : c ≠ separator) (pieces : splitAt separator text = piece :: others) :
    splitAt separator (c :: text) = (c :: piece) :: others := by
  unfold splitAt
  rw [if_neg h, pieces]

/-- A text without separators is one piece. -/
theorem splitAt_of_not_mem {separator : Char} {text : List Char} (h : separator ∉ text) :
    splitAt separator text = [text] := by
  induction text with
  | nil => rfl
  | cons c rest ih =>
    rw [List.mem_cons, not_or] at h
    unfold splitAt
    rw [if_neg (Ne.symm h.1), ih h.2]

/-- The pieces of two texts with a separator between them are those of the one and then those of the
other. -/
theorem splitAt_append_cons (separator : Char) (front back : List Char) :
    splitAt separator (front ++ separator :: back) =
      splitAt separator front ++ splitAt separator back := by
  induction front with
  | nil => rw [List.nil_append, splitAt_cons_self]; rfl
  | cons c rest ih =>
    simp only [List.cons_append, splitAt, ih]
    by_cases hc : c = separator
    · rw [if_pos hc, if_pos hc, List.cons_append]
    · rw [if_neg hc, if_neg hc]
      cases hpieces : splitAt separator rest with
      | nil => exact absurd hpieces (splitAt_ne_nil separator rest)
      | cons piece others => rfl

/-- Only the empty text is one empty piece. -/
theorem eq_nil_of_splitAt {separator : Char} {text : List Char} (h : splitAt separator text = [[]]) :
    text = [] := by
  cases text with
  | nil => rfl
  | cons c rest =>
    unfold splitAt at h
    split at h
    · exact absurd (List.cons.inj h).2 (splitAt_ne_nil separator rest)
    · split at h <;> simp at h

/-- Pieces without separators are what their text with separators between them is split into. -/
theorem splitAt_intercalate {separator : Char} {pieces : List (List Char)} (nonempty : pieces ≠ [])
    (h : ∀ piece ∈ pieces, separator ∉ piece) :
    splitAt separator ([separator].intercalate pieces) = pieces := by
  induction pieces with
  | nil => exact absurd rfl nonempty
  | cons piece rest ih =>
    have hpiece := splitAt_of_not_mem (h piece List.mem_cons_self)
    cases rest with
    | nil =>
      rw [List.intercalate_singleton]
      exact hpiece
    | cons next others =>
      have hrest := ih (List.cons_ne_nil next others) fun other hother =>
        h other (List.mem_cons_of_mem piece hother)
      rw [List.intercalate_cons_cons, List.append_assoc, List.singleton_append,
        splitAt_append_cons, hpiece, hrest]
      rfl

/-- The last of several texts ends what they make together. -/
theorem suffix_intercalate {separator last : List Char} {texts : List (List Char)}
    (h : texts.getLast? = some last) : last <:+ separator.intercalate texts := by
  induction texts with
  | nil => cases h
  | cons text rest ih =>
    cases rest with
    | nil =>
      cases h
      simp [List.intercalate]
    | cons next others =>
      have hrest := ih (by simpa using h)
      rw [List.intercalate_cons_cons]
      exact hrest.trans (List.suffix_append _ _)

/-- There is one piece more than there are separators. -/
theorem length_splitAt (separator : Char) (text : List Char) :
    (splitAt separator text).length = text.count separator + 1 := by
  induction text with
  | nil => rfl
  | cons c rest ih =>
    by_cases hc : c = separator
    · rw [hc, splitAt_cons_self, List.length_cons, ih, List.count_cons_self]
    · obtain ⟨piece, others, hpieces⟩ := List.exists_cons_of_ne_nil (splitAt_ne_nil separator rest)
      rw [hpieces] at ih
      rw [splitAt_cons_of_ne hc hpieces, List.count_cons_of_ne hc]
      exact ih

/-- The pieces of a text with the separators between them are the text. -/
theorem intercalate_splitAt (separator : Char) (text : List Char) :
    [separator].intercalate (splitAt separator text) = text := by
  induction text with
  | nil => rfl
  | cons c rest ih =>
    obtain ⟨piece, others, hpieces⟩ := List.exists_cons_of_ne_nil (splitAt_ne_nil separator rest)
    rw [hpieces] at ih
    unfold splitAt
    rw [hpieces]
    split
    · next hseparator =>
      rw [List.intercalate_cons_cons, ih, hseparator]
      rfl
    · cases others with
      | nil =>
        rw [List.intercalate_singleton] at ih ⊢
        rw [ih]
      | cons next others =>
        rw [List.intercalate_cons_cons] at ih ⊢
        rw [List.cons_append, List.cons_append, ih]

/-- No piece of a text has a separator in it. -/
theorem not_mem_of_mem_splitAt {separator : Char} {text piece : List Char} (h : piece ∈ splitAt separator text) :
    separator ∉ piece := by
  induction text generalizing piece with
  | nil =>
    rw [List.mem_singleton.mp h]
    exact List.not_mem_nil
  | cons c rest ih =>
    obtain ⟨first, others, hpieces⟩ := List.exists_cons_of_ne_nil (splitAt_ne_nil separator rest)
    rw [hpieces, List.forall_mem_cons] at ih
    unfold splitAt at h
    rw [hpieces] at h
    split at h
    · rcases List.mem_cons.mp h with rfl | hother
      · exact List.not_mem_nil
      · rcases List.mem_cons.mp hother with rfl | hlater
        · exact ih.1
        · exact ih.2 piece hlater
    · next hseparator =>
      rcases List.mem_cons.mp h with rfl | hother
      · exact fun hmem => (List.mem_cons.mp hmem).elim (fun heq => hseparator heq.symm) ih.1
      · exact ih.2 piece hother

/-- A text whose first piece is empty and not the only one starts with the separator. -/
theorem eq_cons_of_splitAt {separator : Char} {text piece : List Char} {others : List (List Char)}
    (h : splitAt separator text = [] :: piece :: others) : ∃ rest, text = separator :: rest := by
  have htext := intercalate_splitAt separator text
  rw [h, List.intercalate_cons_cons] at htext
  exact ⟨_, htext.symm⟩

/-- Fewer pieces make a part of the text. -/
theorem intercalate_sublist {separator : List Char} {pieces others : List (List Char)} (h : pieces.Sublist others) :
    (separator.intercalate pieces).Sublist (separator.intercalate others) := by
  induction h with
  | slnil => exact List.Sublist.refl _
  | @cons pieces others piece h ih =>
    cases others with
    | nil =>
      rw [List.sublist_nil.mp h]
      exact List.nil_sublist _
    | cons next rest =>
      rw [List.intercalate_cons_cons]
      exact ih.trans (List.sublist_append_right _ _)
  | @cons_cons pieces others piece h ih =>
    cases others with
    | nil =>
      rw [List.sublist_nil.mp h]
    | cons next rest =>
      cases pieces with
      | nil =>
        rw [List.intercalate_cons_cons, List.intercalate_singleton, List.append_assoc]
        exact List.sublist_append_left _ _
      | cons first more =>
        rw [List.intercalate_cons_cons, List.intercalate_cons_cons]
        exact List.Sublist.append (List.Sublist.refl _) ih

/-! ## Behind the last separator -/

/-- A text without the separator is all behind the last one. -/
theorem afterLast_of_not_mem {separator : Char} {text : List Char} (h : separator ∉ text) :
    afterLast separator text = text := by
  unfold afterLast
  rw [splitAt_of_not_mem h]
  rfl

/-- What comes behind the last separator. -/
theorem afterLast_append_cons {separator : Char} {back : List Char} (h : separator ∉ back) (front : List Char) :
    afterLast separator (front ++ separator :: back) = back := by
  unfold afterLast
  rw [splitAt_append_cons, splitAt_of_not_mem h, List.getLastD_concat]

/-- A text is what is behind its last separator, with that separator and more before it if there is one. -/
theorem eq_or_append_afterLast (separator : Char) (text : List Char) :
    separator ∉ afterLast separator text
      ∧ (text = afterLast separator text ∨ ∃ front, text = front ++ separator :: afterLast separator text) := by
  by_cases hmem : separator ∈ text
  · obtain ⟨back, front, hreverse, hback⟩ := List.eq_append_cons_of_mem (List.mem_reverse.mpr hmem)
    have htext : text = front.reverse ++ separator :: back.reverse := by
      rw [← List.reverse_reverse text, hreverse, List.reverse_append, List.reverse_cons, List.append_assoc]
      rfl
    have hclean : separator ∉ back.reverse := fun hin => hback (List.mem_reverse.mp hin)
    rw [htext, afterLast_append_cons hclean]
    exact ⟨hclean, .inr ⟨front.reverse, rfl⟩⟩
  · rw [afterLast_of_not_mem hmem]
    exact ⟨hmem, .inl rfl⟩

end TypingsIndex.Text
