import TypingsIndex.Proofs.Module.LineByLine

/-!
# Lines that show a piece

A line of a text shows a piece if the piece stands in the text with as many line feeds before it as there are lines
before that line, and with none in it. What stands between the line feeds then tells which lines show a piece
(`shown_iff_splitAt`), and so do the lines of the text, since a piece with something other than a blank at its end does
not reach into the end of a line (`shown_iff_lines`).
-/

set_option autoImplicit false

namespace TypingsIndex.Text

variable {text piece before line padded front back : List Char} {number index : Nat}

/-- The number of the line that begins or goes on behind a text, counted from one. -/
def lineBehind (before : List Char) : Nat :=
  before.count '\n' + 1

/-- A piece stands on a line of a text. -/
def Shown (text : List Char) (number : Nat) (piece : List Char) : Prop :=
  '\n' ∉ piece ∧ ∃ before after, text = before ++ (piece ++ after) ∧ lineBehind before = number

/-- A line is the first on which a piece stands. -/
structure FirstShown (text : List Char) (number : Nat) (piece : List Char) : Prop where
  shown : Shown text number piece
  not_earlier : ∀ earlier < number, ¬ Shown text earlier piece

/-- A text without line feeds leaves off on the first line. -/
theorem lineBehind_eq_one (h : '\n' ∉ before) : lineBehind before = 1 := by
  unfold lineBehind
  rw [List.count_eq_zero_of_not_mem h]

/-- A line in front moves the line on which a text leaves off by one. -/
theorem lineBehind_append_cons (clean : '\n' ∉ front) (before : List Char) :
    lineBehind (front ++ '\n' :: before) = lineBehind before + 1 := by
  unfold lineBehind
  rw [List.count_append, List.count_cons_self, List.count_eq_zero_of_not_mem clean, Nat.zero_add]

/-- A text of one line shows on the first line what occurs in it. -/
theorem shown_of_infix (clean : '\n' ∉ text) (h : piece <:+: text) : Shown text 1 piece := by
  obtain ⟨before, after, rfl⟩ := h
  rw [List.append_assoc] at clean ⊢
  have hbefore : '\n' ∉ before := fun hmem => clean (List.mem_append_left _ hmem)
  have hpiece : '\n' ∉ piece := fun hmem => clean (List.mem_append_right _ (List.mem_append_left _ hmem))
  exact ⟨hpiece, before, after, rfl, lineBehind_eq_one hbefore⟩

/-- In a text of one line only that line can show something. -/
theorem shown_of_not_mem (clean : '\n' ∉ text) : Shown text number piece ↔ number = 1 ∧ piece <:+: text := by
  constructor
  · rintro ⟨-, before, after, rfl, rfl⟩
    have hbefore : '\n' ∉ before := fun hmem => clean (List.mem_append_left _ hmem)
    exact ⟨lineBehind_eq_one hbefore, before, after, List.append_assoc _ _ _⟩
  · rintro ⟨rfl, h⟩
    exact shown_of_infix clean h

/-- A text of several lines shows a piece on its first line or on one of the others. -/
theorem shown_append_cons (clean : '\n' ∉ front) :
    Shown (front ++ '\n' :: back) number piece ↔
      number = 1 ∧ piece <:+: front ∨ ∃ later, number = later + 1 ∧ Shown back later piece := by
  constructor
  · rintro ⟨hpiece, before, after, htext, hnumber⟩
    rcases List.append_eq_append_iff.mp htext with ⟨left, hbefore, hback⟩ | ⟨left, hfront, hrest⟩
    · -- the piece begins behind the first line, or right at its end
      cases left with
      | nil =>
        rw [List.append_nil] at hbefore
        cases piece with
        | nil =>
          left
          rw [← hnumber, hbefore]
          exact ⟨lineBehind_eq_one clean, List.nil_infix⟩
        | cons c piece =>
          have hc : '\n' = c := (List.cons.inj hback).1
          exact absurd (hc ▸ List.mem_cons_self) hpiece
      | cons c left =>
        obtain ⟨rfl, hrest⟩ := List.cons.inj hback
        right
        refine ⟨lineBehind left, ?_, hpiece, left, after, hrest, rfl⟩
        rw [← hnumber, hbefore, lineBehind_append_cons clean]
    · -- it begins on the first line, and does not reach over the line feed
      left
      have hbefore : '\n' ∉ before := fun hmem => clean (hfront ▸ List.mem_append_left _ hmem)
      refine ⟨hnumber ▸ lineBehind_eq_one hbefore, ?_⟩
      rcases List.append_eq_append_iff.mp hrest with ⟨more, hleft, -⟩ | ⟨more, hpart, hmore⟩
      · exact ⟨before, more, by rw [hfront, hleft, List.append_assoc]⟩
      · cases more with
        | nil =>
          rw [List.append_nil] at hpart
          exact ⟨before, [], by rw [hfront, hpart, List.append_nil]⟩
        | cons c more =>
          have hc : '\n' = c := (List.cons.inj hmore).1
          have hmem : c ∈ piece := by
            rw [hpart]
            exact List.mem_append_right _ List.mem_cons_self
          exact absurd (hc ▸ hmem) hpiece
  · rintro (⟨rfl, h⟩ | ⟨later, rfl, hpiece, before, after, rfl, rfl⟩)
    · obtain ⟨hpiece, before, after, hfront, hnumber⟩ := shown_of_infix clean h
      refine ⟨hpiece, before, after ++ '\n' :: back, ?_, hnumber⟩
      rw [hfront, List.append_assoc, List.append_assoc]
    · refine ⟨hpiece, front ++ '\n' :: before, after, ?_, lineBehind_append_cons clean before⟩
      rw [List.append_assoc, List.cons_append]

/-- The piece between two line feeds is what shows a piece. -/
theorem shown_iff_splitAt :
    Shown text number piece ↔
      ∃ index, number = index + 1 ∧ ∃ line, (splitAt '\n' text)[index]? = some line ∧ piece <:+: line := by
  -- on the text from one line feed to the next
  induction hlength : text.length using Nat.strongRecOn generalizing text number with
  | ind length ih =>
    by_cases hmem : '\n' ∈ text
    · obtain ⟨front, back, rfl, hfront⟩ := List.eq_append_cons_of_mem hmem
      have hshorter : back.length < length := by
        rw [← hlength, List.length_append, List.length_cons]
        omega
      rw [shown_append_cons hfront, splitAt_append_cons, splitAt_of_not_mem hfront]
      constructor
      · rintro (⟨rfl, h⟩ | ⟨later, rfl, h⟩)
        · exact ⟨0, rfl, front, rfl, h⟩
        · obtain ⟨index, rfl, line, hline, h⟩ := (ih _ hshorter rfl).mp h
          exact ⟨index + 1, rfl, line, hline, h⟩
      · rintro ⟨index, rfl, line, hline, h⟩
        cases index with
        | zero =>
          cases hline
          exact .inl ⟨rfl, h⟩
        | succ index => exact .inr ⟨index + 1, rfl, (ih _ hshorter rfl).mpr ⟨index, rfl, line, hline, h⟩⟩
    · rw [shown_of_not_mem hmem, splitAt_of_not_mem hmem]
      constructor
      · rintro ⟨rfl, h⟩
        exact ⟨0, rfl, text, rfl, h⟩
      · rintro ⟨index, rfl, line, hline, h⟩
        cases index with
        | zero =>
          cases hline
          exact ⟨rfl, h⟩
        | succ index => cases hline

/-- A piece that ends with no blank stands in a line exactly if it stands in the line with blanks behind it. -/
theorem Padded.infix_iff (h : Padded line padded) {c : Char} (last : piece.getLast? = some c)
    (visible : isBlank c = false) : piece <:+: padded ↔ piece <:+: line := by
  obtain ⟨blanks, hblanks, rfl⟩ := h
  constructor
  · rintro ⟨before, after, hpadded⟩
    rcases List.append_eq_append_iff.mp hpadded with ⟨more, hline, -⟩ | ⟨more, hfront, hmore⟩
    · exact ⟨before, more, hline.symm⟩
    · -- what of the piece is behind the line ends with its last character, so that there is nothing
      have hnone : more = [] := by
        by_contra hsome
        have hlast : (before ++ piece).getLast? = some c := List.mem_getLast?_append_of_mem_getLast? last
        rw [hfront, List.getLast?_append_of_ne_nil _ hsome] at hlast
        have hblank := hblanks c (hmore ▸ List.mem_append_left _ (List.mem_of_getLast? hlast))
        rw [visible] at hblank
        cases hblank
      rw [hnone, List.append_nil] at hfront
      exact ⟨before, [], by rw [hfront, List.append_nil]⟩
  · exact fun hwithin => hwithin.trans (List.prefix_append _ _).isInfix

/-- Lines with blanks behind them show what the lines show. -/
theorem shows_padded {lines others : List (List Char)} (h : List.Forall₂ Padded lines others) {c : Char}
    (last : piece.getLast? = some c) (visible : isBlank c = false) :
    (∃ padded, others[index]? = some padded ∧ piece <:+: padded) ↔
      ∃ line, lines[index]? = some line ∧ piece <:+: line := by
  induction h generalizing index with
  | nil => exact Iff.rfl
  | cons hpadded _ ih =>
    cases index with
    | zero =>
      simp only [List.getElem?_cons_zero, Option.some.injEq, exists_eq_left']
      exact hpadded.infix_iff last visible
    | succ index => exact ih

/-- The lines of a text are what shows a piece that ends with no blank. -/
theorem shown_iff_lines {c : Char} (last : piece.getLast? = some c) (visible : isBlank c = false) :
    Shown text number piece ↔
      ∃ index, number = index + 1 ∧ ∃ line, (lines text)[index]? = some line ∧ piece <:+: line := by
  obtain ⟨extra, hextra, hpadded⟩ := padded_lines text
  rw [shown_iff_splitAt]
  refine exists_congr fun index => and_congr_right fun _ => ?_
  rw [shows_padded hpadded last visible]
  refine exists_congr fun line => and_congr_left fun hwithin => ?_
  by_cases hindex : index < (lines text).length
  · rw [List.getElem?_append_left hindex]
  · -- an empty line behind the last line feed shows nothing
    have hbeyond : (lines text).length ≤ index := Nat.le_of_not_lt hindex
    rw [List.getElem?_append_right hbeyond, List.getElem?_eq_none hbeyond]
    refine iff_of_false (fun hline => ?_) (Option.some_ne_none line ∘ Eq.symm)
    have hempty : line = [] := by
      have hmem := List.mem_of_getElem? hline
      rcases hextra with rfl | rfl
      · cases hmem
      · exact List.mem_singleton.mp hmem
    rw [hempty, List.infix_nil] at hwithin
    rw [hwithin] at last
    cases last

/-! ## The first line -/

/-- A piece that stands on a line stands on a first one. -/
theorem Shown.exists_first (h : Shown text number piece) : ∃ first ≤ number, FirstShown text first piece := by
  induction number using Nat.strongRecOn with
  | ind number ih =>
    by_cases hearlier : ∃ earlier < number, Shown text earlier piece
    · obtain ⟨earlier, hless, hshown⟩ := hearlier
      obtain ⟨first, hfirst, hstands⟩ := ih earlier hless hshown
      exact ⟨first, hfirst.trans hless.le, hstands⟩
    · exact ⟨number, le_rfl, h, fun earlier hless hshown => hearlier ⟨earlier, hless, hshown⟩⟩

/-- There is one first line that shows a piece. -/
theorem FirstShown.unique {other : Nat} (h : FirstShown text number piece) (another : FirstShown text other piece) :
    number = other := by
  rcases Nat.lt_trichotomy number other with hless | heq | hmore
  · exact absurd h.shown (another.not_earlier number hless)
  · exact heq
  · exact absurd another.shown (h.not_earlier other hmore)

/-- Going through the lines of a text finds the first that shows a piece. -/
theorem findIdx?_lines_iff {shows : List Char → Bool} (showing : ∀ line, shows line = true ↔ piece <:+: line) {c : Char}
    (last : piece.getLast? = some c) (visible : isBlank c = false) :
    ((lines text).findIdx? shows).map (· + 1) = some number ↔ FirstShown text number piece := by
  have hfound : ∀ index, (lines text).findIdx? shows = some index → FirstShown text (index + 1) piece := by
    intro index hindex
    obtain ⟨hbound, hshows, hearlier⟩ := List.findIdx?_eq_some_iff_getElem.mp hindex
    have hline := List.getElem?_eq_getElem hbound
    refine ⟨(shown_iff_lines last visible).mpr ⟨index, rfl, _, hline, (showing _).mp hshows⟩, ?_⟩
    intro earlier hless hshown
    obtain ⟨before, rfl, line, hline, hwithin⟩ := (shown_iff_lines last visible).mp hshown
    obtain ⟨_, rfl⟩ := List.getElem?_eq_some_iff.mp hline
    exact hearlier before (Nat.lt_of_succ_lt_succ hless) ((showing _).mpr hwithin)
  constructor
  · intro h
    obtain ⟨index, hindex, rfl⟩ := Option.map_eq_some_iff.mp h
    exact hfound index hindex
  · intro h
    obtain ⟨before, rfl, line, hline, hwithin⟩ := (shown_iff_lines last visible).mp h.shown
    cases hindex : (lines text).findIdx? shows with
    | none =>
      have hnot := List.findIdx?_eq_none_iff.mp hindex line (List.mem_of_getElem? hline)
      rw [(showing line).mpr hwithin] at hnot
      cases hnot
    | some index =>
      rw [Option.map_some, (hfound index hindex).unique h]

end TypingsIndex.Text
