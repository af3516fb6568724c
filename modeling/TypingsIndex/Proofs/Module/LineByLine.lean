import Mathlib.Data.List.Forall2
import Mathlib.Data.List.ReduceOption
import TypingsIndex.Module.Content
import TypingsIndex.Proofs.Text.Pieces
import TypingsIndex.Proofs.Text.Trim

/-!
# Files read line by line

The text of a file is read as if it were cut at every line feed: blanks at the end of a line do not count, so that a
carriage return there does not either, and an empty last line declares nothing (`parseText_eq`). What comes of a text
is therefore the functions of its lines in order, or the fault of the first bad line with its number; and two texts
with a line feed between them are read one after the other, the lines of the second counting on from those of the
first (`functionsOf_line_by_line`).
-/

set_option autoImplicit false

namespace TypingsIndex

open Text

namespace Text

/-! ## Ends of lines -/

/-- A line, and the same with blanks at its end. -/
def Padded (line padded : List Char) : Prop :=
  ∃ blanks, Blanks blanks ∧ padded = line ++ blanks

/-- A line is padded with no carriage return at all. -/
theorem Padded.refl (line : List Char) : Padded line line :=
  ⟨[], fun _ h => absurd h List.not_mem_nil, (List.append_nil line).symm⟩

/-- A character at the front leaves the padding as it is. -/
theorem Padded.cons {line padded : List Char} (h : Padded line padded) (c : Char) :
    Padded (c :: line) (c :: padded) := by
  obtain ⟨blanks, hblanks, rfl⟩ := h
  exact ⟨blanks, hblanks, rfl⟩

/-- A carriage return is a blank. -/
theorem padded_carriageReturn : Padded [] ['\r'] :=
  ⟨['\r'], by simp only [Blanks, List.mem_singleton, forall_eq]; decide, rfl⟩

/-- What stands between the line feeds of a text are its lines, with the carriage returns at their ends, and an empty
line if the text ends with a line. -/
theorem padded_lines (text : List Char) :
    ∃ last, (last = [] ∨ last = [[]]) ∧ List.Forall₂ Padded (lines text ++ last) (splitAt '\n' text) := by
  fun_induction lines text with
  | case1 => exact ⟨[[]], .inr rfl, .cons (.refl []) .nil⟩
  | case2 rest ih =>
    obtain ⟨last, hlast, hrest⟩ := ih
    rw [splitAt_cons_self]
    exact ⟨last, hlast, .cons (.refl []) hrest⟩
  | case3 rest ih =>
    obtain ⟨last, hlast, hrest⟩ := ih
    have hpieces : splitAt '\n' ('\r' :: '\n' :: rest) = ['\r'] :: splitAt '\n' rest :=
      splitAt_append_cons '\n' ['\r'] rest
    rw [hpieces]
    exact ⟨last, hlast, .cons padded_carriageReturn hrest⟩
  | case4 c rest hc _ hnone ih =>
    obtain ⟨last, hlast, hrest⟩ := ih
    obtain ⟨piece, others, hpieces⟩ := List.exists_cons_of_ne_nil (splitAt_ne_nil '\n' rest)
    rw [hnone, List.nil_append, hpieces] at hrest
    rw [splitAt_cons_of_ne hc hpieces]
    cases hrest with
    | @cons line _ more _ hfirst hothers =>
      rcases hlast with hlast | hlast
      · cases hlast
      · obtain ⟨rfl, rfl⟩ := List.cons.inj hlast
        exact ⟨[], .inl rfl, .cons (hfirst.cons c) hothers⟩
  | case5 c rest hc _ line more hlines ih =>
    obtain ⟨last, hlast, hrest⟩ := ih
    obtain ⟨piece, others, hpieces⟩ := List.exists_cons_of_ne_nil (splitAt_ne_nil '\n' rest)
    rw [hlines, hpieces] at hrest
    rw [splitAt_cons_of_ne hc hpieces]
    cases hrest with
    | cons hfirst hothers => exact ⟨last, hlast, .cons (hfirst.cons c) hothers⟩

/-- The text with a carriage return before every line feed. -/
def withReturns (text : List Char) : List Char :=
  text.flatMap fun c => if c = '\n' then ['\r', '\n'] else [c]

/-- Carriage returns before the line feeds are blanks at the ends of the lines. -/
theorem padded_withReturns (text : List Char) :
    List.Forall₂ Padded (splitAt '\n' text) (splitAt '\n' (withReturns text)) := by
  induction text with
  | nil => exact .cons (.refl []) .nil
  | cons c rest ih =>
    have hcons : withReturns (c :: rest) = (if c = '\n' then ['\r', '\n'] else [c]) ++ withReturns rest :=
      List.flatMap_cons
    rw [hcons]
    by_cases hc : c = '\n'
    · have hpieces : splitAt '\n' (['\r', '\n'] ++ withReturns rest) = ['\r'] :: splitAt '\n' (withReturns rest) :=
        splitAt_append_cons '\n' ['\r'] (withReturns rest)
      rw [if_pos hc, hc, splitAt_cons_self, hpieces]
      exact .cons padded_carriageReturn ih
    · obtain ⟨piece, others, hpieces⟩ := List.exists_cons_of_ne_nil (splitAt_ne_nil '\n' rest)
      obtain ⟨padded, more, hpadded⟩ := List.exists_cons_of_ne_nil (splitAt_ne_nil '\n' (withReturns rest))
      rw [hpieces, hpadded] at ih
      rw [if_neg hc, List.singleton_append, splitAt_cons_of_ne hc hpieces, splitAt_cons_of_ne hc hpadded]
      cases ih with
      | cons hfirst hothers => exact .cons (hfirst.cons c) hothers

end Text

namespace Signature

/-! ## Lines one after the other -/

section

variable {number : Nat} {lines : List (List Char)}

/-- Blanks at the end of a line do not matter. -/
theorem parseLine_padded {line padded : List Char} (h : Padded line padded) : parseLine padded = parseLine line := by
  obtain ⟨blanks, hblanks, rfl⟩ := h
  unfold parseLine
  rw [trimEnd_append_blanks hblanks]

/-- Blanks at the ends of lines do not matter. -/
theorem parseLines_padded {padded : List (List Char)} (h : List.Forall₂ Padded lines padded) (number : Nat) :
    parseLines number padded = parseLines number lines := by
  induction h generalizing number with
  | nil => rfl
  | cons hfirst _ ih =>
    unfold parseLines
    rw [parseLine_padded hfirst, ih]

/-- Lines are read after those before them, and counted on from them. -/
theorem parseLines_append (number : Nat) (lines more : List (List Char)) :
    parseLines number (lines ++ more) =
      match parseLines number lines with
      | .error fault => .error fault
      | .ok functions => (parseLines (number + lines.length) more).map (functions ++ ·) := by
  induction lines generalizing number with
  | nil =>
    rw [List.nil_append, List.length_nil, Nat.add_zero, parseLines]
    cases parseLines number more <;> rfl
  | cons line lines ih =>
    rw [List.cons_append, parseLines, parseLines]
    cases parseLine line with
    | error fault => rfl
    | ok found =>
      have hcount : number + 1 + lines.length = number + (line :: lines).length := by
        rw [List.length_cons]
        omega
      dsimp only
      rw [ih, hcount]
      cases parseLines (number + 1) lines with
      | error fault => rfl
      | ok functions =>
        cases parseLines (number + (line :: lines).length) more with
        | error fault => rfl
        | ok others => simp only [Except.map, List.append_assoc]

/-- Where the count starts shows in the number of a bad line only. -/
theorem parseLines_add (number start : Nat) (lines : List (List Char)) :
    parseLines (number + start) lines = (parseLines number lines).mapError fun fault => (fault.1 + start, fault.2) := by
  induction lines generalizing number with
  | nil => rfl
  | cons line lines ih =>
    rw [parseLines, parseLines]
    cases parseLine line with
    | error fault => rfl
    | ok found =>
      dsimp only
      rw [Nat.add_right_comm, ih]
      cases parseLines (number + 1) lines <;> rfl

/-- Functions come of lines if every line can be read: those that are found, in order. -/
theorem parseLines_eq_ok_iff {functions : List Signature} :
    parseLines number lines = .ok functions ↔
      ∃ found, List.Forall₂ (fun line result => parseLine line = .ok result) lines found
        ∧ functions = found.reduceOption := by
  induction lines generalizing number functions with
  | nil =>
    unfold parseLines
    constructor
    · intro h
      exact ⟨[], .nil, (Except.ok.inj h).symm⟩
    · rintro ⟨found, hfound, rfl⟩
      cases hfound
      rfl
  | cons line lines ih =>
    unfold parseLines
    constructor
    · intro h
      cases hline : parseLine line with
      | error fault =>
        rw [hline] at h
        cases h
      | ok result =>
        rw [hline] at h
        cases hlines : parseLines (number + 1) lines with
        | error fault =>
          dsimp only at h
          rw [hlines] at h
          cases h
        | ok others =>
          dsimp only at h
          rw [hlines] at h
          obtain ⟨found, hfound, rfl⟩ := ih.mp hlines
          refine ⟨result :: found, .cons hline hfound, ?_⟩
          rw [← Except.ok.inj h]
          cases result <;> rfl
    · rintro ⟨found, hfound, rfl⟩
      cases hfound with
      | @cons _ result _ others hline hothers =>
        rw [hline]
        dsimp only
        rw [ih.mpr ⟨others, hothers, rfl⟩]
        cases result <;> rfl

/-- A fault comes of lines if it is that of a line with only lines before it that can be read. -/
theorem parseLines_eq_error_iff {fault : Nat × GrammarFault} :
    parseLines number lines = .error fault ↔
      ∃ before line after, lines = before ++ line :: after
        ∧ (∀ other ∈ before, ∃ result, parseLine other = .ok result)
        ∧ parseLine line = .error fault.2 ∧ fault.1 = number + before.length := by
  constructor
  · intro h
    induction lines generalizing number with
    | nil => cases h
    | cons line lines ih =>
      unfold parseLines at h
      cases hline : parseLine line with
      | error cause =>
        rw [hline] at h
        cases h
        exact ⟨[], line, lines, rfl, fun _ hnone => absurd hnone List.not_mem_nil, hline, rfl⟩
      | ok result =>
        rw [hline] at h
        dsimp only at h
        cases hlines : parseLines (number + 1) lines with
        | ok others =>
          rw [hlines] at h
          cases h
        | error later =>
          rw [hlines] at h
          cases h
          obtain ⟨before, bad, after, rfl, hbefore, hbad, hnumber⟩ := ih hlines
          refine ⟨line :: before, bad, after, rfl, List.forall_mem_cons.mpr ⟨⟨result, hline⟩, hbefore⟩, hbad, ?_⟩
          rw [hnumber, List.length_cons]
          omega
  · rintro ⟨before, line, after, rfl, hbefore, hline, hnumber⟩
    -- The lines before the bad one are read, and so the reader comes to it with their number.
    obtain ⟨found, hfound⟩ : ∃ found, List.Forall₂ (fun line result => parseLine line = .ok result) before found := by
      clear hnumber
      induction before with
      | nil => exact ⟨[], .nil⟩
      | cons other before ih =>
        obtain ⟨⟨result, hresult⟩, hothers⟩ := List.forall_mem_cons.mp hbefore
        obtain ⟨found, hfound⟩ := ih hothers
        exact ⟨result :: found, .cons hresult hfound⟩
    rw [parseLines_append, parseLines_eq_ok_iff.mpr ⟨found, hfound, rfl⟩, parseLines, hline, ← hnumber]
    rfl

end

/-! ## Texts -/

/-- A text is read line feed by line feed. -/
theorem parseText_eq (content : String) : parseText content = parseLines 1 (splitAt '\n' content.toList) := by
  obtain ⟨last, hlast, hpadded⟩ := padded_lines content.toList
  unfold parseText
  rw [parseLines_padded hpadded, parseLines_append]
  have hempty : ∀ number, parseLines number last = .ok [] := by
    intro number
    rcases hlast with rfl | rfl <;> rfl
  rw [hempty]
  cases parseLines 1 (lines content.toList) with
  | error fault => rfl
  | ok functions => simp only [Except.map, List.append_nil]

/-- Two texts with a line feed between them are read one after the other. -/
theorem parseText_append (first second : String) :
    parseText (first ++ "\n" ++ second) =
      match parseText first with
      | .error fault => .error fault
      | .ok functions => ((parseText second).map (functions ++ ·)).mapError fun fault =>
          (fault.1 + 1 + first.toList.count '\n', fault.2) := by
  have hpieces : splitAt '\n' (first ++ "\n" ++ second).toList =
      splitAt '\n' first.toList ++ splitAt '\n' second.toList := by
    calc splitAt '\n' (first ++ "\n" ++ second).toList
        = splitAt '\n' (first.toList ++ '\n' :: second.toList) := by
          rw [String.toList_append, String.toList_append, List.append_assoc]
          rfl
      _ = splitAt '\n' first.toList ++ splitAt '\n' second.toList := splitAt_append_cons ..
  rw [parseText_eq, parseText_eq, parseText_eq, hpieces, parseLines_append, length_splitAt]
  cases parseLines 1 (splitAt '\n' first.toList) with
  | error fault => rfl
  | ok functions =>
    dsimp only
    rw [parseLines_add]
    cases parseLines 1 (splitAt '\n' second.toList) with
    | error fault =>
      simp only [Except.mapError, Except.map]
      rw [Nat.add_comm (first.toList.count '\n') 1, ← Nat.add_assoc]
    | ok others => rfl

/-- Carriage returns before the line feeds of a text do not matter. -/
theorem parseText_withReturns (content : String) :
    parseText (String.ofList (withReturns content.toList)) = parseText content := by
  rw [parseText_eq, parseText_eq, String.toList_ofList, parseLines_padded (padded_withReturns content.toList)]

end Signature

/-! ## Files -/

/-- A file is read line by line. Between its line feeds stand the lines that are read: either all of them can be, and
their functions come of the file in order, or the first that cannot fails the file with its number, counted from one.
So of two texts with a line feed between them the first fails both as it fails alone; if it does not, the functions of
the second follow its own, and a line on which the second fails is counted on from it. Carriage returns before the line
feeds change nothing. -/
theorem functionsOf_line_by_line (file : Path) :
    (∀ text functions, functionsOf file text = .ok functions ↔
      ∃ found, List.Forall₂ (fun line result => Signature.parseLine line = .ok result) (splitAt '\n' text.toList) found
        ∧ functions = found.reduceOption)
    ∧ (∀ text failure, functionsOf file text = .error failure ↔
      ∃ before line after fault, splitAt '\n' text.toList = before ++ line :: after
        ∧ (∀ other ∈ before, ∃ result, Signature.parseLine other = .ok result)
        ∧ Signature.parseLine line = .error fault ∧ failure = .grammar file (before.length + 1) fault)
    ∧ (∀ first second failure, functionsOf file first = .error failure →
      functionsOf file (first ++ "\n" ++ second) = .error failure)
    ∧ (∀ first second functions others, functionsOf file first = .ok functions → functionsOf file second = .ok others →
      functionsOf file (first ++ "\n" ++ second) = .ok (functions ++ others))
    ∧ (∀ first second functions number fault, functionsOf file first = .ok functions →
      functionsOf file second = .error (.grammar file number fault) →
      functionsOf file (first ++ "\n" ++ second) =
        .error (.grammar file (number + 1 + first.toList.count '\n') fault))
    ∧ ∀ text : String, functionsOf file (String.ofList (withReturns text.toList)) = functionsOf file text := by
  refine ⟨fun text functions => ?_, fun text failure => ?_, fun first second failure hfirst => ?_,
    fun first second functions others hfirst hsecond => ?_,
    fun first second functions number fault hfirst hsecond => ?_, fun text => ?_⟩
  · rw [functionsOf_eq_ok, Signature.parseText_eq, Signature.parseLines_eq_ok_iff]
  · rw [functionsOf_eq_error, Signature.parseText_eq]
    simp only [Signature.parseLines_eq_error_iff]
    constructor
    · rintro ⟨⟨number, fault⟩, ⟨before, line, after, hpieces, hbefore, hline, rfl⟩, rfl⟩
      exact ⟨before, line, after, fault, hpieces, hbefore, hline, by rw [Nat.add_comm]⟩
    · rintro ⟨before, line, after, fault, hpieces, hbefore, hline, rfl⟩
      exact ⟨(1 + before.length, fault), ⟨before, line, after, hpieces, hbefore, hline, rfl⟩, by rw [Nat.add_comm]⟩
  · obtain ⟨fault, hfault, rfl⟩ := functionsOf_eq_error.mp hfirst
    refine functionsOf_eq_error.mpr ⟨fault, ?_, rfl⟩
    rw [Signature.parseText_append, hfault]
  · rw [functionsOf_eq_ok] at hfirst hsecond ⊢
    rw [Signature.parseText_append, hfirst, hsecond]
    rfl
  · rw [functionsOf_eq_ok] at hfirst
    obtain ⟨cause, hfault, heq⟩ := functionsOf_eq_error.mp hsecond
    obtain ⟨-, rfl, rfl⟩ := Failure.grammar.inj heq
    refine functionsOf_eq_error.mpr ⟨(cause.1 + 1 + first.toList.count '\n', cause.2), ?_, rfl⟩
    rw [Signature.parseText_append, hfirst, hfault]
    rfl
  · unfold functionsOf
    rw [Signature.parseText_withReturns]

/-- A file of two lines, the second of which is empty and ends with a carriage return only, before one whose second
line is bad: it is the fourth line of both. The other way round it is the second. -/
theorem functionsOf_line_by_line_fourth :
    let file : Path := ⟨"/w/a.d.ts"⟩
    let first := "export declare function one(): void;\n\r"
    let second := "// more\nexport declare function two(: void;\r\n"
    let one : Signature := ⟨"one", [], ⟨"void", false, false, false⟩, false⟩
    let fault : GrammarFault := ⟨.parameterName, ": void;"⟩
    functionsOf file first = .ok [one] ∧ functionsOf file second = .error (.grammar file 2 fault)
      ∧ functionsOf file (first ++ "\n" ++ first) = .ok [one, one]
      ∧ functionsOf file (second ++ "\n" ++ first) = .error (.grammar file 2 fault)
      ∧ functionsOf file (first ++ "\n" ++ second) = .error (.grammar file 4 fault) := by
  intro file first second one fault
  have hfirst : functionsOf file first = .ok [one] := by decide +kernel
  have hsecond : functionsOf file second = .error (.grammar file 2 fault) := by decide +kernel
  have hcount : first.toList.count '\n' = 1 := by decide +kernel
  obtain ⟨-, -, hbad, hgood, hlater, -⟩ := functionsOf_line_by_line file
  have hboth := hlater first second [one] 2 fault hfirst hsecond
  rw [hcount] at hboth
  exact ⟨hfirst, hsecond, hgood first first _ _ hfirst hfirst, hbad second first _ hsecond, hboth⟩

end TypingsIndex
