import Mathlib.Data.List.Forall2
import TypingsIndex.Declaration.Grammar
import TypingsIndex.Proofs.Declaration.Cuts
import TypingsIndex.Proofs.Text.Trim

/-!
# The language of declaration lines

What it is for a text to spell a parameter, a list of parameters, a result and a whole declaration, without
saying how a text is read. The reader reads exactly the lines of this language (`parseLine_iff`): it
finds every declaration that a line spells, and nothing else.
-/

set_option autoImplicit false

namespace TypingsIndex

open Text

/-! ## The language -/

/-- A label spells a name between blanks, and a question mark after it if it is optional. -/
inductive SpellsName (name : List Char) : List Char → Bool → Prop where
  | required {label : List Char} (h : trim label = name) : SpellsName name label false
  | optional {label blanks : List Char} (blank : Blanks blanks)
      (h : trim label = name ++ (blanks ++ ['?'])) : SpellsName name label true

/-- A text spells a parameter as its label, a colon and a space, and a type in which every comma and every
closing parenthesis is inside brackets. -/
inductive SpellsParameter : List Char → Parameter → Prop where
  | intro {label span : List Char} {parameter : Parameter} (no_colon : ':' ∉ label)
      (identifier : isIdentifier parameter.name.toList = true)
      (name : SpellsName parameter.name.toList label parameter.optional)
      (outside : Cursor.typeDepth 0 span = 0) (hidden : Cursor.BracketsHide 0 span)
      (type : TypeShape.parse span = .ok parameter.shape) :
      SpellsParameter (label ++ ([':', ' '] ++ span)) parameter

/-- A text spells parameters one after the other, with a comma and a space between them. -/
def SpellsParameters (text : List Char) (parameters : List Parameter) : Prop :=
  ∃ segments, List.Forall₂ SpellsParameter segments parameters ∧ text = [',', ' '].intercalate segments

/-- A text spells a result, inside a promise or as it is. -/
inductive SpellsResult (text : List Char) (shape : TypeShape) : Bool → Prop where
  | promised {inner : List Char} (h : trim text = "Promise<".toList ++ (inner ++ ['>']))
      (type : TypeShape.parse inner = .ok shape) : SpellsResult text shape true
  | plain (h : ¬ "Promise<".toList <+: trim text) (type : TypeShape.parse (trim text) = .ok shape) :
      SpellsResult text shape false

/-- A text spells a signature: its name, its parameters in parentheses, its result up to the first semicolon
outside all groups, and anything after that. -/
inductive SpellsSignature : List Char → Signature → Prop where
  | intro {label list span tail : List Char} {signature : Signature} (no_parenthesis : '(' ∉ label)
      (identifier : isIdentifier signature.name.toList = true)
      (name : trim label = signature.name.toList)
      (parameters : SpellsParameters list signature.parameters)
      (outside : Cursor.groupDepth 0 span = 0) (hidden : Cursor.GroupsHide ';' 0 span)
      (result : SpellsResult span signature.returns signature.promised) :
      SpellsSignature (label ++ '(' :: (list ++ ([')', ':', ' '] ++ (span ++ ';' :: tail)))) signature

/-- A line declares a signature: it spells it after the words that every declaration starts with. -/
def Declares (line : List Char) (signature : Signature) : Prop :=
  ∃ body, line = declarationWords.toList ++ body ∧ SpellsSignature body signature

/-! ## Names -/

/-- A step of reading succeeds if what it begins with does and what follows does. -/
theorem bind_eq_ok_iff {α β : Type} {first : Except GrammarFault α} {next : α → Except GrammarFault β}
    {result : β} : (first >>= next) = .ok result ↔ ∃ value, first = .ok value ∧ next value = .ok result := by
  constructor
  · intro h
    cases first with
    | ok value => exact ⟨value, rfl, h⟩
    | error fault => cases h
  · rintro ⟨value, rfl, h⟩
    exact h

/-- Every character of an identifier can stand in one. -/
theorem continuesIdentifier_of_mem {name : List Char} (identifier : isIdentifier name = true) :
    ∀ c ∈ name, continuesIdentifier c = true := by
  cases name with
  | nil => cases identifier
  | cons first rest =>
    unfold isIdentifier at identifier
    rw [Bool.and_eq_true, List.all_eq_true] at identifier
    intro c hc
    rcases List.mem_cons.mp hc with rfl | hrest
    · unfold continuesIdentifier
      rw [identifier.1, Bool.true_or]
    · exact identifier.2 c hrest

/-- An identifier has no blank at either end. -/
theorem trimmed_of_isIdentifier {name : List Char} (identifier : isIdentifier name = true) :
    Trimmed name :=
  trimmed_of_forall fun c hc => isBlank_of_continuesIdentifier (continuesIdentifier_of_mem identifier c hc)

/-- A label is read as the identifier that it spells. -/
theorem Parameter.splitOptional_iff {label name : List Char} {optional : Bool}
    (identifier : isIdentifier name = true) :
    Parameter.splitOptional (trim label) = (name, optional) ↔ SpellsName name label optional := by
  have hmark : '?' ∉ name := fun h => by cases continuesIdentifier_of_mem identifier _ h
  unfold splitOptional
  constructor
  · intro h
    split at h
    · next front hfront =>
      rw [List.isSuffixOf?_eq_some_iff_append_eq] at hfront
      obtain ⟨blanks, hblanks, hsplit⟩ := exists_trimEnd_append front
      cases h
      refine .optional hblanks ?_
      rw [← List.append_assoc, ← hsplit, hfront]
    · cases h
      exact .required rfl
  · rintro (h | ⟨hblanks, h⟩)
    · have hnone : ['?'].isSuffixOf? (trim label) = none := by
        rw [Option.eq_none_iff_forall_ne_some]
        intro front hfront
        rw [List.isSuffixOf?_eq_some_iff_append_eq, h] at hfront
        exact hmark (hfront ▸ List.mem_append_right front List.mem_cons_self)
      rw [hnone, h]
    · next blanks =>
      have hsome : ['?'].isSuffixOf? (trim label) = some (name ++ blanks) := by
        rw [List.isSuffixOf?_eq_some_iff_append_eq, h, List.append_assoc]
      simp only [hsome]
      rw [trimEnd_append_blanks hblanks, (trimmed_of_isIdentifier identifier).trimEnd_eq]

/-- What a label spells stands at the front of the trimmed label. -/
theorem SpellsName.isPrefix_trim {name label : List Char} {optional : Bool}
    (spells : SpellsName name label optional) : name <+: trim label := by
  cases spells with
  | required h => exact ⟨[], by rw [h, List.append_nil]⟩
  | optional blank h => exact ⟨_, h.symm⟩

/-! ## Parameters -/

namespace Parameter

/-- A parameter is read off a text exactly if the text starts with a spelling of it and the end of its type
follows. -/
theorem parse_eq_ok_iff {rest after : List Char} {parameter : Parameter} :
    parse rest = .ok (parameter, after) ↔
      ∃ text, SpellsParameter text parameter ∧ rest = text ++ after
        ∧ ∃ c back, after = c :: back ∧ Cursor.endsType c = true := by
  unfold parse
  constructor
  · intro hread
    obtain ⟨⟨label, atColon⟩, hlabel, hnamed⟩ := bind_eq_ok_iff.mp hread
    obtain ⟨rfl, hcolon, -⟩ := Cursor.takeUntil_eq_ok_iff.mp hlabel
    dsimp only at hnamed
    split at hnamed
    · next identifier =>
      obtain ⟨atType, htype, htyped⟩ := bind_eq_ok_iff.mp hnamed
      obtain rfl := Cursor.expect_eq_ok_iff.mp htype
      obtain ⟨⟨span, atEnd⟩, hspan, hshaped⟩ := bind_eq_ok_iff.mp htyped
      obtain ⟨rfl, hends, houtside, hhidden⟩ := Cursor.takeTypeSpan_eq_ok_iff.mp hspan
      obtain ⟨shape, hshape, hdone⟩ := bind_eq_ok_iff.mp hshaped
      cases hdone
      have hname := (splitOptional_iff identifier).mp (Prod.eta _)
      refine ⟨label ++ ([':', ' '] ++ span), .intro hcolon ?_ ?_ houtside hhidden hshape, ?_, hends⟩
      · rw [String.toList_ofList]
        exact identifier
      · rw [String.toList_ofList]
        exact hname
      · simp
    · cases hnamed
  · rintro ⟨_, @⟨label, span, parameter, hcolon, identifier, hname, houtside, hhidden, hshape⟩, rfl, hends⟩
    have hlabel : Cursor.takeUntil ':' (label ++ ([':', ' '] ++ span) ++ after) =
        .ok (label, [':', ' '] ++ span ++ after) :=
      Cursor.takeUntil_eq_ok_iff.mpr ⟨by simp, hcolon, rfl⟩
    have htype : Cursor.expect ": " ([':', ' '] ++ span ++ after) = .ok (span ++ after) :=
      Cursor.expect_eq_ok_iff.mpr (by simp)
    have hspan : Cursor.takeTypeSpan (span ++ after) = .ok (span, after) :=
      Cursor.takeTypeSpan_eq_ok_iff.mpr ⟨rfl, hends, houtside, hhidden⟩
    have hsplit := (splitOptional_iff identifier).mpr hname
    refine bind_eq_ok_iff.mpr ⟨_, hlabel, ?_⟩
    simp only [hsplit]
    rw [if_pos identifier]
    refine bind_eq_ok_iff.mpr ⟨_, htype, bind_eq_ok_iff.mpr ⟨_, hspan, bind_eq_ok_iff.mpr ⟨_, hshape, ?_⟩⟩⟩
    rw [String.ofList_toList]

/-- The reading of parameters as a chain of steps, each of which may refuse. -/
theorem parseList_eq (rest : List Char) :
    parseList rest = (do
      let (parameter, atEnd) ← parse rest
      match Cursor.eat? ", " atEnd with
      | some next => do
        let (others, after) ← parseList next
        .ok (parameter :: others, after)
      | none => do
        let after ← Cursor.expect "): " atEnd
        .ok ([parameter], after)) := by
  rw [parseList]
  split
  · next fault hfault => rw [hfault]; rfl
  · next parameter atEnd hparse =>
    rw [hparse]
    simp only [bind, Except.bind]
    split
    · next next hnext =>
      rw [hnext]
      dsimp only
      cases parseList next <;> rfl
    · next hnone =>
      rw [hnone]
      dsimp only
      cases Cursor.expect "): " atEnd <;> rfl

/-- Parameters are read one by one: after each of them a comma and more of them follow, or the end of the
list. -/
theorem parseList_eq_ok_step {rest after : List Char} {parameters : List Parameter} :
    parseList rest = .ok (parameters, after) ↔
      ∃ parameter atEnd, parse rest = .ok (parameter, atEnd) ∧
        ((∃ next others, atEnd = [',', ' '] ++ next ∧ parseList next = .ok (others, after)
            ∧ parameters = parameter :: others)
          ∨ (atEnd = [')', ':', ' '] ++ after ∧ parameters = [parameter])) := by
  rw [parseList_eq]
  constructor
  · intro h
    obtain ⟨⟨parameter, atEnd⟩, hparse, hmore⟩ := bind_eq_ok_iff.mp h
    refine ⟨parameter, atEnd, hparse, ?_⟩
    dsimp only at hmore
    split at hmore
    · next next hnext =>
      obtain ⟨⟨others, left⟩, hothers, hdone⟩ := bind_eq_ok_iff.mp hmore
      cases hdone
      exact .inl ⟨next, others, Cursor.eat?_eq_some_iff.mp hnext, hothers, rfl⟩
    · obtain ⟨left, hleft, hdone⟩ := bind_eq_ok_iff.mp hmore
      cases hdone
      exact .inr ⟨Cursor.expect_eq_ok_iff.mp hleft, rfl⟩
  · rintro ⟨parameter, atEnd, hparse, hmore⟩
    refine bind_eq_ok_iff.mpr ⟨(parameter, atEnd), hparse, ?_⟩
    rcases hmore with ⟨next, others, rfl, hothers, rfl⟩ | ⟨rfl, rfl⟩
    · have hcomma : Cursor.eat? ", " ([',', ' '] ++ next) = some next := Cursor.eat?_eq_some_iff.mpr rfl
      simp only [hcomma]
      exact bind_eq_ok_iff.mpr ⟨(others, after), hothers, rfl⟩
    · have hnone : Cursor.eat? ", " ([')', ':', ' '] ++ after) = none := Cursor.eat?_eq_none_iff.mpr (by simp)
      simp only [hnone]
      exact bind_eq_ok_iff.mpr ⟨after, Cursor.expect_eq_ok_iff.mpr rfl, rfl⟩

/-- Parameters are read off a text exactly if the text starts with a spelling of them and the end of the list
follows. -/
theorem parseList_eq_ok_iff {rest after : List Char} {parameters : List Parameter} :
    parseList rest = .ok (parameters, after) ↔
      parameters ≠ [] ∧ ∃ text, SpellsParameters text parameters ∧ rest = text ++ ([')', ':', ' '] ++ after) := by
  constructor
  · -- on the length of the text, which every parameter makes shorter
    induction hlength : rest.length using Nat.strongRecOn generalizing rest parameters with
    | ind length ih =>
      rw [parseList_eq_ok_step]
      rintro ⟨parameter, atEnd, hparse, ⟨next, others, rfl, hothers, rfl⟩ | ⟨rfl, rfl⟩⟩
      · have hshorter := parse_length_lt hparse
        rw [List.length_append, List.length_cons, List.length_singleton] at hshorter
        obtain ⟨segment, hsegment, rfl, -⟩ := parse_eq_ok_iff.mp hparse
        obtain ⟨hnonempty, _, ⟨segments, hspells, rfl⟩, rfl⟩ := ih next.length (by omega) rfl hothers
        refine ⟨List.cons_ne_nil _ _, _, ⟨segment :: segments, .cons hsegment hspells, rfl⟩, ?_⟩
        obtain ⟨second, more, rfl⟩ : ∃ second more, segments = second :: more := by
          cases hspells with
          | nil => exact absurd rfl hnonempty
          | cons _ _ => exact ⟨_, _, rfl⟩
        rw [List.intercalate_cons_cons]
        simp
      · obtain ⟨segment, hsegment, rfl, -⟩ := parse_eq_ok_iff.mp hparse
        exact ⟨List.cons_ne_nil _ _, segment, ⟨[segment], .cons hsegment .nil, by simp⟩, rfl⟩
  · rintro ⟨hnonempty, text, ⟨segments, hspells, rfl⟩, rfl⟩
    induction hspells with
    | nil => exact absurd rfl hnonempty
    | @cons segment parameter segments others hsegment hothers ih =>
      rw [parseList_eq_ok_step]
      cases hothers with
      | nil =>
        refine ⟨parameter, [')', ':', ' '] ++ after, ?_, .inr ⟨rfl, rfl⟩⟩
        rw [List.intercalate_singleton]
        exact parse_eq_ok_iff.mpr ⟨segment, hsegment, rfl, ')', _, rfl, rfl⟩
      | @cons second next more rest hnext hmore =>
        refine ⟨parameter, _, ?_, .inl ⟨_, _, rfl, ih (List.cons_ne_nil _ _), rfl⟩⟩
        rw [List.intercalate_cons_cons]
        exact parse_eq_ok_iff.mpr ⟨segment, hsegment, by simp, ',', _, rfl, rfl⟩

end Parameter

/-! ## Declarations -/

/-- No parameter is spelled with a closing parenthesis at the front. -/
theorem SpellsParameter.head?_ne {text : List Char} {parameter : Parameter}
    (spells : SpellsParameter text parameter) : text.head? ≠ some ')' := by
  obtain @⟨label, span, parameter, -, identifier, name, -⟩ := spells
  intro hhead
  obtain ⟨rest, hname⟩ := name.isPrefix_trim
  cases label with
  | nil => cases hhead
  | cons c label =>
    obtain rfl := Option.some.inj hhead
    have htrim : (trim (')' :: label)).head? = some ')' := head?_trim rfl
    cases hchars : parameter.name.toList with
    | nil =>
      rw [hchars] at identifier
      cases identifier
    | cons first others =>
      rw [← hname, hchars] at htrim
      have hfirst := continuesIdentifier_of_mem identifier first (hchars ▸ List.mem_cons_self)
      rw [Option.some.inj htrim] at hfirst
      cases hfirst

/-- No parameter is spelled with nothing. -/
theorem SpellsParameter.ne_nil {text : List Char} {parameter : Parameter}
    (spells : SpellsParameter text parameter) : text ≠ [] := by
  cases spells
  exact List.append_ne_nil_of_right_ne_nil _ (List.cons_ne_nil _ _)

/-- No list of parameters is spelled with a closing parenthesis at the front. -/
theorem SpellsParameters.head?_ne {text : List Char} {first : Parameter} {others : List Parameter}
    (spells : SpellsParameters text (first :: others)) (more : List Char) :
    (text ++ more).head? ≠ some ')' := by
  obtain ⟨segments, hspells, rfl⟩ := spells
  cases hspells with
  | @cons segment _ segments _ hsegment _ =>
    obtain ⟨c, rest, rfl⟩ := List.exists_cons_of_ne_nil hsegment.ne_nil
    have hhead := hsegment.head?_ne
    cases segments with
    | nil => rwa [List.intercalate_singleton]
    | cons second segments => rwa [List.intercalate_cons_cons]

namespace Signature

variable {rest after : List Char}

/-- Parameters and the end of their list are read off a text exactly if the text starts with a spelling of
them. -/
theorem parseParameters_eq_ok_iff {parameters : List Parameter} :
    parseParameters rest = .ok (parameters, after) ↔
      ∃ text, SpellsParameters text parameters ∧ rest = text ++ ([')', ':', ' '] ++ after) := by
  unfold parseParameters
  split
  · next hclosed =>
    constructor
    · intro h
      obtain ⟨left, hleft, heq⟩ := bind_eq_ok_iff.mp h
      cases heq
      exact ⟨[], ⟨[], .nil, rfl⟩, Cursor.expect_eq_ok_iff.mp hleft⟩
    · rintro ⟨text, hspells, rfl⟩
      cases parameters with
      | nil =>
        obtain ⟨segments, hnone, rfl⟩ := hspells
        cases hnone
        exact bind_eq_ok_iff.mpr ⟨after, Cursor.expect_eq_ok_iff.mpr rfl, rfl⟩
      | cons first others => exact absurd hclosed (hspells.head?_ne _)
  · next hopen =>
    rw [Parameter.parseList_eq_ok_iff]
    constructor
    · exact fun h => h.2
    · intro h
      refine ⟨?_, h⟩
      rintro rfl
      obtain ⟨text, ⟨segments, hspells, rfl⟩, rfl⟩ := h
      cases hspells
      exact hopen rfl

/-- A result is read off a text exactly if the text starts with a spelling of it up to a semicolon. -/
theorem parseResult_eq_ok_iff {shape : TypeShape} {promised : Bool} :
    parseResult rest = .ok (shape, promised) ↔
      ∃ span tail, rest = span ++ ';' :: tail ∧ Cursor.groupDepth 0 span = 0
        ∧ Cursor.GroupsHide ';' 0 span ∧ SpellsResult span shape promised := by
  have hstop : Cursor.opensGroup ';' = false ∧ Cursor.closesGroup ';' = false := ⟨rfl, rfl⟩
  unfold parseResult
  constructor
  · intro hread
    obtain ⟨⟨span, tail⟩, hspan, hresult⟩ := bind_eq_ok_iff.mp hread
    obtain ⟨rfl, houtside, hhidden⟩ := (Cursor.takeTerminated_eq_ok_iff hstop).mp hspan
    refine ⟨span, tail, rfl, houtside, hhidden, ?_⟩
    dsimp only at hresult
    split at hresult
    · next wrapped hwrapped =>
      have hpromise := Cursor.eat?_eq_some_iff.mp hwrapped
      split at hresult
      · next inner hinner =>
        rw [List.isSuffixOf?_eq_some_iff_append_eq] at hinner
        obtain ⟨found, hfound, hdone⟩ := bind_eq_ok_iff.mp hresult
        cases hdone
        exact .promised (by rw [hpromise, hinner]) hfound
      · cases hresult
    · next hplain =>
      obtain ⟨found, hfound, hdone⟩ := bind_eq_ok_iff.mp hresult
      cases hdone
      exact .plain (Cursor.eat?_eq_none_iff.mp hplain) hfound
  · rintro ⟨span, tail, rfl, houtside, hhidden, hresult⟩
    refine bind_eq_ok_iff.mpr ⟨(span, tail),
      (Cursor.takeTerminated_eq_ok_iff hstop).mpr ⟨rfl, houtside, hhidden⟩, ?_⟩
    cases hresult with
    | @promised inner h type =>
      have hwrapped : Cursor.eat? "Promise<" (trim span) = some (inner ++ ['>']) :=
        Cursor.eat?_eq_some_iff.mpr h
      have hinner : ['>'].isSuffixOf? (inner ++ ['>']) = some inner :=
        List.isSuffixOf?_eq_some_iff_append_eq.mpr rfl
      simp only [hwrapped, hinner]
      exact bind_eq_ok_iff.mpr ⟨shape, type, rfl⟩
    | plain h type =>
      simp only [Cursor.eat?_eq_none_iff.mpr h]
      exact bind_eq_ok_iff.mpr ⟨shape, type, rfl⟩

/-- A signature is read off a text exactly if the text spells it. -/
theorem parseBody_eq_ok_iff {signature : Signature} :
    parseBody rest = .ok signature ↔ SpellsSignature rest signature := by
  unfold parseBody
  constructor
  · intro hread
    obtain ⟨⟨label, atParenthesis⟩, hlabel, hnamed⟩ := bind_eq_ok_iff.mp hread
    obtain ⟨rfl, hfree, -⟩ := Cursor.takeUntil_eq_ok_iff.mp hlabel
    dsimp only at hnamed
    split at hnamed
    · next identifier =>
      obtain ⟨inside, hinside, hlist⟩ := bind_eq_ok_iff.mp hnamed
      obtain rfl := Cursor.expect_eq_ok_iff.mp hinside
      obtain ⟨⟨parameters, atResult⟩, hparameters, hresult⟩ := bind_eq_ok_iff.mp hlist
      obtain ⟨list, hspells, rfl⟩ := parseParameters_eq_ok_iff.mp hparameters
      obtain ⟨⟨returns, promised⟩, hreturns, hdone⟩ := bind_eq_ok_iff.mp hresult
      obtain ⟨span, tail, rfl, houtside, hhidden, hspelled⟩ := parseResult_eq_ok_iff.mp hreturns
      cases hdone
      refine .intro hfree ?_ ?_ hspells houtside hhidden hspelled
      · rw [String.toList_ofList]
        exact identifier
      · rw [String.toList_ofList]
    · cases hnamed
  · rintro @⟨label, list, span, tail, signature, hfree, identifier, hname, hspells, houtside, hhidden,
      hresult⟩
    refine bind_eq_ok_iff.mpr ⟨(label, _), Cursor.takeUntil_eq_ok_iff.mpr ⟨rfl, hfree, rfl⟩, ?_⟩
    dsimp only
    rw [hname, if_pos identifier]
    refine bind_eq_ok_iff.mpr ⟨_, Cursor.expect_eq_ok_iff.mpr rfl, ?_⟩
    refine bind_eq_ok_iff.mpr ⟨_, parseParameters_eq_ok_iff.mpr ⟨list, hspells, rfl⟩, ?_⟩
    refine bind_eq_ok_iff.mpr ⟨(signature.returns, signature.promised),
      parseResult_eq_ok_iff.mpr ⟨span, tail, rfl, houtside, hhidden, hresult⟩, ?_⟩
    rw [String.ofList_toList]

/-- Nothing comes of exactly the lines that do not start with the words of a declaration. -/
theorem parseLine_eq_none_iff (line : List Char) :
    parseLine line = .ok none ↔ ¬ declarationWords.toList <+: trimEnd line := by
  unfold parseLine
  rw [← Cursor.eat?_eq_none_iff]
  cases Cursor.eat? declarationWords (trimEnd line) with
  | none => exact iff_of_true rfl rfl
  | some rest =>
    refine iff_of_false ?_ (by simp)
    dsimp only
    cases parseBody rest with
    | error fault => exact fun h => by cases h
    | ok signature => exact fun h => by cases h

/-- A signature comes of exactly the lines that declare it, blanks at the end not counting. -/
theorem parseLine_eq_some_iff (line : List Char) (signature : Signature) :
    parseLine line = .ok (some signature) ↔ Declares (trimEnd line) signature := by
  unfold parseLine
  cases heat : Cursor.eat? declarationWords (trimEnd line) with
  | none =>
    refine iff_of_false (fun h => by cases h) ?_
    rintro ⟨body, hbody, -⟩
    exact Cursor.eat?_eq_none_iff.mp heat ⟨body, hbody.symm⟩
  | some rest =>
    have hrest := Cursor.eat?_eq_some_iff.mp heat
    have hbody : (parseBody rest).map some = .ok (some signature) ↔ parseBody rest = .ok signature := by
      cases parseBody rest <;> simp [Except.map]
    rw [hbody, parseBody_eq_ok_iff]
    constructor
    · exact fun h => ⟨rest, hrest, h⟩
    · rintro ⟨body, hline, h⟩
      rw [hrest, List.append_cancel_left_eq] at hline
      rwa [hline]

/-- A line is read exactly as the grammar says: nothing comes of the lines that do not start with the words of a
declaration, and what comes of any other line is a signature exactly if the line declares the signature. Blanks at
the end of the line do not count. -/
theorem parseLine_iff (line : List Char) :
    (parseLine line = .ok none ↔ ¬ declarationWords.toList <+: trimEnd line)
      ∧ ∀ signature, parseLine line = .ok (some signature) ↔ Declares (trimEnd line) signature :=
  ⟨parseLine_eq_none_iff line, parseLine_eq_some_iff line⟩

end Signature

/-- A line declares at most one signature. -/
theorem Declares.unique {line : List Char} {first second : Signature} (hfirst : Declares line first)
    (hsecond : Declares line second) : first = second := by
  obtain ⟨body, rfl, hbody⟩ := hfirst
  obtain ⟨other, heq, hother⟩ := hsecond
  rw [List.append_cancel_left_eq] at heq
  rw [← heq, ← Signature.parseBody_eq_ok_iff] at hother
  rw [← Signature.parseBody_eq_ok_iff] at hbody
  exact Except.ok.inj (hbody.symm.trans hother)

end TypingsIndex
