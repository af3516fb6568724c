import TypingsIndex.Proofs.Declaration.RoundTrip

/-!
# Declarations printed again

A signature that was read from a line is shown as the line of a declaration again. That line gives the same signature
exactly if the parts of the signature can be told apart in it (`parseLine_reprinted_iff`). Most of what a signature
needs for that it has because it was read: its names are identifiers, and its types keep their decorations apart from
their text. What can be missing is lost with the parentheses of a group: the base type of a group that ended in a
nullable marker may end in the brackets of an array, which are then read as a decoration (`reprinted_brackets`), it may
hold a comma or a semicolon that nothing hides any more, and it may begin as a promise does.

No reading is shorter than what it gives (`TypeShape.parse_formed`), so that there is one way only in which the line of
a signature could be read as it: part by part.
-/

set_option autoImplicit false

namespace TypingsIndex

open Text Cursor

/-! ## What is read of a type -/

namespace TypeShape

variable {text base : List Char}

/-- What stands before a nullable marker. -/
theorem unmarked?_eq_some (h : unmarked? text = some base) :
    ∃ front, front <+: text ∧ front.length + 1 ≤ text.length ∧ base = trimEnd front := by
  obtain ⟨marker, hmarker, hbase⟩ := List.exists_of_findSome?_eq_some h
  obtain ⟨front, hfront, rfl⟩ := Option.map_eq_some_iff.mp hbase
  have hlong : ∀ marker ∈ nullableMarkers, 1 ≤ marker.length := by decide
  have hlength := hlong marker hmarker
  rw [List.isSuffixOf?_eq_some_iff_append_eq] at hfront
  refine ⟨front, ⟨marker, hfront⟩, ?_, rfl⟩
  rw [← hfront, List.length_append]
  omega

/-- What can be told of a base type that was split off a text. -/
structure SplitsOff (text : List Char) (split : List Char × Bool) : Prop where
  trimmed : Trimmed split.1
  unmarked : split.2 = false → Unmarked split.1
  shorter : split.1.length + (if split.2 then 1 else 0) ≤ text.length

/-- What stands before a nullable marker is split off as the base of a nullable type. -/
theorem SplitsOff.marked (trimmed : Trimmed text) (h : unmarked? text = some base) : SplitsOff text (base, true) := by
  obtain ⟨front, hprefix, hlength, rfl⟩ := unmarked?_eq_some h
  have hshorter := trimEnd_length_le front
  refine ⟨trimmed.trimEnd_of_prefix hprefix, nofun, ?_⟩
  dsimp only
  rw [if_pos rfl]
  omega

/-- A base type that was split off a trimmed text keeps its markers apart from its text. -/
theorem splitMarker_splitsOff (trimmed : Trimmed text) : SplitsOff text (splitMarker text) := by
  generalize hsplit : splitMarker text = split
  have hwhole := hsplit
  unfold splitMarker at hsplit
  split at hsplit
  · next base hbase =>
    subst hsplit
    exact .marked trimmed hbase
  · split at hsplit
    · next base hgroup =>
      subst hsplit
      obtain ⟨found, hfound, hbase⟩ := Option.bind_eq_some_iff.mp hgroup
      obtain ⟨inside, hgroup, rfl⟩ := groupInside?_eq_some_iff.mp hfound
      obtain ⟨htrimmed, hunmarked, hshorter⟩ := SplitsOff.marked (trimmed_trim inside) hbase
      have hinside := trim_length_le inside
      have henclosed := congrArg List.length hgroup.enclosed
      rw [List.length_cons, List.length_append] at henclosed
      exact ⟨htrimmed, hunmarked, by omega⟩
    · subst hsplit
      exact ⟨trimmed, fun _ => splitMarker_eq_iff.mp hwhole, by simp⟩

/-- A type as it is read: its base type is there and keeps its markers apart from its text. -/
structure Formed (shape : TypeShape) : Prop where
  nonempty : shape.base ≠ ""
  trimmed : Trimmed shape.base.toList
  single : shape.array = false → shape.arrayNullable = false
  unmarked : shape.nullable = false → Unmarked shape.base.toList

/-- The length of a written type. -/
theorem length_written (shape : TypeShape) : shape.written.length = shape.base.toList.length
    + (if shape.nullable then 1 else 0) + (if shape.array then 2 + (if shape.arrayNullable then 1 else 0) else 0) := by
  unfold written
  rw [List.length_append, List.length_append]
  cases shape.nullable <;> cases shape.array <;> cases shape.arrayNullable <;> rfl

/-- A base that was split off is that of a formed shape. -/
theorem SplitsOff.formed {split : List Char × Bool} (off : SplitsOff text split)
    (nonempty : String.ofList split.1 ≠ "") {array arrayNullable : Bool}
    (single : array = false → arrayNullable = false) :
    Formed ⟨String.ofList split.1, split.2, array, arrayNullable⟩ where
  nonempty := nonempty
  trimmed := by
    rw [String.toList_ofList]
    exact off.trimmed
  single := single
  unmarked := by
    rw [String.toList_ofList]
    exact off.unmarked

/-- What is read of a type, if it has a base type, is formed, and written no longer than it was. -/
theorem ofText_formed (trimmed : Trimmed text) (nonempty : (ofText text).base ≠ "") :
    (ofText text).Formed ∧ (ofText text).written.length ≤ text.length := by
  -- a marker at the end comes off first, and leaves a trimmed text that is shorter if there was one
  obtain ⟨houter, hshorter⟩ : Trimmed ((unmarked? text).getD text)
      ∧ ((unmarked? text).getD text).length + (if (unmarked? text).isSome then 1 else 0) ≤ text.length := by
    cases hmarked : unmarked? text with
    | none => exact ⟨trimmed, by simp⟩
    | some outer =>
      obtain ⟨houter, -, hshorter⟩ := SplitsOff.marked trimmed hmarked
      exact ⟨houter, hshorter⟩
  cases hsuffix : ['[', ']'].isSuffixOf? ((unmarked? text).getD text) with
  | some element =>
    have hbrackets := (List.isSuffixOf?_eq_some_iff_append_eq.mp hsuffix).symm
    have hoff := splitMarker_splitsOff (houter.trimEnd_of_prefix ⟨_, hbrackets.symm⟩)
    have hend := trimEnd_length_le element
    have hlength := congrArg List.length hbrackets
    rw [List.length_append, List.length_cons, List.length_singleton] at hlength
    have hbase := hoff.shorter
    rw [ofText_of_brackets hbrackets] at nonempty ⊢
    refine ⟨hoff.formed nonempty nofun, ?_⟩
    rw [length_written, String.toList_ofList, if_pos rfl]
    dsimp only
    omega
  | none =>
    rw [ofText_of_single hsuffix] at nonempty ⊢
    cases hmarked : unmarked? text with
    | some outer =>
      rw [hmarked] at nonempty
      have hoff := SplitsOff.marked trimmed hmarked
      refine ⟨hoff.formed nonempty fun _ => rfl, ?_⟩
      rw [length_written, String.toList_ofList]
      exact hoff.shorter
    | none =>
      rw [hmarked] at nonempty
      have hoff := splitMarker_splitsOff trimmed
      refine ⟨hoff.formed nonempty fun _ => rfl, ?_⟩
      rw [length_written, String.toList_ofList]
      exact hoff.shorter

/-- A type that is read is formed, and written no longer than it was. -/
theorem parse_formed {span : List Char} {shape : TypeShape} (h : parse span = .ok shape) :
    shape.Formed ∧ shape.written.length ≤ span.length := by
  obtain ⟨rfl, hnonempty⟩ := parse_eq_ok_iff.mp h
  obtain ⟨hformed, hlength⟩ := ofText_formed (trimmed_trim span) hnonempty
  refine ⟨hformed, ?_⟩
  calc (TypeShape.ofText (trim span)).written.length ≤ (trim span).length := hlength
    _ ≤ span.length := trim_length_le span

/-- Brackets at the end of a base type are read as those of an array. -/
theorem ofText_array {base : List Char} (trimmed : Trimmed base) (brackets : "[]".toList <:+ base) (nullable : Bool) :
    (ofText (base ++ if nullable then ['?'] else [])).array = true := by
  obtain ⟨element, rfl⟩ := brackets
  have houter : (unmarked? ((element ++ "[]".toList) ++ if nullable then ['?'] else [])).getD
      ((element ++ "[]".toList) ++ if nullable then ['?'] else []) = element ++ "[]".toList := by
    cases nullable with
    | false =>
      have hnone : unmarked? (element ++ "[]".toList) = none :=
        unmarked?_eq_none_iff.mpr (not_marked_append_brackets element)
      rw [if_neg Bool.false_ne_true, List.append_nil, hnone, Option.getD_none]
    | true => rw [if_pos rfl, unmarked?_append mark_mem_nullableMarkers, Option.getD_some, trimmed.trimEnd_eq]
  rw [ofText_of_brackets houter]

/-- A type that is read from its written form does not end in brackets unless it is an array. -/
theorem Formed.single_of_parse_written {shape : TypeShape} (formed : shape.Formed)
    (read : parse shape.written = .ok shape) : shape.array = false → ¬ "[]".toList <:+ shape.base.toList := by
  intro hsingle hbrackets
  have hwritten : shape.written = shape.base.toList ++ if shape.nullable then ['?'] else [] := by
    unfold written
    rw [hsingle, if_neg Bool.false_ne_true, List.append_nil]
  have htrimmed := trimmed_written formed.trimmed
  have harray := ofText_array formed.trimmed hbrackets shape.nullable
  obtain ⟨hshape, -⟩ := parse_eq_ok_iff.mp read
  rw [htrimmed.trim_eq, hwritten] at hshape
  rw [hshape, hsingle] at harray
  cases harray

/-- What a type that was read needs in addition to be read from its written form. -/
theorem Formed.plain {shape : TypeShape} (formed : shape.Formed)
    (single : shape.array = false → ¬ "[]".toList <:+ shape.base.toList) : shape.Plain where
  nonempty := formed.nonempty
  trimmed := formed.trimmed
  single harray := ⟨single harray, formed.single harray⟩
  unmarked := formed.unmarked

end TypeShape

/-! ## One way to read -/

/-- Pieces that get no longer are joined to a text that gets no longer. -/
theorem intercalate_length_le {between : List Char} {segments others : List (List Char)}
    (longer : List.Forall₂ (fun segment other => other.length ≤ segment.length) segments others) :
    (between.intercalate others).length ≤ (between.intercalate segments).length := by
  induction longer with
  | nil => exact Nat.le_refl _
  | @cons segment other segments others hfirst hrest ih =>
    cases hrest with
    | nil =>
      rw [List.intercalate_singleton, List.intercalate_singleton]
      exact hfirst
    | cons =>
      rw [List.intercalate_cons_cons, List.intercalate_cons_cons]
      simp only [List.length_append]
      omega

/-- Segments that are no shorter than others and come to the same text are the others. -/
theorem eq_of_intercalate_eq {between : List Char} {segments others : List (List Char)}
    (longer : List.Forall₂ (fun segment other => other.length ≤ segment.length) segments others)
    (same : between.intercalate segments = between.intercalate others) : segments = others := by
  induction longer with
  | nil => rfl
  | @cons segment other segments others hfirst hrest ih =>
    cases hrest with
    | nil =>
      rw [List.intercalate_singleton, List.intercalate_singleton] at same
      rw [same]
    | cons hsecond hmore =>
      have hlater := @intercalate_length_le between _ _ (.cons hsecond hmore)
      rw [List.intercalate_cons_cons, List.intercalate_cons_cons, List.append_assoc, List.append_assoc] at same
      have hlength := congrArg List.length same
      simp only [List.length_append] at hlength hlater
      obtain ⟨rfl, hrest⟩ := List.append_inj same (by omega)
      rw [ih (List.append_cancel_left hrest)]

/-- Two texts are cut at the same place by a character that none of their front parts has. -/
theorem append_cons_inj {stop : Char} {front back text rest : List Char} (hfront : stop ∉ front) (htext : stop ∉ text)
    (same : front ++ stop :: back = text ++ stop :: rest) : front = text ∧ back = rest := by
  have hcut : until? stop (front ++ stop :: back) = some (front, stop :: back) :=
    until?_eq_some_iff.mpr ⟨rfl, hfront, rfl⟩
  have hother : until? stop (text ++ stop :: rest) = some (text, stop :: rest) :=
    until?_eq_some_iff.mpr ⟨rfl, htext, rfl⟩
  rw [same, hother] at hcut
  cases hcut
  exact ⟨rfl, rfl⟩

/-- No label is shorter than the name that it spells, and the mark that makes it optional. -/
theorem SpellsName.length_le {name label : List Char} {optional : Bool} (spells : SpellsName name label optional) :
    (name ++ if optional then ['?'] else []).length ≤ label.length := by
  have htrim := trim_length_le label
  cases spells with
  | required h =>
    rw [h] at htrim
    simpa using htrim
  | optional _ h =>
    rw [h] at htrim
    simp only [List.length_append, List.length_singleton, if_pos] at htrim ⊢
    omega

/-- No spelling of a parameter is shorter than its written form. -/
theorem SpellsParameter.length_le {text : List Char} {parameter : Parameter} (spells : SpellsParameter text parameter) :
    parameter.written.length ≤ text.length := by
  obtain @⟨label, span, parameter, -, -, hname, -, -, htype⟩ := spells
  have hlabel := hname.length_le
  obtain ⟨-, hspan⟩ := TypeShape.parse_formed htype
  unfold Parameter.written
  simp only [List.length_append] at hlabel ⊢
  omega

/-- No spelling of a result is shorter than its written form. -/
theorem SpellsResult.length_le {text : List Char} {signature : Signature}
    (spells : SpellsResult text signature.returns signature.promised) :
    signature.writtenResult.length ≤ text.length := by
  have htrim := trim_length_le text
  unfold Signature.writtenResult
  generalize signature.promised = promised at spells
  cases spells with
  | promised h type =>
    obtain ⟨-, hinner⟩ := TypeShape.parse_formed type
    rw [h] at htrim
    simp only [if_pos, List.length_append] at htrim ⊢
    omega
  | plain _ type =>
    obtain ⟨-, hinner⟩ := TypeShape.parse_formed type
    rw [if_neg Bool.false_ne_true]
    omega

namespace Signature

variable {signature : Signature}

/-- The only way to spell a signature by its written form is part by part. -/
theorem parts_of_spells_written (spells : SpellsSignature (signature.written ++ [';']) signature) :
    (∀ parameter ∈ signature.parameters, SpellsParameter parameter.written parameter)
      ∧ groupDepth 0 signature.writtenResult = 0 ∧ GroupsHide ';' 0 signature.writtenResult
      ∧ SpellsResult signature.writtenResult signature.returns signature.promised := by
  generalize htext : signature.written ++ [';'] = text at spells
  obtain @⟨label, list, span, tail, signature, hfree, identifier, -, ⟨segments, hspells, rfl⟩, houtside, hhidden,
    hresult⟩ := spells
  have hname : '(' ∉ signature.name.toList := fun h => by cases continuesIdentifier_of_mem identifier _ h
  have hlonger : List.Forall₂ (fun segment written => written.length ≤ segment.length) segments
      (signature.parameters.map Parameter.written) :=
    List.forall₂_map_right_iff.mpr (hspells.imp fun _ _ h => h.length_le)
  have hlist := @intercalate_length_le [',', ' '] _ _ hlonger
  have hspan := hresult.length_le
  rw [written_append_semicolon] at htext
  -- the names end at the first parenthesis, and then nothing is long enough for the rest but the rest itself
  obtain ⟨rfl, hrest⟩ := append_cons_inj hname hfree htext
  have hlength := congrArg List.length hrest
  simp only [List.length_append, List.length_cons, List.length_nil] at hlength
  obtain ⟨hparameters, hrest⟩ := List.append_inj hrest (by omega)
  obtain ⟨hspelled, -⟩ := List.append_inj (List.append_cancel_left hrest) (by omega)
  obtain rfl := eq_of_intercalate_eq hlonger hparameters.symm
  rw [hspelled]
  refine ⟨?_, houtside, hhidden, hresult⟩
  rwa [List.forall₂_map_left_iff, List.forall₂_same] at hspells

end Signature

/-- The type in the written form of a parameter that spells it is read as that of the parameter. -/
theorem Parameter.type_of_spells_written {parameter : Parameter}
    (spells : SpellsParameter parameter.written parameter) :
    typeDepth 0 parameter.shape.written = 0 ∧ BracketsHide 0 parameter.shape.written
      ∧ TypeShape.parse parameter.shape.written = .ok parameter.shape := by
  generalize htext : parameter.written = text at spells
  obtain @⟨label, span, parameter, hfree, identifier, -, houtside, hhidden, htype⟩ := spells
  unfold written at htext
  rw [List.append_assoc] at htext
  obtain ⟨-, hspan⟩ := append_cons_inj (colon_not_mem identifier) hfree htext
  obtain rfl : parameter.shape.written = span := @List.append_cancel_left _ [' '] _ _ hspan
  exact ⟨houtside, hhidden, htype⟩

/-- The type in the written form of a result that spells it is read as that of the result, and it is no promise unless
the result is. -/
theorem Signature.type_of_spells_written {signature : Signature} (trimmed : Trimmed signature.returns.base.toList)
    (spells : SpellsResult signature.writtenResult signature.returns signature.promised) :
    TypeShape.parse signature.returns.written = .ok signature.returns
      ∧ (signature.promised = false → ¬ "Promise<".toList <+: signature.returns.written) := by
  have htrimmed := TypeShape.trimmed_written trimmed
  unfold writtenResult at spells
  generalize signature.promised = promised at spells ⊢
  cases spells with
  | @promised inner h type =>
    have hopening : Trimmed "Promise<".toList := by decide
    have hclosing : Trimmed ['>'] := by decide
    rw [if_pos rfl, ((hopening.append htrimmed).append hclosing).trim_eq, List.append_assoc] at h
    obtain rfl : signature.returns.written = inner := List.append_cancel_right (List.append_cancel_left h)
    exact ⟨type, nofun⟩
  | plain h type =>
    rw [if_neg Bool.false_ne_true, htrimmed.trim_eq] at h type
    exact ⟨type, fun _ => h⟩

/-! ## Signatures that were read -/

/-- A signature as it is read: its names are identifiers, and its types are formed. -/
structure Signature.Formed (signature : Signature) : Prop where
  name : isIdentifier signature.name.toList = true
  parameters : ∀ parameter ∈ signature.parameters,
    isIdentifier parameter.name.toList = true ∧ parameter.shape.Formed
  returns : signature.returns.Formed

/-- A parameter that is spelled has an identifier for its name and a formed shape. -/
theorem SpellsParameter.formed {text : List Char} {parameter : Parameter} (spells : SpellsParameter text parameter) :
    isIdentifier parameter.name.toList = true ∧ parameter.shape.Formed := by
  obtain @⟨label, span, parameter, -, identifier, -, -, -, htype⟩ := spells
  exact ⟨identifier, (TypeShape.parse_formed htype).1⟩

/-- A signature that is spelled is formed. -/
theorem SpellsSignature.formed {text : List Char} {signature : Signature} (spells : SpellsSignature text signature) :
    signature.Formed := by
  obtain @⟨label, list, span, tail, signature, -, identifier, -, ⟨segments, hspells, -⟩, -, -, hresult⟩ := spells
  refine ⟨identifier, fun parameter hparameter => ?_, ?_⟩
  · have hall : ∀ segments parameters, List.Forall₂ SpellsParameter segments parameters →
        ∀ parameter ∈ parameters, ∃ segment, SpellsParameter segment parameter := by
      intro segments parameters hspells
      induction hspells with
      | nil => exact fun _ h => nomatch h
      | cons hfirst _ ih => exact List.forall_mem_cons.mpr ⟨⟨_, hfirst⟩, ih⟩
    obtain ⟨segment, hsegment⟩ := hall _ _ hspells parameter hparameter
    exact hsegment.formed
  · generalize signature.promised = promised at hresult
    cases hresult with
    | promised _ type => exact (TypeShape.parse_formed type).1
    | plain _ type => exact (TypeShape.parse_formed type).1

/-- The type of a parameter can be told from what comes after it in a line, and its base type from its decorations. -/
structure Parameter.Legible (parameter : Parameter) : Prop where
  single : parameter.shape.array = false → ¬ "[]".toList <:+ parameter.shape.base.toList
  outside : typeDepth 0 parameter.shape.written = 0
  hidden : BracketsHide 0 parameter.shape.written

namespace Signature

/-- The parts of a signature can be told apart in its written form. -/
structure Legible (signature : Signature) : Prop where
  parameters : ∀ parameter ∈ signature.parameters, parameter.Legible
  single : signature.returns.array = false → ¬ "[]".toList <:+ signature.returns.base.toList
  outside : groupDepth 0 signature.writtenResult = 0
  hidden : GroupsHide ';' 0 signature.writtenResult
  unpromised : signature.promised = false → ¬ "Promise<".toList <+: signature.returns.written

variable {signature : Signature}

/-- The line that shows a signature declares what its written form and a semicolon spell. -/
theorem parseLine_shown_iff : parseLine (declarationWords ++ signature.display ++ ";").toList = .ok (some signature) ↔
    SpellsSignature (signature.written ++ [';']) signature := by
  have hline : (declarationWords ++ signature.display ++ ";").toList =
      declarationWords.toList ++ (signature.written ++ [';']) := by
    unfold display
    rw [String.toList_append, String.toList_append, String.toList_ofList, List.append_assoc]
    rfl
  have htrimmed : trimEnd (declarationWords.toList ++ (signature.written ++ [';'])) =
      declarationWords.toList ++ (signature.written ++ [';']) := by
    refine trimEnd_eq_self fun c hc => ?_
    rw [← List.append_assoc, List.getLast?_append] at hc
    obtain rfl := Option.some.inj hc
    decide
  rw [hline, parseLine_eq_some_iff, htrimmed]
  constructor
  · rintro ⟨body, hbody, hspells⟩
    rwa [List.append_cancel_left hbody]
  · exact fun hspells => ⟨_, rfl, hspells⟩

/-- A formed signature whose parts can be told apart is spelled by its written form. -/
theorem Legible.spells_written (legible : signature.Legible) (formed : signature.Formed) :
    SpellsSignature (signature.written ++ [';']) signature := by
  have hreturns : signature.returns.Plain := formed.returns.plain legible.single
  refine Signature.spells_written formed.name (fun parameter hparameter => ?_) legible.outside legible.hidden
    (spells_writtenResult hreturns legible.unpromised)
  obtain ⟨identifier, hformed⟩ := formed.parameters parameter hparameter
  obtain ⟨hsingle, houtside, hhidden⟩ := legible.parameters parameter hparameter
  exact Parameter.spells_written identifier (hformed.plain hsingle) houtside hhidden

/-- The parts of a formed signature can be told apart if its written form spells it. -/
theorem Formed.legible (formed : signature.Formed) (spells : SpellsSignature (signature.written ++ [';']) signature) :
    signature.Legible := by
  obtain ⟨hparameters, houtside, hhidden, hresult⟩ := parts_of_spells_written spells
  obtain ⟨hreturns, hunpromised⟩ := type_of_spells_written formed.returns.trimmed hresult
  refine ⟨fun parameter hparameter => ?_, formed.returns.single_of_parse_written hreturns, houtside, hhidden,
    hunpromised⟩
  obtain ⟨hparameterOutside, hparameterHidden, htype⟩ :=
    Parameter.type_of_spells_written (hparameters parameter hparameter)
  exact ⟨(formed.parameters parameter hparameter).2.single_of_parse_written htype, hparameterOutside, hparameterHidden⟩

/-- A signature that was read from a line is read from the line that shows it exactly if its parts can be told apart
there: brackets are balanced, every comma and closing parenthesis of a parameter type and every semicolon of the result
stands within them, no base type that is not an array ends in the brackets of one, and a result that is no promise does
not begin as one. -/
theorem parseLine_reprinted_iff {line : List Char} {signature : Signature}
    (read : parseLine line = .ok (some signature)) :
    parseLine (declarationWords ++ signature.display ++ ";").toList = .ok (some signature) ↔ signature.Legible := by
  obtain ⟨body, -, hspells⟩ := (parseLine_eq_some_iff line signature).mp read
  have hformed := hspells.formed
  rw [parseLine_shown_iff]
  exact ⟨hformed.legible, fun legible => legible.spells_written hformed⟩

/-- A group without a marker, an array of a group with one, and a promise are all read again. -/
theorem parseLine_reprinted_load :
    let signature : Signature := ⟨"load",
      [⟨"keys", ⟨"(string | number)", false, true, false⟩, true⟩,
        ⟨"next", ⟨"Map<string, number>", true, true, true⟩, false⟩],
      ⟨"void", false, false, false⟩, true⟩
    parseLine ("export declare function load(keys?: (string | number)[], "
        ++ "next: (Map<string, number> | null)[] | undefined): Promise<void>;").toList = .ok (some signature)
      ∧ signature.Legible := by
  intro signature
  have hread : parseLine ("export declare function load(keys?: (string | number)[], "
      ++ "next: (Map<string, number> | null)[] | undefined): Promise<void>;").toList = .ok (some signature) := by
    decide +kernel
  have hagain : parseLine (declarationWords ++ signature.display ++ ";").toList = .ok (some signature) := by
    decide +kernel
  exact ⟨hread, (parseLine_reprinted_iff hread).mp hagain⟩

/-- A group that may be null and holds an array is shown as an array that may be null, and read as one. -/
theorem reprinted_brackets :
    let signature : Signature :=
      ⟨"f", [⟨"a", ⟨"string[]", true, false, false⟩, false⟩], ⟨"void", false, false, false⟩, false⟩
    let other : Signature :=
      ⟨"f", [⟨"a", ⟨"string", false, true, true⟩, false⟩], ⟨"void", false, false, false⟩, false⟩
    parseLine "export declare function f(a: (string[] | null)): void;".toList = .ok (some signature)
      ∧ parseLine (declarationWords ++ signature.display ++ ";").toList = .ok (some other) ∧ other ≠ signature := by
  decide +kernel

end Signature

end TypingsIndex
