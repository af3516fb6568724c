import Mathlib.Data.List.Basic
import TypingsIndex.Declaration.Decoration
import TypingsIndex.Proofs.Text.Trim

/-!
# Types read back

Which types their written form gives back. A base type keeps its decorations apart from its text: it ends in no
marker and is no group that ends in one, unless the type is nullable, and it ends in no brackets of an array, unless
the type is an array.
-/

set_option autoImplicit false

namespace TypingsIndex.TypeShape

open Text

variable {text inside found : List Char} {depth : Nat}

/-! ## Markers and groups -/

/-- A text ends in a nullable marker. -/
def Marked (text : List Char) : Prop :=
  ∃ marker ∈ nullableMarkers, marker <:+ text

/-- A text is in parentheses, and nothing inside closes the first of them. -/
structure IsGroup (inside text : List Char) : Prop where
  enclosed : text = '(' :: (inside ++ [')'])
  kept : ∀ front, front <+: inside → front.count ')' ≤ front.count '('

/-- A text with no marker of its own and none at the end of the group that it is. -/
structure Unmarked (text : List Char) : Prop where
  outside : ¬ Marked text
  inside : ∀ inside, IsGroup inside text → ¬ Marked (trim inside)

/-- Nothing comes before a marker exactly if there is none. -/
theorem unmarked?_eq_none_iff : unmarked? text = none ↔ ¬ Marked text := by
  unfold unmarked? Marked
  rw [List.findSome?_eq_none_iff]
  simp only [Option.map_eq_none_iff, not_exists, not_and]
  refine forall₂_congr fun marker _ => ?_
  rw [Option.eq_none_iff_forall_ne_some]
  constructor
  · rintro h ⟨front, heq⟩
    exact h front (List.isSuffixOf?_eq_some_iff_append_eq.mpr heq)
  · rintro h front heq
    exact h ⟨front, List.isSuffixOf?_eq_some_iff_append_eq.mp heq⟩

/-- A marker at the end of a text ends the text. -/
theorem getLast?_append_marker {marker : List Char} (h : marker ∈ nullableMarkers) (text : List Char) :
    (text ++ marker).getLast? = marker.getLast? := by
  have hends : ∀ marker ∈ nullableMarkers, marker.getLast? ≠ none := by decide
  obtain ⟨c, hlast⟩ := Option.ne_none_iff_exists'.mp (hends marker h)
  rw [List.getLast?_append, hlast, Option.some_or]

/-- A text that ends in a marker has one of three characters at its end. -/
theorem Marked.getLast? (marked : Marked text) : ∃ c ∈ ['?', 'l', 'd'], text.getLast? = some c := by
  obtain ⟨marker, hmarker, front, rfl⟩ := marked
  have hends : ∀ marker ∈ nullableMarkers, marker.getLast? ∈ ['?', 'l', 'd'].map some := by decide
  obtain ⟨c, hc, hlast⟩ := List.mem_map.mp (hends marker hmarker)
  refine ⟨c, hc, ?_⟩
  rw [getLast?_append_marker hmarker front, hlast]

/-- No other character ends a marker. -/
theorem not_marked_append_singleton {c : Char} (other : c ∉ ['?', 'l', 'd']) (text : List Char) :
    ¬ Marked (text ++ [c]) := by
  intro marked
  obtain ⟨last, hlast, heq⟩ := marked.getLast?
  rw [List.getLast?_concat] at heq
  exact other (Option.some.inj heq ▸ hlast)

/-- The brackets of an array are no marker. -/
theorem not_marked_append_brackets (text : List Char) : ¬ Marked (text ++ ['[', ']']) := by
  have h := not_marked_append_singleton (by decide : ']' ∉ ['?', 'l', 'd']) (text ++ ['['])
  rwa [List.append_assoc] at h

/-- A marker at the end comes off, and no other. -/
theorem unmarked?_append {marker : List Char} (h : marker ∈ nullableMarkers) (text : List Char) :
    unmarked? (text ++ marker) = some (trimEnd text) := by
  have hmarked : unmarked? (text ++ marker) ≠ none := fun hnone =>
    unmarked?_eq_none_iff.mp hnone ⟨marker, h, List.suffix_append text marker⟩
  obtain ⟨base, hbase⟩ := Option.ne_none_iff_exists'.mp hmarked
  obtain ⟨other, hother, hcut⟩ := List.exists_of_findSome?_eq_some hbase
  obtain ⟨front, hfront, rfl⟩ := Option.map_eq_some_iff.mp hcut
  rw [List.isSuffixOf?_eq_some_iff_append_eq] at hfront
  -- the markers can be told from their last characters
  have hlast : other.getLast? = marker.getLast? := by
    rw [← getLast?_append_marker hother front, hfront, getLast?_append_marker h]
  have hsame : ∀ first ∈ nullableMarkers, ∀ second ∈ nullableMarkers, first.getLast? = second.getLast? →
      first = second := by decide
  obtain rfl := hsame other hother marker h hlast
  rw [hbase, List.append_cancel_right hfront]

/-- A question mark is a marker. -/
theorem mark_mem_nullableMarkers : ['?'] ∈ nullableMarkers :=
  List.mem_cons_self

/-- The parentheses of a text stay inside exactly if no part of it from its front closes more than it opens and is
open before it. -/
theorem staysInside_iff :
    staysInside depth text = true ↔ ∀ front, front <+: text → front.count ')' ≤ depth + front.count '(' := by
  induction text generalizing depth with
  | nil => simp [staysInside]
  | cons c text ih =>
    have hcons : (∀ front, front <+: c :: text → front.count ')' ≤ depth + front.count '(') ↔
        ∀ front, front <+: text → (c :: front).count ')' ≤ depth + (c :: front).count '(' := by
      constructor
      · exact fun h front hfront => h (c :: front) ((List.prefix_cons_inj c).mpr hfront)
      · intro h front hfront
        rcases List.prefix_cons_iff.mp hfront with rfl | ⟨rest, rfl, hrest⟩
        · exact Nat.zero_le _
        · exact h rest hrest
    rw [hcons, staysInside]
    split
    · next hopen =>
      subst hopen
      rw [ih]
      refine forall₂_congr fun front _ => ?_
      simp only [List.count_cons, Char.reduceBEq, if_true, if_false, Bool.false_eq_true]
      omega
    · split
      · next hclose =>
        subst hclose
        rw [Bool.and_eq_true, ih, bne_iff_ne]
        simp only [List.count_cons, Char.reduceBEq, if_true, if_false, Bool.false_eq_true]
        constructor
        · rintro ⟨hdepth, h⟩ front hfront
          have hcount := h front hfront
          omega
        · intro h
          have hdepth := h [] List.nil_prefix
          rw [List.count_nil, List.count_nil] at hdepth
          refine ⟨by omega, fun front hfront => ?_⟩
          have hcount := h front hfront
          omega
      · next hopen hclose =>
        rw [ih]
        refine forall₂_congr fun front _ => ?_
        simp only [List.count_cons, beq_iff_eq, hopen, hclose, if_false, Nat.add_zero]

/-- The parentheses of a text stay inside of a group that it is in exactly if no part of it from its front closes more
than it opens. -/
theorem staysInside_zero_iff :
    staysInside 0 text = true ↔ ∀ front, front <+: text → front.count ')' ≤ front.count '(' := by
  rw [staysInside_iff]
  simp only [Nat.zero_add]

/-- What is inside of a text is the trimmed inside of the group that it is. -/
theorem groupInside?_eq_some_iff :
    groupInside? text = some found ↔ ∃ inside, IsGroup inside text ∧ trim inside = found := by
  unfold groupInside?
  simp only [Option.bind_eq_bind, Option.bind_eq_some_iff, List.isPrefixOf?_eq_some_iff_append_eq,
    List.isSuffixOf?_eq_some_iff_append_eq]
  constructor
  · rintro ⟨opened, rfl, inside, rfl, hfound⟩
    split at hfound
    · next hstays => exact ⟨inside, ⟨rfl, staysInside_zero_iff.mp hstays⟩, Option.some.inj hfound⟩
    · cases hfound
  · rintro ⟨inside, ⟨rfl, hcount⟩, rfl⟩
    refine ⟨inside ++ [')'], rfl, inside, rfl, ?_⟩
    rw [if_pos (staysInside_zero_iff.mpr hcount)]

/-- Exactly the texts without markers are left whole when a marker is split off. -/
theorem splitMarker_eq_iff : splitMarker text = (text, false) ↔ Unmarked text := by
  have hinside : (groupInside? text).bind unmarked? = none ↔
      ∀ inside, IsGroup inside text → ¬ Marked (trim inside) := by
    simp only [Option.bind_eq_none_iff, groupInside?_eq_some_iff, unmarked?_eq_none_iff]
    constructor
    · exact fun h inside hgroup => h (trim inside) ⟨inside, hgroup, rfl⟩
    · rintro h _ ⟨inside, hgroup, rfl⟩
      exact h inside hgroup
  unfold splitMarker
  constructor
  · intro h
    split at h
    · cases h
    · next houtside =>
      split at h
      · cases h
      · next hnone => exact ⟨unmarked?_eq_none_iff.mp houtside, hinside.mp hnone⟩
  · intro h
    rw [unmarked?_eq_none_iff.mpr h.outside]
    dsimp only
    rw [hinside.mpr h.inside]

/-- Whether a text is unmarked is found out by looking for each marker at its end. -/
instance : Decidable (Unmarked text) :=
  decidable_of_iff (splitMarker text = (text, false)) splitMarker_eq_iff

/-- A marker at the end is split off. -/
theorem splitMarker_append {marker : List Char} (h : marker ∈ nullableMarkers) (text : List Char) :
    splitMarker (text ++ marker) = (trimEnd text, true) := by
  unfold splitMarker
  rw [unmarked?_append h]

/-! ## Types -/

/-- A type with brackets at the end, or before a marker there, is an array. -/
theorem ofText_of_brackets {element : List Char} (brackets : (unmarked? text).getD text = element ++ ['[', ']']) :
    ofText text = ⟨String.ofList (splitMarker (trimEnd element)).1, (splitMarker (trimEnd element)).2, true,
      (unmarked? text).isSome⟩ := by
  have hsuffix : ['[', ']'].isSuffixOf? ((unmarked? text).getD text) = some element :=
    List.isSuffixOf?_eq_some_iff_append_eq.mpr brackets.symm
  unfold ofText
  simp only [hsuffix]

/-- Any other type is none, and a marker at the end comes off at once. -/
theorem ofText_of_single (single : ['[', ']'].isSuffixOf? ((unmarked? text).getD text) = none) :
    ofText text =
      match unmarked? text with
      | some outer => ⟨String.ofList outer, true, false, false⟩
      | none => ⟨String.ofList (splitMarker text).1, (splitMarker text).2, false, false⟩ := by
  unfold ofText
  simp only [single]
  cases unmarked? text <;> rfl

/-- A type is read off a span if what is left of it without its blanks and decorations is not empty. -/
theorem parse_eq_ok_iff {span : List Char} {shape : TypeShape} :
    parse span = .ok shape ↔ ofText (trim span) = shape ∧ shape.base ≠ "" := by
  unfold parse
  dsimp only
  constructor
  · intro h
    split at h
    · cases h
    · next hnonempty =>
      obtain rfl := Except.ok.inj h
      exact ⟨rfl, fun hempty => hnonempty (String.isEmpty_iff.mpr hempty)⟩
  · rintro ⟨rfl, hnonempty⟩
    exact if_neg fun hempty => hnonempty (String.isEmpty_iff.mp hempty)

/-! ## Written types -/

/-- Brackets at the end make an array of the element before them, and a question mark after them belongs to the
array. -/
theorem ofText_brackets {element : List Char} (trimmed : Trimmed element) (arrayNullable : Bool) :
    ofText (element ++ (['[', ']'] ++ if arrayNullable then ['?'] else [])) =
      ⟨String.ofList (splitMarker element).1, (splitMarker element).2, true, arrayNullable⟩ := by
  have hbrackets : Trimmed (element ++ ['[', ']']) := trimmed.append (by decide)
  have hmarked : unmarked? (element ++ (['[', ']'] ++ if arrayNullable then ['?'] else [])) =
      if arrayNullable then some (element ++ ['[', ']']) else none := by
    cases arrayNullable with
    | false => exact unmarked?_eq_none_iff.mpr (not_marked_append_brackets element)
    | true =>
      rw [if_pos rfl, if_pos rfl, ← List.append_assoc, unmarked?_append mark_mem_nullableMarkers, hbrackets.trimEnd_eq]
  rw [ofText_of_brackets, hmarked, trimmed.trimEnd_eq]
  · cases arrayNullable <;> rfl
  · rw [hmarked]
    cases arrayNullable <;> rfl

/-- Without brackets at the end a question mark belongs to the value. -/
theorem ofText_single {base : List Char} (trimmed : Trimmed base) (single : ¬ "[]".toList <:+ base)
    {nullable : Bool} (unmarked : nullable = false → Unmarked base) :
    ofText (base ++ if nullable then ['?'] else []) = ⟨String.ofList base, nullable, false, false⟩ := by
  have hsuffix : ['[', ']'].isSuffixOf? base = none := by
    rw [Option.eq_none_iff_forall_ne_some]
    intro front heq
    exact single ⟨front, List.isSuffixOf?_eq_some_iff_append_eq.mp heq⟩
  unfold ofText
  cases nullable with
  | false =>
    have hnone : unmarked? base = none := unmarked?_eq_none_iff.mpr (unmarked rfl).outside
    simp only [Bool.false_eq_true, if_false, List.append_nil, hnone, Option.getD_none, hsuffix, Option.isSome_none,
      splitMarker_eq_iff.mpr (unmarked rfl)]
  | true =>
    have hsome : unmarked? (base ++ ['?']) = some base := by
      rw [unmarked?_append mark_mem_nullableMarkers, trimmed.trimEnd_eq]
    simp only [if_true, hsome, Option.getD_some, hsuffix, Option.isSome_some]

/-- A base without blanks at its ends and its own question mark have none. -/
theorem trimmed_element {shape : TypeShape} (trimmed : Trimmed shape.base.toList) :
    Trimmed (shape.base.toList ++ if shape.nullable then ['?'] else []) := by
  refine trimmed.append ?_
  cases shape.nullable <;> decide

/-- The written form of a type has no blank at either end if its base has none. -/
theorem trimmed_written {shape : TypeShape} (trimmed : Trimmed shape.base.toList) : Trimmed shape.written := by
  unfold written
  refine (trimmed_element trimmed).append ?_
  cases shape.array <;> cases shape.arrayNullable <;> decide

/-- The base of a type keeps its decorations apart from its text. -/
structure Plain (shape : TypeShape) : Prop where
  nonempty : shape.base ≠ ""
  trimmed : Trimmed shape.base.toList
  single : shape.array = false → ¬ "[]".toList <:+ shape.base.toList ∧ shape.arrayNullable = false
  unmarked : shape.nullable = false → Unmarked shape.base.toList

/-- The conditions of a plain shape can be checked. -/
instance (shape : TypeShape) : Decidable shape.Plain :=
  decidable_of_iff
    (shape.base ≠ "" ∧ Trimmed shape.base.toList
      ∧ (shape.array = false → ¬ "[]".toList <:+ shape.base.toList ∧ shape.arrayNullable = false)
      ∧ (shape.nullable = false → Unmarked shape.base.toList))
    ⟨fun ⟨h, htrimmed, hsingle, hunmarked⟩ => ⟨h, htrimmed, hsingle, hunmarked⟩,
      fun ⟨h, htrimmed, hsingle, hunmarked⟩ => ⟨h, htrimmed, hsingle, hunmarked⟩⟩

namespace Plain

variable {shape : TypeShape}

/-- The written form of a plain type has no blank at either end. -/
theorem trimmed_written (plain : shape.Plain) : Trimmed shape.written :=
  TypeShape.trimmed_written plain.trimmed

/-- A plain type is read back from its written form. -/
theorem ofText_written (plain : shape.Plain) : ofText shape.written = shape := by
  have htrimmed := trimmed_element plain.trimmed
  obtain ⟨base, nullable, array, arrayNullable⟩ := shape
  unfold written
  cases array with
  | true =>
    have hsplit : splitMarker (base.toList ++ if nullable then ['?'] else []) = (base.toList, nullable) := by
      cases nullable with
      | false => simpa using splitMarker_eq_iff.mpr (plain.unmarked rfl)
      | true => simpa [plain.trimmed.trimEnd_eq] using splitMarker_append mark_mem_nullableMarkers base.toList
    have hread := ofText_brackets htrimmed arrayNullable
    dsimp only at hread ⊢
    rw [hsplit, String.ofList_toList] at hread
    exact hread
  | false =>
    obtain ⟨hsingle, harray⟩ := plain.single rfl
    obtain rfl : arrayNullable = false := harray
    have hread := ofText_single plain.trimmed hsingle plain.unmarked
    rw [String.ofList_toList] at hread
    simpa using hread

/-- A span that spells a plain type is read as it. -/
theorem parse_written (plain : shape.Plain) : parse shape.written = .ok shape := by
  rw [parse_eq_ok_iff, plain.trimmed_written.trim_eq]
  exact ⟨plain.ofText_written, plain.nonempty⟩

end Plain

end TypingsIndex.TypeShape
