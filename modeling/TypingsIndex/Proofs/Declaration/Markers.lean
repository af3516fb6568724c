import TypingsIndex.Proofs.Declaration.Decorated

/-!
# The spellings of a nullable marker

A nullable marker has three spellings, and it does not matter which of them is used: behind a text that is not blank
each of them comes off at once and leaves the same. So it is with the marker of an element, which may stand before the
brackets of an array as it is or at the end of a group, and with the marker of the array itself, which stands behind
them (`markers_interchangeable`).
-/

set_option autoImplicit false

namespace TypingsIndex.TypeShape

open Text

/-- A nullable marker. -/
inductive NullableMarker where
  | sign
  | null
  | undefined
  deriving DecidableEq, Repr

/-- How a marker is spelled. -/
def NullableMarker.spelled : NullableMarker → List Char
  | .sign => "?".toList
  | .null => " | null".toList
  | .undefined => " | undefined".toList

variable {text : List Char} (marker other : NullableMarker)

/-- The spellings are those that are looked for. -/
theorem NullableMarker.spelled_mem : marker.spelled ∈ nullableMarkers := by
  cases marker <;> decide

/-- A spelling ends with no blank. -/
theorem NullableMarker.exists_last : ∃ c, marker.spelled.getLast? = some c ∧ isBlank c = false := by
  cases marker with
  | sign => exact ⟨'?', rfl, by decide⟩
  | null => exact ⟨'l', rfl, by decide⟩
  | undefined => exact ⟨'d', rfl, by decide⟩

/-- No spelling has a parenthesis in it. -/
theorem NullableMarker.count_spelled : marker.spelled.count '(' = 0 ∧ marker.spelled.count ')' = 0 := by
  cases marker <;> decide

/-- A marker behind a text without blanks at its ends leaves it so. -/
theorem trimmed_append_marker (trimmed : Trimmed text) (nonempty : text ≠ []) : Trimmed (text ++ marker.spelled) := by
  obtain ⟨c, hlast, hc⟩ := marker.exists_last
  have h := trimmed_trim (text ++ marker.spelled)
  rwa [trim_append (trimmed.not_blanks nonempty) hlast hc, trimStart_eq_self trimmed.head] at h

/-- A type with a marker at its end is the same under every spelling. -/
theorem ofText_append_marker (text : List Char) : ofText (text ++ marker.spelled) = ofText (text ++ other.spelled) := by
  unfold ofText
  rw [unmarked?_append marker.spelled_mem, unmarked?_append other.spelled_mem]
  rfl

/-- Behind a text that is not blank a marker is read the same under every spelling. -/
theorem parse_append_marker (filled : ¬ Blanks text) :
    (parse (text ++ marker.spelled)).toOption = (parse (text ++ other.spelled)).toOption := by
  obtain ⟨c, hlast, hc⟩ := marker.exists_last
  obtain ⟨d, hother, hd⟩ := other.exists_last
  unfold parse
  rw [trim_append filled hlast hc, trim_append filled hother hd, ofText_append_marker marker other]
  dsimp only
  split <;> rfl

/-! ## Elements and arrays -/

/-- The marker of an array is read apart from that of its elements. -/
theorem ofText_marked_array {element : List Char} (trimmed : Trimmed element) :
    ofText (element ++ "[]".toList ++ marker.spelled) =
      ⟨String.ofList (splitMarker element).1, (splitMarker element).2, true, true⟩ := by
  have hsign := ofText_brackets trimmed true
  rw [if_pos rfl, ← List.append_assoc] at hsign
  rw [ofText_append_marker marker .sign]
  exact hsign

/-- A marker in a group keeps the parentheses before it inside. -/
theorem isGroup_marked (kept : ∀ front, front <+: text → front.count ')' ≤ front.count '(') :
    IsGroup (text ++ marker.spelled) ('(' :: (text ++ marker.spelled ++ [')'])) := by
  refine ⟨rfl, fun front hfront => ?_⟩
  obtain ⟨back, heq⟩ := hfront
  rcases List.append_eq_append_iff.mp heq with ⟨rest, htext, -⟩ | ⟨rest, rfl, hmarker⟩
  · exact kept front ⟨rest, htext.symm⟩
  · have hclosed : rest.count ')' = 0 :=
      Nat.le_zero.mp (marker.count_spelled.2 ▸ hmarker ▸ (List.sublist_append_left rest back).count_le ')')
    have htext := kept text List.prefix_rfl
    rw [List.count_append, List.count_append]
    omega

/-- A marker at the end of a group is split off with the parentheses. -/
theorem splitMarker_group (trimmed : Trimmed text) (nonempty : text ≠ [])
    (kept : ∀ front, front <+: text → front.count ')' ≤ front.count '(') :
    splitMarker ('(' :: (text ++ marker.spelled ++ [')'])) = (text, true) := by
  have houtside : unmarked? ('(' :: (text ++ marker.spelled ++ [')'])) = none :=
    unmarked?_eq_none_iff.mpr (not_marked_append_singleton (by decide) ('(' :: (text ++ marker.spelled)))
  have hinside : groupInside? ('(' :: (text ++ marker.spelled ++ [')'])) = some (text ++ marker.spelled) :=
    groupInside?_eq_some_iff.mpr
      ⟨_, isGroup_marked marker kept, (trimmed_append_marker marker trimmed nonempty).trim_eq⟩
  unfold splitMarker
  rw [houtside, hinside, Option.bind_some, unmarked?_append marker.spelled_mem, trimmed.trimEnd_eq]

/-- An element with its marker split off makes the same array with and without a marker behind the brackets, but for
the one flag. -/
theorem parse_array {element : List Char} (trimmed : Trimmed element) (nonempty : text ≠ [])
    (split : splitMarker element = (text, true)) :
    parse (element ++ "[]".toList) = .ok ⟨String.ofList text, true, true, false⟩
      ∧ parse (element ++ "[]".toList ++ marker.spelled) = .ok ⟨String.ofList text, true, true, true⟩ := by
  have hbase : String.ofList text ≠ "" := by simpa using nonempty
  have hbrackets : Trimmed (element ++ "[]".toList) := trimmed.append (by decide)
  rw [parse_eq_ok_iff, parse_eq_ok_iff]
  refine ⟨⟨?_, hbase⟩, ?_, hbase⟩
  · have hread := ofText_brackets trimmed false
    rw [if_neg Bool.false_ne_true, List.append_nil, split] at hread
    rw [hbrackets.trim_eq]
    exact hread
  · have hmarked : Trimmed (element ++ "[]".toList ++ marker.spelled) :=
      trimmed_append_marker marker hbrackets (by simp)
    rw [hmarked.trim_eq, ofText_marked_array marker trimmed, split]

/-- The spellings of a nullable marker are interchangeable. Behind a text that is not blank they are read as the same
type, or none is read. Behind a text without blanks at its ends that closes no parenthesis before it opens it, they make
the elements of an array nullable, at the end of a group as without one; the array itself is nullable exactly if a
marker, under any spelling, stands behind its brackets. -/
theorem markers_interchangeable (marker other outer : NullableMarker) (text : List Char) :
    (¬ Blanks text → (parse (text ++ marker.spelled)).toOption = (parse (text ++ other.spelled)).toOption)
      ∧ (text ≠ [] → Trimmed text → (∀ front, front <+: text → front.count ')' ≤ front.count '(') →
        parse ("(".toList ++ text ++ marker.spelled ++ ")[]".toList) = .ok ⟨String.ofList text, true, true, false⟩
          ∧ parse (text ++ other.spelled ++ "[]".toList) = .ok ⟨String.ofList text, true, true, false⟩
          ∧ parse ("(".toList ++ text ++ marker.spelled ++ ")[]".toList ++ outer.spelled) =
            .ok ⟨String.ofList text, true, true, true⟩
          ∧ parse (text ++ other.spelled ++ "[]".toList ++ outer.spelled) =
            .ok ⟨String.ofList text, true, true, true⟩) := by
  refine ⟨parse_append_marker marker other, fun nonempty trimmed kept => ?_⟩
  have hgroup : "(".toList ++ text ++ marker.spelled ++ ")[]".toList =
      ('(' :: (text ++ marker.spelled ++ [')'])) ++ "[]".toList := by simp
  have hgroupTrimmed : Trimmed ('(' :: (text ++ marker.spelled ++ [')'])) := by
    refine ⟨fun c hc => ?_, fun c hc => ?_⟩
    · obtain rfl := Option.some.inj hc
      decide
    · rw [← List.cons_append, List.getLast?_concat] at hc
      obtain rfl := Option.some.inj hc
      decide
  have hother : Trimmed (text ++ other.spelled) := trimmed_append_marker other trimmed nonempty
  have hsplit : splitMarker (text ++ other.spelled) = (text, true) := by
    rw [splitMarker_append other.spelled_mem, trimmed.trimEnd_eq]
  obtain ⟨hbare, hmarked⟩ := parse_array outer hgroupTrimmed nonempty (splitMarker_group marker trimmed nonempty kept)
  obtain ⟨hbareOther, hmarkedOther⟩ := parse_array outer hother nonempty hsplit
  rw [hgroup]
  exact ⟨hbare, hbareOther, hmarked, hmarkedOther⟩

/-- A base type that ends in a marker of its own and in the brackets of an array keeps both. -/
theorem markers_interchangeable_nested :
    let text := "(key: K) => V[]?".toList
    ¬ Blanks text
      ∧ (parse "(key: K) => V[]? | null".toList).toOption = (parse "(key: K) => V[]? | undefined".toList).toOption
      ∧ text ≠ [] ∧ Trimmed text ∧ (∀ front, front <+: text → front.count ')' ≤ front.count '(')
      ∧ parse "((key: K) => V[]? | null)[] | undefined".toList = .ok ⟨"(key: K) => V[]?", true, true, true⟩
      ∧ parse "(key: K) => V[]? | undefined[]".toList = .ok ⟨"(key: K) => V[]?", true, true, false⟩ := by
  intro text
  have nonempty : text ≠ [] := by decide
  have trimmed : Trimmed text := by decide
  have kept : ∀ front, front <+: text → front.count ')' ≤ front.count '(' := staysInside_zero_iff.mp (by decide)
  have filled : ¬ Blanks text := trimmed.not_blanks nonempty
  obtain ⟨hsame, harrays⟩ := markers_interchangeable .null .undefined .undefined text
  obtain ⟨-, hbare, hmarked, -⟩ := harrays nonempty trimmed kept
  exact ⟨filled, hsame filled, nonempty, trimmed, kept, hmarked, hbare⟩

end TypingsIndex.TypeShape
