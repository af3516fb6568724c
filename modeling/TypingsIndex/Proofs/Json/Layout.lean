import Mathlib.Data.List.DropRight
import TypingsIndex.Proofs.Json.Strings

/-!
# Reading what was laid out

A layout of a JSON value is its tokens in order with blanks between them (`Spells`). Whatever the blanks are, a text
that is laid out so is read as the value, with all that follows it left over. Of values, only those without numbers are
looked at (`Plain`), since a number has no bracket or quote at its end and goes on with whatever follows.
-/

set_option autoImplicit false

namespace TypingsIndex.Json

/-- A value without numbers. -/
inductive Plain : Json → Prop where
  | null : Plain .null
  | bool (value : Bool) : Plain (.bool value)
  | string (text : String) : Plain (.string text)
  | array {items : List Json} (items_plain : ∀ item ∈ items, Plain item) : Plain (.array items)
  | object {members : List (String × Json)} (members_plain : ∀ member ∈ members, Plain member.2) :
    Plain (.object members)

/-- Nothing but blanks. -/
def Blanks (text : List Char) : Prop :=
  ∀ c ∈ text, isBlank c = true

mutual

/-- A text is a layout of a value. -/
inductive Spells : Json → List Char → Prop where
  | null : Spells .null ['n', 'u', 'l', 'l']
  | yes : Spells (.bool true) ['t', 'r', 'u', 'e']
  | no : Spells (.bool false) ['f', 'a', 'l', 's', 'e']
  | string (text : String) : Spells (.string text) (quote text)
  | emptyArray {gap : List Char} (blanks : Blanks gap) : Spells (.array []) ('[' :: (gap ++ [']']))
  | array {items : List Json} {text : List Char} (spelled : SpellsItems items text) :
    Spells (.array items) ('[' :: (text ++ [']']))
  | emptyObject {gap : List Char} (blanks : Blanks gap) : Spells (.object []) ('{' :: (gap ++ ['}']))
  | object {members : List (String × Json)} {text : List Char} (spelled : SpellsMembers members text) :
    Spells (.object members) ('{' :: (text ++ ['}']))

/-- A text is a layout of items, of which there is one at least, with commas between them. -/
inductive SpellsItems : List Json → List Char → Prop where
  | single {item : Json} {before text after : List Char} (first : Blanks before) (spelled : Spells item text)
    (last : Blanks after) : SpellsItems [item] (before ++ (text ++ after))
  | cons {item : Json} {items : List Json} {before text after more : List Char} (first : Blanks before)
    (spelled : Spells item text) (last : Blanks after) (others : SpellsItems items more) :
    SpellsItems (item :: items) (before ++ (text ++ (after ++ ',' :: more)))

/-- A text is a layout of members, of which there is one at least, with commas between them. -/
inductive SpellsMembers : List (String × Json) → List Char → Prop where
  | single {key : String} {value : Json} {before gap inner text after : List Char} (first : Blanks before)
    (keyed : Blanks gap) (valued : Blanks inner) (spelled : Spells value text) (last : Blanks after) :
    SpellsMembers [(key, value)] (before ++ (quote key ++ (gap ++ ':' :: (inner ++ (text ++ after)))))
  | cons {key : String} {value : Json} {members : List (String × Json)} {before gap inner text after more : List Char}
    (first : Blanks before) (keyed : Blanks gap) (valued : Blanks inner) (spelled : Spells value text)
    (last : Blanks after) (others : SpellsMembers members more) :
    SpellsMembers ((key, value) :: members)
      (before ++ (quote key ++ (gap ++ ':' :: (inner ++ (text ++ (after ++ ',' :: more))))))

end

/-! ## Blanks -/

section

variable {c : Char} {gap text input rest : List Char}

/-- Blanks in front of a text are skipped. -/
theorem skipBlanks_append (blanks : Blanks gap) : skipBlanks (gap ++ text) = skipBlanks text := by
  unfold skipBlanks
  rw [List.dropWhile_append, List.dropWhile_eq_nil_iff.mpr blanks]
  rfl

/-- Nothing is skipped in front of a character that is no blank. -/
theorem skipBlanks_cons (h : isBlank c = false) : skipBlanks (c :: text) = c :: text := by
  unfold skipBlanks
  rw [List.dropWhile_cons, h]
  rfl

/-- Blanks are skipped up to the first character that is none. -/
theorem skipBlanks_append_cons (blanks : Blanks gap) (h : isBlank c = false) :
    skipBlanks (gap ++ c :: text) = c :: text := by
  rw [skipBlanks_append blanks, skipBlanks_cons h]

/-- Behind skipped blanks there is nothing to skip. -/
theorem skipBlanks_idem (text : List Char) : skipBlanks (skipBlanks text) = skipBlanks text :=
  List.dropWhile_idempotent isBlank text

/-- A layout begins with a character that is no blank and closes nothing. -/
theorem Spells.head {value : Json} (h : Spells value text) :
    ∃ c tail, text = c :: tail ∧ isBlank c = false ∧ c ≠ ']' := by
  cases h <;> exact ⟨_, _, rfl, rfl, by decide⟩

/-- The layout of a value does not begin with blanks. -/
theorem Spells.skipBlanks_eq {value : Json} (h : Spells value text) (rest : List Char) :
    skipBlanks (text ++ rest) = text ++ rest := by
  obtain ⟨c, tail, rfl, hblank, -⟩ := h.head
  exact skipBlanks_cons hblank

/-- A quoted key begins with its quote. -/
theorem skipBlanks_quote (key : String) (rest : List Char) :
    skipBlanks (quote key ++ rest) = '"' :: (key.toList.flatMap escape ++ '"' :: rest) := by
  unfold quote
  rw [List.append_assoc]
  exact skipBlanks_cons rfl

/-- What stands before the key of a member is skipped. -/
theorem skipBlanks_member (blanks : Blanks gap) (key : String) (rest : List Char) :
    skipBlanks (gap ++ (quote key ++ rest)) = '"' :: (key.toList.flatMap escape ++ '"' :: rest) := by
  rw [skipBlanks_append blanks, skipBlanks_quote]

/-- The draft of a value is whole. -/
theorem ofJson_ne_torn (value : Json) : Draft.ofJson value ≠ .torn := by
  cases value <;> intro h <;> cases h

end

/-! ## One token after the other -/

namespace Draft

variable {budget : Nat} {input inner rest : List Char}

/-- A quote begins a string. -/
theorem readValue_string {text : Option String} (h : skipBlanks input = '"' :: inner)
    (read : string? inner = some (text, rest)) : readValue (budget + 1) input = (.string text, rest) := by
  simp only [readValue, h, read]

/-- Brackets with nothing but blanks between them are the empty array. -/
theorem readValue_emptyArray (h : skipBlanks input = '[' :: inner) (close : skipBlanks inner = ']' :: rest) :
    readValue (budget + 1) input = (.array [], rest) := by
  simp only [readValue, h, close]

/-- A bracket that is not closed at once begins the items of an array. -/
theorem readValue_array {c : Char} {tail : List Char} {items : List Draft} (h : skipBlanks input = '[' :: inner)
    (first : skipBlanks inner = c :: tail) (item : c ≠ ']') (read : readItems budget (c :: tail) = (items, rest)) :
    readValue (budget + 1) input = (.array items, rest) := by
  simp only [readValue, h, first]
  split
  · next heq => exact absurd (List.cons.inj heq).1 item
  · rw [read]

/-- Braces with nothing but blanks between them are the empty object. -/
theorem readValue_emptyObject (h : skipBlanks input = '{' :: inner) (close : skipBlanks inner = '}' :: rest) :
    readValue (budget + 1) input = (.object [], rest) := by
  simp only [readValue, h, close]

/-- A brace with a quote behind it begins the members of an object. -/
theorem readValue_object {tail : List Char} {members : List (Option String × Draft)}
    (h : skipBlanks input = '{' :: inner) (first : skipBlanks inner = '"' :: tail)
    (read : readMembers budget ('"' :: tail) = (members, rest)) :
    readValue (budget + 1) input = (.object members, rest) := by
  simp only [readValue, h, first]
  split
  · next heq => cases (List.cons.inj heq).1
  · rw [read]

/-- An item with a bracket behind it is the last one. -/
theorem readItems_last {item : Draft} (read : readValue budget input = (item, inner)) (whole : item ≠ .torn)
    (close : skipBlanks inner = ']' :: rest) : readItems (budget + 1) input = ([item], rest) := by
  simp only [readItems, read, close]

/-- An item with a comma behind it is followed by others. -/
theorem readItems_more {item : Draft} {more : List Char} {items : List Draft}
    (read : readValue budget input = (item, inner)) (whole : item ≠ .torn) (comma : skipBlanks inner = ',' :: more)
    (others : readItems budget more = (items, rest)) : readItems (budget + 1) input = (item :: items, rest) := by
  simp only [readItems, read, comma, others]

section

variable {key : Option String} {value : Draft} {quoted after tail : List Char}
  (opened : skipBlanks input = '"' :: quoted) (keyed : string? quoted = some (key, after))
  (colon : skipBlanks after = ':' :: inner) (read : readValue budget inner = (value, tail)) (whole : value ≠ .torn)

include opened keyed colon read whole

/-- A member with a brace behind it is the last one. -/
theorem readMembers_last (close : skipBlanks tail = '}' :: rest) :
    readMembers (budget + 1) input = ([(key, value)], rest) := by
  simp only [readMembers, opened, keyed, colon, read, close]

/-- A member with a comma behind it is followed by others. -/
theorem readMembers_more {more : List Char} {members : List (Option String × Draft)}
    (comma : skipBlanks tail = ',' :: more) (others : readMembers budget more = (members, rest)) :
    readMembers (budget + 1) input = ((key, value) :: members, rest) := by
  simp only [readMembers, opened, keyed, colon, read, comma, others]

end

end Draft

/-! ## Whole layouts -/

/-- A layout of items does not begin with the bracket that closes the array. -/
theorem SpellsItems.head {items : List Json} {text : List Char} (h : SpellsItems items text) (rest : List Char) :
    ∃ c tail, skipBlanks (text ++ rest) = c :: tail ∧ c ≠ ']' := by
  have hhead : ∀ {item : Json} {before text : List Char} (more : List Char), Blanks before → Spells item text →
      ∃ c tail, skipBlanks (before ++ (text ++ more)) = c :: tail ∧ c ≠ ']' := by
    intro item before text more hfirst hspelled
    obtain ⟨c, tail, rfl, hblank, hclose⟩ := hspelled.head
    exact ⟨c, tail ++ more, by rw [skipBlanks_append hfirst, List.cons_append, skipBlanks_cons hblank], hclose⟩
  cases h with
  | single first spelled last =>
    rw [List.append_assoc, List.append_assoc]
    exact hhead _ first spelled
  | cons first spelled last others =>
    rw [List.append_assoc, List.append_assoc]
    exact hhead _ first spelled

/-- A layout of members begins with the quote of the first key. -/
theorem SpellsMembers.head {members : List (String × Json)} {text : List Char} (h : SpellsMembers members text)
    (rest : List Char) : ∃ tail, skipBlanks (text ++ rest) = '"' :: tail := by
  cases h with
  | single first keyed valued spelled last =>
    rw [List.append_assoc, List.append_assoc, skipBlanks_member first]
    exact ⟨_, rfl⟩
  | cons first keyed valued spelled last others =>
    rw [List.append_assoc, List.append_assoc, skipBlanks_member first]
    exact ⟨_, rfl⟩

-- The recursion is on the layout. A value takes no more steps than it has characters: its two brackets pay for the step
-- to what is between them, and each comma pays for the step to the next item.
mutual

/-- A layout is read as the value, if there is a step for each of its characters. -/
theorem Spells.readValue_eq {value : Json} {text : List Char} (spelled : Spells value text) {budget : Nat}
    {input rest : List Char} (enough : text.length ≤ budget) (h : skipBlanks input = text ++ rest) :
    Draft.readValue budget input = (Draft.ofJson value, rest) := by
  cases budget with
  | zero =>
    obtain ⟨c, tail, rfl, -⟩ := spelled.head
    cases enough
  | succ budget =>
    cases spelled with
    | null =>
      simp only [Draft.readValue, h]
      rfl
    | yes =>
      simp only [Draft.readValue, h]
      rfl
    | no =>
      simp only [Draft.readValue, h]
      rfl
    | string text =>
      have hquoted : skipBlanks input = '"' :: (text.toList.flatMap escape ++ '"' :: rest) := by
        rw [h, ← skipBlanks_quote, Spells.skipBlanks_eq (.string text)]
      exact Draft.readValue_string hquoted (string?_quoted text rest)
    | @emptyArray gap blanks =>
      have hclose : skipBlanks (gap ++ ']' :: rest) = ']' :: rest :=
        skipBlanks_append_cons blanks rfl
      have hinput : skipBlanks input = '[' :: (gap ++ ']' :: rest) := by
        rw [h, List.cons_append, List.append_assoc]
        rfl
      exact Draft.readValue_emptyArray hinput hclose
    | @array items text spelled =>
      obtain ⟨c, tail, hfirst, hclose⟩ := spelled.head (']' :: rest)
      have hinput : skipBlanks input = '[' :: (text ++ ']' :: rest) := by
        rw [h, List.cons_append, List.append_assoc]
        rfl
      -- Without the two brackets, the text between them is shorter than the budget that is left.
      have hlength : text.length < budget := by
        simp only [List.length_cons, List.length_append, List.length_nil] at enough
        omega
      have hitems : Draft.readItems budget (c :: tail) = (Draft.ofItems items, rest) := by
        apply spelled.readItems_eq hlength
        rw [← hfirst, skipBlanks_idem]
      exact Draft.readValue_array hinput hfirst hclose hitems
    | @emptyObject gap blanks =>
      have hclose : skipBlanks (gap ++ '}' :: rest) = '}' :: rest :=
        skipBlanks_append_cons blanks rfl
      have hinput : skipBlanks input = '{' :: (gap ++ '}' :: rest) := by
        rw [h, List.cons_append, List.append_assoc]
        rfl
      exact Draft.readValue_emptyObject hinput hclose
    | @object members text spelled =>
      obtain ⟨tail, hfirst⟩ := spelled.head ('}' :: rest)
      have hinput : skipBlanks input = '{' :: (text ++ '}' :: rest) := by
        rw [h, List.cons_append, List.append_assoc]
        rfl
      have hlength : text.length < budget := by
        simp only [List.length_cons, List.length_append, List.length_nil] at enough
        omega
      have hmembers : Draft.readMembers budget ('"' :: tail) = (Draft.ofMembers members, rest) := by
        apply spelled.readMembers_eq hlength
        rw [← hfirst, skipBlanks_idem]
      exact Draft.readValue_object hinput hfirst hmembers

/-- Items are read back from any layout of them, up to the bracket, if the budget exceeds its length. -/
theorem SpellsItems.readItems_eq {items : List Json} {text : List Char} (spelled : SpellsItems items text)
    {budget : Nat} {input rest : List Char} (enough : text.length < budget)
    (h : skipBlanks input = skipBlanks (text ++ ']' :: rest)) :
    Draft.readItems budget input = (Draft.ofItems items, rest) := by
  cases budget with
  | zero => cases enough
  | succ budget =>
    cases spelled with
    | @single item before text after first spelled last =>
      have hitem : Draft.readValue budget input = (Draft.ofJson item, after ++ ']' :: rest) := by
        apply spelled.readValue_eq
        · simp only [List.length_append] at enough
          omega
        · rw [h, List.append_assoc, skipBlanks_append first, List.append_assoc, spelled.skipBlanks_eq]
      have hclose : skipBlanks (after ++ ']' :: rest) = ']' :: rest :=
        skipBlanks_append_cons last rfl
      exact Draft.readItems_last hitem (ofJson_ne_torn item) hclose
    | @cons item items before text after more first spelled last others =>
      have hlength : before.length + text.length + after.length + 1 + more.length < budget + 1 := by
        simp only [List.length_append, List.length_cons] at enough
        omega
      have hitem : Draft.readValue budget input = (Draft.ofJson item, after ++ ',' :: (more ++ ']' :: rest)) := by
        apply spelled.readValue_eq
        · omega
        · rw [h, List.append_assoc, skipBlanks_append first, List.append_assoc, List.append_assoc,
            spelled.skipBlanks_eq, List.cons_append]
      have hothers : Draft.readItems budget (more ++ ']' :: rest) = (Draft.ofItems items, rest) :=
        others.readItems_eq (by omega) rfl
      have hcomma : skipBlanks (after ++ ',' :: (more ++ ']' :: rest)) = ',' :: (more ++ ']' :: rest) :=
        skipBlanks_append_cons last rfl
      exact Draft.readItems_more hitem (ofJson_ne_torn item) hcomma hothers

/-- Members are read back from any layout of them, up to the brace, if the budget exceeds its length. -/
theorem SpellsMembers.readMembers_eq {members : List (String × Json)} {text : List Char}
    (spelled : SpellsMembers members text) {budget : Nat} {input rest : List Char} (enough : text.length < budget)
    (h : skipBlanks input = skipBlanks (text ++ '}' :: rest)) :
    Draft.readMembers budget input = (Draft.ofMembers members, rest) := by
  cases budget with
  | zero => cases enough
  | succ budget =>
    cases spelled with
    | @single key value before gap inner text after first keyed valued spelled last =>
      have hlength : text.length ≤ budget := by
        simp only [List.length_append, List.length_cons] at enough
        omega
      have hopened : skipBlanks input = '"' :: (key.toList.flatMap escape ++ '"' ::
          (gap ++ ':' :: (inner ++ (text ++ (after ++ '}' :: rest))))) := by
        rw [h, List.append_assoc, List.append_assoc, skipBlanks_member first]
        simp only [List.append_assoc, List.cons_append]
      have hcolon : skipBlanks (gap ++ ':' :: (inner ++ (text ++ (after ++ '}' :: rest)))) =
          ':' :: (inner ++ (text ++ (after ++ '}' :: rest))) :=
        skipBlanks_append_cons keyed rfl
      have hvalue : Draft.readValue budget (inner ++ (text ++ (after ++ '}' :: rest))) =
          (Draft.ofJson value, after ++ '}' :: rest) := by
        apply spelled.readValue_eq hlength
        rw [skipBlanks_append valued, spelled.skipBlanks_eq]
      have hclose : skipBlanks (after ++ '}' :: rest) = '}' :: rest :=
        skipBlanks_append_cons last rfl
      exact Draft.readMembers_last hopened (string?_quoted key _) hcolon hvalue (ofJson_ne_torn value) hclose
    | @cons key value members before gap inner text after more first keyed valued spelled last others =>
      have hlength : text.length + more.length < budget := by
        simp only [List.length_append, List.length_cons] at enough
        omega
      have hopened : skipBlanks input = '"' :: (key.toList.flatMap escape ++ '"' ::
          (gap ++ ':' :: (inner ++ (text ++ (after ++ ',' :: (more ++ '}' :: rest)))))) := by
        rw [h, List.append_assoc, List.append_assoc, skipBlanks_member first]
        simp only [List.append_assoc, List.cons_append]
      have hcolon : skipBlanks (gap ++ ':' :: (inner ++ (text ++ (after ++ ',' :: (more ++ '}' :: rest))))) =
          ':' :: (inner ++ (text ++ (after ++ ',' :: (more ++ '}' :: rest)))) :=
        skipBlanks_append_cons keyed rfl
      have hvalue : Draft.readValue budget (inner ++ (text ++ (after ++ ',' :: (more ++ '}' :: rest)))) =
          (Draft.ofJson value, after ++ ',' :: (more ++ '}' :: rest)) := by
        apply spelled.readValue_eq (by omega)
        rw [skipBlanks_append valued, spelled.skipBlanks_eq]
      have hothers : Draft.readMembers budget (more ++ '}' :: rest) = (Draft.ofMembers members, rest) :=
        others.readMembers_eq (by omega) rfl
      have hcomma : skipBlanks (after ++ ',' :: (more ++ '}' :: rest)) = ',' :: (more ++ '}' :: rest) :=
        skipBlanks_append_cons last rfl
      exact Draft.readMembers_more hopened (string?_quoted key _) hcolon hvalue (ofJson_ne_torn value) hcomma hothers

end

/-! ## The pretty layout -/

/-- No characters are blanks. -/
theorem blanks_nil : Blanks [] := by
  intro c hc
  cases hc

/-- A new line with its indentation is blank. -/
theorem blanks_newLine (depth : Nat) : Blanks (newLine depth) := by
  intro c hc
  rcases List.mem_cons.mp hc with rfl | hspace
  · rfl
  · rw [List.eq_of_mem_replicate hspace]
    rfl

/-- A space is blank. -/
theorem blanks_space : Blanks [' '] := by
  intro c hc
  rw [List.mem_singleton.mp hc]
  rfl

section

variable {depth : Nat} {after : List Char}

/-- The indented text of items is a layout of them if that of each item is one. -/
theorem spellsItems_prettyItems {item : Json} {items : List Json}
    (h : ∀ other ∈ item :: items, Spells other (prettyAt depth other)) (hafter : Blanks after) :
    SpellsItems (item :: items) (prettyItems depth (item :: items) ++ after) := by
  have hitem : Spells item (prettyAt depth item) := h item List.mem_cons_self
  induction items generalizing item with
  | nil =>
    rw [prettyItems, List.append_assoc]
    exact .single (blanks_newLine depth) hitem hafter
  | cons next others ih =>
    have hothers : ∀ other ∈ next :: others, Spells other (prettyAt depth other) := by
      intro other hother
      exact h other (List.mem_cons_of_mem item hother)
    rw [prettyItems, List.append_assoc, List.append_assoc, List.cons_append]
    exact .cons (blanks_newLine depth) hitem blanks_nil (ih hothers (hothers next List.mem_cons_self))

/-- The indented text of members is a layout of them if that of each value is one. -/
theorem spellsMembers_prettyMembers {member : String × Json} {members : List (String × Json)}
    (h : ∀ other ∈ member :: members, Spells other.2 (prettyAt depth other.2)) (hafter : Blanks after) :
    SpellsMembers (member :: members) (prettyMembers depth (member :: members) ++ after) := by
  have hvalue : Spells member.2 (prettyAt depth member.2) := h member List.mem_cons_self
  induction members generalizing member with
  | nil =>
    rw [prettyMembers, List.append_assoc, List.append_assoc]
    exact .single (blanks_newLine depth) blanks_nil blanks_space hvalue hafter
  | cons next others ih =>
    have hothers : ∀ other ∈ next :: others, Spells other.2 (prettyAt depth other.2) := by
      intro other hother
      exact h other (List.mem_cons_of_mem member hother)
    rw [prettyMembers]
    simp only [List.append_assoc, List.cons_append]
    exact .cons (blanks_newLine depth) blanks_nil blanks_space hvalue blanks_nil
      (ih hothers (hothers next List.mem_cons_self))

end

/-- The pretty layout of a value is a layout of it, however far in it starts. -/
theorem spells_prettyAt {value : Json} (plain : Plain value) (depth : Nat) : Spells value (prettyAt depth value) := by
  induction plain generalizing depth with
  | null => exact .null
  | bool value =>
    cases value with
    | false => exact .no
    | true => exact .yes
  | string text => exact .string text
  | @array items _ ih =>
    cases items with
    | nil => exact .emptyArray blanks_nil
    | cons item items =>
      rw [prettyAt, List.cons_append, List.cons_append]
      have hitems : ∀ other ∈ item :: items, Spells other (prettyAt (depth + 1) other) := by
        intro other hother
        exact ih other hother (depth + 1)
      exact .array (spellsItems_prettyItems hitems (blanks_newLine depth))
  | @object members _ ih =>
    cases members with
    | nil => exact .emptyObject blanks_nil
    | cons member members =>
      rw [prettyAt, List.cons_append, List.cons_append]
      have hmembers : ∀ other ∈ member :: members, Spells other.2 (prettyAt (depth + 1) other.2) := by
        intro other hother
        exact ih other hother (depth + 1)
      exact .object (spellsMembers_prettyMembers hmembers (blanks_newLine depth))

/-- The pretty layout of a value is read as the value, and what follows it is left over. -/
theorem read_pretty {value : Json} (plain : Plain value) (rest : List Char) :
    Draft.read (pretty value ++ rest) = (Draft.ofJson value, rest) := by
  have hspelled : Spells value (pretty value) := spells_prettyAt plain 0
  unfold Draft.read
  apply hspelled.readValue_eq
  · rw [List.length_append]
    omega
  · exact hspelled.skipBlanks_eq rest

end TypingsIndex.Json
