import TypingsIndex.Proofs.Json.Layout

/-!
# Texts that denote a value

A text denotes a JSON value if it is read as that value and nothing but blanks follows it. No text denotes two values,
and every layout of a value denotes it, with blanks before and behind it. The compact layout is one of them. It has no
control character in it, whatever the texts inside the value are, so that it is one line.
-/

set_option autoImplicit false

namespace TypingsIndex.Json

variable {value other : Json} {text before after : List Char}

/-- A text is read as a value, and nothing but blanks follows it. -/
def Denotes (text : List Char) (value : Json) : Prop :=
  ∃ rest, Draft.read text = (.ofJson value, rest) ∧ skipBlanks rest = []

mutual

/-- Values that are drafted alike are the same value. -/
theorem ofJson_injective {value other : Json} (h : Draft.ofJson value = Draft.ofJson other) : value = other := by
  cases value with
  | array items =>
    cases other with
    | array others =>
      rw [ofItems_injective (Draft.array.inj h)]
    | _ => cases h
  | object members =>
    cases other with
    | object others =>
      rw [ofMembers_injective (Draft.object.inj h)]
    | _ => cases h
  | _ =>
    cases other <;> cases h
    rfl

/-- Items that are drafted alike are the same items. -/
theorem ofItems_injective {items others : List Json} (h : Draft.ofItems items = Draft.ofItems others) :
    items = others := by
  cases items with
  | nil =>
    cases others with
    | nil => rfl
    | cons => cases h
  | cons item items =>
    cases others with
    | nil => cases h
    | cons other others =>
      obtain ⟨hitem, hitems⟩ := List.cons.inj h
      rw [ofJson_injective hitem, ofItems_injective hitems]

/-- Members that are drafted alike are the same members, in the same order. -/
theorem ofMembers_injective {members others : List (String × Json)}
    (h : Draft.ofMembers members = Draft.ofMembers others) : members = others := by
  cases members with
  | nil =>
    cases others with
    | nil => rfl
    | cons => cases h
  | cons member members =>
    cases others with
    | nil => cases h
    | cons other others =>
      obtain ⟨hmember, hmembers⟩ := List.cons.inj h
      obtain ⟨hkey, hvalue⟩ := Prod.mk.inj hmember
      rw [← Prod.eta member, ← Prod.eta other, Option.some.inj hkey, ofJson_injective hvalue,
        ofMembers_injective hmembers]

end

/-- No text denotes two values. -/
theorem Denotes.unique (h : Denotes text value) (another : Denotes text other) : value = other := by
  obtain ⟨rest, hread, -⟩ := h
  obtain ⟨tail, hanother, -⟩ := another
  exact ofJson_injective (congrArg Prod.fst (hread.symm.trans hanother))

/-- Every layout of a value denotes it, whatever blanks are around it. -/
theorem Spells.denotes (h : Spells value text) (first : Blanks before) (last : Blanks after) :
    Denotes (before ++ (text ++ after)) value := by
  refine ⟨after, ?_, List.dropWhile_eq_nil_iff.mpr last⟩
  unfold Draft.read
  apply h.readValue_eq
  · simp only [List.length_append]
    omega
  · rw [skipBlanks_append first, h.skipBlanks_eq]

/-! ## The compact layout -/

/-- The compact text of items is a layout of them if that of each item is one. -/
theorem spellsItems_compactItems {item : Json} {items : List Json}
    (h : ∀ other ∈ item :: items, Spells other (compact other)) :
    SpellsItems (item :: items) (compactItems (item :: items)) := by
  have hitem : Spells item (compact item) := h item List.mem_cons_self
  induction items generalizing item with
  | nil =>
    rw [compactItems, ← List.append_nil (compact item)]
    exact .single blanks_nil hitem blanks_nil
  | cons next others ih =>
    have hothers : ∀ other ∈ next :: others, Spells other (compact other) := by
      intro other hother
      exact h other (List.mem_cons_of_mem item hother)
    rw [compactItems]
    exact .cons blanks_nil hitem blanks_nil (ih hothers (hothers next List.mem_cons_self))

/-- The compact text of members is a layout of them if that of each value is one. -/
theorem spellsMembers_compactMembers {member : String × Json} {members : List (String × Json)}
    (h : ∀ other ∈ member :: members, Spells other.2 (compact other.2)) :
    SpellsMembers (member :: members) (compactMembers (member :: members)) := by
  have hvalue : Spells member.2 (compact member.2) := h member List.mem_cons_self
  induction members generalizing member with
  | nil =>
    rw [compactMembers, ← List.append_nil (compact member.2)]
    exact .single blanks_nil blanks_nil blanks_nil hvalue blanks_nil
  | cons next others ih =>
    have hothers : ∀ other ∈ next :: others, Spells other.2 (compact other.2) := by
      intro other hother
      exact h other (List.mem_cons_of_mem member hother)
    rw [compactMembers, List.append_assoc]
    exact .cons blanks_nil blanks_nil blanks_nil hvalue blanks_nil (ih hothers (hothers next List.mem_cons_self))

/-- The compact layout of a value is a layout of it. -/
theorem spells_compact (plain : Plain value) : Spells value (compact value) := by
  induction plain with
  | null => exact .null
  | bool value =>
    cases value with
    | false => exact .no
    | true => exact .yes
  | string text => exact .string text
  | @array items _ ih =>
    cases items with
    | nil => exact .emptyArray blanks_nil
    | cons item items => exact .array (spellsItems_compactItems ih)
  | @object members _ ih =>
    cases members with
    | nil => exact .emptyObject blanks_nil
    | cons member members => exact .object (spellsMembers_compactMembers ih)

/-- The compact text of a value without numbers is read as this value, to its end. -/
theorem Plain.denotes_compact (plain : Plain value) : Denotes (compact value) value := by
  have hdenotes := (spells_compact plain).denotes blanks_nil blanks_nil
  rwa [List.nil_append, List.append_nil] at hdenotes

/-! ## No control characters -/

/-- A text without control characters. -/
def Visible (text : List Char) : Prop :=
  ∀ c ∈ text, 0x20 ≤ c.toNat

/-- A text without control characters is on one line. -/
theorem Visible.newline_not_mem (h : Visible text) : '\n' ∉ text := by
  intro hmem
  exact absurd (h '\n' hmem) (by decide)

/-- No hexadecimal digit is a control character. -/
theorem visible_hexDigit : ∀ value < 16, 0x20 ≤ (Text.hexDigit value).toNat := by
  decide

/-- No control character is left in what a character is written as. -/
theorem visible_escape (c : Char) : Visible (escape c) := by
  unfold escape
  split
  · simp [Visible]
  split
  · simp [Visible]
  split
  · simp [Visible]
  split
  · simp [Visible]
  split
  · simp [Visible]
  split
  · simp [Visible]
  split
  · simp [Visible]
  split
  · next hlow =>
    have hfront : Visible ['\\', 'u', '0', '0'] := by simp [Visible]
    refine List.forall_mem_append.mpr ⟨hfront, List.forall_mem_cons.mpr ⟨?_, List.forall_mem_singleton.mpr ?_⟩⟩
    · exact visible_hexDigit _ (by omega)
    · exact visible_hexDigit _ (by omega)
  · next hhigh =>
    exact List.forall_mem_singleton.mpr (Nat.le_of_not_lt hhigh)

/-- No control character is left in a quoted text. -/
theorem visible_quote (text : String) : Visible (quote text) := by
  refine List.forall_mem_cons.mpr ⟨by decide, List.forall_mem_append.mpr ⟨?_, by simp⟩⟩
  intro c hc
  obtain ⟨d, -, hd⟩ := List.mem_flatMap.mp hc
  exact visible_escape d c hd

/-- The compact text of items has no control characters if that of each item has none. -/
theorem visible_compactItems {items : List Json} (h : ∀ item ∈ items, Visible (compact item)) :
    Visible (compactItems items) := by
  induction items with
  | nil => exact fun _ hc => nomatch hc
  | cons item others ih =>
    obtain ⟨hitem, hothers⟩ := List.forall_mem_cons.mp h
    cases others with
    | nil => exact hitem
    | cons next others =>
      rw [compactItems]
      exact List.forall_mem_append.mpr ⟨hitem, List.forall_mem_cons.mpr ⟨by decide, ih hothers⟩⟩

/-- The compact text of members has no control characters if that of each value has none. -/
theorem visible_compactMembers {members : List (String × Json)} (h : ∀ member ∈ members, Visible (compact member.2)) :
    Visible (compactMembers members) := by
  have hmember : ∀ member ∈ members, Visible (quote member.1 ++ ':' :: compact member.2) := by
    intro member hmem
    refine List.forall_mem_append.mpr ⟨visible_quote member.1, List.forall_mem_cons.mpr ⟨by decide, h member hmem⟩⟩
  induction members with
  | nil => exact fun _ hc => nomatch hc
  | cons member others ih =>
    obtain ⟨-, hvalues⟩ := List.forall_mem_cons.mp h
    obtain ⟨hfirst, hothers⟩ := List.forall_mem_cons.mp hmember
    cases others with
    | nil => exact hfirst
    | cons next others =>
      rw [compactMembers]
      exact List.forall_mem_append.mpr ⟨hfirst, List.forall_mem_cons.mpr ⟨by decide, ih hvalues hothers⟩⟩

/-- The compact layout of a value has no control character, whatever the texts inside are. -/
theorem Plain.visible_compact (plain : Plain value) : Visible (compact value) := by
  induction plain with
  | null => simp [Visible, compact]
  | bool value =>
    cases value <;> simp [Visible, compact]
  | string text => exact visible_quote text
  | array _ ih =>
    exact List.forall_mem_cons.mpr ⟨by decide, List.forall_mem_append.mpr ⟨visible_compactItems ih, by simp⟩⟩
  | object _ ih =>
    exact List.forall_mem_cons.mpr ⟨by decide, List.forall_mem_append.mpr ⟨visible_compactMembers ih, by simp⟩⟩

end TypingsIndex.Json
