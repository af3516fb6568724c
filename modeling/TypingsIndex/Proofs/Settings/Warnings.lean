import TypingsIndex.Proofs.Json.Places
import TypingsIndex.Proofs.Settings.UnknownKeys
import TypingsIndex.Proofs.Text.Shown

/-!
# What warnings say

There is one warning for each unknown key, in order. It ought to name the key in full, and to give a line only where
the key of an object stands (`Faithful`). What every warning does is less (`Tells`): of a key with dots in it, what is
behind the last of them is named, and the line is the first of the text that shows it in quotes, whether as a key or
as a value. So a warning is faithful exactly if its key has no dots and the first line that shows it has it as a key
(`Tells.faithful_iff`).

A key that is written as it is stands on some line, as the reader went by it there (`exists_keyAt`). So a line is
given for it, which comes no later.
-/

set_option autoImplicit false

namespace TypingsIndex

open Json (Draft KeyAt)
open Text (Shown FirstShown lineBehind)

namespace Settings

variable {text piece line : List Char} {key : String} {members : List (Option String × Draft)} {file : Path}
  {number : Nat}

/-- A key as a text shows it. -/
def quoted (key : String) : List Char :=
  '"' :: key.toList ++ ['"']

/-- A line of a text has a key of an object on it, written as it is. -/
def KeyOnLine (text : List Char) (number : Nat) (key : String) : Prop :=
  ∃ before after, KeyAt text before key.toList (some key) after ∧ lineBehind before = number

/-- Wherever a text shows a key in quotes, the key of an object stands. -/
def OnlyKey (text : List Char) (key : String) : Prop :=
  ∀ before after, text = before ++ (quoted key ++ after) → KeyAt text before key.toList (some key) after

/-- A warning names a key in full, and if it gives a line, the key of an object is there. -/
structure Faithful (text : List Char) (key : String) (warning : Warning) : Prop where
  key_eq : warning.key = key
  line (number : Nat) (h : warning.line = some number) : KeyOnLine text number key

/-- What a warning of a key says. It names what is behind the last dot of the key, and gives the first line that shows
that in quotes. The key stands in the text, and if it has no dots and is written as it is, a line is given, which comes
no later than the key. -/
structure Tells (text : List Char) (file : Path) (key : String) (warning : Warning) : Prop where
  file_eq : warning.file = file
  key_undotted : '.' ∉ warning.key.toList
  key_eq : key = warning.key ∨ ∃ front, key = front ++ "." ++ warning.key
  line_iff (number : Nat) : warning.line = some number ↔ FirstShown text number (quoted warning.key)
  placed : ∃ before written after, KeyAt text before written (some key) after
    ∧ ('.' ∉ key.toList → '\\' ∉ written → ∃ number ≤ lineBehind before, warning.line = some number)

/-! ## Places that are computed -/

/-- A text with a key in it: what comes before, the key in quotes, and what comes behind. -/
theorem text_eq_of_keyAt {before written after : List Char} {key : Option String}
    (h : KeyAt text before written key after) : text = before ++ ('"' :: written ++ ['"'] ++ after) := by
  rw [h.text_eq, List.cons_append, List.cons_append, List.append_assoc]
  rfl

/-- What shows a key in quotes is cut out of the text at the place where it begins. -/
theorem cut_of_shown {before after : List Char} (h : text = before ++ (quoted key ++ after)) :
    before.length < text.length ∧ text.take before.length = before ∧ quoted key <+: text.drop before.length
      ∧ text.drop (before.length + (quoted key).length) = after := by
  have hbehind : text = (before ++ quoted key) ++ after := by rw [h, List.append_assoc]
  refine ⟨?_, ?_, ?_, ?_⟩
  · rw [h, List.length_append, List.length_append, quoted, List.length_append, List.length_cons]
    omega
  · rw [h, List.take_left]
  · rw [h, List.drop_left]
    exact List.prefix_append _ _
  · rw [← List.length_append, hbehind, List.drop_left]

/-- To see whether a line has a key, it is enough to look at every place of the text. -/
theorem keyOnLine_iff :
    KeyOnLine text number key ↔ ∃ index < text.length,
      KeyAt text (text.take index) key.toList (some key) (text.drop (index + (quoted key).length))
        ∧ lineBehind (text.take index) = number := by
  constructor
  · rintro ⟨before, after, hplace, rfl⟩
    obtain ⟨hless, hbefore, -, hafter⟩ := cut_of_shown (text_eq_of_keyAt hplace)
    refine ⟨before.length, hless, ?_, ?_⟩
    · rw [hbefore, hafter]
      exact hplace
    · rw [hbefore]
  · rintro ⟨index, -, hplace, hnumber⟩
    exact ⟨_, _, hplace, hnumber⟩

/-- To see whether a key stands wherever it is shown, it is enough to look at every place of the text. -/
theorem onlyKey_iff :
    OnlyKey text key ↔ ∀ index < text.length, quoted key <+: text.drop index →
      KeyAt text (text.take index) key.toList (some key) (text.drop (index + (quoted key).length)) := by
  constructor
  · rintro h index - ⟨after, hafter⟩
    have htext : text = text.take index ++ (quoted key ++ after) := by rw [hafter, List.take_append_drop]
    have hrest : text.drop (index + (quoted key).length) = after := by
      rw [← List.drop_drop, ← hafter, List.drop_left]
    rw [hrest]
    exact h _ _ htext
  · intro h before after htext
    obtain ⟨hless, hbefore, hshown, hafter⟩ := cut_of_shown htext
    have hplace := h before.length hless hshown
    rw [hbefore, hafter] at hplace
    exact hplace

/-- To see whether a warning is faithful, it is enough to look at the line that it gives. -/
theorem faithful_iff_forall {warning : Warning} :
    Faithful text key warning ↔ warning.key = key ∧ ∀ number ∈ warning.line, KeyOnLine text number key :=
  ⟨fun h => ⟨h.key_eq, h.line⟩, fun h => ⟨h.1, h.2⟩⟩

/-- Whether a line has a key is found out place by place. -/
instance : Decidable (KeyOnLine text number key) :=
  decidable_of_iff _ keyOnLine_iff.symm

/-- Whether a key stands wherever it is shown is found out place by place. -/
instance : Decidable (OnlyKey text key) :=
  decidable_of_iff _ onlyKey_iff.symm

/-- Whether a warning is faithful is found out from its key and its line. -/
instance (warning : Warning) : Decidable (Faithful text key warning) :=
  decidable_of_iff _ faithful_iff_forall.symm

/-! ## The line of a key -/

/-- The search for a piece in a line answers whether it occurs there. -/
theorem occursIn_iff : occursIn piece line = true ↔ piece <:+: line := by
  induction line with
  | nil => rw [occursIn, List.isEmpty_iff, List.infix_nil]
  | cons c rest ih =>
    rw [occursIn, Bool.or_eq_true, ih, List.isPrefixOf_iff_prefix, List.infix_cons_iff]

/-- The line that is found for a key is the first one that shows it in quotes. -/
theorem lineOfKey?_eq_some_iff : lineOfKey? text key.toList = some number ↔ FirstShown text number (quoted key) := by
  have hlast : (quoted key).getLast? = some '"' := List.getLast?_concat
  exact Text.findIdx?_lines_iff (fun _ => occursIn_iff) hlast (by decide)

/-! ## Places of keys -/

/-- A key that is written on one line is shown on the line where it stands. -/
theorem shown_of_keyAt {before written after : List Char} {key : Option String}
    (h : KeyAt text before written key after) (clean : '\n' ∉ written) :
    Shown text (lineBehind before) ('"' :: written ++ ['"']) := by
  refine ⟨?_, before, after, text_eq_of_keyAt h, rfl⟩
  simp [clean]

/-- Each value of whole members is whole. -/
theorem whole_of_mem {member : Option String × Draft} (whole : Draft.membersAreWhole members = true)
    (h : member ∈ members) : member.2.isWhole = true := by
  induction members with
  | nil => cases h
  | cons first members ih =>
    rw [Draft.membersAreWhole, Bool.and_eq_true] at whole
    rcases List.mem_cons.mp h with rfl | hmem
    · exact whole.1
    · exact ih whole.2 hmem

/-- A key that is reported is that of a member, or one that is reported of its value. -/
theorem mem_unknownIn {κ : Type} {table : List (String × κ)} {inner : κ → Draft → List String}
    (h : key ∈ unknownIn table inner members) :
    ∃ member ∈ members, member.1 = some key ∨ ∃ kind, key ∈ inner kind member.2 := by
  obtain ⟨member, hmember, hkey⟩ := List.mem_flatMap.mp h
  refine ⟨member, hmember, ?_⟩
  split at hkey
  · cases hkey
  · next name hname =>
    split at hkey
    · rw [hname, List.mem_singleton.mp hkey]
      exact .inl rfl
    · next kind _ => exact .inr ⟨kind, hkey⟩

/-- An unknown key stands in the text as the key of an object. -/
theorem exists_keyAt (placed : ∀ member ∈ members, Draft.Placed text member)
    (whole : Draft.membersAreWhole members = true) (h : key ∈ unknownKeys members) :
    ∃ before written after, KeyAt text before written (some key) after := by
  obtain ⟨member, hmember, hkey | ⟨kind, hkey⟩⟩ := mem_unknownIn h
  · obtain ⟨before, written, after, _, _, hplace, -⟩ := placed member hmember
    exact ⟨before, written, after, hkey ▸ hplace⟩
  · obtain ⟨name, value⟩ := member
    cases kind with
    | leaf form => cases hkey
    | record keys =>
      cases value with
      | object inner =>
        have hinner : ∀ member ∈ inner, Draft.Placed text member :=
          (placed _ hmember).inner (whole_of_mem whole hmember)
        obtain ⟨member, hmember, hkey | ⟨leaf, hkey⟩⟩ := mem_unknownIn hkey
        · obtain ⟨before, written, after, _, _, hplace, -⟩ := hinner member hmember
          exact ⟨before, written, after, hkey ▸ hplace⟩
        · cases hkey
      | _ => cases hkey

/-! ## Warnings -/

variable {warning : Warning}

/-- The warning of a key that stands in a text says what such a warning says. -/
theorem tells_warningOf {before written after : List Char} (place : KeyAt text before written (some key) after)
    (file : Path) : Tells text file key (warningOf text file key) := by
  obtain ⟨hclean, hkey⟩ := Text.eq_or_append_afterLast '.' key.toList
  have hshown : (warningOf text file key).key.toList = Text.afterLast '.' key.toList := String.toList_ofList
  have hline : ∀ number, (warningOf text file key).line = some number ↔
      FirstShown text number (quoted (warningOf text file key).key) := by
    intro number
    rw [← lineOfKey?_eq_some_iff, hshown]
    rfl
  refine ⟨rfl, hshown ▸ hclean, ?_, hline, before, written, after, place, fun hdots hescapes => ?_⟩
  · rcases hkey with heq | ⟨front, heq⟩
    · left
      rw [← String.toList_inj, hshown]
      exact heq
    · right
      refine ⟨String.ofList front, ?_⟩
      rw [← String.toList_inj, String.toList_append, String.toList_append, hshown, String.toList_ofList,
        List.append_assoc]
      exact heq
  · obtain ⟨hwritten, hvisible⟩ := place.unescaped hescapes
    have hstands : Shown text (lineBehind before) (quoted (warningOf text file key).key) := by
      have hsame : written = (warningOf text file key).key.toList := by
        rw [hshown, Text.afterLast_of_not_mem hdots, Option.some.inj hwritten, String.toList_ofList]
      unfold quoted
      rw [← hsame]
      exact shown_of_keyAt place hvisible.newline_not_mem
    obtain ⟨number, hless, hfirst⟩ := hstands.exists_first
    exact ⟨number, hless, (hline number).mpr hfirst⟩

/-- A warning names a key in full exactly if there is no dot in the key. -/
theorem Tells.key_eq_iff (h : Tells text file key warning) : warning.key = key ↔ '.' ∉ key.toList := by
  constructor
  · intro heq
    rw [← heq]
    exact h.key_undotted
  · intro hdots
    rcases h.key_eq with heq | ⟨front, heq⟩
    · exact heq.symm
    · refine absurd ?_ hdots
      rw [heq, String.toList_append, String.toList_append]
      exact List.mem_append_left _ (List.mem_append_right _ List.mem_cons_self)

/-- A warning is faithful exactly if there is no dot in its key and the first line that shows the key in quotes has it
as the key of an object. -/
theorem Tells.faithful_iff (h : Tells text file key warning) :
    Faithful text key warning ↔
      '.' ∉ key.toList ∧ ∀ number, FirstShown text number (quoted key) → KeyOnLine text number key := by
  constructor
  · rintro ⟨rfl, hline⟩
    exact ⟨h.key_undotted, fun number hfirst => hline number ((h.line_iff number).mpr hfirst)⟩
  · rintro ⟨hdots, hfirst⟩
    have hkey := h.key_eq_iff.mpr hdots
    refine ⟨hkey, fun number hline => hfirst number ?_⟩
    rw [← hkey]
    exact (h.line_iff number).mp hline

/-- If a key stands wherever it is shown, it stands on every line that shows it. -/
theorem OnlyKey.keyOnLine (h : OnlyKey text key) (shown : Shown text number (quoted key)) :
    KeyOnLine text number key := by
  obtain ⟨-, before, after, htext, hnumber⟩ := shown
  exact ⟨before, after, h before after htext, hnumber⟩

/-- Settings are loaded as they are parsed, with a warning for each unknown key. -/
theorem load_eq_ok_iff {text : String} {settings : Settings} {warnings : List Warning} :
    load text file = .ok (settings, warnings) ↔
      ∃ unknown, parse text.toList = .ok (settings, unknown) ∧ unknown.map (warningOf text.toList file) = warnings := by
  unfold load
  constructor
  · intro h
    split at h
    · next hparse =>
      cases h
      exact ⟨_, hparse, rfl⟩
    · cases h
  · rintro ⟨unknown, hparse, rfl⟩
    rw [hparse]

/-- A text that is accepted, with objects as sections, has one warning for each of its unknown keys, in order, and each
tells what a warning tells. Where the key has no dots in it and the text shows it in quotes only where the key of an
object stands, the warning is faithful. -/
theorem load_tells_unknown_keys {text : String} {file : Path} {settings : Settings} {warnings : List Warning}
    {rest : List Char} (loaded : load text file = .ok (settings, warnings))
    (read : Draft.read text.toList = (.object members, rest)) (opened : Opened Kind.Opened schema members) :
    List.Forall₂ (fun key warning => Tells text.toList file key warning
        ∧ (Faithful text.toList key warning ↔ '.' ∉ key.toList
          ∧ ∀ number, FirstShown text.toList number (quoted key) → KeyOnLine text.toList number key)
        ∧ ('.' ∉ key.toList → OnlyKey text.toList key → Faithful text.toList key warning))
      (unknownKeys members) warnings := by
  obtain ⟨unknown, hparse, rfl⟩ := load_eq_ok_iff.mp loaded
  obtain ⟨held, hreads, -⟩ := exists_reads hparse
  have hread := hreads.read
  rw [read] at hread
  obtain ⟨rfl, hwhole⟩ := codec_reports opened hread
  rw [List.forall₂_map_right_iff, List.forall₂_same]
  intro key hkey
  obtain ⟨before, written, after, hplace⟩ := exists_keyAt (Draft.read_placed read hwhole) hwhole hkey
  have htells : Tells text.toList file key (warningOf text.toList file key) := tells_warningOf hplace file
  refine ⟨htells, htells.faithful_iff, fun hdots honly => htells.faithful_iff.mpr ⟨hdots, fun number hfirst => ?_⟩⟩
  exact honly.keyOnLine hfirst.shown

/-- The indented text of an object without numbers is read as the draft of this object, to its end. -/
theorem read_prettyText {given : List (String × Json)} (plain : Json.Plain (.object given)) :
    Draft.read (Json.prettyText (.object given)).toList = (.object (Draft.ofMembers given), []) := by
  rw [Json.prettyText, String.toList_ofList, ← List.append_nil (Json.pretty _)]
  exact Json.read_pretty plain []

/-- The indented text of a value is loaded as its characters are parsed. -/
theorem load_prettyText {value : Json} {settings : Settings} {unknown : List String} {warnings : List Warning}
    (parsed : parse (Json.pretty value) = .ok (settings, unknown))
    (warned : unknown.map (warningOf (Json.pretty value) file) = warnings) :
    load value.prettyText file = .ok (settings, warnings) := by
  rw [load_eq_ok_iff, Json.prettyText, String.toList_ofList]
  exact ⟨unknown, parsed, warned⟩

/-- Two keys that nothing knows, one of them in a section. What is below the first of them is not reported, nor is
what the type map holds. -/
theorem load_tells_unknown_keys_nested :
    let members : List (String × Json) := [
      ("colour", .object [("shade", .null)]),
      ("module", .object [("speed", .bool true), ("async enabled", .bool true)]),
      ("type map", .object [("number", .string "int")])]
    let text := Json.prettyText (.object members)
    let file : Path := ⟨"settings.json"⟩
    let settings : Settings := {
      moduleCalls := { invoke := false, trySync := true, async := true }
      typeMap := .ofList [("number", "int")] }
    let colour : Warning := ⟨"colour", file, some 2⟩
    let speed : Warning := ⟨"speed", file, some 6⟩
    load text file = .ok (settings, [colour, speed])
      ∧ Draft.read text.toList = (.object (Draft.ofMembers members), [])
      ∧ Opened Kind.Opened schema (Draft.ofMembers members)
      ∧ Faithful text.toList "colour" colour ∧ Faithful text.toList "speed" speed := by
  intro members text file settings colour speed
  have htext : text.toList = Json.pretty (.object members) := String.toList_ofList
  have hparse : parse (Json.pretty (.object members)) = .ok (settings, ["colour", "speed"]) := by decide +kernel
  have hwarnings : ["colour", "speed"].map (warningOf (Json.pretty (.object members)) file) = [colour, speed] := by
    decide +kernel
  have hload : load text file = .ok (settings, [colour, speed]) := load_prettyText hparse hwarnings
  have hplain : Json.Plain (.object members) := by
    refine .object ?_
    simp only [members, List.forall_mem_cons, List.not_mem_nil, false_imp_iff, implies_true, and_true]
    refine ⟨.object ?_, .object ?_, .object ?_⟩
    · exact List.forall_mem_singleton.mpr .null
    · exact List.forall_mem_cons.mpr ⟨.bool true, List.forall_mem_singleton.mpr (.bool true)⟩
    · exact List.forall_mem_singleton.mpr (.string _)
  have hread : Draft.read text.toList = (.object (Draft.ofMembers members), []) := read_prettyText hplain
  have hopened : Opened Kind.Opened schema (Draft.ofMembers members) := by
    intro member hmember key kind hkey hkind
    simp only [members, Draft.ofMembers, Draft.ofJson, List.mem_cons, List.not_mem_nil, or_false] at hmember
    rcases hmember with rfl | rfl | rfl
    all_goals cases hkey
    · cases hkind
    · cases hkind
      exact ⟨_, rfl⟩
    · cases hkind
      trivial
  have hkeys : unknownKeys (Draft.ofMembers members) = ["colour", "speed"] := by decide +kernel
  have htells := load_tells_unknown_keys hload hread hopened
  rw [hkeys] at htells
  obtain ⟨⟨-, -, hcolour⟩, hothers⟩ := List.forall₂_cons.mp htells
  obtain ⟨⟨-, -, hspeed⟩, -⟩ := List.forall₂_cons.mp hothers
  have honlyColour : OnlyKey text.toList "colour" := by
    rw [htext]
    decide +kernel
  have honlySpeed : OnlyKey text.toList "speed" := by
    rw [htext]
    decide +kernel
  exact ⟨hload, hread, hopened, hcolour (by decide) honlyColour, hspeed (by decide) honlySpeed⟩

/-- A key is looked for in the whole text, so that a value that reads like it is taken for it, and of a key with a dot
in it the part before the dot is lost. -/
theorem load_misnames_unknown_keys :
    let members : List (String × Json) :=
      [("using statements", .array [.string "colour"]), ("colour", .string "blue"), ("a.b", .bool true)]
    let text := Json.prettyText (.object members)
    let file : Path := ⟨"settings.json"⟩
    let settings : Settings := { usings := ["colour"] }
    let colour : Warning := ⟨"colour", file, some 3⟩
    let dotted : Warning := ⟨"b", file, none⟩
    load text file = .ok (settings, [colour, dotted])
      ∧ Draft.read text.toList = (.object (Draft.ofMembers members), [])
      ∧ Opened Kind.Opened schema (Draft.ofMembers members)
      ∧ unknownKeys (Draft.ofMembers members) = ["colour", "a.b"]
      ∧ ¬ Faithful text.toList "colour" colour ∧ ¬ Faithful text.toList "a.b" dotted := by
  intro members text file settings colour dotted
  have htext : text.toList = Json.pretty (.object members) := String.toList_ofList
  have hparse : parse (Json.pretty (.object members)) = .ok (settings, ["colour", "a.b"]) := by decide +kernel
  have hwarnings : ["colour", "a.b"].map (warningOf (Json.pretty (.object members)) file) = [colour, dotted] := by
    decide +kernel
  have hload : load text file = .ok (settings, [colour, dotted]) := load_prettyText hparse hwarnings
  have hplain : Json.Plain (.object members) := by
    refine .object ?_
    simp only [members, List.forall_mem_cons, List.not_mem_nil, false_imp_iff, implies_true, and_true]
    exact ⟨.array (List.forall_mem_singleton.mpr (.string _)), .string _, .bool true⟩
  have hread : Draft.read text.toList = (.object (Draft.ofMembers members), []) := read_prettyText hplain
  have hopened : Opened Kind.Opened schema (Draft.ofMembers members) := by
    intro member hmember key kind hkey hkind
    simp only [members, Draft.ofMembers, Draft.ofJson, List.mem_cons, List.not_mem_nil, or_false] at hmember
    rcases hmember with rfl | rfl | rfl
    all_goals
      cases hkey
      cases hkind
    trivial
  have hkeys : unknownKeys (Draft.ofMembers members) = ["colour", "a.b"] := by decide +kernel
  refine ⟨hload, hread, hopened, hkeys, ?_, ?_⟩
  all_goals
    rw [htext]
    decide +kernel

end Settings

end TypingsIndex
