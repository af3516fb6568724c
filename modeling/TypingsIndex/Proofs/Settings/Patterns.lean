import Mathlib.Data.List.Infix
import TypingsIndex.Settings.Document

/-!
# The patterns that are accepted

A name pattern is accepted exactly if it is put together from the placeholders of its field and from characters other
than `#` (`MadeOf`). The search looks for the next `#` and goes on behind the placeholder that it begins. It ends on
every pattern, since each placeholder takes something away, and it never has to go back, since no placeholder of a
field begins another: where a pattern goes on with a placeholder, no other one is found there.

The patterns are the last thing that is looked at in a settings text. One that can be read (`Reads`) is refused exactly
if one of its two patterns is, and nothing else in it has a part in that.
-/

set_option autoImplicit false

namespace TypingsIndex

namespace NamePattern

variable {placeholders : List String} {name : String} {text before rest : List Char} {c : Char}

/-- A text is put together from placeholders and from characters other than `#`. -/
inductive MadeOf (placeholders : List String) : List Char → Prop where
  | nil : MadeOf placeholders []
  | plain {c : Char} {rest : List Char} (other : c ≠ '#') (more : MadeOf placeholders rest) :
    MadeOf placeholders (c :: rest)
  | placeholder {name : String} {rest : List Char} (known : name ∈ placeholders) (more : MadeOf placeholders rest) :
    MadeOf placeholders (name.toList ++ rest)

/-- The placeholder that a text begins with: the first of them, if there are several. -/
def beginning? (placeholders : List String) (text : List Char) : Option String :=
  placeholders.find? fun name => name.toList.isPrefixOf text

/-- The search for a `#` that begins no placeholder, from one `#` to the next, with its answer. -/
inductive Search (placeholders : List String) : List Char → Bool → Prop where
  | ended {text : List Char} (unmarked : '#' ∉ text) : Search placeholders text true
  | refused {before tail : List Char} (unmarked : '#' ∉ before)
    (unknown : beginning? placeholders ('#' :: tail) = none) : Search placeholders (before ++ '#' :: tail) false
  | passed {before tail : List Char} {name : String} {answer : Bool} (unmarked : '#' ∉ before)
    (known : beginning? placeholders ('#' :: tail) = some name)
    (more : Search placeholders (('#' :: tail).drop name.toList.length) answer) :
    Search placeholders (before ++ '#' :: tail) answer

/-- Placeholders that begin with `#`, and of which none begins another. -/
structure ToldApart (placeholders : List String) : Prop where
  marked : ∀ name ∈ placeholders, ['#'] <+: name.toList
  apart : ∀ name ∈ placeholders, ∀ other ∈ placeholders, name.toList <+: other.toList → name = other

/-- The placeholders for the names of functions are told apart by what they begin with. -/
theorem functionPlaceholders_toldApart : ToldApart functionPlaceholders :=
  ⟨by decide, by decide⟩

/-- The placeholders for the names of preloads are told apart by what they begin with. -/
theorem preloadPlaceholders_toldApart : ToldApart preloadPlaceholders :=
  ⟨by decide, by decide⟩

/-! ## Placeholders at the front -/

/-- The placeholder that is found at the front of a text is a known one, and stands there. -/
theorem beginning?_eq_some (h : beginning? placeholders text = some name) :
    name ∈ placeholders ∧ ∃ rest, text = name.toList ++ rest := by
  unfold beginning? at h
  have hbegins := List.find?_some h
  obtain ⟨rest, hrest⟩ := List.isPrefixOf_iff_prefix.mp hbegins
  exact ⟨List.mem_of_find?_eq_some h, rest, hrest.symm⟩

/-- Of placeholders that are told apart, the one that a text goes on with is found. -/
theorem ToldApart.beginning?_append (h : ToldApart placeholders) (known : name ∈ placeholders) (rest : List Char) :
    beginning? placeholders (name.toList ++ rest) = some name := by
  have hname : name.toList <+: name.toList ++ rest := List.prefix_append _ _
  cases hfound : beginning? placeholders (name.toList ++ rest) with
  | none =>
    have hnot := List.find?_eq_none.mp hfound name known
    exact absurd (List.isPrefixOf_iff_prefix.mpr hname) hnot
  | some found =>
    obtain ⟨hmem, more, hmore⟩ := beginning?_eq_some hfound
    have hfound : found.toList <+: name.toList ++ rest := by
      rw [hmore]
      exact List.prefix_append _ _
    rcases List.prefix_or_prefix_of_prefix hfound hname with hbegins | hbegins
    · rw [h.apart found hmem name known hbegins]
    · rw [h.apart name known found hmem hbegins]

/-- A placeholder is not empty, and so a scan that passes it gets on. -/
theorem ToldApart.length_pos (h : ToldApart placeholders) (known : name ∈ placeholders) : 0 < name.toList.length :=
  Nat.lt_of_lt_of_le Nat.zero_lt_one (h.marked name known).length_le

/-! ## The scan -/

/-- A scan that is to skip characters goes on behind them. -/
theorem scan_drop (placeholders : List String) (skip : Nat) (text : List Char) :
    scan placeholders skip text = scan placeholders 0 (text.drop skip) := by
  induction skip generalizing text with
  | zero => rfl
  | succ skip ih =>
    cases text with
    | nil => rfl
    | cons c rest => exact ih rest

/-- A scan passes a character other than a hash sign. -/
theorem scan_plain (other : c ≠ '#') : scan placeholders 0 (c :: rest) = scan placeholders 0 rest := by
  rw [scan, if_neg other]

/-- A scan passes a text without hash signs. -/
theorem scan_append_plain (unmarked : '#' ∉ before) :
    scan placeholders 0 (before ++ rest) = scan placeholders 0 rest := by
  induction before with
  | nil => rfl
  | cons c before ih =>
    have hbefore : '#' ∉ before := List.not_mem_of_not_mem_cons unmarked
    rw [List.cons_append, scan_plain (List.ne_of_not_mem_cons unmarked).symm, ih hbefore]

/-- At a `#` the scan goes on behind the placeholder that begins there. -/
theorem ToldApart.scan_marked (h : ToldApart placeholders) :
    scan placeholders 0 ('#' :: rest) =
      match beginning? placeholders ('#' :: rest) with
      | some name => scan placeholders 0 (('#' :: rest).drop name.toList.length)
      | none => false := by
  rw [scan, if_pos rfl]
  change (match beginning? placeholders ('#' :: rest) with
    | some name => scan placeholders (name.toList.length - 1) rest
    | none => false) = _
  cases hfound : beginning? placeholders ('#' :: rest) with
  | none => rfl
  | some name =>
    have hpos := h.length_pos (beginning?_eq_some hfound).1
    dsimp only
    rw [scan_drop, ← List.drop_succ_cons (a := '#'), Nat.sub_add_cancel hpos]

/-- A scan passes a placeholder that it meets, and not a part of it or more than it. -/
theorem ToldApart.scan_placeholder (h : ToldApart placeholders) (known : name ∈ placeholders) :
    scan placeholders 0 (name.toList ++ rest) = scan placeholders 0 rest := by
  obtain ⟨more, hmore⟩ := h.marked name known
  have hcons : name.toList ++ rest = '#' :: (more ++ rest) := by
    rw [← hmore]
    rfl
  have hfound := h.beginning?_append known rest
  rw [hcons] at hfound
  rw [hcons, h.scan_marked, hfound]
  dsimp only
  rw [← hcons, List.drop_left]

/-- The search ends on every text, with the answer of the scan. -/
theorem ToldApart.search_scan (h : ToldApart placeholders) (text : List Char) :
    Search placeholders text (scan placeholders 0 text) := by
  -- on the length of the text: what is left behind a placeholder is shorter
  induction hlength : text.length using Nat.strongRecOn generalizing text with
  | ind length ih =>
    by_cases hmarked : '#' ∈ text
    · obtain ⟨before, tail, rfl, hbefore⟩ := List.eq_append_cons_of_mem hmarked
      rw [scan_append_plain hbefore, h.scan_marked]
      cases hfound : beginning? placeholders ('#' :: tail) with
      | none => exact .refused hbefore hfound
      | some name =>
        have hpos := h.length_pos (beginning?_eq_some hfound).1
        refine .passed hbefore hfound (ih _ ?_ _ rfl)
        rw [List.length_append, List.length_cons] at hlength
        rw [List.length_drop, List.length_cons]
        omega
    · have hscan : scan placeholders 0 text = true := by
        rw [← List.append_nil text, scan_append_plain hmarked]
        rfl
      rw [hscan]
      exact .ended hmarked

/-- A text without `#` before another that is put together is put together as well. -/
theorem MadeOf.append_plain (unmarked : '#' ∉ before) (h : MadeOf placeholders rest) :
    MadeOf placeholders (before ++ rest) := by
  induction before with
  | nil => exact h
  | cons c before ih =>
    have hbefore : '#' ∉ before := List.not_mem_of_not_mem_cons unmarked
    exact .plain (List.ne_of_not_mem_cons unmarked).symm (ih hbefore)

/-- A text that the search accepts is put together from placeholders and other characters. -/
theorem Search.madeOf {answer : Bool} (h : Search placeholders text answer) (accepted : answer = true) :
    MadeOf placeholders text := by
  induction h with
  | @ended text unmarked =>
    rw [← List.append_nil text]
    exact .append_plain unmarked .nil
  | refused => cases accepted
  | passed unmarked known more ih =>
    obtain ⟨hknown, rest, hrest⟩ := beginning?_eq_some known
    rw [hrest, List.drop_left] at ih
    rw [hrest]
    exact .append_plain unmarked (.placeholder hknown (ih accepted))

/-- A pattern is accepted exactly if it is put together from placeholders and characters other than `#`. -/
theorem ToldApart.scan_iff (h : ToldApart placeholders) :
    scan placeholders 0 text = true ↔ MadeOf placeholders text := by
  constructor
  · exact (h.search_scan text).madeOf
  · intro hmade
    induction hmade with
    | nil => rfl
    | plain other _ ih => rw [scan_plain other, ih]
    | placeholder known _ ih => rw [h.scan_placeholder known, ih]

/-- A pattern that is put together from placeholders and other characters is accepted. -/
theorem ToldApart.check_of_madeOf (h : ToldApart placeholders) {field pattern : String}
    (made : MadeOf placeholders pattern.toList) : check field pattern placeholders = .ok () :=
  if_pos (h.scan_iff.mpr made)

/-- Any other pattern is refused, with its field and the placeholders that were allowed. -/
theorem ToldApart.check_of_not_madeOf (h : ToldApart placeholders) {field pattern : String}
    (unmade : ¬ MadeOf placeholders pattern.toList) :
    check field pattern placeholders = .error (.unknownPlaceholder field pattern placeholders) :=
  if_neg fun haccepted => unmade (h.scan_iff.mp haccepted)

end NamePattern

namespace Settings

open NamePattern

variable {settings : Settings} {text : List Char} {unknown : List String}

/-- Both name patterns are put together from the placeholders of their fields and characters other than `#`. -/
structure Patterned (settings : Settings) : Prop where
  functions : MadeOf functionPlaceholders settings.functionNaming.pattern.toList
  preloads : MadeOf preloadPlaceholders settings.preloadNaming.pattern.toList

/-- The fault of a pattern of a field, with the placeholders that it might have used. -/
inductive Misplaced (settings : Settings) : SettingsFault → Prop where
  | functions (unmade : ¬ MadeOf functionPlaceholders settings.functionNaming.pattern.toList) :
    Misplaced settings
      (.unknownPlaceholder "function name pattern" settings.functionNaming.pattern functionPlaceholders)
  | preloads (made : MadeOf functionPlaceholders settings.functionNaming.pattern.toList)
    (unmade : ¬ MadeOf preloadPlaceholders settings.preloadNaming.pattern.toList) :
    Misplaced settings
      (.unknownPlaceholder "preload name pattern" settings.preloadNaming.pattern preloadPlaceholders)

/-- Settings whose patterns are put together from their placeholders are valid. -/
theorem Patterned.validate_eq (h : settings.Patterned) : settings.validate = .ok () := by
  unfold validate
  rw [functionPlaceholders_toldApart.check_of_madeOf h.functions,
    preloadPlaceholders_toldApart.check_of_madeOf h.preloads]
  rfl

/-- Settings with a pattern that is not are refused with the fault of the first such pattern. -/
theorem Misplaced.validate_eq {fault : SettingsFault} (h : settings.Misplaced fault) :
    settings.validate = .error fault := by
  unfold validate
  cases h with
  | functions unmade =>
    rw [functionPlaceholders_toldApart.check_of_not_madeOf unmade]
    rfl
  | preloads made unmade =>
    rw [functionPlaceholders_toldApart.check_of_madeOf made, preloadPlaceholders_toldApart.check_of_not_madeOf unmade]
    rfl

/-- The fault of a pattern rules out that all patterns are right. -/
theorem Misplaced.not_patterned {fault : SettingsFault} (h : settings.Misplaced fault) : ¬ settings.Patterned := by
  intro hpatterned
  have hvalid := hpatterned.validate_eq
  rw [h.validate_eq] at hvalid
  cases hvalid

/-- The patterns of settings are right, or one of them has a fault. -/
theorem patterned_or_misplaced (settings : Settings) : settings.Patterned ∨ ∃ fault, settings.Misplaced fault := by
  by_cases hfunctions : MadeOf functionPlaceholders settings.functionNaming.pattern.toList
  · by_cases hpreloads : MadeOf preloadPlaceholders settings.preloadNaming.pattern.toList
    · exact .inl ⟨hfunctions, hpreloads⟩
    · exact .inr ⟨_, .preloads hfunctions hpreloads⟩
  · exact .inr ⟨_, .functions hfunctions⟩

/-! ## Texts with patterns in them -/

/-- What a text is read as, before the declaration path is normalized and the patterns are looked at. -/
structure Reads (text : List Char) (settings : Settings) (unknown : List String) : Prop where
  read : codec.read (Json.Draft.read text).1 default = .ok (settings, unknown)
  ended : Json.skipBlanks (Json.Draft.read text).2 = []

/-- What is read of a text is normalized and then validated. -/
theorem Reads.parse_eq (h : Reads text settings unknown) :
    parse text = settings.normalize.validate.map fun _ => (settings.normalize, unknown) := by
  unfold parse
  dsimp only
  rw [h.read]
  change (if (Json.skipBlanks (Json.Draft.read text).2).isEmpty then do
    settings.normalize.validate
    .ok (settings.normalize, unknown) else .error .malformed) = _
  rw [h.ended, if_pos List.isEmpty_nil]
  cases settings.normalize.validate <;> rfl

/-- A text that is accepted was read as settings whose patterns hold. -/
theorem exists_reads {parsed : Settings} (h : parse text = .ok (parsed, unknown)) :
    ∃ settings, Reads text settings unknown ∧ parsed = settings.normalize := by
  cases hread : codec.read (Json.Draft.read text).1 default with
  | error fault =>
    unfold parse at h
    dsimp only at h
    rw [hread] at h
    cases h
  | ok found =>
    obtain ⟨settings, keys⟩ := found
    by_cases hended : Json.skipBlanks (Json.Draft.read text).2 = []
    · have hreads : Reads text settings keys := ⟨hread, hended⟩
      rw [hreads.parse_eq] at h
      cases hvalid : settings.normalize.validate with
      | error fault =>
        rw [hvalid] at h
        cases h
      | ok _ =>
        rw [hvalid] at h
        cases h
        exact ⟨settings, hreads, rfl⟩
    · unfold parse at h
      dsimp only at h
      rw [hread] at h
      change (if (Json.skipBlanks (Json.Draft.read text).2).isEmpty then _ else _) = _ at h
      rw [if_neg fun hempty => hended (List.isEmpty_iff.mp hempty)] at h
      cases h

/-- Normal settings have the faulty pattern that the settings had. -/
theorem Misplaced.normalize {fault : SettingsFault} (h : settings.Misplaced fault) :
    settings.normalize.Misplaced fault := by
  cases h with
  | functions unmade => exact .functions unmade
  | preloads made unmade => exact .preloads made unmade

/-- Settings with the right patterns are loaded, with a warning for each unknown key. -/
theorem Reads.load_of_patterned {text : String} (h : Reads text.toList settings unknown)
    (patterned : settings.Patterned) (file : Path) :
    load text file = .ok (settings.normalize, unknown.map (warningOf text.toList file)) := by
  have hvalid : settings.normalize.validate = .ok () :=
    Patterned.validate_eq ⟨patterned.functions, patterned.preloads⟩
  unfold load
  rw [h.parse_eq, hvalid]
  rfl

/-- Settings with a faulty pattern are not loaded, and the failure names the file and the fault. -/
theorem Reads.load_of_misplaced {text : String} (h : Reads text.toList settings unknown) {fault : SettingsFault}
    (misplaced : settings.Misplaced fault) (file : Path) : load text file = .error (.settings file fault) := by
  unfold load
  rw [h.parse_eq, misplaced.normalize.validate_eq]
  rfl

/-- Settings are valid exactly if both patterns are put together from the placeholders of their fields and characters
other than `#`, and the search that decides it ends on every pattern. A text that can be read is refused exactly if one
of its patterns is not, and then because of that pattern. -/
theorem refused_by_patterns :
    (∀ settings : Settings, settings.validate = .ok () ↔ settings.Patterned)
      ∧ (∀ pattern, Search functionPlaceholders pattern.toList (accepts functionPlaceholders pattern)
        ∧ Search preloadPlaceholders pattern.toList (accepts preloadPlaceholders pattern))
      ∧ ∀ (text : String) (file : Path) (settings : Settings) (unknown : List String),
        Reads text.toList settings unknown →
          ((∃ failure, load text file = .error failure) ↔ ¬ settings.Patterned)
            ∧ (settings.Patterned →
              load text file = .ok (settings.normalize, unknown.map (warningOf text.toList file)))
            ∧ ∀ failure, load text file = .error failure →
              ∃ fault, settings.Misplaced fault ∧ failure = .settings file fault := by
  refine ⟨fun settings => ?_, fun pattern => ?_, fun text file settings unknown hreads => ?_⟩
  · constructor
    · intro hvalid
      rcases patterned_or_misplaced settings with hpatterned | ⟨fault, hmisplaced⟩
      · exact hpatterned
      · rw [hmisplaced.validate_eq] at hvalid
        cases hvalid
    · exact Patterned.validate_eq
  · exact ⟨functionPlaceholders_toldApart.search_scan _, preloadPlaceholders_toldApart.search_scan _⟩
  · rcases patterned_or_misplaced settings with hpatterned | ⟨fault, hmisplaced⟩
    · have hload := hreads.load_of_patterned hpatterned file
      rw [hload]
      refine ⟨⟨?_, fun hnot => absurd hpatterned hnot⟩, fun _ => rfl, fun failure hfailed => ?_⟩
      · rintro ⟨failure, hfailed⟩
        cases hfailed
      · cases hfailed
    · have hload := hreads.load_of_misplaced hmisplaced file
      have hnot : ¬ settings.Patterned := hmisplaced.not_patterned
      rw [hload]
      refine ⟨⟨fun _ => hnot, fun _ => ⟨_, rfl⟩⟩, fun hpatterned => absurd hpatterned hnot, fun failure hfailed => ?_⟩
      exact ⟨fault, hmisplaced, (Except.error.inj hfailed).symm⟩

/-- Placeholders side by side, with letters beyond ASCII around them, are accepted. Two that would have to share a `#`
are refused, in a text where an unknown key is all that is odd besides. -/
theorem refused_by_patterns_shared :
    let settings : Settings := { functionNaming := { pattern := "é#module##function#" } }
    let shared : Settings := { preloadNaming := { pattern := "#module#module#" } }
    let text := "\x7b\"colour\": 1, \"preload name pattern\": \x7b\"pattern\": \"#module#module#\"\x7d\x7d"
    let file : Path := ⟨"settings.json"⟩
    settings.Patterned ∧ Search functionPlaceholders "é#module##function#".toList true
      ∧ Reads text.toList shared ["colour"] ∧ ¬ shared.Patterned
      ∧ Search preloadPlaceholders "#module#module#".toList false
      ∧ ∃ failure, load text file = .error failure := by
  intro settings shared text file
  obtain ⟨hvalid, hsearch, hload⟩ := refused_by_patterns
  have hreads : Reads text.toList shared ["colour"] := ⟨by decide +kernel, by decide +kernel⟩
  have hsettings : settings.Patterned := (hvalid settings).mp (by decide +kernel)
  have hshared : ¬ shared.Patterned := fun h => absurd ((hvalid shared).mpr h) (by decide +kernel)
  have haccepts : accepts functionPlaceholders "é#module##function#" = true := by decide +kernel
  have hrefuses : accepts preloadPlaceholders "#module#module#" = false := by decide +kernel
  refine ⟨hsettings, ?_, hreads, hshared, ?_, (hload text file shared _ hreads).1.mpr hshared⟩
  · rw [← haccepts]
    exact (hsearch _).1
  · rw [← hrefuses]
    exact (hsearch _).2

end Settings

end TypingsIndex
