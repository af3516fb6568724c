import Mathlib.Data.List.Forall2
import TypingsIndex.Proofs.Settings.Schema

/-!
# Unknown keys

Which keys of a settings text are unknown is told by the table of keys: at the top those that are not in it, and in
each section those that are not among its own, in the order of the text (`unknownKeys`). What is below an unknown key
or in the type map has no keys of the settings, so that nothing is unknown there.

Reading a text reports these keys, where its sections are objects (`Settings.codec_reports`). This is shown of a
record whose fields go side by side with the entries of its table, each reporting what its entry asks for
(`Field.Reports`); the induction is on the members, which are accepted only if they are whole.
-/

set_option autoImplicit false

namespace TypingsIndex

open Json (Draft)

/-! ## Unknown keys -/

namespace Settings

/-- The keys of members that are not in a table, and what is reported of the values under the others, in order. -/
def unknownIn {κ : Type} (table : List (String × κ)) (inner : κ → Draft → List String)
    (members : List (Option String × Draft)) : List String :=
  members.flatMap fun member =>
    match member.1 with
    | none => []
    | some key =>
      match table.lookup key with
      | none => [key]
      | some kind => inner kind member.2

/-- No unknown keys are looked for in a value. -/
def Leaf.unknown (_ : Leaf) (_ : Draft) : List String :=
  []

/-- The unknown keys of a section. -/
def Kind.unknown : Kind → Draft → List String
  | .record keys, .object members => unknownIn keys Leaf.unknown members
  | _, _ => []

/-- The unknown keys at the top and in the sections, in order. -/
def unknownKeys (members : List (Option String × Draft)) : List String :=
  unknownIn schema Kind.unknown members

/-- Any value may stand under a key that is no section. -/
def Leaf.Opened (_ : Leaf) (_ : Draft) : Prop :=
  True

/-- An object stands under the key of a section. -/
def Kind.Opened : Kind → Draft → Prop
  | .record _, draft => ∃ members, draft = .object members
  | .leaf _, _ => True

/-- The values under known keys are as their keys ask for. -/
def Opened {κ : Type} (opened : κ → Draft → Prop) (table : List (String × κ)) (members : List (Option String × Draft)) :
    Prop :=
  ∀ member ∈ members, ∀ key kind, member.1 = some key → table.lookup key = some kind → opened kind member.2

end Settings

open Settings (Leaf Kind unknownIn unknownKeys Opened)

/-! ## What reading reports -/

section

variable {σ τ κ : Type} {fields : List (Field σ)} {table : List (String × κ)} {opened : κ → Draft → Prop}
  {inner : κ → Draft → List String} {members : List (Option String × Draft)} {draft : Draft}

/-- Values that are accepted are whole, and their unknown keys are reported. -/
def Codec.Reports (codec : Codec τ) (opened : Draft → Prop) (inner : Draft → List String) : Prop :=
  ∀ {draft held after unknown}, opened draft → codec.read draft held = .ok (after, unknown) →
    unknown = inner draft ∧ draft.isWhole = true

/-- A field has the key of an entry, and reports as its kind asks for. -/
structure Field.Reports (opened : κ → Draft → Prop) (inner : κ → Draft → List String) (field : Field σ)
    (entry : String × κ) : Prop where
  key_eq : field.key = entry.1
  reports {draft : Draft} {held after : σ} {unknown : List String} (h : opened entry.2 draft)
    (read : field.read draft held = .ok (after, unknown)) : unknown = inner entry.2 draft ∧ draft.isWhole = true

/-- A field reports what its codec reports. -/
theorem Field.of_reports {key : String} {kind : κ} {codec : Codec τ} {get : σ → τ} {set : σ → τ → σ}
    (h : codec.Reports (opened kind) (inner kind)) : (Field.of key codec get set).Reports opened inner (key, kind) where
  key_eq := rfl
  reports {draft held after unknown} hopened hread := by
    dsimp only [Field.of] at hread
    cases hcodec : codec.read draft (get held) with
    | error fault =>
      rw [hcodec] at hread
      cases hread
    | ok found =>
      rw [hcodec] at hread
      cases hread
      exact h hopened hcodec

/-- A key belongs to a field and to an entry that go together, or to none. -/
theorem Field.find?_lookup (h : List.Forall₂ (Field.Reports opened inner) fields table) (key : String) :
    (fields.find? (fun field => field.key == key) = none ∧ table.lookup key = none)
      ∨ ∃ field kind, fields.find? (fun field => field.key == key) = some field ∧ table.lookup key = some kind
        ∧ field.Reports opened inner (key, kind) := by
  induction h with
  | nil => exact .inl ⟨rfl, rfl⟩
  | @cons field entry fields table hfield _ ih =>
    obtain ⟨name, kind⟩ := entry
    by_cases hkey : name = key
    · refine .inr ⟨field, kind, ?_, ?_, hkey ▸ hfield⟩
      · rw [List.find?_cons_of_pos]
        exact beq_iff_eq.mpr (hfield.key_eq.trans hkey)
      · rw [List.lookup_cons, hkey, beq_self_eq_true]
    · have hother : (field.key == key) = false := beq_eq_false_iff_ne.mpr (hfield.key_eq.trans_ne hkey)
      rw [List.find?_cons_of_neg (by rw [hother]; exact Bool.false_ne_true), List.lookup_cons,
        beq_eq_false_iff_ne.mpr (Ne.symm hkey)]
      exact ih

/-- What reading does with the first of several members, if all of them are accepted. -/
theorem Field.readMembers_step {key : Option String} {seen : List String} {held after : σ} {unknown : List String}
    (read : Field.readMembers fields seen ((key, draft) :: members) held = .ok (after, unknown)) :
    ∃ name, key = some name
      ∧ ((fields.find? (fun field => field.key == name) = none ∧ draft.isWhole = true
        ∧ ∃ others, Field.readMembers fields seen members held = .ok (after, others) ∧ unknown = name :: others)
      ∨ ∃ field middle first others, fields.find? (fun field => field.key == name) = some field
        ∧ field.read draft held = .ok (middle, first)
        ∧ Field.readMembers fields (name :: seen) members middle = .ok (after, others)
        ∧ unknown = first ++ others) := by
  cases key with
  | none => cases read
  | some name =>
    unfold Field.readMembers at read
    refine ⟨name, rfl, ?_⟩
    -- A known key is read by its field; any other one is told, if its value is whole.
    split at read
    · next field hfind =>
      split at read
      · cases read
      · cases hfield : field.read draft held with
        | error fault =>
          rw [hfield] at read
          cases read
        | ok found =>
          obtain ⟨middle, first⟩ := found
          rw [hfield] at read
          dsimp only [bind, Except.bind] at read
          cases hrest : Field.readMembers fields (name :: seen) members middle with
          | error fault =>
            rw [hrest] at read
            cases read
          | ok found =>
            obtain ⟨final, others⟩ := found
            rw [hrest] at read
            cases read
            exact .inr ⟨field, middle, first, others, hfind, hfield, hrest, rfl⟩
    · next hfind =>
      split at read
      · next hwhole =>
        cases hrest : Field.readMembers fields seen members held with
        | error fault =>
          rw [hrest] at read
          cases read
        | ok found =>
          obtain ⟨final, others⟩ := found
          rw [hrest] at read
          cases read
          exact .inl ⟨hfind, hwhole, others, rfl, rfl⟩
      · cases read

/-- A record that is accepted has whole members, and their unknown keys are reported in order. -/
theorem Field.readMembers_reports (h : List.Forall₂ (Field.Reports opened inner) fields table) {seen : List String}
    {held after : σ} {unknown : List String} (hopened : Opened opened table members)
    (read : Field.readMembers fields seen members held = .ok (after, unknown)) :
    unknown = unknownIn table inner members ∧ Draft.membersAreWhole members = true := by
  induction members generalizing seen held unknown with
  | nil =>
    cases read
    exact ⟨rfl, rfl⟩
  | cons member members ih =>
    obtain ⟨key, draft⟩ := member
    obtain ⟨hfirst, hothers⟩ := List.forall_mem_cons.mp hopened
    obtain ⟨name, rfl, hstep⟩ := Field.readMembers_step read
    rw [unknownIn, List.flatMap_cons, Draft.membersAreWhole, Bool.and_eq_true]
    dsimp only
    rcases Field.find?_lookup h name with ⟨hnone, hlookup⟩ | ⟨field, kind, hsome, hlookup, hfield⟩
    · rw [hlookup]
      rcases hstep with ⟨-, hwhole, others, hrest, rfl⟩ | ⟨field, _, _, _, hfind, -⟩
      · obtain ⟨rfl, hmembers⟩ := ih hothers hrest
        exact ⟨rfl, hwhole, hmembers⟩
      · rw [hnone] at hfind
        cases hfind
    · rw [hlookup]
      rcases hstep with ⟨hfind, -⟩ | ⟨found, middle, first, others, hfind, hread, hrest, rfl⟩
      · rw [hsome] at hfind
        cases hfind
      · rw [hsome] at hfind
        cases hfind
        obtain ⟨rfl, hwhole⟩ := hfield.reports (hfirst name kind rfl hlookup) hread
        obtain ⟨rfl, hmembers⟩ := ih hothers hrest
        exact ⟨rfl, hwhole, hmembers⟩

/-- Records report the unknown ones of their members. -/
theorem Codec.record_reports (h : List.Forall₂ (Field.Reports opened inner) fields table) {complete : Bool}
    {held after : σ} {unknown : List String} (hopened : Opened opened table members)
    (read : (Codec.record fields complete).read (.object members) held = .ok (after, unknown)) :
    unknown = unknownIn table inner members ∧ Draft.membersAreWhole members = true :=
  Field.readMembers_reports h hopened read

end

/-! ## Values -/

namespace Codec

/-- A codec that accepts whole values only and finds no unknown keys in them. -/
def Silent {τ : Type} (codec : Codec τ) : Prop :=
  codec.Reports (fun _ => True) (fun _ => [])

/-- A text is accepted whole, and has no unknown keys. -/
theorem text_silent : text.Silent := by
  intro draft held after unknown _ read
  cases draft with
  | string text =>
    cases text <;> cases read
    exact ⟨rfl, rfl⟩
  | _ => cases read

/-- A flag is accepted whole, and has no unknown keys. -/
theorem flag_silent : flag.Silent := by
  intro draft held after unknown _ read
  cases draft <;> cases read
  exact ⟨rfl, rfl⟩

/-- A flag that may be missing is accepted whole, and has no unknown keys. -/
theorem optionalFlag_silent : optionalFlag.Silent := by
  intro draft held after unknown _ read
  cases draft <;> cases read
  all_goals exact ⟨rfl, rfl⟩

/-- A transform is accepted whole, and has no unknown keys. -/
theorem transform_silent : transform.Silent := by
  intro draft held after unknown _ read
  cases draft with
  | string text =>
    cases text with
    | none => cases read
    | some name =>
      simp only [transform] at read
      split at read <;> cases read
      exact ⟨rfl, rfl⟩
  | _ => cases read

/-- Items that are read as texts are whole. -/
theorem readTexts_whole {items : List Draft} {texts : List String} (h : readTexts items = .ok texts) :
    Draft.areWhole items = true := by
  induction items generalizing texts with
  | nil => rfl
  | cons item items ih =>
    unfold readTexts at h
    split at h
    · next heq => cases heq
    · next text rest heq =>
      cases heq
      cases hrest : readTexts items with
      | error fault =>
        rw [hrest] at h
        cases h
      | ok others => exact ih hrest
    · cases h

/-- A list of texts is accepted whole, and has no unknown keys. -/
theorem texts_silent : texts.Silent := by
  intro draft held after unknown _ read
  cases draft with
  | array items =>
    simp only [texts] at read
    cases hitems : readTexts items with
    | error fault =>
      rw [hitems] at read
      cases read
    | ok found =>
      rw [hitems] at read
      cases read
      exact ⟨rfl, readTexts_whole hitems⟩
  | _ => cases read

/-- Members that are read as pairs of texts are whole. -/
theorem readPairs_whole {members : List (Option String × Draft)} {pairs : List (String × String)}
    (h : readPairs members = .ok pairs) : Draft.membersAreWhole members = true := by
  induction members generalizing pairs with
  | nil => rfl
  | cons member members ih =>
    unfold readPairs at h
    split at h
    · next heq => cases heq
    · next key text rest heq =>
      cases heq
      cases hrest : readPairs members with
      | error fault =>
        rw [hrest] at h
        cases h
      | ok others => exact ih hrest
    · cases h

/-- A type map is accepted whole, and any key is known in it. -/
theorem typeMap_silent : typeMap.Silent := by
  intro draft held after unknown _ read
  cases draft with
  | object members =>
    simp only [typeMap] at read
    cases hmembers : readPairs members with
    | error fault =>
      rw [hmembers] at read
      cases read
    | ok found =>
      rw [hmembers] at read
      cases read
      exact ⟨rfl, readPairs_whole hmembers⟩
  | _ => cases read

end Codec

/-! ## Settings -/

/-- A field whose codec reports nothing fits any entry of its key. -/
theorem Field.of_silent {τ σ : Type} {key : String} {leaf : Leaf} {codec : Codec τ} {get : σ → τ} {set : σ → τ → σ}
    (h : codec.Silent) : (Field.of key codec get set).Reports Leaf.Opened Leaf.unknown (key, leaf) :=
  Field.of_reports h

/-- A record of values reports its unknown keys, if it is read from an object. -/
theorem Codec.section_reports {σ : Type} {fields : List (Field σ)} {keys : List (String × Leaf)}
    (h : List.Forall₂ (Field.Reports Leaf.Opened Leaf.unknown) fields keys) (complete : Bool) :
    (Codec.record fields complete).Reports (Kind.Opened (.record keys)) (Kind.unknown (.record keys)) := by
  rintro draft held after unknown ⟨members, rfl⟩ read
  exact Codec.record_reports h (fun _ _ _ _ _ _ => trivial) read

/-- The section of output files reports the keys that are not in its table. -/
theorem OutputFiles.codec_reports :
    OutputFiles.codec.Reports (Kind.Opened (.record Settings.outputKeys))
      (Kind.unknown (.record Settings.outputKeys)) :=
  Codec.section_reports
    (.cons (Field.of_silent Codec.text_silent) (.cons (Field.of_silent Codec.text_silent) .nil)) false

/-- A section of ways to call a function reports the keys that are not in its table. -/
theorem CallStyles.codec_reports :
    CallStyles.codec.Reports (Kind.Opened (.record Settings.callKeys)) (Kind.unknown (.record Settings.callKeys)) :=
  Codec.section_reports
    (.cons (Field.of_silent Codec.optionalFlag_silent) (.cons (Field.of_silent Codec.optionalFlag_silent)
      (.cons (Field.of_silent Codec.optionalFlag_silent) .nil))) true

/-- The section of rules for promises reports the keys that are not in its table. -/
theorem PromiseRules.codec_reports :
    PromiseRules.codec.Reports (Kind.Opened (.record Settings.promiseKeys))
      (Kind.unknown (.record Settings.promiseKeys)) :=
  Codec.section_reports
    (.cons (Field.of_silent Codec.flag_silent) (.cons (Field.of_silent Codec.flag_silent) .nil)) false

/-- The naming of methods that call a function reports the keys that are not in its table. -/
theorem FunctionNaming.codec_reports :
    FunctionNaming.codec.Reports (Kind.Opened (.record Settings.functionKeys))
      (Kind.unknown (.record Settings.functionKeys)) :=
  Codec.section_reports
    (.cons (Field.of_silent Codec.text_silent) (.cons (Field.of_silent Codec.transform_silent)
      (.cons (Field.of_silent Codec.transform_silent) (.cons (Field.of_silent Codec.transform_silent) .nil)))) false

/-- The naming of methods that load a module reports the keys that are not in its table. -/
theorem PreloadNaming.codec_reports :
    PreloadNaming.codec.Reports (Kind.Opened (.record Settings.preloadKeys))
      (Kind.unknown (.record Settings.preloadKeys)) :=
  Codec.section_reports
    (.cons (Field.of_silent Codec.text_silent) (.cons (Field.of_silent Codec.transform_silent) .nil)) false

namespace Settings

variable {members : List (Option String × Draft)} {settings : Settings} {unknown : List String}

/-- Settings that are read from an object with objects as sections report the unknown keys of all of them. -/
theorem codec_reports (opened : Opened Kind.Opened schema members) {held : Settings}
    (read : codec.read (.object members) held = .ok (settings, unknown)) :
    unknown = unknownKeys members ∧ Draft.membersAreWhole members = true := by
  refine Codec.record_reports ?_ opened read
  exact .cons (Field.of_reports Codec.text_silent) (.cons (Field.of_reports OutputFiles.codec_reports)
    (.cons (Field.of_reports CallStyles.codec_reports) (.cons (Field.of_reports CallStyles.codec_reports)
      (.cons (Field.of_reports PromiseRules.codec_reports) (.cons (Field.of_reports FunctionNaming.codec_reports)
        (.cons (Field.of_reports PreloadNaming.codec_reports) (.cons (Field.of_reports Codec.text_silent)
          (.cons (Field.of_reports Codec.texts_silent) (.cons (Field.of_reports Codec.typeMap_silent) .nil)))))))))

end Settings

end TypingsIndex
