import Mathlib.Data.List.Forall2
import Mathlib.Data.List.Nodup
import TypingsIndex.Proofs.Json.Layout
import TypingsIndex.Settings.Document

/-!
# Codecs that lose nothing

A codec is lawful if every value that it writes is read back, whatever held before, with no unknown key on the way. A
record is lawful if its fields are, no two of them share a key, and together they make up the record: what is read of
each field is copied into the record that held before, and after the last one nothing of that record is left.
-/

set_option autoImplicit false

namespace TypingsIndex

open Json (Plain)

/-- Writing followed by reading preserves every value. -/
structure Codec.Lawful {τ : Type} (codec : Codec τ) : Prop where
  plain (value : τ) : Plain (codec.write value)
  read_write (value held : τ) : codec.read (.ofJson (codec.write value)) held = .ok (value, [])

/-- Writing a field of one record and reading it into another copies something of the one to the other. -/
structure Field.Copies {σ : Type} (field : Field σ) (copy : σ → σ → σ) : Prop where
  plain (value : σ) : Plain (field.write value)
  read_write (value held : σ) : field.read (.ofJson (field.write value)) held = .ok (copy value held, [])

/-! ## Records -/

section

variable {σ τ : Type} {fields : List (Field σ)}

/-- A field with a lawful codec is copied by writing and reading it. -/
theorem Field.of_copies {key : String} {codec : Codec τ} {get : σ → τ} {set : σ → τ → σ} (lawful : codec.Lawful) :
    (Field.of key codec get set).Copies fun value held => set held (get value) where
  plain value := lawful.plain (get value)
  read_write value held := by
    have hread := lawful.read_write (get value) (get held)
    dsimp only [Field.of]
    rw [hread]
    rfl

/-- If no two fields share a key, a field is found under its own. -/
theorem Field.find?_key (distinct : (fields.map Field.key).Nodup) {field : Field σ} (h : field ∈ fields) :
    (fields.find? fun other => other.key == field.key) = some field := by
  obtain ⟨found, hfound⟩ := Option.isSome_iff_exists.mp
    (List.find?_isSome (p := fun other => other.key == field.key).mpr ⟨field, h, beq_self_eq_true _⟩)
  have hkey := List.find?_some hfound
  have hsame := List.inj_on_of_nodup_map distinct (List.mem_of_find?_eq_some hfound) h (beq_iff_eq.mp hkey)
  rw [hfound, hsame]

/-- Reading the fields that are still to come, none of which was seen before, copies each of them. -/
theorem Field.readMembers_written (distinct : (fields.map Field.key).Nodup) {coming : List (Field σ)}
    {copies : List (σ → σ → σ)} (h : List.Forall₂ Field.Copies coming copies) (known : coming ⊆ fields)
    (comingDistinct : (coming.map Field.key).Nodup) {seen : List String}
    (fresh : ∀ field ∈ coming, field.key ∉ seen) (value held : σ) :
    Field.readMembers fields seen (Json.Draft.ofMembers (coming.map fun field => (field.key, field.write value))) held =
      .ok (copies.foldl (fun held copy => copy value held) held, []) := by
  -- on the fields still to come: each one read becomes a key that was seen, and what holds from then on
  induction h generalizing seen held with
  | nil => rfl
  | @cons field copy coming copies hcopies _ ih =>
    obtain ⟨hnew, hdistinct⟩ := List.nodup_cons.mp comingDistinct
    have hfound := Field.find?_key distinct (known List.mem_cons_self)
    have hseen : seen.contains field.key = false := by
      rw [← Bool.not_eq_true, List.contains_iff_mem]
      exact fresh field List.mem_cons_self
    have hfresh : ∀ other ∈ coming, other.key ∉ field.key :: seen := by
      intro other hother hmem
      rcases List.mem_cons.mp hmem with hkey | hold
      · exact hnew (hkey ▸ List.mem_map_of_mem hother)
      · exact fresh other (List.mem_cons_of_mem field hother) hold
    have hknown : coming ⊆ fields := fun other hother => known (List.mem_cons_of_mem field hother)
    have hothers := ih hknown hdistinct hfresh (copy value held)
    rw [List.map_cons, Json.Draft.ofMembers, Field.readMembers, hfound]
    dsimp only
    rw [hseen, if_neg Bool.false_ne_true, hcopies.read_write]
    dsimp only [bind, Except.bind]
    rw [hothers]
    rfl

/-- Each of the fields copies something. -/
theorem Field.exists_copies {copies : List (σ → σ → σ)} (h : List.Forall₂ Field.Copies fields copies) {field : Field σ}
    (hfield : field ∈ fields) : ∃ copy, field.Copies copy := by
  induction h with
  | nil => cases hfield
  | cons hcopies _ ih =>
    rcases List.mem_cons.mp hfield with rfl | hrest
    · exact ⟨_, hcopies⟩
    · exact ih hrest

/-- A record is lawful if its fields have different keys, and copying them all leaves nothing of what held before. -/
theorem Codec.record_lawful {copies : List (σ → σ → σ)} {complete : Bool}
    (h : List.Forall₂ Field.Copies fields copies) (distinct : (fields.map Field.key).Nodup)
    (whole : ∀ value held, copies.foldl (fun held copy => copy value held) held = value) :
    (Codec.record fields complete).Lawful where
  plain value := by
    apply Plain.object
    intro member hmember
    obtain ⟨field, hfield, rfl⟩ := List.mem_map.mp hmember
    obtain ⟨copy, hcopies⟩ := Field.exists_copies h hfield
    exact hcopies.plain value
  read_write value held := by
    have hread := Field.readMembers_written distinct h (List.Subset.refl fields) distinct
      (fun _ _ => List.not_mem_nil) value held
    rw [whole] at hread
    exact hread

end

/-! ## Values -/

namespace Codec

/-- A text is written and read back. -/
theorem text_lawful : text.Lawful where
  plain value := .string value
  read_write _ _ := rfl

/-- A flag is written and read back. -/
theorem flag_lawful : flag.Lawful where
  plain value := .bool value
  read_write _ _ := rfl

/-- A flag that may be missing is written and read back. -/
theorem optionalFlag_lawful : optionalFlag.Lawful where
  plain value := .bool value
  read_write _ _ := rfl

/-- A transform is known by its name. -/
theorem ofText?_name (value : NameTransform) : NameTransform.ofText? value.name = some value := by
  cases value <;> decide

/-- A transform is written as its name and read back. -/
theorem transform_lawful : transform.Lawful where
  plain value := .string value.name
  read_write value held := by
    simp only [transform, Json.Draft.ofJson, ofText?_name]

/-- Texts are read back from an array of strings. -/
theorem readTexts_ofItems (values : List String) :
    readTexts (Json.Draft.ofItems (values.map .string)) = .ok values := by
  induction values with
  | nil => rfl
  | cons value values ih =>
    rw [List.map_cons, Json.Draft.ofItems, Json.Draft.ofJson, readTexts, ih]
    rfl

/-- A list of texts is written and read back. -/
theorem texts_lawful : texts.Lawful where
  plain values := by
    apply Plain.array
    intro item hitem
    obtain ⟨value, -, rfl⟩ := List.mem_map.mp hitem
    exact .string value
  read_write values held := by
    have hread := readTexts_ofItems values
    simp only [texts, Json.Draft.ofJson, hread, Except.map]

end Codec

/-! ## Type maps -/

namespace TypeMap

variable {declared generated : String}

/-- A pair that belongs after all others is put there. -/
theorem place_last {entries : List (String × String)} (h : ∀ entry ∈ entries, entry.1 < declared) :
    place declared generated entries = entries ++ [(declared, generated)] := by
  induction entries with
  | nil => rfl
  | cons first rest ih =>
    obtain ⟨hfirst, hrest⟩ := List.forall_mem_cons.mp h
    have hne : declared ≠ first.1 := fun heq => String.lt_irrefl _ (heq ▸ hfirst)
    rw [place, if_neg (String.lt_asymm hfirst), if_neg hne, ih hrest, List.cons_append]

/-- Pairs in rising order, all behind those of a table, are appended to it as they are inserted. -/
theorem entries_foldl_insert {pairs : List (String × String)} (rising : pairs.Pairwise fun a b => a.1 < b.1)
    {map : TypeMap} (h : ∀ entry ∈ map.entries, ∀ pair ∈ pairs, entry.1 < pair.1) :
    (pairs.foldl (fun map pair => map.insert pair.1 pair.2) map).entries = map.entries ++ pairs := by
  induction pairs generalizing map with
  | nil => rw [List.append_nil]; rfl
  | cons pair pairs ih =>
    obtain ⟨hpair, hpairs⟩ := List.pairwise_cons.mp rising
    have hinsert : (map.insert pair.1 pair.2).entries = map.entries ++ [pair] :=
      place_last fun entry hentry => h entry hentry pair List.mem_cons_self
    rw [List.foldl_cons, ih hpairs, hinsert, List.append_assoc, List.singleton_append]
    intro entry hentry other hother
    rw [hinsert] at hentry
    rcases List.mem_append.mp hentry with hold | hnew
    · exact h entry hold other (List.mem_cons_of_mem pair hother)
    · rw [List.mem_singleton.mp hnew]
      exact hpair other hother

/-- Tables with the same entries are the same table. -/
theorem eq_of_entries {map other : TypeMap} (h : map.entries = other.entries) : map = other := by
  cases map
  cases other
  cases h
  rfl

/-- Putting the entries of a map in, one after the other, gives the map. -/
theorem ofList_entries (map : TypeMap) : ofList map.entries = map := by
  apply eq_of_entries
  apply entries_foldl_insert map.rising
  intro entry hentry
  cases hentry

end TypeMap

namespace Codec

/-- Pairs are read back from an object of strings. -/
theorem readPairs_ofMembers (pairs : List (String × String)) :
    readPairs (Json.Draft.ofMembers (pairs.map fun entry => (entry.1, .string entry.2))) = .ok pairs := by
  induction pairs with
  | nil => rfl
  | cons pair pairs ih =>
    rw [List.map_cons, Json.Draft.ofMembers, Json.Draft.ofJson, readPairs, ih]
    rfl

/-- A type map is written and read back: being sorted, it is built up again in its own order. -/
theorem typeMap_lawful : typeMap.Lawful where
  plain map := by
    apply Plain.object
    intro member hmember
    obtain ⟨entry, -, rfl⟩ := List.mem_map.mp hmember
    exact .string entry.2
  read_write map held := by
    have hread := readPairs_ofMembers map.entries
    simp only [typeMap, Json.Draft.ofJson, hread, Except.map, TypeMap.ofList_entries]

end Codec

/-! ## Settings -/

/-- The section of output files is written and read back. -/
theorem OutputFiles.codec_lawful : OutputFiles.codec.Lawful :=
  Codec.record_lawful
    (.cons (Field.of_copies Codec.text_lawful) (.cons (Field.of_copies Codec.text_lawful) .nil))
    (by decide) (fun _ _ => rfl)

/-- A section of ways to call a function is written and read back. -/
theorem CallStyles.codec_lawful : CallStyles.codec.Lawful :=
  Codec.record_lawful
    (.cons (Field.of_copies Codec.optionalFlag_lawful) (.cons (Field.of_copies Codec.optionalFlag_lawful)
      (.cons (Field.of_copies Codec.optionalFlag_lawful) .nil)))
    (by decide) (fun _ _ => rfl)

/-- The section of rules for promises is written and read back. -/
theorem PromiseRules.codec_lawful : PromiseRules.codec.Lawful :=
  Codec.record_lawful
    (.cons (Field.of_copies Codec.flag_lawful) (.cons (Field.of_copies Codec.flag_lawful) .nil))
    (by decide) (fun _ _ => rfl)

/-- The naming of methods that call a function is written and read back. -/
theorem FunctionNaming.codec_lawful : FunctionNaming.codec.Lawful :=
  Codec.record_lawful
    (.cons (Field.of_copies Codec.text_lawful) (.cons (Field.of_copies Codec.transform_lawful)
      (.cons (Field.of_copies Codec.transform_lawful) (.cons (Field.of_copies Codec.transform_lawful) .nil))))
    (by decide) (fun _ _ => rfl)

/-- The naming of methods that load a module is written and read back. -/
theorem PreloadNaming.codec_lawful : PreloadNaming.codec.Lawful :=
  Codec.record_lawful
    (.cons (Field.of_copies Codec.text_lawful) (.cons (Field.of_copies Codec.transform_lawful) .nil))
    (by decide) (fun _ _ => rfl)

/-- Settings that are written are read back, whatever held before. -/
theorem Settings.codec_lawful : Settings.codec.Lawful := by
  apply Codec.record_lawful
  · apply List.Forall₂.cons (Field.of_copies Codec.text_lawful)
    apply List.Forall₂.cons (Field.of_copies OutputFiles.codec_lawful)
    apply List.Forall₂.cons (Field.of_copies CallStyles.codec_lawful)
    apply List.Forall₂.cons (Field.of_copies CallStyles.codec_lawful)
    apply List.Forall₂.cons (Field.of_copies PromiseRules.codec_lawful)
    apply List.Forall₂.cons (Field.of_copies FunctionNaming.codec_lawful)
    apply List.Forall₂.cons (Field.of_copies PreloadNaming.codec_lawful)
    apply List.Forall₂.cons (Field.of_copies Codec.text_lawful)
    apply List.Forall₂.cons (Field.of_copies Codec.texts_lawful)
    apply List.Forall₂.cons (Field.of_copies Codec.typeMap_lawful)
    exact .nil
  · decide
  · intro value held
    rfl

end TypingsIndex
