import Mathlib.Data.List.DropRight
import TypingsIndex.Proofs.Disk.Written
import TypingsIndex.Proofs.Settings.Codec
import TypingsIndex.Settings.Document

/-!
# Settings that were printed

Settings that were read from a text are *sound*: their declaration path is normal and their patterns are valid. Of
sound settings, whatever texts are in them, nothing is lost when they are printed and the printed text is read again,
and nothing is warned of; for the printed text is a layout of the value that the codec writes, the codec is lawful, and
a normal path stays as it is. The same goes for sound settings that are saved and loaded again.
-/

set_option autoImplicit false

namespace TypingsIndex.Settings

variable {settings : Settings} {file : Path}

/-- Settings with a normal declaration path and valid patterns. -/
structure Sound (settings : Settings) : Prop where
  no_backslash : '\\' ∉ settings.declarationPath.toList
  no_trailing_slash : settings.declarationPath.toList.getLast? ≠ some '/'
  valid : settings.validate = .ok ()

/-! ## Normal paths -/

/-- The characters of a normal path: slashes for backslashes, and none at the end. -/
theorem toList_normalPath (path : String) :
    (normalPath path).toList = (path.toList.map fun c => if c = '\\' then '/' else c).rdropWhile (· == '/') :=
  String.toList_ofList

/-- A normal path has no backslashes. -/
theorem no_backslash_normalPath (path : String) : '\\' ∉ (normalPath path).toList := by
  rw [toList_normalPath]
  intro hmem
  have hslashed := (List.rdropWhile_prefix _ _).subset hmem
  obtain ⟨c, -, hc⟩ := List.mem_map.mp hslashed
  split at hc
  · cases hc
  · contradiction

/-- A normal path does not end in a slash. -/
theorem no_trailing_slash_normalPath (path : String) : (normalPath path).toList.getLast? ≠ some '/' := by
  rw [toList_normalPath]
  intro hlast
  have hne : (path.toList.map fun c => if c = '\\' then '/' else c).rdropWhile (· == '/') ≠ [] := by
    intro hnil
    rw [hnil] at hlast
    cases hlast
  have hkept := List.rdropWhile_last_not _ _ hne
  rw [List.getLast?_eq_some_getLast hne] at hlast
  exact hkept (by simpa using hlast)

/-- A path without backslashes and without a slash at its end is normal. -/
theorem normalPath_eq_self {path : String} (backslash : '\\' ∉ path.toList)
    (slash : path.toList.getLast? ≠ some '/') : normalPath path = path := by
  have hslashed : (path.toList.map fun c => if c = '\\' then '/' else c) = path.toList := by
    rw [List.map_congr_left (g := id), List.map_id]
    intro c hc
    rw [if_neg, id_eq]
    rintro rfl
    exact backslash hc
  have hkept : path.toList.rdropWhile (· == '/') = path.toList := by
    rw [List.rdropWhile_eq_self_iff]
    intro hne hlast
    rw [List.getLast?_eq_some_getLast hne, beq_iff_eq.mp hlast] at slash
    exact slash rfl
  rw [← String.toList_inj, toList_normalPath, hslashed, hkept]

/-- Sound settings are normal. -/
theorem Sound.normalize_eq (h : settings.Sound) : settings.normalize = settings := by
  unfold normalize
  rw [normalPath_eq_self h.no_backslash h.no_trailing_slash]

/-! ## Reading -/

/-- Settings that a text is parsed as are sound. -/
theorem sound_of_parse {text : List Char} {unknown : List String} (h : parse text = .ok (settings, unknown)) :
    settings.Sound := by
  unfold parse at h
  dsimp only at h
  cases hread : codec.read (Json.Draft.read text).1 default with
  | error fault =>
    rw [hread] at h
    cases h
  | ok read =>
    rw [hread] at h
    change (if _ then _ else _) = _ at h
    split at h
    · cases hvalid : read.1.normalize.validate with
      | error fault =>
        rw [hvalid] at h
        cases h
      | ok _ =>
        rw [hvalid] at h
        cases h
        exact ⟨no_backslash_normalPath _, no_trailing_slash_normalPath _, hvalid⟩
    · cases h

/-- Settings that are loaded from a file are sound. -/
theorem sound_of_load {text : String} {warnings : List Warning} (h : load text file = .ok (settings, warnings)) :
    settings.Sound := by
  unfold load at h
  split at h
  · next parsed unknown hparse =>
    cases h
    exact sound_of_parse hparse
  · cases h

/-- Sound settings are read from their text, whatever blanks follow it. -/
theorem Sound.parse_print (h : settings.Sound) {blanks : List Char} (hblanks : Json.Blanks blanks) :
    parse (settings.print.toList ++ blanks) = .ok (settings, []) := by
  have hread : Json.Draft.read (settings.print.toList ++ blanks) = (.ofJson (codec.write settings), blanks) := by
    unfold print Json.prettyText
    rw [String.toList_ofList]
    exact Json.read_pretty (codec_lawful.plain settings) blanks
  have hskip : Json.skipBlanks blanks = [] := List.dropWhile_eq_nil_iff.mpr hblanks
  unfold parse
  rw [hread]
  dsimp only
  rw [codec_lawful.read_write]
  change (if (Json.skipBlanks blanks).isEmpty = true then do
    settings.normalize.validate
    .ok (settings.normalize, []) else .error .malformed) = _
  rw [hskip, if_pos List.isEmpty_nil, h.normalize_eq, h.valid]
  rfl

/-- Sound settings are loaded from their text, with nothing to warn of, whatever blanks follow it. -/
theorem Sound.load_print (h : settings.Sound) {blanks : String} (hblanks : Json.Blanks blanks.toList) (file : Path) :
    load (settings.print ++ blanks) file = .ok (settings, []) := by
  unfold load
  rw [String.toList_append, h.parse_print hblanks]
  rfl

/-- Settings that were saved are loaded as they were. -/
theorem Sound.loadFile_save (h : settings.Sound) {disk after : Disk} (saved : settings.save disk file = .ok after) :
    loadFile after.undisturbed file = .ok (settings, []) := by
  have hwritten : disk.write file (.text (settings.print ++ "\n")) = .ok after := by
    unfold save at saved
    cases hwrite : disk.write file (.text (settings.print ++ "\n")) with
    | error fault =>
      rw [hwrite] at saved
      cases saved
    | ok written =>
      rw [hwrite] at saved
      cases saved
      rfl
  have hread : (after.undisturbed.read file).result = .ok (settings.print ++ "\n") := by
    change (after.read file).result = _
    rw [Disk.read_write hwritten]
    rfl
  have hblanks : Json.Blanks "\n".toList := by
    intro c hc
    rw [List.mem_singleton.mp hc]
    rfl
  unfold loadFile
  rw [hread]
  exact h.load_print hblanks file

/-- Every text that is accepted gives sound settings. Sound settings are read back from their printed text, and loaded
from the file that they were saved to, as they are and with nothing to warn of. So the settings of an accepted text
are those of their own printed form. -/
theorem printed_round_trip :
    (∀ text file settings warnings, load text file = .ok (settings, warnings) → settings.Sound)
      ∧ (∀ settings : Settings, settings.Sound → ∀ file, load settings.print file = .ok (settings, [])
        ∧ ∀ disk after, settings.save disk file = .ok after →
          loadFile after.undisturbed file = .ok (settings, []))
      ∧ ∀ text file settings warnings, load text file = .ok (settings, warnings) →
        ∀ other, load settings.print other = .ok (settings, []) := by
  have hprinted : ∀ settings : Settings, settings.Sound → ∀ file, load settings.print file = .ok (settings, []) := by
    intro settings hsound file
    rw [← String.append_empty (s := settings.print)]
    apply hsound.load_print
    rw [String.toList_empty]
    exact Json.blanks_nil
  refine ⟨fun text file settings warnings => sound_of_load, ?_, ?_⟩
  · intro settings hsound file
    exact ⟨hprinted settings hsound file, fun disk after => hsound.loadFile_save⟩
  · intro text file settings warnings hload other
    exact hprinted settings (sound_of_load hload) other

/-- Settings with a quote, a backslash, a control character and a letter beyond ASCII are saved and loaded, and a text
with backslashes in its declaration path is accepted. -/
theorem printed_round_trip_quoted :
    let settings : Settings := {
      declarationPath := "a \"b\""
      functionNaming := { pattern := "#module#\\#function#" }
      usings := ["\x01\n", "é"]
      typeMap := .ofList [("\"", "\t")] }
    let accepted : Settings := { declarationPath := "a/b" }
    let disk : Disk := .empty ["w"]
    let file : Path := ⟨"settings.json"⟩
    let text := "\x7b\"declaration path\": \"a\\\\b/\"\x7d"
    load settings.print file = .ok (settings, [])
      ∧ (∃ after, settings.save disk file = .ok after ∧ loadFile after.undisturbed file = .ok (settings, []))
      ∧ load text file = .ok (accepted, []) ∧ accepted.Sound ∧ load accepted.print file = .ok (accepted, []) := by
  intro settings accepted disk file text
  obtain ⟨hsound, hprinted, hagain⟩ := printed_round_trip
  have hload : load text file = .ok (accepted, []) := by decide +kernel
  have hsettings : settings.Sound := ⟨by decide, by decide, by decide +kernel⟩
  have hreach : disk.reach .write file = .vacant ["w"] "settings.json" := by decide +kernel
  obtain ⟨after, hafter⟩ : ∃ after, settings.save disk file = .ok after := by
    unfold save Disk.write
    rw [hreach]
    exact ⟨_, rfl⟩
  obtain ⟨hread, hsaved⟩ := hprinted settings hsettings file
  exact ⟨hread, ⟨after, hafter, hsaved disk after hafter⟩, hload, hsound _ _ _ _ hload, hagain _ _ _ _ hload file⟩

end TypingsIndex.Settings
