import TypingsIndex.Proofs.Watch.Run

/-!
# What the modules of a session were made from

Two kinds of happening decide what a module may hold: a file was read, and a module was moved to another path. A
reading counts if its text keeps to the grammar. From the happenings of a run the last such text of a file can be
told, a file that was moved being followed to its earlier path (`lastText?`); and at any time the catalog is what
these texts say: a module has the digest of the last one, and its functions.

The proofs use something weaker of which every part of a deed says more. For each path there are texts that its
module may be made from (`Sources`): after a reading it is the text that was read, or an older one of the same
digest, since content with the digest that a module has is not parsed again. A piece of work *carries* the catalog
along if the modules after it are made from such texts whenever those before it were.
-/

set_option autoImplicit false

namespace TypingsIndex

/-- The text of a reading, if it keeps to the grammar. -/
def Reading.parsed? (reading : Reading) : Option String :=
  match reading.result with
  | .ok text => if (Signature.parseText text).toBool then some text else none
  | .error _ => none

/-- A reading gives a text to make a module from exactly if it succeeds and the text keeps to the grammar. -/
theorem Reading.parsed?_eq_some_iff {reading : Reading} {text : String} :
    reading.parsed? = some text ↔
      reading.result = .ok text ∧ ∃ functions, Signature.parseText text = .ok functions := by
  unfold parsed?
  cases reading.result with
  | error fault => simp
  | ok other =>
    cases hparsed : Signature.parseText other with
    | error fault =>
      simp only [hparsed, Except.toBool, Bool.false_eq_true, if_false, reduceCtorEq, false_iff, not_and,
        Except.ok.injEq]
      rintro rfl ⟨functions, hfunctions⟩
      cases hparsed.symm.trans hfunctions
    | ok functions =>
      simp only [hparsed, Except.toBool, if_true, Option.some.injEq, Except.ok.injEq]
      constructor
      · rintro rfl
        exact ⟨rfl, functions, hparsed⟩
      · exact And.left

/-- A reading that fails gives no text to make a module from. -/
theorem Reading.parsed?_of_error {reading : Reading} {fault : ReadFault} (h : reading.result = .error fault) :
    reading.parsed? = none := by
  unfold parsed?
  rw [h]

/-- A text of which the functions are taken in is one to make a module from. -/
theorem Reading.parsed?_of_ok {reading : Reading} {file : Path} {text : String} {functions : List Signature}
    (h : reading.result = .ok text) (accepted : functionsOf file text = .ok functions) :
    reading.parsed? = some text :=
  parsed?_eq_some_iff.mpr ⟨h, functions, functionsOf_eq_ok.mp accepted⟩

/-- A text whose functions are refused is none to make a module from. -/
theorem Reading.parsed?_of_refused {reading : Reading} {file : Path} {text : String} {failure : Failure}
    (h : reading.result = .ok text) (refused : functionsOf file text = .error failure) :
    reading.parsed? = none := by
  cases hparsed : reading.parsed? with
  | none => rfl
  | some other =>
    obtain ⟨hother, functions, haccepted⟩ := parsed?_eq_some_iff.mp hparsed
    obtain rfl := Except.ok.inj (h.symm.trans hother)
    cases refused.symm.trans (functionsOf_eq_ok.mpr haccepted)

/-! ## Happenings -/

/-- What decides what a module may hold. -/
inductive Happening where
  | read (file : Path) (reading : Reading)
  /-- The module of one path was moved to another. -/
  | moved (source target : Path)
  deriving DecidableEq, Repr

namespace Effect

/-- An effect as a happening. -/
def happening? : Effect → Option Happening
  | .read file reading => some (.read file reading)
  | _ => none

/-- The happenings among effects. -/
def happenings (effects : List Effect) : List Happening :=
  effects.filterMap happening?

/-- Nothing happens without effects. -/
@[simp] theorem happenings_nil : happenings [] = [] := rfl

/-- What happens by effects after others comes behind what happens by these. -/
@[simp] theorem happenings_append (effects more : List Effect) :
    happenings (effects ++ more) = happenings effects ++ happenings more :=
  List.filterMap_append

/-- A file that is read is something that happens. -/
@[simp] theorem happenings_read (file : Path) (reading : Reading) (rest : List Effect) :
    happenings (.read file reading :: rest) = .read file reading :: happenings rest := rfl

/-- Settings that are published do not matter to what modules hold. -/
@[simp] theorem happenings_publishSettings (settings : Settings) (rest : List Effect) :
    happenings (.publishSettings settings :: rest) = happenings rest := rfl

/-- A publication does not matter to what modules hold. -/
@[simp] theorem happenings_publication (catalog : Catalog) : happenings (publication catalog) = [] := rfl

/-- Files that are read are what happens by reading them. -/
theorem happenings_readings (readings : List (Path × Reading)) :
    happenings (readings.map fun entry => .read entry.1 entry.2) =
      readings.map fun entry => .read entry.1 entry.2 := by
  induction readings with
  | nil => rfl
  | cons first rest ih => rw [List.map_cons, List.map_cons, happenings_read, ih]

/-- All that happens by effects is that they read files. -/
theorem mem_happenings {effects : List Effect} {happening : Happening} (h : happening ∈ happenings effects) :
    ∃ file reading, happening = .read file reading ∧ .read file reading ∈ effects := by
  obtain ⟨effect, heffect, hhappening⟩ := List.mem_filterMap.mp h
  unfold happening? at hhappening
  split at hhappening
  · exact ⟨_, _, (Option.some.inj hhappening).symm, heffect⟩
  · cases hhappening

/-- Asides are no happenings. -/
theorem happenings_asides {effects : List Effect} (asides : ∀ effect ∈ effects, effect.IsAside) :
    happenings effects = [] := by
  refine List.filterMap_eq_nil_iff.mpr fun effect heffect => ?_
  have haside := asides effect heffect
  unfold happening?
  split
  · exact absurd haside (by simp [IsAside])
  · rfl

end Effect

namespace Happening

/-- What was read last of each path, as far as it keeps to the grammar. -/
abbrev Memory := List Path.Component → Option String

/-- Note what has happened. -/
def note (memory : Memory) : Happening → Memory
  | .read file reading => fun path =>
    if path = file.components then reading.parsed?.or (memory path) else memory path
  | .moved source target => fun path =>
    if path = target.components then memory source.components else memory path

/-- The last text of a file that keeps to the grammar, of all that were read of it: under its own path, and
before it was moved there under its earlier one. -/
def lastText? (happenings : List Happening) (file : Path) : Option String :=
  happenings.foldl note (fun _ => none) file.components

/-- A text that was read, of whatever file, and keeps to the grammar. -/
def WasRead (happenings : List Happening) (text : String) : Prop :=
  ∃ file reading, .read file reading ∈ happenings ∧ reading.parsed? = some text

end Happening

namespace Session

/-- The move that a deed consists of, if it is one. -/
def moves (session : Session) : Deed → List Happening
  | .handle _ _ (.renamed source target) =>
    if (session.catalogRenamed? source target).isSome then [.moved source target] else []
  | _ => []

/-- A deed consists of one move or of none. -/
theorem moves_cases (session : Session) (deed : Deed) :
    session.moves deed = [] ∨ ∃ source target, session.moves deed = [.moved source target] := by
  unfold moves
  split
  · split
    · exact .inr ⟨_, _, rfl⟩
    · exact .inl rfl
  · exact .inl rfl

/-- What happens in a deed. -/
def happenings (session : Session) (deed : Deed) : List Happening :=
  session.moves deed ++ Effect.happenings (session.act deed).effects

/-- What happens in a run. -/
def history (session : Session) : List Deed → List Happening
  | [] => []
  | deed :: rest => session.happenings deed ++ (session.act deed).value.history rest

end Session

/-! ## What modules may be made from -/

/-- For each path the texts that its module may be made from. -/
abbrev Sources := List Path.Component → String → Prop

namespace Sources

/-- Note what has happened. A module may keep older text if that has the same digest. -/
def note (sources : Sources) : Happening → Sources
  | .read file reading => fun path text =>
    match reading.parsed? with
    | some last =>
      if path = file.components then
        text = last ∨ (sources path text ∧ Digest.ofText text = Digest.ofText last)
      else sources path text
    | none => sources path text
  | .moved source target => fun path =>
    if path = target.components then sources source.components else sources path

variable {sources : Sources} {path : List Path.Component} {file source target : Path} {text last : String}
  {reading : Reading}

/-- A reading that gives no text to make a module from changes nothing. -/
theorem note_refused (h : reading.parsed? = none) : sources.note (.read file reading) = sources := by
  funext path text
  simp only [note, h]

/-- After a reading a module is made from the text that was read, or it keeps an older one with the same digest. -/
theorem note_here (h : reading.parsed? = some last) :
    sources.note (.read file reading) file.components text ↔
      text = last ∨ (sources file.components text ∧ Digest.ofText text = Digest.ofText last) := by
  simp only [note, h, if_true]

/-- The reading of one file does not matter to the modules of others. -/
theorem note_elsewhere (h : path ≠ file.components) :
    sources.note (.read file reading) path text ↔ sources path text := by
  simp only [note]
  split
  · rw [if_neg h]
  · rfl

/-- After a move the module of the target is made from what that of the source was made from. -/
theorem note_target :
    sources.note (.moved source target) target.components text ↔ sources source.components text := by
  simp only [note, if_true]

/-- A move does not matter to the modules of other paths. -/
theorem note_unmoved (h : path ≠ target.components) :
    sources.note (.moved source target) path text ↔ sources path text := by
  simp only [note, if_neg h]

/-- Readings of other files, and texts that break the grammar, leave a path as it was. -/
theorem foldl_note_of_none {happenings : List Happening}
    (h : ∀ happening ∈ happenings, ∃ file reading, happening = .read file reading
      ∧ (file.components = path → reading.parsed? = none)) :
    happenings.foldl note sources path text ↔ sources path text := by
  induction happenings generalizing sources with
  | nil => rfl
  | cons first rest ih =>
    obtain ⟨⟨file, reading, rfl, hrefused⟩, hrest⟩ := List.forall_mem_cons.mp h
    rw [List.foldl_cons, ih hrest]
    by_cases hpath : path = file.components
    · rw [note_refused (hrefused hpath.symm)]
    · exact note_elsewhere hpath

/-- A text stays if nothing else is read of its path, and is there if it is read. -/
theorem foldl_note_of_some {readings : List (Path × Reading)}
    (h : ∀ entry ∈ readings, entry.1.components = path → entry.2.parsed? = some text)
    (held : sources path text ∨ ∃ entry ∈ readings, entry.1.components = path) :
    (readings.map fun entry => .read entry.1 entry.2).foldl note sources path text := by
  induction readings generalizing sources with
  | nil => exact held.resolve_right fun ⟨_, hmem, _⟩ => List.not_mem_nil hmem
  | cons first rest ih =>
    obtain ⟨hfirst, hrest⟩ := List.forall_mem_cons.mp h
    rw [List.map_cons, List.foldl_cons]
    apply ih hrest
    by_cases hpath : first.1.components = path
    · left
      subst hpath
      exact (note_here (hfirst rfl)).mpr (.inl rfl)
    · rcases held with hheld | ⟨entry, hmem, hentry⟩
      · exact .inl ((note_elsewhere (Ne.symm hpath)).mpr hheld)
      · rcases List.mem_cons.mp hmem with rfl | hlater
        · exact absurd hentry hpath
        · exact .inr ⟨entry, hlater, hentry⟩

/-- What a module may be made from has the digest of what was read last. -/
theorem last_of_foldl_note {happenings : List Happening} (memory : Happening.Memory)
    (start : ∀ path text, sources path text →
      ∃ last, memory path = some last ∧ Digest.ofText last = Digest.ofText text)
    (h : happenings.foldl note sources path text) :
    ∃ last, happenings.foldl Happening.note memory path = some last
      ∧ Digest.ofText last = Digest.ofText text := by
  induction happenings generalizing sources memory with
  | nil => exact start path text h
  | cons first rest ih =>
    refine ih _ (fun path text hnoted => ?_) h
    cases first with
    | read file reading =>
      simp only [Happening.note]
      by_cases hpath : path = file.components
      · subst hpath
        rw [if_pos rfl]
        cases hparsed : reading.parsed? with
        | none =>
          rw [note_refused hparsed] at hnoted
          exact start _ text hnoted
        | some last =>
          refine ⟨last, rfl, ?_⟩
          rcases (note_here hparsed).mp hnoted with rfl | ⟨-, hdigest⟩
          · rfl
          · exact hdigest.symm
      · rw [if_neg hpath]
        exact start path text ((note_elsewhere hpath).mp hnoted)
    | moved source target =>
      simp only [Happening.note]
      by_cases hpath : path = target.components
      · subst hpath
        rw [if_pos rfl]
        exact start _ text (note_target.mp hnoted)
      · rw [if_neg hpath]
        exact start path text ((note_unmoved hpath).mp hnoted)

/-- A module is made only from what was read. -/
theorem wasRead_of_foldl_note {happenings : List Happening} (h : happenings.foldl note sources path text) :
    Happening.WasRead happenings text ∨ ∃ path, sources path text := by
  induction happenings generalizing sources with
  | nil => exact .inr ⟨path, h⟩
  | cons first rest ih =>
    rcases ih h with ⟨file, reading, hmem, hparsed⟩ | ⟨path, hnoted⟩
    · exact .inl ⟨file, reading, List.mem_cons_of_mem _ hmem, hparsed⟩
    · cases first with
      | read file reading =>
        by_cases hpath : path = file.components
        · subst hpath
          cases hparsed : reading.parsed? with
          | none =>
            rw [note_refused hparsed] at hnoted
            exact .inr ⟨_, hnoted⟩
          | some last =>
            rcases (note_here hparsed).mp hnoted with rfl | ⟨hheld, -⟩
            · exact .inl ⟨file, reading, List.mem_cons_self, hparsed⟩
            · exact .inr ⟨_, hheld⟩
        · exact .inr ⟨path, (note_elsewhere hpath).mp hnoted⟩
      | moved source target =>
        by_cases hpath : path = target.components
        · subst hpath
          exact .inr ⟨_, note_target.mp hnoted⟩
        · exact .inr ⟨path, (note_unmoved hpath).mp hnoted⟩

end Sources

/-- The walk through a directory finds every file under one spelling only. -/
def Surroundings.ListsOnce (world : Surroundings) : Prop :=
  ∀ directory, ∀ a ∈ (world.walk directory).1, ∀ b ∈ (world.walk directory).1,
    a.components = b.components → a = b

/-- A module has the digest and the functions of a text. -/
def Module.MadeFrom (entry : Module) (text : String) : Prop :=
  entry.digest = some (Digest.ofText text) ∧ Signature.parseText text = .ok entry.functions

/-- Every module is made from a text that it may be made from. -/
def Catalog.From (catalog : Catalog) (sources : Sources) : Prop :=
  ∀ entry ∈ catalog.modules, ∃ text, sources entry.file.components text ∧ entry.MadeFrom text

/-- Happenings account for what has become of a catalog. -/
def Carries (happenings : List Happening) (before after : Catalog) : Prop :=
  ∀ sources : Sources, before.From sources → after.From (happenings.foldl Sources.note sources)

namespace Carries

variable {before between after : Catalog}

/-- What accounts for one change of a catalog and then for another accounts for both. -/
theorem append {first second : List Happening} (h : Carries first before between)
    (hsecond : Carries second between after) : Carries (first ++ second) before after := by
  intro sources hsources
  rw [List.foldl_append]
  exact hsecond _ (h sources hsources)

/-- Modules may be taken out at any time. -/
theorem of_subset (h : ∀ entry ∈ after.modules, entry ∈ before.modules) : Carries [] before after :=
  fun _ hsources entry hentry => hsources entry (h entry hentry)

/-- A catalog that stays needs no account. -/
theorem refl (catalog : Catalog) : Carries [] catalog catalog :=
  of_subset fun _ hentry => hentry

/-- Readings of files without a module do not matter. -/
theorem of_unknown {file : Path} {reading : Reading}
    (h : ∀ entry ∈ before.modules, entry.file.components ≠ file.components) :
    Carries [.read file reading] before before := by
  intro sources hsources entry hentry
  obtain ⟨text, htext, hmade⟩ := hsources entry hentry
  exact ⟨text, (Sources.note_elsewhere (h entry hentry)).mpr htext, hmade⟩

/-- Neither do readings without a text that keeps to the grammar. -/
theorem of_refused {file : Path} {reading : Reading} (refused : reading.parsed? = none)
    (h : ∀ entry ∈ after.modules, entry ∈ before.modules) : Carries [.read file reading] before after := by
  intro sources hsources
  rw [List.foldl_cons, List.foldl_nil, Sources.note_refused refused]
  exact of_subset h sources hsources

/-- A module that is moved takes along what it was made from. -/
theorem of_rename {source target root : Path} (consistent : before.Consistent)
    (h : before.rename? source target root = some after) : Carries [.moved source target] before after := by
  obtain ⟨-, hfree, names, -, hmem⟩ := Catalog.mem_rename? consistent h
  intro sources hsources entry hentry
  rcases (hmem entry).mp hentry with ⟨hold, -⟩ | ⟨old, hold, hsource, rfl⟩
  · obtain ⟨text, htext, hmade⟩ := hsources entry hold
    refine ⟨text, (Sources.note_unmoved fun hsame => ?_).mpr htext, hmade⟩
    rw [(Catalog.contains_iff consistent).mpr ⟨entry, hold, hsame⟩] at hfree
    cases hfree
  · obtain ⟨text, htext, hmade⟩ := hsources old hold
    rw [hsource] at htext
    exact ⟨text, Sources.note_target.mpr htext, hmade⟩

end Carries

/-! ## Reading the pending files -/

namespace Session

variable {world : Surroundings} {now : Nat}

/-- The reading of a pending file accounts for what becomes of its module. -/
theorem FileDrained.carries {file : Path} {before after : Session} (h : FileDrained world file before after)
    (consistent : before.catalog.Consistent) :
    Carries [.read file (world.read file)] before.catalog after.catalog := by
  cases h with
  | known reading same =>
    -- the text was not parsed: the module keeps the one that it was made from, which has the same digest
    intro sources hsources entry hentry
    obtain ⟨text, htext, hmade⟩ := hsources entry hentry
    by_cases hpath : entry.file.components = file.components
    · obtain ⟨other, hother, hotherPath, hdigest⟩ := (hasDigest_iff consistent).mp same
      have hsame : other = entry := by
        have hfirst := (Catalog.find?_eq_some_iff consistent).mpr ⟨hother, hotherPath⟩
        have hsecond := (Catalog.find?_eq_some_iff consistent).mpr ⟨hentry, hpath⟩
        exact Option.some.inj (hfirst.symm.trans hsecond)
      subst hsame
      refine ⟨text, ?_, hmade⟩
      rw [List.foldl_cons, List.foldl_nil]
      rw [hpath] at htext ⊢
      cases hparsed : (world.read file).parsed? with
      | none =>
        rw [Sources.note_refused hparsed]
        exact htext
      | some last =>
        refine (Sources.note_here hparsed).mpr (.inr ⟨htext, ?_⟩)
        obtain rfl := Except.ok.inj (reading.symm.trans (Reading.parsed?_eq_some_iff.mp hparsed).1)
        exact Option.some.inj (hmade.1.symm.trans hdigest)
    · exact ⟨text, (Sources.note_elsewhere hpath).mpr htext, hmade⟩
  | malformed reading refused =>
    exact .of_refused (Reading.parsed?_of_refused reading refused) fun _ hentry => hentry
  | parsed reading accepted taken =>
    have hsettled : (before.settled file).catalog.Consistent := consistent
    obtain ⟨new, hnew, hfunctions, hdigest, -, hmem⟩ := mem_catalogWith? hsettled taken
    intro sources hsources entry hentry
    rcases (hmem entry).mp hentry with rfl | ⟨hold, hpath⟩
    · refine ⟨_, ?_, hdigest, hfunctions ▸ functionsOf_eq_ok.mp accepted⟩
      rw [hnew]
      exact (Sources.note_here (Reading.parsed?_of_ok reading accepted)).mpr (.inl rfl)
    · obtain ⟨text, htext, hmade⟩ := hsources entry hold
      exact ⟨text, (Sources.note_elsewhere hpath).mpr htext, hmade⟩
  | foreign reading accepted refused =>
    have hsettled : (before.settled file).catalog.Consistent := consistent
    exact .of_unknown (unknown_of_catalogWith?_eq_none hsettled refused)
  | vanished reading verdict taken =>
    exact .of_refused (Reading.parsed?_of_error reading) fun entry hentry =>
      ((Catalog.mem_erase? consistent taken).mp hentry).1
  | absent reading | undecodable reading | retried reading | exhausted reading =>
    exact .of_refused (Reading.parsed?_of_error reading) fun _ hentry => hentry

/-- What a drain reads accounts for the modules that it leaves. -/
theorem drain_carries {session : Session} (sound : session.Sound) :
    Carries (Effect.happenings (session.drain world now).effects) session.catalog
      (session.drain world now).value.catalog := by
  have hfold : ∀ (files : List Path) (draining : Draining), draining.session.Sound →
      Carries (Effect.happenings (files.foldlM (drainFile world) draining).effects)
        draining.session.catalog (files.foldlM (drainFile world) draining).value.session.catalog := by
    intro files
    induction files with
    | nil => exact fun draining _ => .refl _
    | cons file rest ih =>
      intro draining hsound
      have hdrained := drainFile_drained world draining file
      obtain ⟨asides, heffects, hasides⟩ := drainFile_effects world draining file
      have hrest := ih _ (hsound.drained hdrained)
      rw [List.foldlM_cons, Turn.effects_bind, Turn.value_bind, Effect.happenings_append, heffects,
        Effect.happenings_read, Effect.happenings_asides hasides]
      exact (hdrained.carries hsound.consistent).append hrest
  obtain ⟨read, rfl, hdrain⟩ := drain_eq world now session
  have hbegun : ({ session with drainDue := none } : Session).Sound := sound.of_same rfl rfl
  have hread := hfold session.pending.paths ⟨{ session with drainDue := none }, false⟩ hbegun
  rw [hdrain]
  simp only [Effect.happenings_append, scheduleRetry_catalog]
  split <;> simpa using hread

/-! ## Scanning the root -/

/-- A listed file is read once, if a walk finds every file under one spelling only. -/
theorem scan_carries {root : Path} {previous : Catalog} {scan : ScanReport} (once : world.ListsOnce)
    (found : Scan.directory world root previous = .ok scan) (consistent : previous.Consistent) :
    Carries (scan.readings.map fun entry => .read entry.1 entry.2) previous scan.catalog := by
  have hroot := Scan.isDirectory_of_ok found
  have hreadings := Scan.readings_of_ok world root previous hroot found
  intro sources hsources entry hentry
  obtain ⟨file, hlisted, hmodule⟩ := mem_scanned hroot found hentry
  obtain ⟨hfile, horigin⟩ := Scan.moduleOf?_cases hmodule
  have hread : (file, world.read file) ∈ scan.readings :=
    Scan.mem_readings_of_ok world root previous hroot found hlisted (Scan.moduleOf?_reads hmodule)
  -- the file was read under no other spelling, which might have had another content
  have honly : ∀ reading ∈ scan.readings, reading.1.components = file.components →
      reading.2 = world.read file := by
    intro reading hreading hsame
    rw [hreadings] at hreading
    obtain ⟨other, hother, rfl⟩ := List.mem_map.mp hreading
    have hotherListed := Scan.mem_inOrder.mp (List.mem_filter.mp hother).1
    rw [once root other (List.mem_filter.mp hotherListed).1 file (List.mem_filter.mp hlisted).1 hsame]
  rw [hfile]
  cases hparsed : (world.read file).parsed? with
  | some last =>
    obtain ⟨hresult, functions, haccepted⟩ := Reading.parsed?_eq_some_iff.mp hparsed
    obtain ⟨fresh, hfresh⟩ := Option.isSome_iff_exists.mp (Scan.moduleOf?_reads hmodule)
    have hcontent := Scan.moduleOf?_of_content previous hfresh hresult (functionsOf_eq_ok.mpr haccepted)
    obtain rfl := Option.some.inj (hmodule.symm.trans hcontent)
    refine ⟨last, Sources.foldl_note_of_some (fun reading hreading hsame => ?_) (.inr ⟨_, hread, rfl⟩),
      rfl, haccepted⟩
    rw [honly reading hreading hsame, hparsed]
  | none =>
    -- the file was read in vain, so its module is that of the previous catalog
    rcases horigin with ⟨text, hresult, haccepted, -⟩ | ⟨old, hold, hfunctions, hdigest⟩
    · cases (Reading.parsed?_of_ok hresult haccepted).symm.trans hparsed
    · obtain ⟨hmem, hpath⟩ := (Catalog.find?_eq_some_iff consistent).mp hold
      obtain ⟨text, htext, hmade⟩ := hsources old hmem
      rw [hpath] at htext
      refine ⟨text, (Sources.foldl_note_of_none fun happening hhappening => ?_).mpr htext, ?_⟩
      · obtain ⟨reading, hreading, rfl⟩ := List.mem_map.mp hhappening
        refine ⟨reading.1, reading.2, rfl, fun hsame => ?_⟩
        rw [honly reading hreading hsame, hparsed]
      · exact ⟨hdigest.trans hmade.1, hfunctions ▸ hmade.2⟩

/-- What a scan reads accounts for the modules that it leaves. -/
theorem rebuild_carries (now : Nat) {session : Session} (sound : session.Sound) (once : world.ListsOnce) :
    Carries (Effect.happenings (session.rebuild world now).effects) session.catalog
      (session.rebuild world now).value.1.catalog := by
  have hscanned := rebuild_scanned world now session
  generalize session.rebuild world now = turn at hscanned
  cases hscanned with
  | @scanned scan reports found asides =>
    have hscan := scan_carries once found sound.consistent
    simpa [Effect.happenings_readings, Effect.happenings_asides asides] using hscan
  | emptied =>
    exact .of_subset fun _ hentry => absurd hentry List.not_mem_nil
  | failed => exact .refl _

/-! ## Loading the settings -/

/-- What the scan reads that new settings ask for accounts for the modules. -/
theorem applied_carries {session : Session} {settings : Settings} {turn : Turn Session} (sound : session.Sound)
    (once : world.ListsOnce) (applied : SettingsApplied world now session settings turn) :
    Carries (Effect.happenings turn.effects) session.catalog turn.value.catalog := by
  cases applied with
  | same => exact .refl _
  | announced asides =>
    rw [Effect.happenings_publishSettings, Effect.happenings_asides asides]
    exact .refl _
  | rebuilt asides =>
    have hmoved : (session.underSettings world settings).Sound := sound.underSettings settings
    have hrebuilt := rebuild_carries now hmoved once
    rw [underSettings_catalog] at hrebuilt
    simpa [Effect.happenings_asides asides] using hrebuilt

/-- What is read after the settings file was loaded accounts for the modules. -/
theorem loaded_carries {session : Session} {attempts : Nat} {turn : Turn Session} (sound : session.Sound)
    (once : world.ListsOnce) (loaded : SettingsLoaded world now session attempts turn) :
    Carries (Effect.happenings turn.effects) session.catalog turn.value.catalog := by
  -- the settings file has no module, so that reading it is no happening of any
  have hsettings : Carries [.read session.settingsFile (world.read session.settingsFile)] session.catalog
      session.catalog := by
    refine .of_unknown fun entry hentry hsame => ?_
    have hdeclared := sound.declared entry hentry
    rw [Path.isDeclarationFile_congr hsame] at hdeclared
    exact absurd hdeclared (Bool.not_eq_true _ ▸ Settings.fileIn_not_declaration session.base)
  have hforgotten : ({ session with reload := none } : Session).Sound := sound.of_same rfl rfl
  cases loaded with
  | applied outcome =>
    rw [Effect.happenings_read]
    have happlied := applied_carries hforgotten once outcome
    exact hsettings.append happlied
  | refused asides =>
    rw [Effect.happenings_read, Effect.happenings_asides asides]
    exact hsettings
  | postponed => exact hsettings

/-! ## Runs -/

/-- The surroundings that a deed is done in. -/
def Deed.worlds : Deed → List Surroundings
  | .handle world _ _ => [world]
  | .poll atReload atRescan atDrain _ => [atReload, atRescan, atDrain]

/-- The news of a removal bring no module that needs an account. -/
theorem remove_carries {session : Session} (sound : session.Sound) (path : Path) :
    Carries (Effect.happenings (session.remove path).effects) session.catalog
      (session.remove path).value.catalog := by
  rw [remove_effects, remove_value]
  cases hwithout : catalogWithout? session.catalog path with
  | none => exact .refl _
  | some after => exact .of_subset fun entry hentry => mem_of_catalogWithout? sound.consistent hwithout hentry

/-- The news of a renaming account for the module that they move. -/
theorem rename_carries (world : Surroundings) (now : Nat) {session : Session} (sound : session.Sound)
    (source target : Path) :
    Carries ((if (session.catalogRenamed? source target).isSome then [.moved source target] else [])
        ++ Effect.happenings (session.rename world now source target).effects) session.catalog
      (session.rename world now source target).value.catalog := by
  have hrenamed := rename_renamed world now session source target
  generalize session.rename world now source target = turn at hrenamed
  cases hmoved : session.catalogRenamed? source target with
  | some catalog =>
    obtain ⟨haccepted, hrename⟩ := catalogRenamed?_eq_some session source hmoved
    obtain ⟨hsource, -⟩ := Catalog.mem_rename? sound.consistent hrename
    have hdeclared : target.isDeclarationFile = true := by
      unfold accepts at haccepted
      exact (Bool.and_eq_true_iff.mp haccepted).1
    cases hrenamed with
    | moved taken =>
      obtain rfl := Option.some.inj (hmoved.symm.trans taken)
      exact .of_rename sound.consistent hrename
    | ignored plain | rescanned plain => cases hdeclared.symm.trans plain.2
    | replaced known refused => cases hmoved.symm.trans refused
    | arrived declared unknown => cases hsource.symm.trans unknown
  | none =>
    cases hrenamed with
    | moved taken => cases hmoved.symm.trans taken
    | ignored | rescanned => exact .refl _
    | replaced =>
      rw [touch_catalog]
      exact remove_carries sound source
    | arrived =>
      rw [touch_catalog]
      exact .refl _

/-- What happens in the reload of a poll accounts for the modules that it leaves. -/
theorem reloadIfDue_carries (now : Nat) {session : Session} (sound : session.Sound) (once : world.ListsOnce) :
    Carries (Effect.happenings (session.reloadIfDue world now).effects) session.catalog
      (session.reloadIfDue world now).value.catalog := by
  unfold reloadIfDue
  split
  · split
    · exact loaded_carries sound once (reloadSettings_loaded world now session _)
    · exact .refl _
  · exact .refl _

/-- What happens in the scan of a poll accounts for the modules that it leaves. -/
theorem rescanIfDue_carries (now : Nat) {session : Session} (sound : session.Sound) (once : world.ListsOnce) :
    Carries (Effect.happenings (session.rescanIfDue world now).effects) session.catalog
      (session.rescanIfDue world now).value.catalog := by
  have hrebuilt := rebuild_carries now sound once
  unfold rescanIfDue
  split
  · simpa using hrebuilt
  · exact .refl _

/-- What happens in the drain of a poll accounts for the modules that it leaves. -/
theorem drainIfDue_carries (world : Surroundings) (now : Nat) {session : Session} (sound : session.Sound) :
    Carries (Effect.happenings (session.drainIfDue world now).effects) session.catalog
      (session.drainIfDue world now).value.catalog := by
  unfold drainIfDue
  split
  · exact drain_carries sound
  · exact .refl _

/-- What happens in a deed accounts for the modules that it leaves. -/
theorem act_carries {session : Session} (sound : session.Sound) (deed : Deed)
    (once : ∀ world ∈ deed.worlds, world.ListsOnce) :
    Carries (session.happenings deed) session.catalog (session.act deed).value.catalog := by
  cases deed with
  | handle world now command =>
    have hworld : world.ListsOnce := once world List.mem_cons_self
    cases command with
    | touched path =>
      rw [happenings, act_touched, Turn.value_pure, touch_catalog]
      exact .refl _
    | removed path =>
      rw [happenings, act_removed]
      exact remove_carries sound path
    | renamed source target =>
      rw [happenings, act_renamed]
      exact rename_carries world now sound source target
    | settingsTouched => exact .refl _
    | settingsRemoved =>
      have hforgotten : ({ session with reload := none } : Session).Sound := sound.of_same rfl rfl
      have happlied := applied_carries hforgotten hworld (applySettings_applied world now _ .default)
      rw [happenings, act_settingsRemoved]
      exact happlied
    | rebuild =>
      rw [happenings, act_rebuild, Turn.effects_map, Turn.value_map]
      exact rebuild_carries now sound hworld
    | shutdown => exact .refl _
  | poll atReload atRescan atDrain now =>
    have hreload := reloadIfDue_carries now sound (once atReload (by simp [Deed.worlds]))
    have hreloaded : (session.reloadIfDue atReload now).value.Sound := sound.reloadIfDue
    have hrescanned : ((session.reloadIfDue atReload now).value.rescanIfDue atRescan now).value.Sound :=
      hreloaded.rescanIfDue
    have hrescan := rescanIfDue_carries now hreloaded (once atRescan (by simp [Deed.worlds]))
    have hdrain := drainIfDue_carries atDrain now hrescanned
    have hall := hreload.append (hrescan.append hdrain)
    simpa [happenings, moves, act, pollIn] using hall

/-- What happens in a run accounts for the modules that it leaves. -/
theorem run_carries {session : Session} (sound : session.Sound) (deeds : List Deed)
    (once : ∀ deed ∈ deeds, ∀ world ∈ deed.worlds, world.ListsOnce) :
    Carries (session.history deeds) session.catalog (session.run deeds).value.catalog := by
  induction deeds generalizing session with
  | nil => exact .refl _
  | cons deed rest ih =>
    obtain ⟨hfirst, hrest⟩ := List.forall_mem_cons.mp once
    have hafter := ih (sound.act deed) hrest
    unfold run at hafter ⊢
    rw [List.foldlM_cons, Turn.value_bind]
    exact (act_carries sound deed hfirst).append hafter

/-- A module is made from one text, which was read and has the digest of the last text that was read of its
file. -/
theorem exists_madeFrom {session : Session} {deeds : List Deed} (sound : session.Sound)
    (bare : session.catalog.modules = []) (once : ∀ deed ∈ deeds, ∀ world ∈ deed.worlds, world.ListsOnce)
    {entry : Module} (hentry : entry ∈ (session.run deeds).value.catalog.modules) :
    ∃ last text, Happening.lastText? (session.history deeds) entry.file = some last
      ∧ Happening.WasRead (session.history deeds) text ∧ Digest.ofText last = Digest.ofText text
      ∧ entry.MadeFrom text := by
  have hbare : session.catalog.From fun _ _ => False := by
    intro old hold
    rw [bare] at hold
    cases hold
  obtain ⟨text, htext, hmade⟩ := run_carries sound deeds once _ hbare entry hentry
  obtain ⟨last, hlast, hdigest⟩ := Sources.last_of_foldl_note (fun _ => none) (by simp) htext
  have hread := (Sources.wasRead_of_foldl_note htext).resolve_right (by simp)
  exact ⟨last, text, hlast, hread, hdigest, hmade⟩

/-- A module of whose file a deed reads nothing that keeps to the grammar has the functions and the digest
that it had before the deed, maybe under another path. -/
theorem kept_of_unread {session : Session} {deed : Deed} (sound : session.Sound)
    (once : ∀ world ∈ deed.worlds, world.ListsOnce)
    (made : ∀ old ∈ session.catalog.modules, ∃ text, old.MadeFrom text) {entry : Module}
    (hentry : entry ∈ (session.act deed).value.catalog.modules)
    (unread : ∀ file reading, .read file reading ∈ (session.act deed).effects →
      file.components = entry.file.components → reading.parsed? = none) :
    ∃ old ∈ session.catalog.modules, old.functions = entry.functions ∧ old.digest = entry.digest
      ∧ (old.file.components = entry.file.components
        ∨ ∃ source target, .moved source target ∈ session.moves deed
          ∧ old.file.components = source.components ∧ entry.file.components = target.components) := by
  -- what a deed carries along, it carries along for the texts that the modules of before are made from
  let sources : Sources := fun path text =>
    ∃ old ∈ session.catalog.modules, old.file.components = path ∧ old.MadeFrom text
  have hsources : session.catalog.From sources := by
    intro old hold
    obtain ⟨text, hmade⟩ := made old hold
    exact ⟨text, ⟨old, hold, rfl, hmade⟩, hmade⟩
  obtain ⟨text, htext, hmade⟩ := act_carries sound deed once sources hsources entry hentry
  have hsame : ∀ old : Module, old.MadeFrom text → old.functions = entry.functions
      ∧ old.digest = entry.digest := by
    intro old hold
    constructor
    · have hparsed : .ok old.functions = Except.ok entry.functions :=
        calc .ok old.functions = Signature.parseText text := hold.2.symm
          _ = .ok entry.functions := hmade.2
      exact Except.ok.inj hparsed
    · calc old.digest = some (Digest.ofText text) := hold.1
        _ = entry.digest := hmade.1.symm
  unfold happenings at htext
  rw [List.foldl_append] at htext
  have hbefore := (Sources.foldl_note_of_none fun happening hhappening => by
    obtain ⟨file, reading, rfl, hread⟩ := Effect.mem_happenings hhappening
    exact ⟨file, reading, rfl, unread file reading hread⟩).mp htext
  rcases moves_cases session deed with hnone | ⟨source, target, hmoved⟩
  · rw [hnone] at hbefore
    obtain ⟨old, hold, hpath, holdMade⟩ := hbefore
    exact ⟨old, hold, (hsame old holdMade).1, (hsame old holdMade).2, .inl hpath⟩
  · rw [hmoved, List.foldl_cons, List.foldl_nil] at hbefore
    by_cases htarget : entry.file.components = target.components
    · rw [htarget] at hbefore
      obtain ⟨old, hold, hpath, holdMade⟩ := Sources.note_target.mp hbefore
      refine ⟨old, hold, (hsame old holdMade).1, (hsame old holdMade).2, .inr ⟨source, target, ?_, hpath, htarget⟩⟩
      rw [hmoved]
      exact List.mem_cons_self
    · obtain ⟨old, hold, hpath, holdMade⟩ := (Sources.note_unmoved htarget).mp hbefore
      exact ⟨old, hold, (hsame old holdMade).1, (hsame old holdMade).2, .inl hpath⟩

/-- After any run every module has the digest and the functions of one text, and that is the last text keeping to
the grammar that was read of its file, under its own path or the one that it was moved from; only texts that
share a digest are not told apart. Whatever else a deed comes to, a missing, unreadable or malformed file among
it, changes neither the functions nor the digest of a module that is kept. -/
theorem run_last_text (world : Surroundings) (base : Path) (settings : Settings) (timing : Timing)
    (deeds : List Deed) (deed : Deed)
    (once : ∀ deed' ∈ deeds ++ [deed], ∀ world ∈ deed'.worlds, world.ListsOnce) :
    let opened := Session.start world base settings timing
    let before := (opened.run deeds).value
    (∀ entry ∈ before.catalog.modules,
      ∃ last text, Happening.lastText? (opened.history deeds) entry.file = some last ∧ entry.MadeFrom text
        ∧ Happening.WasRead (opened.history deeds) text ∧ Digest.ofText last = Digest.ofText text
        ∧ ((∀ other, Happening.WasRead (opened.history deeds) other →
          Digest.ofText other = Digest.ofText last → other = last) → text = last))
      ∧ ∀ entry ∈ (before.act deed).value.catalog.modules,
        (∀ file reading, .read file reading ∈ (before.act deed).effects →
          file.components = entry.file.components → reading.parsed? = none) →
        ∃ old ∈ before.catalog.modules, old.functions = entry.functions ∧ old.digest = entry.digest
          ∧ (old.file.components = entry.file.components
            ∨ ∃ source target, .moved source target ∈ before.moves deed
              ∧ old.file.components = source.components ∧ entry.file.components = target.components) := by
  intro opened before
  have hsound : opened.Sound := .start world base settings timing
  have hdeeds : ∀ deed' ∈ deeds, ∀ world ∈ deed'.worlds, world.ListsOnce :=
    fun deed' hdeed' => once deed' (List.mem_append_left _ hdeed')
  have hmade : ∀ entry ∈ before.catalog.modules, ∃ last text,
      Happening.lastText? (opened.history deeds) entry.file = some last
        ∧ Happening.WasRead (opened.history deeds) text ∧ Digest.ofText last = Digest.ofText text
        ∧ entry.MadeFrom text := fun entry hentry => exists_madeFrom hsound rfl hdeeds hentry
  constructor
  · intro entry hentry
    obtain ⟨last, text, hlast, hread, hdigest, hfrom⟩ := hmade entry hentry
    exact ⟨last, text, hlast, hfrom, hread, hdigest, fun apart => apart text hread hdigest.symm⟩
  · intro entry hentry hunread
    refine kept_of_unread (hsound.run deeds) (once deed (by simp)) (fun old hold => ?_) hentry hunread
    obtain ⟨-, text, -, -, -, hfrom⟩ := hmade old hold
    exact ⟨text, hfrom⟩

end Session

/-- In surroundings with one file the walk lists it once. -/
theorem Surroundings.ofFile_listsOnce (file : Path) (reading : Reading) : (ofFile file reading).ListsOnce := by
  intro directory a ha b hb _
  rw [List.mem_singleton.mp ha, List.mem_singleton.mp hb]

namespace Session

/-- The functions of a file that was scanned once stay when a second scan finds the file unreadable. -/
theorem run_last_text_unreadable :
    let file : Path := ⟨"/w/a.d.ts"⟩
    let text := "export declare function f(): void;"
    let scan := Deed.handle (.ofFile file (.content text)) 0 .rebuild
    let again := Deed.handle (.ofFile file (.failed .notText)) 1 .rebuild
    let opened := Session.start (.ofFile file (.content text)) ⟨"/w"⟩ .default {}
    (∀ deed ∈ [scan] ++ [again], ∀ world ∈ deed.worlds, world.ListsOnce)
      ∧ ∃ entry ∈ (opened.run ([scan] ++ [again])).value.catalog.modules, entry.MadeFrom text := by
  intro file text scan again opened
  have once : ∀ deed ∈ [scan] ++ [again], ∀ world ∈ deed.worlds, world.ListsOnce := by
    simp [scan, again, Deed.worlds, Surroundings.ofFile_listsOnce]
  refine ⟨once, ?_⟩
  have hrun := run_last_text (.ofFile file (.content text)) ⟨"/w"⟩ .default {} [scan] again once
  obtain ⟨hmade, hkept⟩ := hrun
  have hhistory : opened.history [scan] = [.read file (.content text)] := by decide +kernel
  have hone : (opened.run ([scan] ++ [again])).value.catalog.modules.length = 1 := by decide +kernel
  obtain ⟨entry, hmodules⟩ := List.length_eq_one_iff.mp hone
  have hentry : entry ∈ (opened.run ([scan] ++ [again])).value.catalog.modules := by
    rw [hmodules]
    exact List.mem_singleton_self entry
  refine ⟨entry, hentry, ?_⟩
  have hreadings : ((opened.run [scan]).value.act again).effects.filterMap Effect.reading? =
      [(file, .failed .notText)] := by decide +kernel
  obtain ⟨old, hold, hfunctions, hdigest, -⟩ := hkept entry hentry fun other reading hread _ => by
    have hmem : (other, reading) ∈ [(file, Reading.failed .notText)] :=
      hreadings ▸ List.mem_filterMap.mpr ⟨_, hread, rfl⟩
    rw [(Prod.mk.inj (List.mem_singleton.mp hmem)).2]
    rfl
  obtain ⟨last, text', hlast, hfrom, hread, -⟩ := hmade old hold
  have honly : ∀ other, Happening.WasRead (opened.history [scan]) other → other = text := by
    rintro other ⟨otherFile, reading, hmem, hparsed⟩
    rw [hhistory] at hmem
    obtain ⟨-, rfl⟩ := Happening.read.inj (List.mem_singleton.mp hmem)
    exact (Except.ok.inj (Reading.parsed?_eq_some_iff.mp hparsed).1).symm
  obtain rfl := honly text' hread
  exact ⟨hdigest.symm.trans hfrom.1, hfunctions ▸ hfrom.2⟩

end Session

end TypingsIndex
