import TypingsIndex.Proofs.Watch.Coverage.Tracking
import TypingsIndex.Proofs.Watch.Still.Listing

/-!
# Touches that change nothing

While the surroundings do not change, the catalog that a scan gave stays as it is. To scan again gives it again: a file
that is read and understood has the same module, and one that fails keeps the module that it has, under the same names.
And to read a single file changes nothing either: if the file has a module, then its text is the one that the module
was made of, and it is not missing; and if it has none, then it is not read, unless through a link
(`Surroundings.Admits`).
-/

set_option autoImplicit false

namespace TypingsIndex

/-- Putting in the functions that a module has changes nothing. -/
theorem Catalog.replaceFunctions?_same {catalog : Catalog} {path : Path} {entry : Module}
    (found : catalog.find? path = some entry) :
    catalog.replaceFunctions? path entry.functions entry.digest = some catalog := by
  obtain ⟨i, hposition, hentry⟩ := Option.bind_eq_some_iff.mp found
  unfold replaceFunctions?
  rw [hposition, Option.map_some]
  have hsame : catalog.modules.modify i
      (fun other => { other with functions := entry.functions, digest := entry.digest }) = catalog.modules := by
    apply List.ext_getElem?
    intro j
    rw [List.getElem?_modify]
    split
    · next heq =>
      rw [← heq, hentry]
      rfl
    · exact Option.map_id'
  rw [hsame]

/-- A module that is at a path already stays as it is when it is moved there. -/
theorem Module.relocate?_again {entry moved : Module} {file root : Path} (h : entry.relocate? file root = some moved) :
    moved.relocate? file root = some moved := by
  obtain ⟨names, hnames, rfl⟩ := Option.map_eq_some_iff.mp h
  unfold relocate?
  rw [hnames]
  rfl

/-- Reading a path gives a text only if the path is that of a listed file. -/
def Surroundings.Admits (world : Surroundings) (root path : Path) : Prop :=
  ∀ text, (world.read path).result = .ok text →
    ∃ file ∈ Scan.listed world root, file.components = path.components

section

variable {world : Surroundings} {root : Path} {previous : Catalog} {scan : ScanReport} (still : world.Still root)
  (report : Scan.directory world root previous = .ok scan)

include still report

/-- After a scan every listed file keeps its module in another scan. -/
theorem Scan.moduleOf?_again {file : Path} (listed : file ∈ Scan.listed world root) :
    moduleOf? world root scan.catalog file = moduleOf? world root previous file := by
  have hfound := find?_scanned still.walks still.exists_root report listed
  unfold moduleOf? keptModule? at hfound ⊢
  cases hresult : (loadModule world root file).result with
  | ok entry => rfl
  | error failure =>
    simp only [hresult] at hfound ⊢
    rw [hfound]
    cases hkept : (previous.find? file).bind fun entry => entry.relocate? file root with
    | none => rfl
    | some entry =>
      obtain ⟨old, -, hmoved⟩ := Option.bind_eq_some_iff.mp hkept
      exact Module.relocate?_again hmoved

/-- A scan after another finds the modules that this one has left. -/
theorem Scan.directory_again {again : ScanReport} (rescan : Scan.directory world root scan.catalog = .ok again) :
    again.catalog = scan.catalog := by
  have hmodules : (inOrder (listed world root)).filterMap (moduleOf? world root scan.catalog) =
      (inOrder (listed world root)).filterMap (moduleOf? world root previous) :=
    List.filterMap_congr fun file hfile => moduleOf?_again still report (mem_inOrder.mp hfile)
  rw [(directory_of_ok world root scan.catalog still.exists_root rescan).1, hmodules,
    (directory_of_ok world root previous still.exists_root report).1]

/-- To read a file leaves the catalog of a scan as it is. -/
theorem Session.FileDrained.keeps {path : Path} {before after : Session} (same : before.catalog = scan.catalog)
    (admits : world.Admits root path) (drained : Session.FileDrained world path before after) :
    after.catalog = scan.catalog := by
  have hconsistent := Session.scanned_consistent still.exists_root report
  cases drained with
  | @parsed text functions catalog reading accepted taken =>
    -- the module of the listed file was made of this text, so that it is filled with what it has
    obtain ⟨file, hfile, hsame⟩ := admits text reading
    obtain ⟨fresh, hfresh⟩ := Scan.exists_empty? still.walks hfile
    have hread := still.alike file hfile path hsame.symm text reading
    have haccepted : functionsOf file text = .ok functions := functionsOf_eq_ok.mpr (functionsOf_eq_ok.mp accepted)
    have hmodule := Scan.moduleOf?_of_content previous hfresh hread haccepted
    rw [← Scan.find?_scanned still.walks still.exists_root report hfile,
      Catalog.find?_congr hconsistent hsame] at hmodule
    have hrefilled : scan.catalog.replaceFunctions? path functions (some (Digest.ofText text)) = some scan.catalog :=
      Catalog.replaceFunctions?_same hmodule
    have hcatalog : (before.settled path).catalog = scan.catalog := same
    unfold Session.catalogWith? at taken
    rw [hcatalog, hrefilled] at taken
    exact (Option.some.inj taken).symm
  | vanished reading verdict taken =>
    rw [same] at taken
    obtain ⟨entry, hentry, hsame⟩ := Catalog.exists_of_erase? hconsistent taken
    obtain ⟨file, hfile, hmodule⟩ := (Scan.mem_scanned_iff still.walks still.exists_root report).mp hentry
    rw [(Scan.moduleOf?_cases hmodule).1] at hsame
    have hthere := still.there file hfile path hsame.symm
    simp [Reading.isMissing, reading, verdict] at hthere
  | _ => exact same

end

/-! ## Touches and polls after a scan -/

namespace Session

/-- A touch of a path of a kind, or a poll, while the surroundings stay the same. -/
inductive Deed.Idles (world : Surroundings) (touched : Path → Prop) : Deed → Prop where
  | touch {path : Path} (now : Nat) (kind : touched path) : Idles world touched (.handle world now (.touched path))
  | poll (now : Nat) : Idles world touched (.poll world world world now)

/-- A session has the catalog of another and nothing to do but to read paths of a kind and to scan its root. -/
structure Idle (marked : Path → Prop) (opened session : Session) : Prop where
  sound : session.Sound
  catalog : session.catalog = opened.catalog
  root : session.root = opened.root
  timing : session.timing = opened.timing
  reload : session.reload = none
  scheduled : session.Scheduled
  marks : ∀ path ∈ session.pending.paths, marked path

section

variable {world : Surroundings} {marked : Path → Prop} {opened session : Session}

/-- A scan that succeeds has found a root that is a directory. -/
theorem isDirectory_of_rebuilt {now : Nat} {report : RebuildReport}
    (rebuilt : (session.rebuild world now).value.2 = .ok report) : world.isDirectory session.root = true := by
  cases hscan : Scan.directory world session.root session.catalog with
  | ok scan => exact Scan.isDirectory_of_ok hscan
  | error failure =>
    unfold Session.rebuild at rebuilt
    simp only [hscan] at rebuilt
    cases rebuilt

/-- After a scan a session is idle, whatever it was before, unless the settings are to be loaded. -/
theorem Idle.afresh (exists_root : world.isDirectory session.root = true) (settled : session.reload = none)
    (listed : ∀ file ∈ Scan.listed world session.root, marked file) (now : Nat) :
    Idle marked (session.rebuild world now).value.1 (session.rebuild world now).value.1
      ∧ ∃ scan, Scan.directory world session.root session.catalog = .ok scan
        ∧ (session.rebuild world now).value.1.catalog = scan.catalog := by
  obtain ⟨scan, hscan, hvalue⟩ := rebuild_value now exists_root
  have hscheduled := scheduleRetry_scheduled { session with
    catalog := scan.catalog, pending := pendingAfter scan.failures, drainDue := none, rescanDue := none } now
  obtain ⟨due, hdue⟩ := scheduleRetry_frame { session with
    catalog := scan.catalog, pending := pendingAfter scan.failures, drainDue := none, rescanDue := none } now
  rw [hdue] at hvalue hscheduled
  rw [hvalue]
  refine ⟨⟨⟨scanned_consistent exists_root hscan, fun entry hentry => ?_, Pending.Rising.empty.foldl_insert⟩,
    rfl, rfl, rfl, settled, hscheduled,
    fun path hpath => listed path (mem_pendingAfter exists_root hscan hpath)⟩, scan, hscan, rfl⟩
  obtain ⟨file, hfile, hmodule⟩ := mem_scanned exists_root hscan hentry
  rw [(Scan.moduleOf?_cases hmodule).1]
  exact (List.mem_filter.mp hfile).2

/-- A touch of a path of the kind leaves the catalog as it is. -/
theorem Idle.touch (idle : Idle marked opened session) (now : Nat) {path : Path}
    (kind : session.accepts path = true → marked path) : Idle marked opened (session.touch world now path) := by
  have hsound : (session.touch world now path).Sound := idle.sound.touch path
  have hscheduled : (session.touch world now path).Scheduled := Scheduled.touched idle.scheduled path
  have htouched := touch_touched world now session path
  generalize session.touch world now path = after at hsound hscheduled htouched
  cases htouched with
  | marked accepted =>
    refine ⟨hsound, idle.catalog, idle.root, idle.timing, idle.reload, hscheduled, fun other hother => ?_⟩
    rcases Pending.paths_insert hother with rfl | hold
    · exact kind accepted
    · exact idle.marks other hold
  | rescanned refused concerns =>
    exact ⟨hsound, idle.catalog, idle.root, idle.timing, idle.reload, hscheduled, idle.marks⟩
  | ignored refused unknown elsewhere => exact idle

variable {previous : Catalog} {scan : ScanReport} (still : world.Still opened.root)
  (report : Scan.directory world opened.root previous = .ok scan) (scanned : opened.catalog = scan.catalog)

include still report scanned

/-- Another scan of the same files leaves the catalog as it is. -/
theorem Idle.rebuild (listed : ∀ file ∈ Scan.listed world opened.root, marked file) (idle : Idle marked opened session)
    (now : Nat) : Idle marked opened (session.rebuild world now).value.1 := by
  obtain ⟨hfresh, again, hagain, hcatalog⟩ := @Idle.afresh world marked session
    (by rw [idle.root]; exact still.exists_root) idle.reload (by rw [idle.root]; exact listed) now
  rw [idle.root, idle.catalog, scanned] at hagain
  obtain ⟨_, _, _, hvalue, -⟩ := rebuild_frame world now session
  refine { hfresh with catalog := ?_, root := ?_, timing := ?_ }
  · calc (session.rebuild world now).value.1.catalog = again.catalog := hcatalog
      _ = scan.catalog := Scan.directory_again still report hagain
      _ = opened.catalog := scanned.symm
  · rw [hvalue]
    exact idle.root
  · rw [hvalue]
    exact idle.timing

/-- A drain of paths that give only what the scan has read leaves the catalog as it is. -/
theorem Idle.drain (admits : ∀ path, marked path → world.Admits opened.root path) (idle : Idle marked opened session)
    (now : Nat) : Idle marked opened (session.drain world now).value := by
  have hstep : ∀ file ∈ session.pending.paths, ∀ before after : Session,
      (before.catalog = opened.catalog ∧ before.root = opened.root ∧ before.timing = opened.timing
        ∧ before.reload = none ∧ ∀ path ∈ before.pending.paths, marked path) →
      FileDrained world file before after →
      after.catalog = opened.catalog ∧ after.root = opened.root ∧ after.timing = opened.timing
        ∧ after.reload = none ∧ ∀ path ∈ after.pending.paths, marked path := by
    rintro file hfile before after ⟨hcatalog, hroot, htiming, hreload, hmarks⟩ hdrained
    have hkept := hdrained.keeps still report (hcatalog.trans scanned) (admits file (idle.marks file hfile))
    have hsubset := hdrained.paths_subset
    obtain ⟨pending, catalog, rfl⟩ := hdrained.frame
    exact ⟨hkept.trans scanned.symm, hroot, htiming, hreload, fun path hpath => hmarks path (hsubset path hpath)⟩
  obtain ⟨last, ⟨hcatalog, hroot, htiming, hreload, hmarks⟩, hvalue⟩ :=
    drain_invariant now hstep ⟨idle.catalog, idle.root, idle.timing, idle.reload, idle.marks⟩
  have hsound : (session.drain world now).value.Sound := idle.sound.drain
  obtain ⟨due, hdue⟩ := scheduleRetry_frame last now
  have hscheduled := scheduleRetry_scheduled last now
  rw [hvalue, hdue] at hsound ⊢
  rw [hdue] at hscheduled
  exact ⟨hsound, hcatalog, hroot, htiming, hreload, hscheduled, hmarks⟩

variable (listed : ∀ file ∈ Scan.listed world opened.root, marked file)
  (admits : ∀ path, marked path → world.Admits opened.root path)

include listed admits

/-- A poll leaves the catalog as it is, since its scan and its drain do. -/
theorem Idle.poll (idle : Idle marked opened session) (now : Nat) :
    Idle marked opened (session.poll world now).value := by
  rw [← pollIn_self]
  exact pollIn_invariant idle.reload idle (fun _ before => before.rebuild still report scanned listed now)
    fun _ before => before.drain still report scanned admits now

/-- Touches and polls leave the catalog as it is. -/
theorem Idle.run {touched : Path → Prop} (kind : ∀ path, touched path → opened.accepts path = true → marked path)
    (idle : Idle marked opened session) {deeds : List Deed} (idles : ∀ deed ∈ deeds, deed.Idles world touched) :
    Idle marked opened (session.run deeds).value := by
  refine run_invariant deeds idle fun before deed hdeed hbefore => ?_
  cases idles deed hdeed with
  | @touch path now hkind =>
    have haccepts : before.accepts path = opened.accepts path := by
      unfold accepts
      rw [hbefore.root]
    exact hbefore.touch now fun haccepted => kind path hkind (haccepts ▸ haccepted)
  | poll now => exact hbefore.poll still report scanned listed admits now

end

end Session

end TypingsIndex
