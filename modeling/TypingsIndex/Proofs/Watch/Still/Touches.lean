import TypingsIndex.Proofs.Watch.Still.Quiet

/-!
# Touches of an unchanged disk

On a disk that does not change, touches and polls leave the catalog of a scan as it is. Touches let in the files that a
scan lists and no others, and after enough polls nothing is left to do. This is so because every spelling of a listed
file tells the same, and a path that is not that of a listed file does not tell a text. It may, where a symbolic link is
on the way below the root, for a touch follows it and a scan does not; and without a limit on failed reads a directory
with the name of a declaration file is tried forever.
-/

set_option autoImplicit false

namespace TypingsIndex.Session

/-- After a scan of an existing root, while the disk stays the same, touches and polls change no module, unless a
touched path is accepted and leads to a text through a link below the root. What can be read without a link below the
root is accepted exactly if it is listed by a scan. If failed reads are limited, or no listed and no accepted touched
file fails in a way that may pass, a bounded number of polls at due times, late or not, leaves nothing to do. The root
has to be an absolute path without dots and links, as it is in a session that started when the root was there. -/
theorem touches_change_nothing {disk : Disk} (wellFormed : disk.WellFormed) {location : Disk.Location}
    (there : disk.hasDirectory location = true) {instead : List (Path × Reading)}
    (passing : ∀ entry ∈ instead, entry.2.Passing) (watchFault : Path → Option Failure) {session : Session}
    (rooted : session.root = Disk.pathOf location) (settled : session.reload = none) (start : Nat)
    {report : RebuildReport} :
    let world := disk.surroundings instead watchFault
    let opened := (session.rebuild world start).value.1
    (session.rebuild world start).value.2 = .ok report →
      (∀ path text, (world.read path).result = .ok text → disk.Direct location path →
        (opened.accepts path = true ↔ ∃ file ∈ Scan.listed world opened.root, file.components = path.components))
      ∧ ∀ touched : Path → Prop,
        (∀ path, touched path → opened.accepts path = true → ∀ text, (world.read path).result = .ok text →
          disk.Direct location path) →
        ∀ deeds : List Deed, (∀ deed ∈ deeds, deed.Idles world touched) →
          let later := (opened.run deeds).value
          later.catalog = opened.catalog
          ∧ ((∀ path, path ∈ Scan.listed world opened.root ∨ (touched path ∧ opened.accepts path = true) →
              (world.read path).isTransient = true → opened.timing.maxAttempts.isSome = true) →
            ∀ lates : List Nat, 2 * opened.timing.maxAttempts.getD 0 + 3 ≤ lates.length →
              (pollsDue world later lates).catalog = opened.catalog
              ∧ (pollsDue world later lates).nextDeadline = none) := by
  intro world opened rebuilt
  have hexists : world.isDirectory session.root = true := isDirectory_of_rebuilt rebuilt
  have hdirectory : disk.isDirectory (Disk.pathOf location) = true := rooted ▸ hexists
  obtain ⟨hidle, scan, hscan, hcatalog⟩ := @Idle.afresh world (fun path => path ∈ Scan.listed world session.root)
    session hexists settled (fun _ hfile => hfile) start
  have hopenedRoot : opened.root = session.root := by
    obtain ⟨_, _, _, hvalue, -⟩ := rebuild_frame world start session
    change (session.rebuild world start).value.1.root = session.root
    rw [hvalue]
  have hroot : opened.root = Disk.pathOf location := hopenedRoot.trans rooted
  have hstill : world.Still opened.root := by
    rw [hroot]
    exact Disk.still passing watchFault wellFormed hdirectory there
  refine ⟨fun path text content direct => ⟨fun accepted => ?_, ?_⟩, fun touched straight deeds idles => ?_⟩
  · exact Disk.exists_listed passing watchFault wellFormed hdirectory there hroot accepted direct content
  · rintro ⟨file, hfile, hsame⟩
    exact Disk.accepts_listed watchFault wellFormed hdirectory there hroot hfile hsame
  -- what is ever pending from here on is listed, or touched and accepted
  let marked (path : Path) : Prop := path ∈ Scan.listed world opened.root ∨ (touched path ∧ opened.accepts path = true)
  have hlisted : ∀ file ∈ Scan.listed world opened.root, marked file := fun _ hfile => .inl hfile
  have hadmits : ∀ path, marked path → world.Admits opened.root path := by
    rintro path (hfile | ⟨hkind, haccepted⟩) text content
    · exact ⟨path, hfile, rfl⟩
    · exact Disk.exists_listed passing watchFault wellFormed hdirectory there hroot haccepted
        (straight path hkind haccepted text content) content
  have hscanned : Scan.directory world opened.root session.catalog = .ok scan := by
    rw [hopenedRoot]
    exact hscan
  have hopened : Idle marked opened opened :=
    { hidle with marks := fun path hpath => hlisted path (hopenedRoot ▸ hidle.marks path hpath) }
  have hlater : Idle marked opened (opened.run deeds).value :=
    Idle.run hstill hscanned hcatalog hlisted hadmits (fun path hkind haccepted => .inr ⟨hkind, haccepted⟩) hopened
      idles
  refine ⟨hlater.catalog, fun patient lates enough => ⟨?_, ?_⟩⟩
  · exact (hlater.pollsDue hstill hscanned hcatalog hlisted hadmits lates).catalog
  · have hlimit : ∀ path, marked path → (world.read path).isTransient = true →
        ∃ most, opened.timing.maxAttempts = some most ∧ most ≤ opened.timing.maxAttempts.getD 0 := by
      intro path hmarked htransient
      obtain ⟨most, hmost⟩ := Option.isSome_iff_exists.mp (patient path hmarked htransient)
      exact ⟨most, hmost, by rw [hmost]; exact Nat.le_refl most⟩
    exact hlater.quiets hlimit hstill hscanned hcatalog hlisted hadmits (Owes.start _ _) (by omega)

/-- A file and its directory are touched beside a link that is not. -/
theorem touches_change_nothing_beside_link :
    let disk : Disk := ⟨[(["w"], .directory), (["w", "a.d.ts"], .file (.text "")),
      (["w", "l.d.ts"], .link "a.d.ts")], ["w"]⟩
    let world := disk.undisturbed
    let session := Session.start world ⟨"/w"⟩ .default {}
    let opened := (session.rebuild world 0).value.1
    let later := (opened.run [.handle world 1 (.touched ⟨"/w/./a.d.ts"⟩), .poll world world world 501,
      .handle world 502 (.touched ⟨"/w"⟩)]).value
    opened.catalog.modules.map Module.file = [⟨"/w/a.d.ts"⟩] ∧ opened.accepts ⟨"/w/./a.d.ts"⟩ = true
      ∧ later.catalog = opened.catalog ∧ later.nextDeadline = some 1002
      ∧ (pollsDue world later [0, 7, 0]).nextDeadline = none := by
  intro disk world session opened later
  have hwellFormed : disk.WellFormed := by
    have hproper : ∀ entry ∈ disk.nodes, ∀ name ∈ entry.1,
        name.toList ≠ [] ∧ name.toList ≠ ['.'] ∧ name.toList ≠ ['.', '.'] ∧ '/' ∉ name.toList := by decide
    refine ⟨by decide, by decide, fun entry hentry name hname => ?_, by decide⟩
    obtain ⟨hempty, hdot, hdots, hslash⟩ := hproper entry hentry name hname
    exact ⟨hempty, hdot, hdots, hslash⟩
  have hrebuilt : (session.rebuild world 0).value.2 = .ok ⟨1, []⟩ := by decide +kernel
  have hlisted : Scan.listed world opened.root = [⟨"/w/a.d.ts"⟩] := by decide +kernel
  have haccepted : opened.accepts ⟨"/w/./a.d.ts"⟩ = true := by decide +kernel
  have hrefused : opened.accepts ⟨"/w"⟩ = false := by decide +kernel
  have hwaits : later.nextDeadline = some 1002 := by decide +kernel
  have hmodules : opened.catalog.modules.map Module.file = [⟨"/w/a.d.ts"⟩] := by decide +kernel
  have hreads : ∀ path : Path, path = ⟨"/w/./a.d.ts"⟩ ∨ path = ⟨"/w/a.d.ts"⟩ →
      (world.read path).isTransient = false := by
    rintro path (rfl | rfl) <;> decide +kernel
  let touched (path : Path) : Prop := path = ⟨"/w/./a.d.ts"⟩ ∨ path = ⟨"/w"⟩
  have hstraight : ∀ path, touched path → opened.accepts path = true → ∀ text, (world.read path).result = .ok text →
      disk.Direct ["w"] path := by
    rintro path (rfl | rfl) hpath text -
    · have hthere : disk.node? (["w"] ++ ["a.d.ts"]) = some (.file (.text "")) := by decide
      exact hwellFormed.direct hthere (fun _ => Disk.Node.noConfusion) (by decide)
    · rw [hrefused] at hpath
      cases hpath
  have hpatient : ∀ path, path ∈ Scan.listed world opened.root ∨ (touched path ∧ opened.accepts path = true) →
      (world.read path).isTransient = true → opened.timing.maxAttempts.isSome = true := by
    intro path hpath htransient
    have hfile : path = ⟨"/w/./a.d.ts"⟩ ∨ path = ⟨"/w/a.d.ts"⟩ := by
      rcases hpath with hmem | ⟨rfl | rfl, hkind⟩
      · exact .inr (List.mem_singleton.mp (hlisted ▸ hmem))
      · exact .inl rfl
      · rw [hrefused] at hkind
        cases hkind
    rw [hreads path hfile] at htransient
    cases htransient
  obtain ⟨-, hkept⟩ := @touches_change_nothing disk hwellFormed ["w"] (by decide) [] (fun _ h => by cases h)
    disk.watchFault session (by decide +kernel) rfl 0 ⟨1, []⟩ hrebuilt
  obtain ⟨hcatalog, hquiet⟩ := hkept touched hstraight [.handle world 1 (.touched ⟨"/w/./a.d.ts"⟩),
    .poll world world world 501, .handle world 502 (.touched ⟨"/w"⟩)] (by
      intro deed hdeed
      simp only [List.mem_cons, List.not_mem_nil, or_false] at hdeed
      rcases hdeed with rfl | rfl | rfl
      · exact .touch 1 (.inl rfl)
      · exact .poll 501
      · exact .touch 502 (.inr rfl))
  exact ⟨hmodules, haccepted, hcatalog, hwaits, (hquiet hpatient [0, 7, 0] (by decide +kernel)).2⟩

/-- A touch through a link adds a module; without a limit on failed reads a touched directory with the name of a
declaration file is tried forever; settings that are still to be loaded may move the root; and a root that was missing
when the session started is kept as it was spelled, by which a scan may take it for the standard input. -/
theorem touches_change_something :
    (let disk : Disk := ⟨[(["w"], .directory), (["w", "a.d.ts"], .file (.text "")),
      (["w", "l.d.ts"], .link "a.d.ts")], ["w"]⟩
      let world := disk.undisturbed
      let opened := ((Session.start world ⟨"/w"⟩ .default {}).run [.handle world 0 .rebuild]).value
      let later := (opened.run [.handle world 1 (.touched ⟨"/w/l.d.ts"⟩), .poll world world world 501]).value
      opened.nextDeadline = none ∧ opened.catalog.modules.map Module.file = [⟨"/w/a.d.ts"⟩]
        ∧ later.catalog.modules.map Module.file = [⟨"/w/a.d.ts"⟩, ⟨"/w/l.d.ts"⟩])
    ∧ (let disk : Disk := ⟨[(["w"], .directory), (["w", "d.d.ts"], .directory)], ["w"]⟩
      let world := disk.undisturbed
      let opened := ((Session.start world ⟨"/w"⟩ .default {}).run [.handle world 0 .rebuild]).value
      let later := (opened.run [.handle world 1 (.touched ⟨"/w/d.d.ts"⟩)]).value
      opened.nextDeadline = none ∧ ∀ lates : List Nat, (pollsDue world later lates).nextDeadline ≠ none)
    ∧ (let disk : Disk := ⟨[(["w"], .directory), (["w", "a.d.ts"], .file (.text "")), (["w", "v"], .directory),
          (["w", "tsconfig.tsruntime.json"], .file (.text "\x7b\"declaration path\": \"v\"\x7d"))], ["w"]⟩
      let world := disk.undisturbed
      let opened := ((Session.start world ⟨"/w"⟩ .default {}).run
        [.handle world 0 .settingsTouched, .handle world 1 .rebuild]).value
      let later := (opened.run [.poll world world world 500]).value
      opened.catalog.modules.map Module.file = [⟨"/w/a.d.ts"⟩] ∧ later.catalog.modules.map Module.file = [])
    ∧ (let bare : Disk := ⟨[(["w"], .directory)], ["w"]⟩
      let disk : Disk := ⟨[(["w"], .directory), (["w", "-"], .directory), (["w", "-", "a.d.ts"], .file (.text ""))],
        ["w"]⟩
      let world := disk.undisturbed
      let settings : Settings := { Settings.default with declarationPath := "-" }
      let opened := ((Session.start bare.undisturbed ⟨""⟩ settings {}).run [.handle world 0 .rebuild]).value
      let later := (opened.run [.handle world 1 (.touched ⟨"-/a.d.ts"⟩), .poll world world world 501]).value
      world.isDirectory opened.root = true ∧ opened.catalog.modules.map Module.file = []
        ∧ later.catalog.modules.map Module.file = [⟨"-/a.d.ts"⟩]) := by
  refine ⟨by decide +kernel, ?_, by decide +kernel, by decide +kernel⟩
  intro disk world opened later
  have hopened : opened.nextDeadline = none := by decide +kernel
  have hlater : Restless ⟨"/w/d.d.ts"⟩ later := by
    have hsound : opened.Sound := (Sound.start world ⟨"/w"⟩ .default {}).run _
    have hdue : later.drainDue.isSome = true := by decide +kernel
    exact ⟨hsound.run _, by decide +kernel, by decide +kernel, by decide +kernel, fun _ => hdue, by decide +kernel⟩
  have htransient : (world.read ⟨"/w/d.d.ts"⟩).isTransient = true := by decide +kernel
  exact ⟨hopened, fun lates => (hlater.pollsDue htransient lates).wakes⟩

end TypingsIndex.Session
