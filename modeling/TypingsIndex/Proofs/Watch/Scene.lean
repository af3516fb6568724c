import TypingsIndex.Proofs.Disk.Nodes
import TypingsIndex.Proofs.Watch.Trackable
import TypingsIndex.Watch.Step

/-!
# A session, a disk and what is on the way between them

A scene is a disk, a session that watches a directory of it, and the commands that the session has not
handled yet. Two things happen in a scene, in any order and any number of times. Others change the
disk, and each change puts its notice behind the commands in flight: that a file was written, that
something was deleted, that a directory with all its contents has come into being. And the session works:
it takes the oldest command, or does what is due at some time, or scans its root.

What the session sees while it works is the disk of that moment (`Surroundings.Shows`), except that any
reading may fail in a way that may pass.
-/

set_option autoImplicit false

namespace TypingsIndex

/-- Where a declaration root lies on a disk, and the path by which a session knows it. -/
structure Site where
  location : Disk.Location
  path : Path

namespace Site

/-- The location that names lead to from the root. -/
def locate (site : Site) (names : List String) : Disk.Location :=
  site.location ++ names

/-- The path that names lead to from the root. -/
def file (site : Site) (names : List String) : Path :=
  site.path.descend names

end Site

/-- Below the root there are files and directories only, each in a directory and under a proper name, and no
directory has the name of a declaration file. -/
structure Disk.Plain (disk : Disk) (site : Site) : Prop where
  root : disk.hasDirectory site.location = true
  parent : ∀ names name, (disk.node? (site.locate (names ++ [name]))).isSome = true →
    disk.hasDirectory (site.locate names) = true
  no_link : ∀ names target, disk.node? (site.locate names) ≠ some (.link target)
  no_declaration : ∀ names name, disk.hasDirectory (site.locate (names ++ [name])) = true →
    ¬ IsDeclarationName name
  proper : ∀ names, (disk.node? (site.locate names)).isSome = true → ∀ name ∈ names, Path.IsName name

/-- The files below the root hold no other texts than these. -/
def Disk.HoldsOnly (disk : Disk) (site : Site) (texts : String → Prop) : Prop :=
  ∀ names text, disk.node? (site.locate names) = some (.file (.text text)) → texts text

/-! ## What a session sees -/

/-- The reading failed in a way that may pass. -/
def Reading.Passing (reading : Reading) : Prop :=
  ∃ fault, reading = .failed fault ∧ fault.verdict = .transient

/-- The reading tells what lies at its path, unless it failed in a way that may pass. -/
def Reading.Tells (reading : Reading) : Option Disk.Node → Prop
  | some (.file (.text text)) => reading = .content text ∨ reading.Passing
  | some (.file .binary) =>
    (∃ fault, reading = .failed fault ∧ fault.verdict = .undecodable) ∨ reading.Passing
  | _ => (∃ fault, reading = .failed fault ∧ fault.verdict = .missing) ∨ reading.Passing

/-- The surroundings of a session are the disk below its root: they tell directories from what is none,
read files, and list exactly the files without hidden names. -/
structure Surroundings.Shows (world : Surroundings) (site : Site) (disk : Disk) : Prop where
  isDirectory : ∀ names, (∀ name ∈ names, Path.IsName name) →
    world.isDirectory (site.file names) = disk.hasDirectory (site.locate names)
  read : ∀ names, Trackable names →
    (world.read (site.file names)).Tells (disk.node? (site.locate names))
  walk : ∀ path, path ∈ (world.walk site.path).1 ↔
    ∃ names content, path = site.file names ∧ (∀ name ∈ names, Session.isHidden name = false)
      ∧ disk.node? (site.locate names) = some (.file content)

/-! ## What happens -/

/-- A disk, the commands in flight with the oldest first, and a session. -/
structure Scene where
  disk : Disk
  inFlight : List Command
  session : Session

/-- A change strictly below the root, and the notice that is given of it. Of a directory that comes into
being with everything in it, only the directory itself is told. -/
inductive Site.Change (site : Site) : Disk → Command → Disk → Prop where
  | written {disk : Disk} {names : List String} {content : Disk.Content} (below : names ≠ [])
      (free : disk.hasDirectory (site.locate names) = false) :
      Change site disk (.touched (site.file names)) (disk.put (site.locate names) (.file content))
  | deleted {disk : Disk} {names : List String} (below : names ≠ [])
      (there : (disk.node? (site.locate names)).isSome = true) :
      Change site disk (.removed (site.file names)) (disk.clear (site.locate names))
  | grown {disk after : Disk} {names : List String} (below : names ≠ [])
      (free : disk.node? (site.locate names) = none)
      (top : after.hasDirectory (site.locate names) = true)
      (elsewhere : ∀ location, ¬ site.locate names <+: location →
        after.node? location = disk.node? location) :
      Change site disk (.touched (site.file names)) after

/-- Do all work that is due, each part of it in surroundings of its own. -/
def Session.pollIn (atReload atRescan atDrain : Surroundings) (now : Nat) (session : Session) :
    Turn Session := do
  let session ← session.reloadIfDue atReload now
  let session ← session.rescanIfDue atRescan now
  session.drainIfDue atDrain now

/-- With no settings to load, what scans and drains keep, a poll keeps. -/
theorem Session.pollIn_invariant {P : Session → Prop} {atReload atRescan atDrain : Surroundings} {now : Nat}
    {session : Session} (no_reload : session.reload = none) (start : P session)
    (scanned : ∀ before, P before → P (before.rebuild atRescan now).value.1)
    (drained : ∀ before, P before → P (before.drain atDrain now).value) :
    P (session.pollIn atReload atRescan atDrain now).value := by
  have hreload : (session.reloadIfDue atReload now).value = session := by
    unfold reloadIfDue
    rw [no_reload]
    rfl
  have hrescan : P (session.rescanIfDue atRescan now).value := by
    unfold rescanIfDue
    split
    · exact scanned session start
    · exact start
  unfold pollIn
  rw [Turn.value_bind, Turn.value_bind, hreload]
  unfold drainIfDue
  split
  · exact drained _ hrescan
  · exact hrescan

/-- In surroundings that stay the same this is the work of one poll. -/
theorem Session.pollIn_self (world : Surroundings) (now : Nat) (session : Session) :
    session.pollIn world world world now = session.poll world now := rfl

namespace Scene

/-- Others change the disk. It stays plain, and its files hold texts of a given kind only. -/
inductive DiskStep (texts : String → Prop) (site : Site) : Scene → Scene → Prop where
  | change {disk after : Disk} {command : Command} {inFlight : List Command} {session : Session}
      (change : site.Change disk command after) (plain : after.Plain site)
      (holds : after.HoldsOnly site texts) :
      DiskStep texts site ⟨disk, inFlight, session⟩ ⟨after, inFlight ++ [command], session⟩

/-- The session works: it handles the oldest command, does what is due, or scans its root on request. -/
inductive SessionStep (site : Site) : Scene → Scene → Prop where
  | delivered {disk : Disk} {command : Command} {rest : List Command} {session : Session}
      {world : Surroundings} {now : Nat} (shows : world.Shows site disk) :
      SessionStep site ⟨disk, command :: rest, session⟩
        ⟨disk, rest, (session.handle world now command).value.session⟩
  | polled {disk : Disk} {inFlight : List Command} {session : Session}
      {atReload atRescan atDrain : Surroundings} {now : Nat} (reloadShows : atReload.Shows site disk)
      (rescanShows : atRescan.Shows site disk) (drainShows : atDrain.Shows site disk) :
      SessionStep site ⟨disk, inFlight, session⟩
        ⟨disk, inFlight, (session.pollIn atReload atRescan atDrain now).value⟩
  | rebuilt {disk : Disk} {inFlight : List Command} {session : Session} {world : Surroundings}
      {now : Nat} (shows : world.Shows site disk) :
      SessionStep site ⟨disk, inFlight, session⟩
        ⟨disk, inFlight, (session.handle world now .rebuild).value.session⟩

/-- A session that has not begun to work, without a limit of attempts, and a plain disk that may have changed
since. -/
inductive Waiting (texts : String → Prop) (site : Site) : Scene → Prop where
  | start {disk : Disk} {world : Surroundings} {base : Path} {settings : Settings} {timing : Timing}
      (plain : disk.Plain site) (holds : disk.HoldsOnly site texts)
      (root : Session.resolveRoot world base settings = site.path)
      (unlimited : timing.maxAttempts = none) :
      Waiting texts site ⟨disk, [], Session.start world base settings timing⟩
  | disk {scene after : Scene} (waiting : Waiting texts site scene)
      (step : DiskStep texts site scene after) : Waiting texts site after

/-- The scenes that can come about once the session has scanned its root, which is its first work. -/
inductive Reached (texts : String → Prop) (site : Site) : Scene → Prop where
  | opened {scene : Scene} {world : Surroundings} {now : Nat} (waiting : Waiting texts site scene)
      (shows : world.Shows site scene.disk) :
      Reached texts site
        { scene with session := (scene.session.handle world now .rebuild).value.session }
  | disk {scene after : Scene} (reached : Reached texts site scene)
      (step : DiskStep texts site scene after) : Reached texts site after
  | session {scene after : Scene} (reached : Reached texts site scene)
      (step : SessionStep site scene after) : Reached texts site after

end Scene

end TypingsIndex
