import TypingsIndex.Settings.Basic

/-!
# Commands

What a session is told, in the order in which things happen: changes of files and directories below the declaration
root, changes of the settings file, and requests to scan everything again or to stop. Most commands come of notices of
the operating system, and these of what others do to the files of a project.
-/

set_option autoImplicit false

namespace TypingsIndex

/-! ## What a session is told -/

/-- What a session is told. -/
inductive Command where
  /-- A file or directory was created or written. -/
  | touched (path : Path)
  /-- A file or directory was deleted. -/
  | removed (path : Path)
  | renamed (source target : Path)
  | settingsTouched
  | settingsRemoved
  /-- Scan the whole declaration root. -/
  | rebuild
  | shutdown
  deriving DecidableEq, Repr, Inhabited

/-! ## Notices of the operating system

A watch on directories yields notices, each of a kind and with the paths that it is about. They become commands in
two ways: all below the declaration root concern modules, and those in the base directory concern the settings file if
it is among their paths. Which module files count is left to the session, which knows the root and the catalog. -/

namespace Notice

/-- Which end of a renaming a notice is about. -/
inductive RenameMode where
  | both
  | source
  | target
  | unknown
  deriving DecidableEq, Repr, Inhabited

/-- The kinds of notice. -/
inductive Kind where
  | access
  | created
  | removed
  /-- Content or metadata have changed. -/
  | modified
  | renamed (mode : RenameMode)
  /-- Something has happened. -/
  | unknown
  deriving DecidableEq, Repr, Inhabited

end Notice

/-- A notice of the operating system. -/
structure Notice where
  kind : Notice.Kind
  paths : List Path
  deriving DecidableEq, Repr, Inhabited

namespace Notice

/-- What a notice from below the declaration root tells a session. Halves of a renaming are told as
changes of the file, since a file that is gone shows when it is read. -/
def moduleCommands (notice : Notice) : List Command :=
  match notice.kind, notice.paths with
  | .access, _ => []
  | .removed, paths => paths.map .removed
  | .renamed .both, [source, target] => [.renamed source target]
  | _, paths => paths.map .touched

/-- Whether a path is that of a settings file. -/
def isSettingsFile (path : Path) : Bool :=
  path.fileName? == some settingsFileName

/-- What a notice from the base directory tells a session about the settings file. -/
def settingsCommands (notice : Notice) : List Command :=
  let concerned := notice.paths.any isSettingsFile
  match notice.kind, notice.paths with
  | .access, _ => []
  | .renamed .both, [source, target] =>
    if isSettingsFile target then [.settingsTouched]
    else if isSettingsFile source then [.settingsRemoved]
    else []
  | .renamed .both, _ => []
  | .renamed .source, _ => if concerned then [.settingsRemoved] else []
  | .removed, _ => if concerned then [.settingsRemoved] else []
  | _, _ => if concerned then [.settingsTouched] else []

end Notice

/-! ## Changes on a disk

What others do to the files of a project, and the notices that watches give of it. The watch on the declaration root
sees everything at or below the root, the watch on the base directory only what lies right in it. A renaming of which a
watch sees one end only is told as that end. -/

/-- What has happened on a disk. -/
inductive Change where
  /-- A file or directory was made, or a file was written. -/
  | written (path : Path)
  | deleted (path : Path)
  | moved (source target : Path)
  deriving DecidableEq, Repr, Inhabited

namespace Change

/-- The notices that a watch gives which sees certain paths. -/
def notices (sees : Path → Bool) : Change → List Notice
  | .written path => if sees path then [⟨.modified, [path]⟩] else []
  | .deleted path => if sees path then [⟨.removed, [path]⟩] else []
  | .moved source target =>
    (if sees source then [⟨.renamed .source, [source]⟩] else [])
      ++ (if sees target then [⟨.renamed .target, [target]⟩] else [])
      ++ (if sees source && sees target then [⟨.renamed .both, [source, target]⟩] else [])

/-- Whether a path lies right in a directory. -/
def isIn (directory path : Path) : Bool :=
  ((path.below? directory).map List.length) == some 1

/-- What a change tells a session with a base directory and, if it can be watched, a declaration root. -/
def commands (base : Path) (root : Option Path) (change : Change) : List Command :=
  (change.notices (isIn base)).flatMap Notice.settingsCommands
    ++ match root with
      | some root => (change.notices (Path.isAtOrBelow · root)).flatMap Notice.moduleCommands
      | none => []

end Change

/-- Every entry that was seen in some directories, with a stamp that changes when the entry does. -/
abbrev Look := List (Path × String)

namespace Look

/-- The stamp of an entry. -/
def stamp? (look : Look) (path : Path) : Option String :=
  (look.find? fun entry => entry.1.same path).map Prod.snd

/-- What has changed from one look to the next. -/
def changes (before after : Look) : List Change :=
  (before.filter fun entry => (after.stamp? entry.1).isNone).map (fun entry => .deleted entry.1)
    ++ (after.filter fun entry => before.stamp? entry.1 != some entry.2).map fun entry =>
      .written entry.1

end Look

end TypingsIndex
