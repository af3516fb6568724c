import Std.Time.Format
import TypingsIndex.CommandLine.Observation
import TypingsIndex.CommandLine.Watching

/-!
# The program

The thin layer between the command line and the world: it looks at the disk, hands what it saw to the
definitions of the library, and writes the lines that they give. While watching, it looks again and
again and passes on what has changed.
-/

set_option autoImplicit false

namespace TypingsIndex.Program

/-- Why a read has failed. -/
def faultOf : IO.Error → ReadFault
  | .noFileOrDirectory .. => .notFound
  | .permissionDenied _ code details => ⟨.permissionDenied, worded code details⟩
  | .alreadyExists _ code details => ⟨.alreadyExists, worded code details⟩
  | .inappropriateType _ code details =>
    if code = 21 then .isADirectory
    else if code = 20 then .notADirectory
    else ⟨.other, worded code details⟩
  | .interrupted _ code details => ⟨.interrupted, worded code details⟩
  | .timeExpired code details => ⟨.timedOut, worded code details⟩
  | .resourceBusy code details => ⟨.resourceBusy, worded code details⟩
  | .invalidArgument _ code details => ⟨.invalidInput, worded code details⟩
  | error => ⟨.other, toString error⟩
where
  /-- The words of the operating system with its number for the failure. -/
  worded (code : UInt32) (details : String) : String :=
    details ++ " (os error " ++ toString code ++ ")"

/-- Read a file as text. -/
def readFile (path : Path) : IO Reading := do
  match ← (IO.FS.readBinFile path.text).toBaseIO with
  | .ok bytes =>
    match String.fromUTF8? bytes with
    | some text => return .content text
    | none => return .failed .notText
  | .error error => return .failed (faultOf error)

/-- The absolute path that a path leads to. -/
def destination? (path : Path) : IO (Option Path) := do
  match ← (IO.FS.realPath path.text).toBaseIO with
  | .ok place => return some ⟨place.toString⟩
  | .error _ => return none

/-- The kind of an entry. -/
def kindOf : IO.FS.FileType → EntryKind
  | .dir => .directory
  | .file => .file
  | .symlink => .link
  | .other => .other

/-- Everything below a directory, as far as it can be looked at. -/
partial def entriesBelow (directory : Path) (hidden : Bool) : IO (List Entry) := do
  match ← (do (← IO.FS.realPath directory.text).readDir : IO (Array IO.FS.DirEntry)).toBaseIO with
  | .error _ => return []
  | .ok found =>
    let below ← found.toList.mapM fun item => do
      match ← item.path.symlinkMetadata.toBaseIO with
      | .error _ => return []
      | .ok seen =>
        let entry : Entry := {
          path := directory.join item.fileName
          kind := kindOf seen.type
          hidden := hidden || Session.isHidden item.fileName
          stamp := toString seen.modified.sec ++ ":" ++ toString seen.modified.nsec ++ ":"
            ++ toString seen.byteSize }
        if entry.kind = .directory then return entry :: (← entriesBelow entry.path entry.hidden)
        else return [entry]
    return below.flatten

/-- Everything below a directory, if it is one. -/
def contentsOf? (directory : Path) : IO (Option (List Entry)) := do
  match ← (do (← IO.FS.realPath directory.text).isDir : IO Bool).toBaseIO with
  | .ok true => return some (← entriesBelow directory false)
  | _ => return none

/-- The declaration roots that the settings in a reading may give, or the lack of settings. -/
def rootsFor (base file : Path) (reading : Reading) : List Path :=
  let settings := match reading.result with
    | .ok text => ((Settings.load text file).map Prod.fst).toOption.getD .default
    | .error _ => .default
  [settings.declarationRoot base, Settings.default.declarationRoot base]

/-- Look at everything that a step may ask for. -/
def observe (base : Path) (roots : List Path) : IO Observation := do
  let home := (← destination? base).getD base
  let bases := [base, home]
  let settings ← bases.mapM fun base => do
    return (Settings.fileIn base, ← readFile (Settings.fileIn base))
  let named := roots ++ (bases.zip settings).flatMap fun pair =>
    rootsFor pair.1 pair.2.1 pair.2.2
  let followed ← (bases ++ named).filterMapM fun path => do
    return (← destination? path).map fun place => (path, place)
  let places := bases ++ named ++ followed.map Prod.snd
  let contents ← places.filterMapM fun path => do
    return (← contentsOf? path).map fun entries => (path, entries)
  let files := (contents.flatMap Prod.snd).filter fun entry =>
    entry.kind != .directory && entry.path.isDeclarationFile
  let readings ← files.mapM fun entry => do return (entry.path, ← readFile entry.path)
  return ⟨settings ++ readings, followed, contents⟩

/-- Write lines, each at once. -/
def write (output : List Output) : IO Unit := do
  let standard ← IO.getStdout
  output.forM fun line =>
    match line with
    | .out text => do
      standard.putStrLn text
      standard.flush
    | .err text => IO.eprintln text

/-- Write an outcome and end with its code. -/
def finish (outcome : Outcome) : IO UInt32 := do
  write outcome.output
  return outcome.code.toUInt32

/-- The time of day. -/
def timeOfDay : IO String := do
  match ← Std.Time.PlainTime.now.toBaseIO with
  | .ok time => return String.ofList (time.toTime24Hour.toList.take 8)
  | .error _ => return "--:--:--"

/-- Look at the directories that are being watched. -/
def look (watching : Watching) : IO Look := do
  let settings := Settings.fileIn watching.base
  let beside := ((← contentsOf? watching.base).getD []).filter fun entry => entry.path.same settings
  let below ← match watching.watched with
    | some root => do pure ((← contentsOf? root).getD [])
    | none => pure []
  return Observation.lookOf (beside ++ below)

/-- Watch until the service stops by itself. -/
partial def keepWatching (watching : Watching) (before : Look) : IO UInt32 := do
  if !watching.service.isRunning then return ← finish (Watching.stopped true)
  IO.sleep 100
  let after ← look watching
  let changes := Look.changes before after
  let now ← IO.monoMsNow
  if changes.isEmpty && !Session.isDue watching.nextDeadline now then keepWatching watching after
  else
    let world := (← observe watching.base watching.watched.toList).surroundings
    let time ← timeOfDay
    let (told, first) := watching.tell world now time changes
    write first
    let (woken, second) := told.wake world now time
    write second
    let seen ← if woken.watched = watching.watched then pure after else look woken
    keepWatching woken seen

/-- Do what an invocation asks for. -/
def run (invocation : Invocation) : IO UInt32 := do
  let observation ← observe invocation.base []
  let world := observation.surroundings
  match invocation.action with
  | .parse => finish (showCatalog world invocation.base invocation.json)
  | .config => finish (showSettings world invocation.base invocation.json)
  | .watch timing =>
    match Watching.start world (← IO.monoMsNow) (← timeOfDay) invocation.base invocation.json timing with
    | .error failure => finish (.failed failure)
    | .ok (watching, output) =>
      write output
      if watching.service.isRunning then keepWatching watching (← look watching)
      else finish (Watching.stopped false)

end TypingsIndex.Program

/-- Run the program. -/
def main (arguments : List String) : IO UInt32 := do
  match TypingsIndex.Invocation.ofArguments arguments with
  | .ok invocation => TypingsIndex.Program.run invocation
  | .error fault => do
    IO.eprintln ("error: " ++ fault.message)
    return 2
