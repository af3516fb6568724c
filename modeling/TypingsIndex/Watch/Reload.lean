import TypingsIndex.Settings.Change
import TypingsIndex.Watch.Rebuild

/-!
# Loading settings again

New settings are announced field by field, as far as anybody outside needs to know, and the catalog is
built anew if they ask for it. Settings that cannot be read or understood leave the ones in effect as
they are; a settings file that is gone puts the default ones in effect.
-/

set_option autoImplicit false

namespace TypingsIndex.Session

/-- Move to the declaration root of the settings in effect. What is pending belongs to the old one. -/
def moveRoot (world : Surroundings) (session : Session) : Turn Session := do
  let session := { session with
    root := resolveRoot world session.base session.settings
    pending := .empty
    drainDue := none }
  session.watchRoot world
  return session

/-- Put settings in effect. Nothing happens if they are in effect already. -/
def applySettings (world : Surroundings) (now : Nat) (session : Session) (settings : Settings) :
    Turn Session := do
  let change := SettingsChange.between session.settings settings
  if change.isEmpty then return session
  let session := { session with settings := settings }
  Turn.perform (.publishSettings settings)
  if change.classMoved then Turn.emit (.classMoved settings.output.classFile)
  if change.interfaceMoved then Turn.emit (.interfaceMoved settings.output.interfaceFile)
  let session ← if change.declarationPathMoved then session.moveRoot world else pure session
  Turn.emit (.settingsReloaded change.needsRebuild)
  if change.needsRebuild then
    let (session, _) ← session.rebuild world now
    return session
  else
    return session

/-- Count a failed read of the settings file, and give it up if that was one too many. -/
def postponeReload (now : Nat) (session : Session) (attempts : Nat) : Turn Session :=
  if session.timing.exhausted attempts then do
    Turn.fault (.retriesExhausted session.settingsFile attempts)
    return session
  else
    pure { session with reload := some ⟨now + session.timing.retry, attempts⟩ }

/-- Read the settings file, after so many failed reads of it. -/
def reloadSettings (world : Surroundings) (now : Nat) (session : Session) (attempts : Nat) :
    Turn Session := do
  let session := { session with reload := none }
  let file := session.settingsFile
  let reading := world.read file
  Turn.perform (.read file reading)
  match reading.result with
  | .ok text =>
    match Settings.load text file with
    | .ok (settings, _) => session.applySettings world now settings
    | .error failure => do
      Turn.fault failure
      return session
  | .error fault =>
    match fault.verdict with
    | .missing => session.applySettings world now .default
    | .undecodable => do
      Turn.fault (.settings file (.undecodable fault.reason))
      return session
    | .transient => session.postponeReload now (attempts + 1)

/-- The settings file was deleted. A load that was due is off, and the default settings apply. -/
def removeSettings (world : Surroundings) (now : Nat) (session : Session) : Turn Session :=
  ({ session with reload := none }).applySettings world now .default

end TypingsIndex.Session
