import TypingsIndex.Module.Content
import TypingsIndex.Watch.Session

/-!
# Reading pending files

A drain reads every pending file once, in path order, and brings the catalog up to date. Content with
the digest that the module of the file already has is not parsed again. A file is pending no longer
unless its read failed in a way that may pass, and then only until it has failed too often. However
many modules have changed, the catalog is published once.
-/

set_option autoImplicit false

namespace TypingsIndex.Session

/-- A session in the middle of a drain, and whether the drain has changed the catalog. -/
structure Draining where
  session : Session
  changed : Bool

/-- Whether the module of a file was made from content with a digest. -/
def hasDigest (session : Session) (file : Path) (digest : Digest) : Bool :=
  (session.catalog.find? file).any fun entry => entry.digest = some digest

/-- The catalog with the functions of the content of a file: in the module of the file, or in a new one
at the end. There is none if the file cannot have a module below the root. -/
def catalogWith? (session : Session) (file : Path) (functions : List Signature) (content : String) :
    Option Catalog :=
  match session.catalog.replaceFunctions? file functions (some (Digest.ofText content)) with
  | some catalog => some catalog
  | none => (Module.empty? file session.root).map fun entry =>
      session.catalog.insert (entry.withContent functions content)

/-- Take in the content of a file. -/
def absorb (draining : Draining) (file : Path) (content : String) : Turn Draining :=
  if draining.session.hasDigest file (Digest.ofText content) then pure draining
  else
    match functionsOf file content with
    | .error failure => do
      Turn.report failure
      return draining
    | .ok functions =>
      match draining.session.catalogWith? file functions content with
      | some catalog => pure ⟨{ draining.session with catalog := catalog }, true⟩
      | none => pure draining

/-- Take note that a file is gone. -/
def forget (draining : Draining) (file : Path) : Draining :=
  match draining.session.catalog.erase? file with
  | some (_, catalog) => ⟨{ draining.session with catalog := catalog }, true⟩
  | none => draining

/-- Unmark a file. -/
def settle (draining : Draining) (file : Path) : Draining :=
  { draining with session :=
      { draining.session with pending := draining.session.pending.erase file } }

/-- Count a failed read of a file, and give the file up if that was one too many. -/
def postpone (draining : Draining) (file : Path) : Turn Draining :=
  let pending := draining.session.pending.countFailure file
  let attempts := (pending.failures? file).getD 0
  if draining.session.timing.exhausted attempts then do
    Turn.report (.retriesExhausted file attempts)
    return settle draining file
  else
    pure { draining with session := { draining.session with pending := pending } }

/-- Read one pending file. -/
def drainFile (world : Surroundings) (draining : Draining) (file : Path) : Turn Draining := do
  let reading := world.read file
  Turn.perform (.read file reading)
  match reading.result with
  | .ok content => absorb (settle draining file) file content
  | .error fault =>
    match fault.verdict with
    | .missing => return forget (settle draining file) file
    | .undecodable => do
      Turn.report (.unreadable file fault)
      return settle draining file
    | .transient => postpone draining file

/-- Read all pending files, and again later those that are still pending. -/
def drain (world : Surroundings) (now : Nat) (session : Session) : Turn Session := do
  let start : Draining := ⟨{ session with drainDue := none }, false⟩
  let draining ← session.pending.paths.foldlM (drainFile world) start
  let session ← if draining.changed then draining.session.publish else pure draining.session
  return session.scheduleRetry now

end TypingsIndex.Session
