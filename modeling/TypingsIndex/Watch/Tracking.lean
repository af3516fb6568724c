import TypingsIndex.Watch.Session

/-!
# Tracking files and directories

How a session takes the news that a file or directory was touched, removed or renamed. Nothing is read
here. A touched file becomes pending; a touched directory may hide any number of files, so that the
whole root is scanned later. Removals and renamings change the catalog at once.
-/

set_option autoImplicit false

namespace TypingsIndex.Session

/-- Whether a path leads to a directory at or below the declaration root. -/
def isDirectoryBelowRoot (world : Surroundings) (session : Session) (path : Path) : Bool :=
  path.isAtOrBelow session.root && world.isDirectory path

/-- A file or directory was created or written. -/
def touch (world : Surroundings) (now : Nat) (session : Session) (path : Path) : Session :=
  if session.accepts path then
    ({ session with pending := session.pending.insert path }).requestDrain now
  else if session.catalog.hasBelow path || session.isDirectoryBelowRoot world path then
    session.requestRescan now
  else
    session

/-- The catalog without the module of a path or else, if there is none, without the modules below it.
There is no such catalog if that is the same one. -/
def catalogWithout? (catalog : Catalog) (path : Path) : Option Catalog :=
  if catalog.contains path then (catalog.erase? path).map Prod.snd
  else if catalog.hasBelow path then some (catalog.eraseBelow path).2
  else none

/-- A file or directory was deleted. -/
def remove (session : Session) (path : Path) : Turn Session :=
  let session := { session with pending := session.pending.eraseBelow path }
  match catalogWithout? session.catalog path with
  | some catalog => { session with catalog := catalog }.publish
  | none => pure session

/-- The catalog in which the module of one path has moved to another, if that one is accepted and
free. -/
def catalogRenamed? (session : Session) (source target : Path) : Option Catalog :=
  if session.accepts target then session.catalog.rename? source target session.root else none

/-- Something was renamed. A known file keeps its module under the new name, and stays pending if it
was; any other file is gone at one place and new at the other. Where neither name is that of a
declaration file, the modules of a whole directory may have moved. -/
def rename (world : Surroundings) (now : Nat) (session : Session) (source target : Path) :
    Turn Session :=
  if !source.isDeclarationFile && !target.isDeclarationFile then
    if session.catalog.hasBelow source || session.isDirectoryBelowRoot world target then
      pure (({ session with pending := session.pending.eraseBelow source }).requestRescan now)
    else
      pure session
  else if session.catalog.contains source then
    match session.catalogRenamed? source target with
    | some catalog =>
      { session with catalog := catalog, pending := session.pending.rename source target }.publish
    | none => do
      let session ← session.remove source
      return session.touch world now target
  else
    pure (({ session with pending := session.pending.erase source }).touch world now target)

end TypingsIndex.Session
