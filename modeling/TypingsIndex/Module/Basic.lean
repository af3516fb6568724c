import TypingsIndex.Declaration.Shape
import TypingsIndex.Path
import TypingsIndex.Text.Digest
import TypingsIndex.Text.Letter

/-!
# Modules

A module is what is known of one declaration file: where it lies, the names that follow from that, the functions that
it declares, and the digest of the content that they were read from.
-/

set_option autoImplicit false

namespace TypingsIndex

/-! ## Names of a module

A declaration file is a file whose name ends in `.d.ts` and has more than that ending. The module that it declares
takes all its names from where the file lies below the declaration root: the path relative to the root, the path under
which the module is loaded at run time, and an identifier made from the relative path. -/

/-- The ending of the names of declaration files. -/
def declarationSuffix : String := ".d.ts"

/-- Whether a path names a declaration file. -/
def Path.isDeclarationFile (path : Path) : Bool :=
  match path.fileName? with
  | some name =>
    declarationSuffix.toList.isSuffixOf name.toList
      && declarationSuffix.toList.length < name.toList.length
  | none => false

/-- The names that a module has because of where its file lies. -/
structure ModuleNames where
  /-- The path below the declaration root, with slashes between the names. -/
  relativePath : String
  /-- The path that the module is loaded from, such as `/sub/foo.js`. -/
  modulePath : String
  /-- An identifier made from the relative path, such as `sub_foo`. -/
  moduleName : String
  deriving DecidableEq, Repr, Inhabited

namespace ModuleNames

/-- A path segment as a part of an identifier: all but ASCII letters and digits become underscores,
and a digit at the front is preceded by one. -/
def identifierPart (segment : List Char) : List Char :=
  let part := segment.map fun c => if Text.isAsciiLetter c || Text.isAsciiDigit c then c else '_'
  match part with
  | c :: _ => if Text.isAsciiDigit c then '_' :: part else part
  | [] => []

/-- The names of the module whose file lies at these names below the root, if the last of them is that
of a declaration file. -/
def ofSegments? (segments : List String) : Option ModuleNames := do
  let relative := ['/'].intercalate (segments.map String.toList)
  let stem ← declarationSuffix.toList.isSuffixOf? relative
  some {
    relativePath := String.ofList relative
    modulePath := String.ofList ('/' :: stem ++ ".js".toList)
    moduleName := String.ofList (['_'].intercalate ((Text.splitAt '/' stem).map identifierPart)) }

/-- The names of the module of a file below a root. There are none if the path does not name a
declaration file, or is not below the root by plain names alone. -/
def ofFile? (file root : Path) : Option ModuleNames := do
  if file.isDeclarationFile then
    ofSegments? (← Path.names? (← file.below? root))
  else
    none

end ModuleNames

/-! ## One declaration file -/

/-- One declaration file and what it declares. -/
structure Module where
  /-- The path of the file, by which a module is known. -/
  file : Path
  names : ModuleNames
  /-- In the order of the file. -/
  functions : List Signature
  /-- The digest of the content that the functions were read from. -/
  digest : Option Digest
  deriving DecidableEq, Repr, Inhabited

namespace Module

/-- The module of a file below a root before the file has been read, if the file can be one. -/
def empty? (file root : Path) : Option Module :=
  (ModuleNames.ofFile? file root).map fun names => ⟨file, names, [], none⟩

/-- The same module in another file: path and names are new, functions and digest are kept. -/
def relocate? (entry : Module) (file root : Path) : Option Module :=
  (ModuleNames.ofFile? file root).map fun names => { entry with file := file, names := names }

end Module

end TypingsIndex
