import TypingsIndex.CommandLine.Arguments
import TypingsIndex.CommandLine.Console
import TypingsIndex.Scan
import TypingsIndex.Settings.Document

/-!
# Single actions

What the program writes, and the code it ends with, when it shows the catalog of a directory or the
settings in effect. The settings file is read as leniently as it can be for the catalog and as strictly
as it can be for the settings themselves.
-/

set_option autoImplicit false

namespace TypingsIndex

/-- What the program comes to. -/
structure Outcome where
  output : List Output
  code : Nat
  deriving DecidableEq, Repr, Inhabited

namespace Outcome

/-- The program ends with a failure. -/
def failed (failure : Failure) : Outcome :=
  ⟨failure.lastWords, 1⟩

end Outcome

/-- A module and its functions, for people. -/
def Module.listing (entry : Module) : List Output :=
  [.out "", .out (entry.names.moduleName ++ " (" ++ entry.names.relativePath ++ ")")]
    ++ entry.functions.map fun signature => .out ("  " ++ signature.display)

/-- A catalog below a root, for people. -/
def Catalog.listing (catalog : Catalog) (root : Path) : List Output :=
  [.out ("Declaration root: " ++ root.text)] ++ catalog.modules.flatMap Module.listing
    ++ [.out "", .out catalog.summary]

/-- What a scan gives, and what went wrong in it. -/
def ScanReport.outcome (report : ScanReport) (root : Path) (json : Bool) : Outcome :=
  let shown :=
    if json then [.out report.catalog.toJson.prettyText] else report.catalog.listing root
  let failures := report.failures.map fun failure => .err ("✗ " ++ failure.message)
  if report.isClean then ⟨shown ++ failures, 0⟩
  else
    let count := toString report.failures.length
    ⟨shown ++ failures ++ [.err ("Error: " ++ count ++ " file(s) failed to parse")], 1⟩

/-- Show the catalog of the declaration root of a base directory. -/
def showCatalog (world : Surroundings) (base : Path) (json : Bool) : Outcome :=
  let root := (Settings.loadOrDefault world base).declarationRoot base
  match Scan.directory world root .empty with
  | .ok report => report.outcome root json
  | .error failure => .failed failure

/-- Settings with a comment on where they come from and with what was odd about them. -/
def Settings.outcome (settings : Settings) (warnings : List Settings.Warning) (comment : String)
    (json : Bool) : Outcome :=
  let comments := if json then [] else [.out ("# " ++ comment)]
  ⟨comments ++ [.out settings.print]
    ++ warnings.map fun warning => .err ("warning: " ++ warning.message), 0⟩

/-- Show the settings in effect in a base directory. -/
def showSettings (world : Surroundings) (base : Path) (json : Bool) : Outcome :=
  let file := Settings.fileIn base
  match Settings.loadFile world file with
  | .ok (settings, warnings) => settings.outcome warnings file.text json
  | .error (.unreadable _ ⟨.notFound, _⟩) =>
    Settings.default.outcome [] (file.text ++ " not found; defaults") json
  | .error failure => .failed failure

end TypingsIndex
