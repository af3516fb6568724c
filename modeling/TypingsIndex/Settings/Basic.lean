import TypingsIndex.Path
import TypingsIndex.Settings.TypeMap

/-!
# Settings

What a project says about its declarations and about the code generated from them. The catalog itself depends on the
declaration path only; all the rest but the two output files is for the generator, which has to start over when it
changes.

A declaration path is *normal* when it has no backslash and no slash at its end, and settings are *valid* when their
name patterns use no placeholders but their own. Settings that were read from a text are both.
-/

set_option autoImplicit false

namespace TypingsIndex

/-! ## Faults of a settings text

A settings text is refused either because it is not JSON of the right form, with one cause for all the ways in which
that can be so, or because a value in it has no meaning. -/

/-- Why a settings text is refused. -/
inductive SettingsFault where
  /-- The text is not JSON, or a value in it is not of the form that its place asks for. -/
  | malformed
  /-- A name transform is not one of the five. -/
  | unknownTransform (text : String)
  /-- A name pattern holds a `#` that no placeholder of its field accounts for. -/
  | unknownPlaceholder (field pattern : String) (allowed : List String)
  /-- The file does not hold text. -/
  | undecodable (reason : String)
  deriving DecidableEq, Repr, Inhabited

namespace SettingsFault

/-- The wording of a fault. -/
def message : SettingsFault → String
  | .malformed => "<json error>"
  | .unknownTransform text =>
    "unknown name transform '" ++ text
      ++ "' (expected None, FirstUpperCase, FirstLowerCase, UpperCase or LowerCase)"
  | .unknownPlaceholder field pattern allowed =>
    field ++ " '" ++ pattern ++ "' uses an unknown placeholder; allowed: " ++ ", ".intercalate allowed
  | .undecodable reason => reason

end SettingsFault

/-! ## Name patterns

A name pattern is text with placeholders such as `#module#`. Every `#` belongs to a placeholder that its field knows:
read from the left, the text between placeholders holds no `#`. -/

namespace NamePattern

/-- The placeholders of the names of methods that call a function. -/
def functionPlaceholders : List String := ["#function#", "#module#", "#action#"]

/-- The placeholders of the names of methods that load a module. -/
def preloadPlaceholders : List String := ["#module#"]

/-- Whether every `#` after the first `skip` characters begins a placeholder or lies in one. -/
def scan (placeholders : List String) : Nat → List Char → Bool
  | _, [] => true
  | skip + 1, _ :: rest => scan placeholders skip rest
  | 0, c :: rest =>
    if c = '#' then
      match placeholders.find? fun placeholder => placeholder.toList.isPrefixOf (c :: rest) with
      | some placeholder => scan placeholders (placeholder.toList.length - 1) rest
      | none => false
    else scan placeholders 0 rest

/-- Whether a pattern uses no placeholder but the given ones. -/
def accepts (placeholders : List String) (pattern : String) : Bool :=
  scan placeholders 0 pattern.toList

/-- Refuse a pattern of a field that uses other placeholders. -/
def check (field pattern : String) (placeholders : List String) : Except SettingsFault Unit :=
  if accepts placeholders pattern then .ok ()
  else .error (.unknownPlaceholder field pattern placeholders)

end NamePattern

/-! ## Name transforms

What generated code does to the case of a name that it puts into a pattern. The five transforms are written by their
names; reading ignores case and blanks, so `first upper case` is one of them. -/

/-- What is done to the case of a name. -/
inductive NameTransform where
  | none
  | firstUpperCase
  | firstLowerCase
  | upperCase
  | lowerCase
  deriving DecidableEq, Repr, Inhabited

namespace NameTransform

/-- The name of a transform. -/
def name : NameTransform → String
  | .none => "None"
  | .firstUpperCase => "FirstUpperCase"
  | .firstLowerCase => "FirstLowerCase"
  | .upperCase => "UpperCase"
  | .lowerCase => "LowerCase"

/-- A text without its blanks and with its ASCII letters in lower case. -/
def key (text : String) : String :=
  String.ofList ((text.toList.filter fun c => !Text.isBlank c).map Char.toLower)

/-- The transform that a text names. -/
def ofText? (text : String) : Option NameTransform :=
  match key text with
  | "none" => some .none
  | "firstuppercase" => some .firstUpperCase
  | "firstlowercase" => some .firstLowerCase
  | "uppercase" => some .upperCase
  | "lowercase" => some .lowerCase
  | _ => Option.none

end NameTransform

/-! ## The settings of a project -/

/-- The name of the settings file in a project's base directory. -/
def settingsFileName : String := "tsconfig.tsruntime.json"

/-- Where generated code is written. -/
structure OutputFiles where
  classFile : String := "TSRuntime/TSRuntime.cs"
  interfaceFile : String := "TSRuntime/ITSRuntime.cs"
  deriving DecidableEq, Repr, Inhabited

/-- Which of the three ways to call a function are generated. -/
structure CallStyles where
  invoke : Bool := false
  trySync : Bool := false
  async : Bool := false
  deriving DecidableEq, Repr, Inhabited

/-- How functions that return a promise are treated. -/
structure PromiseRules where
  onlyAsync : Bool := true
  appendAsync : Bool := false
  deriving DecidableEq, Repr, Inhabited

/-- How methods that call a function are named. -/
structure FunctionNaming where
  pattern : String := "#function#"
  functionTransform : NameTransform := .firstUpperCase
  moduleTransform : NameTransform := .none
  actionTransform : NameTransform := .none
  deriving DecidableEq, Repr, Inhabited

/-- How methods that load a module are named. -/
structure PreloadNaming where
  pattern : String := "Preload#module#"
  moduleTransform : NameTransform := .none
  deriving DecidableEq, Repr, Inhabited

/-- The settings of a project. A field that is not given has the value it has here. -/
structure Settings where
  /-- The directory of the declaration files, relative to the base directory. -/
  declarationPath : String := ""
  output : OutputFiles := {}
  /-- The ways to call a function of a module. -/
  moduleCalls : CallStyles := { trySync := true }
  /-- The ways to call a function by name at run time. -/
  runtimeCalls : CallStyles := {}
  promises : PromiseRules := {}
  functionNaming : FunctionNaming := {}
  preloadNaming : PreloadNaming := {}
  preloadAllName : String := "PreloadAllModules"
  usings : List String := ["Microsoft.AspNetCore.Components"]
  typeMap : TypeMap := .ofList [("number", "double"), ("boolean", "bool"), ("bigint", "long"),
    ("HTMLElement", "ElementReference")]
  deriving DecidableEq, Repr

namespace Settings

/-- The settings of a project that gives none. -/
def default : Settings :=
  {}

/-- Settings that are not given are the default ones. -/
instance : Inhabited Settings :=
  ⟨default⟩

/-- A declaration path with slashes for backslashes and without slashes at its end. -/
def normalPath (path : String) : String :=
  let slashed := path.toList.map fun c => if c = '\\' then '/' else c
  String.ofList (slashed.reverse.dropWhile (· == '/')).reverse

/-- The same settings with a normal declaration path. -/
def normalize (settings : Settings) : Settings :=
  { settings with declarationPath := normalPath settings.declarationPath }

/-- Refuse settings whose patterns use unknown placeholders. The pattern for functions is looked at
first. -/
def validate (settings : Settings) : Except SettingsFault Unit := do
  NamePattern.check "function name pattern" settings.functionNaming.pattern
    NamePattern.functionPlaceholders
  NamePattern.check "preload name pattern" settings.preloadNaming.pattern
    NamePattern.preloadPlaceholders

/-- The directory of the declaration files of a project in a base directory. -/
def declarationRoot (settings : Settings) (base : Path) : Path :=
  if settings.declarationPath.isEmpty then base else base.join settings.declarationPath

end Settings

end TypingsIndex
