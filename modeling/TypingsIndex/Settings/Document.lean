import TypingsIndex.Disk.Operations
import TypingsIndex.Json.Printer
import TypingsIndex.Settings.Codec

/-!
# The settings document

The keys of the settings file, how its text is read and written, and how it is loaded and saved. Reading fills in what
is missing, normalizes the declaration path, refuses unknown placeholders, and warns of every key that it does not know;
it never refuses a text because of such a key. Writing gives every field in the order of the table.
-/

set_option autoImplicit false

namespace TypingsIndex

/-! ## The keys -/

/-- The output files. -/
def OutputFiles.codec : Codec OutputFiles :=
  .record [
    .of "class" .text (·.classFile) fun record value => { record with classFile := value },
    .of "interface" .text (·.interfaceFile) fun record value => { record with interfaceFile := value }]
    false

/-- The ways to call a function. A value of `null` stands for what holds anyway. An array has to give
all of them. -/
def CallStyles.codec : Codec CallStyles :=
  .record [
    .of "invoke enabled" .optionalFlag (·.invoke) fun record value => { record with invoke := value },
    .of "trysync enabled" .optionalFlag (·.trySync) fun record value => { record with trySync := value },
    .of "async enabled" .optionalFlag (·.async) fun record value => { record with async := value }]
    true

/-- The rules for promises. -/
def PromiseRules.codec : Codec PromiseRules :=
  .record [
    .of "only async enabled" .flag (·.onlyAsync) fun record value => { record with onlyAsync := value },
    .of "append Async" .flag (·.appendAsync) fun record value => { record with appendAsync := value }]
    false

/-- The naming of methods that call a function. -/
def FunctionNaming.codec : Codec FunctionNaming :=
  .record [
    .of "pattern" .text (·.pattern) fun record value => { record with pattern := value },
    .of "function transform" .transform (·.functionTransform)
      fun record value => { record with functionTransform := value },
    .of "module transform" .transform (·.moduleTransform)
      fun record value => { record with moduleTransform := value },
    .of "action transform" .transform (·.actionTransform)
      fun record value => { record with actionTransform := value }]
    false

/-- The naming of methods that load a module. -/
def PreloadNaming.codec : Codec PreloadNaming :=
  .record [
    .of "pattern" .text (·.pattern) fun record value => { record with pattern := value },
    .of "module transform" .transform (·.moduleTransform)
      fun record value => { record with moduleTransform := value }]
    false

/-! ## The text of settings -/

namespace Settings
/-- The settings as a whole. -/
def codec : Codec Settings :=
  .record [
    .of "declaration path" .text (·.declarationPath)
      fun record value => { record with declarationPath := value },
    .of "file output" OutputFiles.codec (·.output) fun record value => { record with output := value },
    .of "module" CallStyles.codec (·.moduleCalls)
      fun record value => { record with moduleCalls := value },
    .of "js runtime" CallStyles.codec (·.runtimeCalls)
      fun record value => { record with runtimeCalls := value },
    .of "promise function" PromiseRules.codec (·.promises)
      fun record value => { record with promises := value },
    .of "function name pattern" FunctionNaming.codec (·.functionNaming)
      fun record value => { record with functionNaming := value },
    .of "preload name pattern" PreloadNaming.codec (·.preloadNaming)
      fun record value => { record with preloadNaming := value },
    .of "preload all modules name" .text (·.preloadAllName)
      fun record value => { record with preloadAllName := value },
    .of "using statements" .texts (·.usings) fun record value => { record with usings := value },
    .of "type map" .typeMap (·.typeMap) fun record value => { record with typeMap := value }]
    false

/-- A key of a settings text that means nothing. -/
structure Warning where
  key : String
  file : Path
  /-- The first line, numbered from one, that shows the key in quotes. -/
  line : Option Nat
  deriving DecidableEq, Repr, Inhabited

/-- The wording of a warning. -/
def Warning.message (warning : Warning) : String :=
  "unknown key '" ++ warning.key ++ "' in " ++ warning.file.text
    ++ (match warning.line with
      | some line => ":" ++ toString line
      | none => "")

/-- Whether a piece of text occurs in a text. -/
def occursIn (piece : List Char) : List Char → Bool
  | [] => piece.isEmpty
  | c :: rest => piece.isPrefixOf (c :: rest) || occursIn piece rest

/-- The first line that shows a key between quotes, numbered from one. -/
def lineOfKey? (text : List Char) (key : List Char) : Option Nat :=
  ((Text.lines text).findIdx? (occursIn ('"' :: key ++ ['"']))).map (· + 1)

/-- The warning for an unknown key. Of a key with dots in it the last part is named. -/
def warningOf (text : List Char) (file : Path) (key : String) : Warning :=
  let shown := Text.afterLast '.' key.toList
  ⟨String.ofList shown, file, lineOfKey? text shown⟩

/-- Read a settings text. The unknown keys come in the order of the text. -/
def parse (text : List Char) : Except SettingsFault (Settings × List String) := do
  let (draft, rest) := Json.Draft.read text
  let (settings, unknown) ← codec.read draft default
  if (Json.skipBlanks rest).isEmpty then
    let settings := settings.normalize
    settings.validate
    .ok (settings, unknown)
  else
    .error .malformed

/-- Read the settings text of a file. -/
def load (text : String) (file : Path) : Except Failure (Settings × List Warning) :=
  match parse text.toList with
  | .ok (settings, unknown) => .ok (settings, unknown.map (warningOf text.toList file))
  | .error fault => .error (.settings file fault)

/-- The text of settings. -/
def print (settings : Settings) : String :=
  (codec.write settings).prettyText

end Settings

/-! ## The settings file

Where settings are merely wanted, a file that is missing, unreadable or not understood gives the default settings. -/

namespace Settings

/-- Load the settings in a file. -/
def loadFile (world : Surroundings) (file : Path) : Except Failure (Settings × List Warning) :=
  match (world.read file).result with
  | .ok text => load text file
  | .error fault => .error (.unreadable file fault)

/-- The path of the settings file in a base directory. -/
def fileIn (base : Path) : Path :=
  base.join settingsFileName

/-- The settings of a base directory, or the default settings. -/
def loadOrDefault (world : Surroundings) (base : Path) : Settings :=
  match loadFile world (fileIn base) with
  | .ok (settings, _) => settings
  | .error _ => default

/-- Write settings to a file, with a line feed at the end. -/
def save (settings : Settings) (disk : Disk) (file : Path) : Except Failure Disk :=
  (disk.write file (.text (settings.print ++ "\n"))).mapError .io

end Settings

end TypingsIndex
