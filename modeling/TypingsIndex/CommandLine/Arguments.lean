import TypingsIndex.Watch.Session

/-!
# Arguments of the command line

An invocation is one action with options before and behind its name. Options that every action has may
stand on either side, and the one behind the name wins; on one side an option stands at most once. The
value of an option is the next argument or follows an equals sign. Anything that is not understood is a
fault of usage.
-/

set_option autoImplicit false

namespace TypingsIndex

/-- What the program is to do. -/
inductive Action where
  /-- Scan once and show the catalog. -/
  | parse
  /-- Keep the catalog up to date and show what happens. -/
  | watch (timing : Timing)
  /-- Show the settings in effect. -/
  | config
  deriving DecidableEq, Repr, Inhabited

/-- An invocation of the program. -/
structure Invocation where
  /-- The directory with the settings file. -/
  base : Path
  /-- Show JSON. -/
  json : Bool
  /-- How much is to be logged. -/
  verbosity : Nat
  action : Action
  deriving DecidableEq, Repr, Inhabited

/-- Why arguments are refused. -/
inductive UsageFault where
  | unknown (argument : String)
  | missingValue (option : String)
  | badValue (option value : String)
  | repeated (option : String)
  | missingAction
  deriving DecidableEq, Repr, Inhabited

/-- The wording of a fault of usage. -/
def UsageFault.message : UsageFault → String
  | .unknown argument => "unexpected argument '" ++ argument ++ "'"
  | .missingValue option => "a value is required for '--" ++ option ++ "'"
  | .badValue option value => "invalid value '" ++ value ++ "' for '--" ++ option ++ "'"
  | .repeated option => "the argument '--" ++ option ++ "' cannot be used multiple times"
  | .missingAction => "one of the commands parse, watch and config is required"

namespace Arguments

/-- The options on one side of the name of the action. -/
structure Options where
  base : Option String := none
  json : Bool := false
  verbosity : Nat := 0
  quiescence : Option Nat := none
  maxAttempts : Option Nat := none
  deriving DecidableEq, Repr, Inhabited

/-- The options that take a value. -/
inductive ValueOption where
  | base
  | quiescence
  | maxAttempts
  deriving DecidableEq, Repr, Inhabited

/-- The option of a name. Two of them belong to the action of watching. -/
def ValueOption.ofName? (watching : Bool) : String → Option ValueOption
  | "base" => some .base
  | "quiescence-ms" => if watching then some .quiescence else none
  | "max-attempts" => if watching then some .maxAttempts else none
  | _ => none

/-- The number that decimal digits stand for. -/
def natural? (digits : List Char) : Option Nat :=
  if !digits.isEmpty && digits.all Char.isDigit then
    some (digits.foldl (fun number digit => number * 10 + (digit.toNat - '0'.toNat)) 0)
  else
    none

/-- A number of decimal digits, perhaps after a plus sign, that is below a limit. -/
def unsigned? (limit : Nat) (text : String) : Option Nat :=
  let digits := match text.toList with
    | '+' :: digits => digits
    | digits => digits
  (natural? digits).filter (· < limit)

/-- A number that may have either sign and is at least zero and below a limit: a minus sign can only
stand before a zero. -/
def signed? (limit : Nat) (text : String) : Option Nat :=
  match text.toList with
  | '-' :: digits => (natural? digits).filter (· = 0)
  | _ => unsigned? limit text

/-- Put in the value of an option that has none yet. -/
def put {α : Type} (name text : String) (present : Option α) (value : Option α) :
    Except UsageFault (Option α) :=
  if present.isSome then .error (.repeated name)
  else if value.isSome then .ok value
  else .error (.badValue name text)

/-- Set an option to the value that a text stands for. -/
def Options.set (options : Options) (option : ValueOption) (name text : String) :
    Except UsageFault Options :=
  match option with
  | .base => do
    let base ← put name text options.base (if text.isEmpty then none else some text)
    return { options with base := base }
  | .quiescence => do
    let quiescence ← put name text options.quiescence (unsigned? UInt64.size text)
    return { options with quiescence := quiescence }
  | .maxAttempts => do
    let maxAttempts ← put name text options.maxAttempts (signed? UInt32.size text)
    return { options with maxAttempts := maxAttempts }

/-- What an argument looks like. -/
inductive Form where
  /-- Two dashes alone: all that follow are words. -/
  | escape
  /-- Two dashes, a name, and perhaps an equals sign and a value. -/
  | long (name : String) (value : Option String)
  /-- A dash and letters. -/
  | short (letters : List Char)
  | word
  deriving DecidableEq, Repr, Inhabited

/-- The form of an argument. A dash alone is a word. -/
def formOf (argument : String) : Form :=
  match argument.toList with
  | ['-', '-'] => .escape
  | '-' :: '-' :: rest =>
    let name := String.ofList (rest.takeWhile (· != '='))
    match rest.dropWhile (· != '=') with
    | _ :: value => .long name (some (String.ofList value))
    | [] => .long name none
  | '-' :: letter :: letters => .short (letter :: letters)
  | _ => .word

/-- Read options up to the first word, which is left over with all that follow it. -/
def readOptions (watching : Bool) (options : Options) :
    List String → Except UsageFault (Options × List String)
  | [] => .ok (options, [])
  | argument :: rest =>
    match formOf argument with
    | .word => .ok (options, argument :: rest)
    | .escape =>
      match rest with
      | [] => .ok (options, [])
      | word :: _ => .error (.unknown word)
    | .short letters =>
      if letters.all (· == 'v') then
        readOptions watching { options with verbosity := options.verbosity + letters.length } rest
      else .error (.unknown argument)
    | .long "json" none =>
      if options.json then .error (.repeated "json")
      else readOptions watching { options with json := true } rest
    | .long "verbose" none =>
      readOptions watching { options with verbosity := options.verbosity + 1 } rest
    | .long name value =>
      match ValueOption.ofName? watching name, value, rest with
      | none, _, _ => .error (.unknown argument)
      | some option, some text, rest =>
        match options.set option name text with
        | .ok options => readOptions watching options rest
        | .error fault => .error fault
      | some _, none, [] => .error (.missingValue name)
      | some option, none, text :: rest =>
        if formOf text != .word then .error (.missingValue name)
        else
          match options.set option name text with
          | .ok options => readOptions watching options rest
          | .error fault => .error fault

/-- The invocation with options before and behind the name of its action. -/
def assemble (before behind : Options) (action : Action) : Invocation where
  base := ⟨(behind.base.or before.base).getD "."⟩
  json := before.json || behind.json
  verbosity := if behind.verbosity = 0 then before.verbosity else behind.verbosity
  action := action

/-- The action of a name with the options behind it. -/
def action? (name : String) (options : Options) : Option Action :=
  let usual : Timing := {}
  match name with
  | "parse" => some .parse
  | "watch" => some (.watch { usual with
      quiescence := options.quiescence.getD usual.quiescence
      maxAttempts := options.maxAttempts })
  | "config" => some .config
  | _ => none

end Arguments

/-- The invocation that arguments stand for. -/
def Invocation.ofArguments (arguments : List String) : Except UsageFault Invocation := do
  let (before, rest) ← Arguments.readOptions false {} arguments
  match rest with
  | [] => .error .missingAction
  | name :: rest =>
    if (Arguments.action? name {}).isNone then .error (.unknown name)
    else
      let (behind, rest) ← Arguments.readOptions (name = "watch") {} rest
      match Arguments.action? name behind, rest with
      | some action, [] => .ok (Arguments.assemble before behind action)
      | _, word :: _ => .error (.unknown word)
      | none, [] => .error .missingAction

end TypingsIndex
