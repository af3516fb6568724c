import TypingsIndex.Json.Draft
import TypingsIndex.Settings.Basic

/-!
# Codecs of settings values

A codec writes a value as JSON and reads it back from a draft. Reading starts from the value that holds
if the text says nothing, and gives the keys that it did not know besides the value.

A record is written as an object. It is read from an object, whose members may come in any order, be
missing, or be unknown, but may not be repeated if they are known; or from an array, whose items are
the fields in order. The first fault in the order of the text is the one that is reported.
-/

set_option autoImplicit false

namespace TypingsIndex

/-- How values of a type are written and read. -/
structure Codec (τ : Type) where
  write : τ → Json
  /-- Read a value, given the one that holds so far. The unknown keys come in the order of the text. -/
  read : Json.Draft → τ → Except SettingsFault (τ × List String)

/-- A field of a record: its key, and how it is written from the record and read into it. -/
structure Field (σ : Type) where
  key : String
  write : σ → Json
  read : Json.Draft → σ → Except SettingsFault (σ × List String)

namespace Field

/-- The field that a codec gives for one component of a record. -/
def of {σ τ : Type} (key : String) (codec : Codec τ) (get : σ → τ) (set : σ → τ → σ) : Field σ where
  key := key
  write record := codec.write (get record)
  read draft record := do
    let (value, unknown) ← codec.read draft (get record)
    .ok (set record value, unknown)

/-- Read the members of an object into a record, some keys having been seen already. -/
def readMembers {σ : Type} (fields : List (Field σ)) (seen : List String) :
    List (Option String × Json.Draft) → σ → Except SettingsFault (σ × List String)
  | [], record => .ok (record, [])
  | (none, _) :: _, _ => .error .malformed
  | (some key, draft) :: rest, record =>
    match fields.find? fun field => field.key == key with
    | some field =>
      if seen.contains key then .error .malformed
      else do
        let (record, unknown) ← field.read draft record
        let (record, others) ← readMembers fields (key :: seen) rest record
        .ok (record, unknown ++ others)
    | none =>
      if draft.isWhole then do
        let (record, others) ← readMembers fields seen rest record
        .ok (record, key :: others)
      else .error .malformed

/-- Read the items of an array into the fields of a record, in order. Items may be missing at the end
unless the record is to be complete. -/
def readItems {σ : Type} (complete : Bool) :
    List (Field σ) → List Json.Draft → σ → Except SettingsFault (σ × List String)
  | [], [], record => .ok (record, [])
  | [], _ :: _, _ => .error .malformed
  | _ :: _, [], record => if complete then .error .malformed else .ok (record, [])
  | field :: fields, draft :: rest, record => do
    let (record, unknown) ← field.read draft record
    let (record, others) ← readItems complete fields rest record
    .ok (record, unknown ++ others)

end Field

namespace Codec

/-- A text. -/
def text : Codec String where
  write := .string
  read
    | .string (some value), _ => .ok (value, [])
    | _, _ => .error .malformed

/-- A truth value. -/
def flag : Codec Bool where
  write := .bool
  read
    | .bool value, _ => .ok (value, [])
    | _, _ => .error .malformed

/-- A truth value for which `null` may stand, which leaves it as it is. -/
def optionalFlag : Codec Bool where
  write := .bool
  read
    | .bool value, _ => .ok (value, [])
    | .null, value => .ok (value, [])
    | _, _ => .error .malformed

/-- A name transform, written as its name. -/
def transform : Codec NameTransform where
  write value := .string value.name
  read
    | .string (some name), _ =>
      match NameTransform.ofText? name with
      | some value => .ok (value, [])
      | none => .error (.unknownTransform name)
    | _, _ => .error .malformed

/-- The texts of items that are all texts. -/
def readTexts : List Json.Draft → Except SettingsFault (List String)
  | [] => .ok []
  | .string (some item) :: rest => (readTexts rest).map (item :: ·)
  | _ => .error .malformed

/-- A list of texts. -/
def texts : Codec (List String) where
  write values := .array (values.map .string)
  read
    | .array items, _ => (readTexts items).map fun values => (values, [])
    | _, _ => .error .malformed

/-- The pairs of members that are all texts. -/
def readPairs : List (Option String × Json.Draft) → Except SettingsFault (List (String × String))
  | [] => .ok []
  | (some key, .string (some value)) :: rest => (readPairs rest).map ((key, value) :: ·)
  | _ => .error .malformed

/-- A type map, written as an object. A repeated key counts the last time. -/
def typeMap : Codec TypeMap where
  write map := .object (map.entries.map fun entry => (entry.1, .string entry.2))
  read
    | .object members, _ => (readPairs members).map fun pairs => (.ofList pairs, [])
    | _, _ => .error .malformed

/-- A record with the given fields. -/
def record {σ : Type} (fields : List (Field σ)) (complete : Bool) : Codec σ where
  write value := .object (fields.map fun field => (field.key, field.write value))
  read
    | .object members, value => Field.readMembers fields [] members value
    | .array items, value => Field.readItems complete fields items value
    | _, _ => .error .malformed

end Codec

end TypingsIndex
