import TypingsIndex.Encoding
import TypingsIndex.Json.Printer

/-!
# Events

What a watch tells those who follow it. Each event has a line of its own in a stream of JSON objects:
compact, with the keys in order, and so without a line feed inside. Digests do not leave the catalog.
-/

set_option autoImplicit false

namespace TypingsIndex

/-- What a watch announces. -/
inductive Event where
  /-- The generated class is to be written elsewhere. -/
  | classMoved (path : String)
  /-- The generated interface is to be written elsewhere. -/
  | interfaceMoved (path : String)
  /-- There is a new catalog. -/
  | catalogChanged (catalog : Catalog)
  /-- New settings are in effect; the catalog is built anew if they ask for it. -/
  | settingsReloaded (rebuild : Bool)
  /-- No module could be made of a file. -/
  | moduleFailed (path message : String)
  /-- Something went wrong that is no file's fault. -/
  | fault (message : String)
  deriving Inhabited

namespace Event

/-- The name of the kind of an event. -/
def tag : Event → String
  | .classMoved _ => "class_location_changed"
  | .interfaceMoved _ => "interface_location_changed"
  | .catalogChanged _ => "structure_tree_changed"
  | .settingsReloaded _ => "config_reloaded"
  | .moduleFailed .. => "module_failed"
  | .fault _ => "error"

/-- What an event carries. -/
def payload : Event → List (String × Json)
  | .classMoved path => [("path", .string path)]
  | .interfaceMoved path => [("path", .string path)]
  | .catalogChanged catalog => [("tree", catalog.toJson)]
  | .settingsReloaded rebuild => [("rebuild", .bool rebuild)]
  | .moduleFailed path message => [("path", .string path), ("message", .string message)]
  | .fault message => [("message", .string message)]

/-- An event as JSON. -/
def toJson (event : Event) : Json :=
  .object ([("command", .string "watch"), ("event", .string event.tag)] ++ event.payload)

/-- An event as a line of a stream, without the line feed. -/
def line (event : Event) : String :=
  event.toJson.sortKeys.compactText

/-- The text that a stream holds once events have been written to it: the line of each, and a line feed. -/
def stream (events : List Event) : String :=
  String.join (events.map fun event => event.line ++ "\n")

end Event

end TypingsIndex
