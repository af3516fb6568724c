import TypingsIndex.Proofs.Json.Denoted
import TypingsIndex.Proofs.Json.Members
import TypingsIndex.Proofs.Text.Pieces
import TypingsIndex.Watch.Event

/-!
# Events that are read back

A stream of events splits at its line feeds into one line for each event, in order, and each line is a JSON object that
says what kind of event it is and gives back all that the event carries. Digests and the table of positions stay behind;
what a line cannot tell is nothing but those (`withoutDigests`). So two streams with the same text are of the same
events, as far as events are told at all.

That a line is one line is a matter of the compact layout, which writes no control character. That nothing gets lost on
the way is shown for one kind of value after the other, from parameters to events: each has a reader that looks up what
its writer has put down, in whatever order the members are.
-/

set_option autoImplicit false

namespace TypingsIndex

open Json (Denotes)

/-! ## Without digests -/

/-- The same module, of unknown content. -/
def Module.withoutDigest (entry : Module) : Module :=
  { entry with digest := none }

namespace Catalog

/-- Modules in order, with the table that belongs to them. -/
def listed (modules : List Module) : Catalog :=
  ⟨modules, positionsOf modules⟩

/-- The modules of a catalog, of unknown content. -/
def withoutDigests (catalog : Catalog) : Catalog :=
  listed (catalog.modules.map Module.withoutDigest)

end Catalog

/-- What an event tells. -/
def Event.withoutDigests : Event → Event
  | .catalogChanged catalog => .catalogChanged catalog.withoutDigests
  | event => event

/-! ## Readers -/

/-- Read a parameter. -/
def Parameter.ofJson? (value : Json) : Option Parameter := do
  return {
    name := ← (← value.member? "name").text?
    shape := {
      base := ← (← value.member? "type").text?
      nullable := ← (← value.member? "nullable").flag?
      array := ← (← value.member? "array").flag?
      arrayNullable := ← (← value.member? "array_nullable").flag? }
    optional := ← (← value.member? "optional").flag? }

/-- The shape of a declared result, which is written like a parameter with a name of its own that is always there. -/
def Parameter.resultShape? (result : Parameter) : Option TypeShape :=
  if result.name = resultName ∧ result.optional = false then some result.shape else none

/-- Read a signature. -/
def Signature.ofJson? (value : Json) : Option Signature := do
  return {
    name := ← (← value.member? "name").text?
    parameters := ← (← (← value.member? "parameters").items?).mapM Parameter.ofJson?
    returns := ← (← Parameter.ofJson? (← value.member? "return_type")).resultShape?
    promised := ← (← value.member? "return_promise").flag? }

/-- Read a module. -/
def Module.ofJson? (value : Json) : Option Module := do
  return {
    file := ⟨← (← value.member? "file_path").text?⟩
    names := {
      relativePath := ← (← value.member? "relative_path").text?
      modulePath := ← (← value.member? "module_path").text?
      moduleName := ← (← value.member? "module_name").text? }
    functions := ← (← (← value.member? "functions").items?).mapM Signature.ofJson?
    digest := none }

/-- Read a catalog. -/
def Catalog.ofJson? (value : Json) : Option Catalog := do
  return .listed (← (← (← value.member? "modules").items?).mapM Module.ofJson?)

/-- Read an event of any kind. -/
def Event.ofJson? (value : Json) : Option Event := do
  match ← (← value.member? "event").text? with
  | "class_location_changed" => return .classMoved (← (← value.member? "path").text?)
  | "interface_location_changed" => return .interfaceMoved (← (← value.member? "path").text?)
  | "structure_tree_changed" => return .catalogChanged (← Catalog.ofJson? (← value.member? "tree"))
  | "config_reloaded" => return .settingsReloaded (← (← value.member? "rebuild").flag?)
  | "module_failed" =>
    return .moduleFailed (← (← value.member? "path").text?) (← (← value.member? "message").text?)
  | "error" => return .fault (← (← value.member? "message").text?)
  | _ => none

/-! ## What is written is read back -/

section

variable {α β : Type} {read : Json → Option β} {write : α → Json} {kept : α → β}

/-- Items are read back in order if each of them is. -/
theorem mapM_read_write (h : ∀ a, read (write a).sortKeys = some (kept a)) (items : List α) :
    (Json.sortItems (items.map write)).mapM read = some (items.map kept) := by
  induction items with
  | nil => rfl
  | cons item items ih =>
    rw [List.map_cons, Json.sortItems, List.mapM_cons, h, ih]
    rfl

end

/-- A shape is read back with the name and the mark that it was written with. -/
theorem Parameter.ofJson?_shape (shape : TypeShape) (name : String) (optional : Bool) :
    Parameter.ofJson? (shape.toJson name optional).sortKeys = some ⟨name, shape, optional⟩ := by
  have honce : (shape.toJson name optional).keys.Nodup := by
    change ["name", "type", "nullable", "array", "array_nullable", "optional"].Nodup
    decide
  unfold Parameter.ofJson?
  simp only [Json.member?_sortKeys honce]
  rfl

/-- A parameter is read back from its value, whatever the order of the keys. -/
theorem Parameter.ofJson?_toJson (parameter : Parameter) :
    Parameter.ofJson? parameter.toJson.sortKeys = some parameter :=
  Parameter.ofJson?_shape parameter.shape parameter.name parameter.optional

/-- A signature is read back from its value, whatever the order of the keys. -/
theorem Signature.ofJson?_toJson (signature : Signature) :
    Signature.ofJson? signature.toJson.sortKeys = some signature := by
  have honce : signature.toJson.keys.Nodup := by
    change ["name", "parameters", "return_type", "return_promise"].Nodup
    decide
  have hname : signature.toJson.member? "name" = some (.string signature.name) := rfl
  have hlist : signature.toJson.member? "parameters" = some (.array (signature.parameters.map Parameter.toJson)) :=
    rfl
  have hreturns : signature.toJson.member? "return_type" = some (signature.returns.toJson resultName false) := rfl
  have hpromised : signature.toJson.member? "return_promise" = some (.bool signature.promised) := rfl
  have hresult := Parameter.ofJson?_shape signature.returns resultName false
  have hparameters := mapM_read_write Parameter.ofJson?_toJson signature.parameters
  rw [List.map_id'] at hparameters
  unfold Signature.ofJson?
  simp only [Json.member?_sortKeys honce, hname, hlist, hreturns, hpromised, Option.map_some, Json.sortKeys, Json.text?,
    Json.items?, Json.flag?, Option.bind_eq_bind, Option.bind_some, hresult, hparameters]
  rfl

/-- A module is read back from its value up to the digest, whatever the order of the keys. -/
theorem Module.ofJson?_toJson (entry : Module) : Module.ofJson? entry.toJson.sortKeys = some entry.withoutDigest := by
  have honce : entry.toJson.keys.Nodup := by
    change ["file_path", "relative_path", "module_path", "module_name", "functions"].Nodup
    decide
  have hfunctions := mapM_read_write Signature.ofJson?_toJson entry.functions
  rw [List.map_id'] at hfunctions
  unfold Module.ofJson?
  simp only [Json.member?_sortKeys honce]
  change (do
    let functions ← (Json.sortItems (entry.functions.map Signature.toJson)).mapM Signature.ofJson?
    return ({ entry with functions := functions, digest := none } : Module)) = _
  rw [hfunctions]
  rfl

/-- A catalog is read back from its value up to the digests, whatever the order of the keys. -/
theorem Catalog.ofJson?_toJson (catalog : Catalog) :
    Catalog.ofJson? catalog.toJson.sortKeys = some catalog.withoutDigests := by
  have honce : catalog.toJson.keys.Nodup := by
    change ["modules"].Nodup
    decide
  have hmodules := mapM_read_write Module.ofJson?_toJson catalog.modules
  unfold Catalog.ofJson?
  rw [Json.member?_sortKeys honce]
  change (do
    let modules ← (Json.sortItems (catalog.modules.map Module.toJson)).mapM Module.ofJson?
    return Catalog.listed modules) = _
  rw [hmodules]
  rfl

namespace Event

/-- The keys of an event come once each. -/
theorem keys_toJson_nodup (event : Event) : event.toJson.keys.Nodup := by
  cases event with
  | classMoved => change ["command", "event", "path"].Nodup; decide
  | interfaceMoved => change ["command", "event", "path"].Nodup; decide
  | catalogChanged => change ["command", "event", "tree"].Nodup; decide
  | settingsReloaded => change ["command", "event", "rebuild"].Nodup; decide
  | moduleFailed => change ["command", "event", "path", "message"].Nodup; decide
  | fault => change ["command", "event", "message"].Nodup; decide

/-- An event is read back from its value up to digests, whatever the order of the keys. -/
theorem ofJson?_toJson (event : Event) : ofJson? event.toJson.sortKeys = some event.withoutDigests := by
  unfold ofJson?
  simp only [Json.member?_sortKeys event.keys_toJson_nodup]
  cases event with
  | catalogChanged catalog =>
    change (do return Event.catalogChanged (← Catalog.ofJson? catalog.toJson.sortKeys)) = _
    rw [Catalog.ofJson?_toJson]
    rfl
  | _ => rfl

end Event

/-! ## Lines -/

/-- The value of a shape has no numbers. -/
theorem TypeShape.toJson_plain (shape : TypeShape) (name : String) (optional : Bool) :
    Json.Plain (shape.toJson name optional) := by
  apply Json.Plain.object
  simp only [List.forall_mem_cons, List.not_mem_nil, false_imp_iff, implies_true, and_true]
  exact ⟨.string _, .string _, .bool _, .bool _, .bool _, .bool _⟩

/-- The value of a signature has no numbers. -/
theorem Signature.toJson_plain (signature : Signature) : Json.Plain signature.toJson := by
  have hparameters : ∀ item ∈ signature.parameters.map Parameter.toJson, Json.Plain item :=
    List.forall_mem_map.mpr fun parameter _ => parameter.shape.toJson_plain parameter.name parameter.optional
  apply Json.Plain.object
  simp only [List.forall_mem_cons, List.not_mem_nil, false_imp_iff, implies_true, and_true]
  exact ⟨.string _, .array hparameters, signature.returns.toJson_plain resultName false, .bool _⟩

/-- The value of a module has no numbers. -/
theorem Module.toJson_plain (entry : Module) : Json.Plain entry.toJson := by
  have hfunctions : ∀ item ∈ entry.functions.map Signature.toJson, Json.Plain item :=
    List.forall_mem_map.mpr fun signature _ => signature.toJson_plain
  apply Json.Plain.object
  simp only [List.forall_mem_cons, List.not_mem_nil, false_imp_iff, implies_true, and_true]
  exact ⟨.string _, .string _, .string _, .string _, .array hfunctions⟩

/-- The value of a catalog has no numbers. -/
theorem Catalog.toJson_plain (catalog : Catalog) : Json.Plain catalog.toJson :=
  .object (List.forall_mem_singleton.mpr (.array (List.forall_mem_map.mpr fun entry _ => entry.toJson_plain)))

namespace Event

/-- There are no numbers in what an event tells. -/
theorem payload_plain (event : Event) : ∀ member ∈ event.payload, Json.Plain member.2 := by
  cases event with
  | classMoved path => exact List.forall_mem_singleton.mpr (.string path)
  | interfaceMoved path => exact List.forall_mem_singleton.mpr (.string path)
  | catalogChanged catalog => exact List.forall_mem_singleton.mpr catalog.toJson_plain
  | settingsReloaded rebuild => exact List.forall_mem_singleton.mpr (.bool rebuild)
  | moduleFailed path message =>
    exact List.forall_mem_cons.mpr ⟨.string path, List.forall_mem_singleton.mpr (.string message)⟩
  | fault message => exact List.forall_mem_singleton.mpr (.string message)

/-- The value of an event has no numbers. -/
theorem toJson_plain (event : Event) : Json.Plain event.toJson :=
  .object (List.forall_mem_cons.mpr ⟨.string _, List.forall_mem_cons.mpr ⟨.string _, event.payload_plain⟩⟩)

/-- The line of an event is the compact text of its value, with sorted keys. -/
theorem toList_line (event : Event) : event.line.toList = Json.compact event.toJson.sortKeys :=
  String.toList_ofList

/-- The line of an event has no line feed in it. -/
theorem newline_not_mem_line (event : Event) : '\n' ∉ event.line.toList := by
  rw [toList_line]
  exact event.toJson_plain.sortKeys.visible_compact.newline_not_mem

/-- The line of an event is read as its value, with sorted keys. -/
theorem denotes_line (event : Event) : Denotes event.line.toList event.toJson.sortKeys := by
  rw [toList_line]
  exact event.toJson_plain.sortKeys.denotes_compact

/-- A stream is the line of its first event and a line feed, and then the stream of the others. -/
theorem toList_stream_cons (event : Event) (events : List Event) :
    (stream (event :: events)).toList = event.line.toList ++ '\n' :: (stream events).toList := by
  unfold stream
  rw [List.map_cons, String.join_cons, String.toList_append, String.toList_append, List.append_assoc]
  rfl

/-- A stream has one line for each event, in order. -/
theorem splitAt_stream (events : List Event) :
    Text.splitAt '\n' (stream events).toList = (events.map fun event => event.line.toList) ++ [[]] := by
  induction events with
  | nil => rfl
  | cons event events ih =>
    rw [toList_stream_cons, Text.splitAt_append_cons, Text.splitAt_of_not_mem event.newline_not_mem_line, ih]
    rfl

/-- A text is the stream of one sequence of lines only. -/
theorem lines_eq_of_stream {first second : List Event} (h : stream first = stream second) :
    first.map line = second.map line := by
  have hlines : (first.map fun event => event.line.toList) ++ [[]] =
      (second.map fun event => event.line.toList) ++ [[]] := by
    rw [← splitAt_stream, ← splitAt_stream, h]
  apply List.map_injective_iff.mpr fun _ _ => String.toList_inj.mp
  rw [List.map_map, List.map_map]
  exact List.append_cancel_right hlines

/-- Events with one line tell the same. -/
theorem withoutDigests_eq_of_line {event other : Event} (h : event.line = other.line) :
    event.withoutDigests = other.withoutDigests := by
  have hdenotes := event.denotes_line
  rw [h] at hdenotes
  have hjson := hdenotes.unique other.denotes_line
  have hread := event.ofJson?_toJson
  rw [hjson, other.ofJson?_toJson] at hread
  exact (Option.some.inj hread).symm

/-- Events with the same lines are the same up to digests. -/
theorem withoutDigests_eq_of_lines {first second : List Event} (h : first.map line = second.map line) :
    first.map withoutDigests = second.map withoutDigests := by
  induction first generalizing second with
  | nil =>
    rw [List.map_nil, eq_comm, List.map_eq_nil_iff] at h
    rw [h]
  | cons event events ih =>
    cases second with
    | nil => cases h
    | cons other others =>
      obtain ⟨hline, hlines⟩ := List.cons.inj h
      rw [List.map_cons, List.map_cons, withoutDigests_eq_of_line hline, ih hlines]

/-- An event is told by what is left of it without digests. -/
theorem toJson_withoutDigests (event : Event) : event.withoutDigests.toJson = event.toJson := by
  cases event with
  | catalogChanged catalog =>
    have hcatalog : catalog.withoutDigests.toJson = catalog.toJson := by
      change Json.object [("modules", .array ((catalog.modules.map Module.withoutDigest).map Module.toJson))] = _
      rw [List.map_map]
      rfl
    change Json.object [_, _, ("tree", catalog.withoutDigests.toJson)] = _
    rw [hcatalog]
    rfl
  | _ => rfl

/-- A stream shows no digests. -/
theorem stream_withoutDigests (events : List Event) : stream (events.map withoutDigests) = stream events := by
  unfold stream
  rw [List.map_map]
  congr 2
  funext event
  change event.withoutDigests.line ++ "\n" = event.line ++ "\n"
  unfold line
  rw [toJson_withoutDigests]

/-- A stream splits at its line feeds into one line for each event, in order. Each line denotes an object that says it
is of a watch and of what kind the event is, and gives back what the event tells. So two streams have the same text
exactly if their events are the same but for digests. -/
theorem stream_gives_back :
    (∀ events, Text.splitAt '\n' (stream events).toList = (events.map fun event => event.line.toList) ++ [[]])
      ∧ (∀ event : Event, ∃ members, Denotes event.line.toList (.object members)
        ∧ (members.map Prod.fst).Nodup
        ∧ members.lookup "command" = some (.string "watch")
        ∧ members.lookup "event" = some (.string event.tag)
        ∧ ofJson? (.object members) = some event.withoutDigests)
      ∧ ∀ first second, stream first = stream second ↔ first.map withoutDigests = second.map withoutDigests := by
  refine ⟨splitAt_stream, fun event => ?_, fun first second => ⟨fun h => ?_, fun h => ?_⟩⟩
  · have honce := event.keys_toJson_nodup
    have hsorted := (Json.keys_sortMembers _).nodup_iff.mpr honce
    refine ⟨_, event.denotes_line, hsorted, ?_, ?_, event.ofJson?_toJson⟩
    · exact Json.lookup_sortMembers honce "command"
    · exact Json.lookup_sortMembers honce "event"
  · exact withoutDigests_eq_of_lines (lines_eq_of_stream h)
  · rw [← stream_withoutDigests first, ← stream_withoutDigests second, h]

/-- A line feed in a message does not break the line. -/
example : stream [.fault "a\nb"] =
    "\x7b\"command\":\"watch\",\"event\":\"error\",\"message\":\"a\\nb\"\x7d\n" := by
  decide +kernel

end Event

end TypingsIndex
