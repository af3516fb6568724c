import TypingsIndex.Declaration.Cursor
import TypingsIndex.Declaration.Shape
import TypingsIndex.Text.Basic

/-!
# Decorated types

A type is written as a base type followed by decorations. The outermost decoration is read first: a
nullable marker after `[]` belongs to the array, one before `[]` to its elements, and without `[]` the
marker belongs to the value. A marker inside a parenthesised group counts like one after the base
type, and then the group's parentheses go with it; a group without a marker is kept as written.
-/

set_option autoImplicit false

namespace TypingsIndex.TypeShape

open Text

/-- The three spellings that make the type before them nullable. -/
def nullableMarkers : List (List Char) :=
  ["?".toList, " | null".toList, " | undefined".toList]

/-- The text before a nullable marker, if the text ends in one. -/
def unmarked? (text : List Char) : Option (List Char) :=
  nullableMarkers.findSome? fun marker => (marker.isSuffixOf? text).map trimEnd

/-- Whether the parentheses of a text close nothing that they have not opened, `depth` levels being
open before it. -/
def staysInside : Nat → List Char → Bool
  | _, [] => true
  | depth, c :: rest =>
    if c = '(' then staysInside (depth + 1) rest
    else if c = ')' then depth != 0 && staysInside (depth - 1) rest
    else staysInside depth rest

/-- The inside of a text that is one parenthesised group: the first parenthesis is closed by the last
character and by nothing before it. -/
def groupInside? (text : List Char) : Option (List Char) := do
  let opened ← ['('].isPrefixOf? text
  let inside ← [')'].isSuffixOf? opened
  if staysInside 0 inside then some (trim inside) else none

/-- A base type and whether it carries a nullable marker, at its end or at the end of the group that
it is. -/
def splitMarker (text : List Char) : List Char × Bool :=
  match unmarked? text with
  | some base => (base, true)
  | none =>
    match (groupInside? text).bind unmarked? with
    | some base => (base, true)
    | none => (text, false)

/-- The shape of a trimmed type text. The base type of the result may be empty. -/
def ofText (text : List Char) : TypeShape :=
  let marked := unmarked? text
  let outer := marked.getD text
  match ['[', ']'].isSuffixOf? outer with
  | some element =>
    let split := splitMarker (trimEnd element)
    ⟨String.ofList split.1, split.2, true, marked.isSome⟩
  | none =>
    let split := if marked.isSome then (outer, true) else splitMarker outer
    ⟨String.ofList split.1, split.2, false, false⟩

/-- Read the type in a span of text. A span without a base type is refused as a whole. -/
def parse (span : List Char) : Except GrammarFault TypeShape :=
  let shape := ofText (trim span)
  if shape.base.isEmpty then .error (.facing .type span) else .ok shape

end TypingsIndex.TypeShape
