import TypingsIndex.Declaration.Decoration
import TypingsIndex.Text.Letter

/-!
# The grammar of declaration lines

A declaration is one line of the form `export declare function name(a: A, b?: B): R;`. A line that
does not start with these three words is not a declaration and is passed over; a line that does start
so is read whole or refused, and no part of a refused line is kept. Whatever follows the terminating
semicolon is not looked at.

`Signature.parseLine` reads one line and `Signature.parseText` the lines of a file, where the first bad
line wins.
-/

set_option autoImplicit false

namespace TypingsIndex

open Text

/-- The words that every declaration line starts with. -/
def declarationWords : String := "export declare function "

namespace Parameter

/-- A trimmed parameter name without its optional marker, and whether it has one. -/
def splitOptional (text : List Char) : List Char × Bool :=
  match ['?'].isSuffixOf? text with
  | some name => (trimEnd name, true)
  | none => (text, false)

/-- Read one parameter, up to the comma or the parenthesis that follows its type. -/
def parse (rest : List Char) : Except GrammarFault (Parameter × List Char) := do
  let (label, atColon) ← Cursor.takeUntil ':' rest
  let (name, optional) := splitOptional (trim label)
  if isIdentifier name then
    let atType ← Cursor.expect ": " atColon
    let (span, atEnd) ← Cursor.takeTypeSpan atType
    let shape ← TypeShape.parse span
    .ok (⟨String.ofList name, shape, optional⟩, atEnd)
  else
    .error (.facing .parameterName atColon)

/-- A parameter that was read has used up at least its colon. -/
theorem parse_length_lt {rest after : List Char} {parameter : Parameter}
    (h : parse rest = .ok (parameter, after)) : after.length < rest.length := by
  simp only [parse, bind, Except.bind] at h
  split at h
  · simp at h
  · next cut hlabel =>
    have hlabel := congrArg List.length (Cursor.takeUntil_append hlabel)
    split at h
    · split at h
      · simp at h
      · next atType hcolon =>
        have hcolon := Cursor.expect_length_add hcolon
        split at h
        · simp at h
        · next taken hspan =>
          have hspan := congrArg List.length (Cursor.takeTypeSpan_append hspan)
          split at h
          · simp at h
          · cases h
            simp only [List.length_append] at hlabel hspan
            have : (": ".toList).length = 2 := rfl
            omega
    · simp at h

/-- Read one or more parameters separated by `, `, and the `): ` that closes the list. -/
def parseList (rest : List Char) : Except GrammarFault (List Parameter × List Char) :=
  match _h : parse rest with
  | .error fault => .error fault
  | .ok (parameter, atEnd) =>
    match _hnext : Cursor.eat? ", " atEnd with
    | some next =>
      match parseList next with
      | .error fault => .error fault
      | .ok (others, after) => .ok (parameter :: others, after)
    | none =>
      match Cursor.expect "): " atEnd with
      | .error fault => .error fault
      | .ok after => .ok ([parameter], after)
termination_by rest.length
decreasing_by
  have := parse_length_lt _h
  have := Cursor.eat?_length_add _hnext
  omega

end Parameter

namespace Signature

/-- Read the declared result up to its semicolon. A result inside `Promise<…>` is unwrapped, and the
flag says so. -/
def parseResult (rest : List Char) : Except GrammarFault (TypeShape × Bool) := do
  let (span, _) ← Cursor.takeTerminated ';' rest
  let result := trim span
  match Cursor.eat? "Promise<" result with
  | some wrapped =>
    match ['>'].isSuffixOf? wrapped with
    | some inner => return (← TypeShape.parse inner, true)
    | none => .error (.facing (.token ">") wrapped)
  | none => return (← TypeShape.parse result, false)

/-- Read the parameters after the opening parenthesis, and the `): ` that closes them. -/
def parseParameters (rest : List Char) : Except GrammarFault (List Parameter × List Char) :=
  if rest.head? = some ')' then do
    let after ← Cursor.expect "): " rest
    .ok ([], after)
  else
    Parameter.parseList rest

/-- Read what follows the opening words of a declaration. -/
def parseBody (rest : List Char) : Except GrammarFault Signature := do
  let (label, atParenthesis) ← Cursor.takeUntil '(' rest
  let name := trim label
  if isIdentifier name then
    let inside ← Cursor.expect "(" atParenthesis
    let (parameters, atResult) ← parseParameters inside
    let (returns, promised) ← parseResult atResult
    .ok ⟨String.ofList name, parameters, returns, promised⟩
  else
    .error (.facing .functionName rest)

/-- Read one line. Nothing comes of a line that is not a declaration; a declaration that breaks the
grammar is refused. Blanks at the end of the line do not count. -/
def parseLine (line : List Char) : Except GrammarFault (Option Signature) :=
  match Cursor.eat? declarationWords (trimEnd line) with
  | none => .ok none
  | some rest => (parseBody rest).map some

/-- Read lines, the first of which has the given number, in order. The first line that breaks the
grammar is reported with its number. -/
def parseLines : Nat → List (List Char) → Except (Nat × GrammarFault) (List Signature)
  | _, [] => .ok []
  | number, line :: others =>
    match parseLine line with
    | .error fault => .error (number, fault)
    | .ok found => (parseLines (number + 1) others).map (found.toList ++ ·)

/-- Read every declaration in the text of a file, in order, lines being numbered from one. -/
def parseText (content : String) : Except (Nat × GrammarFault) (List Signature) :=
  parseLines 1 (lines content.toList)

end Signature

end TypingsIndex
