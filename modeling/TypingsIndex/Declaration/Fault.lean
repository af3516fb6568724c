/-!
# Faults of a declaration line

A line that starts like a declaration and breaks the grammar is refused with what was looked for and
with the text that stood there instead. The cause is kept apart from its wording.
-/

set_option autoImplicit false

namespace TypingsIndex

/-- What the grammar looks for at one point of a line. -/
inductive Expectation where
  /-- A fixed piece of text. -/
  | token (text : String)
  /-- The comma or the parenthesis that ends the type of a parameter. -/
  | spanEnd
  | functionName
  | parameterName
  | type
  deriving DecidableEq, Repr, Inhabited

namespace Expectation

/-- The wording of an expectation; fixed text stands in single quotes. -/
def describe : Expectation → String
  | .token text => "'" ++ text ++ "'"
  | .spanEnd => "',' or ')'"
  | .functionName => "function name"
  | .parameterName => "parameter name"
  | .type => "type"

end Expectation

/-- A broken declaration line: what was expected, and the unread rest of the line at that point. -/
structure GrammarFault where
  expected : Expectation
  remainder : String
  deriving DecidableEq, Repr, Inhabited

namespace GrammarFault

/-- A fault in front of the text that is still unread. -/
def facing (expected : Expectation) (rest : List Char) : GrammarFault :=
  ⟨expected, String.ofList rest⟩

/-- The wording of the fault. -/
def message (fault : GrammarFault) : String :=
  "expected " ++ fault.expected.describe ++ " at '" ++ fault.remainder ++ "'"

end GrammarFault

end TypingsIndex
