import TypingsIndex.Declaration.Grammar
import TypingsIndex.Failure
import TypingsIndex.Module.Basic

/-!
# From content to module

The functions of a file are those of its declaration lines. A line that breaks the grammar is a failure
of its file alone and is reported with the file and the number of the line.
-/

set_option autoImplicit false

namespace TypingsIndex

/-- The functions that the content of a file declares. -/
def functionsOf (file : Path) (content : String) : Except Failure (List Signature) :=
  (Signature.parseText content).mapError fun fault => .grammar file fault.1 fault.2

/-- The functions of a file are those of its text, whatever its path. -/
theorem functionsOf_eq_ok {file : Path} {text : String} {functions : List Signature} :
    functionsOf file text = .ok functions ↔ Signature.parseText text = .ok functions := by
  unfold functionsOf
  cases Signature.parseText text with
  | ok found =>
    constructor
    · intro h
      rw [Except.ok.inj h]
    · intro h
      rw [Except.ok.inj h]
      rfl
  | error fault =>
    constructor <;> intro h <;> cases h

/-- Only a bad line makes a file fail, and the failure says where it is. -/
theorem functionsOf_eq_error {file : Path} {text : String} {failure : Failure} :
    functionsOf file text = .error failure ↔
      ∃ fault, Signature.parseText text = .error fault ∧ failure = .grammar file fault.1 fault.2 := by
  unfold functionsOf
  cases Signature.parseText text with
  | ok found => exact ⟨nofun, fun ⟨_, h, _⟩ => nomatch h⟩
  | error fault =>
    constructor
    · intro h
      exact ⟨fault, rfl, (Except.error.inj h).symm⟩
    · rintro ⟨_, h, rfl⟩
      cases h
      rfl

namespace Module

/-- A module with the functions of some content and the digest of that content. -/
def withContent (entry : Module) (functions : List Signature) (content : String) : Module :=
  { entry with functions := functions, digest := some (Digest.ofText content) }

end Module

end TypingsIndex
