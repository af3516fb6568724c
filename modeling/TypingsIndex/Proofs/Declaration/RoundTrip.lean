import TypingsIndex.Proofs.Declaration.Balance
import TypingsIndex.Proofs.Declaration.Decorated
import TypingsIndex.Proofs.Declaration.Language

/-!
# Signatures read back

The written form of a signature, after the words of a declaration and before a semicolon, declares the signature and
is read as it (`parseLine_display`). The signature must be one that a line can hold: its names are identifiers, its
types are plain, and their brackets are balanced around every comma of a parameter and every semicolon of the result.
-/

set_option autoImplicit false

namespace TypingsIndex

open Text Cursor

/-! ## Decorations -/

section

variable {count : List Char → Int} {stop : Char}

/-- Decorations leave a balanced base balanced, in every count that adds up before them. -/
theorem TypeShape.balanced_written {shape : TypeShape}
    (additive : ∀ first second, second.head? ≠ some '>' → count (first ++ second) = count first + count second)
    (mark : Balanced count stop ['?']) (brackets : Balanced count stop ['[', ']'])
    (base : Balanced count stop shape.base.toList) : Balanced count stop shape.written := by
  have hfront : ∀ {more : List Char}, more.head? ≠ some '>' → ∀ front, front <+: more → front.head? ≠ some '>' := by
    rintro more hmore front ⟨back, rfl⟩ hhead
    rw [List.head?_append, hhead] at hmore
    exact hmore rfl
  have hmark : ∀ {text : List Char} (nullable : Bool), Balanced count stop text →
      Balanced count stop (text ++ if nullable then ['?'] else []) := by
    intro text nullable htext
    cases nullable with
    | false => rwa [if_neg Bool.false_ne_true, List.append_nil]
    | true => exact htext.append mark fun front h => additive _ _ (hfront (by decide) front h)
  unfold written
  cases shape.array with
  | false => simpa using hmark shape.nullable base
  | true =>
    rw [if_pos rfl, ← List.append_assoc]
    exact hmark _ ((hmark _ base).append brackets fun front h => additive _ _ (hfront (by decide) front h))

end

/-! ## Parameters -/

namespace Parameter

/-- A parameter that a line can hold. -/
structure Readable (parameter : Parameter) : Prop where
  name : isIdentifier parameter.name.toList = true
  plain : parameter.shape.Plain
  balanced : Balanced typeCount ',' parameter.shape.base.toList

/-- The conditions of a readable parameter can be checked. -/
instance (parameter : Parameter) : Decidable parameter.Readable :=
  decidable_of_iff
    (isIdentifier parameter.name.toList = true ∧ parameter.shape.Plain
      ∧ Balanced typeCount ',' parameter.shape.base.toList)
    ⟨fun ⟨name, plain, balanced⟩ => ⟨name, plain, balanced⟩, fun ⟨name, plain, balanced⟩ => ⟨name, plain, balanced⟩⟩

variable {parameter : Parameter}

/-- The written name of a parameter spells it. -/
theorem spellsName_written (identifier : isIdentifier parameter.name.toList = true) :
    SpellsName parameter.name.toList (parameter.name.toList ++ if parameter.optional then ['?'] else [])
      parameter.optional := by
  have htrimmed := trimmed_of_isIdentifier identifier
  cases parameter.optional with
  | false => exact .required (by simpa using htrimmed.trim_eq)
  | true =>
    have hmark : Trimmed ['?'] := by decide
    have hblanks : Blanks [] := by simp [Blanks]
    exact .optional hblanks (htrimmed.append hmark).trim_eq

/-- No colon stands in the written name of a parameter. -/
theorem colon_not_mem (identifier : isIdentifier parameter.name.toList = true) :
    ':' ∉ parameter.name.toList ++ if parameter.optional then ['?'] else [] := by
  rw [List.mem_append, not_or]
  constructor
  · exact fun h => by cases continuesIdentifier_of_mem identifier _ h
  · cases parameter.optional <;> decide

/-- The written form of a parameter spells it if its type can be told from what comes after it. -/
theorem spells_written (identifier : isIdentifier parameter.name.toList = true) (plain : parameter.shape.Plain)
    (outside : typeDepth 0 parameter.shape.written = 0) (hidden : BracketsHide 0 parameter.shape.written) :
    SpellsParameter parameter.written parameter := by
  unfold written
  rw [List.append_assoc]
  exact .intro (colon_not_mem identifier) identifier (spellsName_written identifier) outside hidden plain.parse_written

/-- The written form of a parameter that a line can hold spells it. -/
theorem Readable.spells_written (readable : parameter.Readable) : SpellsParameter parameter.written parameter := by
  have hbalanced : Balanced typeCount ',' parameter.shape.written :=
    TypeShape.balanced_written (fun _ _ h => typeCount_append h) (by decide) (by decide) readable.balanced
  obtain ⟨houtside, hhidden⟩ := hbalanced.brackets
  exact Parameter.spells_written readable.name readable.plain houtside hhidden

/-- The written forms of parameters spell them all if each spells its own. -/
theorem spells_intercalate {parameters : List Parameter}
    (spells : ∀ parameter ∈ parameters, SpellsParameter parameter.written parameter) :
    SpellsParameters ([',', ' '].intercalate (parameters.map written)) parameters := by
  refine ⟨parameters.map written, ?_, rfl⟩
  rw [List.forall₂_map_left_iff, List.forall₂_same]
  exact spells

end Parameter

/-! ## Signatures -/

namespace Signature

/-- A signature that a line can hold. -/
structure Readable (signature : Signature) : Prop where
  name : isIdentifier signature.name.toList = true
  parameters : ∀ parameter ∈ signature.parameters, parameter.Readable
  plain : signature.returns.Plain
  balanced : Balanced groupCount ';' signature.returns.base.toList
  unpromised : signature.promised = false → ¬ "Promise<".toList <+: signature.returns.written

/-- The conditions of a readable signature can be checked. -/
instance (signature : Signature) : Decidable signature.Readable :=
  decidable_of_iff
    (isIdentifier signature.name.toList = true ∧ (∀ parameter ∈ signature.parameters, parameter.Readable)
      ∧ signature.returns.Plain ∧ Balanced groupCount ';' signature.returns.base.toList
      ∧ (signature.promised = false → ¬ "Promise<".toList <+: signature.returns.written))
    ⟨fun ⟨name, parameters, plain, balanced, unpromised⟩ => ⟨name, parameters, plain, balanced, unpromised⟩,
      fun ⟨name, parameters, plain, balanced, unpromised⟩ => ⟨name, parameters, plain, balanced, unpromised⟩⟩

section

variable {signature : Signature}

/-- The written result of a signature spells it. -/
theorem spells_writtenResult (plain : signature.returns.Plain)
    (unpromised : signature.promised = false → ¬ "Promise<".toList <+: signature.returns.written) :
    SpellsResult signature.writtenResult signature.returns signature.promised := by
  have htrimmed := plain.trimmed_written
  unfold writtenResult
  cases hpromised : signature.promised with
  | false =>
    rw [if_neg Bool.false_ne_true]
    refine .plain ?_ ?_
    · rw [htrimmed.trim_eq]
      exact unpromised hpromised
    · rw [htrimmed.trim_eq]
      exact plain.parse_written
  | true =>
    have hopening : Trimmed "Promise<".toList := by decide
    have hclosing : Trimmed ['>'] := by decide
    rw [if_pos rfl]
    refine .promised ?_ plain.parse_written
    rw [((hopening.append htrimmed).append hclosing).trim_eq, List.append_assoc]

/-- The written form of a signature and a semicolon, part by part. -/
theorem written_append_semicolon : signature.written ++ [';'] = signature.name.toList ++ '(' ::
    ([',', ' '].intercalate (signature.parameters.map Parameter.written) ++
      ([')', ':', ' '] ++ (signature.writtenResult ++ ';' :: []))) := by
  unfold written
  simp

/-- The written form of a signature and a semicolon spell it if its parameters and its result can be told apart. -/
theorem spells_written (identifier : isIdentifier signature.name.toList = true)
    (parameters : ∀ parameter ∈ signature.parameters, SpellsParameter parameter.written parameter)
    (outside : groupDepth 0 signature.writtenResult = 0) (hidden : GroupsHide ';' 0 signature.writtenResult)
    (result : SpellsResult signature.writtenResult signature.returns signature.promised) :
    SpellsSignature (signature.written ++ [';']) signature := by
  have hparenthesis : '(' ∉ signature.name.toList := fun h => by cases continuesIdentifier_of_mem identifier _ h
  rw [written_append_semicolon]
  exact .intro hparenthesis identifier (trimmed_of_isIdentifier identifier).trim_eq
    (Parameter.spells_intercalate parameters) outside hidden result

end

namespace Readable

variable {signature : Signature}

/-- The written result of a signature is balanced. -/
theorem balanced_writtenResult (readable : signature.Readable) :
    Balanced groupCount ';' signature.writtenResult := by
  have hreturns : Balanced groupCount ';' signature.returns.written :=
    TypeShape.balanced_written (fun _ _ _ => groupCount_append _ _) (by decide) (by decide) readable.balanced
  unfold writtenResult
  split
  · have hopening : Balanced groupCount ';' "Promise<".toList := by decide
    have hclosing : Balanced groupCount ';' ['>'] := by decide
    exact (hopening.append hreturns fun _ _ => groupCount_append _ _).append hclosing
      fun _ _ => groupCount_append _ _
  · exact hreturns

/-- The written form of a signature that a line can hold spells it, with a semicolon. -/
theorem spells_written (readable : signature.Readable) : SpellsSignature (signature.written ++ [';']) signature := by
  obtain ⟨houtside, hhidden⟩ := readable.balanced_writtenResult.groups
  exact Signature.spells_written readable.name (fun parameter h => (readable.parameters parameter h).spells_written)
    houtside hhidden (spells_writtenResult readable.plain readable.unpromised)

end Readable

/-- A signature that a line can hold is read back from the line that shows it. -/
theorem parseLine_display (signature : Signature) (readable : signature.Readable) :
    parseLine (declarationWords ++ signature.display ++ ";").toList = .ok (some signature) := by
  have hline : (declarationWords ++ signature.display ++ ";").toList =
      declarationWords.toList ++ (signature.written ++ [';']) := by
    unfold display
    rw [String.toList_append, String.toList_append, String.toList_ofList, List.append_assoc]
    rfl
  have htrimmed : trimEnd (declarationWords.toList ++ (signature.written ++ [';'])) =
      declarationWords.toList ++ (signature.written ++ [';']) := by
    refine trimEnd_eq_self fun c hc => ?_
    rw [← List.append_assoc, List.getLast?_append] at hc
    obtain rfl := Option.some.inj hc
    decide
  rw [hline, parseLine_eq_some_iff, htrimmed]
  exact ⟨_, rfl, readable.spells_written⟩

/-- Brackets, arrows, decorations and a promise are all read back from one line. -/
theorem parseLine_display_load :
    parseLine (declarationWords ++ (Signature.mk "load"
        [⟨"keys", ⟨"Map<string, (key: string) => void>", false, false, false⟩, true⟩,
          ⟨"limits", ⟨"(number | string)", true, true, true⟩, false⟩]
        ⟨"\x7b id: number; name: string \x7d", false, true, false⟩ true).display ++ ";").toList =
      .ok (some ⟨"load",
        [⟨"keys", ⟨"Map<string, (key: string) => void>", false, false, false⟩, true⟩,
          ⟨"limits", ⟨"(number | string)", true, true, true⟩, false⟩],
        ⟨"\x7b id: number; name: string \x7d", false, true, false⟩, true⟩) :=
  parseLine_display _ (by decide +kernel)

end Signature

end TypingsIndex
