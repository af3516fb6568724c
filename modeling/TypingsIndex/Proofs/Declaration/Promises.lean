import TypingsIndex.Proofs.Declaration.Language

/-!
# Results inside a promise

A result is unwrapped if it begins as a promise and ends in an angle bracket. That bracket need not be the one which
closes the promise: of two promises side by side the last bracket belongs to the second, and what is taken for the
inside closes a bracket that it has not opened (`unwraps_side_by_side`). A result with balanced angle brackets is a
group, the bracket that closes it, and something more; the inside is balanced, and is the group, exactly if there is
nothing more (`parseLine_unwraps_iff`).
-/

set_option autoImplicit false

namespace TypingsIndex

open Text

namespace Cursor

/-! ## Angle brackets -/

/-- The depth of angle brackets after a character; none if it closes one that is not open. -/
def angleStep? (depth : Nat) (c : Char) : Option Nat :=
  if c = '<' then some (depth + 1)
  else if c = '>' then (if depth = 0 then none else some (depth - 1))
  else some depth

/-- The depth of angle brackets after a text, arrows being passed over; none if one is closed that is not open. -/
def angleDepth? : Nat → List Char → Option Nat
  | depth, [] => some depth
  | depth, '=' :: '>' :: text => angleDepth? depth text
  | depth, c :: text => (angleStep? depth c).bind fun after => angleDepth? after text

/-- No angle bracket is closed before it is opened, and all are closed in the end. -/
def AngleBalanced (text : List Char) : Prop :=
  angleDepth? 0 text = some 0

/-- Whether angle brackets balance is decided by counting them. -/
instance (text : List Char) : Decidable (AngleBalanced text) :=
  inferInstanceAs (Decidable (angleDepth? 0 text = some 0))

/-- An angle bracket that is opened before a group is closed by the one behind it: the group is balanced, and does not
make an arrow of what stands behind it. -/
structure AngleGroup (group : List Char) : Prop where
  balanced : AngleBalanced group
  no_arrow : group.getLast? ≠ some '='

/-- Whether a text is one group of angle brackets is decided by counting them. -/
instance (group : List Char) : Decidable (AngleGroup group) :=
  decidable_of_iff (AngleBalanced group ∧ group.getLast? ≠ some '=')
    ⟨fun h => ⟨h.1, h.2⟩, fun h => ⟨h.balanced, h.no_arrow⟩⟩

variable {depth : Nat} {text : List Char}

/-- The first character counts unless an arrow begins with it. -/
theorem angleDepth?_cons {c : Char} (plain : ¬ IsArrow c text) :
    angleDepth? depth (c :: text) = (angleStep? depth c).bind fun after => angleDepth? after text := by
  rw [angleDepth?]
  rintro rest rfl rfl
  exact plain ⟨rfl, rfl⟩

/-- Angle brackets are counted one text after the other, unless an arrow would be cut. -/
theorem angleDepth?_append {first second : List Char} (whole : first.getLast? = some '=' → second.head? ≠ some '>') :
    angleDepth? depth (first ++ second) = (angleDepth? depth first).bind fun after => angleDepth? after second := by
  fun_induction angleDepth? depth first with
  | case1 depth => rfl
  | case2 depth text ih => exact ih fun hlast => whole (by simp [List.getLast?_cons, hlast])
  | case3 depth c text plain ih =>
    have hplain : ¬ IsArrow c (text ++ second) := by
      rintro ⟨rfl, hhead⟩
      cases text with
      | nil => exact whole rfl hhead
      | cons d text => exact plain text rfl (congrArg (· :: text) (Option.some.inj hhead))
    rw [List.cons_append, angleDepth?_cons hplain]
    cases angleStep? depth c with
    | none => rfl
    | some after => exact ih after fun hlast => whole (by simp [List.getLast?_cons, hlast])

/-- An angle bracket that is open before a text and is closed in it is closed behind a group. -/
theorem exists_angleGroup (h : angleDepth? (depth + 1) text = some 0) :
    ∃ group rest, text = group ++ '>' :: rest ∧ angleDepth? depth group = some 0 ∧ group.getLast? ≠ some '='
      ∧ AngleBalanced rest := by
  generalize hopen : depth + 1 = before at h
  fun_induction angleDepth? before text generalizing depth with
  | case1 => cases Option.some.inj h ▸ hopen
  | case2 before text ih =>
    obtain ⟨group, rest, rfl, hgroup, hlast, hrest⟩ := ih hopen h
    refine ⟨'=' :: '>' :: group, rest, rfl, hgroup, ?_, hrest⟩
    cases group with
    | nil => decide
    | cons d group => simpa [List.getLast?_cons] using hlast
  | case3 before c text plain ih =>
    subst hopen
    obtain ⟨after, hstep, hafter⟩ := Option.bind_eq_some_iff.mp h
    by_cases hclosed : c = '>' ∧ depth = 0
    · obtain ⟨rfl, rfl⟩ := hclosed
      obtain rfl : 0 = after := Option.some.inj hstep
      exact ⟨[], text, rfl, rfl, nofun, hafter⟩
    · -- one level further out the character does the same
      obtain ⟨outer, houter, rfl⟩ : ∃ outer, angleStep? depth c = some outer ∧ after = outer + 1 := by
        unfold angleStep? at hstep ⊢
        grind
      obtain ⟨group, rest, rfl, hgroup, hlast, hrest⟩ := ih _ rfl hafter
      have hplain : ¬ IsArrow c group := by
        rintro ⟨rfl, hhead⟩
        obtain ⟨more, rfl⟩ := List.head?_eq_some_iff.mp hhead
        exact plain _ rfl rfl
      refine ⟨c :: group, rest, rfl, ?_, ?_, hrest⟩
      · rw [angleDepth?_cons hplain, houter]
        exact hgroup
      · cases group with
        | nil =>
          intro hequals
          exact plain rest (Option.some.inj hequals) rfl
        | cons d group => simpa [List.getLast?_cons] using hlast

/-- A group does not reach beyond the bracket that closes it. -/
theorem AngleGroup.not_balanced {group : List Char} (closed : AngleGroup group) (rest : List Char) :
    ¬ AngleBalanced (group ++ '>' :: rest) := by
  intro balanced
  unfold AngleBalanced at balanced
  rw [angleDepth?_append fun hlast => absurd hlast closed.no_arrow, closed.balanced] at balanced
  cases balanced

/-- In a balanced text that starts with an opened bracket, that bracket is closed behind a group, and what follows is
balanced too. -/
theorem AngleBalanced.exists_group (balanced : AngleBalanced ('<' :: text)) :
    ∃ group rest, text = group ++ '>' :: rest ∧ AngleGroup group ∧ AngleBalanced rest := by
  obtain ⟨group, rest, heq, hgroup, hlast, hrest⟩ := exists_angleGroup balanced
  exact ⟨group, rest, heq, ⟨hgroup, hlast⟩, hrest⟩

end Cursor

namespace Signature

/-! ## Results -/

/-- The text of the result in a line that declares a function, without the blanks around it. -/
def resultText? (line : List Char) : Option (List Char) := do
  let body ← Cursor.eat? declarationWords (trimEnd line)
  let named ← Cursor.until? '(' body
  let inside ← Cursor.eat? "(" named.2
  let listed ← (parseParameters inside).toOption
  let cut ← Cursor.terminated? ';' 0 listed.2
  some (trim cut.1)

/-- A line that is read has a result, which spells what was read of it. -/
theorem exists_resultText {line : List Char} {signature : Signature} (read : parseLine line = .ok (some signature)) :
    ∃ span, resultText? line = some (trim span) ∧ SpellsResult span signature.returns signature.promised := by
  obtain ⟨body, hbody, hspells⟩ := (parseLine_eq_some_iff line signature).mp read
  obtain @⟨label, list, span, tail, signature, hfree, -, -, hlist, houtside, hhidden, hresult⟩ := hspells
  refine ⟨span, ?_, hresult⟩
  have hparameters : parseParameters (list ++ ([')', ':', ' '] ++ (span ++ ';' :: tail))) =
      .ok (signature.parameters, span ++ ';' :: tail) := parseParameters_eq_ok_iff.mpr ⟨list, hlist, rfl⟩
  have hnamed : Cursor.until? '(' (label ++ '(' :: (list ++ ([')', ':', ' '] ++ (span ++ ';' :: tail)))) =
      some (label, '(' :: (list ++ ([')', ':', ' '] ++ (span ++ ';' :: tail)))) :=
    Cursor.until?_eq_some_iff.mpr ⟨rfl, hfree, rfl⟩
  have hcut : Cursor.terminated? ';' 0 (span ++ ';' :: tail) = some (span, tail) :=
    (Cursor.terminated?_eq_some_iff ⟨rfl, rfl⟩).mpr ⟨rfl, houtside, hhidden⟩
  have hinside : Cursor.eat? "(" ('(' :: (list ++ ([')', ':', ' '] ++ (span ++ ';' :: tail)))) =
      some (list ++ ([')', ':', ' '] ++ (span ++ ';' :: tail))) := Cursor.eat?_eq_some_iff.mpr rfl
  unfold resultText?
  simp only [Cursor.eat?_eq_some_iff.mpr hbody, hnamed, hinside, hparameters, hcut, Except.toOption,
    Option.bind_eq_bind, Option.bind_some]

/-- The result of a line that declares a promise begins as one and ends in an angle bracket, and the type that is
read is what stands between. If the angle brackets of the result are balanced, the one that opens the promise is
closed behind a group. It is the last one that closes it, and what was read is balanced, exactly if nothing comes
after that. -/
theorem parseLine_unwraps_iff {line : List Char} {signature : Signature}
    (read : parseLine line = .ok (some signature)) (promised : signature.promised = true) :
    ∃ result inner, resultText? line = some result ∧ result = "Promise<".toList ++ (inner ++ ['>'])
      ∧ TypeShape.parse inner = .ok signature.returns
      ∧ (Cursor.AngleBalanced result →
        ∃ group rest, result = "Promise<".toList ++ (group ++ '>' :: rest) ∧ Cursor.AngleGroup group
          ∧ Cursor.AngleBalanced rest ∧ (Cursor.AngleGroup inner ↔ rest = [])
          ∧ (Cursor.AngleBalanced inner ↔ rest = [])) := by
  obtain ⟨span, hresult, hspells⟩ := exists_resultText read
  rw [promised] at hspells
  cases hspells with
  | @promised inner hwrapped type =>
    refine ⟨trim span, inner, hresult, hwrapped, type, fun balanced => ?_⟩
    rw [hwrapped] at balanced ⊢
    have hopened : Cursor.AngleBalanced ('<' :: (inner ++ ['>'])) := balanced
    obtain ⟨group, rest, heq, hgroup, hrest⟩ := hopened.exists_group
    refine ⟨group, rest, congrArg _ heq, hgroup, hrest, ?_⟩
    rcases rest.eq_nil_or_concat' with rfl | ⟨front, last, rfl⟩
    · obtain rfl : inner = group := List.append_cancel_right heq
      exact ⟨iff_of_true hgroup rfl, iff_of_true hgroup.balanced rfl⟩
    · -- what was taken for the inside goes on behind the bracket that closes the promise
      have hinner : inner = group ++ '>' :: front := by
        rw [← List.cons_append, ← List.append_assoc] at heq
        exact (List.append_inj' heq rfl).1
      have hbroken : ¬ Cursor.AngleBalanced inner := hinner ▸ hgroup.not_balanced front
      have hmore : front ++ [last] ≠ [] := List.append_ne_nil_of_right_ne_nil front (List.cons_ne_nil last [])
      exact ⟨iff_of_false (fun h => hbroken h.balanced) hmore, iff_of_false hbroken hmore⟩

/-- The promise of a map to functions that return promises is closed by the last bracket. -/
theorem parseLine_unwraps_map :
    let line := "export declare function load(): Promise<Map<string, (key: Set<string>) => Promise<void>>>;".toList
    let inner := "Map<string, (key: Set<string>) => Promise<void>>"
    let signature : Signature := ⟨"load", [], ⟨inner, false, false, false⟩, true⟩
    let result := "Promise<".toList ++ (inner.toList ++ ['>'])
    parseLine line = .ok (some signature) ∧ signature.promised = true ∧ resultText? line = some result
      ∧ Cursor.AngleBalanced result ∧ TypeShape.parse inner.toList = .ok signature.returns
      ∧ Cursor.AngleGroup inner.toList := by
  intro line inner signature result
  have hread : parseLine line = .ok (some signature) := by decide +kernel
  have hresult : resultText? line = some result := by decide +kernel
  have hbalanced : Cursor.AngleBalanced result := by decide +kernel
  obtain ⟨text, between, htext, hwrapped, htype, hgroup⟩ := parseLine_unwraps_iff hread rfl
  obtain rfl : result = text := Option.some.inj (hresult.symm.trans htext)
  obtain rfl : inner.toList = between := List.append_cancel_right (List.append_cancel_left hwrapped)
  obtain ⟨group, rest, -, -, -, hclosed, hinner⟩ := hgroup hbalanced
  exact ⟨hread, rfl, hresult, hbalanced, htype, hclosed.mpr (hinner.mp (by decide +kernel))⟩

/-- Of two promises side by side the type that is read closes the one and opens the other. -/
theorem unwraps_side_by_side :
    let line := "export declare function f(): Promise<string> | Promise<number>;".toList
    let signature : Signature := ⟨"f", [], ⟨"string> | Promise<number", false, false, false⟩, true⟩
    parseLine line = .ok (some signature)
      ∧ resultText? line = some "Promise<string> | Promise<number>".toList
      ∧ Cursor.AngleBalanced "Promise<string> | Promise<number>".toList
      ∧ ¬ Cursor.AngleBalanced signature.returns.base.toList := by
  decide +kernel

end Signature

end TypingsIndex
