import Mathlib.Data.List.Basic
import TypingsIndex.Declaration.Cursor

/-!
# Where a line is cut

Each cut of a line said in terms of the line alone: the text that was taken and the text that is left make up
the line, the cut is where it should be, and there is no place before it. The depth of brackets after a text is
counted with a floor at zero; in the type of a parameter an arrow counts as nothing.
-/

set_option autoImplicit false

namespace TypingsIndex.Cursor

variable {token : String} {stop : Char} {depth : Nat} {rest taken after : List Char}

/-- A token is eaten off the front of a text. -/
theorem eat?_eq_some_iff : eat? token rest = some after ↔ rest = token.toList ++ after := by
  unfold eat?
  rw [List.isPrefixOf?_eq_some_iff_append_eq]
  exact eq_comm

/-- A token that is not there is not eaten. -/
theorem eat?_eq_none_iff : eat? token rest = none ↔ ¬ token.toList <+: rest := by
  rw [Option.eq_none_iff_forall_ne_some]
  simp only [ne_eq, eat?_eq_some_iff]
  constructor
  · rintro h ⟨after, rfl⟩
    exact h after rfl
  · rintro h after rfl
    exact h (List.prefix_append _ _)

/-- A token is expected at the front of a text. -/
theorem expect_eq_ok_iff : expect token rest = .ok after ↔ rest = token.toList ++ after := by
  rw [← eat?_eq_some_iff]
  unfold expect
  cases eat? token rest <;> simp

/-- A character is put in front of what a cut has taken. -/
theorem consTaken_eq_some_iff {c : Char} {cut : Option (List Char × List Char)} :
    consTaken c cut = some (taken, after) ↔ ∃ more, taken = c :: more ∧ cut = some (more, after) := by
  unfold consTaken
  rw [Option.map_eq_some_iff]
  constructor
  · rintro ⟨⟨more, left⟩, hcut, heq⟩
    cases heq
    exact ⟨more, rfl, hcut⟩
  · rintro ⟨more, rfl, hcut⟩
    exact ⟨(more, after), hcut, rfl⟩

/-- A text is cut before the first stop. -/
theorem until?_eq_some_iff :
    until? stop rest = some (taken, after) ↔
      rest = taken ++ after ∧ stop ∉ taken ∧ after.head? = some stop := by
  induction rest generalizing taken with
  | nil =>
    unfold until?
    constructor
    · intro h
      cases h
    · rintro ⟨heq, -, hhead⟩
      obtain ⟨rfl, rfl⟩ := List.append_eq_nil_iff.mp heq.symm
      cases hhead
  | cons c rest ih =>
    unfold until?
    -- Either the cut ends here, or the first character is taken and the rest is cut in the same way.
    split
    · next hstop =>
      subst hstop
      constructor
      · intro h
        cases h
        simp
      · rintro ⟨heq, hfree, hhead⟩
        cases taken with
        | nil => rw [heq]; rfl
        | cons d taken =>
          rw [List.cons_append] at heq
          exact absurd (List.cons.inj heq).1 fun h => hfree (h ▸ List.mem_cons_self)
    · next hother =>
      rw [consTaken_eq_some_iff]
      constructor
      · rintro ⟨more, rfl, hcut⟩
        obtain ⟨rfl, hfree, hhead⟩ := ih.mp hcut
        refine ⟨rfl, ?_, hhead⟩
        rw [List.mem_cons, not_or]
        exact ⟨Ne.symm hother, hfree⟩
      · rintro ⟨heq, hfree, hhead⟩
        cases taken with
        | nil =>
          rw [List.nil_append] at heq
          rw [← heq] at hhead
          exact absurd (Option.some.inj hhead) hother
        | cons d more =>
          rw [List.cons_append] at heq
          obtain ⟨rfl, hrest⟩ := List.cons.inj heq
          exact ⟨more, rfl, ih.mpr ⟨hrest, fun h => hfree (List.mem_cons_of_mem _ h), hhead⟩⟩

/-- Everything before the first stop is taken. -/
theorem takeUntil_eq_ok_iff :
    takeUntil stop rest = .ok (taken, after) ↔
      rest = taken ++ after ∧ stop ∉ taken ∧ after.head? = some stop := by
  rw [← until?_eq_some_iff]
  unfold takeUntil
  cases until? stop rest <;> simp

/-- The depth after a character, where `opens` and `closes` tell which characters are brackets. -/
def depthStep (opens closes : Char → Bool) (depth : Nat) (c : Char) : Nat :=
  if opens c then depth + 1 else if closes c then depth - 1 else depth

/-! ## Groups -/

/-- The depth after a character of a declaration. -/
def groupStep : Nat → Char → Nat :=
  depthStep opensGroup closesGroup

/-- The depth of groups after a text. -/
def groupDepth (depth : Nat) (text : List Char) : Nat :=
  text.foldl groupStep depth

/-- No stop stands outside all groups. -/
def GroupsHide (stop : Char) (depth : Nat) (text : List Char) : Prop :=
  ∀ front back, text = front ++ stop :: back → groupDepth depth front ≠ 0

/-- Groups hide a stop from the first character on: this one is no open stop, and the groups hide it behind. -/
theorem groupsHide_cons {c : Char} {text : List Char} :
    GroupsHide stop depth (c :: text) ↔
      (c = stop → depth ≠ 0) ∧ GroupsHide stop (groupStep depth c) text := by
  constructor
  · intro h
    refine ⟨?_, fun front back heq => ?_⟩
    · rintro rfl
      exact h [] text rfl
    · exact h (c :: front) back (by rw [heq]; rfl)
  · rintro ⟨hfirst, hrest⟩ front back heq
    cases front with
    | nil => exact hfirst (List.cons.inj heq).1
    | cons d front =>
      obtain ⟨rfl, htext⟩ := List.cons.inj heq
      exact hrest front back htext

/-- What is taken, the stop and what is left make up the text. -/
theorem terminated?_append (h : terminated? stop depth rest = some (taken, after)) : rest = taken ++ stop :: after := by
  fun_induction terminated? stop depth rest generalizing taken with
  | case1 => cases h
  | case2 depth c rest _ ih | case3 depth c rest _ _ ih | case5 depth c rest _ _ _ ih =>
    obtain ⟨more, rfl, hcut⟩ := consTaken_eq_some_iff.mp h
    rw [ih hcut]
    rfl
  | case4 depth c rest _ _ hstop =>
    cases h
    rw [hstop.2]
    rfl

/-- A stop outside all groups ends the text that is taken; any other character is taken and counted. -/
theorem terminated?_cons (plain : opensGroup stop = false ∧ closesGroup stop = false) (c : Char) :
    terminated? stop depth (c :: rest) =
      if depth = 0 ∧ c = stop then some ([], rest)
      else consTaken c (terminated? stop (groupStep depth c) rest) := by
  rw [terminated?]
  by_cases hstop : c = stop
  · rw [hstop, plain.1, plain.2]
    unfold groupStep depthStep
    rw [plain.1, plain.2]
    rfl
  · have hgo : ¬ (depth = 0 ∧ c = stop) := fun h => hstop h.2
    unfold groupStep depthStep
    rw [if_neg hgo, if_neg hgo]
    split
    · rfl
    · split <;> rfl

/-- A text is cut at the first stop outside all groups. -/
theorem terminated?_eq_some_iff (plain : opensGroup stop = false ∧ closesGroup stop = false) :
    terminated? stop depth rest = some (taken, after) ↔
      rest = taken ++ stop :: after ∧ groupDepth depth taken = 0 ∧ GroupsHide stop depth taken := by
  induction rest generalizing depth taken with
  | nil => simp [terminated?]
  | cons c rest ih =>
    rw [terminated?_cons plain]
    split
    · next hcut =>
      obtain ⟨rfl, rfl⟩ := hcut
      constructor
      · intro h
        cases h
        exact ⟨rfl, rfl, fun front back heq => by simp at heq⟩
      · rintro ⟨heq, -, hhide⟩
        cases taken with
        | nil => rw [(List.cons.inj heq).2]
        | cons d more =>
          obtain ⟨rfl, -⟩ := List.cons.inj heq
          exact absurd rfl ((groupsHide_cons.mp hhide).1 rfl)
    · next hgo =>
      rw [consTaken_eq_some_iff]
      constructor
      · rintro ⟨more, rfl, hcut⟩
        obtain ⟨rfl, hdepth, hhide⟩ := ih.mp hcut
        exact ⟨rfl, hdepth, groupsHide_cons.mpr ⟨fun heq hzero => hgo ⟨hzero, heq⟩, hhide⟩⟩
      · rintro ⟨heq, hdepth, hhide⟩
        cases taken with
        | nil => exact absurd ⟨hdepth, (List.cons.inj heq).1⟩ hgo
        | cons d more =>
          obtain ⟨rfl, hrest⟩ := List.cons.inj heq
          exact ⟨more, rfl, ih.mpr ⟨hrest, hdepth, (groupsHide_cons.mp hhide).2⟩⟩

/-- Everything before the first stop outside all groups is taken, and the stop with it. -/
theorem takeTerminated_eq_ok_iff (plain : opensGroup stop = false ∧ closesGroup stop = false) :
    takeTerminated stop rest = .ok (taken, after) ↔
      rest = taken ++ stop :: after ∧ groupDepth 0 taken = 0 ∧ GroupsHide stop 0 taken := by
  rw [← terminated?_eq_some_iff plain]
  unfold takeTerminated
  cases terminated? stop 0 rest <;> simp

/-! ## Types -/

/-- The depth after a character of the type of a parameter. -/
def typeStep : Nat → Char → Nat :=
  depthStep opensType closesType

/-- The depth of brackets after a text, arrows being passed over. -/
def typeDepth : Nat → List Char → Nat
  | depth, [] => depth
  | depth, '=' :: '>' :: text => typeDepth depth text
  | depth, c :: text => typeDepth (typeStep depth c) text

/-- No comma and no closing parenthesis stands outside all brackets. -/
def BracketsHide (depth : Nat) (text : List Char) : Prop :=
  ∀ front c back, text = front ++ c :: back → endsType c = true → typeDepth depth front ≠ 0

/-- A text starts with an arrow. -/
def IsArrow (c : Char) (text : List Char) : Prop :=
  c = '=' ∧ text.head? = some '>'

section

variable {c : Char} {text : List Char}

/-- The first character counts unless an arrow begins with it. -/
theorem typeDepth_cons (plain : ¬ IsArrow c text) :
    typeDepth depth (c :: text) = typeDepth (typeStep depth c) text := by
  rw [typeDepth]
  rintro rest rfl rfl
  exact plain ⟨rfl, rfl⟩

/-- What ends a type is no part of an arrow. -/
theorem not_endsType_arrow (ends : endsType c = true) : c ≠ '=' ∧ c ≠ '>' := by
  constructor <;> rintro rfl <;> cases ends

/-- An arrow at the front of a text stays one when more follows. -/
theorem IsArrow.append (arrow : IsArrow c text) (more : List Char) : IsArrow c (text ++ more) := by
  refine ⟨arrow.1, ?_⟩
  rw [List.head?_append, arrow.2]
  rfl

/-- Brackets hide the end of a type from the first character on, which is not the start of an arrow. -/
theorem bracketsHide_cons (plain : ¬ IsArrow c text) :
    BracketsHide depth (c :: text) ↔
      (endsType c = true → depth ≠ 0) ∧ BracketsHide (typeStep depth c) text := by
  constructor
  · intro h
    refine ⟨fun hends => h [] c text rfl hends, fun front d back heq hends => ?_⟩
    rw [heq] at plain
    rw [← typeDepth_cons fun arrow => plain (arrow.append _)]
    exact h (c :: front) d back (by rw [heq]; rfl) hends
  · rintro ⟨hfirst, hrest⟩ front d back heq hends
    cases front with
    | nil =>
      rw [List.nil_append] at heq
      exact hfirst ((List.cons.inj heq).1 ▸ hends)
    | cons e front =>
      rw [List.cons_append] at heq
      obtain ⟨hfirst, htext⟩ := List.cons.inj heq
      rw [htext, hfirst] at plain
      rw [typeDepth_cons fun arrow => plain (arrow.append _), ← hfirst]
      exact hrest front d back htext hends

/-- An arrow closes no bracket and ends no type. -/
theorem bracketsHide_arrow : BracketsHide depth ('=' :: '>' :: text) ↔ BracketsHide depth text := by
  constructor
  · intro h front d back heq hends
    exact h ('=' :: '>' :: front) d back (by rw [heq]; rfl) hends
  · intro h front d back heq hends
    obtain ⟨hequals, harrow⟩ := not_endsType_arrow hends
    match front with
    | [] => exact absurd (List.cons.inj heq).1.symm hequals
    | [e] => exact absurd (List.cons.inj (List.cons.inj heq).2).1.symm harrow
    | e :: f :: front =>
      simp only [List.cons_append, List.cons.injEq] at heq
      obtain ⟨he, hf, htext⟩ := heq
      rw [← he, ← hf]
      exact h front d back htext hends

end

/-- What opens a bracket ends no type. -/
theorem endsType_of_opensType {c : Char} (opens : opensType c = true) : endsType c = false := by
  rw [← Bool.not_eq_true]
  intro ends
  unfold endsType at ends
  rw [Bool.or_eq_true, beq_iff_eq, beq_iff_eq] at ends
  rcases ends with rfl | rfl <;> cases opens

/-- An end outside all brackets ends the type that is taken; any other character is taken and counted. -/
theorem typeSpan?_cons {c : Char} (plain : ¬ IsArrow c rest) :
    typeSpan? depth (c :: rest) =
      if depth = 0 ∧ endsType c then some ([], c :: rest)
      else consTaken c (typeSpan? (typeStep depth c) rest) := by
  rw [typeSpan?]
  · unfold typeStep depthStep
    by_cases hopens : opensType c = true
    · have hgo : ¬ (depth = 0 ∧ endsType c = true) := by
        rw [endsType_of_opensType hopens]
        exact fun h => Bool.false_ne_true h.2
      rw [if_pos hopens, if_pos hopens, if_neg hgo]
    · rw [if_neg hopens, if_neg hopens]
      split
      · rfl
      · split <;> rfl
  · rintro text rfl rfl
    exact plain ⟨rfl, rfl⟩

/-- A text is cut before an end of a type, with none outside all brackets before it. -/
structure CutsType (depth : Nat) (rest taken after : List Char) : Prop where
  append : rest = taken ++ after
  ends : ∃ c back, after = c :: back ∧ endsType c = true
  outside : typeDepth depth taken = 0
  first : BracketsHide depth taken

/-- A cut never falls before or inside an arrow. -/
theorem cutsType_arrow {text : List Char} :
    CutsType depth ('=' :: '>' :: text) taken after ↔
      ∃ more, taken = '=' :: '>' :: more ∧ CutsType depth text more after := by
  constructor
  · rintro ⟨heq, ⟨c, back, rfl, hends⟩, hdepth, hhide⟩
    obtain ⟨hequals, hgreater⟩ := not_endsType_arrow hends
    match taken with
    | [] => exact absurd (List.cons.inj heq).1.symm hequals
    | [d] => exact absurd (List.cons.inj (List.cons.inj heq).2).1.symm hgreater
    | d :: e :: more =>
      simp only [List.cons_append, List.cons.injEq] at heq
      obtain ⟨rfl, rfl, htext⟩ := heq
      exact ⟨more, rfl, htext, ⟨c, back, rfl, hends⟩, hdepth, bracketsHide_arrow.mp hhide⟩
  · rintro ⟨more, rfl, rfl, hends, hdepth, hhide⟩
    exact ⟨rfl, hends, hdepth, bracketsHide_arrow.mpr hhide⟩

/-- A cut falls before an end outside all brackets. -/
theorem cutsType_end {c : Char} {text : List Char} (hends : endsType c = true) :
    CutsType 0 (c :: text) taken after ↔ taken = [] ∧ after = c :: text := by
  constructor
  · rintro ⟨heq, -, -, hhide⟩
    match taken with
    | [] => exact ⟨rfl, heq.symm⟩
    | d :: more =>
      rw [List.cons_append] at heq
      obtain ⟨rfl, -⟩ := List.cons.inj heq
      exact absurd rfl (hhide [] c more rfl hends)
  · rintro ⟨rfl, rfl⟩
    exact ⟨rfl, ⟨c, text, rfl, hends⟩, rfl, fun front d back heq => by simp at heq⟩

/-- A cut falls behind any other character. -/
theorem cutsType_cons {c : Char} {text : List Char} (plain : ¬ IsArrow c text)
    (hgo : ¬ (depth = 0 ∧ endsType c = true)) :
    CutsType depth (c :: text) taken after ↔
      ∃ more, taken = c :: more ∧ CutsType (typeStep depth c) text more after := by
  constructor
  · rintro ⟨heq, ⟨d, back, rfl, hends⟩, hdepth, hhide⟩
    match taken with
    | [] =>
      rw [List.nil_append] at heq
      obtain ⟨rfl, -⟩ := List.cons.inj heq
      exact absurd ⟨hdepth, hends⟩ hgo
    | e :: more =>
      rw [List.cons_append] at heq
      obtain ⟨rfl, rfl⟩ := List.cons.inj heq
      have hplain : ¬ IsArrow c more := fun arrow => plain (arrow.append _)
      rw [typeDepth_cons hplain] at hdepth
      exact ⟨more, rfl, rfl, ⟨d, back, rfl, hends⟩, hdepth, ((bracketsHide_cons hplain).mp hhide).2⟩
  · rintro ⟨more, rfl, rfl, hends, hdepth, hhide⟩
    have hplain : ¬ IsArrow c more := fun arrow => plain (arrow.append _)
    rw [← typeDepth_cons hplain] at hdepth
    exact ⟨rfl, hends, hdepth,
      (bracketsHide_cons hplain).mpr ⟨fun hc hzero => hgo ⟨hzero, hc⟩, hhide⟩⟩

/-- A text is cut before the first end of a type outside all brackets. -/
theorem typeSpan?_eq_some_iff :
    typeSpan? depth rest = some (taken, after) ↔ CutsType depth rest taken after := by
  -- on the length, since an arrow takes two characters at once
  induction hlength : rest.length using Nat.strongRecOn generalizing depth rest taken with
  | ind length ih =>
    match rest with
    | [] =>
      constructor
      · intro h
        cases h
      · rintro ⟨heq, ⟨c, back, rfl, -⟩, -⟩
        simp at heq
    | c :: text =>
      rw [List.length_cons] at hlength
      by_cases harrow : IsArrow c text
      · obtain ⟨rfl, hhead⟩ := harrow
        obtain ⟨text, rfl⟩ := List.head?_eq_some_iff.mp hhead
        rw [List.length_cons] at hlength
        rw [typeSpan?, cutsType_arrow, consTaken_eq_some_iff]
        simp only [consTaken_eq_some_iff]
        constructor
        · rintro ⟨_, rfl, more, rfl, hcut⟩
          exact ⟨more, rfl, (ih text.length (by omega) rfl).mp hcut⟩
        · rintro ⟨more, rfl, hcut⟩
          exact ⟨_, rfl, more, rfl, (ih text.length (by omega) rfl).mpr hcut⟩
      · rw [typeSpan?_cons harrow]
        split
        · next hcut =>
          rw [hcut.1, cutsType_end hcut.2]
          simp [eq_comm]
        · next hgo =>
          rw [cutsType_cons harrow hgo, consTaken_eq_some_iff]
          constructor
          · rintro ⟨more, rfl, hcut⟩
            exact ⟨more, rfl, (ih text.length (by omega) rfl).mp hcut⟩
          · rintro ⟨more, rfl, hcut⟩
            exact ⟨more, rfl, (ih text.length (by omega) rfl).mpr hcut⟩

/-- Everything before the first end of a type outside all brackets is taken. -/
theorem takeTypeSpan_eq_ok_iff : takeTypeSpan rest = .ok (taken, after) ↔ CutsType 0 rest taken after := by
  rw [← typeSpan?_eq_some_iff]
  unfold takeTypeSpan
  cases typeSpan? 0 rest <;> simp

end TypingsIndex.Cursor
