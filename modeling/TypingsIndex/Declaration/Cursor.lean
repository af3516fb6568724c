import TypingsIndex.Declaration.Fault

/-!
# Cutting a line

The grammar reads a line from left to right. What is left of the line is a list of characters, and
each function here either takes a piece off its front, giving the piece and the new rest, or refuses
with a fault whose remainder is that same list, so that a refusal never consumes anything.

Two of the cuts count brackets. The depth never falls below zero: a closing bracket with no partner is
passed over. In the type of a parameter `<` and `>` count as brackets and `=>` is one unit, since the
arrow of a function type closes nothing; at the end of a declaration only `(`, `[` and `{` count.
-/

set_option autoImplicit false

namespace TypingsIndex.Cursor

/-- The rest after `token`, if the text starts with it. -/
def eat? (token : String) (rest : List Char) : Option (List Char) :=
  token.toList.isPrefixOf? rest

/-- Take `token` or refuse. -/
def expect (token : String) (rest : List Char) : Except GrammarFault (List Char) :=
  match eat? token rest with
  | some after => .ok after
  | none => .error (.facing (.token token) rest)

/-- Put a character in front of the piece that a cut has taken. -/
def consTaken (c : Char) (cut : Option (List Char × List Char)) : Option (List Char × List Char) :=
  cut.map fun taken => (c :: taken.1, taken.2)

/-- The text before the first `stop` and the text from it on. -/
def until? (stop : Char) : List Char → Option (List Char × List Char)
  | [] => none
  | c :: rest => if c = stop then some ([], c :: rest) else consTaken c (until? stop rest)

/-- Take everything before the first `stop`, which is left in place. -/
def takeUntil (stop : Char) (rest : List Char) : Except GrammarFault (List Char × List Char) :=
  match until? stop rest with
  | some cut => .ok cut
  | none => .error (.facing (.token (String.singleton stop)) rest)

/-- A bracket that opens a level in a whole declaration. -/
def opensGroup (c : Char) : Bool :=
  c == '(' || c == '[' || c == '{'

/-- A bracket that closes a level in a whole declaration. -/
def closesGroup (c : Char) : Bool :=
  c == ')' || c == ']' || c == '}'

/-- The text before the first `stop` outside all groups and the text after it. A bracket is always
counted and is never itself the stop. -/
def terminated? (stop : Char) : Nat → List Char → Option (List Char × List Char)
  | _, [] => none
  | depth, c :: rest =>
    if opensGroup c then consTaken c (terminated? stop (depth + 1) rest)
    else if closesGroup c then consTaken c (terminated? stop (depth - 1) rest)
    else if depth = 0 ∧ c = stop then some ([], rest)
    else consTaken c (terminated? stop depth rest)

/-- Take everything before the first `stop` outside all groups, and the `stop` with it. -/
def takeTerminated (stop : Char) (rest : List Char) : Except GrammarFault (List Char × List Char) :=
  match terminated? stop 0 rest with
  | some cut => .ok cut
  | none => .error (.facing (.token (String.singleton stop)) rest)

/-- A bracket that opens a level in the type of a parameter. -/
def opensType (c : Char) : Bool :=
  opensGroup c || c == '<'

/-- A bracket that closes a level in the type of a parameter. -/
def closesType (c : Char) : Bool :=
  closesGroup c || c == '>'

/-- A character that ends the type of a parameter when it stands outside all brackets. -/
def endsType (c : Char) : Bool :=
  c == ',' || c == ')'

/-- The text before the first comma or closing parenthesis outside all brackets, and the text from it
on. An arrow is passed over as one unit. -/
def typeSpan? : Nat → List Char → Option (List Char × List Char)
  | _, [] => none
  | depth, '=' :: '>' :: rest => consTaken '=' (consTaken '>' (typeSpan? depth rest))
  | depth, c :: rest =>
    if opensType c then consTaken c (typeSpan? (depth + 1) rest)
    else if depth = 0 ∧ endsType c then some ([], c :: rest)
    else if closesType c then consTaken c (typeSpan? (depth - 1) rest)
    else consTaken c (typeSpan? depth rest)

/-- Take the type of one parameter. -/
def takeTypeSpan (rest : List Char) : Except GrammarFault (List Char × List Char) :=
  match typeSpan? 0 rest with
  | some cut => .ok cut
  | none => .error (.facing .spanEnd rest)

/-- A token that is eaten and what is left of it add up to the text. -/
theorem eat?_length_add {token : String} {rest after : List Char}
    (h : eat? token rest = some after) : token.toList.length + after.length = rest.length := by
  unfold eat? at h
  generalize token.toList = front at h
  induction front generalizing rest with
  | nil =>
    cases h
    exact Nat.zero_add _
  | cons c front ih =>
    cases rest with
    | nil => cases h
    | cons d rest =>
      change (if c == d then front.isPrefixOf? rest else none) = some after at h
      split at h
      · have := ih h
        simp only [List.length_cons]
        omega
      · cases h

/-- A token that is expected and what is left of it add up to the text. -/
theorem expect_length_add {token : String} {rest after : List Char}
    (h : expect token rest = .ok after) : token.toList.length + after.length = rest.length := by
  unfold expect at h
  split at h
  · next heq => cases h; exact eat?_length_add heq
  · simp at h

/-- What comes before a stop, and the rest from the stop on, are the text. -/
theorem until?_append {stop : Char} {rest taken after : List Char}
    (h : until? stop rest = some (taken, after)) : taken ++ after = rest := by
  induction rest generalizing taken with
  | nil => simp [until?] at h
  | cons c rest ih =>
    unfold until? at h
    split at h
    · simp_all
    · simp only [consTaken, Option.map_eq_some_iff] at h
      obtain ⟨⟨front, back⟩, hcut, heq⟩ := h
      cases heq
      simp [ih hcut]

/-- A piece up to a stop and what is left are the text. -/
theorem takeUntil_append {stop : Char} {rest taken after : List Char}
    (h : takeUntil stop rest = .ok (taken, after)) : taken ++ after = rest := by
  unfold takeUntil at h
  split at h
  · next heq => cases h; exact until?_append heq
  · simp at h

/-- The span of a type and what is left are the text. -/
theorem typeSpan?_append {depth : Nat} {rest taken after : List Char}
    (h : typeSpan? depth rest = some (taken, after)) : taken ++ after = rest := by
  fun_induction typeSpan? depth rest generalizing taken with
  | case1 => simp at h
  | case2 depth rest ih =>
    simp only [consTaken, Option.map_eq_some_iff] at h
    obtain ⟨⟨_, _⟩, ⟨⟨_, _⟩, hcut, heq⟩, heq'⟩ := h
    cases heq
    cases heq'
    simp [ih hcut]
  | case4 => simp_all
  | case3 depth c rest _ _ ih | case5 depth c rest _ _ _ _ ih | case6 depth c rest _ _ _ _ ih =>
    simp only [consTaken, Option.map_eq_some_iff] at h
    obtain ⟨⟨_, _⟩, hcut, heq⟩ := h
    cases heq
    simp [ih hcut]

/-- A span that is taken for a type and what is left are the text. -/
theorem takeTypeSpan_append {rest taken after : List Char}
    (h : takeTypeSpan rest = .ok (taken, after)) : taken ++ after = rest := by
  unfold takeTypeSpan at h
  split at h
  · next heq => cases h; exact typeSpan?_append heq
  · simp at h

end TypingsIndex.Cursor
