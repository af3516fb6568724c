import Mathlib.Data.List.Infix
import TypingsIndex.Proofs.Json.Denoted

/-!
# Where keys stand in a text

Which quotes of a text open a string and which close one is told by going through it from the front (`Spot`). A key of
an object stands where a string begins outside of all others and a colon follows it (`KeyAt`).

The reader stops outside of strings wherever it stops behind something that is not torn (`Behind`). So each member that
it reads has its key at such a place, and those of an object inside as well (`Placed`).
-/

set_option autoImplicit false

namespace TypingsIndex.Json

open Text (hexCode? hexValue?)

variable {text front back rest more before written after : List Char} {c : Char} {key : Option String}

/-- Where a text leaves off. -/
inductive Spot where
  | outside
  | inside
  /-- Inside of a string, behind a backslash. -/
  | escaped
  deriving DecidableEq

/-- The spot behind one more character. -/
def Spot.next : Spot → Char → Spot
  | .outside, c => if c = '"' then .inside else .outside
  | .inside, c => if c = '"' then .outside else if c = '\\' then .escaped else .inside
  | .escaped, _ => .inside

/-- The spot behind a text. -/
def Spot.through (spot : Spot) (text : List Char) : Spot :=
  text.foldl Spot.next spot

/-- What is behind a part of a text that leaves off outside of strings, as it began. -/
def Behind (rest text : List Char) : Prop :=
  ∃ front, text = front ++ rest ∧ Spot.outside.through front = .outside

/-- A key of an object stands in a text, in these characters. -/
structure KeyAt (text before written : List Char) (key : Option String) (after : List Char) : Prop where
  text_eq : text = before ++ '"' :: (written ++ '"' :: after)
  outside : Spot.outside.through before = .outside
  denotes : string? (written ++ '"' :: after) = some (key, after)
  colon : [':'] <+: skipBlanks after

/-- Whether a key stands at a place of a text can be checked. -/
instance : Decidable (KeyAt text before written key after) :=
  decidable_of_iff (text = before ++ '"' :: (written ++ '"' :: after) ∧ Spot.outside.through before = .outside
      ∧ string? (written ++ '"' :: after) = some (key, after) ∧ [':'] <+: skipBlanks after)
    ⟨fun h => ⟨h.1, h.2.1, h.2.2.1, h.2.2.2⟩, fun h => ⟨h.text_eq, h.outside, h.denotes, h.colon⟩⟩

/-- A text after another goes on at the spot where the first leaves off. -/
theorem Spot.through_append (spot : Spot) (front back : List Char) :
    spot.through (front ++ back) = (spot.through front).through back :=
  List.foldl_append

/-- A text without quotes stays outside of strings. -/
theorem Spot.through_unquoted (h : '"' ∉ text) : Spot.outside.through text = .outside := by
  induction text with
  | nil => rfl
  | cons c rest ih =>
    have hc : Spot.outside.next c = .outside := if_neg (List.ne_of_not_mem_cons h).symm
    change (Spot.outside.next c).through rest = .outside
    rw [hc, ih (List.not_mem_of_not_mem_cons h)]

/-- Two parts of a text one after the other, each of which leaves off outside of strings, do so together. -/
theorem Behind.trans (h : Behind rest more) (h' : Behind more text) : Behind rest text := by
  obtain ⟨back, rfl, hback⟩ := h
  obtain ⟨front, rfl, hfront⟩ := h'
  refine ⟨front ++ back, (List.append_assoc _ _ _).symm, ?_⟩
  rw [Spot.through_append, hfront, hback]

/-- What is left of what is left of a text is left of it, so that readings one after the other can be chained. -/
instance : Trans Behind Behind Behind where
  trans := Behind.trans

/-! ## Characters other than quotes -/

/-- Characters other than quotes are taken from the front of a text. -/
structure Takes (text front rest : List Char) : Prop where
  text_eq : text = front ++ rest
  unquoted : '"' ∉ front

/-- Nothing is taken from a text. -/
theorem Takes.nil (text : List Char) : Takes text [] text :=
  ⟨rfl, List.not_mem_nil⟩

/-- A character other than a quote is taken on top. -/
theorem Takes.cons (h : Takes text front rest) (quote : c ≠ '"') : Takes (c :: text) (c :: front) rest where
  text_eq := by rw [h.text_eq, List.cons_append]
  unquoted hmem := (List.mem_cons.mp hmem).elim (fun heq => quote heq.symm) h.unquoted

/-- Characters are taken one portion after the other. -/
theorem Takes.append (h : Takes text front more) (h' : Takes more back rest) : Takes text (front ++ back) rest where
  text_eq := by rw [h.text_eq, h'.text_eq, List.append_assoc]
  unquoted hmem := (List.mem_append.mp hmem).elim h.unquoted h'.unquoted

/-- What is left after characters other than quotes is behind a part that leaves off outside of strings. -/
theorem Takes.behind (h : Takes text front rest) : Behind rest text :=
  ⟨front, h.text_eq, Spot.through_unquoted h.unquoted⟩

/-- Characters of a class without the quote are taken while they last. -/
theorem takes_takeWhile {taken : Char → Bool} (quote : taken '"' = false) (text : List Char) :
    Takes text (text.takeWhile taken) (text.dropWhile taken) where
  text_eq := List.takeWhile_append_dropWhile.symm
  unquoted hmem := by
    have htaken := List.all_eq_true.mp List.all_takeWhile _ hmem
    rw [quote] at htaken
    cases htaken

/-- What comes behind a character other than a quote. -/
theorem Behind.cons (h : c ≠ '"') : Behind rest (c :: rest) :=
  ((Takes.nil rest).cons h).behind

/-- What comes behind blanks. -/
theorem Behind.skipBlanks (text : List Char) : Behind (skipBlanks text) text :=
  (takes_takeWhile rfl text).behind

/-- What comes after blanks and one character that is no quote. -/
theorem Behind.of_skipBlanks (h : Json.skipBlanks text = c :: rest) (quote : c ≠ '"') : Behind rest text :=
  calc Behind rest (c :: rest) := .cons quote
    Behind _ text := h ▸ .skipBlanks text

/-! ## Strings and numbers -/

/-- An ordinary character stays inside of a string. -/
theorem Spot.next_inside (quote : c ≠ '"') (backslash : c ≠ '\\') : Spot.inside.next c = .inside := by
  change (if c = '"' then Spot.outside else if c = '\\' then .escaped else .inside) = .inside
  rw [if_neg quote, if_neg backslash]

/-- A hexadecimal digit stays inside of a string. -/
theorem Spot.next_hexValue {value : Nat} (h : hexValue? c = some value) : Spot.inside.next c = .inside := by
  apply Spot.next_inside
  · rintro rfl
    cases h
  · rintro rfl
    cases h

/-- The inside of a string is at its end, or goes on with characters that leave it inside. -/
theorem units?_step {units : List Nat} (h : units? text = some (units, rest)) :
    text = '"' :: rest ∨ ∃ front more others, text = front ++ more ∧ front ≠ [] ∧ Spot.inside.through front = .inside
      ∧ units? more = some (others, rest) := by
  unfold units? at h
  split at h
  · cases h
  · cases h
    exact .inl rfl
  · next a b c d more =>
    obtain ⟨code, hcode, h⟩ := Option.bind_eq_some_iff.mp h
    obtain ⟨⟨others, back⟩, hothers, h⟩ := Option.bind_eq_some_iff.mp h
    cases h
    refine .inr ⟨['\\', 'u', a, b, c, d], more, others, rfl, List.cons_ne_nil _ _, ?_, hothers⟩
    obtain ⟨_, ha, hcode⟩ := Option.bind_eq_some_iff.mp hcode
    obtain ⟨_, hb, hcode⟩ := Option.bind_eq_some_iff.mp hcode
    obtain ⟨_, hc, hcode⟩ := Option.bind_eq_some_iff.mp hcode
    obtain ⟨_, hd, hcode⟩ := Option.bind_eq_some_iff.mp hcode
    change (((Spot.inside.next a).next b).next c).next d = .inside
    rw [Spot.next_hexValue ha, Spot.next_hexValue hb, Spot.next_hexValue hc, Spot.next_hexValue hd]
  · next c more _ =>
    have hmeaning : ∃ meaning : Char,
        (units? more).bind (fun found => some (meaning.toNat :: found.1, found.2)) = some (units, rest) := by
      dsimp only at h
      split at h
      all_goals first | exact ⟨_, h⟩ | cases h
    obtain ⟨meaning, h⟩ := hmeaning
    obtain ⟨⟨others, back⟩, hothers, h⟩ := Option.bind_eq_some_iff.mp h
    cases h
    exact .inr ⟨['\\', c], more, others, rfl, List.cons_ne_nil _ _, rfl, hothers⟩
  · next c more hquote _ _ =>
    split at h
    · cases h
    · next hplain =>
      obtain ⟨⟨others, back⟩, hothers, h⟩ := Option.map_eq_some_iff.mp h
      cases h
      refine .inr ⟨[c], more, others, rfl, List.cons_ne_nil _ _, ?_, hothers⟩
      exact Spot.next_inside hquote fun hbackslash => hplain (.inl hbackslash)

/-- Units are read up to the quote that closes the string they stand in. -/
theorem units?_closed {units : List Nat} (h : units? text = some (units, rest)) :
    ∃ inside, text = inside ++ '"' :: rest ∧ Spot.inside.through inside = .inside := by
  induction hlength : text.length using Nat.strongRecOn generalizing text units with
  | ind length ih =>
    rcases units?_step h with rfl | ⟨front, more, others, rfl, hfront, hthrough, hmore⟩
    · exact ⟨[], rfl, rfl⟩
    · have hpos := List.length_pos_of_ne_nil hfront
      have hshorter : more.length < length := by
        rw [← hlength, List.length_append]
        omega
      obtain ⟨inside, rfl, hinside⟩ := ih _ hshorter hmore rfl
      refine ⟨front ++ inside, (List.append_assoc _ _ _).symm, ?_⟩
      rw [Spot.through_append, hthrough, hinside]

/-- A string is read up to the quote that closes it, whatever it denotes. -/
theorem string?_closed (h : string? text = some (key, rest)) :
    ∃ inside, text = inside ++ '"' :: rest ∧ Spot.inside.through inside = .inside := by
  obtain ⟨⟨units, back⟩, hunits, h⟩ := Option.map_eq_some_iff.mp h
  cases h
  exact units?_closed hunits

/-- Behind a string a text is outside of strings again. -/
theorem Behind.of_string? (h : string? text = some (key, rest)) : Behind rest ('"' :: text) := by
  obtain ⟨inside, rfl, hinside⟩ := string?_closed h
  refine ⟨'"' :: (inside ++ ['"']), ?_, ?_⟩
  · rw [List.cons_append, List.append_assoc, List.singleton_append]
  · change Spot.inside.through (inside ++ ['"']) = .outside
    rw [Spot.through_append, hinside]
    rfl

/-- Digits are taken off the front of a text. -/
theorem digits?_takes (h : digits? text = some (front, rest)) : Takes text front rest := by
  unfold digits? at h
  dsimp only at h
  split at h
  · cases h
  · cases h
    exact takes_takeWhile rfl text

/-- The digits before the point are taken off the front of a text. -/
theorem integral?_takes (h : integral? text = some (front, rest)) : Takes text front rest := by
  obtain ⟨⟨digits, back⟩, hdigits, h⟩ := Option.bind_eq_some_iff.mp h
  dsimp only at h
  split at h
  · cases h
  · cases h
    exact digits?_takes hdigits

/-- A fraction, if there is one, is taken off the front of a text. -/
theorem fraction?_takes (h : fraction? text = some (front, rest)) : Takes text front rest := by
  unfold fraction? at h
  split at h
  · obtain ⟨⟨digits, back⟩, hdigits, h⟩ := Option.map_eq_some_iff.mp h
    cases h
    exact (digits?_takes hdigits).cons (by decide)
  · cases h
    exact .nil _

/-- An exponent, if there is one, is taken off the front of a text. -/
theorem exponent?_takes (h : exponent? text = some (front, rest)) : Takes text front rest := by
  unfold exponent? at h
  split at h
  · next c inner =>
    split at h
    · next hletter =>
      have hquote : c ≠ '"' := by
        rintro rfl
        revert hletter
        decide
      split at h
      all_goals
        obtain ⟨⟨digits, back⟩, hdigits, h⟩ := Option.map_eq_some_iff.mp h
        cases h
      · exact ((digits?_takes hdigits).cons (by decide)).cons hquote
      · exact ((digits?_takes hdigits).cons (by decide)).cons hquote
      · exact (digits?_takes hdigits).cons hquote
    · cases h
      exact .nil _
  · cases h
    exact .nil _

/-- A number without a sign is taken off the front of a text. -/
theorem unsigned?_takes (h : unsigned? text = some (front, rest)) : Takes text front rest := by
  obtain ⟨⟨whole, behindWhole⟩, hwhole, h⟩ := Option.bind_eq_some_iff.mp h
  obtain ⟨⟨fraction, behindFraction⟩, hfraction, h⟩ := Option.bind_eq_some_iff.mp h
  obtain ⟨⟨exponent, behindExponent⟩, hexponent, h⟩ := Option.bind_eq_some_iff.mp h
  cases h
  exact ((integral?_takes hwhole).append (fraction?_takes hfraction)).append (exponent?_takes hexponent)

/-- A number is taken off the front of a text. -/
theorem number?_takes (h : number? text = some (front, rest)) : Takes text front rest := by
  unfold number? at h
  split at h
  · obtain ⟨⟨digits, back⟩, hdigits, h⟩ := Option.map_eq_some_iff.mp h
    cases h
    exact (unsigned?_takes hdigits).cons (by decide)
  · exact unsigned?_takes h

/-! ## Keys -/

/-- A key that stands in what is left of a text stands in the text. -/
theorem KeyAt.behind (h : KeyAt more before written key after) (h' : Behind more text) :
    ∃ before, KeyAt text before written key after := by
  obtain ⟨front, rfl, hfront⟩ := h'
  refine ⟨front ++ before, ?_, ?_, h.denotes, h.colon⟩
  · rw [h.text_eq, List.append_assoc]
  · rw [Spot.through_append, hfront, h.outside]

/-- A string that is read in front of a colon stands in the text as a key. -/
theorem keyAt_of_string? (h : skipBlanks text = '"' :: more) (string : string? more = some (key, after))
    (colon : [':'] <+: skipBlanks after) : ∃ before written, KeyAt text before written key after := by
  obtain ⟨written, rfl, -⟩ := string?_closed string
  obtain ⟨before, hbefore, houtside⟩ := Behind.skipBlanks text
  exact ⟨before, written, ⟨by rw [← h, ← hbefore], houtside, string, colon⟩⟩

/-- A string without backslashes is written as itself, with no control character in it. -/
theorem units?_unescaped {units : List Nat} (unescaped : '\\' ∉ written)
    (h : units? (written ++ '"' :: after) = some (units, after)) :
    units = written.map Char.toNat ∧ Visible written := by
  induction written generalizing units with
  | nil =>
    cases h
    exact ⟨rfl, List.forall_mem_nil _⟩
  | cons c written ih =>
    have hbackslash : c ≠ '\\' := (List.ne_of_not_mem_cons unescaped).symm
    have hquote : c ≠ '"' := by
      rintro rfl
      have hrest : written ++ '"' :: after = after := congrArg Prod.snd (Option.some.inj h)
      have hlength := congrArg List.length hrest
      rw [List.length_append, List.length_cons] at hlength
      omega
    have hhigh : ¬ c.toNat < 0x20 := by
      intro hlow
      rw [List.cons_append, units?, if_pos (.inr hlow)] at h
      · cases h
      · exact hquote
      · exact fun a b c d more heq => absurd heq hbackslash
      · exact fun d more heq => absurd heq hbackslash
    rw [List.cons_append, units?_plain hquote hbackslash hhigh] at h
    obtain ⟨⟨others, back⟩, hothers, h⟩ := Option.map_eq_some_iff.mp h
    cases h
    obtain ⟨hunits, hvisible⟩ := ih (List.not_mem_of_not_mem_cons unescaped) hothers
    rw [List.map_cons, hunits]
    exact ⟨rfl, List.forall_mem_cons.mpr ⟨Nat.le_of_not_lt hhigh, hvisible⟩⟩

/-- A key that is written without backslashes is the one that its characters are. -/
theorem KeyAt.unescaped (h : KeyAt text before written key after) (unescaped : '\\' ∉ written) :
    key = some (String.ofList written) ∧ Visible written := by
  obtain ⟨⟨units, back⟩, hunits, heq⟩ := Option.map_eq_some_iff.mp h.denotes
  cases heq
  obtain ⟨hwritten, hvisible⟩ := units?_unescaped unescaped hunits
  rw [hwritten, textOfUnits?_toNat]
  exact ⟨rfl, hvisible⟩

/-! ## The reader -/

namespace Draft

variable {budget : Nat} {draft : Draft} {items : List Draft} {members : List (Option String × Draft)}
  {member : Option String × Draft}

/-- What the reader does with the items of an array, if none of them is torn. -/
theorem readItems_step (h : readItems (budget + 1) text = (items, rest)) (whole : areWhole items = true) :
    ∃ item inner, readValue budget text = (item, inner) ∧ item.isWhole = true
      ∧ (skipBlanks inner = ']' :: rest ∨ ∃ more others, skipBlanks inner = ',' :: more
        ∧ readItems budget more = (others, rest) ∧ areWhole others = true) := by
  unfold readItems at h
  cases hread : readValue budget text with
  | mk item inner =>
    rw [hread] at h
    dsimp only at h
    split at h
    · cases h
      cases whole
    · split at h
      · next more hmore =>
        cases hothers : readItems budget more with
        | mk others back =>
          rw [hothers] at h
          cases h
          rw [areWhole, Bool.and_eq_true] at whole
          exact ⟨item, inner, rfl, whole.1, .inr ⟨more, others, hmore, hothers, whole.2⟩⟩
      · next hclose =>
        cases h
        rw [areWhole, Bool.and_eq_true] at whole
        exact ⟨item, inner, rfl, whole.1, .inl hclose⟩
      · cases h
        rw [areWhole, areWhole, isWhole, Bool.false_and, Bool.and_false] at whole
        cases whole

/-- What the reader does with the members of an object, if none of them is torn. -/
theorem readMembers_step (h : readMembers (budget + 1) text = (members, rest))
    (whole : membersAreWhole members = true) :
    ∃ opened key after more value inner, skipBlanks text = '"' :: opened ∧ string? opened = some (key, after)
      ∧ skipBlanks after = ':' :: more ∧ readValue budget more = (value, inner) ∧ value.isWhole = true
      ∧ (skipBlanks inner = '}' :: rest ∧ members = [(key, value)]
        ∨ ∃ others next, skipBlanks inner = ',' :: next ∧ readMembers budget next = (others, rest)
          ∧ membersAreWhole others = true ∧ members = (key, value) :: others) := by
  unfold readMembers at h
  split at h
  · next opened hopened =>
    split at h
    · cases h
      cases whole
    · next key after hkey =>
      split at h
      · next more hcolon =>
        refine ⟨opened, key, after, more, ?_⟩
        cases hread : readValue budget more with
        | mk value inner =>
          rw [hread] at h
          dsimp only at h
          split at h
          · cases h
            cases whole
          · split at h
            · next next hnext =>
              cases hothers : readMembers budget next with
              | mk others back =>
                rw [hothers] at h
                cases h
                rw [membersAreWhole, Bool.and_eq_true] at whole
                exact ⟨value, inner, hopened, hkey, hcolon, rfl, whole.1,
                  .inr ⟨others, next, hnext, hothers, whole.2, rfl⟩⟩
            · next hclose =>
              cases h
              rw [membersAreWhole, Bool.and_eq_true] at whole
              exact ⟨value, inner, hopened, hkey, hcolon, rfl, whole.1, .inl ⟨hclose, rfl⟩⟩
            · cases h
              rw [membersAreWhole, membersAreWhole, isWhole, Bool.false_and, Bool.and_false] at whole
              cases whole
      · cases h
        cases whole
  · cases h
    cases whole

/-- What the reader does with a value that is not torn: it takes a scalar or empty brackets, or goes into brackets. -/
theorem readValue_step (h : readValue (budget + 1) text = (draft, rest)) (whole : draft.isWhole = true) :
    (Behind rest text ∧ ∀ members, draft = .object members → members = [])
      ∨ (∃ inner items, skipBlanks text = '[' :: inner ∧ readItems budget (skipBlanks inner) = (items, rest)
        ∧ draft = .array items)
      ∨ ∃ inner members, skipBlanks text = '{' :: inner ∧ readMembers budget (skipBlanks inner) = (members, rest)
        ∧ draft = .object members := by
  have hblanks : Behind (skipBlanks text) text := .skipBlanks text
  unfold readValue at h
  split at h
  · cases h
    cases whole
  · next inner hinner =>
    rw [hinner] at hblanks
    split at h
    · next key back hstring =>
      cases h
      exact .inl ⟨(Behind.of_string? hstring).trans hblanks, fun _ heq => by cases heq⟩
    · cases h
      cases whole
  · next inner hinner =>
    split at h
    · next back hclose =>
      cases h
      refine .inl ⟨?_, fun _ heq => by cases heq⟩
      calc Behind rest inner := .of_skipBlanks hclose (by decide)
        Behind _ text := .of_skipBlanks hinner (by decide)
    · cases h
      exact .inr (.inl ⟨inner, _, hinner, rfl, rfl⟩)
  · next inner hinner =>
    split at h
    · next back hclose =>
      cases h
      have hrest : Behind rest text :=
        calc Behind rest inner := .of_skipBlanks hclose (by decide)
          Behind _ text := .of_skipBlanks hinner (by decide)
      refine .inl ⟨hrest, fun members hmembers => ?_⟩
      cases hmembers
      rfl
    · cases h
      exact .inr (.inr ⟨inner, _, hinner, rfl, rfl⟩)
  · next back hword =>
    cases h
    have htakes : Takes (skipBlanks text) ['n', 'u', 'l', 'l'] rest := ⟨hword, by decide⟩
    exact .inl ⟨htakes.behind.trans hblanks, fun _ heq => by cases heq⟩
  · next back hword =>
    cases h
    have htakes : Takes (skipBlanks text) ['t', 'r', 'u', 'e'] rest := ⟨hword, by decide⟩
    exact .inl ⟨htakes.behind.trans hblanks, fun _ heq => by cases heq⟩
  · next back hword =>
    cases h
    have htakes : Takes (skipBlanks text) ['f', 'a', 'l', 's', 'e'] rest := ⟨hword, by decide⟩
    exact .inl ⟨htakes.behind.trans hblanks, fun _ heq => by cases heq⟩
  · split at h
    · next literal back hnumber =>
      cases h
      exact .inl ⟨(number?_takes hnumber).behind.trans hblanks, fun _ heq => by cases heq⟩
    · cases h
      cases whole

/-- A member that is read somewhere in a text: its key stands there, and its value is read behind the colon. -/
def Placed (text : List Char) (member : Option String × Draft) : Prop :=
  ∃ before written after more budget, KeyAt text before written member.1 after ∧ skipBlanks after = ':' :: more
    ∧ (readValue budget more).1 = member.2

/-- A member that is read in what is left of a text is read in the text. -/
theorem Placed.behind (h : Placed more member) (h' : Behind more text) : Placed text member := by
  obtain ⟨before, written, after, value, budget, hkey, hcolon, hread⟩ := h
  obtain ⟨before, hkey⟩ := hkey.behind h'
  exact ⟨before, written, after, value, budget, hkey, hcolon, hread⟩

/-- The reader stops outside of strings, and has read the members of an object at their places. -/
theorem read_behind (budget : Nat) :
    (∀ {text rest draft}, readValue budget text = (draft, rest) → draft.isWhole = true →
      Behind rest text ∧ ∀ members, draft = .object members → ∀ member ∈ members, Placed text member)
    ∧ (∀ {text rest items}, readItems budget text = (items, rest) → areWhole items = true → Behind rest text)
    ∧ ∀ {text rest members}, readMembers budget text = (members, rest) → membersAreWhole members = true →
      Behind rest text ∧ ∀ member ∈ members, Placed text member := by
  -- The three readers call each other with the next smaller budget, so that the induction is over all three at once.
  induction budget with
  | zero =>
    refine ⟨fun h whole => ?_, fun h whole => ?_, fun h whole => ?_⟩
    all_goals
      cases h
      cases whole
  | succ budget ih =>
    obtain ⟨ihValue, ihItems, ihMembers⟩ := ih
    refine ⟨fun {text rest draft} h whole => ?value, fun {text rest items} h whole => ?items,
      fun {text rest members} h whole => ?members⟩
    case value =>
      rcases readValue_step h whole with
        ⟨hbehind, hempty⟩ | ⟨inner, items, hinner, hitems, rfl⟩ | ⟨inner, members, hinner, hmembers, rfl⟩
      · refine ⟨hbehind, fun members hmembers member hmember => ?_⟩
        rw [hempty members hmembers] at hmember
        cases hmember
      · have hopened : Behind (skipBlanks inner) text :=
          calc Behind (skipBlanks inner) inner := .skipBlanks inner
            Behind _ text := .of_skipBlanks hinner (by decide)
        exact ⟨(ihItems hitems whole).trans hopened, fun _ heq => by cases heq⟩
      · have hopened : Behind (skipBlanks inner) text :=
          calc Behind (skipBlanks inner) inner := .skipBlanks inner
            Behind _ text := .of_skipBlanks hinner (by decide)
        obtain ⟨hbehind, hplaced⟩ := ihMembers hmembers whole
        refine ⟨hbehind.trans hopened, fun _ heq member hmember => ?_⟩
        cases heq
        exact (hplaced member hmember).behind hopened
    case items =>
      obtain ⟨item, inner, hread, hitem, hmore⟩ := readItems_step h whole
      have hinner : Behind inner text := (ihValue hread hitem).1
      rcases hmore with hclose | ⟨more, others, hnext, hothers, hwhole⟩
      · calc Behind rest inner := .of_skipBlanks hclose (by decide)
          Behind _ text := hinner
      · calc Behind rest more := ihItems hothers hwhole
          Behind _ inner := .of_skipBlanks hnext (by decide)
          Behind _ text := hinner
    case members =>
      obtain ⟨opened, key, after, more, value, inner, hopened, hkey, hcolon, hread, hvalue, hmore⟩ :=
        readMembers_step h whole
      obtain ⟨before, written, hplace⟩ := keyAt_of_string? hopened hkey (by rw [hcolon]; exact List.prefix_append _ _)
      have hfirst : Placed text (key, value) := ⟨before, written, after, more, budget, hplace, hcolon, by rw [hread]⟩
      have hinner : Behind inner text :=
        calc Behind inner more := (ihValue hread hvalue).1
          Behind _ after := .of_skipBlanks hcolon (by decide)
          Behind _ (skipBlanks text) := hopened ▸ .of_string? hkey
          Behind _ text := .skipBlanks text
      rcases hmore with ⟨hclose, rfl⟩ | ⟨others, next, hnext, hothers, hwhole, rfl⟩
      · refine ⟨?_, List.forall_mem_singleton.mpr hfirst⟩
        calc Behind rest inner := .of_skipBlanks hclose (by decide)
          Behind _ text := hinner
      · have hbehind : Behind next text :=
          calc Behind next inner := .of_skipBlanks hnext (by decide)
            Behind _ text := hinner
        obtain ⟨hrest, hplaced⟩ := ihMembers hothers hwhole
        refine ⟨hrest.trans hbehind, List.forall_mem_cons.mpr ⟨hfirst, fun member hmember => ?_⟩⟩
        exact (hplaced member hmember).behind hbehind

/-- The members of an object that a text is read as are read at their places in it. -/
theorem read_placed (h : read text = (.object members, rest)) (whole : membersAreWhole members = true) :
    ∀ member ∈ members, Placed text member :=
  ((read_behind _).1 h whole).2 members rfl

/-- The members of an object inside are in the same text. -/
theorem Placed.inner (h : Placed text (key, .object members)) (whole : membersAreWhole members = true) :
    ∀ member ∈ members, Placed text member := by
  obtain ⟨before, written, after, more, budget, hkey, hcolon, hread⟩ := h
  have hmore : Behind more text :=
    calc Behind more after := .of_skipBlanks hcolon (by decide)
      Behind _ ('"' :: (written ++ '"' :: after)) := .of_string? hkey.denotes
      Behind _ text := ⟨before, hkey.text_eq, hkey.outside⟩
  intro member hmember
  have hplaced := ((read_behind budget).1 (Prod.eta _).symm (hread ▸ whole)).2 members hread member hmember
  exact hplaced.behind hmore

end Draft

end TypingsIndex.Json
