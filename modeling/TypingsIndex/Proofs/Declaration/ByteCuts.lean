import TypingsIndex.Proofs.Declaration.ByteSearches
import TypingsIndex.Proofs.Declaration.FirstPlaces

/-!
# Cuts at offsets

A step that cuts a line at an offset does what the step that cuts it between characters does: it takes the same
text, leaves the same rest, and refuses with the same fault where that refuses, leaving the text as it was. It never
breaks down, since what is found is an offset between two characters (`cuts_at_first_place`). That holds for stops
of one byte only: at any other stop byte the step breaks down as soon as it finds one
(`takeTerminated_eq_broken_iff`).
-/

set_option autoImplicit false

namespace TypingsIndex.ByteCursor

open Text

variable {offset : Nat} {text front back : String} {taken after : List Char} {stop : UInt8}

/-! ## Cutting at an offset -/

/-- The end of one text is between two characters when another follows. -/
theorem isValid_utf8ByteSize (append : text = front ++ back) : (String.Pos.Raw.mk front.utf8ByteSize).IsValid text :=
  String.Pos.Raw.isValid_iff_exists_append.mpr ⟨front, back, append, rfl⟩

/-- A text is cut at an offset if that is the size of what comes before the cut. -/
theorem cutAt?_eq_some_iff :
    cutAt? offset text = some (front, back) ↔ text = front ++ back ∧ front.utf8ByteSize = offset := by
  unfold cutAt?
  split
  · next valid =>
    have hsplits := String.Pos.splits (⟨_, valid⟩ : text.Pos)
    constructor
    · intro h
      cases h
      exact ⟨hsplits.eq_append, (congrArg String.Pos.Raw.byteIdx hsplits.offset_eq_rawEndPos).symm⟩
    · rintro ⟨happend, hsize⟩
      have hother : String.Pos.Splits (⟨_, valid⟩ : text.Pos) front back :=
        ⟨happend, congrArg String.Pos.Raw.mk hsize.symm⟩
      obtain ⟨hfront, hback⟩ := hsplits.eq hother
      rw [hfront, hback]
  · next invalid =>
    constructor
    · intro h
      cases h
    · rintro ⟨happend, rfl⟩
      exact absurd (isValid_utf8ByteSize happend) invalid

/-- A text is cut at the size of what comes before the cut. -/
theorem cutAt?_utf8Len (append : text.toList = taken ++ after) :
    cutAt? (String.utf8Len taken) text = some (String.ofList taken, String.ofList after) := by
  rw [cutAt?_eq_some_iff]
  refine ⟨?_, String.utf8ByteSize_ofList taken⟩
  rw [← String.ofList_append, ← append, String.ofList_toList]

/-- A character of one byte is cut off at one. -/
theorem cutAt?_one {c : Char} (ascii : c.utf8Size = 1) :
    cutAt? 1 (String.ofList (c :: after)) = some (String.singleton c, String.ofList after) := by
  rw [cutAt?_eq_some_iff, String.utf8ByteSize_singleton]
  refine ⟨?_, ascii⟩
  rw [← List.singleton_append, String.ofList_append, String.singleton_eq_ofList]

/-! ## Steps -/

/-- The end of a step that cuts a text between characters. -/
def Outcome.ofCut (text : String) : Except GrammarFault (List Char × List Char) → Outcome String
  | .ok (taken, after) => .done (String.ofList taken) (String.ofList after)
  | .error fault => .refused fault text

/-- A cut of characters is shown as done exactly if it was made. -/
theorem Outcome.ofCut_eq_done_iff {charwise : Except GrammarFault (List Char × List Char)} {piece rest : String} :
    Outcome.ofCut text charwise = .done piece rest ↔ charwise = .ok (piece.toList, rest.toList) := by
  cases charwise with
  | error fault => simp [Outcome.ofCut]
  | ok cut =>
    simp only [Outcome.ofCut, Outcome.done.injEq, Except.ok.injEq, Prod.ext_iff]
    rw [← String.toList_inj, ← String.toList_inj, String.toList_ofList, String.toList_ofList]

/-- A cut of characters is shown as refused exactly if it has failed, and then nothing was consumed. -/
theorem Outcome.ofCut_eq_refused_iff {charwise : Except GrammarFault (List Char × List Char)} {fault : GrammarFault}
    {rest : String} :
    Outcome.ofCut text charwise = .refused fault rest ↔ charwise = .error fault ∧ rest = text := by
  cases charwise <;> simp [Outcome.ofCut, eq_comm]

/-- A cut of characters never breaks off inside of a character. -/
theorem Outcome.ofCut_ne_broken {charwise : Except GrammarFault (List Char × List Char)} :
    Outcome.ofCut text charwise ≠ .broken := by
  cases charwise <;> simp [Outcome.ofCut]

/-- A fault in front of a text shows all of it. -/
theorem facing_toList (expected : Expectation) (text : String) :
    GrammarFault.facing expected text.toList = ⟨expected, text⟩ := by
  simp [GrammarFault.facing]

/-- The span of a type is what the search finds. Where it finds none, the fault shows the whole text. -/
theorem takeTypeSpan_toList (text : String) :
    Cursor.takeTypeSpan text.toList = (Cursor.typeSpan? 0 text.toList).elim (.error ⟨.spanEnd, text⟩) .ok := by
  rw [← facing_toList]
  unfold Cursor.takeTypeSpan
  cases Cursor.typeSpan? 0 text.toList <;> rfl

/-- What is taken up to a stop is what the search finds. Where it finds none, the stop was expected. -/
theorem takeUntil_toList (stop : Char) (text : String) :
    Cursor.takeUntil stop text.toList =
      (Cursor.until? stop text.toList).elim (.error ⟨.token (String.singleton stop), text⟩) .ok := by
  rw [← facing_toList]
  unfold Cursor.takeUntil
  cases Cursor.until? stop text.toList <;> rfl

/-- What is taken up to a terminator is what the search finds. Where it finds none, the terminator was expected. -/
theorem takeTerminated_toList (stop : Char) (text : String) :
    Cursor.takeTerminated stop text.toList =
      (Cursor.terminated? stop 0 text.toList).elim (.error ⟨.token (String.singleton stop), text⟩) .ok := by
  rw [← facing_toList]
  unfold Cursor.takeTerminated
  cases Cursor.terminated? stop 0 text.toList <;> rfl

/-- What a search has found is taken as it is taken between characters. -/
theorem takeFound_eq {search : Option (List Char × List Char)} {expected : Expectation}
    (append : ∀ taken after, search = some (taken, after) → text.toList = taken ++ after) :
    takeFound (offsetOf 0 search) expected text = .ofCut text (search.elim (.error ⟨expected, text⟩) .ok) := by
  cases search with
  | none => rfl
  | some cut =>
    have hcut := cutAt?_utf8Len (append cut.1 cut.2 rfl)
    rw [← Nat.zero_add (String.utf8Len cut.1)] at hcut
    simp only [takeFound, offsetOf, Option.map_some, hcut, Option.elim, Outcome.ofCut]

/-- The type of a parameter is taken as it is taken character by character. -/
theorem takeTypeSpan_eq (text : String) : takeTypeSpan text = .ofCut text (Cursor.takeTypeSpan text.toList) := by
  rw [takeTypeSpan_toList]
  unfold takeTypeSpan
  rw [typeEndOffset?_eq (encodesFrom_zero text)]
  exact takeFound_eq fun _ _ hcut => (Cursor.typeSpan?_append hcut).symm

/-- The text before a character is taken as it is taken character by character. -/
theorem takeUntil_eq (stop : Char) (text : String) :
    takeUntil stop text = .ofCut text (Cursor.takeUntil stop text.toList) := by
  rw [takeUntil_toList]
  unfold takeUntil
  rw [untilOffset?_eq (encodesFrom_zero text)]
  exact takeFound_eq fun _ _ hcut => (Cursor.until?_append hcut).symm

/-- A stop of one byte is found where its character is. -/
theorem terminatedOffset?_ofUInt8 (ascii : stop < 0x80) (text : String) :
    terminatedOffset? stop text.toByteArray 0 0 =
      offsetOf 0 (Cursor.terminated? (Char.ofUInt8 stop) 0 text.toList) := by
  conv_lhs => rw [← toUInt8_ofUInt8 stop]
  exact terminatedOffset?_eq (utf8Size_ofUInt8 ascii) (encodesFrom_zero text)

/-- The text before a stop of one byte is taken as it is taken character by character, and the stop with it. -/
theorem takeTerminated_eq (ascii : stop < 0x80) (text : String) :
    takeTerminated stop text = .ofCut text (Cursor.takeTerminated (Char.ofUInt8 stop) text.toList) := by
  rw [takeTerminated_toList]
  unfold takeTerminated
  rw [terminatedOffset?_ofUInt8 ascii text]
  cases hcut : Cursor.terminated? (Char.ofUInt8 stop) 0 text.toList with
  | none => rfl
  | some cut =>
    -- the stop is still there after the first of the two cuts
    have hbefore := cutAt?_utf8Len (Cursor.terminated?_append hcut)
    rw [← Nat.zero_add (String.utf8Len cut.1)] at hbefore
    have hstop : cutAt? 1 (String.ofList (Char.ofUInt8 stop :: cut.2)) = _ := cutAt?_one (utf8Size_ofUInt8 ascii)
    simp only [takeFound, offsetOf, Option.map_some, hbefore, hstop, Option.elim, Outcome.ofCut]

/-! ## Tokens -/

/-- A token that stands at the front of a text is taken; one that does not leaves the text as it was, and is refused
with all of the text. -/
structure TakesToken (token text : String) : Prop where
  found : ∀ rest, text = token ++ rest → eat token text = .done true rest ∧ expect token text = .done () rest
  missing : (∀ rest, text ≠ token ++ rest) →
    eat token text = .done false text ∧ expect token text = .refused ⟨.token token, text⟩ text

/-- The bytes of a text begin with those of a token exactly if the text begins with the token. -/
theorem toByteArray_prefix_iff {token : String} :
    token.toByteArray.data.toList <+: text.toByteArray.data.toList ↔ ∃ rest, text = token ++ rest := by
  rw [toList_toByteArray, toList_toByteArray, bytesOf_prefix_iff]
  constructor
  · rintro ⟨rest, heq⟩
    exact ⟨String.ofList rest, String.toList_inj.mp (by simp [← heq])⟩
  · rintro ⟨rest, rfl⟩
    exact ⟨rest.toList, by simp⟩

/-- The cut of a token by its size in bytes takes the characters of the token. -/
theorem takesToken (token text : String) : TakesToken token text where
  found := by
    rintro rest rfl
    have heat : eat token (token ++ rest) = .done true rest := by
      unfold eat
      rw [if_pos (toByteArray_prefix_iff.mpr ⟨rest, rfl⟩), cutAt?_eq_some_iff.mpr ⟨rfl, rfl⟩]
    exact ⟨heat, by unfold expect; rw [heat]⟩
  missing := by
    intro hmissing
    have heat : eat token text = .done false text := by
      unfold eat
      rw [if_neg fun hprefix => (toByteArray_prefix_iff.mp hprefix).elim hmissing]
    exact ⟨heat, by unfold expect; rw [heat]⟩

/-! ## Stops inside characters -/

/-- A text of one byte is a character. -/
theorem exists_singleton_of_utf8ByteSize (size : text.utf8ByteSize = 1) :
    ∃ c : Char, text.toList = [c] ∧ c.utf8Size = 1 := by
  rw [← String.utf8Len_toList] at size
  cases hlist : text.toList with
  | nil =>
    rw [hlist] at size
    cases size
  | cons c rest =>
    rw [hlist, String.utf8Len_cons] at size
    have hpos := c.utf8Size_pos
    obtain rfl : rest = [] := String.utf8Len_eq_zero.mp (by omega)
    exact ⟨c, rfl, by omega⟩

/-- Where one byte can be cut off between characters, that byte is below 128. -/
theorem getElem_lt_of_cutAt?_one {taken one left : String} (cut : cutAt? offset text = some (taken, back))
    (cut_one : cutAt? 1 back = some (one, left)) (h : offset < text.toByteArray.size) :
    text.toByteArray[offset] < 0x80 := by
  obtain ⟨rfl, rfl⟩ := cutAt?_eq_some_iff.mp cut
  obtain ⟨rfl, hsize⟩ := cutAt?_eq_some_iff.mp cut_one
  obtain ⟨c, hone, ascii⟩ := exists_singleton_of_utf8ByteSize hsize
  have hlist : (taken ++ (one ++ left)).toList = taken.toList ++ c :: left.toList := by
    simp [hone]
  have hencodes := EncodesFrom.drop (hlist ▸ encodesFrom_zero (taken ++ (one ++ left)))
  have hbyte := hencodes.looksLike hencodes.lt c ascii
  simp only [beq_self_eq_true, beq_iff_eq, Nat.zero_add, String.utf8Len_toList] at hbyte
  rw [hbyte]
  exact toUInt8_lt_of_ascii ascii

/-- The step breaks down if and only if it finds a stop that is no character of one byte: such a byte is a part of a
character, which would have to be cut before the byte or behind it. -/
theorem takeTerminated_eq_broken_iff :
    takeTerminated stop text = .broken ↔
      0x80 ≤ stop ∧ ∃ offset, terminatedOffset? stop text.toByteArray 0 0 = some offset := by
  constructor
  · intro hbroken
    refine ⟨UInt8.not_lt.mp fun ascii => ?_, ?_⟩
    · rw [takeTerminated_eq ascii] at hbroken
      exact Outcome.ofCut_ne_broken hbroken
    · cases hfound : terminatedOffset? stop text.toByteArray 0 0 with
      | some offset => exact ⟨offset, rfl⟩
      | none =>
        unfold takeTerminated at hbroken
        rw [hfound] at hbroken
        cases hbroken
  · rintro ⟨wide, offset, hfound⟩
    obtain ⟨hlt, hstop⟩ := getElem_of_terminatedOffset? hfound
    unfold takeTerminated takeFound
    rw [hfound]
    cases hcut : cutAt? offset text with
    | none => simp only [hcut]
    | some cut =>
      obtain ⟨taken, after⟩ := cut
      cases hone : cutAt? 1 after with
      | none => simp only [hcut, hone]
      | some cut =>
        have hbyte := getElem_lt_of_cutAt?_one hcut hone hlt
        rw [hstop] at hbyte
        exact absurd hbyte (UInt8.not_lt.mpr wide)

example : takeTerminated 0xa9 "é;" = .broken := by cbv

/-! ## The first place -/

/-- A text is to be cut at the first place where an end stands outside all brackets, depths being those of
`depthAfter`, and of what is behind the place `consumed` is taken off as well. A search over the bytes finds `found`,
the cut ends with `ended`, and done character by character it comes to `charwise`. -/
structure CutsFirst (depthAfter : List Char → Nat) (ends : Char → Prop) (consumed : String) (expected : Expectation)
    (text : String) (found : Option Nat) (charwise : Except GrammarFault (List Char × List Char))
    (ended : Outcome String) : Prop where
  /-- The cut succeeds exactly if there is such a place. -/
  succeeds_iff : (∃ taken rest, ended = .done taken rest) ↔
    ∃ front back, Cursor.CutPlace depthAfter ends text.toList front back
  /-- The text before the first place is taken, and the text from it on is left, less what is consumed. -/
  first_iff : ∀ taken rest, ended = .done taken rest ↔
    Cursor.FirstCutPlace depthAfter ends text.toList taken.toList (consumed.toList ++ rest.toList)
  /-- Nothing is lost or made up. -/
  whole : ∀ taken rest, ended = .done taken rest → taken ++ consumed ++ rest = text
  /-- A refusal leaves the text as it was, and shows all of it. -/
  unchanged : ∀ fault rest, ended = .refused fault rest → rest = text ∧ fault = ⟨expected, text⟩
  /-- What is found is the size of what is taken. -/
  found_eq : ∀ taken rest, ended = .done taken rest → found = some taken.utf8ByteSize
  /-- What is found lies between two characters, and so does the end of what is consumed. -/
  between : ∀ offset, found = some offset →
    (String.Pos.Raw.mk offset).IsValid text ∧ (String.Pos.Raw.mk (offset + consumed.utf8ByteSize)).IsValid text
  /-- No text has to be cut inside a character. -/
  unbroken : ended ≠ .broken
  /-- The same comes of the cut done character by character. -/
  charwise_eq : ended = .ofCut text charwise

section

variable {depthAfter : List Char → Nat} {ends : Char → Prop} {consumed : String} {expected : Expectation}
  {found : Option Nat} {search : Option (List Char × List Char)}
  {charwise : Except GrammarFault (List Char × List Char)} {ended : Outcome String}

/-- A cut that ends as the cut between characters does, at an offset found where the search over the characters finds
its place, is one at the first place if that cut is. -/
theorem CutsFirst.of_search (charwise_eq : ended = .ofCut text charwise)
    (search_eq : charwise = search.elim (.error ⟨expected, text⟩) .ok) (found_eq : found = offsetOf 0 search)
    (consumes : ∀ c more, ends c → ∃ after, c :: more = consumed.toList ++ after)
    (ok_iff : ∀ taken after, charwise = .ok (taken, after) ↔
      Cursor.FirstCutPlace depthAfter ends text.toList taken (consumed.toList ++ after)) :
    CutsFirst depthAfter ends consumed expected text found charwise ended := by
  have hok : ∀ cut, charwise = .ok cut ↔ search = some cut := fun cut => by
    cases search <;> simp [search_eq]
  have hdone : ∀ taken rest, ended = .done taken rest ↔ charwise = .ok (taken.toList, rest.toList) := by
    rw [charwise_eq]
    exact fun _ _ => Outcome.ofCut_eq_done_iff
  have hfirst : ∀ taken rest, ended = .done taken rest ↔
      Cursor.FirstCutPlace depthAfter ends text.toList taken.toList (consumed.toList ++ rest.toList) :=
    fun taken rest => (hdone taken rest).trans (ok_iff _ _)
  -- Both directions go through the cut between characters, so that each part is a fact about its places.
  refine
    { succeeds_iff := ?succeeds, first_iff := hfirst, whole := ?whole, unchanged := ?unchanged, found_eq := ?found,
      between := ?between, unbroken := charwise_eq ▸ Outcome.ofCut_ne_broken, charwise_eq := charwise_eq }
  case succeeds =>
    rw [← Cursor.exists_firstCutPlace_iff]
    constructor
    · rintro ⟨taken, rest, hended⟩
      exact ⟨_, _, (hfirst taken rest).mp hended⟩
    · rintro ⟨front, back, first⟩
      obtain ⟨c, more, rfl, hends⟩ := first.stands
      obtain ⟨after, hafter⟩ := consumes c more hends
      refine ⟨String.ofList front, String.ofList after, (hfirst _ _).mpr ?_⟩
      rw [String.toList_ofList, String.toList_ofList, ← hafter]
      exact first
  case whole =>
    intro taken rest hended
    have happend := ((hfirst taken rest).mp hended).append
    rw [← String.toList_inj, String.toList_append, String.toList_append, List.append_assoc, happend]
  case unchanged =>
    intro fault rest hended
    rw [charwise_eq, Outcome.ofCut_eq_refused_iff] at hended
    obtain ⟨herror, rfl⟩ := hended
    cases search with
    | none => exact ⟨rfl, (Except.error.inj (search_eq.symm.trans herror)).symm⟩
    | some cut => cases search_eq.symm.trans herror
  case found =>
    intro taken rest hended
    rw [found_eq, (hok _).mp ((hdone taken rest).mp hended), ← String.utf8Len_toList,
      ← Nat.zero_add (String.utf8Len _)]
    rfl
  case between =>
    intro offset hfound
    rw [found_eq] at hfound
    obtain ⟨⟨taken, after⟩, hcut, rfl⟩ := Option.map_eq_some_iff.mp hfound
    have happend : text = String.ofList taken ++ consumed ++ String.ofList after := by
      rw [← String.toList_inj, ((ok_iff taken after).mp ((hok _).mpr hcut)).append]
      simp
    simp only [Nat.zero_add, ← String.utf8ByteSize_ofList, ← String.utf8ByteSize_append]
    exact ⟨isValid_utf8ByteSize (happend.trans (String.append_assoc ..)), isValid_utf8ByteSize happend⟩

end

/-- The type of a parameter ends at the first comma or closing parenthesis outside all brackets. -/
theorem takeTypeSpan_cutsFirst (text : String) :
    CutsFirst (Cursor.typeDepth 0) (Cursor.endsType · = true) "" .spanEnd text (typeEndOffset? text.toByteArray 0 0)
      (Cursor.takeTypeSpan text.toList) (takeTypeSpan text) :=
  .of_search (takeTypeSpan_eq text) (takeTypeSpan_toList text) (typeEndOffset?_eq (encodesFrom_zero text))
    (fun c more _ => ⟨c :: more, rfl⟩) fun _ _ => Cursor.takeTypeSpan_eq_ok_iff_firstCutPlace

/-- A character is looked for everywhere. -/
theorem takeUntil_cutsFirst (stop : Char) (text : String) :
    CutsFirst (fun _ => 0) (· = stop) "" (.token (String.singleton stop)) text (untilOffset? stop text.toByteArray 0)
      (Cursor.takeUntil stop text.toList) (takeUntil stop text) :=
  .of_search (takeUntil_eq stop text) (takeUntil_toList stop text) (untilOffset?_eq (encodesFrom_zero text))
    (fun c more _ => ⟨c :: more, rfl⟩) fun _ _ => Cursor.takeUntil_eq_ok_iff_firstCutPlace

/-- A stop is looked for outside all groups, and consumed. -/
theorem takeTerminated_cutsFirst (ascii : stop < 0x80) (opens : opensGroup stop = false)
    (closes : closesGroup stop = false) (text : String) :
    CutsFirst (Cursor.groupDepth 0) (· = Char.ofUInt8 stop) (String.singleton (Char.ofUInt8 stop))
      (.token (String.singleton (Char.ofUInt8 stop))) text (terminatedOffset? stop text.toByteArray 0 0)
      (Cursor.takeTerminated (Char.ofUInt8 stop) text.toList) (takeTerminated stop text) := by
  have hplain : Cursor.opensGroup (Char.ofUInt8 stop) = false ∧ Cursor.closesGroup (Char.ofUInt8 stop) = false := by
    have hlike := looksLike_mark (utf8Size_ofUInt8 ascii)
    rw [toUInt8_ofUInt8] at hlike
    exact ⟨opensGroup_eq hlike ▸ opens, closesGroup_eq hlike ▸ closes⟩
  refine .of_search (takeTerminated_eq ascii text) (takeTerminated_toList _ text)
    (terminatedOffset?_ofUInt8 ascii text) ?_ ?_
  · rintro c more rfl
    exact ⟨more, by simp⟩
  · intro taken after
    rw [Cursor.takeTerminated_eq_ok_iff_firstCutPlace hplain]
    simp

/-- Every cut is made if and only if there is a place for it, and then at the first one: for the type of a parameter a
comma or a closing parenthesis outside all brackets, arrows counting as nothing; for a stop of one byte, no bracket,
that stop outside all groups; for any other search the character that is looked for. A token is taken if and only if
it stands at the front. -/
theorem cuts_at_first_place (text : String) :
    CutsFirst (Cursor.typeDepth 0) (Cursor.endsType · = true) "" .spanEnd text (typeEndOffset? text.toByteArray 0 0)
        (Cursor.takeTypeSpan text.toList) (takeTypeSpan text) ∧
      (∀ stop : UInt8, stop < 0x80 → opensGroup stop = false → closesGroup stop = false →
        CutsFirst (Cursor.groupDepth 0) (· = Char.ofUInt8 stop) (String.singleton (Char.ofUInt8 stop))
          (.token (String.singleton (Char.ofUInt8 stop))) text (terminatedOffset? stop text.toByteArray 0 0)
          (Cursor.takeTerminated (Char.ofUInt8 stop) text.toList) (takeTerminated stop text)) ∧
      (∀ stop : Char,
        CutsFirst (fun _ => 0) (· = stop) "" (.token (String.singleton stop)) text
          (untilOffset? stop text.toByteArray 0) (Cursor.takeUntil stop text.toList) (takeUntil stop text)) ∧
      ∀ token : String, TakesToken token text :=
  ⟨takeTypeSpan_cutsFirst text, fun _ ascii opens closes => takeTerminated_cutsFirst ascii opens closes text,
    fun stop => takeUntil_cutsFirst stop text, fun token => takesToken token text⟩

/-- A stop is found behind characters of two bytes, and not inside a group. -/
theorem cuts_at_first_place_nested :
    (0x3b : UInt8) < 0x80 ∧ opensGroup 0x3b = false ∧ closesGroup 0x3b = false ∧
      takeTerminated 0x3b "\x7b é: x; b: ü \x7d; // ö" = .done "\x7b é: x; b: ü \x7d" " // ö" := by
  refine ⟨by decide, by decide, by decide, ?_⟩
  rw [((cuts_at_first_place _).2.1 0x3b (by decide) (by decide) (by decide)).charwise_eq]
  decide

end TypingsIndex.ByteCursor
