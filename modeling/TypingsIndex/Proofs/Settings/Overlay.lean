import TypingsIndex.Proofs.Json.Denoted
import TypingsIndex.Proofs.Settings.Schema

/-!
# Settings that are given in part

A settings text need not give all of the settings. What it gives is laid over the defaults (`overlay`): a field has the
value that stands under its key, and where the key is missing the one that it has in the default settings, each section
for itself. So the ways to call a function that a text leaves out are those of its own section, whether the section is
there or not, although modules and run time have the same keys and different defaults.

The reader takes in one member after the other as they come. That the order makes no difference is the induction here:
the first member is taken in and its key does not come again, so the overlay of what is left on the result is the
overlay of all.
-/

set_option autoImplicit false

namespace TypingsIndex

namespace Json

variable {τ : Type} {read : Json → Option τ} {members : List (String × Json)} {key other : String} {value : Json}
  {held : τ}

/-- What members give for a key, or what holds if they give nothing. -/
def given (read : Json → Option τ) (members : List (String × Json)) (key : String) (held : τ) : τ :=
  ((members.lookup key).bind read).getD held

/-- What holds stays if the key is missing. -/
theorem given_missing (h : members.lookup key = none) : given read members key held = held := by
  unfold given
  rw [h]
  rfl

/-- The first member gives a value for its own key. -/
theorem given_cons_self {x : τ} (h : read value = some x) : given read ((key, value) :: members) key held = x := by
  unfold given
  rw [List.lookup_cons, beq_self_eq_true, Option.bind_some, h, Option.getD_some]

/-- The first member gives nothing for another key. -/
theorem given_cons_of_ne (h : other ≠ key) :
    given read ((key, value) :: members) other held = given read members other held := by
  unfold given
  rw [List.lookup_cons, beq_eq_false_iff_ne.mpr h]

end Json

open Json (given)

/-! ## Given over what holds -/

/-- Output files where they are given, and the held ones where they are not. -/
def OutputFiles.overlay (held : OutputFiles) (members : List (String × Json)) : OutputFiles where
  classFile := given Json.text? members "class" held.classFile
  interfaceFile := given Json.text? members "interface" held.interfaceFile

/-- Ways to call a function where they are given, and the held ones where they are not. -/
def CallStyles.overlay (held : CallStyles) (members : List (String × Json)) : CallStyles where
  invoke := given Json.flag? members "invoke enabled" held.invoke
  trySync := given Json.flag? members "trysync enabled" held.trySync
  async := given Json.flag? members "async enabled" held.async

/-- Rules for promises where they are given, and the held ones where they are not. -/
def PromiseRules.overlay (held : PromiseRules) (members : List (String × Json)) : PromiseRules where
  onlyAsync := given Json.flag? members "only async enabled" held.onlyAsync
  appendAsync := given Json.flag? members "append Async" held.appendAsync

/-- The naming of methods that call a function where it is given, and the held one where it is not. -/
def FunctionNaming.overlay (held : FunctionNaming) (members : List (String × Json)) : FunctionNaming where
  pattern := given Json.text? members "pattern" held.pattern
  functionTransform := given Json.transform? members "function transform" held.functionTransform
  moduleTransform := given Json.transform? members "module transform" held.moduleTransform
  actionTransform := given Json.transform? members "action transform" held.actionTransform

/-- The naming of methods that load a module where it is given, and the held one where it is not. -/
def PreloadNaming.overlay (held : PreloadNaming) (members : List (String × Json)) : PreloadNaming where
  pattern := given Json.text? members "pattern" held.pattern
  moduleTransform := given Json.transform? members "module transform" held.moduleTransform

namespace Settings

/-- Settings where they are given, and the held ones where they are not. A type map and a list of usings are given as a
whole. -/
def overlay (held : Settings) (members : List (String × Json)) : Settings where
  declarationPath := given Json.text? members "declaration path" held.declarationPath
  output := held.output.overlay (given Json.members? members "file output" [])
  moduleCalls := held.moduleCalls.overlay (given Json.members? members "module" [])
  runtimeCalls := held.runtimeCalls.overlay (given Json.members? members "js runtime" [])
  promises := held.promises.overlay (given Json.members? members "promise function" [])
  functionNaming := held.functionNaming.overlay (given Json.members? members "function name pattern" [])
  preloadNaming := held.preloadNaming.overlay (given Json.members? members "preload name pattern" [])
  preloadAllName := given Json.text? members "preload all modules name" held.preloadAllName
  usings := given Json.texts? members "using statements" held.usings
  typeMap := given Json.typeMap? members "type map" held.typeMap

end Settings

open Settings (Leaf Kind Fits)

/-! ## Reading values -/

section

variable {value : Json}

/-- Only a string has a text. -/
theorem Json.text?_eq_some {text : String} (h : value.text? = some text) : value = .string text := by
  cases value <;> cases h
  rfl

/-- Only a truth value has a flag. -/
theorem Json.flag?_eq_some {flag : Bool} (h : value.flag? = some flag) : value = .bool flag := by
  cases value <;> cases h
  rfl

/-- Only an object has members. -/
theorem Json.members?_eq_some {members : List (String × Json)} (h : value.members? = some members) :
    value = .object members := by
  cases value <;> cases h
  rfl

namespace Codec

/-- A text is read from a string, whatever held before. -/
theorem text_read {text : String} (h : value.text? = some text) (held : String) :
    Codec.text.read (.ofJson value) held = .ok (text, []) := by
  rw [Json.text?_eq_some h]
  rfl

/-- A flag that may be missing is read from a truth value, whatever held before. -/
theorem optionalFlag_read {flag : Bool} (h : value.flag? = some flag) (held : Bool) :
    Codec.optionalFlag.read (.ofJson value) held = .ok (flag, []) := by
  rw [Json.flag?_eq_some h]
  rfl

/-- A flag is read from a truth value, whatever held before. -/
theorem flag_read {flag : Bool} (h : value.flag? = some flag) (held : Bool) :
    Codec.flag.read (.ofJson value) held = .ok (flag, []) := by
  rw [Json.flag?_eq_some h]
  rfl

/-- A transform is read from its name, whatever held before. -/
theorem transform_read {transform : NameTransform} (h : value.transform? = some transform) (held : NameTransform) :
    Codec.transform.read (.ofJson value) held = .ok (transform, []) := by
  obtain ⟨name, hname, htransform⟩ := Option.bind_eq_some_iff.mp h
  rw [Json.text?_eq_some hname]
  simp only [Codec.transform, Json.Draft.ofJson, htransform]

/-- Texts are read from items each of which has a text. -/
theorem readTexts_ofItems_of_mapM {items : List Json} {texts : List String} (h : items.mapM Json.text? = some texts) :
    readTexts (Json.Draft.ofItems items) = .ok texts := by
  induction items generalizing texts with
  | nil =>
    cases h
    rfl
  | cons item items ih =>
    rw [List.mapM_cons] at h
    obtain ⟨text, htext, hrest⟩ := Option.bind_eq_some_iff.mp h
    obtain ⟨rest, hitems, hcons⟩ := Option.bind_eq_some_iff.mp hrest
    cases hcons
    rw [Json.text?_eq_some htext, Json.Draft.ofItems, Json.Draft.ofJson, readTexts, ih hitems]
    rfl

/-- A list of texts is read from an array of strings, whatever held before. -/
theorem texts_read {texts : List String} (h : value.texts? = some texts) (held : List String) :
    Codec.texts.read (.ofJson value) held = .ok (texts, []) := by
  cases value with
  | array items =>
    simp only [Codec.texts, Json.Draft.ofJson, readTexts_ofItems_of_mapM h, Except.map]
  | _ => cases h

/-- Pairs are read from members whose values have texts. -/
theorem readPairs_ofMembers_of_mapM {members : List (String × Json)} {pairs : List (String × String)}
    (h : (members.mapM fun member => member.2.text?.map fun text => (member.1, text)) = some pairs) :
    readPairs (Json.Draft.ofMembers members) = .ok pairs := by
  induction members generalizing pairs with
  | nil =>
    cases h
    rfl
  | cons member members ih =>
    obtain ⟨key, value⟩ := member
    rw [List.mapM_cons] at h
    obtain ⟨pair, hpair, hrest⟩ := Option.bind_eq_some_iff.mp h
    obtain ⟨rest, hmembers, hcons⟩ := Option.bind_eq_some_iff.mp hrest
    obtain ⟨text, htext, rfl⟩ := Option.map_eq_some_iff.mp hpair
    cases hcons
    have hvalue : value = .string text := Json.text?_eq_some htext
    rw [hvalue, Json.Draft.ofMembers, Json.Draft.ofJson, readPairs, ih hmembers]
    rfl

/-- A type map is read from an object of strings, whatever held before. -/
theorem typeMap_read {map : TypeMap} (h : value.typeMap? = some map) (held : TypeMap) :
    Codec.typeMap.read (.ofJson value) held = .ok (map, []) := by
  obtain ⟨pairs, hpairs, rfl⟩ := Option.map_eq_some_iff.mp h
  cases value with
  | object members =>
    simp only [Codec.typeMap, Json.Draft.ofJson, readPairs_ofMembers_of_mapM hpairs, Except.map]
  | _ => cases hpairs

end Codec

end

/-! ## Reading records -/

section

variable {σ τ κ : Type} {fields : List (Field σ)} {table : List (String × κ)} {admits : κ → Json → Prop}
  {laid : σ → List (String × Json) → σ} {members : List (String × Json)}

/-- Reading a member with a key that does not come again, and then laying the others over the result, is laying all of
them over what holds. -/
structure Field.Overlays (fields : List (Field σ)) (table : List (String × κ)) (admits : κ → Json → Prop)
    (laid : σ → List (String × Json) → σ) : Prop where
  nil (held : σ) : laid held [] = held
  cons {key : String} {kind : κ} {value : Json} {rest : List (String × Json)} (known : (key, kind) ∈ table)
    (admitted : admits kind value) (missing : rest.lookup key = none) (held : σ) :
    ∃ field after, fields.find? (fun field => field.key == key) = some field
      ∧ field.read (.ofJson value) held = .ok (after, []) ∧ laid after rest = laid held ((key, value) :: rest)

/-- What the codec of a field reads is set in the record. -/
theorem Field.of_read {key : String} {codec : Codec τ} {get : σ → τ} {set : σ → τ → σ} {draft : Json.Draft} {x : τ}
    {held : σ} (h : codec.read draft (get held) = .ok (x, [])) :
    (Field.of key codec get set).read draft held = .ok (set held x, []) := by
  dsimp only [Field.of]
  rw [h]
  rfl

/-- Members that fit a table are laid over what holds one by one, in any order, and none is unknown. -/
theorem Field.readMembers_overlay (h : Field.Overlays fields table admits laid) (fits : Fits admits table members)
    {seen : List String} (fresh : ∀ member ∈ members, member.1 ∉ seen) (held : σ) :
    Field.readMembers fields seen (Json.Draft.ofMembers members) held = .ok (laid held members, []) := by
  -- on the members still to come: each one read becomes a key that was seen, and what holds from then on
  induction members generalizing seen held with
  | nil =>
    rw [h.nil]
    rfl
  | cons member members ih =>
    obtain ⟨key, value⟩ := member
    obtain ⟨hnew, honce⟩ := List.nodup_cons.mp fits.once
    obtain ⟨⟨kind, hknown, hadmitted⟩, hothers⟩ := List.forall_mem_cons.mp fits.known
    obtain ⟨hkey, hfresh⟩ := List.forall_mem_cons.mp fresh
    have hmissing : members.lookup key = none := by
      rw [List.lookup_eq_none_iff]
      intro other hother
      rw [bne_iff_ne]
      rintro rfl
      exact hnew (List.mem_map.mpr ⟨other, hother, rfl⟩)
    obtain ⟨field, after, hfound, hread, hover⟩ := h.cons hknown hadmitted hmissing held
    have hseen : seen.contains key = false := by
      rw [← Bool.not_eq_true, List.contains_iff_mem]
      exact hkey
    have hstill : ∀ other ∈ members, other.1 ∉ key :: seen := by
      intro other hother hmem
      rcases List.mem_cons.mp hmem with hsame | hold
      · exact hnew (List.mem_map.mpr ⟨other, hother, hsame⟩)
      · exact hfresh other hother hold
    have hrest := ih ⟨honce, hothers⟩ hstill after
    rw [Json.Draft.ofMembers, Field.readMembers, hfound]
    dsimp only
    rw [hseen, if_neg Bool.false_ne_true, hread]
    dsimp only [bind, Except.bind]
    rw [hrest, hover]
    rfl

/-- An object with fitting members is read as these laid over what holds, and nothing changes if there are none. -/
structure Codec.Overlays (codec : Codec σ) (table : List (String × κ)) (admits : κ → Json → Prop)
    (laid : σ → List (String × Json) → σ) : Prop where
  nil (held : σ) : laid held [] = held
  read {members : List (String × Json)} (fits : Fits admits table members) (held : σ) :
    codec.read (.ofJson (.object members)) held = .ok (laid held members, [])

/-- A record is read so if its fields are. -/
theorem Codec.Overlays.record {complete : Bool} (h : Field.Overlays fields table admits laid) :
    (Codec.record fields complete).Overlays table admits laid where
  nil := h.nil
  read fits held := Field.readMembers_overlay h fits (fun _ _ => List.not_mem_nil) held

end

/-! ## Sections -/

/-- The section of output files is read key by key over what holds. -/
theorem OutputFiles.codec_overlays :
    OutputFiles.codec.Overlays Settings.outputKeys Leaf.Admits OutputFiles.overlay := by
  refine .record ⟨fun _ => rfl, fun known admitted missing held => ?_⟩
  simp only [Settings.outputKeys, List.mem_cons, List.not_mem_nil, or_false, Prod.mk.injEq] at known
  rcases known with ⟨rfl, rfl⟩ | ⟨rfl, rfl⟩
  all_goals
    obtain ⟨text, htext⟩ := admitted
    refine ⟨_, _, rfl, Field.of_read (Codec.text_read htext _), ?_⟩
    simp [OutputFiles.overlay, Json.given_cons_self htext, Json.given_missing missing, Json.given_cons_of_ne]

/-- A section of ways to call a function is read key by key over what holds. -/
theorem CallStyles.codec_overlays : CallStyles.codec.Overlays Settings.callKeys Leaf.Admits CallStyles.overlay := by
  refine .record ⟨fun _ => rfl, fun known admitted missing held => ?_⟩
  simp only [Settings.callKeys, List.mem_cons, List.not_mem_nil, or_false, Prod.mk.injEq] at known
  rcases known with ⟨rfl, rfl⟩ | ⟨rfl, rfl⟩ | ⟨rfl, rfl⟩
  all_goals
    obtain ⟨flag, hflag⟩ := admitted
    refine ⟨_, _, rfl, Field.of_read (Codec.optionalFlag_read hflag _), ?_⟩
    simp [CallStyles.overlay, Json.given_cons_self hflag, Json.given_missing missing, Json.given_cons_of_ne]

/-- The section of rules for promises is read key by key over what holds. -/
theorem PromiseRules.codec_overlays :
    PromiseRules.codec.Overlays Settings.promiseKeys Leaf.Admits PromiseRules.overlay := by
  refine .record ⟨fun _ => rfl, fun known admitted missing held => ?_⟩
  simp only [Settings.promiseKeys, List.mem_cons, List.not_mem_nil, or_false, Prod.mk.injEq] at known
  rcases known with ⟨rfl, rfl⟩ | ⟨rfl, rfl⟩
  all_goals
    obtain ⟨flag, hflag⟩ := admitted
    refine ⟨_, _, rfl, Field.of_read (Codec.flag_read hflag _), ?_⟩
    simp [PromiseRules.overlay, Json.given_cons_self hflag, Json.given_missing missing, Json.given_cons_of_ne]

/-- The naming of methods that call a function is read key by key over what holds. -/
theorem FunctionNaming.codec_overlays :
    FunctionNaming.codec.Overlays Settings.functionKeys Leaf.Admits FunctionNaming.overlay := by
  refine .record ⟨fun _ => rfl, fun known admitted missing held => ?_⟩
  simp only [Settings.functionKeys, List.mem_cons, List.not_mem_nil, or_false, Prod.mk.injEq] at known
  rcases known with ⟨rfl, rfl⟩ | ⟨rfl, rfl⟩ | ⟨rfl, rfl⟩ | ⟨rfl, rfl⟩
  · obtain ⟨text, htext, -⟩ := admitted
    refine ⟨_, _, rfl, Field.of_read (Codec.text_read htext _), ?_⟩
    simp [FunctionNaming.overlay, Json.given_cons_self htext, Json.given_missing missing, Json.given_cons_of_ne]
  all_goals
    obtain ⟨transform, htransform⟩ := admitted
    refine ⟨_, _, rfl, Field.of_read (Codec.transform_read htransform _), ?_⟩
    simp [FunctionNaming.overlay, Json.given_cons_self htransform, Json.given_missing missing, Json.given_cons_of_ne]

/-- The naming of methods that load a module is read key by key over what holds. -/
theorem PreloadNaming.codec_overlays :
    PreloadNaming.codec.Overlays Settings.preloadKeys Leaf.Admits PreloadNaming.overlay := by
  refine .record ⟨fun _ => rfl, fun known admitted missing held => ?_⟩
  simp only [Settings.preloadKeys, List.mem_cons, List.not_mem_nil, or_false, Prod.mk.injEq] at known
  rcases known with ⟨rfl, rfl⟩ | ⟨rfl, rfl⟩
  · obtain ⟨text, htext, -⟩ := admitted
    refine ⟨_, _, rfl, Field.of_read (Codec.text_read htext _), ?_⟩
    simp [PreloadNaming.overlay, Json.given_cons_self htext, Json.given_missing missing, Json.given_cons_of_ne]
  · obtain ⟨transform, htransform⟩ := admitted
    refine ⟨_, _, rfl, Field.of_read (Codec.transform_read htransform _), ?_⟩
    simp [PreloadNaming.overlay, Json.given_cons_self htransform, Json.given_missing missing, Json.given_cons_of_ne]

/-- An object under the key of a section is read as its members laid over what holds. -/
theorem Codec.Overlays.read_section {τ : Type} {codec : Codec τ} {laid : τ → List (String × Json) → τ}
    {keys : List (String × Leaf)} (h : codec.Overlays keys Leaf.Admits laid) {value : Json}
    (admitted : (Kind.record keys).Admits value) :
    ∃ members, value.members? = some members
      ∧ ∀ held, codec.read (.ofJson value) held = .ok (laid held members, []) := by
  obtain ⟨members, hmembers, hfits⟩ := admitted
  refine ⟨members, hmembers, fun held => ?_⟩
  rw [Json.members?_eq_some hmembers]
  exact h.read hfits held

namespace Settings

variable {members : List (String × Json)}

/-- Settings are read key by key over what holds, and section by section where a key has a section. -/
theorem codec_overlays : codec.Overlays schema Kind.Admits overlay := by
  refine .record ⟨fun _ => rfl, fun known admitted missing held => ?_⟩
  simp only [schema, List.mem_cons, List.not_mem_nil, or_false, Prod.mk.injEq] at known
  rcases known with ⟨rfl, rfl⟩ | ⟨rfl, rfl⟩ | ⟨rfl, rfl⟩ | ⟨rfl, rfl⟩ | ⟨rfl, rfl⟩ | ⟨rfl, rfl⟩ | ⟨rfl, rfl⟩
    | ⟨rfl, rfl⟩ | ⟨rfl, rfl⟩ | ⟨rfl, rfl⟩
  · obtain ⟨text, htext⟩ := admitted
    refine ⟨_, _, rfl, Field.of_read (Codec.text_read htext _), ?_⟩
    simp [overlay, Json.given_cons_self htext, Json.given_missing missing, Json.given_cons_of_ne]
  · obtain ⟨inner, hinner, hread⟩ := OutputFiles.codec_overlays.read_section admitted
    refine ⟨_, _, rfl, Field.of_read (hread _), ?_⟩
    simp [overlay, OutputFiles.codec_overlays.nil, Json.given_cons_self hinner, Json.given_missing missing,
      Json.given_cons_of_ne]
  · obtain ⟨inner, hinner, hread⟩ := CallStyles.codec_overlays.read_section admitted
    refine ⟨_, _, rfl, Field.of_read (hread _), ?_⟩
    simp [overlay, CallStyles.codec_overlays.nil, Json.given_cons_self hinner, Json.given_missing missing,
      Json.given_cons_of_ne]
  · obtain ⟨inner, hinner, hread⟩ := CallStyles.codec_overlays.read_section admitted
    refine ⟨_, _, rfl, Field.of_read (hread _), ?_⟩
    simp [overlay, CallStyles.codec_overlays.nil, Json.given_cons_self hinner, Json.given_missing missing,
      Json.given_cons_of_ne]
  · obtain ⟨inner, hinner, hread⟩ := PromiseRules.codec_overlays.read_section admitted
    refine ⟨_, _, rfl, Field.of_read (hread _), ?_⟩
    simp [overlay, PromiseRules.codec_overlays.nil, Json.given_cons_self hinner, Json.given_missing missing,
      Json.given_cons_of_ne]
  · obtain ⟨inner, hinner, hread⟩ := FunctionNaming.codec_overlays.read_section admitted
    refine ⟨_, _, rfl, Field.of_read (hread _), ?_⟩
    simp [overlay, FunctionNaming.codec_overlays.nil, Json.given_cons_self hinner, Json.given_missing missing,
      Json.given_cons_of_ne]
  · obtain ⟨inner, hinner, hread⟩ := PreloadNaming.codec_overlays.read_section admitted
    refine ⟨_, _, rfl, Field.of_read (hread _), ?_⟩
    simp [overlay, PreloadNaming.codec_overlays.nil, Json.given_cons_self hinner, Json.given_missing missing,
      Json.given_cons_of_ne]
  · obtain ⟨text, htext⟩ := admitted
    refine ⟨_, _, rfl, Field.of_read (Codec.text_read htext _), ?_⟩
    simp [overlay, Json.given_cons_self htext, Json.given_missing missing, Json.given_cons_of_ne]
  · obtain ⟨texts, htexts⟩ := admitted
    refine ⟨_, _, rfl, Field.of_read (Codec.texts_read htexts _), ?_⟩
    simp [overlay, Json.given_cons_self htexts, Json.given_missing missing, Json.given_cons_of_ne]
  · obtain ⟨map, hmap⟩ := admitted
    refine ⟨_, _, rfl, Field.of_read (Codec.typeMap_read hmap _), ?_⟩
    simp [overlay, Json.given_cons_self hmap, Json.given_missing missing, Json.given_cons_of_ne]

/-! ## Texts -/

section

variable {τ κ : Type} {table : List (String × κ)} {admits : κ → Json → Prop} {read : Json → Option τ} {key : String}
  {held : τ}

/-- What fitting members give is as their key asks for, unless they give nothing and what holds is so anyway. -/
theorem Fits.given_holds {P : τ → Prop} (fits : Fits admits table members) (holds : P held)
    (h : ∀ kind value x, (key, kind) ∈ table → admits kind value → read value = some x → P x) :
    P (given read members key held) := by
  unfold given
  cases hfound : members.lookup key with
  | none => exact holds
  | some value =>
    obtain ⟨before, after, hmembers, -⟩ := List.lookup_eq_some_iff.mp hfound
    have hmem : (key, value) ∈ members := by
      rw [hmembers]
      exact List.mem_append_right before List.mem_cons_self
    obtain ⟨kind, hknown, hadmitted⟩ := fits.known (key, value) hmem
    rw [Option.bind_some]
    cases hread : read value with
    | none => exact holds
    | some x => exact h kind value x hknown hadmitted hread

end

/-- No members fit any table. -/
theorem Fits.nil {κ : Type} (admits : κ → Json → Prop) (table : List (String × κ)) : Fits admits table [] where
  once := List.nodup_nil
  known := nofun

/-- The members of a section fit its keys, also if it is missing. -/
theorem Fits.section_fits (fits : Fits Kind.Admits schema members) {key : String} {keys : List (String × Leaf)}
    (only : ∀ kind, (key, kind) ∈ schema → kind = .record keys) :
    Fits Leaf.Admits keys (given Json.members? members key []) := by
  refine fits.given_holds (Fits.nil _ _) fun kind value inner hknown hadmitted hinner => ?_
  rw [only kind hknown] at hadmitted
  obtain ⟨found, hfound, hfits⟩ := hadmitted
  rw [hfound] at hinner
  cases hinner
  exact hfits

/-- A pattern is put together from the placeholders of its section, whether it is given or held. -/
theorem Fits.pattern_madeOf {keys : List (String × Leaf)} (fits : Fits Leaf.Admits keys members)
    {placeholders : List String} (only : ∀ leaf, ("pattern", leaf) ∈ keys → leaf = .pattern placeholders)
    {held : String} (holds : NamePattern.MadeOf placeholders held.toList) :
    NamePattern.MadeOf placeholders (given Json.text? members "pattern" held).toList := by
  refine fits.given_holds (P := fun pattern : String => NamePattern.MadeOf placeholders pattern.toList) holds
    fun leaf value pattern hknown hadmitted hread => ?_
  rw [only leaf hknown] at hadmitted
  obtain ⟨text, htext, hmade⟩ := hadmitted
  rw [htext] at hread
  cases hread
  exact hmade

/-- Patterns that are given fit their fields, and so do the default ones. -/
theorem Fits.patterned (fits : Fits Kind.Admits schema members) : (default.overlay members).Patterned where
  functions := by
    have hfits : Fits Leaf.Admits functionKeys (given Json.members? members "function name pattern" []) :=
      fits.section_fits (by simp [schema])
    apply hfits.pattern_madeOf
    · simp [functionKeys]
    · exact NamePattern.functionPlaceholders_toldApart.scan_iff.mp (by decide)
  preloads := by
    have hfits : Fits Leaf.Admits preloadKeys (given Json.members? members "preload name pattern" []) :=
      fits.section_fits (by simp [schema])
    apply hfits.pattern_madeOf
    · simp [preloadKeys]
    · exact NamePattern.preloadPlaceholders_toldApart.scan_iff.mp (by decide)

/-- A text that denotes an object with any of the known keys, in any order and with values of their kinds, is loaded as
what it gives laid over the default settings, with a normal declaration path and nothing to warn of. -/
theorem load_overlay {text : String} (denotes : Json.Denotes text.toList (.object members))
    (fits : Fits Kind.Admits schema members) (file : Path) :
    load text file = .ok ((default.overlay members).normalize, []) := by
  obtain ⟨rest, hread, hended⟩ := denotes
  have hreads : Reads text.toList (default.overlay members) [] := by
    constructor
    · rw [hread]
      exact codec_overlays.read fits default
    · rw [hread]
      exact hended
  rw [hreads.load_of_patterned fits.patterned file]
  rfl

/-- Members that come in another order than they are written in. Both ways to call a function are given in part, and
each is filled up from its own defaults. -/
theorem load_overlay_partial :
    let members : List (String × Json) := [
      ("type map", .object [("number", .string "int"), ("number", .string "float")]),
      ("js runtime", .object [("async enabled", .bool true)]),
      ("module", .object [("async enabled", .bool true)]),
      ("declaration path", .string "types\\"),
      ("function name pattern", .object [("module transform", .string "upper case"), ("pattern", .string "#module#")])]
    let text := Json.compactText (.object members)
    let settings : Settings := {
      declarationPath := "types"
      moduleCalls := { invoke := false, trySync := true, async := true }
      runtimeCalls := { invoke := false, trySync := false, async := true }
      functionNaming := { pattern := "#module#", moduleTransform := .upperCase }
      typeMap := .ofList [("number", "float")] }
    Json.Denotes text.toList (.object members) ∧ Fits Kind.Admits schema members
      ∧ load text ⟨"settings.json"⟩ = .ok (settings, []) := by
  intro members text settings
  have hcalls : Json.Plain (.object [("async enabled", .bool true)]) :=
    .object (List.forall_mem_singleton.mpr (.bool true))
  have hplain : Json.Plain (.object members) := by
    refine .object ?_
    simp only [members, List.forall_mem_cons, List.not_mem_nil, false_imp_iff, implies_true, and_true]
    refine ⟨?_, hcalls, hcalls, .string _, ?_⟩
    · exact .object (List.forall_mem_cons.mpr ⟨.string _, List.forall_mem_singleton.mpr (.string _)⟩)
    · exact .object (List.forall_mem_cons.mpr ⟨.string _, List.forall_mem_singleton.mpr (.string _)⟩)
  have hdenotes : Json.Denotes text.toList (.object members) := by
    have htext : text.toList = Json.compact (.object members) := String.toList_ofList
    rw [htext]
    exact hplain.denotes_compact
  have hasync : (Kind.record callKeys).Admits (.object [("async enabled", .bool true)]) :=
    ⟨_, rfl, by decide, List.forall_mem_singleton.mpr ⟨.flag, by decide, true, rfl⟩⟩
  have hpattern : NamePattern.MadeOf NamePattern.functionPlaceholders "#module#".toList :=
    NamePattern.functionPlaceholders_toldApart.scan_iff.mp (by decide)
  have hfits : Fits Kind.Admits schema members := by
    refine ⟨by decide, ?_⟩
    simp only [members, List.forall_mem_cons, List.not_mem_nil, false_imp_iff, implies_true, and_true]
    refine ⟨⟨.leaf .typeMap, by decide, _, rfl⟩, ⟨_, by decide, hasync⟩, ⟨_, by decide, hasync⟩,
      ⟨.leaf .text, by decide, _, rfl⟩, ⟨.record functionKeys, by decide, _, rfl, by decide, ?_⟩⟩
    simp only [List.forall_mem_cons, List.not_mem_nil, false_imp_iff, implies_true, and_true]
    exact ⟨⟨.transform, by decide, .upperCase, by decide⟩, .pattern _, by decide, "#module#", rfl, hpattern⟩
  have hsettings : (default.overlay members).normalize = settings := by decide +kernel
  rw [← hsettings]
  exact ⟨hdenotes, hfits, load_overlay hdenotes hfits ⟨"settings.json"⟩⟩

end Settings

end TypingsIndex
