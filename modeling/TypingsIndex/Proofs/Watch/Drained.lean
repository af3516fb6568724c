import TypingsIndex.Proofs.Catalog.Membership
import TypingsIndex.Proofs.Watch.Marks
import TypingsIndex.Watch.Drain

/-!
# What reading the pending files comes to

Reading one pending file ends in one of nine ways (`FileDrained`), which say all that the drain of a file
can do to a session. What all of them keep, a whole drain keeps (`drain_invariant`), so that no other proof
about drains has to follow the readings and the tests on them again.
-/

set_option autoImplicit false

namespace TypingsIndex.Session

/-- The session with a file unmarked. -/
def settled (session : Session) (file : Path) : Session :=
  { session with pending := session.pending.erase file }

/-- The outcomes of reading one pending file. -/
inductive FileDrained (world : Surroundings) (file : Path) (before : Session) : Session → Prop where
  /-- The module of the file was made from this very content. -/
  | known {text : String} (reading : (world.read file).result = .ok text)
      (same : before.hasDigest file (Digest.ofText text) = true) :
      FileDrained world file before (before.settled file)
  | malformed {text : String} {failure : Failure} (reading : (world.read file).result = .ok text)
      (refused : functionsOf file text = .error failure) :
      FileDrained world file before (before.settled file)
  | parsed {text : String} {functions : List Signature} {catalog : Catalog}
      (reading : (world.read file).result = .ok text) (accepted : functionsOf file text = .ok functions)
      (taken : (before.settled file).catalogWith? file functions text = some catalog) :
      FileDrained world file before { before.settled file with catalog := catalog }
  /-- The file has no module and, not being below the root, gets none. -/
  | foreign {text : String} {functions : List Signature}
      (reading : (world.read file).result = .ok text) (accepted : functionsOf file text = .ok functions)
      (refused : (before.settled file).catalogWith? file functions text = none) :
      FileDrained world file before (before.settled file)
  | vanished {fault : ReadFault} {entry : Module} {catalog : Catalog}
      (reading : (world.read file).result = .error fault) (verdict : fault.verdict = .missing)
      (taken : before.catalog.erase? file = some (entry, catalog)) :
      FileDrained world file before { before.settled file with catalog := catalog }
  /-- The file is missing and has no module. -/
  | absent {fault : ReadFault} (reading : (world.read file).result = .error fault)
      (verdict : fault.verdict = .missing) (unknown : before.catalog.erase? file = none) :
      FileDrained world file before (before.settled file)
  | undecodable {fault : ReadFault} (reading : (world.read file).result = .error fault)
      (verdict : fault.verdict = .undecodable) :
      FileDrained world file before (before.settled file)
  | retried {fault : ReadFault} (reading : (world.read file).result = .error fault)
      (verdict : fault.verdict = .transient)
      (patient : before.timing.exhausted (((before.pending.countFailure file).failures? file).getD 0)
        = false) :
      FileDrained world file before { before with pending := before.pending.countFailure file }
  | exhausted {fault : ReadFault} (reading : (world.read file).result = .error fault)
      (verdict : fault.verdict = .transient)
      (impatient : before.timing.exhausted (((before.pending.countFailure file).failures? file).getD 0)
        = true) :
      FileDrained world file before (before.settled file)

section

variable (world : Surroundings) (draining : Draining) (file : Path)

/-- Taking in content is one of the outcomes that begin with content. -/
theorem absorb_drained {text : String} (reading : (world.read file).result = .ok text) :
    FileDrained world file draining.session
      (absorb (settle draining file) file text).value.session := by
  unfold absorb
  split
  · next hsame => exact .known reading hsame
  · cases hfunctions : functionsOf file text with
    | error failure => exact .malformed reading hfunctions
    | ok functions =>
      cases htaken : (settle draining file).session.catalogWith? file functions text with
      | none =>
        simp only [htaken]
        exact .foreign reading hfunctions htaken
      | some catalog =>
        simp only [htaken]
        exact .parsed reading hfunctions htaken

/-- Taking note that a file is gone is one of the outcomes that begin with a missing file. -/
theorem forget_drained {fault : ReadFault} (reading : (world.read file).result = .error fault)
    (verdict : fault.verdict = .missing) :
    FileDrained world file draining.session (forget (settle draining file) file).session := by
  unfold forget
  cases htaken : draining.session.catalog.erase? file with
  | none =>
    have hsame : (settle draining file).session.catalog.erase? file = none := htaken
    rw [hsame]
    exact .absent reading verdict htaken
  | some taken =>
    have hsame : (settle draining file).session.catalog.erase? file = some taken := htaken
    rw [hsame]
    exact .vanished reading verdict htaken

/-- Counting a failed read is one of the outcomes that begin with a failure that may pass. -/
theorem postpone_drained {fault : ReadFault} (reading : (world.read file).result = .error fault)
    (verdict : fault.verdict = .transient) :
    FileDrained world file draining.session (postpone draining file).value.session := by
  simp only [postpone]
  split
  · next hexhausted => exact .exhausted reading verdict hexhausted
  · next hpatient => exact .retried reading verdict (Bool.not_eq_true _ ▸ hpatient)

/-- Reading a pending file has one of the outcomes. -/
theorem drainFile_drained :
    FileDrained world file draining.session (drainFile world draining file).value.session := by
  unfold drainFile
  rw [Turn.value_bind]
  cases reading : (world.read file).result with
  | ok text => exact absorb_drained world draining file reading
  | error fault =>
    cases verdict : fault.verdict with
    | missing =>
      simp only [verdict]
      exact forget_drained world draining file reading verdict
    | undecodable =>
      simp only [verdict]
      exact .undecodable reading verdict
    | transient =>
      simp only [verdict]
      exact postpone_drained world draining file reading verdict

end

/-! ## What the outcomes have in common -/

section

variable {session : Session} {file : Path} {functions : List Signature} {content : String}
  {catalog : Catalog}

/-- A digest is known for a file if the module of the file has it. -/
theorem hasDigest_iff (consistent : session.catalog.Consistent) {digest : Digest} :
    session.hasDigest file digest = true ↔
      ∃ entry ∈ session.catalog.modules, entry.file.components = file.components
        ∧ entry.digest = some digest := by
  unfold hasDigest
  rw [Option.any_eq_true]
  simp only [Catalog.find?_eq_some_iff consistent, decide_eq_true_eq, and_assoc]

/-- Functions of a file go into one module of the file. The others stay. -/
theorem mem_catalogWith? (consistent : session.catalog.Consistent)
    (h : session.catalogWith? file functions content = some catalog) :
    ∃ new : Module, new.file.components = file.components ∧ new.functions = functions
      ∧ new.digest = some (Digest.ofText content)
      ∧ (new.file = file ∨ ∃ old ∈ session.catalog.modules, old.file = new.file)
      ∧ ∀ entry, entry ∈ catalog.modules ↔
        entry = new ∨ (entry ∈ session.catalog.modules ∧ entry.file.components ≠ file.components) := by
  unfold catalogWith? at h
  split at h
  · next replaced hreplaced =>
    obtain rfl := Option.some.inj h
    obtain ⟨i, hposition, -⟩ := Option.map_eq_some_iff.mp hreplaced
    have hknown : session.catalog.contains file = true := by
      unfold Catalog.contains
      rw [hposition]
      rfl
    obtain ⟨old, hold, hsame⟩ := (Catalog.contains_iff consistent).mp hknown
    refine ⟨{ old with functions := functions, digest := some (Digest.ofText content) }, hsame, rfl,
      rfl, .inr ⟨old, hold, rfl⟩, fun entry => ?_⟩
    rw [Catalog.mem_replaceFunctions? consistent hreplaced, or_comm]
    refine or_congr_left ⟨?_, fun heq => ⟨old, hold, hsame, heq⟩⟩
    rintro ⟨other, hother, hotherSame, rfl⟩
    have hfirst := (Catalog.find?_eq_some_iff consistent).mpr ⟨hold, hsame⟩
    have hsecond := (Catalog.find?_eq_some_iff consistent).mpr ⟨hother, hotherSame⟩
    rw [Option.some.inj (hfirst.symm.trans hsecond)]
  · obtain ⟨fresh, hfresh, rfl⟩ := Option.map_eq_some_iff.mp h
    obtain ⟨names, -, rfl⟩ := Option.map_eq_some_iff.mp hfresh
    exact ⟨_, rfl, rfl, rfl, .inl rfl, fun entry => Catalog.mem_insert consistent⟩

/-- A catalog with the functions of a file is as consistent as that without them. -/
theorem catalogWith?_consistent (consistent : session.catalog.Consistent)
    (h : session.catalogWith? file functions content = some catalog) : catalog.Consistent := by
  unfold catalogWith? at h
  split at h
  · next replaced hreplaced =>
    obtain rfl := Option.some.inj h
    exact Catalog.replaceFunctions?_consistent consistent hreplaced
  · obtain ⟨fresh, -, rfl⟩ := Option.map_eq_some_iff.mp h
    exact Catalog.insert_consistent consistent _

/-- Functions go into a module that was there or that a file below the root can have. -/
theorem catalogWith?_named (consistent : session.catalog.Consistent)
    (h : session.catalogWith? file functions content = some catalog) :
    (∃ old ∈ session.catalog.modules, old.file.components = file.components)
      ∨ ∃ fresh, Module.empty? file session.root = some fresh := by
  unfold catalogWith? at h
  split at h
  · next replaced hreplaced =>
    obtain ⟨i, hposition, -⟩ := Option.map_eq_some_iff.mp hreplaced
    refine .inl ((Catalog.contains_iff consistent).mp ?_)
    unfold Catalog.contains
    rw [hposition]
    rfl
  · obtain ⟨fresh, hfresh, -⟩ := Option.map_eq_some_iff.mp h
    exact .inr ⟨fresh, hfresh⟩

/-- Functions that go into no module are those of a file without one. -/
theorem unknown_of_catalogWith?_eq_none (consistent : session.catalog.Consistent)
    (h : session.catalogWith? file functions content = none) :
    ∀ entry ∈ session.catalog.modules, entry.file.components ≠ file.components := by
  unfold catalogWith? at h
  split at h
  · cases h
  · next hrefused => exact Catalog.replaceFunctions?_eq_none consistent hrefused

/-- Only a file that can have no module below the root gets none. -/
theorem catalogWith?_eq_none (h : session.catalogWith? file functions content = none) :
    Module.empty? file session.root = none := by
  unfold catalogWith? at h
  split at h
  · cases h
  · exact Option.map_eq_none_iff.mp h

end

namespace FileDrained

variable {world : Surroundings} {file : Path} {before after : Session}

/-- Only the pending files and the catalog change. -/
theorem frame (h : FileDrained world file before after) :
    ∃ pending catalog, after = { before with pending := pending, catalog := catalog } := by
  cases h <;> exact ⟨_, _, rfl⟩

/-- Nothing becomes pending. -/
theorem paths_subset (h : FileDrained world file before after) :
    ∀ path ∈ after.pending.paths, path ∈ before.pending.paths := by
  have herase := before.pending.erase_subset file
  cases h with
  | retried => exact fun path hpath => Pending.paths_countFailure ▸ hpath
  | _ => exact herase

/-- Other files stay pending. -/
theorem contains_other (h : FileDrained world file before after) {path : Path}
    (other : path.components ≠ file.components) (pending : before.pending.contains path = true) :
    after.pending.contains path = true := by
  have herase := Pending.contains_erase other pending
  cases h with
  | retried => exact Pending.contains_countFailure.trans pending
  | _ => exact herase

/-- The catalog stays consistent. -/
theorem consistent (h : FileDrained world file before after) (before_consistent : before.catalog.Consistent) :
    after.catalog.Consistent := by
  cases h with
  | parsed reading accepted taken => exact catalogWith?_consistent before_consistent taken
  | vanished reading verdict taken => exact Catalog.erase?_consistent before_consistent taken
  | _ => exact before_consistent

/-- The modules of other files stay. -/
theorem mem_other (h : FileDrained world file before after) (consistent : before.catalog.Consistent)
    {entry : Module} (other : entry.file.components ≠ file.components) :
    entry ∈ after.catalog.modules ↔ entry ∈ before.catalog.modules := by
  cases h with
  | parsed reading accepted taken =>
    obtain ⟨new, hnew, -, -, -, hmem⟩ := mem_catalogWith? consistent taken
    rw [hmem]
    constructor
    · rintro (rfl | ⟨hentry, -⟩)
      · exact absurd hnew other
      · exact hentry
    · exact fun hentry => .inr ⟨hentry, other⟩
  | vanished reading verdict taken =>
    rw [Catalog.mem_erase? consistent taken]
    exact ⟨fun h => h.1, fun h => ⟨h, other⟩⟩
  | _ => rfl

end FileDrained

/-! ## A whole drain -/

/-- Publishing leaves a session as it is. -/
@[simp] theorem publish_value (session : Session) : session.publish.value = session := rfl

section

variable {P : Session → Prop} {world : Surroundings} {session : Session}

/-- What the reading of each file keeps, the readings of several files keep. -/
theorem foldlM_drainFile_invariant {files : List Path} {draining : Draining}
    (step : ∀ file ∈ files, ∀ before after, P before → FileDrained world file before after → P after)
    (start : P draining.session) : P (files.foldlM (drainFile world) draining).value.session := by
  induction files generalizing draining with
  | nil => exact start
  | cons file rest ih =>
    have hfirst := step file List.mem_cons_self _ _ start (drainFile_drained world draining file)
    have hrest := ih (fun other hother => step other (List.mem_cons_of_mem file hother)) hfirst
    rw [List.foldlM_cons, Turn.value_bind]
    exact hrest

/-- What the reading of each pending file keeps is true of the session that a drain ends with, up to
the time of the next try. -/
theorem drain_invariant (now : Nat)
    (step : ∀ file ∈ session.pending.paths, ∀ before after, P before →
      FileDrained world file before after → P after)
    (start : P { session with drainDue := none }) :
    ∃ last, P last ∧ (session.drain world now).value = last.scheduleRetry now := by
  let begun : Draining := ⟨{ session with drainDue := none }, false⟩
  have hall : P (session.pending.paths.foldlM (drainFile world) begun).value.session :=
    foldlM_drainFile_invariant step start
  refine ⟨_, hall, ?_⟩
  unfold drain
  rw [Turn.value_bind]
  dsimp only
  split <;> rfl

end

end TypingsIndex.Session
