import TypingsIndex.Proofs.Watch.Deadlines
import TypingsIndex.Proofs.Watch.Still.Kept

/-!
# How touches come to rest

A drain reads every pending file once. A file stays pending only if its read fails in a way that may pass, and then it
has one more failure (`drain_entries`). With a limit on failed reads, or if no file fails in such a way, a session is
therefore idle after a few polls at due times: at most one of them scans the root, and before it as after it each drain
brings every pending file closer to the limit (`Owes`).
-/

set_option autoImplicit false

namespace TypingsIndex

/-! ## One mark among others -/

namespace Pending

/-- Marks of different paths are each apart from the others. -/
theorem apart_of_distinct {done rest : List (Path × Nat)} {entry : Path × Nat}
    (distinct : ((done ++ entry :: rest).map Prod.fst).Pairwise fun a b => a.components ≠ b.components) :
    ∀ other ∈ done ++ rest, other.1.components ≠ entry.1.components := by
  rw [List.map_append, List.map_cons, List.pairwise_append, List.pairwise_cons] at distinct
  obtain ⟨-, ⟨hafter, -⟩, hbefore⟩ := distinct
  intro other hother
  rcases List.mem_append.mp hother with hdone | hrest
  · exact hbefore other.1 (List.mem_map_of_mem hdone) entry.1 List.mem_cons_self
  · exact (hafter other.1 (List.mem_map_of_mem hrest)).symm

section

variable {done rest : List (Path × Nat)} {file : Path} {failures : Nat}
  (apart : ∀ entry ∈ done ++ rest, entry.1.components ≠ file.components)

include apart

/-- No mark before or behind that of a file is another spelling of it. -/
theorem not_same_of_apart : ∀ entry ∈ done ++ rest, entry.1.same file = false := by
  intro entry hentry
  rw [← Bool.not_eq_true, Path.same_iff]
  exact apart entry hentry

/-- Taking away the mark of a file leaves those before and behind it. -/
theorem erase_of_apart : (erase ⟨done ++ (file, failures) :: rest⟩ file).entries = done ++ rest := by
  have hself : file.same file = true := Path.same_iff.mpr rfl
  have hkept : ((done ++ rest).filter fun entry => !entry.1.same file) = done ++ rest :=
    List.filter_eq_self.mpr fun entry hentry => by rw [not_same_of_apart apart entry hentry]; rfl
  unfold erase
  rw [List.filter_append] at hkept ⊢
  rw [List.filter_cons_of_neg (by simp [hself])]
  exact hkept

/-- Counting a failure of a file leaves the marks before and behind it. -/
theorem countFailure_of_apart :
    (countFailure ⟨done ++ (file, failures) :: rest⟩ file).entries = done ++ (file, failures + 1) :: rest := by
  have hself : file.same file = true := Path.same_iff.mpr rfl
  have hkept (others : List (Path × Nat)) (subset : ∀ entry ∈ others, entry ∈ done ++ rest) :
      others.map (fun entry => if entry.1.same file then (entry.1, entry.2 + 1) else entry) = others := by
    conv_rhs => rw [← List.map_id others]
    refine List.map_congr_left fun entry hentry => ?_
    rw [not_same_of_apart apart entry (subset entry hentry), if_neg Bool.false_ne_true]
    rfl
  unfold countFailure
  rw [List.map_append, List.map_cons, if_pos hself, hkept done fun _ => List.mem_append_left rest,
    hkept rest fun _ => List.mem_append_right done]

/-- The count of a file is that of its one mark. -/
theorem failures?_of_apart : failures? ⟨done ++ (file, failures) :: rest⟩ file = some failures := by
  have hself : file.same file = true := Path.same_iff.mpr rfl
  have hdone : (done.find? fun entry => entry.1.same file) = none :=
    List.find?_eq_none.mpr fun entry hentry => by
      rw [not_same_of_apart apart entry (List.mem_append_left _ hentry)]
      exact Bool.false_ne_true
  simp [failures?, hdone, hself]

end

/-- A mark is found with its count. -/
theorem failures?_of_mem {pending : Pending} (rising : pending.Rising) {entry : Path × Nat}
    (marked : entry ∈ pending.entries) : pending.failures? entry.1 = some entry.2 := by
  obtain ⟨done, rest, hentries⟩ := List.append_of_mem marked
  have hdistinct := rising.paths_distinct
  unfold paths at hdistinct
  rw [hentries] at hdistinct
  have hpending : pending = ⟨done ++ (entry.1, entry.2) :: rest⟩ := congrArg mk hentries
  rw [hpending]
  exact failures?_of_apart (apart_of_distinct hdistinct)

end Pending

namespace Session

/-- What becomes of a pending file in a drain: it has one more failure if its read fails in a way that may pass, and is
pending no longer if it does not or if it is given up. -/
def again? (world : Surroundings) (timing : Timing) (entry : Path × Nat) : Option (Path × Nat) :=
  if (world.read entry.1).isTransient && !timing.exhausted (entry.2 + 1) then some (entry.1, entry.2 + 1) else none

/-- A file stays pending in a drain exactly if its read fails in a way that may pass and patience is left. -/
theorem again?_eq_some_iff {world : Surroundings} {timing : Timing} {entry kept : Path × Nat} :
    again? world timing entry = some kept ↔ (world.read entry.1).isTransient = true
      ∧ timing.exhausted (entry.2 + 1) = false ∧ (entry.1, entry.2 + 1) = kept := by
  unfold again?
  rw [Option.ite_none_right_eq_some, Bool.and_eq_true, Bool.not_eq_true', Option.some_inj, and_assoc]

section

variable {world : Surroundings}

/-- The reading of one file concerns no other mark. -/
theorem FileDrained.entries {file : Path} {failures : Nat} {before after : Session} {done rest : List (Path × Nat)}
    (drained : FileDrained world file before after)
    (entries : before.pending.entries = done ++ (file, failures) :: rest)
    (apart : ∀ entry ∈ done ++ rest, entry.1.components ≠ file.components) :
    after.pending.entries = done ++ (again? world before.timing (file, failures)).toList ++ rest := by
  have hpending : before.pending = ⟨done ++ (file, failures) :: rest⟩ := congrArg Pending.mk entries
  have herased : (before.pending.erase file).entries = done ++ rest := by
    rw [hpending]
    exact Pending.erase_of_apart apart
  have hcounted : (before.pending.countFailure file).entries = done ++ (file, failures + 1) :: rest := by
    rw [hpending]
    exact Pending.countFailure_of_apart apart
  have hfailures : ((before.pending.countFailure file).failures? file).getD 0 = failures + 1 := by
    have hpending : before.pending.countFailure file = ⟨done ++ (file, failures + 1) :: rest⟩ :=
      congrArg Pending.mk hcounted
    rw [hpending, Pending.failures?_of_apart apart]
    rfl
  have hgone (settled : again? world before.timing (file, failures) = none) :
      (before.pending.erase file).entries =
        done ++ (again? world before.timing (file, failures)).toList ++ rest := by
    rw [herased, settled]
    simp
  -- Of all outcomes of a reading only the retry leaves the mark, with one more failure.
  cases drained with
  | retried reading verdict patient =>
    rw [hfailures] at patient
    have htransient : (world.read file).isTransient = true := by simp [Reading.isTransient, reading, verdict]
    have hagain : again? world before.timing (file, failures) = some (file, failures + 1) :=
      again?_eq_some_iff.mpr ⟨htransient, patient, rfl⟩
    rw [hagain]
    exact hcounted.trans (by simp)
  | exhausted reading verdict impatient =>
    rw [hfailures] at impatient
    exact hgone (by simp [again?, impatient])
  | vanished reading verdict taken => exact hgone (by simp [again?, Reading.isTransient, reading, verdict])
  | absent reading verdict unknown => exact hgone (by simp [again?, Reading.isTransient, reading, verdict])
  | undecodable reading verdict => exact hgone (by simp [again?, Reading.isTransient, reading, verdict])
  | known reading same => exact hgone (by simp [again?, Reading.isTransient, reading])
  | malformed reading refused => exact hgone (by simp [again?, Reading.isTransient, reading])
  | parsed reading accepted taken => exact hgone (by simp [again?, Reading.isTransient, reading])
  | foreign reading accepted refused => exact hgone (by simp [again?, Reading.isTransient, reading])

/-- The reading of files one after the other keeps or drops each mark by itself, in order. -/
theorem foldlM_entries {done rest : List (Path × Nat)} {draining : Draining}
    (entries : draining.session.pending.entries = done ++ rest)
    (apart : ((done ++ rest).map Prod.fst).Pairwise fun a b => a.components ≠ b.components) :
    ((rest.map Prod.fst).foldlM (drainFile world) draining).value.session.pending.entries =
      done ++ rest.filterMap (again? world draining.session.timing) := by
  -- the entries in front of the next file are those that its predecessors have left
  induction rest generalizing done draining with
  | nil => exact entries
  | cons entry rest ih =>
    have hdrained := drainFile_drained world draining entry.1
    have hentries := hdrained.entries entries (Pending.apart_of_distinct apart)
    have hpart : ((again? world draining.session.timing entry).toList.map Prod.fst).Sublist [entry.1] := by
      unfold again?
      split
      · exact List.Sublist.refl _
      · exact List.nil_sublist _
    have hapart : ((done ++ (again? world draining.session.timing entry).toList ++ rest).map Prod.fst).Pairwise
        fun a b => a.components ≠ b.components := by
      refine apart.sublist ?_
      simp only [List.map_append, List.map_cons, List.append_assoc]
      exact (List.Sublist.refl _).append (hpart.append (List.Sublist.refl _))
    have htiming : (drainFile world draining entry.1).value.session.timing = draining.session.timing := by
      obtain ⟨pending, catalog, hframe⟩ := hdrained.frame
      rw [hframe]
    have hrest := ih hentries hapart
    rw [List.map_cons, List.foldlM_cons, Turn.value_bind, hrest, htiming, List.append_assoc]
    congr 1
    cases hagain : again? world draining.session.timing entry with
    | none => rw [List.filterMap_cons_none hagain]; rfl
    | some kept => rw [List.filterMap_cons_some hagain]; rfl

/-- After a drain every file is pending that failed once more and was not given up. -/
theorem drain_entries {session : Session} (rising : session.pending.Rising) (now : Nat) :
    (session.drain world now).value.pending.entries =
      session.pending.entries.filterMap (again? world session.timing) := by
  have hentries : (session.pending.paths.foldlM (drainFile world)
      ⟨{ session with drainDue := none }, false⟩).value.session.pending.entries = _ :=
    @foldlM_entries world [] session.pending.entries ⟨{ session with drainDue := none }, false⟩ rfl
      rising.paths_distinct
  obtain ⟨read, hread, hdrain⟩ := drain_eq world now session
  calc (session.drain world now).value.pending.entries
      = (read.value.session.scheduleRetry now).pending.entries := by rw [hdrain]
    _ = read.value.session.pending.entries := congrArg Pending.entries (scheduleRetry_pending _ now)
    _ = session.pending.entries.filterMap (again? world session.timing) := by
      rw [hread]
      exact hentries

end

/-! ## Polls at due times -/

/-- Poll so much later than the session has something to do, if it has. -/
def pollDue (world : Surroundings) (session : Session) (late : Nat) : Session :=
  match session.nextDeadline with
  | some due => (session.poll world (due + late)).value
  | none => session

/-- Poll several times, each so much later than the session has something to do. -/
def pollsDue (world : Surroundings) (session : Session) (lates : List Nat) : Session :=
  lates.foldl (pollDue world) session

/-- With no settings to load, a poll is a scan and a drain, each if it is due. -/
theorem poll_of_settled {world : Surroundings} {now : Nat} {session : Session} (settled : session.reload = none) :
    (session.poll world now).value = ((session.rescanIfDue world now).value.drainIfDue world now).value := by
  have hreloaded : session.reloadIfDue world now = pure session := by
    unfold reloadIfDue
    rw [settled]
  unfold poll
  rw [Turn.value_bind, Turn.value_bind, hreloaded, Turn.value_pure]

/-- What polls there may be until a session with a limit on failed reads has nothing to do: so many from that on that
scans the root, if one is to come, and so many that only drain. -/
structure Owes (limit scans drains : Nat) (session : Session) : Prop where
  scans : session.rescanDue = none ∨ limit + 2 ≤ scans
  drains : session.drainDue = none ∨
    (1 ≤ drains ∧ ∃ least, limit + 1 ≤ drains + least ∧ ∀ entry ∈ session.pending.entries, least ≤ entry.2)

section

variable {world : Surroundings} {limit scans drains now : Nat} {session : Session}

/-- To begin with, a session may owe a scan and a drain. -/
theorem Owes.start (limit : Nat) (session : Session) : Owes limit (limit + 2) (limit + 1) session :=
  ⟨.inr (Nat.le_refl _), .inr ⟨Nat.le_add_left 1 limit, 0, Nat.le_refl _, fun _ _ => Nat.zero_le _⟩⟩

/-- Without a scan to come a session may owe a drain. -/
theorem Owes.scanned (limit : Nat) (none_due : session.rescanDue = none) : Owes limit 0 (limit + 1) session :=
  ⟨.inl none_due, (Owes.start limit session).drains⟩

/-- A drain asks for no scan and takes back none. -/
theorem drainIfDue_rescanDue (world : Surroundings) (now : Nat) (session : Session) :
    (session.drainIfDue world now).value.rescanDue = session.rescanDue := by
  unfold drainIfDue
  split
  · obtain ⟨_, _, hvalue⟩ := drain_frame world now session
    rw [hvalue]
  · rfl

/-- A drain brings every file that stays pending closer to the limit. -/
theorem Owes.drain (rising : session.pending.Rising)
    (patient : ∀ path ∈ session.pending.paths, (world.read path).isTransient = true →
      ∃ most, session.timing.maxAttempts = some most ∧ most ≤ limit)
    {due : Nat} (waits : session.drainDue = some due) (owes : Owes limit scans (drains + 1) session) :
    Owes limit scans drains (session.drain world now).value := by
  have hentries := @drain_entries world session rising now
  obtain ⟨catalog, pending, hvalue⟩ := drain_frame world now session
  rw [hvalue] at hentries ⊢
  refine ⟨owes.scans, ?_⟩
  obtain ⟨-, least, hleast, hcounts⟩ := owes.drains.resolve_left fun h => by
    rw [waits] at h
    cases h
  have hcounted : ∀ entry ∈ pending.entries, least + 1 ≤ entry.2 ∧ entry.2 < limit := by
    intro entry hentry
    dsimp only at hentries
    rw [hentries, List.mem_filterMap] at hentry
    obtain ⟨before, hbefore, hagain⟩ := hentry
    obtain ⟨htransient, hpatient, rfl⟩ := again?_eq_some_iff.mp hagain
    obtain ⟨most, hmost, hle⟩ := patient before.1 (List.mem_map_of_mem hbefore) htransient
    simp only [Timing.exhausted, hmost, Option.any_some, decide_eq_false_iff_not] at hpatient
    have := hcounts before hbefore
    dsimp only
    omega
  cases hempty : pending.isEmpty with
  | true => exact .inl rfl
  | false =>
    obtain ⟨entry, hentry⟩ := List.isEmpty_eq_false_iff_exists_mem.mp hempty
    obtain ⟨hfirst, hbound⟩ := hcounted entry hentry
    exact .inr ⟨by omega, least + 1, by omega, fun other hother => (hcounted other hother).1⟩

end

section

variable {world : Surroundings} {marked : Path → Prop} {opened session : Session} {limit scans drains : Nat}
  (patient : ∀ path, marked path → (world.read path).isTransient = true →
    ∃ most, opened.timing.maxAttempts = some most ∧ most ≤ limit)

include patient in
/-- A poll at a due time leaves less to do. -/
theorem Owes.poll (idle : Idle marked opened session) (owes : Owes limit scans drains session) {due now : Nat}
    (waits : session.nextDeadline = some due) (late : due ≤ now) :
    ∃ scans' drains', scans' + drains' < scans + drains ∧ Owes limit scans' drains' (session.poll world now).value := by
  have hpatient : ∀ path ∈ session.pending.paths, (world.read path).isTransient = true →
      ∃ most, session.timing.maxAttempts = some most ∧ most ≤ limit := by
    intro path hpath htransient
    rw [idle.timing]
    exact patient path (idle.marks path hpath) htransient
  rw [poll_of_settled idle.reload]
  cases hrescan : isDue session.rescanDue now with
  | true =>
    have hscans : limit + 2 ≤ scans := owes.scans.resolve_left fun h => by
      rw [h] at hrescan
      cases hrescan
    -- whatever is pending after a scan has all its tries before it
    refine ⟨0, limit + 1, by omega, Owes.scanned limit ?_⟩
    obtain ⟨_, _, _, hrebuilt, -⟩ := rebuild_frame world now session
    rw [drainIfDue_rescanDue, rescanIfDue_of_due hrescan, hrebuilt]
  | false =>
    rw [rescanIfDue_of_not_due hrescan, Turn.value_pure]
    -- with neither settings nor a scan to wait for, the session waits for a drain
    have hmem : due ∈ session.deadlines := List.min?_mem waits
    have hdrain : session.drainDue = some due := by
      rcases mem_deadlines.mp hmem with h | h | h
      · rw [idle.reload] at h
        cases h
      · rw [h] at hrescan
        exact absurd late (of_decide_eq_false hrescan)
      · exact h
    obtain ⟨hpositive, -⟩ := owes.drains.resolve_left fun h => by
      rw [hdrain] at h
      cases h
    obtain ⟨fewer, rfl⟩ := Nat.exists_eq_add_of_le' hpositive
    have hdue : isDue session.drainDue now = true := by
      rw [hdrain]
      exact decide_eq_true late
    refine ⟨scans, fewer, by omega, ?_⟩
    unfold drainIfDue
    rw [if_pos hdue]
    exact owes.drain idle.sound.rising hpatient hdrain

variable {previous : Catalog} {scan : ScanReport} (still : world.Still opened.root)
  (report : Scan.directory world opened.root previous = .ok scan) (scanned : opened.catalog = scan.catalog)
  (listed : ∀ file ∈ Scan.listed world opened.root, marked file)
  (admits : ∀ path, marked path → world.Admits opened.root path)

include still report scanned listed admits

/-- Polls at due times leave the catalog as it is. -/
theorem Idle.pollsDue (idle : Idle marked opened session) (lates : List Nat) :
    Idle marked opened (pollsDue world session lates) := by
  induction lates generalizing session with
  | nil => exact idle
  | cons late rest ih =>
    refine ih ?_
    unfold pollDue
    split
    · exact idle.poll still report scanned listed admits _
    · exact idle

include patient in
/-- After enough polls at due times there is nothing to do. -/
theorem Idle.quiets (idle : Idle marked opened session) (owes : Owes limit scans drains session) {lates : List Nat}
    (enough : scans + drains ≤ lates.length) : (Session.pollsDue world session lates).nextDeadline = none := by
  induction lates generalizing session scans drains with
  | nil =>
    rw [List.length_nil] at enough
    refine nextDeadline_eq_none_iff.mpr ⟨idle.reload, owes.scans.resolve_right ?_, owes.drains.resolve_right ?_⟩
    · omega
    · omega
  | cons late rest ih =>
    rw [List.length_cons] at enough
    change (Session.pollsDue world (pollDue world session late) rest).nextDeadline = none
    unfold pollDue
    split
    · next due hdue =>
      obtain ⟨scans', drains', hless, howes⟩ := owes.poll patient idle hdue (Nat.le_add_right due late)
      exact ih (idle.poll still report scanned listed admits (due + late)) howes (by omega)
    · next hnone =>
      obtain ⟨-, hrescan, hdrain⟩ := nextDeadline_eq_none_iff.mp hnone
      exact ih idle (⟨.inl hrescan, .inl hdrain⟩ : Owes limit 0 0 session) (Nat.zero_le _)

end

/-! ## Files that are tried forever -/

/-- A session that has nothing to do but to read files, a certain one among them, as often as it takes. -/
structure Restless (path : Path) (session : Session) : Prop where
  sound : session.Sound
  unlimited : session.timing.maxAttempts = none
  reload : session.reload = none
  rescanDue : session.rescanDue = none
  scheduled : session.Scheduled
  waiting : path ∈ session.pending.paths

section

variable {world : Surroundings} {path : Path} {session : Session}

/-- A session that still has to read a file wakes again. -/
theorem Restless.wakes (restless : Restless path session) : session.nextDeadline ≠ none := by
  intro hnone
  have hdue := restless.scheduled (List.ne_nil_of_mem restless.waiting)
  rw [(nextDeadline_eq_none_iff.mp hnone).2.2] at hdue
  cases hdue

variable (transient : (world.read path).isTransient = true)

include transient

/-- A file whose read fails in a way that may pass is to be read again, without a limit. -/
theorem Restless.drain (restless : Restless path session) (now : Nat) :
    Restless path (session.drain world now).value := by
  have hentries := @drain_entries world session restless.sound.rising now
  have hsound : (session.drain world now).value.Sound := restless.sound.drain
  obtain ⟨entry, hentry, rfl⟩ := List.mem_map.mp restless.waiting
  have hpatient : session.timing.exhausted (entry.2 + 1) = false := by
    unfold Timing.exhausted
    rw [restless.unlimited]
    rfl
  have hagain := again?_eq_some_iff.mpr ⟨transient, hpatient, rfl⟩
  obtain ⟨catalog, pending, hvalue⟩ := drain_frame world now session
  rw [hvalue] at hentries hsound ⊢
  have hcounted : (entry.1, entry.2 + 1) ∈ pending.entries := by
    have hpending : pending.entries = session.pending.entries.filterMap (again? world session.timing) := hentries
    rw [hpending]
    exact List.mem_filterMap.mpr ⟨entry, hentry, hagain⟩
  have hwaiting : entry.1 ∈ pending.paths := List.mem_map.mpr ⟨_, hcounted, rfl⟩
  refine ⟨hsound, restless.unlimited, restless.reload, restless.rescanDue, fun hpending => ?_, hwaiting⟩
  cases hempty : pending.isEmpty with
  | true => exact absurd (Pending.isEmpty_iff.mp hempty) hpending
  | false => rfl

/-- Without a limit on failed reads a file whose read keeps failing in a way that may pass is tried forever. -/
theorem Restless.pollsDue (restless : Restless path session) (lates : List Nat) :
    Restless path (pollsDue world session lates) := by
  induction lates generalizing session with
  | nil => exact restless
  | cons late rest ih =>
    refine ih ?_
    unfold pollDue
    split
    · next due hdue =>
      have hrescanned : session.rescanIfDue world (due + late) = pure session :=
        rescanIfDue_of_not_due (by rw [restless.rescanDue]; rfl)
      rw [poll_of_settled restless.reload, hrescanned, Turn.value_pure]
      unfold drainIfDue
      split
      · exact restless.drain transient (due + late)
      · exact restless
    · exact restless

end

end Session

end TypingsIndex
