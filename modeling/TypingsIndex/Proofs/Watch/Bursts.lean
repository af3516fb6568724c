import TypingsIndex.Disk.Operations
import TypingsIndex.Proofs.Watch.DrainOrder
import TypingsIndex.Proofs.Watch.OneFile
import TypingsIndex.Proofs.Watch.Still.Quiet

/-!
# Bursts of touches

Touches that come in quick succession collapse: the first sets the time of the drain, no later one moves it, and a
path is marked once however often it is touched. Until that time nothing happens, whatever polls there are
(`run_burst`). What a drain then does depends on the marks alone, so that two bursts with the same marks come to the
same in every respect (`bursts_collapse`).

A mark has the spelling under which its path was touched first. So the order of the touches matters in one way: a path
that is touched under two spellings is read under the first. This is no detail, since a spelling with a slash at its
end can only be that of a directory (`bursts_differ`).
-/

set_option autoImplicit false

namespace TypingsIndex

/-! ## Spellings of touched files -/

/-- The spelling under which a path comes first among files. -/
def spelling? (files : List Path) (path : Path) : Option Path :=
  files.find? fun file => file.same path

/-- A spelling that is found for a path is that of one of the files, with the same components. -/
theorem spelling?_some {files : List Path} {path file : Path} (h : spelling? files path = some file) :
    file ∈ files ∧ file.components = path.components :=
  ⟨List.mem_of_find?_eq_some h, by simpa [Path.same_iff] using List.find?_some h⟩

/-- Two lists name the same paths, and each of them first under the same spelling. -/
def SpelledAlike (files others : List Path) : Prop :=
  ∀ path, spelling? files path = spelling? others path

/-- Files of which each has one spelling only are spelled alike in every order and with every repetition. -/
theorem SpelledAlike.of_mem_iff {files others : List Path} (same : ∀ file, file ∈ files ↔ file ∈ others)
    (plain : ∀ a ∈ files, ∀ b ∈ files, a.components = b.components → a = b) : SpelledAlike files others := by
  intro path
  cases hfirst : spelling? files path with
  | none =>
    have hnone := List.find?_eq_none.mp hfirst
    exact (List.find?_eq_none.mpr fun file hfile => hnone file ((same file).mpr hfile)).symm
  | some file =>
    obtain ⟨hfile, hpath⟩ := spelling?_some hfirst
    cases hsecond : spelling? others path with
    | none => exact absurd (Path.same_iff.mpr hpath) (List.find?_eq_none.mp hsecond file ((same file).mp hfile))
    | some other =>
      obtain ⟨hother, hotherPath⟩ := spelling?_some hsecond
      rw [plain file hfile other ((same other).mpr hother) (hpath.trans hotherPath.symm)]

namespace Pending

variable {pending other : Pending} {path : Path} {entry : Path × Nat}

/-- A new entry is put in beside the others. -/
theorem mem_place_of_unmarked {failures : Nat} {entries : List (Path × Nat)}
    (unmarked : ∀ entry ∈ entries, entry.1.components ≠ path.components) :
    entry ∈ place path failures entries ↔ entry = (path, failures) ∨ entry ∈ entries := by
  induction entries with
  | nil => simp [place]
  | cons first rest ih =>
    obtain ⟨hfirst, hrest⟩ := List.forall_mem_cons.mp unmarked
    unfold place
    cases hcompare : Path.compare path first.1 with
    | lt => exact List.mem_cons
    | eq => exact absurd (Path.compare_eq_iff.mp hcompare).symm hfirst
    | gt =>
      change entry ∈ first :: place path failures rest ↔ _
      rw [List.mem_cons, ih hrest, List.mem_cons]
      exact or_left_comm

/-- Marking a file adds an entry without failures if the file is not marked yet. -/
theorem mem_insert :
    entry ∈ (pending.insert path).entries ↔
      entry ∈ pending.entries ∨ (pending.contains path = false ∧ entry = (path, 0)) := by
  unfold insert
  cases hmarked : pending.contains path with
  | true => simp
  | false =>
    have hunmarked : ∀ old ∈ pending.entries, old.1.components ≠ path.components := by
      intro old hold hsame
      rw [contains_iff.mpr ⟨old.1, List.mem_map_of_mem hold, hsame⟩] at hmarked
      cases hmarked
    rw [if_neg Bool.false_ne_true, mem_place_of_unmarked hunmarked, or_comm]
    simp

/-- Marking several files adds an entry without failures for each that is not marked yet, under the spelling that comes
first. -/
theorem mem_foldl_insert {files : List Path} :
    entry ∈ (files.foldl insert pending).entries ↔
      entry ∈ pending.entries
        ∨ (pending.contains entry.1 = false ∧ entry.2 = 0 ∧ spelling? files entry.1 = some entry.1) := by
  -- the first file decides on its own path, and the rest on all others
  induction files generalizing pending with
  | nil => simp [spelling?]
  | cons file rest ih =>
    have hcontains : (pending.insert file).contains entry.1 = false ↔
        file.components ≠ entry.1.components ∧ pending.contains entry.1 = false := by
      rw [← Bool.not_eq_true, contains_insert, not_or, Bool.not_eq_true]
    rw [List.foldl_cons, ih, mem_insert, hcontains, or_assoc]
    refine or_congr_right ?_
    by_cases hsame : file.components = entry.1.components
    · have hspelling : spelling? (file :: rest) entry.1 = some file :=
        List.find?_cons_of_pos (Path.same_iff.mpr hsame)
      rw [hspelling, Option.some_inj, ← contains_congr hsame]
      constructor
      · rintro (⟨hunmarked, rfl⟩ | ⟨⟨hne, -⟩, -⟩)
        · exact ⟨hunmarked, rfl, rfl⟩
        · exact absurd hsame hne
      · rintro ⟨hunmarked, hfailures, hfile⟩
        exact .inl ⟨hunmarked, Prod.ext hfile.symm hfailures⟩
    · have hspelling : spelling? (file :: rest) entry.1 = spelling? rest entry.1 :=
        List.find?_cons_of_neg fun h => hsame (Path.same_iff.mp h)
      rw [hspelling, and_assoc]
      constructor
      · rintro (⟨-, rfl⟩ | ⟨-, hnew⟩)
        · exact absurd rfl hsame
        · exact hnew
      · exact fun hnew => .inr ⟨hsame, hnew⟩

/-- Marks in rising order are determined by what they are. -/
theorem Rising.eq_of_mem_iff (rising : pending.Rising) (others : other.Rising)
    (same : ∀ entry, entry ∈ pending.entries ↔ entry ∈ other.entries) : pending = other := by
  have hnodup : ∀ {marks : Pending}, marks.Rising → marks.entries.Nodup := fun hrising =>
    hrising.imp fun {a b} hlt heq => by
      rw [heq, Path.compare_eq_iff.mpr rfl] at hlt
      cases hlt
  have hperm : pending.entries.Perm other.entries :=
    (List.perm_ext_iff_of_nodup (hnodup rising) (hnodup others)).mpr same
  have hentries : pending.entries = other.entries := by
    refine hperm.eq_of_pairwise (fun a b _ _ hab hba => ?_) rising others
    rw [Std.OrientedCmp.gt_of_lt hab] at hba
    cases hba
  exact congrArg Pending.mk hentries

/-- Files that are spelled alike leave the same marks. -/
theorem foldl_insert_congr {files others : List Path} (rising : pending.Rising) (alike : SpelledAlike files others) :
    files.foldl insert pending = others.foldl insert pending := by
  refine rising.foldl_insert.eq_of_mem_iff rising.foldl_insert fun entry => ?_
  rw [mem_foldl_insert, mem_foldl_insert, alike entry.1]

end Pending

namespace Session

/-! ## A burst -/

/-- The file that a deed tells was touched. -/
def Deed.touched? : Deed → Option Path
  | .handle _ _ (.touched path) => some path
  | _ => none

/-- The files that deeds tell were touched, in order and as often as they tell it. -/
def touchedBy (deeds : List Deed) : List Path :=
  deeds.filterMap Deed.touched?

/-- What may happen in a burst that began at a time: before the time of quiescence has passed, an accepted file is
touched, or the work that is due is done. -/
inductive BurstDeed (session : Session) (start : Nat) : Deed → Prop where
  | touch (world : Surroundings) {now : Nat} {path : Path} (accepted : session.accepts path = true)
      (soon : now < start + session.timing.quiescence) : BurstDeed session start (.handle world now (.touched path))
  | poll (atReload atRescan atDrain : Surroundings) {now : Nat} (soon : now < start + session.timing.quiescence) :
      BurstDeed session start (.poll atReload atRescan atDrain now)

/-- A burst of touches that begins with one at a time. -/
structure IsBurst (session : Session) (start : Nat) (deeds : List Deed) : Prop where
  opens : ∃ world path rest, deeds = .handle world start (.touched path) :: rest
  each : ∀ deed ∈ deeds, BurstDeed session start deed

/-- A session in the middle of a burst, with some files marked and a drain due when the time of quiescence
has passed. -/
def inBurst (session : Session) (start : Nat) (pending : Pending) : Session :=
  { session with pending := pending, drainDue := some (start + session.timing.quiescence) }

variable {session : Session} {start : Nat} {deeds : List Deed}

/-- With no settings to load and no scan to make, a poll reads the pending files if that is due. -/
theorem pollIn_of_calm (reload : session.reload = none) (rescan : session.rescanDue = none)
    (atReload atRescan atDrain : Surroundings) (now : Nat) :
    session.pollIn atReload atRescan atDrain now = session.drainIfDue atDrain now := by
  have hreloaded : session.reloadIfDue atReload now = pure session := by
    unfold reloadIfDue
    rw [reload]
  have hrescanned : session.rescanIfDue atRescan now = pure session := by
    unfold rescanIfDue
    rw [rescan]
    rfl
  unfold pollIn
  rw [hreloaded, pure_bind, hrescanned, pure_bind]

/-- In the middle of a burst each deed marks its file, if it tells of one, and does nothing else. -/
theorem act_inBurst (idle : session.nextDeadline = none) {deed : Deed} (burst : BurstDeed session start deed)
    (pending : Pending) :
    (session.inBurst start pending).act deed =
      ⟨session.inBurst start ((touchedBy [deed]).foldl Pending.insert pending), []⟩ := by
  obtain ⟨hreload, hrescan, -⟩ := nextDeadline_eq_none_iff.mp idle
  cases burst with
  | touch world accepted soon =>
    rw [act_touched]
    unfold touch
    have haccepted : (session.inBurst start pending).accepts _ = true := accepted
    rw [if_pos haccepted]
    rfl
  | @poll atReload atRescan atDrain now soon =>
    have hearly : isDue (session.inBurst start pending).drainDue now = false :=
      decide_eq_false (Nat.not_le_of_lt soon)
    have hcalm : (session.inBurst start pending).pollIn atReload atRescan atDrain now =
        (session.inBurst start pending).drainIfDue atDrain now := by
      have hreload : (session.inBurst start pending).reload = none := hreload
      have hrescan : (session.inBurst start pending).rescanDue = none := hrescan
      exact pollIn_of_calm hreload hrescan atReload atRescan atDrain now
    rw [act_poll, hcalm]
    unfold drainIfDue
    rw [hearly]
    rfl

/-- What a burst comes to before its drain: the files are marked, and nothing was done. -/
theorem run_inBurst (idle : session.nextDeadline = none) (burst : ∀ deed ∈ deeds, BurstDeed session start deed)
    (pending : Pending) :
    (session.inBurst start pending).run deeds =
      ⟨session.inBurst start ((touchedBy deeds).foldl Pending.insert pending), []⟩ := by
  induction deeds generalizing pending with
  | nil => rfl
  | cons deed rest ih =>
    obtain ⟨hdeed, hrest⟩ := List.forall_mem_cons.mp burst
    have hsplit : touchedBy (deed :: rest) = touchedBy [deed] ++ touchedBy rest :=
      List.filterMap_append (l := [deed])
    rw [run_cons, act_inBurst idle hdeed, hsplit, List.foldl_append]
    exact ih hrest ((touchedBy [deed]).foldl Pending.insert pending)

/-- What a burst comes to before its drain: each of its files is marked once, a drain is due when the time of quiescence
has passed since the first touch, and nothing else has happened. -/
theorem run_burst (idle : session.nextDeadline = none) (burst : IsBurst session start deeds) :
    session.run deeds =
      ⟨session.inBurst start ((touchedBy deeds).foldl Pending.insert session.pending), []⟩ := by
  obtain ⟨-, -, hdrain⟩ := nextDeadline_eq_none_iff.mp idle
  obtain ⟨world, path, rest, rfl⟩ := burst.opens
  obtain ⟨hfirst, hrest⟩ := List.forall_mem_cons.mp burst.each
  have haccepted : session.accepts path = true := by
    cases hfirst with
    | touch _ accepted => exact accepted
  have hopened : session.touch world start path = session.inBurst start (session.pending.insert path) := by
    unfold touch requestDrain
    rw [if_pos haccepted, hdrain]
    rfl
  rw [run_cons, act_touched, hopened, pure_bind]
  exact run_inBurst idle hrest _

/-! ## The drain of a burst -/

/-- What the drain of a burst does. -/
structure DrainsBurst (before : Session) (touched : List Path) (world : Surroundings) (turn : Turn Session) : Prop where
  /-- Each path that was touched is read once, under the spelling that came first, in the order of the paths. -/
  reads : ∃ files : List Path,
    turn.effects.filterMap Effect.reading? = files.map (fun file => (file, world.read file))
      ∧ files.Pairwise (fun a b => Path.compare a b = .lt)
      ∧ ∀ file, file ∈ files ↔ spelling? touched file = some file
  /-- One catalog is told if the modules have changed, and none if not. -/
  told : before.TellsOnChange turn
  /-- The modules that are left keep their order, and the new ones follow in the order of their paths. -/
  modules : ∃ kept fresh, turn.value.catalog.modules = kept ++ fresh ∧ Growth before.catalog.modules kept fresh

/-- With nothing marked before, the files of a burst are marked under the spellings that came first. -/
theorem mem_paths_inBurst {pending : Pending} (unmarked : pending.paths = []) {files : List Path} {file : Path} :
    file ∈ (files.foldl Pending.insert pending).paths ↔ spelling? files file = some file := by
  have hentries : pending.entries = [] := List.map_eq_nil_iff.mp unmarked
  have hnone : pending.contains file = false := by
    unfold Pending.contains Pending.failures?
    rw [hentries]
    rfl
  constructor
  · intro hfile
    obtain ⟨entry, hentry, rfl⟩ := List.mem_map.mp hfile
    rcases Pending.mem_foldl_insert.mp hentry with hold | ⟨-, -, hspelling⟩
    · rw [hentries] at hold
      cases hold
    · exact hspelling
  · intro hspelling
    have hentry : (file, 0) ∈ (files.foldl Pending.insert pending).entries :=
      Pending.mem_foldl_insert.mpr (.inr ⟨hnone, rfl, hspelling⟩)
    exact List.mem_map_of_mem hentry

/-- The first poll when the drain is due does what the drain of a burst does. -/
theorem drainsBurst_inBurst (sound : session.Sound) (unmarked : session.pending.paths = [])
    (idle : session.nextDeadline = none) (touched : List Path) {atReload atRescan atDrain : Surroundings} {now : Nat}
    (due : start + session.timing.quiescence ≤ now) :
    DrainsBurst session touched atDrain
      ((session.inBurst start (touched.foldl Pending.insert session.pending)).act
        (.poll atReload atRescan atDrain now)) := by
  obtain ⟨hreload, hrescan, -⟩ := nextDeadline_eq_none_iff.mp idle
  obtain ⟨burst, hburst⟩ : ∃ burst, burst = session.inBurst start (touched.foldl Pending.insert session.pending) :=
    ⟨_, rfl⟩
  have hsound : burst.Sound := by
    rw [hburst]
    exact ⟨sound.consistent, sound.declared, sound.rising.foldl_insert⟩
  have hcatalog : burst.catalog = session.catalog := by rw [hburst]; rfl
  have hpaths : ∀ file, file ∈ burst.pending.paths ↔ spelling? touched file = some file := by
    rw [hburst]
    exact fun file => mem_paths_inBurst unmarked
  have hturn : burst.act (.poll atReload atRescan atDrain now) = burst.drain atDrain now := by
    have hcalm := @pollIn_of_calm burst (by rw [hburst]; exact hreload) (by rw [hburst]; exact hrescan)
      atReload atRescan atDrain now
    have hdue : isDue burst.drainDue now = true := by
      rw [hburst]
      exact decide_eq_true due
    rw [act_poll, hcalm]
    unfold drainIfDue
    rw [if_pos hdue]
  rw [← hburst, hturn]
  have hrising : burst.pending.paths.Pairwise fun a b => Path.compare a b = .lt := List.pairwise_map.mpr hsound.rising
  refine ⟨⟨burst.pending.paths, drain_reads atDrain now burst, hrising, hpaths⟩, ?_, ?_⟩
  · have htells := drain_tells atDrain now hsound
    unfold TellsOnChange at htells ⊢
    rw [← hcatalog]
    exact htells
  · rw [← hcatalog]
    exact drain_grows atDrain now hsound

/-- A burst of touches, in every session that a run comes to with nothing pending and nothing due. Whatever touches and
polls it is made of, nothing is read, published or told before the time of quiescence has passed. The first poll from
then on reads each touched path once, in the order of the paths, tells of at most one catalog, and leaves the modules
in an order that the touches do not show. Any other burst of the same paths, each first touched under the same
spelling, has the same effects and ends in the same session. -/
theorem bursts_collapse (first : Surroundings) (base : Path) (settings : Settings) (timing : Timing) (past : List Deed)
    (start : Nat) (deeds : List Deed) (atReload atRescan atDrain : Surroundings) (now : Nat) :
    let session := ((Session.start first base settings timing).run past).value
    let poll := Deed.poll atReload atRescan atDrain now
    session.pending.paths = [] → session.nextDeadline = none → IsBurst session start deeds →
      start + session.timing.quiescence ≤ now →
        (session.run deeds).effects = []
          ∧ DrainsBurst session (touchedBy deeds) atDrain ((session.run deeds).value.act poll)
          ∧ ∀ others, IsBurst session start others → SpelledAlike (touchedBy deeds) (touchedBy others) →
            session.run (others ++ [poll]) = session.run (deeds ++ [poll]) := by
  intro session poll unmarked idle burst due
  have hsound : session.Sound := (Sound.start first base settings timing).run past
  have hrun := run_burst idle burst
  rw [hrun]
  refine ⟨rfl, drainsBurst_inBurst hsound unmarked idle _ due, fun others other alike => ?_⟩
  have hmarks := Pending.foldl_insert_congr hsound.rising alike
  have halike : session.run others = session.run deeds := by rw [hrun, run_burst idle other, hmarks]
  calc session.run (others ++ [poll]) = session.run others >>= fun after => after.run [poll] := run_append ..
    _ = session.run deeds >>= fun after => after.run [poll] := by rw [halike]
    _ = session.run (deeds ++ [poll]) := (run_append ..).symm

/-- One file is known already when two others are touched, in one order with a repetition and with a poll in between or
in the other order without. Either burst puts their modules behind the known one in the order of their paths. -/
theorem bursts_collapse_known :
    let disk : Disk := ⟨[(["w"], .directory), (["w", "a.d.ts"], .file (.text "")),
      (["w", "b.d.ts"], .file (.text "")), (["w", "c.d.ts"], .file (.text ""))], ["w"]⟩
    let world := disk.undisturbed
    let touch := fun now path => Deed.handle world now (.touched ⟨path⟩)
    let past : List Deed := [touch 0 "/w/b.d.ts", .poll world world world 500]
    let session := ((Session.start world ⟨"/w"⟩ .default {}).run past).value
    let deeds : List Deed :=
      [touch 1000 "/w/c.d.ts", touch 1100 "/w/a.d.ts", .poll world world world 1200, touch 1499 "/w/c.d.ts"]
    let others : List Deed := [touch 1000 "/w/a.d.ts", touch 1001 "/w/c.d.ts"]
    let poll := Deed.poll world world world 1500
    let drained := (session.run deeds).value.act poll
    session.catalog.modules.map Module.file = [⟨"/w/b.d.ts"⟩]
      ∧ session.pending.paths = [] ∧ session.nextDeadline = none
      ∧ IsBurst session 1000 deeds ∧ IsBurst session 1000 others
      ∧ SpelledAlike (touchedBy deeds) (touchedBy others)
      ∧ drained.value.catalog.modules.map Module.file = [⟨"/w/b.d.ts"⟩, ⟨"/w/a.d.ts"⟩, ⟨"/w/c.d.ts"⟩]
      ∧ (Effect.told drained.effects).length = 1
      ∧ session.run (others ++ [poll]) = session.run (deeds ++ [poll]) := by
  intro disk world touch past session deeds others poll drained
  have hknown : session.catalog.modules.map Module.file = [⟨"/w/b.d.ts"⟩] := by decide +kernel
  have hunmarked : session.pending.paths = [] := by decide +kernel
  have hidle : session.nextDeadline = none := by decide +kernel
  have hquiescence : session.timing.quiescence = 500 := by decide +kernel
  have hfirst : session.accepts ⟨"/w/a.d.ts"⟩ = true := by decide +kernel
  have hsecond : session.accepts ⟨"/w/c.d.ts"⟩ = true := by decide +kernel
  have hdeeds : IsBurst session 1000 deeds := by
    refine ⟨⟨_, _, _, rfl⟩, ?_⟩
    simp only [deeds, List.forall_mem_cons]
    refine ⟨.touch world hsecond ?_, .touch world hfirst ?_, .poll world world world ?_, .touch world hsecond ?_, nofun⟩
    all_goals omega
  have hothers : IsBurst session 1000 others := by
    refine ⟨⟨_, _, _, rfl⟩, ?_⟩
    simp only [others, List.forall_mem_cons]
    refine ⟨.touch world hfirst ?_, .touch world hsecond ?_, nofun⟩
    all_goals omega
  have halike : SpelledAlike (touchedBy deeds) (touchedBy others) := by
    have htouched : touchedBy deeds = [⟨"/w/c.d.ts"⟩, ⟨"/w/a.d.ts"⟩, ⟨"/w/c.d.ts"⟩] := rfl
    have hsame : touchedBy others = [⟨"/w/a.d.ts"⟩, ⟨"/w/c.d.ts"⟩] := rfl
    rw [htouched, hsame]
    refine .of_mem_iff (fun file => ?_) (by decide)
    simp only [List.mem_cons, List.not_mem_nil, or_false]
    rw [or_left_comm, or_self]
  have hdue : 1000 + session.timing.quiescence ≤ 1500 := by omega
  obtain ⟨-, -, hcollapse⟩ := bursts_collapse world ⟨"/w"⟩ .default {} past 1000 deeds world world world 1500
    hunmarked hidle hdeeds hdue
  refine ⟨hknown, hunmarked, hidle, hdeeds, hothers, halike, ?_, ?_, ?_⟩
  · decide +kernel
  · decide +kernel
  · simp only [session]
    exact hcollapse others hothers halike

/-- One file is touched under two spellings, of which the one with a slash at its end can be read as a directory only.
In either order the two bursts touch the same paths. Where the file's own spelling comes first it is read and has a
module; where the other does, its read fails in a way that may pass, and is tried again. -/
theorem bursts_differ :
    let disk : Disk := ⟨[(["w"], .directory), (["w", "a.d.ts"], .file (.text ""))], ["w"]⟩
    let world := disk.undisturbed
    let touch := fun path => Deed.handle world 0 (.touched ⟨path⟩)
    let session := Session.start world ⟨"/w"⟩ .default {}
    let deeds : List Deed := [touch "/w/a.d.ts", touch "/w/a.d.ts/"]
    let others : List Deed := [touch "/w/a.d.ts/", touch "/w/a.d.ts"]
    let poll := Deed.poll world world world 500
    let last := (session.run (deeds ++ [poll])).value
    let otherLast := (session.run (others ++ [poll])).value
    session.pending.paths = [] ∧ session.nextDeadline = none
      ∧ IsBurst session 0 deeds ∧ IsBurst session 0 others
      ∧ (∀ path, path ∈ touchedBy deeds ↔ path ∈ touchedBy others)
      ∧ last.catalog.modules.map Module.file = [⟨"/w/a.d.ts"⟩] ∧ last.nextDeadline = none
      ∧ otherLast.catalog.modules = [] ∧ otherLast.pending.entries = [(⟨"/w/a.d.ts/"⟩, 1)]
      ∧ otherLast.nextDeadline = some 1500 := by
  intro disk world touch session deeds others poll last otherLast
  have hplain : session.accepts ⟨"/w/a.d.ts"⟩ = true := by decide +kernel
  have hslashed : session.accepts ⟨"/w/a.d.ts/"⟩ = true := by decide +kernel
  have hdeeds : IsBurst session 0 deeds := by
    refine ⟨⟨_, _, _, rfl⟩, ?_⟩
    simp only [deeds, List.forall_mem_cons]
    exact ⟨.touch world hplain (by decide), .touch world hslashed (by decide), nofun⟩
  have hothers : IsBurst session 0 others := by
    refine ⟨⟨_, _, _, rfl⟩, ?_⟩
    simp only [others, List.forall_mem_cons]
    exact ⟨.touch world hslashed (by decide), .touch world hplain (by decide), nofun⟩
  refine ⟨?_, ?_, hdeeds, hothers, fun path => ?_, ?_, ?_, ?_, ?_, ?_⟩
  · decide +kernel
  · decide +kernel
  · have htouched : touchedBy deeds = [⟨"/w/a.d.ts"⟩, ⟨"/w/a.d.ts/"⟩] := rfl
    have hotherTouched : touchedBy others = [⟨"/w/a.d.ts/"⟩, ⟨"/w/a.d.ts"⟩] := rfl
    rw [htouched, hotherTouched, List.mem_pair, List.mem_pair]
    exact or_comm
  · decide +kernel
  · decide +kernel
  · decide +kernel
  · decide +kernel
  · decide +kernel

end Session

end TypingsIndex
