import TypingsIndex.Proofs.Watch.Renames.Following

/-!
# What is told keeps the session following

The news of a touch marks a file or asks for a scan of the root, so that the modules that it concerns are awaited; the
news of a removal takes its modules out. The news of a move takes the module of the file along, with its mark,
if it has one and the new path can have a module and has none; otherwise the module goes, and what is at the new path
is read. In each case the modules that are left are followed through the rest of the news.
-/

set_option autoImplicit false

namespace TypingsIndex

section

variable {site : Site} {texts : String → Prop} {disk : Disk} {rest : List Command} {session : Session}
  {world : Surroundings} {now : Nat} {names source target : List String} {path : Path}

/-! ## The news of a touch -/

/-- What is awaited is awaited after the news of a touch. -/
theorem Session.Awaits.touched (awaits : session.Awaits path) (source : Path) :
    (session.touch world now source).Awaits path := by
  have houtcome := touch_touched world now session source
  generalize session.touch world now source = after at houtcome
  cases houtcome with
  | marked accepted => exact awaits.imp_left fun h => Pending.contains_insert.mpr (.inr h)
  | rescanned refused concerns => exact session.requestRescan_awaits now _
  | ignored refused unknown elsewhere => exact awaits

/-- A tracked file is awaited when it was touched. -/
theorem Session.Tracks.touch_awaits (tracks : session.Tracks site texts) (tracked : Trackable names) :
    (session.touch world now (site.file names)).Awaits (site.file names) := by
  have haccepts := (tracks.accepts_iff tracked.valid tracked.ne_nil).mpr tracked
  unfold touch
  rw [if_pos haccepts]
  exact .inl (Pending.contains_insert.mpr (.inl rfl))

/-- A module is awaited when its file was touched, or a directory on the way to it. -/
theorem Session.Tracks.touch_awaits_below (tracks : session.Tracks site texts)
    (valid : ∀ name ∈ names, Path.IsName name) (nonempty : names ≠ []) {entry : Module}
    (known : entry ∈ session.catalog.modules) (below : entry.file.isAtOrBelow (site.file names) = true) :
    (session.touch world now (site.file names)).Awaits entry.file := by
  have houtcome := touch_touched world now session (site.file names)
  generalize session.touch world now (site.file names) = after at houtcome
  cases houtcome with
  | marked accepted =>
    have htracked := (tracks.accepts_iff valid nonempty).mp accepted
    obtain ⟨others, _, hothers, hflat, hfile, -⟩ := tracks.modules entry known
    rw [hfile, Site.file, Site.file, Path.isAtOrBelow_descend hothers.valid valid] at below
    rw [hfile, htracked.eq_of_prefix hflat below]
    exact .inl (Pending.contains_insert.mpr (.inl rfl))
  | rescanned refused concerns => exact session.requestRescan_awaits now _
  | ignored refused unknown elsewhere =>
    have hbelow : session.catalog.hasBelow (site.file names) = true := List.any_eq_true.mpr ⟨entry, known, below⟩
    cases unknown.symm.trans hbelow

/-- The news of a touch keeps a session following. -/
theorem Session.Follows.touched (follows : session.Follows site disk (.touched (site.file names) :: rest))
    (tracks : session.Tracks site texts) (valid : ∀ name ∈ names, Path.IsName name) (nonempty : names ≠ []) :
    (session.touch world now (site.file names)).Follows site disk rest := by
  intro others hothers entry hentry hfile
  rw [Session.touch_catalog] at hentry
  rcases follows others hothers entry hentry hfile with hawaits | hcurrent
  · exact .inl (hawaits.touched _)
  · cases hcurrent with
    | touched heralded =>
      left
      rw [heralded_touched] at heralded
      rw [← hfile] at heralded ⊢
      exact tracks.touch_awaits_below valid nonempty hentry heralded
    | kept stays later => exact .inr later

/-! ## The news of a removal -/

/-- The news of a removal keeps a session following. -/
theorem Session.Follows.removed (follows : session.Follows site disk (.removed (site.file names) :: rest))
    (tracks : session.Tracks site texts) (valid : ∀ name ∈ names, Path.IsName name) :
    (session.remove (site.file names)).value.Follows site disk rest := by
  intro others hothers entry hentry hfile
  obtain ⟨hold, hout⟩ := (tracks.mem_remove valid).mp hentry
  rw [hfile] at hout
  rcases follows others hothers entry hold hfile with hawaits | hcurrent
  · exact .inl (hawaits.removed hout)
  · cases hcurrent with
    | touched heralded => exact absurd heralded not_heralded_removed
    | kept stays later => exact .inr later

/-! ## The news of a move -/

/-- A module with the components of a path below the root has this very path. -/
theorem Session.Tracks.file_eq (tracks : session.Tracks site texts) (valid : ∀ name ∈ names, Path.IsName name)
    {entry : Module} (known : entry ∈ session.catalog.modules)
    (same : entry.file.components = (site.file names).components) : Trackable names ∧ entry.file = site.file names := by
  obtain ⟨others, _, hothers, -, hfile, -⟩ := tracks.modules entry known
  rw [hfile, Site.components_inj hothers.valid valid] at same
  rw [← same]
  exact ⟨hothers, hfile⟩

/-- Unmarking files leaves everything known of a session in place. -/
theorem Session.Tracks.unmarked (tracks : session.Tracks site texts) {fewer : Pending}
    (subset : ∀ path ∈ fewer.paths, path ∈ session.pending.paths) :
    ({ session with pending := fewer } : Session).Tracks site texts :=
  { tracks with pending := fun path hpath => tracks.pending path (subset path hpath) }

/-- The news of a move leave everything known of a session in place. -/
theorem Session.Tracks.renamed (tracks : session.Tracks site texts) (movable : Movable source target) :
    (session.rename world now (site.file source) (site.file target)).value.Tracks site texts := by
  have houtcome := rename_renamed world now session (site.file source) (site.file target)
  generalize session.rename world now (site.file source) (site.file target) = turn at houtcome
  cases houtcome with
  | ignored plain unknown elsewhere => exact tracks
  | rescanned plain concerns =>
    have herased := tracks.unmarked (session.pending.eraseBelow_subset (site.file source))
    exact { herased with }
  | @moved catalog taken =>
    obtain ⟨accepted, hrename⟩ := catalogRenamed?_eq_some session (site.file source) taken
    have htracked := (tracks.accepts_iff movable.target_valid movable.target_ne_nil).mp accepted
    obtain ⟨-, -, _, -, hmem⟩ := Catalog.mem_rename? tracks.consistent hrename
    refine { tracks with
      consistent := Catalog.rename?_consistent tracks.consistent hrename
      pending := fun path hpath => ?_
      modules := fun entry hentry => ?_ }
    · rcases Pending.paths_rename hpath with rfl | hold
      · exact ⟨target, htracked, rfl⟩
      · exact tracks.pending path hold
    · rcases (hmem entry).mp hentry with ⟨hold, -⟩ | ⟨old, hold, -, rfl⟩
      · exact tracks.modules entry hold
      · obtain ⟨_, text, -, -, -, hmade⟩ := tracks.modules old hold
        exact ⟨target, text, htracked, movable.target_flat, rfl, hmade⟩
  | replaced known refused =>
    exact (tracks.removed movable.source_valid).touched movable.target_valid movable.target_ne_nil
  | arrived declared unknown =>
    have herased := tracks.unmarked (session.pending.erase_subset (site.file source))
    exact herased.touched movable.target_valid movable.target_ne_nil

/-- The news of a move leave pending files to be read. -/
theorem Session.Scheduled.renamed (scheduled : session.Scheduled) (source target : Path) :
    (session.rename world now source target).value.Scheduled := by
  have hfewer : ∀ pending : Pending, (∀ path ∈ pending.paths, path ∈ session.pending.paths) →
      ({ session with pending := pending } : Session).Scheduled := by
    intro pending hsubset hpending
    obtain ⟨marked, hmarked⟩ := List.exists_mem_of_ne_nil _ hpending
    exact scheduled (List.ne_nil_of_mem (hsubset marked hmarked))
  have houtcome := rename_renamed world now session source target
  generalize session.rename world now source target = turn at houtcome
  cases houtcome with
  | ignored plain unknown elsewhere => exact scheduled
  | rescanned plain concerns =>
    have herased := hfewer _ (session.pending.eraseBelow_subset source)
    exact herased
  | moved taken =>
    intro hpending
    have hmarked : session.pending.paths ≠ [] := fun hnone => hpending (Pending.paths_rename_of_nil hnone)
    exact scheduled hmarked
  | replaced known refused => exact (scheduled.removed source).touched target
  | arrived declared unknown =>
    have herased := hfewer _ (session.pending.erase_subset source)
    exact herased.touched target

/-- The module that moves is followed at its new name, the others at theirs. -/
theorem Session.Follows.relocated {catalog : Catalog}
    (follows : session.Follows site disk (.renamed (site.file source) (site.file target) :: rest))
    (tracks : session.Tracks site texts) (movable : Movable source target)
    (taken : session.catalogRenamed? (site.file source) (site.file target) = some catalog) :
    ({ session with
      catalog := catalog
      pending := session.pending.rename (site.file source) (site.file target) } : Session).Follows site disk rest := by
  obtain ⟨accepted, hrename⟩ := catalogRenamed?_eq_some session (site.file source) taken
  have htracked := (tracks.accepts_iff movable.target_valid movable.target_ne_nil).mp accepted
  obtain ⟨-, hfree, _, -, hmem⟩ := Catalog.mem_rename? tracks.consistent hrename
  have hnotTarget : ∀ entry ∈ session.catalog.modules, entry.file.components ≠ (site.file target).components := by
    intro entry hentry hsame
    have hknown := (Catalog.contains_iff tracks.consistent).mpr ⟨entry, hentry, hsame⟩
    cases hfree.symm.trans hknown
  intro others hothers entry hentry hfile
  rcases (hmem entry).mp hentry with ⟨hold, hne⟩ | ⟨old, hold, hsame, rfl⟩
  · -- another module stays where it is
    rcases follows others hothers entry hold hfile with hawaits | hcurrent
    · rw [hfile] at hne
      exact .inl (hawaits.imp_left (Pending.contains_rename hne))
    · rcases hcurrent.renamed_cases movable hothers with htarget | ⟨hsource, -⟩ | ⟨-, hlater⟩
      · rw [htarget] at hfile
        exact absurd (congrArg Path.components hfile) (hnotTarget entry hold)
      · rw [hfile, hsource] at hne
        exact absurd rfl hne
      · exact .inr hlater
  · -- the module of the file that has moved
    obtain rfl := Site.file_inj movable.target_valid hothers.valid hfile
    obtain ⟨hsource, hsourceFile⟩ := tracks.file_eq movable.source_valid hold hsame
    rcases follows source hsource old hold hsourceFile with hawaits | hcurrent
    · exact .inl (hawaits.imp_left Pending.contains_rename_target)
    · rcases hcurrent.renamed_cases movable hsource with htarget | ⟨-, hlater⟩ | ⟨hne, -⟩
      · rw [htarget] at hsame
        exact absurd hsame (hnotTarget old hold)
      · exact .inr (hlater htracked)
      · exact absurd rfl hne

/-- When the module of the old name goes and the new one is touched, the rest is followed. -/
theorem Session.Follows.replaced
    (follows : session.Follows site disk (.renamed (site.file source) (site.file target) :: rest))
    (tracks : session.Tracks site texts) (movable : Movable source target) :
    ((session.remove (site.file source)).value.touch world now (site.file target)).Follows site disk rest := by
  have hremoved := tracks.removed movable.source_valid
  intro others hothers entry hentry hfile
  rw [Session.touch_catalog] at hentry
  obtain ⟨hold, hout⟩ := (tracks.mem_remove movable.source_valid).mp hentry
  rw [hfile] at hout
  rcases follows others hothers entry hold hfile with hawaits | hcurrent
  · exact .inl ((hawaits.removed hout).touched _)
  · rcases hcurrent.renamed_cases movable hothers with rfl | ⟨rfl, -⟩ | ⟨-, hlater⟩
    · exact .inl (hremoved.touch_awaits hothers)
    · rw [← Bool.not_eq_true, Path.isAtOrBelow_iff] at hout
      exact absurd List.prefix_rfl hout
    · exact .inr hlater

/-- When nothing is known by the old name and the new one is touched, every module is followed. -/
theorem Session.Follows.arrived
    (follows : session.Follows site disk (.renamed (site.file source) (site.file target) :: rest))
    (tracks : session.Tracks site texts) (movable : Movable source target)
    (unknown : session.catalog.contains (site.file source) = false) :
    (({ session with pending := session.pending.erase (site.file source) } : Session).touch world now
      (site.file target)).Follows site disk rest := by
  have herased := tracks.unmarked (session.pending.erase_subset (site.file source))
  intro others hothers entry hentry hfile
  rw [Session.touch_catalog] at hentry
  have hne : (site.file others).components ≠ (site.file source).components := by
    intro hsame
    have hknown := (Catalog.contains_iff tracks.consistent).mpr ⟨entry, hentry, (congrArg _ hfile).trans hsame⟩
    cases unknown.symm.trans hknown
  rcases follows others hothers entry hentry hfile with hawaits | hcurrent
  · have hstill : ({ session with pending := session.pending.erase (site.file source) } : Session).Awaits
        (site.file others) := hawaits.imp_left (Pending.contains_erase hne)
    exact .inl (hstill.touched _)
  · rcases hcurrent.renamed_cases movable hothers with rfl | ⟨rfl, -⟩ | ⟨-, hlater⟩
    · exact .inl (herased.touch_awaits hothers)
    · exact absurd rfl hne
    · exact .inr hlater

/-- A path that is not that of a declaration file has no module. -/
theorem Site.not_trackable (valid : ∀ name ∈ names, Path.IsName name)
    (plain : (site.file names).isDeclarationFile = false) : ¬ Trackable names := by
  intro htracked
  have hdeclared : (site.file names).isDeclarationFile = true :=
    (isDeclarationFile_descend valid htracked.ne_nil).mpr htracked.declared
  cases plain.symm.trans hdeclared

/-- The news of a move keep a session following. -/
theorem Session.Follows.renamed
    (follows : session.Follows site disk (.renamed (site.file source) (site.file target) :: rest))
    (tracks : session.Tracks site texts) (movable : Movable source target) :
    (session.rename world now (site.file source) (site.file target)).value.Follows site disk rest := by
  have houtcome := rename_renamed world now session (site.file source) (site.file target)
  generalize session.rename world now (site.file source) (site.file target) = turn at houtcome
  cases houtcome with
  | ignored plain unknown elsewhere =>
    -- neither name is that of a declaration file, so no module is concerned
    intro others hothers entry hentry hfile
    rcases follows others hothers entry hentry hfile with hawaits | hcurrent
    · exact .inl hawaits
    · rcases hcurrent.renamed_cases movable hothers with rfl | ⟨rfl, -⟩ | ⟨-, hlater⟩
      · exact absurd hothers (Site.not_trackable movable.target_valid plain.2)
      · exact absurd hothers (Site.not_trackable movable.source_valid plain.1)
      · exact .inr hlater
  | rescanned plain concerns => exact fun _ _ _ _ _ => .inl (Session.requestRescan_awaits _ now _)
  | moved taken => exact follows.relocated tracks movable taken
  | replaced known refused => exact follows.replaced tracks movable
  | arrived declared unknown => exact follows.arrived tracks movable unknown

/-! ## Readings -/

/-- If the catalog agrees with what a file holds, so does the digest of its module. -/
theorem Catalog.Agrees.current {catalog : Catalog} {content : Disk.Content} {entry : Module}
    (agrees : catalog.Agrees (site.file names) content) (consistent : catalog.Consistent)
    (known : entry ∈ catalog.modules) (same : entry.file.components = (site.file names).components)
    (there : disk.node? (site.locate names) = some (.file content)) : site.Current disk entry.digest names [] := by
  refine .shown fun text functions htext hparsed => ?_
  have hcontent : content = .text text := by
    cases there.symm.trans htext
    rfl
  obtain ⟨other, hother, hotherSame, hdigest⟩ := agrees text functions hcontent hparsed
  have hfirst := (Catalog.find?_eq_some_iff consistent).mpr ⟨known, same⟩
  have hsecond := (Catalog.find?_eq_some_iff consistent).mpr ⟨hother, hotherSame⟩
  rw [Option.some.inj (hfirst.symm.trans hsecond)]
  exact hdigest

variable {queue : List Command} (news : ∀ command ∈ queue, site.News command) (vacated : site.Vacated disk queue)

include news vacated

/-- A file that is where its module says, and was just read, is followed. -/
theorem Site.Vacated.current {content : Disk.Content} {digest : Option Digest} (tracked : Trackable names)
    (there : disk.node? (site.locate names) = some (.file content)) (same : site.Current disk digest names []) :
    site.Current disk digest names queue :=
  Site.current_of_vacated news tracked
    (fun target hmove htarget => vacated names target hmove htarget content there) same

/-- Reading a pending file keeps a session following. -/
theorem Session.Follows.drained {before following : Session} (follows : before.Follows site disk queue)
    (tracks : before.Tracks site texts) (shows : world.Shows site disk) (tracked : Trackable names)
    (outcome : Session.FileDrained world (site.file names) before following) : following.Follows site disk queue := by
  intro others hothers entry hentry hfile
  by_cases hsame : others = names
  · rw [hsame] at hfile ⊢
    rcases tracks.drained_settled shows tracked outcome with rfl | ⟨hagrees, hthere⟩
    · exact (follows names tracked entry hentry hfile).imp_left
        (Or.imp_left Pending.contains_countFailure.trans)
    · have hcomponents := congrArg Path.components hfile
      obtain ⟨content, there⟩ := hthere entry hentry hcomponents
      exact .inr (Site.Vacated.current news vacated tracked there
        ((hagrees content there).current (outcome.consistent tracks.consistent) hentry hcomponents there))
  · have hother : (site.file others).components ≠ (site.file names).components :=
      (Site.components_inj hothers.valid tracked.valid).not.mpr hsame
    have hold := (outcome.mem_other tracks.consistent (hfile ▸ hother)).mp hentry
    exact (follows others hothers entry hold hfile).imp_left fun hawaits => hawaits.drained outcome hother

/-- A drain keeps a session following. -/
theorem Session.Follows.drain (follows : session.Follows site disk queue) (tracks : session.Tracks site texts)
    (plain : disk.Plain site) (holds : disk.HoldsOnly site texts) (shows : world.Shows site disk) (now : Nat) :
    (session.drain world now).value.Tracks site texts ∧ (session.drain world now).value.Follows site disk queue
      ∧ (session.drain world now).value.Scheduled := by
  have hstep : ∀ file ∈ session.pending.paths, ∀ before following : Session,
      before.Tracks site texts ∧ before.Follows site disk queue → Session.FileDrained world file before following →
        following.Tracks site texts ∧ following.Follows site disk queue := by
    rintro file hfile before following ⟨hbefore, hfollows⟩ outcome
    obtain ⟨names, tracked, rfl⟩ := tracks.pending file hfile
    exact ⟨hbefore.drained plain holds shows tracked outcome,
      hfollows.drained news vacated hbefore shows tracked outcome⟩
  obtain ⟨last, ⟨hlast, hfollows⟩, hvalue⟩ := Session.drain_invariant now hstep ⟨{ tracks with }, follows⟩
  have hscheduled := last.scheduleRetry_scheduled now
  obtain ⟨due, hdue⟩ := last.scheduleRetry_frame now
  rw [hvalue]
  refine ⟨?_, ?_, hscheduled⟩
  · rw [hdue]
    exact { hlast with }
  · rw [hdue]
    exact hfollows

/-- After a scan of the root a session follows, whatever it did before. -/
theorem Session.Tracks.follows_rebuilt (tracks : session.Tracks site texts) (plain : disk.Plain site)
    (shows : world.Shows site disk) : (session.rebuild world now).value.1.Follows site disk queue := by
  obtain ⟨scan, due, report, hvalue, -⟩ := tracks.rebuild_value now plain shows
  rw [hvalue]
  intro names tracked entry hentry hfile
  obtain ⟨others, content, hothers, hotherFile, there, -⟩ := shows.mem_scanned plain report hentry
  obtain rfl := Site.file_inj hothers.valid tracked.valid (hotherFile.symm.trans hfile)
  obtain ⟨fresh, hfresh⟩ := tracks.empty?_isSome tracked
  rw [tracks.root] at hfresh
  rcases shows.scanned_agrees plain report tracked there hfresh with hpending | hagrees
  · exact .inl (.inl hpending)
  · have hconsistent := Session.scanned_consistent (shows.root plain) report
    exact .inr (Site.Vacated.current news vacated tracked there
      (hagrees.current hconsistent hentry (congrArg Path.components hfile) there))

end

end TypingsIndex
