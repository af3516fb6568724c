import TypingsIndex.Proofs.Watch.Coverage.Basic
import TypingsIndex.Proofs.Watch.Tracking

/-!
# News that is told leaves every difference covered

What was covered by the news of a touch is covered by a mark or a scan to come when the news was told. The news
of a removal takes the modules out that it covered, and with them those of files that have come back, of which
a later touch will be told.
-/

set_option autoImplicit false

namespace TypingsIndex

section

variable {site : Site} {texts : String → Prop} {disk : Disk} {rest : List Command} {session : Session}

/-! ## The news of a touch -/

/-- What is tracked as a file has nothing below it. -/
theorem Disk.Plain.eq_of_trackable (plain : disk.Plain site) {above names : List String}
    (tracked : Trackable above) (there : (disk.node? (site.locate names)).isSome = true)
    (below : above <+: names) : names = above :=
  tracked.eq_of_prefix (plain.no_declaration_above there) below

/-- A path below the root of a site is tracked exactly if the session accepts it. -/
theorem Session.Tracks.accepts_iff (tracks : session.Tracks site texts) {names : List String}
    (valid : ∀ name ∈ names, Path.IsName name) (nonempty : names ≠ []) :
    session.accepts (site.file names) = true ↔ Trackable names := by
  have haccepts : session.accepts (session.root.descend names) = true ↔ Trackable names :=
    accepts_descend valid nonempty
  rw [tracks.root] at haccepts
  exact haccepts

/-- A directory on the disk is one for a session. -/
theorem Session.Tracks.directory_below_root (tracks : session.Tracks site texts)
    {world : Surroundings} (shows : world.Shows site disk) {names : List String}
    (valid : ∀ name ∈ names, Path.IsName name)
    (there : disk.hasDirectory (site.locate names) = true) :
    session.isDirectoryBelowRoot world (site.file names) = true := by
  have hbelow : (site.file names).isAtOrBelow site.path = true :=
    Path.isAtOrBelow_iff.mpr (by rw [Site.file, Path.components_descend _ valid]; exact List.prefix_append _ _)
  unfold Session.isDirectoryBelowRoot
  rw [tracks.root, hbelow, shows.isDirectory names valid, there]
  rfl

variable {world : Surroundings} {now : Nat}

/-- When a scan of the root was asked for, everything is awaited. -/
theorem Session.requestRescan_awaits (session : Session) (now : Nat) (path : Path) :
    (session.requestRescan now).Awaits path := by
  right
  unfold requestRescan
  cases session.rescanDue <;> rfl

/-- The news of a touch leaves everything known of a session in place. -/
theorem Session.Tracks.touched (tracks : session.Tracks site texts) {names : List String}
    (valid : ∀ name ∈ names, Path.IsName name) (nonempty : names ≠ []) :
    (session.touch world now (site.file names)).Tracks site texts := by
  have houtcome := touch_touched world now session (site.file names)
  revert houtcome
  generalize session.touch world now (site.file names) = after
  intro houtcome
  cases houtcome with
  | marked accepted =>
    have htracked := (tracks.accepts_iff valid nonempty).mp accepted
    refine { tracks with pending := fun path hpath => ?_ }
    rcases Pending.paths_insert hpath with rfl | hold
    · exact ⟨names, htracked, rfl⟩
    · exact tracks.pending path hold
  | rescanned refused concerns => exact { tracks with }
  | ignored refused unknown elsewhere => exact tracks

/-- The news of a touch is not needed any more when every file that it heralds is awaited, with all that was awaited
before. -/
theorem Session.Covers.awaited {names : List String} {after : Session}
    (covers : session.Covers site disk (.touched (site.file names) :: rest))
    (valid : ∀ name ∈ names, Path.IsName name) (catalog : after.catalog = session.catalog)
    (keeps : ∀ path, session.Awaits path → after.Awaits path)
    (awaits : ∀ others, Trackable others → (disk.node? (site.locate others)).isSome = true → names <+: others →
      after.Awaits (site.file others)) :
    after.Covers site disk rest where
  fresh others content hothers there := by
    rw [catalog]
    rcases covers.fresh others content hothers there with h | h | h
    · rcases heralded_cons.mp h with hnow | hlater
      · rw [heralded_touched, Site.file, Site.file, Path.isAtOrBelow_descend hothers.valid valid] at hnow
        exact .inr (.inl (awaits others hothers (by rw [there]; rfl) hnow))
      · exact .inl hlater
    · exact .inr (.inl (keeps _ h))
    · exact .inr (.inr h)
  gone others hothers entry hentry hfile := by
    rw [catalog] at hentry
    rcases covers.gone others hothers entry hentry hfile with h | h | h
    · exact .inl h
    · exact .inr (.inl ((revoked_cons.mp h).resolve_left not_revoked_touched))
    · exact .inr (.inr (keeps _ h))

/-- What the news of a touch heralded is covered when it has been told. -/
theorem Session.Covers.touched {names : List String}
    (covers : session.Covers site disk (.touched (site.file names) :: rest))
    (tracks : session.Tracks site texts) (plain : disk.Plain site) (shows : world.Shows site disk)
    (valid : ∀ name ∈ names, Path.IsName name) (nonempty : names ≠ []) :
    (session.touch world now (site.file names)).Covers site disk rest := by
  have houtcome := touch_touched world now session (site.file names)
  revert houtcome
  generalize session.touch world now (site.file names) = after
  intro houtcome
  cases houtcome with
  | marked accepted =>
    -- a declaration file has nothing below it, so the mark on it is all that the news heralded
    have htracked := (tracks.accepts_iff valid nonempty).mp accepted
    refine covers.awaited valid rfl ?_ fun others _ there below => ?_
    · exact fun path => Or.imp_left fun h => Pending.contains_insert.mpr (.inr h)
    · rw [plain.eq_of_trackable htracked there below]
      exact .inl (Pending.contains_insert.mpr (.inl rfl))
  | rescanned refused concerns =>
    exact covers.awaited valid rfl (fun path _ => session.requestRescan_awaits now path) fun others _ _ _ =>
      session.requestRescan_awaits now (site.file others)
  | ignored refused unknown elsewhere =>
    -- nothing that could be tracked lies there, or the session would have marked it or asked for a scan
    refine covers.awaited valid rfl (fun _ h => h) fun others hothers there below => ?_
    exfalso
    obtain ⟨deeper, rfl⟩ := below
    by_cases hdeeper : deeper = []
    · rw [hdeeper, List.append_nil] at hothers
      rw [(tracks.accepts_iff valid nonempty).mpr hothers] at refused
      cases refused
    · have hdirectory := plain.directory_above there hdeeper
      rw [tracks.directory_below_root shows valid hdirectory] at elsewhere
      cases elsewhere

/-- The news of a touch leaves pending files to be read. -/
theorem Session.Scheduled.touched (scheduled : session.Scheduled) (path : Path) :
    (session.touch world now path).Scheduled := by
  have houtcome := touch_touched world now session path
  revert houtcome
  generalize session.touch world now path = after
  intro houtcome
  cases houtcome with
  | marked accepted =>
    intro _
    unfold Session.requestDrain
    cases session.drainDue <;> rfl
  | rescanned refused concerns => exact scheduled
  | ignored refused unknown elsewhere => exact scheduled

/-! ## The news of a removal -/

/-- The path of a module has no other modules below it. -/
theorem Session.Tracks.flat (tracks : session.Tracks site texts) {names : List String}
    (valid : ∀ name ∈ names, Path.IsName name)
    (known : session.catalog.contains (site.file names) = true) :
    ∀ entry ∈ session.catalog.modules, entry.file.isAtOrBelow (site.file names) = true →
      entry.file.components = (site.file names).components := by
  intro entry hentry hbelow
  obtain ⟨above, habove, hsame⟩ := (Catalog.contains_iff tracks.consistent).mp known
  obtain ⟨others, -, hothers, -, hfile, -⟩ := tracks.modules above habove
  obtain ⟨lower, -, hlower, hnotAbove, hlowerFile, -⟩ := tracks.modules entry hentry
  rw [hfile, Site.file, Site.file, Path.components_descend_inj hothers.valid valid] at hsame
  rw [hlowerFile, ← hsame, Site.file, Site.file,
    Path.isAtOrBelow_descend hlower.valid hothers.valid] at hbelow
  rw [hlowerFile, hothers.eq_of_prefix hnotAbove hbelow, hsame]

/-- The modules after the news of a removal. -/
theorem Session.Tracks.mem_remove (tracks : session.Tracks site texts) {names : List String}
    (valid : ∀ name ∈ names, Path.IsName name) {entry : Module} :
    entry ∈ (session.remove (site.file names)).value.catalog.modules ↔
      entry ∈ session.catalog.modules ∧ entry.file.isAtOrBelow (site.file names) = false := by
  rw [Session.remove_value]
  exact Session.mem_catalogWithout? tracks.consistent (tracks.flat valid)

/-- The news of a removal leaves everything known of a session in place. -/
theorem Session.Tracks.removed (tracks : session.Tracks site texts) {names : List String}
    (valid : ∀ name ∈ names, Path.IsName name) :
    (session.remove (site.file names)).value.Tracks site texts where
  root := by rw [remove_value]; exact tracks.root
  unlimited := by rw [remove_value]; exact tracks.unlimited
  no_reload := by rw [remove_value]; exact tracks.no_reload
  consistent := by
    rw [remove_value]
    cases hafter : catalogWithout? session.catalog (site.file names) with
    | none => exact tracks.consistent
    | some after => exact catalogWithout?_consistent tracks.consistent hafter
  pending path hpath := by
    rw [remove_value] at hpath
    exact tracks.pending path (session.pending.eraseBelow_subset _ path hpath)
  modules entry hentry := tracks.modules entry ((tracks.mem_remove valid).mp hentry).1

/-- What is not at or below a removed path is awaited as before. -/
theorem Session.Awaits.removed {path source : Path} (awaits : session.Awaits path)
    (out : path.isAtOrBelow source = false) : (session.remove source).value.Awaits path := by
  rw [Session.remove_value]
  exact awaits.imp_left (Pending.contains_eraseBelow out)

/-- What the news of a removal revoked is covered when it has been told. -/
theorem Session.Covers.removed {names : List String}
    (covers : session.Covers site disk (.removed (site.file names) :: rest))
    (tracks : session.Tracks site texts) (told : disk.Told site texts (.removed (site.file names) :: rest))
    (valid : ∀ name ∈ names, Path.IsName name) :
    (session.remove (site.file names)).value.Covers site disk rest := by
  refine ⟨fun others content hothers there => ?_, fun others hothers entry hentry hfile => ?_⟩
  · by_cases hbelow : (site.file others).isAtOrBelow (site.file names) = true
    · exact .inl ((told.returns others content there).1 (revoked_removed.mpr hbelow))
    · rw [Bool.not_eq_true] at hbelow
      rcases covers.fresh others content hothers there with h | h | h
      · exact .inl ((heralded_cons.mp h).resolve_left not_heralded_removed)
      · exact .inr (.inl (h.removed hbelow))
      · refine .inr (.inr fun text functions hcontent hparsed => ?_)
        obtain ⟨entry, hentry, hsame, hdigest⟩ := h text functions hcontent hparsed
        have hout : entry.file.isAtOrBelow (site.file names) = false := by
          unfold Path.isAtOrBelow at hbelow ⊢
          rwa [hsame]
        exact ⟨entry, (tracks.mem_remove valid).mpr ⟨hentry, hout⟩, hsame, hdigest⟩
  · obtain ⟨hold, hout⟩ := (tracks.mem_remove valid).mp hentry
    rw [hfile] at hout
    rcases covers.gone others hothers entry hold hfile with h | h | h
    · exact .inl h
    · rcases revoked_cons.mp h with hnow | hlater
      · rw [revoked_removed, hout] at hnow
        cases hnow
      · exact .inr (.inl hlater)
    · exact .inr (.inr (h.removed hout))

/-- The news of a removal leaves pending files to be read. -/
theorem Session.Scheduled.removed (scheduled : session.Scheduled) (path : Path) :
    (session.remove path).value.Scheduled := by
  rw [Session.remove_value]
  intro hpending
  obtain ⟨marked, hmarked⟩ := List.exists_mem_of_ne_nil _ hpending
  exact scheduled (List.ne_nil_of_mem (session.pending.eraseBelow_subset path marked hmarked))

end

end TypingsIndex
