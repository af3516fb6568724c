import TypingsIndex.Proofs.Watch.Coverage.Basic
import TypingsIndex.Proofs.Watch.Drained

/-!
# A drain leaves every difference covered

A file that was read agrees with the catalog and need not be marked any longer; a file whose read failed in a way
that may pass stays marked.
-/

set_option autoImplicit false

namespace TypingsIndex

section

variable {site : Site} {texts : String → Prop} {disk : Disk} {queue : List Command} {world : Surroundings}

/-! ## Reading a pending file -/

section

variable {before following : Session} {names : List String}

/-- Reading a pending file leaves everything known of a session in place. -/
theorem Session.Tracks.drained (tracks : before.Tracks site texts) (plain : disk.Plain site)
    (holds : disk.HoldsOnly site texts) (shows : world.Shows site disk) (tracked : Trackable names)
    (outcome : Session.FileDrained world (site.file names) before following) :
    following.Tracks site texts := by
  have htells := shows.read names tracked
  obtain ⟨pending, catalog, hframe⟩ := outcome.frame
  refine ⟨by rw [hframe]; exact tracks.root, by rw [hframe]; exact tracks.unlimited,
    by rw [hframe]; exact tracks.no_reload, outcome.consistent tracks.consistent,
    fun path hpath => tracks.pending path (outcome.paths_subset path hpath), fun entry hentry => ?_⟩
  by_cases hsame : entry.file.components = (site.file names).components
  · cases outcome with
    | parsed reading accepted taken =>
      obtain ⟨new, -, hfunctions, hdigest, hfile, hmem⟩ :=
        Session.mem_catalogWith? tracks.consistent taken
      obtain rfl := ((hmem entry).mp hentry).resolve_right fun h => h.2 hsame
      have hthere := htells.of_text reading
      have hparsed := functionsOf_eq_ok.mp (hfunctions ▸ accepted)
      rcases hfile with hown | ⟨old, hold, hkept⟩
      · exact ⟨names, _, tracked, plain.no_declaration_above (by rw [hthere]; rfl), hown,
          holds names _ hthere, hparsed, hdigest⟩
      · obtain ⟨others, _, hothers, hflat, hfile, -⟩ := tracks.modules old hold
        exact ⟨others, _, hothers, hflat, hkept.symm.trans hfile, holds names _ hthere, hparsed, hdigest⟩
    | vanished reading verdict taken =>
      exact tracks.modules entry ((Catalog.mem_erase? tracks.consistent taken).mp hentry).1
    | _ => exact tracks.modules entry hentry
  · exact tracks.modules entry ((outcome.mem_other tracks.consistent hsame).mp hentry)

/-- Once a pending file was read, the catalog agrees with what is there and has a module of the file only if it is
there; or the read has failed in a way that may pass. -/
theorem Session.Tracks.drained_settled (tracks : before.Tracks site texts) (shows : world.Shows site disk)
    (tracked : Trackable names) (outcome : Session.FileDrained world (site.file names) before following) :
    following = { before with pending := before.pending.countFailure (site.file names) }
      ∨ ((∀ content, disk.node? (site.locate names) = some (.file content) →
          following.catalog.Agrees (site.file names) content)
        ∧ ∀ entry ∈ following.catalog.modules, entry.file.components = (site.file names).components →
          ∃ content, disk.node? (site.locate names) = some (.file content)) := by
  have htells := shows.read names tracked
  -- What is read tells what is there, so that each verdict either shows the file as it is or leaves it pending.
  cases outcome with
  | known reading same =>
    have hthere := htells.of_text reading
    refine .inr ⟨fun content there => ?_, fun _ _ _ => ⟨_, hthere⟩⟩
    cases there.symm.trans hthere
    exact .of_text fun _ _ => (Session.hasDigest_iff tracks.consistent).mp same
  | malformed reading refused =>
    have hthere := htells.of_text reading
    refine .inr ⟨fun content there => ?_, fun _ _ _ => ⟨_, hthere⟩⟩
    cases there.symm.trans hthere
    exact .of_text fun _ hparsed => nomatch (functionsOf_eq_ok.mpr hparsed).symm.trans refused
  | parsed reading accepted taken =>
    have hthere := htells.of_text reading
    refine .inr ⟨fun content there => ?_, fun _ _ _ => ⟨_, hthere⟩⟩
    cases there.symm.trans hthere
    obtain ⟨new, hfile, -, hdigest, -, hmem⟩ := Session.mem_catalogWith? tracks.consistent taken
    exact .of_text fun _ _ => ⟨new, (hmem new).mpr (.inl rfl), hfile, hdigest⟩
  | foreign reading accepted refused =>
    obtain ⟨fresh, hfresh⟩ := tracks.empty?_isSome tracked
    cases hfresh.symm.trans (Session.catalogWith?_eq_none refused)
  | vanished reading verdict taken =>
    rcases htells.of_fault reading (by rw [verdict]; decide) with ⟨hverdict, -⟩ | ⟨-, hnone⟩
    · cases verdict.symm.trans hverdict
    · refine .inr ⟨fun content there => absurd there (hnone content), fun entry hentry hsame => ?_⟩
      exact absurd hsame ((Catalog.mem_erase? tracks.consistent taken).mp hentry).2
  | absent reading verdict unknown =>
    rcases htells.of_fault reading (by rw [verdict]; decide) with ⟨hverdict, -⟩ | ⟨-, hnone⟩
    · cases verdict.symm.trans hverdict
    · refine .inr ⟨fun content there => absurd there (hnone content), fun entry hentry hsame => ?_⟩
      exact absurd hsame (Catalog.erase?_eq_none tracks.consistent unknown entry hentry)
  | undecodable reading verdict =>
    rcases htells.of_fault reading (by rw [verdict]; decide) with ⟨-, hbinary⟩ | ⟨hverdict, -⟩
    · refine .inr ⟨fun content there text functions hcontent _ => ?_, fun _ _ _ => ⟨_, hbinary⟩⟩
      cases hcontent
      cases there.symm.trans hbinary
    · cases verdict.symm.trans hverdict
  | retried reading verdict patient => exact .inl rfl
  | exhausted reading verdict impatient => cases (tracks.patient _).symm.trans impatient

/-- A pending file that is there agrees with the catalog once it was read, unless it stays pending. -/
theorem Session.Covers.drained_there (covers : before.Covers site disk queue)
    (tracks : before.Tracks site texts) (shows : world.Shows site disk) (tracked : Trackable names)
    (outcome : Session.FileDrained world (site.file names) before following)
    {content : Disk.Content} (there : disk.node? (site.locate names) = some (.file content)) :
    Heralded (site.file names) queue ∨ following.Awaits (site.file names)
      ∨ following.catalog.Agrees (site.file names) content := by
  rcases tracks.drained_settled shows tracked outcome with rfl | ⟨hagrees, -⟩
  · rcases covers.fresh names content tracked there with h | h | h
    · exact .inl h
    · exact .inr (.inl (Or.imp_left Pending.contains_countFailure.trans h))
    · exact .inr (.inr h)
  · exact .inr (.inr (hagrees content there))

/-- The module of a pending file is that of a file that is there once the file was read, unless it stays
pending. -/
theorem Session.Covers.drained_known (covers : before.Covers site disk queue)
    (tracks : before.Tracks site texts) (shows : world.Shows site disk) (tracked : Trackable names)
    (outcome : Session.FileDrained world (site.file names) before following)
    {entry : Module} (known : entry ∈ following.catalog.modules) (file : entry.file = site.file names) :
    (∃ content, disk.node? (site.locate names) = some (.file content))
      ∨ Revoked (site.file names) queue ∨ following.Awaits (site.file names) := by
  rcases tracks.drained_settled shows tracked outcome with rfl | ⟨-, hthere⟩
  · rcases covers.gone names tracked entry known file with h | h | h
    · exact .inl h
    · exact .inr (.inl h)
    · exact .inr (.inr (Or.imp_left Pending.contains_countFailure.trans h))
  · exact .inl (hthere entry known (congrArg Path.components file))

/-- What is awaited still is when another file was read. -/
theorem Session.Awaits.drained {file path : Path} (awaits : before.Awaits path)
    (outcome : Session.FileDrained world file before following) (other : path.components ≠ file.components) :
    following.Awaits path := by
  obtain ⟨_, _, hframe⟩ := outcome.frame
  have hrescan : following.rescanDue = before.rescanDue := by rw [hframe]
  unfold Session.Awaits
  rw [hrescan]
  exact awaits.imp_left (outcome.contains_other other)

/-- Reading a pending file leaves every difference covered. -/
theorem Session.Covers.drained (covers : before.Covers site disk queue)
    (tracks : before.Tracks site texts) (shows : world.Shows site disk) (tracked : Trackable names)
    (outcome : Session.FileDrained world (site.file names) before following) :
    following.Covers site disk queue := by
  refine ⟨fun others content hothers there => ?_, fun others hothers entry hentry hfile => ?_⟩
  · by_cases hsame : others = names
    · rw [hsame] at there ⊢
      exact covers.drained_there tracks shows tracked outcome there
    · have hother : (site.file others).components ≠ (site.file names).components :=
        (Path.components_descend_inj hothers.valid tracked.valid).not.mpr hsame
      rcases covers.fresh others content hothers there with h | h | h
      · exact .inl h
      · exact .inr (.inl (h.drained outcome hother))
      · refine .inr (.inr fun text functions hcontent hparsed => ?_)
        obtain ⟨entry, hentry, hpath, hdigest⟩ := h text functions hcontent hparsed
        exact ⟨entry, (outcome.mem_other tracks.consistent (hpath ▸ hother)).mpr hentry, hpath, hdigest⟩
  · by_cases hsame : others = names
    · rw [hsame] at hfile ⊢
      exact covers.drained_known tracks shows tracked outcome hentry hfile
    · have hother : (site.file others).components ≠ (site.file names).components :=
        (Path.components_descend_inj hothers.valid tracked.valid).not.mpr hsame
      have hold := (outcome.mem_other tracks.consistent (hfile ▸ hother)).mp hentry
      rcases covers.gone others hothers entry hold hfile with h | h | h
      · exact .inl h
      · exact .inr (.inl h)
      · exact .inr (.inr (h.drained outcome hother))

end

/-! ## A whole drain -/

/-- A drain leaves everything known of a session in place and every difference covered. -/
theorem Session.Covers.drain {session : Session} (covers : session.Covers site disk queue) (now : Nat)
    (tracks : session.Tracks site texts) (plain : disk.Plain site) (holds : disk.HoldsOnly site texts)
    (shows : world.Shows site disk) :
    (session.drain world now).value.Tracks site texts
      ∧ (session.drain world now).value.Covers site disk queue
      ∧ (session.drain world now).value.Scheduled := by
  have hstep : ∀ file ∈ session.pending.paths, ∀ before following : Session,
      before.Tracks site texts ∧ before.Covers site disk queue →
        Session.FileDrained world file before following →
          following.Tracks site texts ∧ following.Covers site disk queue := by
    rintro file hfile before following ⟨hbefore, hcovers⟩ outcome
    obtain ⟨names, tracked, rfl⟩ := tracks.pending file hfile
    exact ⟨hbefore.drained plain holds shows tracked outcome,
      hcovers.drained hbefore shows tracked outcome⟩
  obtain ⟨last, ⟨hlast, hcovers⟩, hvalue⟩ := Session.drain_invariant now hstep
    ⟨{ tracks with }, { covers with }⟩
  have hscheduled := last.scheduleRetry_scheduled now
  obtain ⟨due, hdue⟩ := last.scheduleRetry_frame now
  rw [hvalue]
  refine ⟨?_, ?_, hscheduled⟩
  · rw [hdue]
    exact { hlast with }
  · rw [hdue]
    exact { hcovers with }

end

end TypingsIndex
