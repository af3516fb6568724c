import TypingsIndex.Proofs.Watch.Coverage.Drain
import TypingsIndex.Proofs.Watch.Coverage.Rebuild
import TypingsIndex.Proofs.Watch.Coverage.Tracking
import TypingsIndex.Proofs.Watch.Renames.Moves

/-!
# Modules follow their files

The session learns of a move later than it happens, so a module may be known by a name that its file has no longer.
Its digest is current if the commands in flight lead from this name to the file that has the content, or to a touch or
a move of another file onto the way, after which the session reads again (`Site.Current`). Changes of the disk keep
digests current, since what they change their own news tells (`Site.Current.changed`, `Site.Current.moved_on`). News
that are told keep the session following (`Session.Follows`). Only a reading can break this: when it finds another
file where one has moved away, and the session is yet to be told of the move (`Site.current_of_vacated`).
-/

set_option autoImplicit false

namespace TypingsIndex

/-- Whether the digest of a module that is known by names is still that of its file when the commands in flight have
been told, or one of them makes the session read the file again, or the file is tracked no more. -/
inductive Site.Current (site : Site) (disk : Disk) (digest : Option Digest) : List String → List Command → Prop where
  | shown {names : List String}
      (same : ∀ text functions, disk.node? (site.locate names) = some (.file (.text text)) →
        Signature.parseText text = .ok functions → digest = some (Digest.ofText text)) :
      Current site disk digest names []
  | touched {names : List String} {command : Command} {rest : List Command}
      (heralded : Heralded (site.file names) [command]) : Current site disk digest names (command :: rest)
  | replaced {names : List String} {source : Path} {rest : List Command} :
      Current site disk digest names (.renamed source (site.file names) :: rest)
  | moved {names others : List String} {rest : List Command} (tracked : Trackable others)
      (later : Current site disk digest others rest) :
      Current site disk digest names (.renamed (site.file names) (site.file others) :: rest)
  | left {names : List String} {target : Path} {rest : List Command}
      (untracked : ∀ others, Trackable others → target ≠ site.file others) :
      Current site disk digest names (.renamed (site.file names) target :: rest)
  | kept {names : List String} {command : Command} {rest : List Command}
      (stays : ∀ target, command ≠ .renamed (site.file names) target) (later : Current site disk digest names rest) :
      Current site disk digest names (command :: rest)

/-- A command in flight tells of a change or of a move. -/
def Site.News (site : Site) (command : Command) : Prop :=
  site.Local command ∨ site.LocalMove command

/-- The digest of every module that the session does not read again is current. -/
def Session.Follows (session : Session) (site : Site) (disk : Disk) (queue : List Command) : Prop :=
  ∀ names, Trackable names → ∀ entry ∈ session.catalog.modules, entry.file = site.file names →
    session.Awaits (site.file names) ∨ site.Current disk entry.digest names queue

section

variable {site : Site} {disk after : Disk} {texts : String → Prop} {digest : Option Digest}
  {names others : List String} {command : Command} {queue rest : List Command}

/-- Names below the root that lead to the same components are the same. -/
theorem Site.components_inj (valid : ∀ name ∈ names, Path.IsName name)
    (othersValid : ∀ name ∈ others, Path.IsName name) :
    (site.file names).components = (site.file others).components ↔ names = others :=
  Path.components_descend_inj valid othersValid

/-- Different names below the root are different files. -/
theorem Site.file_inj (valid : ∀ name ∈ names, Path.IsName name) (othersValid : ∀ name ∈ others, Path.IsName name)
    (h : site.file names = site.file others) : names = others :=
  (Site.components_inj valid othersValid).mp (congrArg Path.components h)

/-- A touch or a removal is no move. -/
theorem Site.Local.ne_renamed (told : site.Local command) (source target : Path) :
    command ≠ .renamed source target := by
  rintro rfl
  obtain ⟨_, -, -, h | h⟩ := told <;> cases h

/-! ## Changes of the disk -/

namespace Site.Current

/-- What the last news does to a digest that would be current without it, it does at the end of any news. -/
theorem append (current : site.Current disk digest names queue) (tracked : Trackable names)
    (last : ∀ others, Trackable others → site.Current disk digest others [] →
      site.Current after digest others [command]) : site.Current after digest names (queue ++ [command]) := by
  -- the disk is looked at only where the commands end, and the last one is met there
  induction current with
  | shown same => exact last _ tracked (.shown same)
  | touched heralded => exact .touched heralded
  | replaced => exact .replaced
  | moved trackedOthers later ih => exact .moved trackedOthers (ih trackedOthers)
  | left untracked => exact .left untracked
  | kept stays later ih => exact .kept stays (ih tracked)

/-- Content that is there without any news is what it was read from. -/
theorem same_of_nil (current : site.Current disk digest names []) {text : String} {functions : List Signature}
    (there : disk.node? (site.locate names) = some (.file (.text text)))
    (parsed : Signature.parseText text = .ok functions) : digest = some (Digest.ofText text) := by
  cases current with
  | shown same => exact same text functions there parsed

/-- A change leaves a digest current. -/
theorem changed (current : site.Current disk digest names queue) (tracked : Trackable names)
    (change : site.Change disk command after) (plain : disk.Plain site) (afterPlain : after.Plain site) :
    site.Current after digest names (queue ++ [command]) := by
  refine current.append tracked fun others _ before => ?_
  by_cases hheralded : Heralded (site.file others) [command]
  · exact .touched hheralded
  · refine .kept (fun target => (change.is_local plain afterPlain).ne_renamed _ target)
      (.shown fun text functions there parsed => ?_)
    obtain ⟨hbefore, -⟩ := (change.file_after plain afterPlain there).resolve_right hheralded
    exact before.same_of_nil hbefore parsed

/-- A move leaves a digest current: the module of a file that has moved will follow it. -/
theorem moved_on (current : site.Current disk digest names queue) (tracked : Trackable names)
    (move : site.Move disk command after) (plain : disk.Plain site) (afterPlain : after.Plain site) :
    site.Current after digest names (queue ++ [command]) := by
  obtain ⟨source, target, movable, rfl, hnode, hothers⟩ := move.outcome plain afterPlain
  refine current.append tracked fun others hother before => ?_
  by_cases htarget : others = target
  · rw [htarget]
    exact .replaced
  · by_cases hsource : others = source
    · rw [← hsource] at hnode ⊢
      by_cases htracked : Trackable target
      · refine .moved htracked (.shown fun text functions there parsed => ?_)
        exact before.same_of_nil (hnode.symm.trans there) parsed
      · refine .left fun elsewhere helsewhere heq => htracked ?_
        rw [Site.file_inj movable.target_valid helsewhere.valid heq]
        exact helsewhere
    · refine .kept (fun path heq => ?_) (.shown fun text functions there parsed => ?_)
      · injection heq with hpath _
        exact hsource (Site.file_inj movable.source_valid hother.valid hpath).symm
      · exact before.same_of_nil ((hothers others _ there).resolve_left htarget).2 parsed

/-- What news of a move mean for a module: another file comes to its place, or its own file goes, or neither. -/
theorem renamed_cases {source target : List String} (movable : Movable source target) (tracked : Trackable names)
    (current : site.Current disk digest names (.renamed (site.file source) (site.file target) :: rest)) :
    names = target ∨ (names = source ∧ (Trackable target → site.Current disk digest target rest))
      ∨ (names ≠ source ∧ site.Current disk digest names rest) := by
  generalize hqueue : Command.renamed (site.file source) (site.file target) :: rest = queue at current
  cases current with
  | shown same => cases hqueue
  | touched heralded =>
    injection hqueue with hcommand _
    subst hcommand
    obtain ⟨_, htouched, -⟩ := heralded
    cases List.mem_singleton.mp htouched
  | replaced =>
    injection hqueue with hcommand _
    injection hcommand with _ htarget
    exact .inl (Site.file_inj movable.target_valid tracked.valid htarget).symm
  | @moved _ others _ trackedOthers later =>
    injection hqueue with hcommand hrest
    injection hcommand with hsource htarget
    subst hrest
    refine .inr (.inl ⟨(Site.file_inj movable.source_valid tracked.valid hsource).symm, fun _ => ?_⟩)
    rw [Site.file_inj movable.target_valid trackedOthers.valid htarget]
    exact later
  | left untracked =>
    injection hqueue with hcommand _
    injection hcommand with hsource htarget
    refine .inr (.inl ⟨(Site.file_inj movable.source_valid tracked.valid hsource).symm, fun htracked => ?_⟩)
    exact absurd htarget.symm (untracked target htracked)
  | kept stays later =>
    injection hqueue with hcommand hrest
    subst hcommand hrest
    refine .inr (.inr ⟨?_, later⟩)
    rintro rfl
    exact stays _ rfl

end Site.Current

/-- What was just read is current, unless the session is yet to be told that the file has moved away. -/
theorem Site.current_of_vacated (news : ∀ command ∈ queue, site.News command) (tracked : Trackable names)
    (vacated : ∀ target, .renamed (site.file names) (site.file target) ∈ queue → ¬ Trackable target)
    (same : site.Current disk digest names []) : site.Current disk digest names queue := by
  -- of the commands only a move of this very file matters, and that leads to a name that is not tracked
  induction queue with
  | nil => exact same
  | cons command rest ih =>
    have hrest := ih (fun other hother => news other (List.mem_cons_of_mem _ hother))
      fun target htarget => vacated target (List.mem_cons_of_mem _ htarget)
    rcases news command List.mem_cons_self with hchange | ⟨source, target, movable, rfl⟩
    · exact .kept (fun target => hchange.ne_renamed _ target) hrest
    · by_cases hsource : names = source
      · rw [← hsource]
        refine .left fun others hothers heq => vacated others ?_ hothers
        rw [← hsource, ← heq]
        exact List.mem_cons_self
      · refine .kept (fun path heq => ?_) hrest
        injection heq with hpath _
        exact hsource (Site.file_inj movable.source_valid tracked.valid hpath).symm

end

end TypingsIndex
