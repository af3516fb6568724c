import Mathlib.Data.List.Induction
import TypingsIndex.Proofs.Watch.Scene

/-!
# News on the way

What the commands in flight say of one path: that a touch at or above it will be told, that a removal will, and
that no removal will be told last. Every change of the disk puts news behind the others from which these
can be read (`Site.Change.file_after`, `Site.Change.file_before`).
-/

set_option autoImplicit false

namespace TypingsIndex

/-- News of a touch of a path, or of a directory that it is in, is on the way. -/
def Heralded (path : Path) (queue : List Command) : Prop :=
  ∃ source, .touched source ∈ queue ∧ path.isAtOrBelow source = true

/-- News of a removal of a path, or of a directory that it is in, is on the way. -/
def Revoked (path : Path) (queue : List Command) : Prop :=
  ∃ source, .removed source ∈ queue ∧ path.isAtOrBelow source = true

/-- After every news of a removal comes news of a touch. -/
def Returns (path : Path) : List Command → Prop
  | [] => True
  | command :: rest => (Revoked path [command] → Heralded path rest) ∧ Returns path rest

section

variable {path source : Path} {queue more : List Command} {command : Command}

/-- News of a touch is on the way in one queue or in the other. -/
theorem heralded_append :
    Heralded path (queue ++ more) ↔ Heralded path queue ∨ Heralded path more := by
  simp only [Heralded, List.mem_append, or_and_right, exists_or]

/-- News of a removal is on the way in one queue or in the other. -/
theorem revoked_append :
    Revoked path (queue ++ more) ↔ Revoked path queue ∨ Revoked path more := by
  simp only [Revoked, List.mem_append, or_and_right, exists_or]

/-- News of a touch comes first or later. -/
theorem heralded_cons :
    Heralded path (command :: queue) ↔ Heralded path [command] ∨ Heralded path queue :=
  @heralded_append path [command] queue

/-- News of a removal comes first or later. -/
theorem revoked_cons :
    Revoked path (command :: queue) ↔ Revoked path [command] ∨ Revoked path queue :=
  @revoked_append path [command] queue

/-- The news of a touch heralds what is at or below its path. -/
@[simp] theorem heralded_touched :
    Heralded path [.touched source] ↔ path.isAtOrBelow source = true := by
  simp [Heralded]

/-- The news of a removal heralds nothing. -/
@[simp] theorem not_heralded_removed : ¬ Heralded path [.removed source] := by
  simp [Heralded]

/-- The news of a removal revokes what is at or below its path. -/
@[simp] theorem revoked_removed :
    Revoked path [.removed source] ↔ path.isAtOrBelow source = true := by
  simp [Revoked]

/-- The news of a touch revokes nothing. -/
@[simp] theorem not_revoked_touched : ¬ Revoked path [.touched source] := by
  simp [Revoked]

/-- A path that is touched last returns, whatever is told before. -/
theorem Returns.append_heralded (heralded : Heralded path [command]) :
    Returns path (queue ++ [command]) := by
  induction queue with
  | nil =>
    refine ⟨fun revoked => ?_, trivial⟩
    obtain ⟨touched, htouched, -⟩ := heralded
    obtain ⟨removed, hremoved, -⟩ := revoked
    rw [List.mem_singleton] at htouched hremoved
    exact absurd (htouched.trans hremoved.symm) Command.noConfusion
  | cons first rest ih => exact ⟨fun _ => heralded_append.mpr (.inr heralded), ih⟩

/-- A path that returns still does if the last news does not remove it. -/
theorem Returns.append (returns : Returns path queue) (kept : ¬ Revoked path [command]) :
    Returns path (queue ++ [command]) := by
  induction queue with
  | nil => exact ⟨fun revoked => absurd revoked kept, trivial⟩
  | cons first rest ih =>
    exact ⟨fun revoked => heralded_append.mpr (.inl (returns.1 revoked)), ih returns.2⟩

end

/-! ## The news of a change -/

/-- A command tells of a touch or a removal strictly below the root. -/
def Site.Local (site : Site) (command : Command) : Prop :=
  ∃ names, names ≠ [] ∧ (∀ name ∈ names, Path.IsName name)
    ∧ (command = .touched (site.file names) ∨ command = .removed (site.file names))

section

variable {site : Site} {disk : Disk}

/-- What a name leads to lies in a directory. -/
theorem Disk.Plain.directory_above (plain : disk.Plain site) {above below : List String}
    (there : (disk.node? (site.locate (above ++ below))).isSome = true) (nonempty : below ≠ []) :
    disk.hasDirectory (site.locate above) = true := by
  induction below using List.reverseRecOn with
  | nil => exact absurd rfl nonempty
  | append_singleton front name ih =>
    rw [← List.append_assoc] at there
    have hparent := plain.parent _ _ there
    cases front with
    | nil => rwa [List.append_nil] at hparent
    | cons first rest =>
      apply ih
      · rw [Disk.hasDirectory_iff.mp hparent]
        rfl
      · exact List.cons_ne_nil first rest

/-- No directory on the way to something has the name of a declaration file. -/
theorem Disk.Plain.no_declaration_above (plain : disk.Plain site) {names : List String}
    (there : (disk.node? (site.locate names)).isSome = true) :
    ∀ name ∈ names.dropLast, ¬ IsDeclarationName name := by
  intro name hname
  have hnonempty : names ≠ [] := by
    rintro rfl
    cases hname
  obtain ⟨front, back, hsplit⟩ := List.append_of_mem hname
  have hnames : names = (front ++ [name]) ++ (back ++ [names.getLast hnonempty]) := by
    conv_lhs => rw [← List.dropLast_concat_getLast hnonempty, hsplit]
    simp
  rw [hnames] at there
  exact plain.no_declaration front name (plain.directory_above there (by simp))

/-- Nothing lies below a place where there is nothing. -/
theorem Disk.Plain.nothing_below (plain : disk.Plain site) {above below : List String}
    (free : disk.node? (site.locate above) = none) :
    disk.node? (site.locate (above ++ below)) = none := by
  by_contra hthere
  rw [← ne_eq, Option.ne_none_iff_isSome] at hthere
  by_cases hbelow : below = []
  · rw [hbelow, List.append_nil, free] at hthere
    cases hthere
  · rw [Disk.hasDirectory_iff.mp (plain.directory_above hthere hbelow)] at free
    cases free

/-- Names lie below other names on the disk exactly if they do below the root. -/
theorem Site.locate_prefix {above names : List String} :
    site.locate above <+: site.locate names ↔ above <+: names :=
  List.prefix_append_right_inj site.location

/-- Different names lie at different places of the disk. -/
theorem Site.locate_inj {names others : List String} :
    site.locate names = site.locate others ↔ names = others :=
  List.append_cancel_left_eq site.location names others ▸ Iff.rfl

/-- What has a name below the root is not the root of the disk. -/
theorem Site.locate_ne_nil {names : List String} (h : names ≠ []) : site.locate names ≠ [] :=
  List.append_ne_nil_of_right_ne_nil _ h

variable {after : Disk} {command : Command} (change : site.Change disk command after)
  (plain : disk.Plain site) (afterPlain : after.Plain site)

include change plain afterPlain

/-- A change is told by news of a place below the root. -/
theorem Site.Change.is_local : site.Local command := by
  cases change with
  | @written names content below free =>
    have hthere : (disk.put (site.locate names) (.file content)).node? (site.locate names) = some _ :=
      Disk.node?_put_self (site.locate_ne_nil below)
    exact ⟨names, below, afterPlain.proper names (by rw [hthere]; rfl), .inl rfl⟩
  | @deleted names below there => exact ⟨names, below, plain.proper names there, .inr rfl⟩
  | @grown _ names below free top elsewhere =>
    exact ⟨names, below, afterPlain.proper names (by rw [Disk.hasDirectory_iff.mp top]; rfl), .inl rfl⟩

/-- A file that is there after a change was there before, with the same content and not removed by the
news, or the news heralds it. -/
theorem Site.Change.file_after {names : List String} {content : Disk.Content}
    (there : after.node? (site.locate names) = some (.file content)) :
    (disk.node? (site.locate names) = some (.file content) ∧ ¬ Revoked (site.file names) [command])
      ∨ Heralded (site.file names) [command] := by
  have hvalid := afterPlain.proper names (by rw [there]; rfl)
  cases change with
  | @written changed written below free =>
    by_cases hsame : names = changed
    · right
      rw [hsame]
      exact heralded_touched.mpr (Path.isAtOrBelow_iff.mpr List.prefix_rfl)
    · left
      rw [Disk.node?_put_of_ne (site.locate_inj.not.mpr hsame)] at there
      exact ⟨there, not_revoked_touched⟩
  | @deleted changed below gone =>
    have hchanged := plain.proper changed gone
    by_cases hbelow : changed <+: names
    · rw [Disk.node?_clear_of_prefix (site.locate_ne_nil below) (site.locate_prefix.mpr hbelow)] at there
      cases there
    · left
      rw [Disk.node?_clear_of_not_prefix (site.locate_prefix.not.mpr hbelow)] at there
      refine ⟨there, ?_⟩
      rw [revoked_removed, Site.file, Site.file, Path.isAtOrBelow_descend hvalid hchanged]
      exact hbelow
  | @grown _ changed below free top elsewhere =>
    have hchanged := afterPlain.proper changed (by rw [Disk.hasDirectory_iff.mp top]; rfl)
    by_cases hbelow : changed <+: names
    · right
      rw [heralded_touched, Site.file, Site.file, Path.isAtOrBelow_descend hvalid hchanged]
      exact hbelow
    · left
      rw [elsewhere _ (site.locate_prefix.not.mpr hbelow)] at there
      exact ⟨there, not_revoked_touched⟩

/-- A file that was there before a change is there after it, or the news revokes it. -/
theorem Site.Change.file_before {names : List String} {content : Disk.Content}
    (there : disk.node? (site.locate names) = some (.file content)) :
    (∃ content, after.node? (site.locate names) = some (.file content))
      ∨ Revoked (site.file names) [command] := by
  have hvalid := plain.proper names (by rw [there]; rfl)
  cases change with
  | @written changed written below free =>
    left
    by_cases hsame : names = changed
    · exact ⟨written, by rw [hsame, Disk.node?_put_self (site.locate_ne_nil below)]⟩
    · exact ⟨content, by rw [Disk.node?_put_of_ne (site.locate_inj.not.mpr hsame), there]⟩
  | @deleted changed below gone =>
    have hchanged := plain.proper changed gone
    by_cases hbelow : changed <+: names
    · right
      rw [revoked_removed, Site.file, Site.file, Path.isAtOrBelow_descend hvalid hchanged]
      exact hbelow
    · left
      exact ⟨content, by rw [Disk.node?_clear_of_not_prefix (site.locate_prefix.not.mpr hbelow), there]⟩
  | @grown _ changed below free top elsewhere =>
    by_cases hbelow : changed <+: names
    · obtain ⟨rest, rfl⟩ := hbelow
      rw [plain.nothing_below free] at there
      cases there
    · left
      exact ⟨content, by rw [elsewhere _ (site.locate_prefix.not.mpr hbelow), there]⟩

end

end TypingsIndex
