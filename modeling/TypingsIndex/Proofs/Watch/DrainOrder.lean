import TypingsIndex.Proofs.Watch.Isolation
import TypingsIndex.Proofs.Watch.Publication

/-!
# The order in which a drain works

A drain reads each pending file once, in the order of the paths (`drain_reads`). The catalog shows that order: the
modules that were there before keep theirs, as far as they are left, and the new ones follow them in the order of
their paths (`drain_grows`). For a single file this is so because its module is changed where it stands, taken out or
put at the end (`Reworked`). Over a whole drain it needs two facts about the files that are still to be read: their
modules are there if they were at the start, so that no module is taken for new that is not, and they come after all
files with a new module.
-/

set_option autoImplicit false

namespace TypingsIndex

/-! ## What the reading of one file does to the modules -/

/-- What can become of the modules when one file is read. -/
inductive Listing.Reworked (file : Path) (before : Listing) : Listing → Prop where
  | same : Reworked file before before
  | changed (f : Module → Module) (keeps : ∀ entry, (f entry).file = entry.file) :
      Reworked file before (before.change file f)
  | appended (entry : Module) (own : entry.file = file) (unknown : before.has file = false) :
      Reworked file before (before ++ [entry])
  | dropped : Reworked file before (before.without file)

/-- Reading one file does no more than that to the modules. -/
theorem Session.FileDrained.reworks {world : Surroundings} {file : Path} {before after : Session}
    (drained : FileDrained world file before after) (consistent : before.catalog.Consistent) :
    Listing.Reworked file before.catalog.modules after.catalog.modules := by
  cases drained with
  | @parsed text functions catalog reading accepted taken =>
    have hsettled : (before.settled file).catalog.Consistent := consistent
    have hmodules := catalogWith?_map hsettled file functions text
    rw [taken, Option.map_some] at hmodules
    unfold Listing.refill? at hmodules
    split at hmodules
    · rw [Option.some_or] at hmodules
      rw [Option.some.inj hmodules]
      exact .changed _ fun _ => rfl
    · next hunknown =>
      rw [Bool.not_eq_true] at hunknown
      rw [Option.none_or] at hmodules
      obtain ⟨fresh, hfresh, hput⟩ := Option.map_eq_some_iff.mp hmodules.symm
      obtain ⟨names, -, rfl⟩ := Option.map_eq_some_iff.mp hfresh
      have happended : ∀ entry : Module, entry.file = file →
          Listing.put before.catalog.modules entry = before.catalog.modules ++ [entry] := by
        rintro entry rfl
        exact if_neg (Bool.eq_false_iff.mp hunknown)
      rw [← hput]
      change Listing.Reworked file before.catalog.modules (Listing.put before.catalog.modules _)
      rw [happended _ rfl]
      exact .appended _ rfl hunknown
  | @vanished fault entry catalog reading verdict taken =>
    have htaken := Catalog.erase?_map consistent file
    rw [taken] at htaken
    obtain ⟨found, -, heq⟩ := Option.map_eq_some_iff.mp htaken.symm
    have hmodules : Listing.without before.catalog.modules file = catalog.modules := congrArg Prod.snd heq
    change Listing.Reworked file before.catalog.modules catalog.modules
    rw [← hmodules]
    exact .dropped
  | _ => exact .same

/-! ## What several readings do to them -/

/-- Modules that have come of earlier ones: some that are left, in their order, and new ones behind them in the order of
their paths. -/
structure Growth (before kept fresh : Listing) : Prop where
  left : (Catalog.keys kept).Sublist (Catalog.keys before)
  new : ∀ entry ∈ fresh, entry.file.components ∉ Catalog.keys before
  rising : fresh.Pairwise fun a b => Path.compare a.file b.file = .lt

/-- The same in the middle of a drain. -/
structure Growing (before : Listing) (rest : List Path) (kept fresh : Listing) : Prop extends
    Growth before kept fresh where
  /-- The files that are still to be read have the modules that they had. -/
  ahead : ∀ file ∈ rest, file.components ∈ Catalog.keys before → file.components ∈ Catalog.keys kept
  /-- They come after all that have a new module. -/
  behind : ∀ entry ∈ fresh, ∀ file ∈ rest, Path.compare entry.file file = .lt

namespace Growing

variable {before kept fresh after : Listing} {file : Path} {rest : List Path}

/-- Before a drain reads any file, all modules are left and none is new. -/
theorem start (modules : Listing) (files : List Path) : Growing modules files modules [] where
  left := List.Sublist.refl _
  new _ hentry := absurd hentry List.not_mem_nil
  rising := List.Pairwise.nil
  ahead _ _ hknown := hknown
  behind _ hentry := absurd hentry List.not_mem_nil

/-- No new module is that of the next file. -/
theorem not_same (growing : Growing before (file :: rest) kept fresh) :
    ∀ entry ∈ fresh, entry.file.same file = false := by
  intro entry hentry
  have hbehind := growing.behind entry hentry file List.mem_cons_self
  rw [← Bool.not_eq_true, Path.same_iff, ← Path.compare_eq_iff, hbehind]
  exact nofun

/-- The modules go on growing with the reading of the next file. -/
theorem next (growing : Growing before (file :: rest) kept fresh)
    (rising : ∀ other ∈ rest, Path.compare file other = .lt) (reworked : Listing.Reworked file (kept ++ fresh) after) :
    ∃ kept fresh, after = kept ++ fresh ∧ Growing before rest kept fresh := by
  have hahead : ∀ other ∈ rest, other.components ∈ Catalog.keys before → other.components ∈ Catalog.keys kept :=
    fun other hother => growing.ahead other (List.mem_cons_of_mem file hother)
  have hbehind : ∀ entry ∈ fresh, ∀ other ∈ rest, Path.compare entry.file other = .lt :=
    fun entry hentry other hother => growing.behind entry hentry other (List.mem_cons_of_mem file hother)
  cases reworked with
  | same => exact ⟨kept, fresh, rfl, growing.toGrowth, hahead, hbehind⟩
  | changed f keeps =>
    have hkeys : Catalog.keys (Listing.change kept file f) = Catalog.keys kept := by
      unfold Catalog.keys Listing.change
      rw [List.map_map]
      refine List.map_congr_left fun entry _ => ?_
      simp only [Function.comp_apply]
      split
      · rw [keeps]
      · rfl
    have hfresh : Listing.change fresh file f = fresh := by
      unfold Listing.change
      conv_rhs => rw [← List.map_id fresh]
      refine List.map_congr_left fun entry hentry => ?_
      rw [growing.not_same entry hentry, if_neg Bool.false_ne_true]
      rfl
    refine ⟨Listing.change kept file f, fresh, ?_, ⟨?_, growing.new, growing.rising⟩, ?_, hbehind⟩
    · conv_rhs => rw [← hfresh]
      exact List.map_append
    · rw [hkeys]
      exact growing.left
    · rw [hkeys]
      exact hahead
  | appended entry own unknown =>
    -- had the file had a module at the start, it would still have it
    have hnew : entry.file.components ∉ Catalog.keys before := by
      intro hknown
      rw [own] at hknown
      obtain ⟨old, hold, hpath⟩ := List.mem_map.mp (growing.ahead file List.mem_cons_self hknown)
      exact Listing.has_eq_false_iff.mp unknown old (List.mem_append_left fresh hold) hpath
    refine ⟨kept, fresh ++ [entry], List.append_assoc kept fresh [entry], ⟨growing.left, ?_, ?_⟩, hahead, ?_⟩
    · intro other hother
      rcases List.mem_append.mp hother with hold | hlast
      · exact growing.new other hold
      · rw [List.mem_singleton.mp hlast]
        exact hnew
    · refine List.pairwise_append.mpr ⟨growing.rising, List.pairwise_singleton _ _, ?_⟩
      intro other hother last hlast
      rw [List.mem_singleton.mp hlast, own]
      exact growing.behind other hother file List.mem_cons_self
    · intro other hother later hlater
      rcases List.mem_append.mp hother with hold | hlast
      · exact hbehind other hold later hlater
      · rw [List.mem_singleton.mp hlast, own]
        exact rising later hlater
  | dropped =>
    have hfresh : Listing.without fresh file = fresh :=
      List.filter_eq_self.mpr fun entry hentry => by rw [growing.not_same entry hentry]; rfl
    refine ⟨Listing.without kept file, fresh, ?_, ⟨?_, growing.new, growing.rising⟩, ?_, hbehind⟩
    · conv_rhs => rw [← hfresh]
      exact List.filter_append kept fresh
    · exact (List.filter_sublist.map _).trans growing.left
    · intro other hother hknown
      obtain ⟨old, hold, hpath⟩ := List.mem_map.mp (hahead other hother hknown)
      refine List.mem_map.mpr ⟨old, Listing.mem_without.mpr ⟨hold, fun hsame => ?_⟩, hpath⟩
      have hlt := rising other hother
      rw [Path.compare_eq_iff.mpr (hsame.symm.trans hpath)] at hlt
      cases hlt

end Growing

namespace Session

variable (world : Surroundings)

/-- The modules grow with the files that are read. -/
theorem foldlM_drainFile_grows {before kept fresh : Listing} {files : List Path} {draining : Draining}
    (rising : files.Pairwise fun a b => Path.compare a b = .lt) (consistent : draining.session.catalog.Consistent)
    (modules : draining.session.catalog.modules = kept ++ fresh) (growing : Growing before files kept fresh) :
    ∃ kept fresh, (files.foldlM (drainFile world) draining).value.session.catalog.modules = kept ++ fresh
      ∧ Growth before kept fresh := by
  induction files generalizing draining kept fresh with
  | nil => exact ⟨kept, fresh, modules, growing.toGrowth⟩
  | cons file rest ih =>
    obtain ⟨hfile, hrest⟩ := List.pairwise_cons.mp rising
    have hdrained := drainFile_drained world draining file
    have hreworked := hdrained.reworks consistent
    rw [modules] at hreworked
    obtain ⟨kept, fresh, hmodules, hgrowing⟩ := growing.next hfile hreworked
    rw [List.foldlM_cons, Turn.value_bind]
    exact ih hrest (hdrained.consistent consistent) hmodules hgrowing

/-- Of the modules before a drain those that are left keep their order, and the new ones follow in the order of their
paths. -/
theorem drain_grows (now : Nat) {session : Session} (sound : session.Sound) :
    ∃ kept fresh, (session.drain world now).value.catalog.modules = kept ++ fresh
      ∧ Growth session.catalog.modules kept fresh := by
  obtain ⟨read, hread, hdrain⟩ := drain_eq world now session
  have hrising : session.pending.paths.Pairwise fun a b => Path.compare a b = .lt := List.pairwise_map.mpr sound.rising
  have hstart := Growing.start session.catalog.modules session.pending.paths
  have hmodules : session.catalog.modules = session.catalog.modules ++ [] := (List.append_nil _).symm
  let begun : Draining := ⟨{ session with drainDue := none }, false⟩
  have hgrown := @foldlM_drainFile_grows world _ _ _ _ begun hrising sound.consistent hmodules hstart
  rw [hdrain, hread, scheduleRetry_catalog]
  exact hgrown

/-- The readings of several files are told in their order. -/
theorem foldlM_drainFile_reads (draining : Draining) (files : List Path) :
    (files.foldlM (drainFile world) draining).effects.filterMap Effect.reading? =
      files.map fun file => (file, world.read file) := by
  induction files generalizing draining with
  | nil => rfl
  | cons file rest ih =>
    obtain ⟨asides, heffects, hasides⟩ := drainFile_effects world draining file
    have hnone : asides.filterMap Effect.reading? = [] :=
      List.filterMap_eq_nil_iff.mpr fun effect heffect => (hasides effect heffect).reading?
    have hread : Effect.reading? (.read file (world.read file)) = some (file, world.read file) := rfl
    calc ((file :: rest).foldlM (drainFile world) draining).effects.filterMap Effect.reading?
        = (drainFile world draining file).effects.filterMap Effect.reading?
          ++ (rest.foldlM (drainFile world) (drainFile world draining file).value).effects.filterMap
            Effect.reading? := by
          rw [List.foldlM_cons, Turn.effects_bind, List.filterMap_append]
      _ = [(file, world.read file)] ++ rest.map fun file => (file, world.read file) := by
          rw [ih, heffects, List.filterMap_cons_some hread, hnone]
      _ = (file :: rest).map fun file => (file, world.read file) := rfl

/-- A drain reads every pending file once, in their order, and nothing else. -/
theorem drain_reads (now : Nat) (session : Session) :
    (session.drain world now).effects.filterMap Effect.reading? =
      session.pending.paths.map fun file => (file, world.read file) := by
  obtain ⟨read, hread, hdrain⟩ := drain_eq world now session
  have hpublished : (if read.value.changed then Effect.publication read.value.session.catalog else []).filterMap
      Effect.reading? = [] := by
    split <;> rfl
  calc (session.drain world now).effects.filterMap Effect.reading?
      = read.effects.filterMap Effect.reading? := by
        rw [hdrain, List.filterMap_append, hpublished, List.append_nil]
    _ = session.pending.paths.map fun file => (file, world.read file) := by
        rw [hread]
        exact foldlM_drainFile_reads world _ _

end Session

end TypingsIndex
