import TypingsIndex.Proofs.Path.Descent
import TypingsIndex.Watch.Pending

/-!
# Which files are pending

What each operation on the pending files does to the question whether a file is pending. Paths count by
their components, so that a file may be marked under one spelling and unmarked under another. The marks
are kept in the order of their paths (`Rising`), so that no file is marked twice.
-/

set_option autoImplicit false

namespace TypingsIndex.Pending

variable {pending : Pending} {path other directory : Path}

/-- A file is pending exactly if it is among the pending paths, in some spelling. -/
theorem contains_iff :
    pending.contains path = true ↔ ∃ marked ∈ pending.paths, marked.components = path.components := by
  unfold contains failures? paths
  rw [Option.isSome_map, List.find?_isSome]
  simp [Path.same_iff]

/-- Spellings of one path are pending together. -/
theorem contains_congr (h : path.components = other.components) :
    pending.contains path = pending.contains other := by
  rw [Bool.eq_iff_iff, contains_iff, contains_iff, h]

/-- Nothing is pending exactly if no path is. -/
theorem isEmpty_iff : pending.isEmpty = true ↔ pending.paths = [] := by
  simp [isEmpty, paths]

/-- An entry that was put in its place has its own path or that of one that was there. -/
theorem path_of_mem_place {failures : Nat} {entries : List (Path × Nat)} {entry : Path × Nat}
    (h : entry ∈ place path failures entries) : entry.1 = path ∨ ∃ old ∈ entries, old.1 = entry.1 := by
  induction entries with
  | nil =>
    left
    rw [List.mem_singleton.mp h]
  | cons first rest ih =>
    unfold place at h
    split at h
    · rcases List.mem_cons.mp h with rfl | hold
      · exact .inl rfl
      · exact .inr ⟨entry, hold, rfl⟩
    · rcases List.mem_cons.mp h with rfl | hold
      · exact .inr ⟨first, List.mem_cons_self, rfl⟩
      · exact .inr ⟨entry, List.mem_cons_of_mem _ hold, rfl⟩
    · rcases List.mem_cons.mp h with rfl | hold
      · exact .inr ⟨first, List.mem_cons_self, rfl⟩
      · rcases ih hold with hnew | ⟨old, hmem, hpath⟩
        · exact .inl hnew
        · exact .inr ⟨old, List.mem_cons_of_mem _ hmem, hpath⟩

/-- The paths after an entry was put in its place are those before it and its own. -/
theorem path_of_mem_paths_place {failures : Nat} {entries : List (Path × Nat)}
    (h : other ∈ paths ⟨place path failures entries⟩) : other = path ∨ other ∈ paths ⟨entries⟩ := by
  obtain ⟨entry, hentry, rfl⟩ := List.mem_map.mp h
  rcases path_of_mem_place hentry with hnew | ⟨old, hold, hpath⟩
  · exact .inl hnew
  · rw [← hpath]
    exact .inr (List.mem_map_of_mem hold)

/-- A file is pending after an entry was put in its place exactly if it was before or is the one of the entry. -/
theorem contains_place {failures : Nat} {entries : List (Path × Nat)} :
    contains ⟨place path failures entries⟩ other = true ↔
      path.components = other.components ∨ contains ⟨entries⟩ other = true := by
  simp only [contains_iff, paths]
  induction entries with
  | nil => simp [place]
  | cons entry rest ih =>
    obtain ⟨first, count⟩ := entry
    unfold place
    cases hcompare : Path.compare path first with
    | lt => simp
    | eq =>
      rw [Path.compare_eq_iff] at hcompare
      simp [hcompare]
    | gt =>
      simp only [List.map_cons, List.exists_mem_cons_iff, ih]
      exact or_left_comm

/-- A marked file is pending, and so is what was pending before. -/
theorem contains_insert :
    (pending.insert path).contains other = true ↔
      path.components = other.components ∨ pending.contains other = true := by
  unfold insert
  split
  · next hold =>
    constructor
    · exact .inr
    · rintro (hsame | h)
      · rwa [← contains_congr hsame]
      · exact h
  · exact contains_place

/-- Marking a file adds at most its path. -/
theorem paths_insert (h : other ∈ (pending.insert path).paths) :
    other = path ∨ other ∈ pending.paths := by
  unfold insert at h
  split at h
  · exact .inr h
  · exact path_of_mem_paths_place h

/-- The paths that are left after unmarking a file. -/
theorem mem_paths_erase :
    other ∈ (pending.erase path).paths ↔
      other ∈ pending.paths ∧ other.components ≠ path.components := by
  simp only [erase, paths, List.mem_map, List.mem_filter, Bool.not_eq_true', ← Bool.not_eq_true,
    Path.same_iff]
  constructor
  · rintro ⟨entry, ⟨hentry, hne⟩, rfl⟩
    exact ⟨⟨entry, hentry, rfl⟩, hne⟩
  · rintro ⟨⟨entry, hentry, rfl⟩, hne⟩
    exact ⟨entry, ⟨hentry, hne⟩, rfl⟩

/-- The paths that are left after unmarking everything at or below a directory. -/
theorem mem_paths_eraseBelow :
    other ∈ (pending.eraseBelow directory).paths ↔
      other ∈ pending.paths ∧ other.isAtOrBelow directory = false := by
  simp only [eraseBelow, paths, List.mem_map, List.mem_filter, Bool.not_eq_true']
  constructor
  · rintro ⟨entry, ⟨hentry, hne⟩, rfl⟩
    exact ⟨⟨entry, hentry, rfl⟩, hne⟩
  · rintro ⟨⟨entry, hentry, rfl⟩, hne⟩
    exact ⟨entry, ⟨hentry, hne⟩, rfl⟩

/-- Taking away the mark of a path adds none. -/
theorem erase_subset (pending : Pending) (path : Path) :
    ∀ other ∈ (pending.erase path).paths, other ∈ pending.paths :=
  fun _ h => (mem_paths_erase.mp h).1

/-- Taking away the marks below a path adds none. -/
theorem eraseBelow_subset (pending : Pending) (directory : Path) :
    ∀ other ∈ (pending.eraseBelow directory).paths, other ∈ pending.paths :=
  fun _ h => (mem_paths_eraseBelow.mp h).1

/-- Unmarking a file unmarks no other. -/
theorem contains_erase (hne : other.components ≠ path.components)
    (h : pending.contains other = true) : (pending.erase path).contains other = true := by
  obtain ⟨marked, hmarked, heq⟩ := contains_iff.mp h
  exact contains_iff.mpr ⟨marked, mem_paths_erase.mpr ⟨hmarked, heq ▸ hne⟩, heq⟩

/-- Unmarking everything at or below a directory unmarks nothing else. -/
theorem contains_eraseBelow (hout : other.isAtOrBelow directory = false)
    (h : pending.contains other = true) : (pending.eraseBelow directory).contains other = true := by
  obtain ⟨marked, hmarked, heq⟩ := contains_iff.mp h
  refine contains_iff.mpr ⟨marked, mem_paths_eraseBelow.mpr ⟨hmarked, ?_⟩, heq⟩
  unfold Path.isAtOrBelow at hout ⊢
  rwa [heq]

/-- Moving a mark adds at most the path that it is moved to. -/
theorem paths_rename {target : Path} (h : other ∈ (pending.rename path target).paths) :
    other = target ∨ other ∈ pending.paths := by
  unfold rename at h
  split at h
  · exact (path_of_mem_paths_place h).imp_right (erase_subset pending path other)
  · exact .inr h

/-- Where nothing is marked no mark moves. -/
theorem paths_rename_of_nil (h : pending.paths = []) : (pending.rename path other).paths = [] := by
  unfold rename
  split
  · next failures hfound =>
    have hmarked : pending.contains path = true := by
      unfold contains
      rw [hfound]
      rfl
    obtain ⟨marked, hmem, -⟩ := contains_iff.mp hmarked
    rw [h] at hmem
    cases hmem
  · exact h

/-- A mark that is moved from one file is on the other. -/
theorem contains_rename_target (h : pending.contains path = true) :
    (pending.rename path other).contains other = true := by
  unfold rename
  split
  · exact contains_place.mpr (.inl rfl)
  · next hnone =>
    unfold contains at h
    rw [hnone] at h
    cases h

/-- Moving the mark of one file leaves those of the others. -/
theorem contains_rename {target : Path} (hne : other.components ≠ path.components)
    (h : pending.contains other = true) : (pending.rename path target).contains other = true := by
  unfold rename
  split
  · exact contains_place.mpr (.inr (contains_erase hne h))
  · exact h

/-- Counting a failure marks and unmarks nothing. -/
theorem paths_countFailure : (pending.countFailure path).paths = pending.paths := by
  unfold countFailure paths
  rw [List.map_map]
  refine List.map_congr_left fun entry _ => ?_
  simp only [Function.comp_apply]
  split <;> rfl

/-- After counting a failure the same files are pending. -/
theorem contains_countFailure : (pending.countFailure path).contains other = pending.contains other := by
  rw [Bool.eq_iff_iff, contains_iff, contains_iff, paths_countFailure]

/-- The paths after marking several files are those before and those that were marked. -/
theorem paths_foldl_insert {files : List Path} (h : other ∈ (files.foldl insert pending).paths) :
    other ∈ files ∨ other ∈ pending.paths := by
  induction files generalizing pending with
  | nil => exact .inr h
  | cons file rest ih =>
    rcases ih h with hrest | hmarked
    · exact .inl (List.mem_cons_of_mem _ hrest)
    · rcases paths_insert hmarked with rfl | hold
      · exact .inl List.mem_cons_self
      · exact .inr hold

/-- All of several marked files are pending, and so is what was pending before. -/
theorem contains_foldl_insert {files : List Path}
    (h : other ∈ files ∨ pending.contains other = true) :
    (files.foldl insert pending).contains other = true := by
  induction files generalizing pending with
  | nil => exact h.resolve_left List.not_mem_nil
  | cons file rest ih =>
    apply ih
    rcases h with hfile | hold
    · rcases List.mem_cons.mp hfile with rfl | hrest
      · exact .inr (contains_insert.mpr (.inl rfl))
      · exact .inl hrest
    · exact .inr (contains_insert.mpr (.inr hold))

/-! ## The order of the marks -/

/-- The marks stand in the order of their paths, each path only once. -/
def Rising (pending : Pending) : Prop :=
  pending.entries.Pairwise fun a b => Path.compare a.1 b.1 = .lt

/-- Placing a mark keeps the marks sorted by their paths. -/
theorem place_rising {failures : Nat} {entries : List (Path × Nat)}
    (h : entries.Pairwise fun a b => Path.compare a.1 b.1 = .lt) :
    (place path failures entries).Pairwise fun a b => Path.compare a.1 b.1 = .lt := by
  induction entries with
  | nil => exact List.pairwise_singleton _ _
  | cons first rest ih =>
    obtain ⟨hfirst, hrest⟩ := List.pairwise_cons.mp h
    unfold place
    cases hcompare : Path.compare path first.1 with
    | lt =>
      refine List.pairwise_cons.mpr ⟨fun entry hentry => ?_, h⟩
      rcases List.mem_cons.mp hentry with rfl | hlater
      · exact hcompare
      · exact Std.TransCmp.lt_trans hcompare (hfirst entry hlater)
    | eq => exact List.pairwise_cons.mpr ⟨hfirst, hrest⟩
    | gt =>
      refine List.pairwise_cons.mpr ⟨fun entry hentry => ?_, ih hrest⟩
      rcases path_of_mem_place hentry with hnew | ⟨old, hold, hpath⟩
      · rw [hnew]
        exact Std.OrientedCmp.gt_iff_lt.mp hcompare
      · rw [← hpath]
        exact hfirst old hold

namespace Rising

/-- No marks are sorted. -/
theorem empty : (∅ : Pending).Rising :=
  List.Pairwise.nil

/-- Marks stay sorted when a path is marked. -/
theorem insert (rising : pending.Rising) : (pending.insert path).Rising := by
  unfold Pending.insert
  split
  · exact rising
  · exact place_rising rising

/-- Marks stay sorted when one is taken away. -/
theorem erase (rising : pending.Rising) : (pending.erase path).Rising :=
  List.Pairwise.filter _ rising

/-- Marks stay sorted when those below a path are taken away. -/
theorem eraseBelow (rising : pending.Rising) : (pending.eraseBelow directory).Rising :=
  List.Pairwise.filter _ rising

/-- Marks stay sorted when one moves to another path. -/
theorem rename (rising : pending.Rising) : (pending.rename path other).Rising := by
  unfold Pending.rename
  split
  · exact place_rising rising.erase
  · exact rising

/-- Marks stay sorted when a failure is counted. -/
theorem countFailure (rising : pending.Rising) : (pending.countFailure path).Rising := by
  unfold Pending.countFailure
  refine List.pairwise_map.mpr (rising.imp fun {a b} h => ?_)
  split <;> split <;> exact h

/-- Marks stay sorted when several paths are marked. -/
theorem foldl_insert {files : List Path} (rising : pending.Rising) :
    (files.foldl Pending.insert pending).Rising := by
  induction files generalizing pending with
  | nil => exact rising
  | cons file rest ih => exact ih rising.insert

/-- No two pending paths are spellings of one. -/
theorem paths_distinct (rising : pending.Rising) :
    pending.paths.Pairwise fun a b => a.components ≠ b.components := by
  refine List.pairwise_map.mpr (rising.imp fun {a b} h heq => ?_)
  rw [Path.compare_eq_iff.mpr heq] at h
  cases h

end Rising

/-- An entry whose path comes after all others goes to the end. -/
theorem place_last {failures : Nat} {entries : List (Path × Nat)}
    (h : ∀ entry ∈ entries, Path.compare entry.1 path = .lt) :
    place path failures entries = entries ++ [(path, failures)] := by
  induction entries with
  | nil => rfl
  | cons first rest ih =>
    obtain ⟨hfirst, hrest⟩ := List.forall_mem_cons.mp h
    unfold place
    rw [Std.OrientedCmp.gt_iff_lt.mpr hfirst]
    simp only [ih hrest, List.cons_append]

/-- Files that are marked in rising order, after all that are marked already, follow them without a failure. -/
theorem foldl_insert_rising {files : List Path} {entries : List (Path × Nat)}
    (rising : (entries.map Prod.fst ++ files).Pairwise fun a b => Path.compare a b = .lt) :
    files.foldl insert ⟨entries⟩ = ⟨entries ++ files.map fun file => (file, 0)⟩ := by
  induction files generalizing entries with
  | nil => simp
  | cons file rest ih =>
    have hbefore : ∀ entry ∈ entries, Path.compare entry.1 file = .lt := by
      intro entry hentry
      have hcross := (List.pairwise_append.mp rising).2.2
      exact hcross entry.1 (List.mem_map_of_mem hentry) file List.mem_cons_self
    have hunmarked : contains ⟨entries⟩ file = false := by
      rw [← Bool.not_eq_true, contains_iff]
      rintro ⟨marked, hmarked, hsame⟩
      obtain ⟨entry, hentry, rfl⟩ := List.mem_map.mp hmarked
      have hlt := hbefore entry hentry
      rw [Path.compare_eq_iff.mpr hsame] at hlt
      cases hlt
    have hinsert : insert ⟨entries⟩ file = ⟨entries ++ [(file, 0)]⟩ := by
      unfold insert
      rw [hunmarked, if_neg Bool.false_ne_true, place_last hbefore]
    rw [List.foldl_cons, hinsert, ih (by simpa using rising)]
    simp

/-! ## Marks without that of one file -/

section

variable {file : Path}

/-- It does not matter which of two marks is taken away first. -/
theorem erase_comm : (pending.erase path).erase file = (pending.erase file).erase path := by
  unfold erase
  rw [List.filter_comm]

/-- Which mark is taken away depends on the components of the path only. -/
theorem erase_congr (same : path.components = file.components) : pending.erase path = pending.erase file := by
  unfold erase Path.same
  rw [same]

/-- Taking away a mark twice is taking it away once. -/
theorem erase_same (same : path.components = file.components) :
    (pending.erase path).erase file = pending.erase file := by
  rw [erase_congr same]
  unfold erase
  rw [List.filter_filter]
  simp only [Bool.and_self]

/-- Taking away the mark of one file does not change the count of another. -/
theorem failures?_erase (ne : path.components ≠ file.components) :
    (pending.erase file).failures? path = pending.failures? path := by
  unfold erase failures?
  rw [List.find?_filter]
  congr 2
  funext entry
  cases hpath : entry.1.same path with
  | true => simp [Path.same_eq_false ne hpath]
  | false => simp

/-- A file whose mark was taken away has no count. -/
theorem failures?_erase_same (same : path.components = file.components) :
    (pending.erase file).failures? path = none := by
  unfold erase failures?
  rw [Option.map_eq_none_iff, List.find?_eq_none]
  intro entry hentry hpath
  obtain ⟨-, hkept⟩ := List.mem_filter.mp hentry
  rw [Path.same_iff.mpr ((Path.same_iff.mp hpath).trans same)] at hkept
  cases hkept

/-- Nothing changes where a file is unmarked that has no mark. -/
theorem erase_of_unmarked (unmarked : pending.contains file = false) : pending.erase file = pending := by
  have hnone : ∀ entry ∈ pending.entries, (!entry.1.same file) = true := by
    intro entry hentry
    rw [← Bool.not_eq_true, contains_iff] at unmarked
    rw [Bool.not_eq_true', ← Bool.not_eq_true, Path.same_iff]
    exact fun hsame => unmarked ⟨entry.1, List.mem_map_of_mem hentry, hsame⟩
  unfold erase
  rw [List.filter_eq_self.mpr hnone]

/-- An entry that was put in its place is found there with its count. -/
theorem failures?_place_same {failures : Nat} {entries : List (Path × Nat)} :
    failures? ⟨place path failures entries⟩ path = some failures := by
  have hself : path.same path = true := Path.same_iff.mpr rfl
  unfold failures?
  induction entries with
  | nil => simp [place, hself]
  | cons first rest ih =>
    unfold place
    cases hcompare : Path.compare path first.1 with
    | lt => simp [hself]
    | eq => simp [Path.same_iff.mpr (Path.compare_eq_iff.mp hcompare).symm]
    | gt =>
      have hother : first.1.same path = false := by
        rw [← Bool.not_eq_true, Path.same_iff, ← Path.compare_eq_iff, Std.OrientedCmp.eq_comm, hcompare]
        exact nofun
      simp only [List.find?_cons, hother]
      exact ih

/-- Counting a failure of a path leaves the paths of all marks. -/
theorem erase_countFailure : (pending.countFailure path).erase file = (pending.erase file).countFailure path := by
  unfold countFailure erase
  rw [List.filter_map]
  congr 2
  refine List.filter_congr fun entry _ => ?_
  simp only [Function.comp_apply]
  split <;> rfl

/-- A failure that was counted does not show once the mark of the file is taken away. -/
theorem erase_countFailure_same (same : path.components = file.components) :
    (pending.countFailure path).erase file = pending.erase file := by
  have hid : ∀ entry ∈ (pending.erase file).entries,
      (if entry.1.same path then (entry.1, entry.2 + 1) else entry) = entry := by
    intro entry hentry
    obtain ⟨-, hkept⟩ := List.mem_filter.mp hentry
    rw [Bool.not_eq_true'] at hkept
    unfold Path.same at hkept ⊢
    rw [same, hkept]
    rfl
  rw [erase_countFailure]
  unfold countFailure
  rw [List.map_congr_left hid, List.map_id']

/-- A mark that comes before all others is placed in front. -/
theorem place_of_lt {failures : Nat} {entries : List (Path × Nat)}
    (h : ∀ entry ∈ entries, Path.compare path entry.1 = .lt) :
    place path failures entries = (path, failures) :: entries := by
  cases entries with
  | nil => rfl
  | cons first rest =>
    unfold place
    rw [h first List.mem_cons_self]

/-- An entry goes to its place among the others, whether that of a file stands between them or not. -/
theorem erase_place {failures : Nat} {entries : List (Path × Nat)} (ne : path.components ≠ file.components)
    (rising : Rising ⟨entries⟩) :
    erase ⟨place path failures entries⟩ file = ⟨place path failures (erase ⟨entries⟩ file).entries⟩ := by
  have hpath : path.same file = false := Path.same_eq_false ne (Path.same_iff.mpr rfl)
  induction entries with
  | nil => simp [erase, place, hpath]
  | cons first rest ih =>
    obtain ⟨hfirst, hrest⟩ := List.pairwise_cons.mp rising
    unfold erase at ih ⊢
    rw [Pending.mk.injEq] at ih ⊢
    cases hcompare : Path.compare path first.1 with
    | lt =>
      have hall : ∀ entry ∈ first :: rest, Path.compare path entry.1 = .lt := by
        intro entry hentry
        rcases List.mem_cons.mp hentry with rfl | hlater
        · exact hcompare
        · exact Std.TransCmp.lt_trans hcompare (hfirst entry hlater)
      rw [place_of_lt hall, place_of_lt fun entry hentry => hall entry (List.mem_of_mem_filter hentry)]
      exact List.filter_cons_of_pos (by rw [hpath]; rfl)
    | eq =>
      have hkept : first.1.same file = false :=
        Path.same_eq_false ne (Path.same_iff.mpr (Path.compare_eq_iff.mp hcompare).symm)
      simp [place, hcompare, hkept]
    | gt =>
      have hplace : ∀ others, place path failures (first :: others) = first :: place path failures others := by
        intro others
        conv_lhs => unfold place
        rw [hcompare]
      rw [hplace]
      cases hfirstFile : first.1.same file with
      | true => simpa [hfirstFile] using ih hrest
      | false => simpa [hfirstFile, hplace] using ih hrest

/-- A mark that was placed does not show once the mark of the file is taken away. -/
theorem erase_place_same {failures : Nat} {entries : List (Path × Nat)}
    (same : path.components = file.components) :
    erase ⟨place path failures entries⟩ file = erase ⟨entries⟩ file := by
  have hpath : path.same file = true := Path.same_iff.mpr same
  unfold erase
  rw [Pending.mk.injEq]
  induction entries with
  | nil => simp [place, hpath]
  | cons first rest ih =>
    unfold place
    cases hcompare : Path.compare path first.1 with
    | lt => simp [hpath]
    | eq =>
      have hfirst : first.1.same file = true :=
        Path.same_iff.mpr ((Path.compare_eq_iff.mp hcompare).symm.trans same)
      simp [hfirst]
    | gt => simp only [List.filter_cons, ih]

/-- A file may be marked after the mark of another is taken away. -/
theorem erase_insert (rising : pending.Rising) (ne : path.components ≠ file.components) :
    (pending.insert path).erase file = (pending.erase file).insert path := by
  unfold insert contains
  rw [failures?_erase ne]
  split
  · rfl
  · exact erase_place ne rising

/-- Marking a file does not show once its mark is taken away. -/
theorem erase_insert_same (same : path.components = file.components) :
    (pending.insert path).erase file = pending.erase file := by
  unfold insert
  split
  · rfl
  · exact erase_place_same same

/-- Of several marked files, one may as well not have been marked if its mark is taken away afterwards. -/
theorem erase_foldl_insert {files : List Path} (rising : pending.Rising) :
    (files.foldl insert pending).erase file =
      (files.filter fun path => !path.same file).foldl insert (pending.erase file) := by
  induction files generalizing pending with
  | nil => rfl
  | cons path rest ih =>
    rw [List.foldl_cons, ih rising.insert]
    cases hpath : path.same file with
    | true => rw [erase_insert_same (Path.same_iff.mp hpath), List.filter_cons_of_neg (by simp [hpath])]
    | false =>
      have hne : path.components ≠ file.components := fun heq => by
        rw [Path.same_iff.mpr heq] at hpath
        cases hpath
      rw [erase_insert rising hne, List.filter_cons_of_pos (by simp [hpath]), List.foldl_cons]

end

end TypingsIndex.Pending
