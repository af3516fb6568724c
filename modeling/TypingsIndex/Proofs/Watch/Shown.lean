import TypingsIndex.Disk.Operations
import TypingsIndex.Proofs.Disk.Lookup
import TypingsIndex.Proofs.Watch.News

/-!
# A disk shows itself

The surroundings that a disk gives show the disk, whichever reads are made to fail in a way that may pass: what
is asked of the surroundings of a session in a scene is what the disk answers.
-/

set_option autoImplicit false

namespace TypingsIndex

/-- A reading that failed in a way that may pass tells anything. -/
theorem Reading.Passing.tells {reading : Reading} (passing : reading.Passing) (node : Option Disk.Node) :
    reading.Tells node := by
  unfold Reading.Tells
  split <;> exact .inr passing

/-- A walk finds the files below a directory that have no hidden name, under the names below it. -/
theorem Disk.found?_eq_some_iff {directory : Disk.Location} {entry : Disk.Location × Disk.Node}
    {names : List String} :
    Disk.found? directory entry = some names ↔
      ∃ content, entry = (directory ++ names, .file content)
        ∧ ∀ name ∈ names, Session.isHidden name = false := by
  obtain ⟨location, node⟩ := entry
  unfold Disk.found?
  constructor
  · intro h
    split at h
    · next below content hbelow hnode =>
      rw [Option.ite_none_left_eq_some] at h
      obtain ⟨hshown, hsome⟩ := h
      obtain rfl := Option.some.inj hsome
      rw [List.isPrefixOf?_eq_some_iff_append_eq] at hbelow
      dsimp only at hbelow hnode
      rw [← hbelow, hnode]
      refine ⟨content, rfl, fun name hname => ?_⟩
      rw [← Bool.not_eq_true]
      exact fun hhidden => hshown (List.any_eq_true.mpr ⟨name, hname, hhidden⟩)
    · cases h
  · rintro ⟨content, heq, hshown⟩
    cases heq
    have hbelow : directory.isPrefixOf? (directory ++ names) = some names :=
      List.isPrefixOf?_eq_some_iff_append_eq.mpr rfl
    simp only [hbelow]
    refine if_neg fun hhidden => ?_
    obtain ⟨name, hname, hdot⟩ := List.any_eq_true.mp hhidden
    cases (hshown name hname).symm.trans hdot

/-- The root of a site has its absolute path, and directories lead to it. Every place is listed once, and no
directory below the root has a path that a file system would not take. -/
structure Disk.Anchored (disk : Disk) (site : Site) : Prop where
  path : site.path = Disk.pathOf site.location
  nonempty : site.location ≠ []
  proper : ∀ name ∈ site.location, Path.IsName name
  way : ∀ above, above <+: site.location → disk.hasDirectory above = true
  once : (disk.nodes.map Prod.fst).Nodup
  short : ∀ names, disk.hasDirectory (site.locate names) = true →
    (Disk.pathOf (site.locate names)).text.utf8ByteSize ≤ Disk.longestPath
  no_nul : ∀ names, disk.hasDirectory (site.locate names) = true →
    '\x00' ∉ (Disk.pathOf (site.locate names)).text.toList
  short_names : ∀ names, disk.hasDirectory (site.locate names) = true →
    ∀ name ∈ site.locate names, name.utf8ByteSize ≤ Disk.longestName

section

variable {site : Site} {disk : Disk} (anchored : disk.Anchored site)

include anchored

/-- A path below the root is the absolute path of its place. -/
theorem Disk.Anchored.file_eq {names : List String} (valid : ∀ name ∈ names, Path.IsName name) :
    site.file names = Disk.pathOf (site.locate names) := by
  unfold Site.file Site.locate
  rw [anchored.path]
  exact Disk.descend_pathOf anchored.proper valid

variable (plain : disk.Plain site)

include plain

/-- There is no link on the way to any place below the root. -/
theorem Disk.Anchored.linkless (names : List String) : disk.Linkless [] (site.locate names) := by
  intro front hfront target hlink
  rw [List.nil_append] at hlink
  rcases List.prefix_or_prefix_of_prefix hfront (List.prefix_append site.location names) with h | h
  · rw [Disk.hasDirectory_iff.mp (anchored.way front h)] at hlink
    cases hlink
  · obtain ⟨below, rfl⟩ := h
    exact plain.no_link below target hlink

/-- The way to what is there is open. -/
theorem Disk.Anchored.open {names : List String}
    (there : (disk.node? (site.locate names)).isSome = true) : disk.Open [] (site.locate names) := by
  intro front hfront hne
  rw [List.nil_append]
  rcases List.prefix_or_prefix_of_prefix hfront (List.prefix_append site.location names) with h | h
  · exact anchored.way front h
  · obtain ⟨above, rfl⟩ := h
    obtain ⟨below, rfl⟩ := (List.prefix_append_right_inj site.location).mp hfront
    refine plain.directory_above there ?_
    rintro rfl
    exact hne (by rw [List.append_nil]; rfl)

/-- Looking up a path below the root has one of the outcomes of looking up its place. -/
theorem Disk.Anchored.located {names : List String} (valid : ∀ name ∈ names, Path.IsName name) :
    disk.Located (site.locate names) (disk.locate (site.file names)) := by
  rw [anchored.file_eq valid]
  refine Disk.locate_located (List.append_ne_nil_of_left_ne_nil anchored.nonempty names) ?_
    (anchored.linkless plain names)
  intro name hname
  rcases List.mem_append.mp hname with h | h
  · exact anchored.proper name h
  · exact valid name h

/-- A path below the root leads to a directory if one is there. -/
theorem Disk.Anchored.isDirectory_eq {names : List String} (valid : ∀ name ∈ names, Path.IsName name) :
    disk.isDirectory (site.file names) = disk.hasDirectory (site.locate names) := by
  have hlocated := anchored.located plain valid
  unfold Disk.isDirectory
  revert hlocated
  generalize disk.locate (site.file names) = result
  intro hlocated
  cases hlocated with
  | found there => rfl
  | missing absent =>
    symm
    rw [← Bool.not_eq_true]
    intro hdirectory
    have hthere := Disk.hasDirectory_iff.mp hdirectory
    rcases absent with h | h
    · rw [h] at hthere
      cases hthere
    · exact h (anchored.open plain (by rw [hthere]; rfl))
  | failed passing reason =>
    symm
    rw [← Bool.not_eq_true]
    intro hdirectory
    have hthere := Disk.hasDirectory_iff.mp hdirectory
    rcases reason with h | h | h | ⟨name, hname, hlong⟩
    · exact h (anchored.open plain (by rw [hthere]; rfl))
    · exact absurd (anchored.short names hdirectory) (Nat.not_le.mpr h)
    · exact anchored.no_nul names hdirectory h
    · exact absurd (anchored.short_names names hdirectory name hname) (Nat.not_le.mpr hlong)

/-- Reading a path below the root tells what is there. -/
theorem Disk.Anchored.read_tells {names : List String} (valid : ∀ name ∈ names, Path.IsName name) :
    (disk.read (site.file names)).Tells (disk.node? (site.locate names)) := by
  have hlocated := anchored.located plain valid
  unfold Disk.read
  revert hlocated
  generalize disk.locate (site.file names) = result
  intro hlocated
  cases hlocated with
  | found there =>
    cases hnode : disk.node? (site.locate names) with
    | none =>
      rw [hnode] at there
      cases there
    | some node =>
      simp only [hnode]
      cases node with
      | file content =>
        cases content with
        | text text => exact .inl rfl
        | binary => exact .inl ⟨_, rfl, rfl⟩
      | directory => exact .inr ⟨_, rfl, rfl⟩
      | link target => exact .inr ⟨_, rfl, rfl⟩
  | missing absent =>
    have hnone : disk.node? (site.locate names) = none := by
      rcases absent with h | h
      · exact h
      · by_contra hsome
        exact h (anchored.open plain (Option.isSome_iff_ne_none.mpr hsome))
    rw [hnone]
    exact .inl ⟨_, rfl, rfl⟩
  | failed passing reason => exact Reading.Passing.tells ⟨_, rfl, passing⟩ _

/-- The path of the root leads to the root. -/
theorem Disk.Anchored.locate_root : disk.locate site.path = .ok site.location := by
  have hroot : site.locate [] = site.location := List.append_nil _
  have hfile : site.file [] = site.path := rfl
  have hlocated : disk.Located (site.locate []) (disk.locate (site.file [])) :=
    anchored.located plain (by simp)
  have hdirectory : disk.isDirectory (site.file []) = disk.hasDirectory (site.locate []) :=
    anchored.isDirectory_eq plain (by simp)
  rw [hfile, hroot] at hlocated hdirectory
  rw [plain.root] at hdirectory
  unfold Disk.isDirectory at hdirectory
  cases hresult : disk.locate site.path with
  | error fault =>
    rw [hresult] at hdirectory
    cases hdirectory
  | ok location =>
    rw [hresult] at hlocated
    cases hlocated
    rfl

/-- A walk through the root finds the files below it that have no hidden name. -/
theorem Disk.Anchored.mem_walk {path : Path} :
    path ∈ disk.walk site.path ↔
      ∃ names content, path = site.file names ∧ (∀ name ∈ names, Session.isHidden name = false)
        ∧ disk.node? (site.locate names) = some (.file content) := by
  have hdash : site.path.same ⟨"-"⟩ = false := by
    rw [← Bool.not_eq_true, Path.same_iff]
    intro heq
    have hhead := Disk.head?_components_pathOf anchored.nonempty anchored.proper
    rw [← anchored.path, heq] at hhead
    cases hhead
  unfold Disk.walk
  rw [anchored.locate_root plain]
  dsimp only
  rw [hdash, if_neg Bool.false_ne_true, List.mem_map]
  have hlisted : ∀ names content, disk.node? (site.locate names) = some (.file content) ↔
      (site.location ++ names, Disk.Node.file content) ∈ disk.nodes := fun names content =>
    Disk.node?_eq_some_iff anchored.once (List.append_ne_nil_of_left_ne_nil anchored.nonempty names)
  constructor
  · rintro ⟨names, hnames, rfl⟩
    obtain ⟨entry, hentry, hfound⟩ := List.mem_filterMap.mp hnames
    obtain ⟨content, rfl, hshown⟩ := Disk.found?_eq_some_iff.mp hfound
    exact ⟨names, content, rfl, hshown, (hlisted names content).mpr hentry⟩
  · rintro ⟨names, content, rfl, hshown, there⟩
    exact ⟨names, List.mem_filterMap.mpr ⟨_, (hlisted names content).mp there,
      Disk.found?_eq_some_iff.mpr ⟨content, rfl, hshown⟩⟩, rfl⟩

/-- A disk in which some reads fail in a way that may pass shows itself. -/
theorem Disk.Anchored.shows {instead : List (Path × Reading)} (failing : ∀ entry ∈ instead, entry.2.Passing)
    (watchFault : Path → Option Failure) : (disk.surroundings instead watchFault).Shows site disk where
  isDirectory names valid := anchored.isDirectory_eq plain valid
  read names tracked := by
    unfold Disk.surroundings
    dsimp only
    split
    · next entry hentry => exact (failing entry (List.mem_of_find?_eq_some hentry)).tells _
    · exact anchored.read_tells plain tracked.valid
  walk path := anchored.mem_walk plain

/-- A disk shows itself when no read is made to fail. -/
theorem Disk.Anchored.shows_undisturbed : disk.undisturbed.Shows site disk :=
  anchored.shows plain (fun _ h => absurd h List.not_mem_nil) disk.watchFault

end

/-! ## Flat disks -/

namespace Disk

/-- A root of one name. -/
def flatSite : Site := ⟨["p"], ⟨"/p"⟩⟩

/-- The disk with these texts in files of these names in the root, and nothing else. -/
def flat (files : List (String × String)) : Disk :=
  ⟨(["p"], .directory) :: files.map fun file => (["p", file.1], .file (.text file.2)), []⟩

variable {files : List (String × String)} (once : (files.map Prod.fst).Nodup)

include once

/-- The files of a flat disk lie at different places. -/
theorem flat_once : ((flat files).nodes.map Prod.fst).Nodup := by
  have hnames : (flat files).nodes.map Prod.fst = ["p"] :: (files.map Prod.fst).map fun name => ["p", name] := by
    simp [flat, Function.comp_def]
  rw [hnames, List.nodup_cons]
  refine ⟨by simp, once.map fun a b h => ?_⟩
  simpa using h

/-- What lies where on a flat disk. -/
theorem node?_flat {names : List String} {node : Node} :
    (flat files).node? (flatSite.locate names) = some node ↔
      (names = [] ∧ node = .directory)
        ∨ ∃ file ∈ files, names = [file.1] ∧ node = .file (.text file.2) := by
  rw [Disk.node?_eq_some_iff (flat_once once) (by simp [flatSite, Site.locate])]
  unfold flat flatSite Site.locate
  simp only [List.mem_cons, List.mem_map, Prod.mk.injEq, List.cons_append, List.nil_append,
    List.cons.injEq, true_and]
  constructor
  · rintro (h | ⟨file, hfile, hnames, hnode⟩)
    · exact .inl h
    · exact .inr ⟨file, hfile, hnames.symm, hnode.symm⟩
  · rintro (h | ⟨file, hfile, hnames, hnode⟩)
    · exact .inl h
    · exact .inr ⟨file, hfile, hnames.symm, hnode.symm⟩

/-- The only directory of a flat disk is its root. -/
theorem hasDirectory_flat {names : List String} :
    (flat files).hasDirectory (flatSite.locate names) = true ↔ names = [] := by
  rw [hasDirectory_iff, node?_flat once]
  simp

/-- A flat disk with proper names is plain. -/
theorem flat_plain (valid : ∀ file ∈ files, Path.IsName file.1) : (flat files).Plain flatSite where
  root := by
    have hroot : (flat files).hasDirectory (flatSite.locate []) = true := (hasDirectory_flat once).mpr rfl
    exact hroot
  parent names name h := by
    obtain ⟨node, hnode⟩ := Option.isSome_iff_exists.mp h
    rw [hasDirectory_flat once]
    rcases (node?_flat once).mp hnode with ⟨hnil, -⟩ | ⟨file, -, hsingle, -⟩
    · simp at hnil
    · exact (List.append_eq_singleton_iff.mp hsingle).elim (fun h => h.1) fun h => absurd h.2 (by simp)
  no_link names target h := by
    rcases (node?_flat once).mp h with ⟨-, h⟩ | ⟨_, -, -, h⟩ <;> cases h
  no_declaration names name h := by simp [hasDirectory_flat once] at h
  proper names h := by
    obtain ⟨node, hnode⟩ := Option.isSome_iff_exists.mp h
    rcases (node?_flat once).mp hnode with ⟨rfl, -⟩ | ⟨file, hfile, rfl, -⟩
    · simp
    · simpa using valid file hfile

/-- A flat disk holds the texts of its files. -/
theorem flat_holds {texts : String → Prop} (h : ∀ file ∈ files, texts file.2) :
    (flat files).HoldsOnly flatSite texts := by
  intro names text there
  rcases (node?_flat once).mp there with ⟨-, hnode⟩ | ⟨file, hfile, -, hnode⟩
  · cases hnode
  · cases hnode
    exact h file hfile

/-- A flat disk is in its usual place. -/
theorem flat_anchored : (flat files).Anchored flatSite where
  path := rfl
  nonempty := by decide
  proper := by
    intro name hname
    rw [List.mem_singleton.mp hname]
    exact ⟨by decide, by decide, by decide, by decide⟩
  way above h := by
    rcases List.prefix_cons_iff.mp h with rfl | ⟨rest, rfl, hrest⟩
    · rfl
    · rw [List.prefix_nil.mp hrest]
      rfl
  once := flat_once once
  short names h := by
    rw [(hasDirectory_flat once).mp h]
    decide
  no_nul names h := by
    rw [(hasDirectory_flat once).mp h]
    decide
  short_names names h := by
    rw [(hasDirectory_flat once).mp h]
    decide

end Disk

end TypingsIndex
