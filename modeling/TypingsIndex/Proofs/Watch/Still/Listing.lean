import TypingsIndex.Proofs.Scan.Listed
import TypingsIndex.Proofs.Watch.OneFile
import TypingsIndex.Proofs.Watch.Still.Spellings

/-!
# A disk that does not change

On a disk in good order a walk through an existing directory lists every shown file once, under its absolute path. What
can be read below the directory without going through a link is one of these files (`exists_listed`), so that touches
admit no other files than scans do. Of a listed file no spelling is ever missing, and what is read under a spelling is
read under the listed path (`Surroundings.Still`).
-/

set_option autoImplicit false

namespace TypingsIndex

namespace Disk

section

variable {disk : Disk} (wellFormed : disk.WellFormed) {location : Location}
  (directory : disk.isDirectory (pathOf location) = true) (there : disk.hasDirectory location = true)

include wellFormed there

/-- The names on the way to a directory are names of a path. -/
theorem WellFormed.valid_directory : ∀ name ∈ location, Path.IsName name :=
  wellFormed.valid (by rw [hasDirectory_iff.mp there]; rfl)

/-- There is no link on the way to a directory. -/
theorem WellFormed.linkless_directory : disk.Linkless [] location :=
  wellFormed.linkless (hasDirectory_iff.mp there) fun _ h => by cases h

include directory

/-- The path of a directory leads to it. -/
theorem WellFormed.locate_directory : disk.locate (pathOf location) = .ok location := by
  have hsighted : disk.Sighted (pathOf location) location (disk.locate (pathOf location)) :=
    locate_sighted (components_pathOf (wellFormed.valid_directory there)) (wellFormed.linkless_directory there)
  unfold isDirectory at directory
  generalize disk.locate (pathOf location) = result at hsighted directory
  cases hsighted with
  | found => rfl
  | missing absent => cases directory
  | passing verdict => cases directory

omit directory there in
/-- What the walk finds below a directory is a file there. -/
theorem WellFormed.node?_of_found {entry : Location × Node} {names : List String} (mem : entry ∈ disk.nodes)
    (found : found? location entry = some names) :
    ∃ content, disk.node? (location ++ names) = some (.file content) ∧ entry.1 = location ++ names := by
  obtain ⟨content, rfl, -⟩ := found?_eq_some_iff.mp found
  exact ⟨content, (node?_eq_some_iff wellFormed.once (wellFormed.nonempty _ mem)).mpr mem, rfl⟩

/-- The walk lists the files that are found below a directory, under its path. -/
theorem WellFormed.walk_eq :
    disk.walk (pathOf location) =
      (disk.nodes.filterMap (found? location)).map fun names => pathOf (location ++ names) := by
  have hvalid := wellFormed.valid_directory there
  have hinput : (pathOf location).same ⟨"-"⟩ = false := by
    rw [← Bool.not_eq_true, Path.same_iff, components_pathOf hvalid]
    exact fun h => by cases h
  unfold walk
  rw [wellFormed.locate_directory directory there]
  dsimp only
  rw [hinput, if_neg Bool.false_ne_true]
  refine List.map_congr_left fun names hnames => ?_
  obtain ⟨entry, hentry, hfound⟩ := List.mem_filterMap.mp hnames
  obtain ⟨content, hnode, -⟩ := wellFormed.node?_of_found hentry hfound
  exact descend_pathOf hvalid fun name hname =>
    wellFormed.valid (by rw [hnode]; rfl) name (List.mem_append_right _ hname)

/-- A walk through a directory lists the files below it that have no hidden name. -/
theorem WellFormed.mem_walk_iff {path : Path} :
    path ∈ disk.walk (pathOf location) ↔ ∃ names content,
      disk.node? (location ++ names) = some (.file content)
        ∧ (∀ name ∈ names, Session.isHidden name = false) ∧ path = pathOf (location ++ names) := by
  rw [wellFormed.walk_eq directory there]
  simp only [List.mem_map, List.mem_filterMap, found?_eq_some_iff]
  constructor
  · rintro ⟨names, ⟨entry, hentry, content, rfl, hshown⟩, rfl⟩
    have hnode := (node?_eq_some_iff wellFormed.once (wellFormed.nonempty _ hentry)).mpr hentry
    exact ⟨names, content, hnode, hshown, rfl⟩
  · rintro ⟨names, content, hnode, hshown, rfl⟩
    have hnonempty : location ++ names ≠ [] := by
      intro hnil
      rw [hnil] at hnode
      cases hnode
    exact ⟨names, ⟨_, (node?_eq_some_iff wellFormed.once hnonempty).mp hnode, content, rfl, hshown⟩, rfl⟩

/-- The walk lists every file once, by the names that lead to it. -/
theorem WellFormed.walksOnce (instead : List (Path × Reading)) (watchFault : Path → Option Failure) :
    (disk.surroundings instead watchFault).WalksOnce (pathOf location) := by
  have hvalid := wellFormed.valid_directory there
  constructor
  · intro path hpath
    obtain ⟨names, content, hnode, -, rfl⟩ := (wellFormed.mem_walk_iff directory there).mp hpath
    have hnonempty : names ≠ [] := by
      rintro rfl
      rw [List.append_nil, hasDirectory_iff.mp there] at hnode
      cases hnode
    have hall : ∀ name ∈ location ++ names, Path.IsName name := wellFormed.valid (by rw [hnode]; rfl)
    exact ⟨names, hnonempty, by rw [components_pathOf hall, components_pathOf hvalid, List.map_append,
      List.cons_append]⟩
  · have hapart : disk.nodes.Pairwise fun a b => a.1 ≠ b.1 := List.pairwise_map.mp wellFormed.once
    change (disk.walk (pathOf location)).Pairwise _
    rw [wellFormed.walk_eq directory there, List.pairwise_map, List.pairwise_filterMap]
    refine hapart.imp_of_mem fun {a b} ha hb hne names hfound others hothers heq => hne ?_
    obtain ⟨_, hnode, hfirst⟩ := wellFormed.node?_of_found ha hfound
    obtain ⟨_, hother, hsecond⟩ := wellFormed.node?_of_found hb hothers
    rw [components_pathOf (wellFormed.valid (by rw [hnode]; rfl)),
      components_pathOf (wellFormed.valid (by rw [hother]; rfl))] at heq
    have hsame : location ++ names = location ++ others :=
      List.map_injective_iff.mpr (fun x y h => Path.Component.name.inj h) (List.cons.inj heq).2
    rw [hfirst, hsecond, hsame]

end

end Disk

/-! ## What touches admit -/

/-- Of the files that a scan lists no spelling is missing, and what is read under a spelling is read under the listed
path. -/
structure Surroundings.Still (world : Surroundings) (root : Path) : Prop where
  exists_root : world.isDirectory root = true
  walks : world.WalksOnce root
  there : ∀ file ∈ Scan.listed world root, ∀ path : Path, path.components = file.components →
    (world.read path).isMissing = false
  alike : ∀ file ∈ Scan.listed world root, ∀ path : Path, path.components = file.components → ∀ text,
    (world.read path).result = .ok text → (world.read file).result = .ok text

/-- There is no link on the way from a directory to a path below it. -/
def Disk.Direct (disk : Disk) (location : Disk.Location) (path : Path) : Prop :=
  ∀ names : List String, path.components = (Disk.pathOf location).components ++ names.map .name →
    disk.Linkless location names

/-- What is no link is reached from a directory without links, under any spelling. -/
theorem Disk.WellFormed.direct {disk : Disk} (wellFormed : disk.WellFormed) {location : Disk.Location}
    {names : List String} {node : Disk.Node} (there : disk.node? (location ++ names) = some node)
    (direct : ∀ target, node ≠ .link target) {path : Path}
    (same : path.components = (Disk.pathOf (location ++ names)).components) : disk.Direct location path := by
  intro others hothers front hfront target
  have hvalid : ∀ name ∈ location ++ names, Path.IsName name := wellFormed.valid (by rw [there]; rfl)
  rw [same, Disk.components_pathOf hvalid,
    Disk.components_pathOf fun name hname => hvalid name (List.mem_append_left _ hname), List.map_append,
    List.cons_append, List.cons_inj_right, List.append_cancel_left_eq] at hothers
  obtain rfl : names = others := List.map_injective_iff.mpr (fun _ _ h => Path.Component.name.inj h) hothers
  exact wellFormed.linkless there direct (location ++ front) ((List.prefix_append_right_inj location).mpr hfront) target

/-- A reading that fails in a way that may pass gives no text. -/
theorem Reading.Passing.not_ok {reading : Reading} (passing : reading.Passing) (text : String) :
    reading.result ≠ .ok text := by
  obtain ⟨fault, rfl, -⟩ := passing
  exact fun h => by cases h

/-- A reading that fails in a way that may pass does not say that the file is missing. -/
theorem Reading.Passing.isMissing_eq {reading : Reading} (passing : reading.Passing) : reading.isMissing = false := by
  obtain ⟨fault, rfl, hverdict⟩ := passing
  simp [Reading.isMissing, Reading.result, hverdict]

section

variable {disk : Disk} {instead : List (Path × Reading)} (passing : ∀ entry ∈ instead, entry.2.Passing)
  (watchFault : Path → Option Failure)

include passing

/-- What reads come instead of those of the disk does not depend on the spelling. -/
theorem Disk.surroundings_read (path : Path) :
    ((disk.surroundings instead watchFault).read path).Passing
      ∨ ∀ other : Path, other.components = path.components →
        (disk.surroundings instead watchFault).read other = disk.read other := by
  have hfind (other : Path) (same : other.components = path.components) :
      (instead.find? fun entry => entry.1.same other) = instead.find? fun entry => entry.1.same path := by
    congr 1
    funext entry
    rw [Bool.eq_iff_iff, Path.same_iff, Path.same_iff, same]
  unfold Disk.surroundings
  dsimp only
  cases hfound : instead.find? fun entry => entry.1.same path with
  | some entry => exact .inl (passing entry (List.mem_of_find?_eq_some hfound))
  | none => exact .inr fun other hsame => by rw [hfind other hsame, hfound]

variable (wellFormed : disk.WellFormed) {location : Disk.Location}
  (directory : disk.isDirectory (Disk.pathOf location) = true) (there : disk.hasDirectory location = true)

include wellFormed directory there

/-- A disk in good order does not move by itself. -/
theorem Disk.still : (disk.surroundings instead watchFault).Still (Disk.pathOf location) := by
  -- a listed file is what the disk has at a place without links on the way
  have hlisted : ∀ file ∈ Scan.listed (disk.surroundings instead watchFault) (Disk.pathOf location),
      ∃ place content, disk.node? place = some (.file content) ∧ file = Disk.pathOf place
        ∧ disk.Linkless [] place ∧ ∀ path : Path, path.components = file.components →
          path.components = .root :: place.map .name := by
    intro file hfile
    obtain ⟨names, content, hnode, -, rfl⟩ :=
      (wellFormed.mem_walk_iff directory there).mp (List.mem_of_mem_filter hfile)
    refine ⟨location ++ names, content, hnode, rfl, wellFormed.linkless hnode fun _ h => (by cases h), ?_⟩
    intro path hpath
    rw [hpath, Disk.components_pathOf (wellFormed.valid (by rw [hnode]; rfl))]
  constructor
  case exists_root => exact directory
  case walks => exact wellFormed.walksOnce directory there instead watchFault
  case there =>
    intro file hfile path hpath
    obtain ⟨place, content, hnode, -, hlinkless, hspelled⟩ := hlisted file hfile
    rcases Disk.surroundings_read passing watchFault path with hpassing | hread
    · exact hpassing.isMissing_eq
    · have htells := wellFormed.read_tells (hspelled path hpath) hlinkless
      rw [hread path rfl, ← Bool.not_eq_true]
      intro hmissing
      unfold Reading.isMissing at hmissing
      split at hmissing
      · cases hmissing
      · next fault hfault =>
        have hverdict : fault.verdict = .missing := of_decide_eq_true hmissing
        rcases htells.of_fault hfault (by rw [hverdict]; decide) with ⟨hundecodable, -⟩ | ⟨-, hnone⟩
        · rw [hverdict] at hundecodable
          cases hundecodable
        · exact hnone content hnode
  case alike =>
    intro file hfile path hpath text htext
    obtain ⟨place, content, hnode, rfl, hlinkless, hspelled⟩ := hlisted file hfile
    rcases Disk.surroundings_read passing watchFault path with hpassing | hread
    · exact absurd htext (hpassing.not_ok text)
    · rw [hread path rfl] at htext
      rw [hread _ hpath.symm]
      exact wellFormed.read_pathOf_of_content (hspelled path hpath) hlinkless htext

/-- What a session accepts and can read without going through a link is a listed file. -/
theorem Disk.exists_listed {session : Session} (rooted : session.root = Disk.pathOf location) {path : Path}
    {text : String}
    (accepted : session.accepts path = true) (direct : disk.Direct location path)
    (content : ((disk.surroundings instead watchFault).read path).result = .ok text) :
    ∃ file ∈ Scan.listed (disk.surroundings instead watchFault) session.root, file.components = path.components := by
  unfold Session.accepts at accepted
  rw [Bool.and_eq_true, Option.any_eq_true] at accepted
  obtain ⟨hdeclared, names, hnames, hshown⟩ := accepted
  rw [rooted] at hnames
  have hbelow := Path.namesBelow_iff.mp hnames
  have hspelled : path.components = .root :: (location ++ names).map .name := by
    rw [hbelow, Disk.components_pathOf (wellFormed.valid_directory there), List.map_append, List.cons_append]
  have hlinkless : disk.Linkless [] (location ++ names) := by
    intro front hfront target
    rcases List.prefix_or_prefix_of_prefix hfront (List.prefix_append location names) with h | ⟨below, rfl⟩
    · exact wellFormed.linkless_directory there front h target
    · exact direct names hbelow below ((List.prefix_append_right_inj location).mp hfront) target
  have hread := (Disk.surroundings_read passing watchFault path).resolve_left fun h => h.not_ok text content
  rw [hread path rfl] at content
  have hnode := (wellFormed.read_tells hspelled hlinkless).of_text content
  have hsame : (Disk.pathOf (location ++ names)).components = path.components := by
    rw [hspelled, Disk.components_pathOf (wellFormed.valid (by rw [hnode]; rfl))]
  refine ⟨Disk.pathOf (location ++ names), List.mem_filter.mpr ⟨?_, ?_⟩, hsame⟩
  · rw [rooted]
    refine (wellFormed.mem_walk_iff directory there).mpr ⟨names, _, hnode, fun name hname => ?_, rfl⟩
    rw [Bool.not_eq_true', List.any_eq_false] at hshown
    exact Bool.not_eq_true _ ▸ hshown name hname
  · rw [Path.isDeclarationFile_congr hsame]
    exact hdeclared

omit passing in
/-- A session accepts every spelling of a listed file. -/
theorem Disk.accepts_listed {session : Session} (rooted : session.root = Disk.pathOf location) {file path : Path}
    (listed : file ∈ Scan.listed (disk.surroundings instead watchFault) session.root)
    (same : file.components = path.components) : session.accepts path = true := by
  obtain ⟨hwalked, hdeclared⟩ := List.mem_filter.mp listed
  rw [rooted] at hwalked
  obtain ⟨names, content, hnode, hshown, rfl⟩ := (wellFormed.mem_walk_iff directory there).mp hwalked
  have hbelow : path.components = session.root.components ++ names.map .name := by
    rw [← same, rooted, Disk.components_pathOf (wellFormed.valid (by rw [hnode]; rfl)),
      Disk.components_pathOf (wellFormed.valid_directory there), List.map_append, List.cons_append]
  rw [Path.isDeclarationFile_congr same] at hdeclared
  unfold Session.accepts
  rw [hdeclared, Path.namesBelow_iff.mpr hbelow, Bool.true_and, Option.any_some, Bool.not_eq_true', List.any_eq_false]
  exact fun name hname => Bool.not_eq_true _ ▸ hshown name hname

end

end TypingsIndex
