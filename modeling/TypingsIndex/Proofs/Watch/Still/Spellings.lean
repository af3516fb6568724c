import Mathlib.Data.String.Basic
import TypingsIndex.Proofs.Watch.Coverage.Basic
import TypingsIndex.Proofs.Watch.Shown

/-!
# One location under many spellings

A path may be spelled with more slashes and dots than it needs. Where no link is on the way, following it comes to the
same as following its bare names, but for failures that may pass: a slash or a dot after the name of a file asks for a
directory, and a long spelling may be too long. So all spellings read the same, or fail in a way that may pass
(`read_tells`); and what can be read under some spelling can be read under the barest one (`read_pathOf_of_content`),
whose text is a part of every other (`pathOf_sublist`).
-/

set_option autoImplicit false

namespace TypingsIndex

namespace Disk

/-! ## Disks in good order -/

/-- Every place is listed once, under proper names, and lies in a directory. -/
structure WellFormed (disk : Disk) : Prop where
  once : (disk.nodes.map Prod.fst).Nodup
  nonempty : ∀ entry ∈ disk.nodes, entry.1 ≠ []
  proper : ∀ entry ∈ disk.nodes, ∀ name ∈ entry.1, Path.IsName name
  parent : ∀ entry ∈ disk.nodes, disk.hasDirectory entry.1.dropLast = true

section

variable {disk : Disk} (wellFormed : disk.WellFormed) {location : Location}

include wellFormed

/-- The names of a place are names of a path. -/
theorem WellFormed.valid (there : (disk.node? location).isSome = true) : ∀ name ∈ location, Path.IsName name := by
  by_cases hroot : location = []
  · rw [hroot]
    exact fun _ h => absurd h List.not_mem_nil
  · obtain ⟨node, hnode⟩ := Option.isSome_iff_exists.mp there
    exact wellFormed.proper _ ((node?_eq_some_iff wellFormed.once hroot).mp hnode)

/-- What lies above a place is a directory. -/
theorem WellFormed.directory_above {front rest : Location} (there : (disk.node? (front ++ rest)).isSome = true)
    (below : rest ≠ []) : disk.hasDirectory front = true := by
  induction rest using List.reverseRecOn with
  | nil => exact absurd rfl below
  | append_singleton rest name ih =>
    rw [← List.append_assoc] at there
    obtain ⟨node, hnode⟩ := Option.isSome_iff_exists.mp there
    have hentry := (node?_eq_some_iff wellFormed.once (List.concat_ne_nil name (front ++ rest))).mp hnode
    have hparent := wellFormed.parent _ hentry
    rw [List.dropLast_concat] at hparent
    by_cases hrest : rest = []
    · rwa [hrest, List.append_nil] at hparent
    · exact ih (by rw [hasDirectory_iff.mp hparent]; rfl) hrest

/-- The way to a place is open. -/
theorem WellFormed.open (there : (disk.node? location).isSome = true) : disk.Open [] location := by
  intro front hfront hne
  obtain ⟨rest, rfl⟩ := hfront
  refine wellFormed.directory_above there ?_
  rintro rfl
  exact hne (List.append_nil front).symm

/-- There is no link on the way to what is there, unless it is one. -/
theorem WellFormed.linkless {node : Node} (there : disk.node? location = some node)
    (direct : ∀ target, node ≠ .link target) : disk.Linkless [] location := by
  intro front hfront target hlink
  rw [List.nil_append] at hlink
  by_cases hself : front = location
  · rw [hself, there] at hlink
    exact direct target (Option.some.inj hlink)
  · have hdirectory := wellFormed.open (by rw [there]; rfl) front hfront hself
    rw [List.nil_append, hasDirectory_iff, hlink] at hdirectory
    cases hdirectory

end

/-! ## Spellings -/

/-- Pieces between slashes that lead down by names. -/
inductive Spells : List String → List String → Prop where
  | done : Spells [] []
  | stay {piece : String} {pieces names : List String} (here : piece = "" ∨ piece = ".")
      (further : Spells pieces names) : Spells (piece :: pieces) names
  | name {name : String} {pieces names : List String} (valid : Path.IsName name) (further : Spells pieces names) :
      Spells (name :: pieces) (name :: names)

/-- The names that pieces lead down by are among the pieces, in order. -/
theorem Spells.sublist {pieces names : List String} (spells : Spells pieces names) : names.Sublist pieces := by
  induction spells with
  | done => exact List.Sublist.refl _
  | stay here further ih => exact ih.cons _
  | name valid further ih => exact ih.cons_cons _

/-- Pieces whose components are names lead down by them. -/
theorem spells_of_components {pieces : List (List Char)} {names : List String} (bare : ∀ piece ∈ pieces, '/' ∉ piece)
    (h : pieces.filterMap Path.Component.ofPiece? = names.map .name) : Spells (pieces.map String.ofList) names := by
  induction pieces generalizing names with
  | nil =>
    rw [List.map_eq_nil_iff.mp h.symm]
    exact .done
  | cons piece rest ih =>
    obtain ⟨hpiece, hrest⟩ := List.forall_mem_cons.mp bare
    by_cases hhere : piece = [] ∨ piece = ['.']
    · have hnone : Path.Component.ofPiece? piece = none := by rcases hhere with rfl | rfl <;> rfl
      rw [List.filterMap_cons_none hnone] at h
      exact .stay (hhere.imp (fun h => by rw [h]) fun h => by rw [h]) (ih hrest h)
    · obtain ⟨hempty, hdot⟩ := not_or.mp hhere
      by_cases hdots : piece = ['.', '.']
      · have hup : Path.Component.ofPiece? ['.', '.'] = some .up := rfl
        rw [hdots, List.filterMap_cons_some hup] at h
        cases names <;> cases h
      · have hname : Path.IsName (String.ofList piece) := by
          constructor <;> rwa [String.toList_ofList]
        have hsome : Path.Component.ofPiece? piece = some (.name (String.ofList piece)) := by
          have hofPiece := hname.ofPiece?
          rwa [String.toList_ofList] at hofPiece
        rw [List.filterMap_cons_some hsome] at h
        cases names with
        | nil => cases h
        | cons name others =>
          obtain ⟨hfirst, hothers⟩ := List.cons.inj h
          obtain rfl := Path.Component.name.inj hfirst
          exact .name hname (ih hrest hothers)

/-- The path of a location has its names for components, behind the root. -/
theorem components_pathOf {location : Location} (valid : ∀ name ∈ location, Path.IsName name) :
    (pathOf location).components = .root :: location.map .name := by
  by_cases hroot : location = []
  · rw [hroot]
    rfl
  · have hnames : (location.map String.toList).filterMap Path.Component.ofPiece? = location.map .name := by
      rw [List.filterMap_map, ← List.filterMap_eq_map']
      exact List.filterMap_congr fun name hname => (valid name hname).ofPiece?
    rw [Path.components_of_pieces (splitAt_pathOf hroot valid) (by simpa using hroot), hnames]
    rfl

/-- An absolute path spells the names that its components are. -/
theorem spells_of_absolute {path : Path} {names : List String}
    (h : path.components = .root :: names.map .name) :
    ∃ pieces : List (List Char), pieces ≠ [] ∧ Text.splitAt '/' path.text.toList = [] :: pieces
      ∧ Spells (pieces.map String.ofList) names := by
  obtain ⟨piece, others, hsplit⟩ := List.exists_cons_of_ne_nil (Text.splitAt_ne_nil '/' path.text.toList)
  have hseveral : piece :: others ≠ [[]] := by
    intro hone
    rw [hone] at hsplit
    simp [Path.components, hsplit] at h
  have hcomponents := Path.components_of_pieces hsplit hseveral
  have hroot : ∀ piece, Path.Component.ofPiece? piece ≠ some .root := by
    intro piece
    unfold Path.Component.ofPiece?
    split <;> simp
  obtain rfl : piece = [] := by
    by_contra hnonempty
    have hmem : Path.Component.root ∈ Path.firstOf piece ++ others.filterMap Path.Component.ofPiece? := by
      rw [← hcomponents, h]
      exact List.mem_cons_self
    rcases List.mem_append.mp hmem with hfirst | hother
    · unfold Path.firstOf at hfirst
      split at hfirst
      · exact hnonempty rfl
      · simp at hfirst
      · exact hroot _ (Option.mem_toList.mp hfirst)
    · obtain ⟨other, -, hother⟩ := List.mem_filterMap.mp hother
      exact hroot other hother
  have hbare : ∀ piece ∈ others, '/' ∉ piece := fun piece hpiece =>
    Text.not_mem_of_mem_splitAt (hsplit ▸ List.mem_cons_of_mem _ hpiece)
  have hothers : others.filterMap Path.Component.ofPiece? = names.map .name :=
    (List.cons.inj (hcomponents.symm.trans h)).2
  exact ⟨others, fun hnone => hseveral (by rw [hnone]), hsplit, spells_of_components hbare hothers⟩

/-- The barest spelling is a part of every other. -/
theorem pathOf_sublist {path : Path} {names : List String} (h : path.components = .root :: names.map .name) :
    (pathOf names).text.toList.Sublist path.text.toList := by
  obtain ⟨pieces, hnonempty, hsplit, hspells⟩ := spells_of_absolute h
  obtain ⟨piece, others, rfl⟩ := List.exists_cons_of_ne_nil hnonempty
  have htext := Text.intercalate_splitAt '/' path.text.toList
  rw [hsplit, List.intercalate_cons_cons] at htext
  have hnames := hspells.sublist.map String.toList
  rw [List.map_map, show String.toList ∘ String.ofList = id from funext fun _ => String.toList_ofList, List.map_id]
    at hnames
  unfold pathOf
  rw [String.toList_append, String.toList_intercalate, ← htext]
  exact List.Sublist.append (List.Sublist.refl _) (Text.intercalate_sublist hnames)

/-! ## Following a spelling -/

section

variable {disk : Disk} {location : Location}

/-- What following any spelling of names from a location comes to. -/
inductive Sought (disk : Disk) (location : Location) (names : List String) : Reached → Prop where
  | arrived (there : (disk.node? (location ++ names)).isSome = true ∨ names = [])
      (short : ∀ name ∈ names, name.utf8ByteSize ≤ longestName) :
      Sought disk location names (.arrived (location ++ names))
  | vacant {directory : Location} {name : String} (missing : disk.node? (location ++ names) = none) :
      Sought disk location names (.vacant directory name)
  | missing (absent : disk.node? (location ++ names) = none ∨ ¬ disk.Open location names) :
      Sought disk location names (.failed .notFound)
  | passing {fault : ReadFault} (verdict : fault.verdict = .transient) : Sought disk location names (.failed fault)

/-- What following the other names comes to, following the first of them and then the others comes to. -/
theorem Sought.cons {name : String} {rest : List String} {reached : Reached}
    (h : Sought disk (location ++ [name]) rest reached) (there : (disk.node? (location ++ [name])).isSome = true)
    (short : name.utf8ByteSize ≤ longestName) : Sought disk location (name :: rest) reached := by
  have happend : location ++ [name] ++ rest = location ++ name :: rest := List.append_assoc _ _ _
  cases h with
  | arrived hrest hshort =>
    rw [happend] at hrest ⊢
    refine .arrived (.inl ?_) (List.forall_mem_cons.mpr ⟨short, hshort⟩)
    rcases hrest with h | rfl
    · exact h
    · exact there
  | vacant missing => exact .vacant (happend ▸ missing)
  | missing absent => exact .missing (absent.imp (fun h => happend ▸ h) fun h hopen => h hopen.tail)
  | passing verdict => exact .passing verdict

/-- Pieces that lead down by names come to what the names come to. -/
theorem Spells.follow {pieces names : List String} (spells : Spells pieces names)
    (linkless : disk.Linkless location names) : Sought disk location names (disk.follow .find location pieces) := by
  -- a piece that stays asks for a directory and nothing else; a name goes on or ends the search
  induction spells generalizing location with
  | done =>
    have harrived : Sought disk location [] (.arrived (location ++ [])) :=
      .arrived (.inr rfl) fun _ h => absurd h List.not_mem_nil
    rwa [List.append_nil] at harrived
  | stay here further ih =>
    rw [Disk.follow]
    split
    · exact .passing rfl
    · exact ih linkless
  | @name name pieces names valid further ih =>
    have hempty : name ≠ "" := fun h => valid.ne_empty (by rw [h]; rfl)
    have hdot : name ≠ "." := fun h => valid.ne_dot (by rw [h]; rfl)
    have hdots : name ≠ ".." := fun h => valid.ne_dots (by rw [h]; rfl)
    have hfirst : [name] <+: name :: names := List.cons_prefix_cons.mpr ⟨rfl, List.nil_prefix⟩
    rw [Disk.follow]
    split
    · exact .passing rfl
    rw [if_neg (not_or.mpr ⟨hempty, hdot⟩), if_neg fun h : _ ∧ _ => Aim.noConfusion h.1]
    split
    · exact .passing rfl
    next hshort =>
    split
    · next target hlink => exact absurd hlink (linkless [name] hfirst target)
    · next node _ hnode => exact (ih linkless.tail).cons (by rw [hnode]; rfl) (Nat.not_lt.mp hshort)
    · next hnone =>
      have habsent : disk.node? (location ++ name :: names) = none ∨ ¬ disk.Open location (name :: names) := by
        by_cases hlast : names = []
        · exact .inl (hlast ▸ hnone)
        · refine .inr fun hopen => ?_
          have hdirectory := hopen [name] hfirst fun h => hlast (List.cons.inj h).2.symm
          rw [hasDirectory_iff, hnone] at hdirectory
          cases hdirectory
      split
      · next hlast =>
        rw [List.isEmpty_iff.mp hlast] at further
        cases further
        exact .vacant hnone
      · exact .missing habsent

end

/-- What looking up any spelling of the absolute path of a location comes to, if there is no link on the way. -/
inductive Sighted (disk : Disk) (path : Path) (location : Location) : Except ReadFault Location → Prop where
  | found (there : (disk.node? location).isSome = true) (no_nul : '\x00' ∉ path.text.toList)
      (short : path.text.utf8ByteSize ≤ longestPath)
      (short_names : ∀ name ∈ location, name.utf8ByteSize ≤ longestName) :
      Sighted disk path location (.ok location)
  | missing (absent : disk.node? location = none ∨ ¬ disk.Open [] location) :
      Sighted disk path location (.error .notFound)
  | passing {fault : ReadFault} (verdict : fault.verdict = .transient) : Sighted disk path location (.error fault)

/-- Looking up any spelling of an absolute path finds the place that its names lead to or that it is missing, or fails
in a way that may pass, such as for the length of the spelling. -/
theorem locate_sighted {disk : Disk} {path : Path} {location : Location}
    (spelled : path.components = .root :: location.map .name) (linkless : disk.Linkless [] location) :
    Sighted disk path location (disk.locate path) := by
  obtain ⟨pieces, hnonempty, hsplit, hspells⟩ := spells_of_absolute spelled
  obtain ⟨piece, others, rfl⟩ := List.exists_cons_of_ne_nil hnonempty
  obtain ⟨rest, htext⟩ := Text.eq_cons_of_splitAt hsplit
  have hnamesOf : namesOf path.text = "" :: (piece :: others).map String.ofList := by
    unfold namesOf
    rw [hsplit]
    rfl
  have habsolute : Path.isAbsolute path.text = true := by
    unfold Path.isAbsolute
    rw [htext]
    rfl
  have hsome : path.text.isEmpty = false := by
    rw [String.isEmpty_eq_false_iff]
    intro hempty
    rw [hempty] at htext
    cases htext
  have hsought := hspells.follow linkless
  have hfirst : disk.follow .find [] ("" :: (piece :: others).map String.ofList) =
      disk.follow .find [] ((piece :: others).map String.ofList) := by
    rw [Disk.follow]
    rfl
  unfold locate reach
  by_cases hnul : '\x00' ∈ path.text.toList
  · rw [if_pos (List.contains_iff_mem.mpr hnul)]
    exact .passing rfl
  rw [if_neg (mt List.contains_iff_mem.mp hnul), hsome, if_neg Bool.false_ne_true]
  by_cases hlong : longestPath < path.text.utf8ByteSize
  · rw [if_pos hlong]
    exact .passing rfl
  rw [if_neg hlong, if_pos habsolute, hnamesOf, followLinks, hfirst]
  generalize disk.follow .find [] ((piece :: others).map String.ofList) = reached at hsought
  cases hsought with
  | arrived there short =>
    refine .found (there.elim (fun h => h) fun h => by rw [h]; rfl) hnul (Nat.not_lt.mp hlong) short
  | vacant missing => exact .missing (.inl missing)
  | missing absent => exact .missing absent
  | passing verdict => exact .passing verdict

/-! ## Reading a spelling -/

section

variable {disk : Disk} (wellFormed : disk.WellFormed) {path : Path} {location : Location}
  (spelled : path.components = .root :: location.map .name) (linkless : disk.Linkless [] location)

include wellFormed spelled linkless

/-- Reading any spelling tells what is at the location. -/
theorem WellFormed.read_tells : (disk.read path).Tells (disk.node? location) := by
  have hsighted := locate_sighted spelled linkless
  unfold Disk.read
  generalize disk.locate path = result at hsighted
  cases hsighted with
  | found there no_nul short short_names =>
    obtain ⟨node, hnode⟩ := Option.isSome_iff_exists.mp there
    simp only [hnode]
    cases node with
    | file content =>
      cases content with
      | text text => exact .inl rfl
      | binary => exact .inl ⟨_, rfl, rfl⟩
    | directory => exact .inr ⟨_, rfl, rfl⟩
    | link target => exact .inr ⟨_, rfl, rfl⟩
  | missing absent =>
    have hnone : disk.node? location = none := by
      refine absent.elim (fun h => h) fun hclosed => ?_
      by_contra hsome
      exact hclosed (wellFormed.open (Option.isSome_iff_ne_none.mpr hsome))
    rw [hnone]
    exact .inl ⟨_, rfl, rfl⟩
  | passing verdict => exact Reading.Passing.tells ⟨_, rfl, verdict⟩ _

/-- What can be read under some spelling can be read under the barest one. -/
theorem WellFormed.read_pathOf_of_content {text : String} (content : (disk.read path).result = .ok text) :
    (disk.read (pathOf location)).result = .ok text := by
  have hnode := (wellFormed.read_tells spelled linkless).of_text content
  have hthere : (disk.node? location).isSome = true := by
    rw [hnode]
    rfl
  have hnonempty : location ≠ [] := by
    rintro rfl
    cases hnode
  have hsighted := locate_sighted spelled linkless
  have hlocated := locate_located hnonempty (wellFormed.valid hthere) linkless
  unfold Disk.read at content ⊢
  generalize disk.locate path = sighted at hsighted content
  generalize disk.locate (pathOf location) = located at hlocated ⊢
  cases hsighted with
  | missing absent => cases content
  | passing verdict => cases content
  | found there no_nul short short_names =>
    have hpart := pathOf_sublist spelled
    cases hlocated with
    | found there => exact content
    | missing absent =>
      rcases absent with hnone | hclosed
      · rw [hnone] at hthere
        cases hthere
      · exact absurd (wellFormed.open hthere) hclosed
    | failed passing reason =>
      have hsize : (pathOf location).text.utf8ByteSize ≤ path.text.utf8ByteSize := by
        rw [← String.ofList_toList (s := (pathOf location).text), ← String.ofList_toList (s := path.text),
          String.utf8ByteSize_ofList, String.utf8ByteSize_ofList]
        exact String.utf8Len_le_of_sublist hpart
      rcases reason with hclosed | hlong | hnul | ⟨name, hname, hlong⟩
      · exact absurd (wellFormed.open hthere) hclosed
      · exact absurd (hsize.trans short) (Nat.not_le.mpr hlong)
      · exact absurd (hpart.subset hnul) no_nul
      · exact absurd (short_names name hname) (Nat.not_le.mpr hlong)

end

end Disk

end TypingsIndex
