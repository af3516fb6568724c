import Mathlib.Data.List.Basic
import TypingsIndex.Disk.Resolve
import TypingsIndex.Proofs.Disk.Nodes
import TypingsIndex.Proofs.Path.Descent

/-!
# Looking up proper names

Where there are no links, looking up the absolute path of a location leads to that location, or fails: because
something on the way is missing, or is no directory, or the path is one that no file system takes. Only the
first of these says that nothing is there; the others may pass.
-/

set_option autoImplicit false

namespace TypingsIndex.Disk

variable {disk : Disk}

/-- There is no link on the way that names lead from a location. -/
def Linkless (disk : Disk) (location : Location) (names : List String) : Prop :=
  ∀ front, front <+: names → ∀ target, disk.node? (location ++ front) ≠ some (.link target)

/-- Every proper beginning of the way that names lead from a location is a directory. -/
def Open (disk : Disk) (location : Location) (names : List String) : Prop :=
  ∀ front, front <+: names → front ≠ names → disk.hasDirectory (location ++ front) = true

/-- What following proper names from a location comes to. -/
inductive Followed (disk : Disk) (location : Location) (names : List String) : Reached → Prop where
  | arrived (there : (disk.node? (location ++ names)).isSome = true ∨ names = []) :
      Followed disk location names (.arrived (location ++ names))
  | vacant {directory : Location} {name : String} (missing : disk.node? (location ++ names) = none) :
      Followed disk location names (.vacant directory name)
  | missing (closed : ¬ disk.Open location names) : Followed disk location names (.failed .notFound)
  | blocked (closed : ¬ disk.Open location names) : Followed disk location names (.failed .notADirectory)
  | tooLong (long : ∃ name ∈ names, longestName < name.utf8ByteSize) :
      Followed disk location names (.failed .nameTooLong)

section

variable {location : Location} {name : String} {rest : List String}

/-- What is free of links on the way is so behind the first step. -/
theorem Linkless.tail (h : disk.Linkless location (name :: rest)) :
    disk.Linkless (location ++ [name]) rest := by
  intro front hfront target
  rw [List.append_assoc]
  exact h (name :: front) (List.cons_prefix_cons.mpr ⟨rfl, hfront⟩) target

/-- What is open on the way is so behind the first step. -/
theorem Open.tail (h : disk.Open location (name :: rest)) : disk.Open (location ++ [name]) rest := by
  intro front hfront hne
  rw [List.append_assoc]
  exact h (name :: front) (List.cons_prefix_cons.mpr ⟨rfl, hfront⟩)
    fun heq => hne (List.cons.inj heq).2

/-- What following the other names comes to, following the first of them and then the others comes to. -/
theorem Followed.cons {reached : Reached} (h : Followed disk (location ++ [name]) rest reached)
    (there : (disk.node? (location ++ [name])).isSome = true) :
    Followed disk location (name :: rest) reached := by
  have happend : location ++ [name] ++ rest = location ++ name :: rest := List.append_assoc _ _ _
  cases h with
  | arrived hrest =>
    rw [happend]
    refine .arrived (.inl ?_)
    rcases hrest with h | rfl
    · rwa [happend] at h
    · exact there
  | vacant missing => exact .vacant (happend ▸ missing)
  | missing closed => exact .missing fun h => closed h.tail
  | blocked closed => exact .blocked fun h => closed h.tail
  | tooLong long =>
    obtain ⟨other, hother, hlong⟩ := long
    exact .tooLong ⟨other, List.mem_cons_of_mem name hother, hlong⟩

end

/-- Following proper names has one of the outcomes. -/
theorem follow_followed {location : Location} {names : List String}
    (valid : ∀ name ∈ names, Path.IsName name) (linkless : disk.Linkless location names) :
    Followed disk location names (disk.follow .find location names) := by
  induction names generalizing location with
  | nil =>
    have harrived : Followed disk location [] (.arrived (location ++ [])) := .arrived (.inr rfl)
    rwa [List.append_nil] at harrived
  | cons name rest ih =>
    have hname := valid name List.mem_cons_self
    have hempty : name ≠ "" := fun h => hname.ne_empty (by rw [h]; rfl)
    have hdot : name ≠ "." := fun h => hname.ne_dot (by rw [h]; rfl)
    have hdots : name ≠ ".." := fun h => hname.ne_dots (by rw [h]; rfl)
    have hfirst : [name] <+: name :: rest := List.cons_prefix_cons.mpr ⟨rfl, List.nil_prefix⟩
    have hrest := ih (fun other hother => valid other (List.mem_cons_of_mem name hother)) linkless.tail
    unfold follow
    split
    · next hblocked =>
      refine .blocked fun hopen => ?_
      have hhere := hopen [] List.nil_prefix (List.cons_ne_nil name rest).symm
      rw [List.append_nil] at hhere
      rw [hhere] at hblocked
      cases hblocked
    · rw [if_neg (not_or.mpr ⟨hempty, hdot⟩), if_neg fun h : _ ∧ _ => Aim.noConfusion h.1]
      split
      · next hlong => exact .tooLong ⟨name, List.mem_cons_self, hlong⟩
      · split
        · next target hlink => exact absurd hlink (linkless [name] hfirst target)
        · next node hnode => exact hrest.cons (by rw [hnode]; rfl)
        · next hnone =>
          split
          · next hlast =>
            rw [List.isEmpty_iff.mp hlast]
            exact .vacant hnone
          · next hmore =>
            refine .missing fun hopen => ?_
            have hdirectory := hopen [name] hfirst fun h => hmore (by rw [← (List.cons.inj h).2]; rfl)
            rw [hasDirectory_iff, hnone] at hdirectory
            cases hdirectory

/-! ## Absolute paths -/

/-- The absolute path of a location is absolute. -/
theorem isAbsolute_pathOf (location : Location) : Path.isAbsolute (pathOf location).text = true := by
  unfold Path.isAbsolute pathOf
  rw [String.toList_append]
  rfl

/-- The absolute path of a location is not empty. -/
theorem isEmpty_pathOf (location : Location) : (pathOf location).text.isEmpty = false := by
  have habsolute := isAbsolute_pathOf location
  rw [String.isEmpty_eq_false_iff]
  intro hempty
  rw [hempty] at habsolute
  cases habsolute

section

variable {location : Location} (nonempty : location ≠ []) (valid : ∀ name ∈ location, Path.IsName name)

include nonempty valid

/-- The pieces of the absolute path of a location are its names, after an empty one. -/
theorem splitAt_pathOf :
    Text.splitAt '/' (pathOf location).text.toList = [] :: location.map String.toList := by
  have hpieces : ∀ piece ∈ location.map String.toList, '/' ∉ piece := by
    intro piece hpiece
    obtain ⟨name, hname, rfl⟩ := List.mem_map.mp hpiece
    exact (valid name hname).no_slash
  have hsplit := Text.splitAt_intercalate (mt List.map_eq_nil_iff.mp nonempty) hpieces
  unfold pathOf
  rw [String.toList_append, String.toList_intercalate]
  change Text.splitAt '/' ('/' :: ['/'].intercalate _) = _
  rw [Text.splitAt_cons_self, hsplit]

/-- The names in the absolute path of a location are its own, after an empty one. -/
theorem namesOf_pathOf : namesOf (pathOf location).text = "" :: location := by
  unfold namesOf
  rw [splitAt_pathOf nonempty valid, List.map_cons, List.map_map]
  simp [Function.comp_def]

/-- The absolute path of a location starts with the root. -/
theorem head?_components_pathOf : (pathOf location).components.head? = some .root := by
  rw [Path.components_of_pieces (splitAt_pathOf nonempty valid) (by simpa using nonempty)]
  rfl

/-- The absolute path of a location does not end in a slash. -/
theorem getLast?_pathOf : (pathOf location).text.toList.getLast? ≠ some '/' := by
  have hlast := List.getLast?_eq_some_getLast nonempty
  generalize location.getLast nonempty = last at hlast
  have hname := valid last (List.mem_of_getLast? hlast)
  have hsuffix : last.toList <:+ ['/'].intercalate (location.map String.toList) :=
    Text.suffix_intercalate (by simp [hlast])
  obtain ⟨front, hfront⟩ := hsuffix
  unfold pathOf
  rw [String.toList_append, String.toList_intercalate]
  change ('/' :: ['/'].intercalate _).getLast? ≠ some '/'
  rw [← hfront, ← List.cons_append, List.getLast?_append_of_ne_nil _ hname.ne_empty]
  exact fun h => hname.no_slash (List.mem_of_getLast? h)

end

/-- The absolute path of a location with a name joined to it is that of the location with the name. -/
theorem join_pathOf {location : Location} {name : String} (valid : ∀ other ∈ location, Path.IsName other)
    (hname : Path.IsName name) : (pathOf location).join name = pathOf (location ++ [name]) := by
  unfold Path.join
  rw [hname.isAbsolute_eq_false, if_neg Bool.false_ne_true, isEmpty_pathOf, Bool.false_or]
  by_cases hroot : location = []
  · -- the path of the root is the slash alone, so that none is put before the name
    subst hroot
    rw [if_pos (by decide)]
    unfold pathOf
    rw [List.nil_append, String.intercalate_singleton]
    rfl
  · have hslash := getLast?_pathOf hroot valid
    rw [if_neg (by rwa [decide_eq_true_eq])]
    unfold pathOf
    rw [String.intercalate_append_of_ne_nil hroot (List.cons_ne_nil name []), String.intercalate_singleton,
      String.append_assoc, String.append_assoc, String.append_assoc]

/-- The absolute path of a longer location is that of a shorter one with the other names joined to it. -/
theorem descend_pathOf {location : Location} {names : List String} (valid : ∀ name ∈ location, Path.IsName name)
    (namesValid : ∀ name ∈ names, Path.IsName name) :
    (pathOf location).descend names = pathOf (location ++ names) := by
  induction names generalizing location with
  | nil => rw [List.append_nil]; rfl
  | cons name rest ih =>
    obtain ⟨hname, hnames⟩ := List.forall_mem_cons.mp namesValid
    have hlocation : ∀ other ∈ location ++ [name], Path.IsName other :=
      List.forall_mem_append.mpr ⟨valid, List.forall_mem_singleton.mpr hname⟩
    have hrest := ih hlocation hnames
    rw [List.append_assoc, ← join_pathOf valid hname] at hrest
    exact hrest

/-- A path that a file system takes is followed name by name, up to the first link. -/
theorem reach_pathOf {location : Location} (nonempty : location ≠ [])
    (valid : ∀ name ∈ location, Path.IsName name) (linkless : disk.Linkless [] location)
    (nul : '\x00' ∉ (pathOf location).text.toList)
    (short : (pathOf location).text.utf8ByteSize ≤ longestPath) :
    disk.reach .find (pathOf location) = disk.follow .find [] location := by
  have hfollowed := follow_followed valid linkless
  have hfirst : disk.follow .find [] ("" :: location) = disk.follow .find [] location := by
    rw [follow]
    rfl
  unfold reach
  rw [if_neg (mt List.contains_iff_mem.mp nul), isEmpty_pathOf, if_neg Bool.false_ne_true,
    if_neg (Nat.not_lt.mpr short), if_pos (isAbsolute_pathOf location), namesOf_pathOf nonempty valid, followLinks,
      hfirst]
  cases hreached : disk.follow .find [] location with
  | linked target directory rest =>
    rw [hreached] at hfollowed
    cases hfollowed
  | _ => rfl

/-- What looking up the absolute path of a location comes to, if there is no link on the way. -/
inductive Located (disk : Disk) (location : Location) : Except ReadFault Location → Prop where
  | found (there : (disk.node? location).isSome = true) : Located disk location (.ok location)
  | missing (absent : disk.node? location = none ∨ ¬ disk.Open [] location) :
      Located disk location (.error .notFound)
  | failed {fault : ReadFault} (passing : fault.verdict = .transient)
      (reason : ¬ disk.Open [] location ∨ longestPath < (pathOf location).text.utf8ByteSize
        ∨ '\x00' ∈ (pathOf location).text.toList ∨ ∃ name ∈ location, longestName < name.utf8ByteSize) :
      Located disk location (.error fault)

/-- Looking up an absolute path has one of the outcomes. -/
theorem locate_located {location : Location} (nonempty : location ≠ [])
    (valid : ∀ name ∈ location, Path.IsName name) (linkless : disk.Linkless [] location) :
    Located disk location (disk.locate (pathOf location)) := by
  have hfollowed := follow_followed valid linkless
  unfold locate
  by_cases hnul : '\x00' ∈ (pathOf location).text.toList
  · have hreach : disk.reach .find (pathOf location) = .failed .nulInPath :=
      if_pos (List.contains_iff_mem.mpr hnul)
    rw [hreach]
    exact .failed rfl (.inr (.inr (.inl hnul)))
  · by_cases hlong : longestPath < (pathOf location).text.utf8ByteSize
    · have hreach : disk.reach .find (pathOf location) = .failed .nameTooLong := by
        unfold reach
        rw [if_neg (mt List.contains_iff_mem.mp hnul), isEmpty_pathOf, if_neg Bool.false_ne_true,
          if_pos hlong]
      rw [hreach]
      exact .failed rfl (.inr (.inl hlong))
    · rw [reach_pathOf nonempty valid linkless hnul (Nat.not_lt.mp hlong)]
      revert hfollowed
      generalize disk.follow .find [] location = reached
      intro hfollowed
      cases hfollowed with
      | arrived there => exact .found (there.resolve_right nonempty)
      | vacant missing => exact .missing (.inl missing)
      | missing closed => exact .missing (.inr closed)
      | blocked closed => exact .failed rfl (.inl closed)
      | tooLong long => exact .failed rfl (.inr (.inr (.inr long)))

end TypingsIndex.Disk
