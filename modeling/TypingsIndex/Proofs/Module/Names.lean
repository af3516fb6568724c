import TypingsIndex.Module.Basic
import TypingsIndex.Proofs.Path.Descent

/-!
# The file that the names of a module come from

A path has the names of a module below a root exactly if plain names lead from the root to it and the last of them is
that of a declaration file (`DeclaredBelow`). The relative path is those names, so that it leads from the root back to
the file, and the path that the module is loaded from differs from it in the ending alone. Two files below one root
therefore have different module paths unless one is a spelling of the other.

Nothing like that holds of the identifier, in which all but ASCII letters and digits are the same: it is only a word
that can stand in a program.
-/

set_option autoImplicit false

namespace TypingsIndex

/-- A name that ends like that of a declaration file and has more than the ending. -/
def IsDeclarationName (name : String) : Prop :=
  declarationSuffix.toList <:+ name.toList ∧ declarationSuffix.toList.length < name.toList.length

/-- Whether a path is that of a declaration file does not depend on how it is spelled. -/
theorem Path.isDeclarationFile_congr {a b : Path} (h : a.components = b.components) :
    a.isDeclarationFile = b.isDeclarationFile := by
  unfold Path.isDeclarationFile Path.fileName?
  rw [h]

/-- The path of a declaration file is one that ends with the name of such a file. -/
theorem Path.isDeclarationFile_iff {path : Path} :
    path.isDeclarationFile = true ↔
      ∃ name, path.components.getLast? = some (.name name) ∧ IsDeclarationName name := by
  unfold isDeclarationFile fileName? IsDeclarationName
  cases path.components.getLast? with
  | none => simp
  | some last => cases last <;> simp [List.isSuffixOf_iff_suffix]

/-- Names that lead from a root to a declaration file. -/
structure DeclaredBelow (file root : Path) (names : List String) : Prop where
  below : file.components = root.components ++ names.map .name
  declared : ∃ name, names.getLast? = some name ∧ IsDeclarationName name

namespace DeclaredBelow

variable {file root : Path} {names : List String}

/-- There is a name between a root and a file below it. -/
theorem ne_nil (h : DeclaredBelow file root names) : names ≠ [] := by
  rintro rfl
  obtain ⟨name, hlast, -⟩ := h.declared
  cases hlast

/-- Names that lead somewhere lead to a declaration file exactly if the path is that of one. -/
theorem iff_isDeclarationFile (nonempty : names ≠ []) (below : file.components = root.components ++ names.map .name) :
    DeclaredBelow file root names ↔ file.isDeclarationFile = true := by
  have hlast : file.components.getLast? = names.getLast?.map .name := by
    rw [below, List.getLast?_append_of_ne_nil _ (by simpa using nonempty), List.getLast?_map]
  rw [Path.isDeclarationFile_iff, hlast]
  constructor
  · rintro ⟨-, name, hname, hdeclared⟩
    exact ⟨name, by rw [hname, Option.map_some], hdeclared⟩
  · rintro ⟨name, hname, hdeclared⟩
    obtain ⟨last, hlast, hsame⟩ := Option.map_eq_some_iff.mp hname
    cases hsame
    exact ⟨below, name, hlast, hdeclared⟩

/-- What is declared below a root is a declaration file. -/
theorem isDeclarationFile (h : DeclaredBelow file root names) : file.isDeclarationFile = true :=
  (iff_isDeclarationFile h.ne_nil h.below).mp h

/-- The names between a root and a file are names of a path. -/
theorem valid (h : DeclaredBelow file root names) : ∀ name ∈ names, Path.IsName name := by
  intro name hname
  have hmem : .name name ∈ file.components := by
    rw [h.below]
    exact List.mem_append_right _ (List.mem_map_of_mem hname)
  exact Path.isName_of_mem_components hmem

/-- With slashes between them the names are a text before the ending, and it is not empty. -/
theorem exists_stem (h : DeclaredBelow file root names) :
    ∃ stem ≠ [], stem ++ declarationSuffix.toList = ['/'].intercalate (names.map String.toList) := by
  obtain ⟨last, hlast, hsuffix, hlonger⟩ := h.declared
  have hend : last.toList <:+ ['/'].intercalate (names.map String.toList) :=
    Text.suffix_intercalate (by rw [List.getLast?_map, hlast, Option.map_some])
  obtain ⟨stem, hstem⟩ := hsuffix.trans hend
  refine ⟨stem, ?_, hstem⟩
  rintro rfl
  have hlength := hend.length_le
  rw [← hstem, List.nil_append] at hlength
  omega

end DeclaredBelow

/-! ## Identifiers -/

namespace Text

/-- What stands in an ASCII identifier. -/
def IsWordChar (c : Char) : Prop :=
  isAsciiLetter c = true ∨ isAsciiDigit c = true ∨ c = '_'

/-- An underscore is part of a word. -/
theorem isWordChar_underscore : IsWordChar '_' :=
  Or.inr (Or.inr rfl)

/-- A text that `[A-Za-z_][A-Za-z0-9_]*` matches. -/
def IsWord (text : List Char) : Prop :=
  ∃ first rest, text = first :: rest ∧ (isAsciiLetter first = true ∨ first = '_') ∧ ∀ c ∈ rest, IsWordChar c

/-- Characters of words are a word if the first of them is not a digit. -/
theorem isWord_cons {first : Char} {rest : List Char} (chars : ∀ c ∈ first :: rest, IsWordChar c)
    (start : isAsciiDigit first = false) : IsWord (first :: rest) := by
  rw [List.forall_mem_cons] at chars
  refine ⟨first, rest, rfl, ?_, chars.2⟩
  rcases chars.1 with hletter | hdigit | hunderscore
  · exact Or.inl hletter
  · rw [hdigit] at start
    cases start
  · exact Or.inr hunderscore

/-- A word consists of characters of words. -/
theorem IsWord.chars {text : List Char} (h : IsWord text) : ∀ c ∈ text, IsWordChar c := by
  obtain ⟨first, rest, rfl, hfirst, hrest⟩ := h
  refine List.forall_mem_cons.mpr ⟨?_, hrest⟩
  rcases hfirst with hletter | hunderscore
  · exact Or.inl hletter
  · exact Or.inr (Or.inr hunderscore)

/-- A word with characters of words behind it is a word. -/
theorem IsWord.append {front back : List Char} (word : IsWord front) (chars : ∀ c ∈ back, IsWordChar c) :
    IsWord (front ++ back) := by
  obtain ⟨first, rest, rfl, hfirst, hrest⟩ := word
  exact ⟨first, rest ++ back, rfl, hfirst, List.forall_mem_append.mpr ⟨hrest, chars⟩⟩

end Text

namespace ModuleNames

open Text

/-- A part of a path is made a word, unless it is empty. -/
theorem isWord_identifierPart {segment : List Char} (nonempty : segment ≠ []) : IsWord (identifierPart segment) := by
  have hchars : ∀ d ∈ segment.map fun c => if isAsciiLetter c || isAsciiDigit c then c else '_', IsWordChar d := by
    rw [List.forall_mem_map]
    intro c _
    unfold IsWordChar
    split
    · next hkept => exact or_assoc.mp (Or.inl ((Bool.or_eq_true _ _).mp hkept))
    · exact isWordChar_underscore
  unfold identifierPart
  generalize hpart : (segment.map fun c => if isAsciiLetter c || isAsciiDigit c then c else '_') = part at hchars ⊢
  cases part with
  | nil => exact absurd (List.map_eq_nil_iff.mp hpart) nonempty
  | cons first rest =>
    dsimp only
    split
    · exact ⟨'_', first :: rest, rfl, Or.inr rfl, hchars⟩
    · next hdigit => exact isWord_cons hchars (Bool.not_eq_true _ ▸ hdigit)

/-- Parts with underscores between them are a word, unless there is only an empty one. -/
theorem isWord_intercalate {segments : List (List Char)} (nonempty : segments ≠ []) (filled : segments ≠ [[]]) :
    IsWord (['_'].intercalate (segments.map identifierPart)) := by
  induction segments with
  | nil => exact absurd rfl nonempty
  | cons segment others ih =>
    cases others with
    | nil =>
      rw [List.map_singleton, List.intercalate_singleton]
      exact isWord_identifierPart fun h => filled (h ▸ rfl)
    | cons next rest =>
      rw [List.map_cons, List.map_cons, List.intercalate_cons_cons, ← List.map_cons]
      have hrest : ∀ c ∈ ['_'] ++ ['_'].intercalate ((next :: rest).map identifierPart), IsWordChar c := by
        refine List.forall_mem_cons.mpr ⟨isWordChar_underscore, ?_⟩
        by_cases hlast : next :: rest = [[]]
        · rw [hlast]
          exact fun c hc => absurd hc List.not_mem_nil
        · exact (ih (List.cons_ne_nil next rest) hlast).chars
      rw [List.append_assoc]
      by_cases hsegment : segment = []
      · -- the underscore behind an empty part is the first character
        rw [hsegment]
        exact isWord_cons hrest rfl
      · exact (isWord_identifierPart hsegment).append hrest

/-! ## The names of a module -/

variable {file other root : Path} {names : ModuleNames} {segments : List String}

/-- The names that follow from where a file lies. -/
structure FollowFrom (names : ModuleNames) (segments : List String) : Prop where
  relativePath : names.relativePath = "/".intercalate segments
  /-- The path that a module is loaded from differs from the relative path in its ending. -/
  modulePath : ∃ stem, names.relativePath = stem ++ declarationSuffix ∧ names.modulePath = "/" ++ stem ++ ".js"
  moduleName : IsWord names.moduleName.toList

/-- Names that lead to a declaration file give names to a module. -/
theorem exists_ofSegments? (h : DeclaredBelow file root segments) :
    ∃ names, ofSegments? segments = some names ∧ names.FollowFrom segments := by
  obtain ⟨stem, hfilled, hstem⟩ := h.exists_stem
  have hcut := List.isSuffixOf?_eq_some_iff_append_eq.mpr hstem
  have hword : IsWord (['_'].intercalate ((splitAt '/' stem).map identifierPart)) :=
    isWord_intercalate (splitAt_ne_nil '/' stem) fun hempty => hfilled (eq_nil_of_splitAt hempty)
  unfold ofSegments?
  simp only [hcut, Option.bind_eq_bind, Option.bind_some]
  refine ⟨_, rfl, ?_, ⟨String.ofList stem, ?_, ?_⟩, ?_⟩
  · apply String.toList_inj.mp
    rw [String.toList_ofList, String.toList_intercalate]
    rfl
  · rw [← hstem, String.ofList_append, String.ofList_toList]
  · apply String.toList_inj.mp
    simp
  · rw [String.toList_ofList]
    exact hword

/-- A file has the names that follow from the names which lead to it, if there are such. -/
theorem ofFile?_eq_some_iff :
    ofFile? file root = some names ↔
      ∃ segments, DeclaredBelow file root segments ∧ ofSegments? segments = some names := by
  have hnone : ofSegments? [] = none := rfl
  unfold ofFile?
  constructor
  · intro h
    split at h
    · next hdeclared =>
      simp only [Option.bind_eq_bind, ← Option.bind_assoc] at h
      obtain ⟨segments, hsegments, hnames⟩ := Option.bind_eq_some_iff.mp h
      have hne : segments ≠ [] := by
        rintro rfl
        rw [hnone] at hnames
        cases hnames
      exact ⟨segments, (DeclaredBelow.iff_isDeclarationFile hne (Path.namesBelow_iff.mp hsegments)).mpr hdeclared,
        hnames⟩
    · cases h
  · rintro ⟨segments, h, hnames⟩
    rw [if_pos h.isDeclarationFile]
    simp only [Option.bind_eq_bind, ← Option.bind_assoc]
    exact Option.bind_eq_some_iff.mpr ⟨segments, Path.namesBelow_iff.mpr h.below, hnames⟩

/-- The relative path of a module leads from the root back to its file. -/
theorem FollowFrom.components_join (h : names.FollowFrom segments) (lies : DeclaredBelow file root segments) :
    (root.join names.relativePath).components = file.components := by
  rw [h.relativePath, Path.components_join_names root lies.ne_nil lies.valid, lies.below]

/-- Two modules that are loaded from one path have one relative path. -/
theorem FollowFrom.relativePath_eq {others : ModuleNames} {otherSegments : List String} (h : names.FollowFrom segments)
    (hothers : others.FollowFrom otherSegments) (same : names.modulePath = others.modulePath) :
    names.relativePath = others.relativePath := by
  obtain ⟨stem, hrelative, hpath⟩ := h.modulePath
  obtain ⟨otherStem, hotherRelative, hotherPath⟩ := hothers.modulePath
  rw [hpath, hotherPath, ← String.toList_inj] at same
  simp only [String.toList_append, List.append_cancel_left_eq, List.append_cancel_right_eq] at same
  rw [hrelative, hotherRelative, String.toList_inj.mp same]

/-- A file has the names of a module exactly if it is a declaration file that names lead to. -/
theorem exists_ofFile?_iff :
    (∃ names, ofFile? file root = some names) ↔ ∃ segments, DeclaredBelow file root segments := by
  constructor
  · rintro ⟨names, hnames⟩
    obtain ⟨segments, h, -⟩ := ofFile?_eq_some_iff.mp hnames
    exact ⟨segments, h⟩
  · rintro ⟨segments, h⟩
    obtain ⟨names, hnames, -⟩ := exists_ofSegments? h
    exact ⟨names, ofFile?_eq_some_iff.mpr ⟨segments, h, hnames⟩⟩

/-- A declaration file that is reached from a root by names has the names of a module below it. -/
theorem exists_ofFile? (declared : file.isDeclarationFile = true) (nonempty : segments ≠ [])
    (below : file.components = root.components ++ segments.map .name) :
    ∃ names, ofFile? file root = some names :=
  exists_ofFile?_iff.mpr ⟨segments, (DeclaredBelow.iff_isDeclarationFile nonempty below).mpr declared⟩

/-- Only a declaration file has the names of a module. -/
theorem declared (h : ofFile? file root = some names) : file.isDeclarationFile = true := by
  obtain ⟨segments, lies, -⟩ := ofFile?_eq_some_iff.mp h
  exact lies.isDeclarationFile

/-- The root itself gives no names to a module. -/
theorem below_of_ofFile? (named : ofFile? file root = some names) : file.components ≠ root.components := by
  obtain ⟨segments, lies, -⟩ := ofFile?_eq_some_iff.mp named
  intro hroot
  have hnil : segments.map Path.Component.name = [] := List.append_right_eq_self.mp (lies.below.symm.trans hroot)
  exact lies.ne_nil (List.map_eq_nil_iff.mp hnil)

/-- Every spelling of a path has the same names. -/
theorem ofFile?_congr (same : file.components = other.components) (root : Path) :
    ofFile? file root = ofFile? other root := by
  unfold ofFile? Path.below?
  rw [Path.isDeclarationFile_congr same, same]

end ModuleNames

namespace Module

variable {file other root : Path} {entry fresh another : Module} {names : List String}

/-- Only a declaration file can have a module. -/
theorem declared (h : empty? file root = some fresh) : file.isDeclarationFile = true := by
  obtain ⟨names, hnames, -⟩ := Option.map_eq_some_iff.mp h
  exact ModuleNames.declared hnames

/-- A path below a root has a module exactly if names lead to it as to a declaration file. -/
theorem exists_empty?_iff :
    (∃ entry, empty? file root = some entry) ↔ ∃ names, DeclaredBelow file root names := by
  rw [← ModuleNames.exists_ofFile?_iff]
  unfold empty?
  constructor
  · rintro ⟨entry, hentry⟩
    obtain ⟨names, hnames, -⟩ := Option.map_eq_some_iff.mp hentry
    exact ⟨names, hnames⟩
  · rintro ⟨names, hnames⟩
    exact ⟨_, by rw [hnames, Option.map_some]⟩

/-- The module of a declaration file knows nothing but its path and the names that follow from where it lies, and these
lead from the root to the file. -/
theorem exists_empty? (lies : DeclaredBelow file root names) :
    ∃ moduleNames, empty? file root = some ⟨file, moduleNames, [], none⟩ ∧ moduleNames.FollowFrom names
      ∧ (root.join moduleNames.relativePath).components = file.components := by
  obtain ⟨moduleNames, hnames, hfollow⟩ := ModuleNames.exists_ofSegments? lies
  refine ⟨moduleNames, ?_, hfollow, hfollow.components_join lies⟩
  unfold empty?
  rw [ModuleNames.ofFile?_eq_some_iff.mpr ⟨names, lies, hnames⟩, Option.map_some]

/-- Modules of files below one root are loaded from one path exactly if their files are spellings of one path. -/
theorem modulePath_eq_iff (first : empty? file root = some entry) (second : empty? other root = some another) :
    entry.names.modulePath = another.names.modulePath ↔ file.components = other.components := by
  obtain ⟨names, lies⟩ := exists_empty?_iff.mp ⟨entry, first⟩
  obtain ⟨otherNames, otherLies⟩ := exists_empty?_iff.mp ⟨another, second⟩
  obtain ⟨moduleNames, hempty, hfollow, hjoin⟩ := exists_empty? lies
  obtain ⟨otherModuleNames, hotherEmpty, hotherFollow, hotherJoin⟩ := exists_empty? otherLies
  obtain rfl := Option.some.inj (first.symm.trans hempty)
  obtain rfl := Option.some.inj (second.symm.trans hotherEmpty)
  constructor
  · -- both files are where the one relative path leads
    intro hsame
    rw [← hjoin, ← hotherJoin, hfollow.relativePath_eq hotherFollow hsame]
  · intro hsame
    unfold empty? at first second
    rw [ModuleNames.ofFile?_congr hsame] at first
    obtain ⟨fresh, hfresh, hentry⟩ := Option.map_eq_some_iff.mp first
    rw [hfresh, Option.map_some] at second
    cases hentry
    cases second
    rfl

/-- What an attempt to move a module to another file comes to: whether it moved, and the module afterwards. -/
def tryRelocate (entry : Module) (file root : Path) : Bool × Module :=
  match entry.relocate? file root with
  | some moved => (true, moved)
  | none => (false, entry)

/-- A module moves to the files that could have a module of their own. It is then that module with its own functions
and digest, and otherwise what it was. -/
theorem tryRelocate_eq (entry : Module) (file root : Path) :
    entry.tryRelocate file root =
      match empty? file root with
      | some fresh => (true, { fresh with functions := entry.functions, digest := entry.digest })
      | none => (false, entry) := by
  unfold tryRelocate relocate? empty?
  cases ModuleNames.ofFile? file root <;> rfl

/-- The names of a module are those of its file and determine it: which paths have a module below a root, what its names
are, that no two files have one module path, and that a module that moves takes the names of its new file and nothing
else. -/
theorem names_determine_file (root : Path) :
    (∀ file, (∃ entry, empty? file root = some entry) ↔ ∃ names, DeclaredBelow file root names)
      ∧ (∀ file names, DeclaredBelow file root names →
          ∃ moduleNames, empty? file root = some ⟨file, moduleNames, [], none⟩ ∧ moduleNames.FollowFrom names
            ∧ (root.join moduleNames.relativePath).components = file.components)
      ∧ (∀ file other entry another, empty? file root = some entry → empty? other root = some another →
          (entry.names.modulePath = another.names.modulePath ↔ file.components = other.components))
      ∧ ∀ (entry : Module) (file : Path),
          ((entry.tryRelocate file root).1 = true ↔ ∃ fresh, empty? file root = some fresh)
            ∧ (∀ fresh, empty? file root = some fresh →
                (entry.tryRelocate file root).2 = { entry with file := file, names := fresh.names })
            ∧ ((entry.tryRelocate file root).1 = false → (entry.tryRelocate file root).2 = entry) := by
  refine ⟨fun file => exists_empty?_iff, fun file names => exists_empty?,
    fun file other entry another => modulePath_eq_iff, fun entry file => ?_⟩
  rw [tryRelocate_eq]
  cases hfresh : empty? file root with
  | none => simp
  | some fresh =>
    obtain ⟨names, -, rfl⟩ := Option.map_eq_some_iff.mp hfresh
    simp

/-- Slashes and dots that do not count, a digit in front and a letter beyond ASCII. A name that is nothing but the
ending is refused, and the module stays where it was. -/
theorem names_determine_file_spelled :
    let root : Path := ⟨"/w/./decl/"⟩
    let file : Path := ⟨"/w//decl/1-é/./x.d.ts/"⟩
    let other : Path := ⟨"/w/decl/1-é/x.d.ts"⟩
    let refused : Path := ⟨"/w/decl/.d.ts"⟩
    let names : ModuleNames := ⟨"1-é/x.d.ts", "/1-é/x.js", "_1___x"⟩
    DeclaredBelow file root ["1-é", "x.d.ts"]
      ∧ empty? file root = some ⟨file, names, [], none⟩ ∧ names.FollowFrom ["1-é", "x.d.ts"]
      ∧ (root.join names.relativePath).components = file.components
      ∧ empty? other root = some ⟨other, names, [], none⟩ ∧ file.components = other.components
      ∧ (⟨other, names, [], none⟩ : Module).tryRelocate file root = (true, ⟨file, names, [], none⟩)
      ∧ (⟨other, names, [], none⟩ : Module).tryRelocate refused root = (false, ⟨other, names, [], none⟩) := by
  intro root file other refused names
  obtain ⟨-, hnew, hpaths, hmove⟩ := names_determine_file root
  have hlies : DeclaredBelow file root ["1-é", "x.d.ts"] :=
    ⟨by decide +kernel, "x.d.ts", rfl, by unfold IsDeclarationName; decide +kernel⟩
  have hfile : empty? file root = some ⟨file, names, [], none⟩ := by decide +kernel
  have hother : empty? other root = some ⟨other, names, [], none⟩ := by decide +kernel
  obtain ⟨found, hfound, hfollow, hjoin⟩ := hnew file _ hlies
  obtain rfl : found = names := congrArg Module.names (Option.some.inj (hfound.symm.trans hfile))
  obtain ⟨hmoves, hmoved, -⟩ := hmove ⟨other, names, [], none⟩ file
  obtain ⟨-, -, hkept⟩ := hmove ⟨other, names, [], none⟩ refused
  refine ⟨hlies, hfile, hfollow, hjoin, hother, (hpaths _ _ _ _ hfile hother).mp rfl, ?_, ?_⟩
  · exact Prod.ext (hmoves.mpr ⟨_, hfile⟩) (hmoved _ hfile)
  · have hrefused : ((⟨other, names, [], none⟩ : Module).tryRelocate refused root).1 = false := by decide +kernel
    exact Prod.ext hrefused (hkept hrefused)

end Module

end TypingsIndex
