import TypingsIndex.Disk.Operations
import TypingsIndex.Proofs.Disk.Nodes

/-!
# Reading what was written

A file that was written is found under the path by which it was written, and holds what was written, on any disk and
whatever links are on the way. Writing changes what lies at one location and leaves all directories as they are, so the
path is followed as before. There is one exception: the location might have held a link that the path went through.
But then the path went on from above the link and never came to the location at all.
-/

set_option autoImplicit false

namespace TypingsIndex.Disk

variable {disk : Disk} {location : Location} {name : String} {names rest : List String} {reached : Reached}

/-- A name that is looked up in a directory. -/
structure Enters (disk : Disk) (location : Location) (name : String) : Prop where
  directory : disk.hasDirectory location = true
  proper : ¬ (name = "" ∨ name = ".")
  down : name ≠ ".."
  short : ¬ longestName < name.utf8ByteSize

/-- Names lead from a location to where following them succeeds. -/
inductive Leads (disk : Disk) : Location → List String → Reached → Prop where
  | done {location : Location} : Leads disk location [] (.arrived location)
  | stay {location : Location} {name : String} {rest : List String} {reached : Reached}
      (directory : disk.hasDirectory location = true) (here : name = "" ∨ name = ".")
      (further : Leads disk location rest reached) : Leads disk location (name :: rest) reached
  | up {location : Location} {rest : List String} {reached : Reached}
      (directory : disk.hasDirectory location = true) (further : Leads disk location.dropLast rest reached) :
      Leads disk location (".." :: rest) reached
  | enter {location : Location} {name : String} {rest : List String} {reached : Reached} {node : Node}
      (enters : disk.Enters location name) (there : disk.node? (location ++ [name]) = some node)
      (direct : ∀ target, node ≠ .link target) (further : Leads disk (location ++ [name]) rest reached) :
      Leads disk location (name :: rest) reached
  | link {location : Location} {name : String} {rest : List String} {target : String}
      (enters : disk.Enters location name) (there : disk.node? (location ++ [name]) = some (.link target)) :
      Leads disk location (name :: rest) (.linked target location rest)
  | vacant {location : Location} {name : String} (enters : disk.Enters location name)
      (missing : disk.node? (location ++ [name]) = none) : Leads disk location [name] (.vacant location name)

/-! ## Following and leading -/

/-- Following names fails, or they lead to what it comes to. -/
theorem follow_leads (disk : Disk) (aim : Aim) (location : Location) (names : List String) :
    (∃ fault, disk.follow aim location names = .failed fault)
      ∨ disk.Leads location names (disk.follow aim location names) := by
  induction names generalizing location with
  | nil => exact .inr .done
  | cons name rest ih =>
    rw [follow]
    split
    · exact .inl ⟨_, rfl⟩
    next hclosed =>
    have hdirectory : disk.hasDirectory location = true := by simpa using hclosed
    split
    · next hhere => exact (ih location).imp_right (.stay hdirectory hhere)
    next hproper =>
    split
    · next hup =>
      subst hup
      exact (ih location.dropLast).imp_right (.up hdirectory)
    next hdown =>
    split
    · exact .inl ⟨_, rfl⟩
    split
    · exact .inl ⟨_, rfl⟩
    next hshort =>
    have henters : disk.Enters location name := ⟨hdirectory, hproper, hdown, hshort⟩
    split
    · next target hnode => exact .inr (.link henters hnode)
    · next node hdirect hnode =>
      exact (ih (location ++ [name])).imp_right (.enter henters hnode fun target heq => hdirect target heq)
    · next hnode =>
      cases rest with
      | nil => exact .inr (.vacant henters hnode)
      | cons next others => exact .inl ⟨_, rfl⟩

section

variable (h : disk.Enters location name)

include h

/-- A path that enters a link is led to the target of the link. -/
theorem Enters.follow_link {target : String} (there : disk.node? (location ++ [name]) = some (.link target)) :
    disk.follow .find location (name :: rest) = .linked target location rest := by
  simp [follow, h.directory, h.proper, h.down, h.short, there]

/-- A path that enters a node that is no link goes on from there. -/
theorem Enters.follow_node {node : Node} (there : disk.node? (location ++ [name]) = some node)
    (direct : ∀ target, node ≠ .link target) :
    disk.follow .find location (name :: rest) = disk.follow .find (location ++ [name]) rest := by
  cases node with
  | link target => exact absurd rfl (direct target)
  | file content => simp [follow, h.directory, h.proper, h.down, h.short, there]
  | directory => simp [follow, h.directory, h.proper, h.down, h.short, there]

/-- A path whose last name has no node ends at a vacant place. -/
theorem Enters.follow_missing (missing : disk.node? (location ++ [name]) = none) :
    disk.follow .find location [name] = .vacant location name := by
  simp [follow, h.directory, h.proper, h.down, h.short, missing]

end

/-- Where names lead is where a path with these names ends. -/
theorem Leads.follow_eq (h : disk.Leads location names reached) : disk.follow .find location names = reached := by
  induction h with
  | done => rfl
  | stay directory here further ih => rw [follow, directory, if_neg (by decide), if_pos here, ih]
  | up directory further ih => rw [follow, directory, if_neg (by decide), if_neg (by decide), if_pos rfl, ih]
  | enter enters there direct further ih => rw [enters.follow_node there direct, ih]
  | link enters there => exact enters.follow_link there
  | vacant enters missing => exact enters.follow_missing missing

/-! ## Away from a link -/

/-- What a search has come to is not at or below a location. -/
def Reached.Avoids (reached : Reached) (place : Location) : Prop :=
  match reached with
  | .arrived location => ¬ place <+: location
  | .vacant directory name => directory ++ [name] ≠ place
  | .linked _ directory _ => ¬ place <+: directory
  | .failed _ => True

/-- No names lead to a link or below it, unless they start there. -/
theorem Leads.avoids {place : Location} {target : String} (h : disk.Leads location names reached)
    (hlink : disk.node? place = some (.link target)) (apart : ¬ place <+: location) : reached.Avoids place := by
  induction h with
  | done => exact apart
  | stay directory here further ih => exact ih apart
  | up directory further ih => exact ih fun hbelow => apart (hbelow.trans (List.dropLast_prefix _))
  | @enter location name rest reached node enters there direct further ih =>
    apply ih
    intro hbelow
    rcases List.prefix_concat_iff.mp hbelow with hself | habove
    · rw [← hself, hlink] at there
      exact direct target (Option.some.inj there).symm
    · exact apart habove
  | link enters there => exact apart
  | vacant enters missing =>
    intro heq
    rw [heq, hlink] at missing
    cases missing

/-- A path that starts elsewhere does not end at the place of a link, however many links it follows. -/
theorem followLinks_avoids {place : Location} {target : String} (hlink : disk.node? place = some (.link target))
    {aim : Aim} {links : Nat} (apart : ¬ place <+: location) :
    (disk.followLinks aim links location names).Avoids place := by
  have hroot : ¬ place <+: [] := by
    intro hnil
    rw [List.prefix_nil.mp hnil] at hlink
    cases hlink
  induction links generalizing location names with
  | zero => trivial
  | succ links ih =>
    rw [followLinks]
    rcases disk.follow_leads aim location names with ⟨fault, hfault⟩ | hleads
    · rw [hfault]
      trivial
    · have havoids := hleads.avoids hlink apart
      cases hfollow : disk.follow aim location names with
      | linked other directory rest =>
        rw [hfollow] at havoids
        dsimp only
        split
        · trivial
        · apply ih
          split
          · exact hroot
          · exact havoids
      | _ =>
        rw [hfollow] at havoids
        exact havoids

/-! ## After a file was put somewhere -/

section

variable {place : Location} {content : Content}

/-- What a search comes to once something lies at a location that was vacant. -/
def Reached.filled (place : Location) : Reached → Reached
  | .vacant directory name => if directory ++ [name] = place then .arrived place else .vacant directory name
  | reached => reached

/-- Filling a vacant place does not bring a path to a place that it avoids. -/
theorem Reached.Avoids.filled_ne (h : reached.Avoids place) : reached.filled place ≠ .arrived place := by
  intro heq
  cases reached with
  | arrived location =>
    cases heq
    exact h List.prefix_rfl
  | vacant directory name =>
    dsimp only [Reached.filled] at heq
    rw [if_neg h] at heq
    cases heq
  | linked target directory rest => cases heq
  | failed fault => cases heq

/-- A place that is no directory is not the root. -/
theorem ne_nil_of_not_directory (h : disk.hasDirectory place = false) : place ≠ [] := by
  rintro rfl
  cases h

/-- A file that is written in place of no directory leaves every directory where it was. -/
theorem hasDirectory_put_file (hplace : disk.hasDirectory place = false) (other : Location) :
    (disk.put place (.file content)).hasDirectory other = disk.hasDirectory other := by
  by_cases hother : other = place
  · rw [hother, hplace]
    unfold hasDirectory
    rw [node?_put_self (ne_nil_of_not_directory hplace)]
    rfl
  · unfold hasDirectory
    rw [node?_put_of_ne hother]

/-- A file that is written in place of no directory leaves every entrance where it was. -/
theorem Enters.put (h : disk.Enters location name) (hplace : disk.hasDirectory place = false) :
    (disk.put place (.file content)).Enters location name where
  directory := by rw [hasDirectory_put_file hplace, h.directory]
  proper := h.proper
  down := h.down
  short := h.short

/-- Names lead where they led before a file was put at a location, unless they led to a link there. -/
theorem Leads.put (h : disk.Leads location names reached) (hplace : disk.hasDirectory place = false)
    (content : Content) :
    (∃ old target directory rest, reached = .linked target directory rest ∧ disk.node? place = some (.link old)
      ∧ ¬ place <+: directory) ∨ (disk.put place (.file content)).Leads location names (reached.filled place) := by
  have hroot := ne_nil_of_not_directory hplace
  induction h with
  | done => exact .inr .done
  | stay directory here further ih =>
    refine ih.imp_right (.stay ?_ here)
    rw [hasDirectory_put_file hplace, directory]
  | up directory further ih =>
    refine ih.imp_right (.up ?_)
    rw [hasDirectory_put_file hplace, directory]
  | @enter location name rest reached node enters there direct further ih =>
    refine ih.imp_right fun hfurther => ?_
    by_cases heq : location ++ [name] = place
    · exact .enter (enters.put hplace) (by rw [heq, node?_put_self hroot]) (fun _ h => by cases h) hfurther
    · exact .enter (enters.put hplace) (by rw [node?_put_of_ne heq, there]) direct hfurther
  | @link location name rest target enters there =>
    by_cases heq : location ++ [name] = place
    -- the link is gone now, and the search would go on from the file
    · refine .inl ⟨target, target, location, rest, rfl, heq ▸ there, ?_⟩
      intro hbelow
      have hlength := hbelow.length_le
      rw [← heq, List.length_append, List.length_singleton] at hlength
      omega
    · exact .inr (.link (enters.put hplace) (by rw [node?_put_of_ne heq, there]))
  | @vacant location name enters missing =>
    right
    dsimp only [Reached.filled]
    by_cases heq : location ++ [name] = place
    · rw [if_pos heq]
      refine .enter (enters.put hplace) (by rw [heq, node?_put_self hroot]) (fun _ h => by cases h) ?_
      rw [heq]
      exact .done
    · rw [if_neg heq]
      exact .vacant (enters.put hplace) (by rw [node?_put_of_ne heq, missing])

/-- A search that comes to a location, or to a vacant one, comes to the file that is put there. -/
theorem followLinks_put (hplace : disk.hasDirectory place = false) {aim : Aim} {links : Nat}
    (h : (disk.followLinks aim links location names).filled place = .arrived place) :
    (disk.put place (.file content)).followLinks .find links location names = .arrived place := by
  have hroot := ne_nil_of_not_directory hplace
  induction links generalizing location names with
  | zero => cases h
  | succ links ih =>
    rw [followLinks] at h ⊢
    rcases disk.follow_leads aim location names with ⟨fault, hfault⟩ | hleads
    · rw [hfault] at h
      cases h
    · rcases hleads.put hplace content with
        ⟨old, target, directory, rest, hfollow, hlink, hapart⟩ | hput
      · -- The link at the location was gone through: the search never comes to the location after that.
        rw [hfollow] at h
        dsimp only at h
        split at h
        · cases h
        · refine absurd h (Reached.Avoids.filled_ne (followLinks_avoids hlink ?_))
          split
          · exact fun hnil => hroot (List.prefix_nil.mp hnil)
          · exact hapart
      · cases hfollow : disk.follow aim location names with
        | linked target directory rest =>
          rw [hfollow] at h hput
          rw [hput.follow_eq]
          dsimp only [Reached.filled] at h ⊢
          by_cases hempty : target.isEmpty = true
          · rw [if_pos hempty] at h
            cases h
          · rw [if_neg hempty] at h ⊢
            exact ih h
        | _ =>
          rw [hfollow] at h hput
          rw [hput.follow_eq]
          dsimp only at h
          rw [h]

/-- A path that leads to the place of a file, or to where it is missing, finds the file once it is written. -/
theorem reach_put (hplace : disk.hasDirectory place = false) {aim : Aim} {path : Path}
    (h : (disk.reach aim path).filled place = .arrived place) :
    (disk.put place (.file content)).reach .find path = .arrived place := by
  unfold reach at h ⊢
  split at h
  · cases h
  · next hnul =>
    rw [if_neg hnul]
    split at h
    · cases h
    · next hempty =>
      rw [if_neg hempty]
      split at h
      · cases h
      · next hlong =>
        rw [if_neg hlong]
        exact followLinks_put hplace h

/-- A path that leads to the place of a file reads the text that was written there. -/
theorem read_put (hplace : disk.hasDirectory place = false) {aim : Aim} {path : Path} {text : String}
    (h : (disk.reach aim path).filled place = .arrived place) :
    (disk.put place (.file (.text text))).read path = .content text := by
  unfold read locate
  rw [reach_put hplace h]
  dsimp only
  rw [node?_put_self (ne_nil_of_not_directory hplace)]

end

/-! ## Writing -/

section

variable {directory : Location}

/-- Names that lead to a vacant place have found no node there. -/
theorem Leads.missing (h : disk.Leads location names reached) (hreached : reached = .vacant directory name) :
    disk.node? (directory ++ [name]) = none := by
  induction h with
  | done => cases hreached
  | stay _ _ _ ih => exact ih hreached
  | up _ _ ih => exact ih hreached
  | enter _ _ _ _ ih => exact ih hreached
  | link _ _ => cases hreached
  | vacant _ missing =>
    cases hreached
    exact missing

/-- There is no node at a vacant place to which links have led. -/
theorem followLinks_vacant {aim : Aim} {links : Nat}
    (h : disk.followLinks aim links location names = .vacant directory name) :
    disk.node? (directory ++ [name]) = none := by
  induction links generalizing location names with
  | zero => cases h
  | succ links ih =>
    rw [followLinks] at h
    cases hfollow : disk.follow aim location names with
    | linked target above rest =>
      rw [hfollow] at h
      dsimp only at h
      split at h
      · cases h
      · exact ih h
    | vacant above last =>
      rw [hfollow] at h
      rcases disk.follow_leads aim location names with ⟨fault, hfault⟩ | hleads
      · rw [hfollow] at hfault
        cases hfault
      · exact hleads.missing (hfollow.trans h)
    | _ =>
      rw [hfollow] at h
      cases h

/-- There is no directory at a vacant place that a path has reached. -/
theorem reach_vacant {aim : Aim} {path : Path} (h : disk.reach aim path = .vacant directory name) :
    disk.hasDirectory (directory ++ [name]) = false := by
  have hmissing : disk.node? (directory ++ [name]) = none := by
    unfold reach at h
    split at h
    · cases h
    · split at h
      · cases h
      · split at h
        · cases h
        · exact followLinks_vacant h
  unfold hasDirectory
  rw [hmissing]
  rfl

end

/-- A file that was written holds what was written, under the path by which it was written. -/
theorem read_write {after : Disk} {path : Path} {text : String} (h : disk.write path (.text text) = .ok after) :
    after.read path = .content text := by
  unfold write at h
  cases hreach : disk.reach .write path with
  | arrived location =>
    rw [hreach] at h
    dsimp only at h
    split at h
    · cases h
    · next hfile =>
      cases h
      have hfilled : (disk.reach .write path).filled location = .arrived location := by
        rw [hreach]
        rfl
      exact read_put (by simpa using hfile) hfilled
  | vacant directory name =>
    rw [hreach] at h
    cases h
    have hfilled : (disk.reach .write path).filled (directory ++ [name]) = .arrived (directory ++ [name]) := by
      rw [hreach]
      exact if_pos rfl
    exact read_put (reach_vacant hreach) hfilled
  | linked target directory rest =>
    rw [hreach] at h
    cases h
  | failed fault =>
    rw [hreach] at h
    cases h

end TypingsIndex.Disk
