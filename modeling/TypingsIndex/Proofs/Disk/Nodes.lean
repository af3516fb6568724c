import Mathlib.Data.List.Find
import Mathlib.Data.List.Nodup
import TypingsIndex.Disk.Basic

/-!
# What lies where after a change

Putting something at a location and clearing a location change what lies there, or at and below it, and
nothing else. A transfer to a location where nothing is takes along what is at and below its source. The root is
always a directory.
-/

set_option autoImplicit false

namespace TypingsIndex.Disk

variable {disk : Disk} {location other : Location} {node : Node}

/-- The root of a disk is a directory. -/
@[simp] theorem node?_nil : disk.node? [] = some .directory := rfl

/-- What lies at a location other than the root is the first that is listed there. -/
theorem node?_of_ne_nil (h : location ≠ []) :
    disk.node? location = (disk.nodes.find? fun entry => entry.1 == location).map Prod.snd := by
  unfold node?
  rw [if_neg (by simpa using h)]

/-- If every location is listed once, what lies at one is what is listed there. -/
theorem node?_eq_some_iff (once : (disk.nodes.map Prod.fst).Nodup) (h : location ≠ []) :
    disk.node? location = some node ↔ (location, node) ∈ disk.nodes := by
  rw [node?_of_ne_nil h, Option.map_eq_some_iff]
  constructor
  · rintro ⟨entry, hentry, rfl⟩
    have hlocation := List.find?_some hentry
    rw [← beq_iff_eq.mp hlocation]
    exact List.mem_of_find?_eq_some hentry
  · intro hlisted
    obtain ⟨entry, hentry⟩ := Option.isSome_iff_exists.mp
      (List.find?_isSome (p := fun entry => entry.1 == location).mpr ⟨_, hlisted, beq_self_eq_true _⟩)
    have hlocation := List.find?_some hentry
    have hsame := List.inj_on_of_nodup_map once (List.mem_of_find?_eq_some hentry) hlisted
      (beq_iff_eq.mp hlocation)
    exact ⟨entry, hentry, by rw [hsame]⟩

/-- What was put at a location lies there. -/
theorem node?_put_self (h : location ≠ []) : (disk.put location node).node? location = some node := by
  have hgone : (disk.nodes.filter fun entry => entry.1 != location).find?
      (fun entry => entry.1 == location) = none := by
    rw [List.find?_eq_none]
    intro entry hentry
    simpa using (List.mem_filter.mp hentry).2
  rw [node?_of_ne_nil h]
  unfold put
  rw [List.find?_append, hgone]
  simp

/-- Putting something at a location changes nothing elsewhere. -/
theorem node?_put_of_ne (h : other ≠ location) :
    (disk.put location node).node? other = disk.node? other := by
  by_cases hroot : other = []
  · rw [hroot]
    rfl
  · have hkept : (disk.nodes.filter fun entry => entry.1 != location).find?
        (fun entry => entry.1 == other) = disk.nodes.find? fun entry => entry.1 == other := by
      rw [List.find?_filter]
      congr 1
      funext entry
      by_cases hentry : entry.1 = other
      · simp [hentry, h]
      · simp [hentry]
    rw [node?_of_ne_nil hroot, node?_of_ne_nil hroot]
    unfold put
    rw [List.find?_append, hkept]
    simp [h.symm]

/-- No place at or below a location that was cleared is listed any more. -/
theorem not_prefix_of_mem_clear {entry : Location × Node} (h : entry ∈ (disk.clear location).nodes) :
    ¬ location <+: entry.1 := by
  intro hbelow
  have hkept := (List.mem_filter.mp h).2
  rw [Bool.not_eq_true', List.isPrefixOf_iff_prefix.mpr hbelow] at hkept
  cases hkept

/-- Nothing is left at or below a location that was cleared. -/
theorem node?_clear_of_prefix (hroot : location ≠ []) (h : location <+: other) :
    (disk.clear location).node? other = none := by
  have hother : other ≠ [] := fun heq => hroot (List.prefix_nil.mp (heq ▸ h))
  rw [node?_of_ne_nil hother, Option.map_eq_none_iff, List.find?_eq_none]
  intro entry hentry heq
  exact not_prefix_of_mem_clear hentry (beq_iff_eq.mp heq ▸ h)

/-- Clearing a location changes nothing but what is at or below it. -/
theorem node?_clear_of_not_prefix (h : ¬ location <+: other) :
    (disk.clear location).node? other = disk.node? other := by
  by_cases hroot : other = []
  · rw [hroot]
    rfl
  · have hkept : (disk.nodes.filter fun entry => !location.isPrefixOf entry.1).find?
        (fun entry => entry.1 == other) = disk.nodes.find? fun entry => entry.1 == other := by
      rw [List.find?_filter]
      congr 1
      funext entry
      by_cases hentry : entry.1 = other
      · have hout : location.isPrefixOf other = false := by
          rw [← Bool.not_eq_true, List.isPrefixOf_iff_prefix]
          exact h
        simp [hentry, hout]
      · simp [hentry]
    rw [node?_of_ne_nil hroot, node?_of_ne_nil hroot]
    unfold clear
    rw [hkept]

/-! ## Transfers -/

/-- Where a transfer takes what lies at a location. -/
def shifted (source target location : Location) : Location :=
  match source.isPrefixOf? location with
  | some below => target ++ below
  | none => location

section

variable {source target : Location}

/-- What lies below the source of a transfer goes below the target. -/
theorem shifted_append (below : Location) : shifted source target (source ++ below) = target ++ below := by
  have hbelow : source.isPrefixOf? (source ++ below) = some below :=
    List.isPrefixOf?_eq_some_iff_append_eq.mpr rfl
  unfold shifted
  rw [hbelow]

/-- What does not lie below the source of a transfer stays where it is. -/
theorem shifted_of_outside (h : ¬ source <+: location) : shifted source target location = location := by
  unfold shifted
  split
  · next below hbelow => exact absurd ⟨below, List.isPrefixOf?_eq_some_iff_append_eq.mp hbelow⟩ h
  · rfl

/-- A transfer changes the locations of the nodes and nothing else. -/
theorem transfer_nodes (disk : Disk) (source target : Location) :
    (disk.transfer source target).nodes =
      disk.nodes.map fun entry => (shifted source target entry.1, entry.2) := by
  unfold transfer shifted
  refine List.map_congr_left fun entry _ => ?_
  cases source.isPrefixOf? entry.1 <;> rfl

/-- If a transfer takes to one location exactly what lies at another, the one has afterwards what the other had. -/
theorem node?_transfer (hother : other ≠ []) (hlocation : location ≠ [])
    (h : ∀ entry ∈ disk.nodes, shifted source target entry.1 = other ↔ entry.1 = location) :
    (disk.transfer source target).node? other = disk.node? location := by
  have hfound : (disk.nodes.find? fun entry => shifted source target entry.1 == other) =
      disk.nodes.find? fun entry => entry.1 == location :=
    List.find?_congr fun entry hentry => by rw [Bool.eq_iff_iff, beq_iff_eq, beq_iff_eq, h entry hentry]
  calc (disk.transfer source target).node? other
      = ((disk.nodes.map fun entry => (shifted source target entry.1, entry.2)).find? fun entry =>
          entry.1 == other).map Prod.snd := by rw [node?_of_ne_nil hother, transfer_nodes]
    _ = (disk.nodes.find? fun entry => shifted source target entry.1 == other).map Prod.snd := by
        rw [List.find?_map, Option.map_map]
        rfl
    _ = (disk.nodes.find? fun entry => entry.1 == location).map Prod.snd := by rw [hfound]
    _ = disk.node? location := (node?_of_ne_nil hlocation).symm

section

variable (bare : ∀ entry ∈ disk.nodes, ¬ target <+: entry.1) (htarget : target ≠ [])

include bare htarget

/-- What lies at the target of a transfer is what lay at its source. -/
theorem node?_transfer_target (hsource : source ≠ []) :
    (disk.transfer source target).node? target = disk.node? source := by
  refine node?_transfer htarget hsource fun entry hentry => ?_
  by_cases hbelow : source <+: entry.1
  · obtain ⟨below, hentryBelow⟩ := hbelow
    rw [← hentryBelow, shifted_append]
    simp
  · rw [shifted_of_outside hbelow]
    constructor
    · intro heq
      exact absurd (heq ▸ List.prefix_rfl) (bare entry hentry)
    · intro heq
      exact absurd (heq ▸ List.prefix_rfl) hbelow

end

/-- A transfer changes nothing but what is at or below its source or its target. -/
theorem node?_transfer_of_apart (hsource : ¬ source <+: other) (htarget : ¬ target <+: other) :
    (disk.transfer source target).node? other = disk.node? other := by
  by_cases hroot : other = []
  · rw [hroot]
    rfl
  · refine node?_transfer hroot hroot fun entry _ => ?_
    by_cases hbelow : source <+: entry.1
    · obtain ⟨below, hentry⟩ := hbelow
      rw [← hentry, shifted_append]
      constructor
      · intro heq
        exact absurd ⟨below, heq⟩ htarget
      · intro heq
        exact absurd ⟨below, heq⟩ hsource
    · rw [shifted_of_outside hbelow]

/-- Nothing is left at or below the source of a transfer, unless it is at or below the target. -/
theorem node?_transfer_source (hroot : source ≠ []) (hsource : source <+: other) (htarget : ¬ target <+: other) :
    (disk.transfer source target).node? other = none := by
  have hother : other ≠ [] := fun heq => hroot (List.prefix_nil.mp (heq ▸ hsource))
  rw [node?_of_ne_nil hother, Option.map_eq_none_iff, List.find?_eq_none, transfer_nodes]
  intro moved hmoved heq
  obtain ⟨entry, -, rfl⟩ := List.mem_map.mp hmoved
  rw [beq_iff_eq] at heq
  by_cases hbelow : source <+: entry.1
  · obtain ⟨below, hentry⟩ := hbelow
    dsimp only at heq
    rw [← hentry, shifted_append] at heq
    exact htarget ⟨below, heq⟩
  · dsimp only at heq
    rw [shifted_of_outside hbelow] at heq
    exact hbelow (heq ▸ hsource)

end

/-- A directory lies where `hasDirectory` says. -/
theorem hasDirectory_iff : disk.hasDirectory location = true ↔ disk.node? location = some .directory := by
  unfold hasDirectory
  exact beq_iff_eq

end TypingsIndex.Disk
