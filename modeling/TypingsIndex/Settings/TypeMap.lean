/-!
# The type map

Which type stands in generated code for a declared one. The entries are kept in strictly rising order
of the declared types, so that a map has one form only and is written in one order.
-/

set_option autoImplicit false

namespace TypingsIndex

/-- Declared types with the types generated for them. -/
structure TypeMap where
  /-- Pairs of a declared and a generated type. -/
  entries : List (String × String)
  /-- The declared types rise strictly. -/
  rising : entries.Pairwise fun a b => a.1 < b.1
  deriving DecidableEq, Repr

namespace TypeMap

/-- Put a pair in its place, or in the place of the one with the same declared type. -/
def place (declared generated : String) : List (String × String) → List (String × String)
  | [] => [(declared, generated)]
  | (other, value) :: rest =>
    if declared < other then (declared, generated) :: (other, value) :: rest
    else if declared = other then (declared, generated) :: rest
    else (other, value) :: place declared generated rest

/-- Placing a pair in a table brings in no other pair. -/
theorem mem_place {declared generated : String} {entries : List (String × String)}
    {entry : String × String} (h : entry ∈ place declared generated entries) :
    entry = (declared, generated) ∨ entry ∈ entries := by
  induction entries with
  | nil => simpa [place] using h
  | cons first rest ih =>
    obtain ⟨other, value⟩ := first
    unfold place at h
    split at h
    · simpa using h
    · split at h
      · rcases List.mem_cons.1 h with h | h
        · exact .inl h
        · exact .inr (List.mem_cons_of_mem _ h)
      · rcases List.mem_cons.1 h with h | h
        · exact .inr (by simp [h])
        · exact (ih h).imp_right (List.mem_cons_of_mem _)

/-- Placing a pair keeps a table sorted by the declared types. -/
theorem rising_place {declared generated : String} {entries : List (String × String)}
    (h : entries.Pairwise fun a b => a.1 < b.1) :
    (place declared generated entries).Pairwise fun a b => a.1 < b.1 := by
  induction entries with
  | nil => simp [place]
  | cons first rest ih =>
    obtain ⟨other, value⟩ := first
    obtain ⟨hfirst, hrest⟩ := List.pairwise_cons.1 h
    unfold place
    split
    · next hlt =>
      refine List.pairwise_cons.2 ⟨fun entry hmem => ?_, h⟩
      rcases List.mem_cons.1 hmem with rfl | hmem
      · exact hlt
      · exact String.lt_trans hlt (hfirst _ hmem)
    · next hnlt =>
      split
      · next heq =>
        subst heq
        exact List.pairwise_cons.2 ⟨fun entry hmem => hfirst entry hmem, hrest⟩
      · next hne =>
        have hlt : other < declared := by
          rcases String.le_total declared other with hle | hle
          · exact absurd (String.le_antisymm hle (String.not_lt.1 hnlt)) hne
          · exact String.not_le.1 fun hle' => hne (String.le_antisymm hle' hle)
        refine List.pairwise_cons.2 ⟨fun entry hmem => ?_, ih hrest⟩
        rcases mem_place hmem with rfl | hmem
        · exact hlt
        · exact hfirst _ hmem

/-- The map without entries. -/
def empty : TypeMap :=
  ⟨[], .nil⟩

/-- The table without pairs is written with empty braces. -/
instance : EmptyCollection TypeMap :=
  ⟨empty⟩

/-- Let one type be generated for a declared one. -/
def insert (map : TypeMap) (declared generated : String) : TypeMap :=
  ⟨place declared generated map.entries, rising_place map.rising⟩

/-- The map of pairs put in one after the other, so that the last one for a declared type counts. -/
def ofList (pairs : List (String × String)) : TypeMap :=
  pairs.foldl (fun map pair => map.insert pair.1 pair.2) empty

/-- The type generated for a declared one: itself, unless the map says otherwise. -/
def generated (map : TypeMap) (declared : String) : String :=
  (map.entries.lookup declared).getD declared

end TypeMap

end TypingsIndex
