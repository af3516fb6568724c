import Mathlib.Data.List.Basic
import TypingsIndex.Proofs.Declaration.Cuts

/-!
# The first place for a cut

Each cut of a line looks for a character that ends a piece and stands outside all brackets. What counts as an end
and how brackets are counted differ from cut to cut; the place that is found is the first of all such places
(`FirstCutPlace`), and if there is any place at all there is a first one (`exists_firstCutPlace_iff`).
-/

set_option autoImplicit false

namespace TypingsIndex.Cursor

/-- A place of a text, between `front` and `back`: an end stands there, and the depth after `front` is zero. -/
structure CutPlace (depthAfter : List Char → Nat) (ends : Char → Prop) (text front back : List Char) : Prop where
  append : text = front ++ back
  stands : ∃ c more, back = c :: more ∧ ends c
  outside : depthAfter front = 0

/-- The first such place. -/
structure FirstCutPlace (depthAfter : List Char → Nat) (ends : Char → Prop) (text front back : List Char) : Prop
    extends CutPlace depthAfter ends text front back where
  first : ∀ other others, CutPlace depthAfter ends text other others → front.length ≤ other.length

section

variable {depthAfter : List Char → Nat} {ends : Char → Prop} {text front back : List Char}

/-- A place is the first one if no end stands outside all brackets in the text before it. -/
theorem firstCutPlace_iff :
    FirstCutPlace depthAfter ends text front back ↔
      CutPlace depthAfter ends text front back ∧
        ∀ before c behind, front = before ++ c :: behind → ends c → depthAfter before ≠ 0 := by
  constructor
  · rintro ⟨place, first⟩
    refine ⟨place, ?_⟩
    rintro before c behind rfl hends houtside
    have hplace : CutPlace depthAfter ends text before (c :: behind ++ back) :=
      ⟨place.append.trans (List.append_assoc ..), ⟨c, _, rfl, hends⟩, houtside⟩
    have hle := first _ _ hplace
    rw [List.length_append, List.length_cons] at hle
    omega
  · rintro ⟨place, hinside⟩
    refine ⟨place, fun other others hother => Nat.le_of_not_lt fun hlt => ?_⟩
    have hprefix : other <+: front :=
      List.prefix_of_prefix_length_le ⟨others, hother.append.symm⟩ ⟨back, place.append.symm⟩ (Nat.le_of_lt hlt)
    obtain ⟨between, rfl⟩ := hprefix
    obtain ⟨c, more, rfl, hends⟩ := hother.stands
    cases between with
    | nil => simp at hlt
    | cons d behind =>
      have heq := place.append.symm.trans hother.append
      rw [List.append_assoc] at heq
      obtain ⟨rfl, -⟩ := List.cons.inj (List.append_cancel_left heq)
      exact hinside other d behind rfl hends hother.outside

/-- There is a first place if there is any. -/
theorem exists_firstCutPlace_iff :
    (∃ front back, FirstCutPlace depthAfter ends text front back) ↔
      ∃ front back, CutPlace depthAfter ends text front back := by
  constructor
  · rintro ⟨front, back, first⟩
    exact ⟨front, back, first.toCutPlace⟩
  · rintro ⟨front, back, place⟩
    induction hlength : front.length using Nat.strongRecOn generalizing front back with
    | ind length ih =>
      by_cases hearlier : ∃ other others, CutPlace depthAfter ends text other others ∧ other.length < front.length
      · obtain ⟨other, others, hother, hlt⟩ := hearlier
        exact ih other.length (hlength ▸ hlt) other others hother rfl
      · exact ⟨front, back, place, fun other others hother =>
          Nat.le_of_not_lt fun hlt => hearlier ⟨other, others, hother, hlt⟩⟩

end

variable {stop : Char} {rest taken after : List Char}

/-- Everything before the first stop is taken. -/
theorem takeUntil_eq_ok_iff_firstCutPlace :
    takeUntil stop rest = .ok (taken, after) ↔ FirstCutPlace (fun _ => 0) (· = stop) rest taken after := by
  rw [takeUntil_eq_ok_iff, firstCutPlace_iff]
  constructor
  · rintro ⟨rfl, hfree, hhead⟩
    obtain ⟨more, rfl⟩ := List.head?_eq_some_iff.mp hhead
    refine ⟨⟨rfl, ⟨stop, more, rfl, rfl⟩, rfl⟩, ?_⟩
    rintro before c behind rfl rfl -
    simp at hfree
  · rintro ⟨⟨rfl, ⟨c, more, rfl, rfl⟩, -⟩, hfree⟩
    refine ⟨rfl, fun hmem => ?_, rfl⟩
    obtain ⟨before, behind, rfl⟩ := List.append_of_mem hmem
    exact hfree before c behind rfl rfl rfl

/-- Everything before the first stop outside all groups is taken, and the stop with it. -/
theorem takeTerminated_eq_ok_iff_firstCutPlace (plain : opensGroup stop = false ∧ closesGroup stop = false) :
    takeTerminated stop rest = .ok (taken, after) ↔
      FirstCutPlace (groupDepth 0) (· = stop) rest taken (stop :: after) := by
  rw [takeTerminated_eq_ok_iff plain, firstCutPlace_iff]
  constructor
  · rintro ⟨rfl, hdepth, hhide⟩
    refine ⟨⟨rfl, ⟨stop, after, rfl, rfl⟩, hdepth⟩, ?_⟩
    rintro before c behind rfl rfl
    exact hhide before behind rfl
  · rintro ⟨⟨rfl, -, hdepth⟩, hhide⟩
    refine ⟨rfl, hdepth, ?_⟩
    rintro before behind rfl
    exact hhide before stop behind rfl rfl

/-- Everything before the first end of a type outside all brackets is taken. -/
theorem takeTypeSpan_eq_ok_iff_firstCutPlace :
    takeTypeSpan rest = .ok (taken, after) ↔
      FirstCutPlace (typeDepth 0) (endsType · = true) rest taken after := by
  rw [takeTypeSpan_eq_ok_iff, firstCutPlace_iff]
  constructor
  · rintro ⟨happend, hends, hdepth, hhide⟩
    exact ⟨⟨happend, hends, hdepth⟩, hhide⟩
  · rintro ⟨⟨happend, hends, hdepth⟩, hhide⟩
    exact ⟨happend, hends, hdepth, hhide⟩

end TypingsIndex.Cursor
