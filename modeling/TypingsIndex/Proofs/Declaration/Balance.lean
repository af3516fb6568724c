import Mathlib.Data.List.Infix
import TypingsIndex.Proofs.Declaration.Cuts

/-!
# Balanced brackets

Brackets counted with no floor: each that opens moves the count one up, each that closes one down. In a balanced text
the count never falls below zero and ends there. The depth that a cut keeps is then the count, so a balanced text is
taken whole if a stop stands in brackets only.
-/

set_option autoImplicit false

namespace TypingsIndex.Cursor

variable {count : List Char → Int} {stop : Char} {depth : Nat} {text : List Char}

/-- How a character moves the count, where `opens` and `closes` tell which characters are brackets. -/
def weight (opens closes : Char → Bool) (c : Char) : Int :=
  if opens c then 1 else if closes c then -1 else 0

/-- The groups that a text opens less those that it closes. -/
def groupCount : List Char → Int
  | [] => 0
  | c :: text => weight opensGroup closesGroup c + groupCount text

/-- The brackets that a type opens less those that it closes, arrows being passed over. -/
def typeCount : List Char → Int
  | [] => 0
  | '=' :: '>' :: text => typeCount text
  | c :: text => weight opensType closesType c + typeCount text

/-- Nothing is closed before it is opened, everything is closed in the end, and a stop stands in brackets only. -/
structure Balanced (count : List Char → Int) (stop : Char) (text : List Char) : Prop where
  never_negative : ∀ front, front <+: text → 0 ≤ count front
  closed : count text = 0
  hides : ∀ front back, text = front ++ stop :: back → 1 ≤ count front

/-- Whether a text is balanced is decided by counting up to the end. -/
instance : Decidable (Balanced count stop text) :=
  decidable_of_iff
    ((∀ front ∈ text.inits, 0 ≤ count front) ∧ count text = 0
      ∧ ∀ front ∈ text.inits, front ++ [stop] <+: text → 1 ≤ count front) <| by
    simp only [List.mem_inits]
    constructor
    · rintro ⟨hnever, hclosed, hhides⟩
      refine ⟨hnever, hclosed, fun front back heq => hhides front ⟨stop :: back, heq.symm⟩ ⟨back, ?_⟩⟩
      rw [heq, List.append_assoc, List.singleton_append]
    · rintro ⟨hnever, hclosed, hhides⟩
      refine ⟨hnever, hclosed, fun front _ hstop => ?_⟩
      obtain ⟨back, heq⟩ := hstop
      exact hhides front back (by rw [← heq, List.append_assoc, List.singleton_append])

/-- Balanced texts one after the other are balanced, if the count adds up. -/
theorem Balanced.append {more : List Char} (first : Balanced count stop text) (second : Balanced count stop more)
    (additive : ∀ front, front <+: more → count (text ++ front) = count text + count front) :
    Balanced count stop (text ++ more) where
  never_negative front hfront := by
    obtain ⟨back, heq⟩ := hfront
    rcases List.append_eq_append_iff.mp heq with ⟨rest, htext, -⟩ | ⟨rest, hfront, hmore⟩
    · exact first.never_negative front ⟨rest, htext.symm⟩
    · have hrest : rest <+: more := ⟨back, hmore.symm⟩
      have hnever := second.never_negative rest hrest
      rw [hfront, additive rest hrest, first.closed]
      omega
  closed := by
    rw [additive more List.prefix_rfl, first.closed, second.closed]
    rfl
  hides front back heq := by
    rcases List.append_eq_append_iff.mp heq with ⟨rest, hfront, hmore⟩ | ⟨rest, htext, hstop⟩
    · have hrest := second.hides rest back hmore
      rw [hfront, additive rest ⟨_, hmore.symm⟩, first.closed]
      omega
    · cases rest with
      | nil =>
        -- the stop would come first in the second text, where nothing is open
        rw [List.append_nil] at htext
        have hempty := second.hides [] back hstop.symm
        have hnone := additive [] List.nil_prefix
        rw [List.append_nil] at hnone
        omega
      | cons c rest =>
        obtain ⟨rfl, -⟩ := List.cons.inj hstop
        exact first.hides front rest htext

/-- While nothing is closed before it is opened, the depth moves as the count does. -/
theorem depthStep_eq {opens closes : Char → Bool} {c : Char} (h : 0 ≤ depth + weight opens closes c) :
    (depthStep opens closes depth c : Int) = depth + weight opens closes c := by
  unfold weight at h ⊢
  unfold depthStep
  split
  · simp
  · next hopens =>
    rw [if_neg hopens] at h
    split
    · next hcloses =>
      rw [if_pos hcloses] at h
      omega
    · simp

/-! ## Groups -/

/-- Groups are counted one text after the other. -/
theorem groupCount_append (first second : List Char) :
    groupCount (first ++ second) = groupCount first + groupCount second := by
  induction first with
  | nil => exact (Int.zero_add _).symm
  | cons c first ih => rw [List.cons_append, groupCount, groupCount, ih, Int.add_assoc]

/-- Where nothing is closed before it is opened, the depth of groups is their count. -/
theorem groupDepth_eq (h : ∀ front, front <+: text → 0 ≤ depth + groupCount front) :
    (groupDepth depth text : Int) = depth + groupCount text := by
  induction text generalizing depth with
  | nil => exact (Int.add_zero _).symm
  | cons c text ih =>
    have hfirst := h [c] (List.prefix_cons_iff.mpr (.inr ⟨[], rfl, List.nil_prefix⟩))
    rw [groupCount] at hfirst
    have hstep : (groupStep depth c : Int) = depth + weight opensGroup closesGroup c :=
      depthStep_eq (by simpa [groupCount] using hfirst)
    rw [groupCount, ← Int.add_assoc, ← hstep]
    refine ih fun front hfront => ?_
    have hlonger := h (c :: front) ((List.prefix_cons_inj c).mpr hfront)
    rw [groupCount] at hlonger
    rw [hstep]
    omega

/-- At every place of a balanced text the depth of groups is their count. -/
theorem Balanced.groupDepth_eq {front : List Char} (h : Balanced groupCount stop text) (hfront : front <+: text) :
    (groupDepth 0 front : Int) = groupCount front := by
  have hsum : (groupDepth 0 front : Int) = (0 : Nat) + groupCount front :=
    Cursor.groupDepth_eq fun part hpart => by
      have hpart := h.never_negative part (hpart.trans hfront)
      omega
  omega

/-- Outside all groups of a balanced text there is no stop, and its end is outside all groups. -/
theorem Balanced.groups (h : Balanced groupCount stop text) :
    groupDepth 0 text = 0 ∧ GroupsHide stop 0 text := by
  constructor
  · have hend := h.groupDepth_eq List.prefix_rfl
    rw [h.closed] at hend
    omega
  · intro front back heq hzero
    have hstop := h.hides front back heq
    have hfront := h.groupDepth_eq ⟨_, heq.symm⟩
    omega

/-! ## Types -/

/-- The first character counts unless an arrow begins with it. -/
theorem typeCount_cons {c : Char} (plain : ¬ IsArrow c text) :
    typeCount (c :: text) = weight opensType closesType c + typeCount text := by
  rw [typeCount]
  rintro rest rfl rfl
  exact plain ⟨rfl, rfl⟩

/-- Brackets of types are counted one text after the other, unless an arrow would be cut. -/
theorem typeCount_append {first second : List Char} (whole : second.head? ≠ some '>') :
    typeCount (first ++ second) = typeCount first + typeCount second := by
  fun_induction typeCount first with
  | case1 => exact (Int.zero_add _).symm
  | case2 text ih => exact ih
  | case3 c text plain ih =>
    have hplain : ¬ IsArrow c (text ++ second) := by
      rintro ⟨rfl, hhead⟩
      cases text with
      | nil => exact whole hhead
      | cons d text => exact plain text rfl (congrArg (· :: text) (Option.some.inj hhead))
    rw [List.cons_append, typeCount_cons hplain, ih, Int.add_assoc]

/-- Where nothing is closed before it is opened, the depth of brackets is their count. -/
theorem typeDepth_eq (h : ∀ front, front <+: text → 0 ≤ depth + typeCount front) :
    (typeDepth depth text : Int) = depth + typeCount text := by
  fun_induction typeDepth depth text with
  | case1 depth => exact (Int.add_zero _).symm
  | case2 depth text ih =>
    exact ih fun front hfront => h ('=' :: '>' :: front) (by simpa using hfront)
  | case3 depth c text plain ih =>
    have hplain : ∀ front, front <+: text → ¬ IsArrow c front := by
      rintro front ⟨back, rfl⟩ harrow
      obtain ⟨rfl, hhead⟩ := harrow.append back
      obtain ⟨rest, hrest⟩ := List.head?_eq_some_iff.mp hhead
      exact plain rest rfl hrest
    have hfirst := h [c] (List.prefix_cons_iff.mpr (.inr ⟨[], rfl, List.nil_prefix⟩))
    rw [typeCount_cons (hplain [] List.nil_prefix)] at hfirst
    have hstep : (typeStep depth c : Int) = depth + weight opensType closesType c :=
      depthStep_eq (by simpa [typeCount] using hfirst)
    rw [typeCount_cons (hplain text List.prefix_rfl), ← Int.add_assoc, ← hstep]
    refine ih fun front hfront => ?_
    have hlonger := h (c :: front) ((List.prefix_cons_inj c).mpr hfront)
    rw [typeCount_cons (hplain front hfront)] at hlonger
    rw [hstep]
    omega

/-- At every place of a balanced type the depth of brackets is their count. -/
theorem Balanced.typeDepth_eq {front : List Char} (h : Balanced typeCount stop text) (hfront : front <+: text) :
    (typeDepth 0 front : Int) = typeCount front := by
  have hsum : (typeDepth 0 front : Int) = (0 : Nat) + typeCount front :=
    Cursor.typeDepth_eq fun part hpart => by
      have hpart := h.never_negative part (hpart.trans hfront)
      omega
  omega

/-- Outside all brackets of a balanced type there is nothing that ends a type, and its end is outside all
brackets. -/
theorem Balanced.brackets (h : Balanced typeCount ',' text) :
    typeDepth 0 text = 0 ∧ BracketsHide 0 text := by
  constructor
  · have hend := h.typeDepth_eq List.prefix_rfl
    rw [h.closed] at hend
    omega
  · intro front c back heq hends hzero
    have hfront := h.typeDepth_eq ⟨_, heq.symm⟩
    unfold endsType at hends
    rw [Bool.or_eq_true, beq_iff_eq, beq_iff_eq] at hends
    rcases hends with rfl | rfl
    · have hstop := h.hides front back heq
      omega
    · -- a parenthesis that closes needs one that is open
      have hclose := h.never_negative (front ++ [')']) ⟨back, by rw [heq]; simp⟩
      have hweight : typeCount [')'] = -1 := rfl
      rw [typeCount_append (by decide), hweight] at hclose
      omega

end TypingsIndex.Cursor
