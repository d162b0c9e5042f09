import Mathlib.Data.List.DropRight
import MakeTree.Proofs.PathNames
import MakeTree.Text.Blank

/-! Where a text is cut: in front of the first character outside a class, at the first occurrence of a
character, and between the text and the blanks around it. -/
namespace MakeTree.Text

theorem spanSplit {p : Char → Bool} {front behind : Text} (inside : ∀ c ∈ front, p c = true)
    (stops : ∀ c ∈ behind.head?, p c = false) :
    (front ++ behind).takeWhile p = front ∧ (front ++ behind).dropWhile p = behind := by
  rw [List.takeWhile_append_of_pos inside, List.dropWhile_append_of_pos inside]
  cases behind with
  | nil => simp
  | cons c rest => simp [stops c rfl]

theorem cutFound {c : Char} {t before after : Text} :
    cutAt c t = (before, some after) ↔ t = before ++ c :: after ∧ c ∉ before := by
  induction t generalizing before with
  | nil => simp [cutAt]
  | cons d rest ih =>
    unfold cutAt
    by_cases same : d = c
    · subst same
      rw [if_pos rfl]
      cases before with
      | nil => simp [eq_comm]
      | cons e before => simp +contextual [eq_comm]
    · rw [if_neg same]
      cases before with
      | nil => simp [same]
      | cons e before =>
        have onward := @ih before
        simp only [Prod.ext_iff] at onward
        simp only [Prod.mk.injEq, List.cons.injEq, List.cons_append, List.mem_cons, not_or]
        constructor
        · rintro ⟨⟨rfl, front⟩, behind⟩
          obtain ⟨rfl, clear⟩ := onward.mp ⟨front, behind⟩
          exact ⟨⟨rfl, rfl⟩, fun here => same here.symm, clear⟩
        · rintro ⟨⟨rfl, rfl⟩, _, clear⟩
          obtain ⟨front, behind⟩ := onward.mpr ⟨rfl, clear⟩
          exact ⟨⟨rfl, front⟩, behind⟩

theorem cutMissing {c : Char} {t : Text} : (cutAt c t).2 = none ↔ c ∉ t := by
  induction t with
  | nil => simp [cutAt]
  | cons d rest ih =>
    unfold cutAt
    by_cases same : d = c
    · simp [same]
    · simp [same, ih, Ne.symm same]

theorem cutUnique {c : Char} {before after front behind : Text}
    (same : before ++ c :: after = front ++ c :: behind) (first : c ∉ before) (other : c ∉ front) :
    before = front ∧ after = behind := by
  have left : cutAt c (before ++ c :: after) = (front, some behind) := cutFound.mpr ⟨same, other⟩
  have right : cutAt c (before ++ c :: after) = (before, some after) := cutFound.mpr ⟨rfl, first⟩
  simpa using right.symm.trans left

theorem endsForm {c : Char} {t : Text} : endsWithChar c t = true ↔ ∃ front, t = front ++ [c] := by
  rw [endsWithChar, beq_iff_eq, List.getLast?_eq_some_iff]

theorem trimRightSplit (t : Text) :
    ∃ gap, (∀ c ∈ gap, isBlank c = true) ∧ t = trimRight t ++ gap :=
  ⟨t.rtakeWhile isBlank, fun _ => List.mem_rtakeWhile_imp,
    (List.rdropWhile_append_rtakeWhile (p := isBlank) (l := t)).symm⟩

theorem trimRightEnds {c : Char} (solid : isBlank c = false) (t : Text) :
    endsWithChar c (trimRight t) = true ↔
      ∃ front gap, (∀ d ∈ gap, isBlank d = true) ∧ t = front ++ c :: gap := by
  rw [endsForm]
  constructor
  · rintro ⟨front, ends⟩
    obtain ⟨gap, blank, split⟩ := trimRightSplit t
    exact ⟨front, gap, blank, by rw [split, ends]; simp⟩
  · rintro ⟨front, gap, blank, rfl⟩
    refine ⟨front, ?_⟩
    rw [List.append_cons, trimRight, dropEndAppend _ blank, dropEndKeeps _ solid]

theorem trimTrimLeft (t : Text) : trim (trimLeft t) = trim t := by
  rw [trim, trimLeft, trimLeft, List.dropWhile_idempotent]
  rfl

theorem trimBehind (t : Text) {behind : Text} (blank : ∀ c ∈ behind, isBlank c = true) :
    trim (t ++ behind) = trim t := by
  unfold trim trimLeft
  rw [List.dropWhile_append]
  split
  · rename_i nothing
    rw [List.isEmpty_iff.mp nothing, List.dropWhile_eq_nil_iff.mpr blank]
  · rw [trimRight, dropEndAppend _ blank, ← trimRight]

end MakeTree.Text
