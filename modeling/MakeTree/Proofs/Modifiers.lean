import MakeTree.Proofs.TextCuts
import MakeTree.Proofs.TidyTexts

/-! The modifiers in front of an equals sign, taken off one by one: a question mark, a run of colons and
a plus sign, each with the blanks before it. What is left is the name. -/
namespace MakeTree
open Text

def TakesOff (mark : Char) (cut : Text → Text) : Prop :=
  ∀ name, endsWithChar mark name = true →
    ∃ tail, tail ≠ [] ∧ (∀ c ∈ tail, c = mark) ∧ name = cut name ++ tail

theorem lastTakesOff (mark : Char) : TakesOff mark List.dropLast := by
  intro name ends
  obtain ⟨front, rfl⟩ := endsForm.mp ends
  exact ⟨[mark], by simp, by simp, by simp⟩

theorem runTakesOff (mark : Char) : TakesOff mark (dropWhileEnd (· == mark)) := by
  intro name ends
  obtain ⟨front, rfl⟩ := endsForm.mp ends
  refine ⟨(front ++ [mark]).rtakeWhile (· == mark), by simp, ?_, ?_⟩
  · intro c inside
    simpa using List.mem_rtakeWhile_imp inside
  · exact (List.rdropWhile_append_rtakeWhile ..).symm

inductive Peels (mark : Char) : Text → Text → Prop where
  | none {name} (other : endsWithChar mark name = false) : Peels mark name name
  | marked {name front gap tail} (same : name = front ++ (gap ++ tail))
      (blank : ∀ c ∈ gap, isBlank c = true) (some : tail ≠ []) (marks : ∀ c ∈ tail, c = mark) :
      Peels mark name front

theorem peeledPeels {mark : Char} {cut : Text → Text} (takes : TakesOff mark cut) (name : Text) :
    Peels mark name (peeled mark cut name) := by
  unfold peeled
  split
  · rename_i ends
    obtain ⟨tail, some, marks, same⟩ := takes name ends
    obtain ⟨gap, blank, split⟩ := trimRightSplit (cut name)
    exact .marked (by rw [← List.append_assoc, ← split, ← same]) blank some marks
  · rename_i other
    exact .none (by simpa using other)

theorem peelsLength {mark : Char} {name front : Text} (peels : Peels mark name front) :
    front.length ≤ name.length ∧ (endsWithChar mark name = true → front.length < name.length) := by
  cases peels with
  | none other => exact ⟨Nat.le_refl _, fun ends => by rw [other] at ends; cases ends⟩
  | marked same blank some marks =>
    have positive := List.length_pos_iff.mpr some
    rw [same]
    simp only [List.length_append]
    omega

theorem peeledWhole {mark : Char} {cut : Text → Text} {name : Text}
    (other : endsWithChar mark name = false) : peeled mark cut name = name :=
  if_neg (by simp [other])

namespace LeftSide

def unasked (raw : Text) : Text := peeled '?' List.dropLast (trim raw)

def uncoloned (raw : Text) : Text := peeled ':' (dropWhileEnd (· == ':')) (unasked raw)

theorem stages (raw : Text) : ofText raw =
    { name := peeled '+' List.dropLast (uncoloned raw)
      conditional := if endsWithChar '?' (trim raw) then some (unasked raw) else none
      simple := if endsWithChar ':' (unasked raw) then some (uncoloned raw) else none
      append := endsWithChar '+' (uncoloned raw) } := by
  unfold ofText uncoloned unasked peeled
  by_cases asked : endsWithChar '?' (trim raw) = true
  · simp only [if_pos asked]
    by_cases coloned : endsWithChar ':' (trimRight (List.dropLast (trim raw))) = true
    · simp only [if_pos coloned]
      split <;> simp_all
    · simp only [if_neg coloned]
      split <;> simp_all
  · simp only [if_neg asked]
    by_cases coloned : endsWithChar ':' (trim raw) = true
    · simp only [if_pos coloned]
      split <;> simp_all
    · simp only [if_neg coloned]
      split <;> simp_all

def Exact (left : LeftSide) : Prop :=
  (∀ noted ∈ left.conditional, noted = left.name) ∧ ∀ noted ∈ left.simple, noted = left.name

theorem nameUncoloned (raw : Text) :
    uncoloned raw = (ofText raw).name ↔ endsWithChar '+' (uncoloned raw) = false := by
  rw [stages]
  constructor
  · intro same
    have shorter := (peelsLength (peeledPeels (lastTakesOff '+') (uncoloned raw))).2
    rw [Bool.eq_false_iff]
    intro ends
    exact absurd (congrArg List.length same) (Nat.ne_of_gt (shorter ends))
  · intro other
    exact (peeledWhole other).symm

theorem nameUnasked (raw : Text) : unasked raw = (ofText raw).name ↔
    endsWithChar ':' (unasked raw) = false ∧ endsWithChar '+' (unasked raw) = false := by
  have colons := peelsLength (peeledPeels (runTakesOff ':') (unasked raw))
  have plus := peelsLength (peeledPeels (lastTakesOff '+') (uncoloned raw))
  constructor
  · intro same
    have length := congrArg List.length same
    rw [stages] at length
    have noColon : endsWithChar ':' (unasked raw) = false := by
      rw [Bool.eq_false_iff]
      intro ends
      have shorter : (uncoloned raw).length < (unasked raw).length := colons.2 ends
      exact absurd length (Nat.ne_of_gt (Nat.lt_of_le_of_lt plus.1 shorter))
    have whole : uncoloned raw = unasked raw := peeledWhole noColon
    exact ⟨noColon, whole ▸ (nameUncoloned raw).mp (whole.trans same)⟩
  · rintro ⟨noColon, noPlus⟩
    have whole : uncoloned raw = unasked raw := peeledWhole noColon
    exact whole ▸ (nameUncoloned raw).mpr (whole.symm ▸ noPlus)

end LeftSide

/-- A modifier stands behind another one, but for blanks: a question mark behind a colon or a plus sign,
or colons behind a plus sign. -/
def Piled (raw : Text) : Prop :=
  ∃ front first gap last, trim raw = front ++ first :: (gap ++ last) ∧
    (∀ c ∈ gap, isBlank c = true) ∧
    (last = ['?'] ∧ (first = ':' ∨ first = '+') ∨ first = '+' ∧ last ≠ [] ∧ ∀ c ∈ last, c = ':')

open LeftSide

theorem askedForm (raw : Text) (c : Char) (solid : isBlank c = false) :
    endsWithChar '?' (trim raw) = true ∧ endsWithChar c (unasked raw) = true ↔
      ∃ front gap, trim raw = front ++ c :: (gap ++ ['?']) ∧ ∀ d ∈ gap, isBlank d = true := by
  constructor
  · rintro ⟨asked, ends⟩
    obtain ⟨behind, split⟩ := endsForm.mp asked
    rw [unasked, peeled, if_pos asked, split, List.dropLast_concat, trimRightEnds solid] at ends
    obtain ⟨front, gap, blank, rfl⟩ := ends
    exact ⟨front, gap, by simp [split], blank⟩
  · rintro ⟨front, gap, split, blank⟩
    have whole : trim raw = (front ++ c :: gap) ++ ['?'] := by simp [split]
    have asked : endsWithChar '?' (trim raw) = true := endsForm.mpr ⟨_, whole⟩
    refine ⟨asked, ?_⟩
    rw [unasked, peeled, if_pos asked, whole, List.dropLast_concat, trimRightEnds solid]
    exact ⟨front, gap, blank, rfl⟩

theorem runCut {front gap colons : Text} (other : endsWithChar ':' front = false)
    (blank : ∀ c ∈ gap, isBlank c = true) (known : ∀ c ∈ colons, c = ':') :
    dropWhileEnd (· == ':') (front ++ gap ++ colons) = front ++ gap := by
  have plain : endsWithChar ':' (front ++ gap) = false := by
    rcases List.eq_nil_or_concat gap with rfl | ⟨more, d, rfl⟩
    · rw [List.append_nil, other]
    · have solid : d ≠ ':' := by
        rintro rfl
        exact absurd (blank ':' (by simp)) (by decide)
      simpa [endsWithChar] using solid
  rw [dropEndAppend _ (by simpa using known)]
  refine List.rdropWhile_eq_self_iff.mpr fun some last => ?_
  have ends : endsWithChar ':' (front ++ gap) = true := by
    rw [endsWithChar, List.getLast?_eq_some_getLast some]
    simpa using last
  rw [plain] at ends
  cases ends

theorem colonedForm (raw : Text) :
    endsWithChar '?' (trim raw) = false ∧ endsWithChar ':' (unasked raw) = true ∧
        endsWithChar '+' (uncoloned raw) = true ↔
      ∃ front gap last, trim raw = front ++ '+' :: (gap ++ last) ∧ (∀ d ∈ gap, isBlank d = true) ∧
        last ≠ [] ∧ ∀ c ∈ last, c = ':' := by
  constructor
  · rintro ⟨plain, coloned, ends⟩
    have whole : unasked raw = trim raw := peeledWhole plain
    obtain ⟨last, some, colons, split⟩ := runTakesOff ':' _ coloned
    rw [uncoloned, peeled, if_pos coloned, trimRightEnds (by decide)] at ends
    obtain ⟨front, gap, blank, cut⟩ := ends
    exact ⟨front, gap, last, by rw [← whole, split, cut]; simp, blank, some, colons⟩
  · rintro ⟨front, gap, last, split, blank, some, colons⟩
    obtain ⟨before, c, rfl⟩ := (List.eq_nil_or_concat last).resolve_left some
    obtain rfl : c = ':' := colons c (by simp)
    have parts : trim raw = (front ++ '+' :: gap ++ before) ++ [':'] := by simp [split]
    have ends : endsWithChar ':' (trim raw) = true := endsForm.mpr ⟨_, parts⟩
    have plain : endsWithChar '?' (trim raw) = false := by
      rw [parts, endsWithChar, List.getLast?_concat]
      decide
    have whole : unasked raw = trim raw := peeledWhole plain
    have other : endsWithChar ':' (front ++ ['+']) = false := by
      rw [endsWithChar, List.getLast?_concat]
      decide
    have cut : dropWhileEnd (· == ':') (trim raw) = front ++ '+' :: gap := by
      have run := runCut other blank colons
      simpa [split] using run
    refine ⟨plain, by rw [whole, ends], ?_⟩
    rw [uncoloned, whole, peeled, if_pos ends, cut, trimRightEnds (by decide)]
    exact ⟨front, gap, blank, rfl⟩

theorem piledForm (raw : Text) : Piled raw ↔
    endsWithChar '?' (trim raw) = true ∧ endsWithChar ':' (unasked raw) = true ∨
    endsWithChar '?' (trim raw) = true ∧ endsWithChar '+' (unasked raw) = true ∨
    endsWithChar '?' (trim raw) = false ∧ endsWithChar ':' (unasked raw) = true ∧
      endsWithChar '+' (uncoloned raw) = true := by
  rw [askedForm raw ':' (by decide), askedForm raw '+' (by decide), colonedForm]
  constructor
  · rintro ⟨front, first, gap, last, split, blank, (⟨rfl, rfl | rfl⟩ | ⟨rfl, some, colons⟩)⟩
    · exact .inl ⟨front, gap, split, blank⟩
    · exact .inr (.inl ⟨front, gap, split, blank⟩)
    · exact .inr (.inr ⟨front, gap, last, split, blank, some, colons⟩)
  · rintro (⟨front, gap, split, blank⟩ | ⟨front, gap, split, blank⟩ |
      ⟨front, gap, last, split, blank, some, colons⟩)
    · exact ⟨front, ':', gap, ['?'], split, blank, .inl ⟨rfl, .inl rfl⟩⟩
    · exact ⟨front, '+', gap, ['?'], split, blank, .inl ⟨rfl, .inr rfl⟩⟩
    · exact ⟨front, '+', gap, last, split, blank, .inr ⟨rfl, some, colons⟩⟩

theorem exactPiled (raw : Text) : (ofText raw).Exact ↔ ¬Piled raw := by
  have asked : (∀ noted ∈ (ofText raw).conditional, noted = (ofText raw).name) ↔
      (endsWithChar '?' (trim raw) = true → unasked raw = (ofText raw).name) := by
    simp [stages]
  have coloned : (∀ noted ∈ (ofText raw).simple, noted = (ofText raw).name) ↔
      (endsWithChar ':' (unasked raw) = true → uncoloned raw = (ofText raw).name) := by
    simp [stages]
  rw [Exact, asked, coloned, nameUnasked, nameUncoloned, piledForm]
  -- Which marks stand at the end of which stage is all that matters now.
  generalize endsWithChar '?' (trim raw) = question, endsWithChar ':' (unasked raw) = colon,
    endsWithChar '+' (unasked raw) = plus, endsWithChar '+' (uncoloned raw) = last
  revert question colon plus last
  decide

theorem peeledLast (mark : Char) (name : Text) :
    ∃ gap tail, name = peeled mark List.dropLast name ++ (gap ++ tail) ∧
      (∀ c ∈ gap, isBlank c = true) ∧ tail ∈ [[], [mark]] := by
  unfold peeled
  split
  · rename_i ends
    obtain ⟨front, rfl⟩ := endsForm.mp ends
    obtain ⟨gap, blank, split⟩ := trimRightSplit front
    refine ⟨gap, [mark], ?_, blank, by simp⟩
    rw [List.dropLast_concat, ← List.append_assoc, ← split]
  · exact ⟨[], [], by simp, by simp, by simp⟩

/-- Nothing but modifiers: at most a plus sign, then colons, then at most a question mark, with blanks
between them. -/
def Unnamed (raw : Text) : Prop :=
  ∃ plus gap colons space asked, trim raw = plus ++ (gap ++ (colons ++ (space ++ asked))) ∧
    plus ∈ [[], ['+']] ∧ (∀ c ∈ gap, isBlank c = true) ∧ (∀ c ∈ colons, c = ':') ∧
    (∀ c ∈ space, isBlank c = true) ∧ asked ∈ [[], ['?']]

theorem unaskedRest {raw front asked : Text} (split : trim raw = front ++ asked)
    (plain : '?' ∉ front) (known : asked ∈ [[], ['?']]) : unasked raw = trimRight front := by
  simp only [List.mem_cons, List.not_mem_nil, or_false] at known
  rcases known with rfl | rfl
  · rw [List.append_nil] at split
    have other : endsWithChar '?' (trim raw) = false := by
      rw [Bool.eq_false_iff]
      intro ends
      obtain ⟨before, same⟩ := endsForm.mp ends
      exact plain (by rw [← split, same]; simp)
    rw [unasked, peeledWhole other, ← split]
    exact (List.rdropWhile_idempotent isBlank (trimLeft raw)).symm
  · rw [unasked, peeled, if_pos (endsForm.mpr ⟨_, split⟩), split, List.dropLast_concat]

theorem uncolonedRest {raw front gap colons : Text}
    (split : unasked raw = trimRight (front ++ (gap ++ colons)))
    (other : endsWithChar ':' front = false) (blank : ∀ c ∈ gap, isBlank c = true)
    (known : ∀ c ∈ colons, c = ':') (solid : trimRight front = front) : uncoloned raw = front := by
  have trimmed : trimRight (front ++ gap) = front := by
    rw [trimRight, dropEndAppend _ blank, ← trimRight, solid]
  rcases List.eq_nil_or_concat colons with rfl | ⟨before, c, rfl⟩
  · rw [List.append_nil, trimmed] at split
    rw [uncoloned, split, peeledWhole other]
  · obtain rfl : c = ':' := known c (by simp)
    have kept : unasked raw = (front ++ gap) ++ (before ++ [':']) := by
      have whole := dropEndKeeps (p := isBlank) (front ++ gap ++ before) (c := ':') (by decide)
      have parts : front ++ (gap ++ (before ++ [':'])) = front ++ gap ++ before ++ [':'] := by simp
      rw [split, List.concat_eq_append, parts, trimRight, whole]
      simp
    have ends : endsWithChar ':' (unasked raw) = true :=
      endsForm.mpr ⟨front ++ gap ++ before, by simp [kept]⟩
    rw [uncoloned, peeled, if_pos ends, kept, runCut other blank (by simpa using known), trimmed]

theorem missingUnnamed {raw : Text} (none : (ofText raw).name = []) : Unnamed raw := by
  rw [stages] at none
  obtain ⟨lead, plus, first, leading, known⟩ := peeledLast '+' (uncoloned raw)
  obtain ⟨gap, colons, second, blank, marks⟩ : ∃ gap colons,
      unasked raw = uncoloned raw ++ (gap ++ colons) ∧ (∀ c ∈ gap, isBlank c = true) ∧
      ∀ c ∈ colons, c = ':' := by
    have peels := peeledPeels (runTakesOff ':') (unasked raw)
    rw [← uncoloned] at peels
    generalize uncoloned raw = cut at peels ⊢
    cases peels with
    | none other => exact ⟨[], [], by simp, by simp, by simp⟩
    | marked same blank some marks => exact ⟨_, _, same, blank, marks⟩
  obtain ⟨space, asked, third, spaced, last⟩ := peeledLast '?' (trim raw)
  dsimp only at none
  rw [none, List.nil_append] at first
  have split : trim raw = lead ++ (plus ++ (gap ++ (colons ++ (space ++ asked)))) := by
    rw [third, ← unasked, second, first]
    simp
  -- A left side has no blanks in front.
  have bare : lead = [] := by
    cases lead with
    | nil => rfl
    | cons c more =>
      have solid := trimLeftHead ((trimLeftTrim raw).trans split)
      rw [leading c (List.mem_cons_self ..)] at solid
      cases solid
  subst bare
  exact ⟨plus, gap, colons, space, asked, split, known, blank, marks, spaced, last⟩

theorem unnamedMissing {raw : Text} (unnamed : Unnamed raw) : (ofText raw).name = [] := by
  obtain ⟨plus, gap, colons, space, asked, split, known, blank, marks, spaced, last⟩ := unnamed
  have sign : '?' ∉ plus ∧ endsWithChar ':' plus = false ∧ trimRight plus = plus ∧
      peeled '+' List.dropLast plus = [] := by
    simp only [List.mem_cons, List.not_mem_nil, or_false] at known
    rcases known with rfl | rfl <;> exact ⟨by simp, rfl, rfl, rfl⟩
  have front : unasked raw = trimRight (plus ++ (gap ++ colons)) := by
    have cut : trim raw = (plus ++ (gap ++ colons) ++ space) ++ asked := by simp [split]
    rw [unaskedRest cut ?_ last, trimRight, dropEndAppend _ spaced, ← trimRight]
    simp only [List.mem_append, not_or]
    refine ⟨⟨sign.1, fun inside => ?_, fun inside => ?_⟩, fun inside => ?_⟩
    · exact absurd (blank _ inside) (by decide)
    · exact absurd (marks _ inside) (by decide)
    · exact absurd (spaced _ inside) (by decide)
  have rest : uncoloned raw = plus := uncolonedRest front sign.2.1 blank marks sign.2.2.1
  rw [stages, rest]
  exact sign.2.2.2

theorem nameMissing (raw : Text) : (ofText raw).name = [] ↔ Unnamed raw :=
  ⟨missingUnnamed, unnamedMissing⟩

end MakeTree
