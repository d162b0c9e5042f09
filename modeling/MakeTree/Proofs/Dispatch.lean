import Mathlib.Data.List.DropRight
import MakeTree.Line.Kind

/-! Include directives among the kinds of lines. Whether a line waits for a file is decided before
the line is read as a statement, by a test of its own; here the test and the rules for statements
are shown to agree. -/
namespace MakeTree
open Text

namespace Text

def rangeCodes (ranges : List (Nat × Nat)) : List Nat :=
  ranges.flatMap fun (low, high) => List.range' low (high + 1 - low)

theorem inRangeCodes {ranges : List (Nat × Nat)} {n : Nat} (inside : inRanges ranges n = true) :
    n ∈ rangeCodes ranges := by
  induction ranges with
  | nil => cases inside
  | cons range rest ih =>
    obtain ⟨low, high⟩ := range
    simp only [inRanges] at inside
    split at inside
    · cases inside
    · rw [Bool.or_eq_true, decide_eq_true_iff] at inside
      rw [rangeCodes, List.flatMap_cons, List.mem_append]
      rcases inside with upto | further
      · exact .inl (List.mem_range'_1.mpr (by omega))
      · exact .inr (ih further)

theorem trimSplit (t : Text) :
    ∃ behind, allBlank behind = true ∧ trimLeft t = trim t ++ behind := by
  refine ⟨(trimLeft t).rtakeWhile isBlank, ?_, ?_⟩
  · exact List.all_eq_true.mpr fun c member => List.mem_rtakeWhile_imp member
  · exact (List.rdropWhile_append_rtakeWhile (p := isBlank) (l := trimLeft t)).symm

theorem trimLeftHead {t rest : Text} {c : Char} (trimmed : trimLeft t = c :: rest) :
    isBlank c = false := by
  have solid := List.head?_dropWhile_not isBlank t
  rw [show t.dropWhile isBlank = c :: rest from trimmed] at solid
  simpa using solid

theorem trimLeftTrim (t : Text) : trimLeft (trim t) = trim t := by
  obtain ⟨behind, _, split⟩ := trimSplit t
  cases trimmed : trim t with
  | nil => rfl
  | cons c rest =>
    rw [trimmed] at split
    simp [trimLeft, trimLeftHead split]

theorem trimTrim (t : Text) : trim (trim t) = trim t := by
  rw [trim, trimLeftTrim]
  exact List.rdropWhile_idempotent isBlank (trimLeft t)

theorem firstWordTrim (t : Text) : firstWord (trim t) = firstWord t := by
  obtain ⟨behind, blank, split⟩ := trimSplit t
  have none : behind.takeWhile (!isBlank ·) = [] := by
    cases behind with
    | nil => rfl
    | cons c rest =>
      have first : isBlank c = true := List.all_eq_true.mp blank c (List.mem_cons_self ..)
      simp [first]
  rw [firstWord, firstWord, trimLeftTrim, split, List.takeWhile_append, none, List.append_nil]
  split
  · rename_i whole
    exact List.takeWhile_eq_self_iff.mpr (List.takeWhile_eq_self_iff.mp
      ((List.takeWhile_prefix _).eq_of_length whole))
  · rfl

end Text

theorem blankNotName {c : Char} (blank : isBlank c = true) : isNameChar c = false := by
  have others : ∀ n ∈ rangeCodes blankRanges,
      inRanges wordRanges n = false ∧ n ≠ '.'.toNat ∧ n ≠ '-'.toNat := by
    decide +kernel
  obtain ⟨noWord, noDot, noDash⟩ := others c.toNat (inRangeCodes blank)
  simp only [isNameChar, isWordChar, noWord, Bool.false_or, Bool.or_eq_false_iff,
    beq_eq_false_iff_ne]
  exact ⟨fun same => noDot (congrArg Char.toNat same),
    fun same => noDash (congrArg Char.toNat same)⟩

theorem includeShape {line : Text} (inclusion : isInclude line = true) :
    ∃ rest, trim line = includeWord ++ rest ∧
      ∀ c more, rest = c :: more → isBlank c = true ∧ startsAnyOperator more = false := by
  simp only [isInclude, Bool.and_eq_true] at inclusion
  obtain ⟨lead, behind⟩ := inclusion
  obtain ⟨rest, split⟩ := List.isPrefixOf_iff_prefix.mp lead
  refine ⟨rest, split.symm, fun c more same => ?_⟩
  rw [← split, List.drop_left, same] at behind
  simpa using behind

theorem includeTrim (line : Text) : isInclude (trim line) = isInclude line := by
  simp only [isInclude, trimTrim]

theorem includeFirstWord {line : Text} (inclusion : isInclude line = true) :
    firstWord line = includeWord := by
  obtain ⟨rest, split, blank⟩ := includeShape inclusion
  rw [← firstWordTrim, firstWord, trimLeftTrim, split]
  have letters : ∀ c ∈ includeWord, (!isBlank c) = true :=
    List.all_eq_true.mp (by decide +kernel)
  rw [List.takeWhile_append_of_pos letters]
  cases rest with
  | nil => exact List.append_nil _
  | cons c more => simp [(blank c more rfl).1]

theorem includeKeyword {line : Text} (inclusion : isInclude line = true) :
    Keyword.ofLine? line = none := by
  rw [Keyword.ofLine?, includeFirstWord inclusion]
  decide +kernel

theorem keywordPlain {line : Text} {keyword : Keyword}
    (found : Keyword.ofLine? line = some keyword) : isInclude line = false := by
  rw [Bool.eq_false_iff]
  intro directive
  rw [includeKeyword directive] at found
  cases found

theorem operatorStarts {t : Text} (operator : startsOperator (trimLeft t) = true) :
    startsAnyOperator t = true := by
  unfold startsAnyOperator
  generalize trimLeft t = assigns at operator
  unfold startsOperator at operator
  split at operator
  · rfl
  · rfl
  · rfl
  · rfl
  · rfl
  · cases operator

theorem includeAssigns {line : Text} (inclusion : isInclude line = true) :
    isAssignment (trim line) = false := by
  obtain ⟨rest, split, blank⟩ := includeShape inclusion
  have letters : ∀ c ∈ includeWord, isNameChar c = true :=
    List.all_eq_true.mp (by decide +kernel)
  rw [isAssignment, split, List.dropWhile_append_of_pos letters, Bool.and_eq_false_iff]
  right
  cases rest with
  | nil => rfl
  | cons c more =>
    obtain ⟨first, noOperator⟩ := blank c more rfl
    rw [List.dropWhile_cons_of_neg (by simp [blankNotName first])]
    have skip : trimLeft (c :: more) = trimLeft more := by simp [trimLeft, first]
    rw [skip, Bool.eq_false_iff]
    intro operator
    rw [operatorStarts operator] at noOperator
    cases noOperator

theorem includeComment {line : Text} (inclusion : isInclude line = true) :
    startsWith ['#'] (trim line) = false := by
  obtain ⟨rest, split, _⟩ := includeShape inclusion
  rw [split]
  rfl

theorem inclusionKind (line : Text) :
    LineKind.of (trim line) = .inclusion ↔ isInclude line = true := by
  constructor
  · intro kind
    rw [← includeTrim]
    unfold LineKind.of at kind
    -- Without the test every branch gives another kind.
    by_contra other
    simp only [other] at kind
    grind
  · intro inclusion
    have keyword := includeKeyword ((includeTrim line).trans inclusion)
    simp [LineKind.of, includeComment inclusion, keyword, includeAssigns inclusion, includeTrim,
      inclusion]

theorem hashInclude {line : Text} (comment : startsWith ['#'] line = true) :
    isInclude line = false := by
  rw [Bool.eq_false_iff]
  intro inclusion
  obtain ⟨rest, trimmed, _⟩ := includeShape inclusion
  obtain ⟨behind, _, split⟩ := trimSplit line
  obtain ⟨more, rfl⟩ := List.isPrefixOf_iff_prefix.mp comment
  rw [trimmed] at split
  cases split

theorem remainderInclusion (rest : Text) :
    isInclude rest = true ↔
      Keyword.ofLine? rest ≠ some .ifeq ∧ Keyword.ofLine? rest ≠ some .ifneq ∧
      ¬(rest = [] ∨ startsWith ['#'] rest = true) ∧ LineKind.of (trim rest) = .inclusion := by
  rw [inclusionKind]
  constructor
  · intro inclusion
    refine ⟨by simp [includeKeyword inclusion], by simp [includeKeyword inclusion], ?_, inclusion⟩
    rintro (rfl | comment)
    · cases inclusion
    · rw [hashInclude comment] at inclusion
      cases inclusion
  · rintro ⟨_, _, _, inclusion⟩
    exact inclusion

theorem hashKeyword {line : Text} (comment : startsWith ['#'] line = true) :
    Keyword.ofLine? line = none := by
  obtain ⟨more, rfl⟩ := List.isPrefixOf_iff_prefix.mp comment
  rfl

theorem conditionalKind (line : Text) :
    LineKind.of (trim line) = .conditional ↔ isAssignment (trim line) = false ∧
      (Keyword.ofLine? (trim line) = some .ifeq ∨ Keyword.ofLine? (trim line) = some .ifneq) := by
  constructor
  · intro kind
    unfold LineKind.of at kind
    grind
  · rintro ⟨plain, keyword⟩
    have noComment : startsWith ['#'] (trim line) = false := by
      rw [Bool.eq_false_iff]
      intro comment
      simp [hashKeyword comment] at keyword
    have noInclude : isInclude (trim line) = false := keyword.elim keywordPlain keywordPlain
    rcases keyword with keyword | keyword
    · simp [LineKind.of, noComment, noInclude, plain, keyword]
    · simp [LineKind.of, noComment, noInclude, plain, keyword]

end MakeTree
