import MakeTree.LineStream
import MakeTree.Proofs.Dispatch
import MakeTree.Proofs.LogicalLines
import MakeTree.Proofs.StreamSteps

/-! Texts that are cut out of lines. A logical line holds no line feed, whatever file or text it comes
from, and what a line is cut into has no blanks around it. -/
namespace MakeTree
open Text

namespace Text

structure IsTidy (t : Text) : Prop where
  line : '\n' ∉ t
  left : ∀ c ∈ t.head?, isBlank c = false
  right : ∀ c ∈ t.getLast?, isBlank c = false

structure IsWord (t : Text) : Prop where
  some : t ≠ []
  solid : ∀ c ∈ t, isBlank c = false

theorem trimRightPrefix (t : Text) : trimRight t <+: t := List.rdropWhile_prefix isBlank t

theorem trimRightLast {t : Text} {c : Char} (last : c ∈ (trimRight t).getLast?) :
    isBlank c = false := by
  have same : trimRight t = t.rdropWhile isBlank := rfl
  obtain ⟨front, split⟩ := List.getLast?_eq_some_iff.mp last
  rw [same] at split
  have solid := List.rdropWhile_last_not isBlank t (by simp [split])
  simpa [split] using solid

theorem trimSubset (t : Text) : trim t ⊆ t :=
  List.Subset.trans (trimRightPrefix (trimLeft t)).subset (List.dropWhile_suffix _).subset

theorem trimTidy {t : Text} (line : '\n' ∉ t) : IsTidy (trim t) where
  line := fun member => line (trimSubset t member)
  left := by
    intro c head
    obtain ⟨rest, split⟩ := List.head?_eq_some_iff.mp head
    have trimmed := trimLeftTrim t
    rw [split] at trimmed
    exact trimLeftHead trimmed
  right := fun c last => trimRightLast last

theorem prefixTidy {t front : Text} (tidy : IsTidy t) (lead : front <+: t) :
    IsTidy (trimRight front) where
  line := fun member => tidy.line (lead.subset ((trimRightPrefix front).subset member))
  left := by
    intro c head
    obtain ⟨more, whole⟩ := (trimRightPrefix front).trans lead
    obtain ⟨rest, split⟩ := List.head?_eq_some_iff.mp head
    refine tidy.left c ?_
    rw [← whole, split]
    rfl
  right := fun c last => trimRightLast last

theorem cutBefore (c : Char) (t : Text) : c ∉ (cutAt c t).1 ∧ (cutAt c t).1 ⊆ t := by
  induction t with
  | nil => simp [cutAt]
  | cons d rest ih =>
    unfold cutAt
    split
    · simp
    · rename_i other
      simp only [List.mem_cons, not_or]
      exact ⟨⟨fun same => other same.symm, ih.1⟩, List.cons_subset_cons d ih.2⟩

theorem cutAfter {c : Char} {t rest : Text} (found : (cutAt c t).2 = some rest) : rest ⊆ t := by
  induction t with
  | nil => cases found
  | cons d more ih =>
    unfold cutAt at found
    split at found
    · cases found
      exact List.subset_cons_self d rest
    · exact List.Subset.trans (ih found) (List.subset_cons_self d more)

theorem afterFirstWordSubset (t : Text) : afterFirstWord t ⊆ t :=
  ((List.dropWhile_suffix _).trans
    ((List.dropWhile_suffix _).trans (List.dropWhile_suffix _))).subset

theorem wordOne {c : Char} (solid : ¬isBlank c = true) : IsWord [c] :=
  ⟨by simp, by simpa using solid⟩

theorem wordsSolid (t : Text) : ∀ word ∈ words t, IsWord word := by
  fun_induction words t with
  | case1 => simp
  | case2 c rest blank ih => exact ih
  | case3 c solid => simpa using wordOne solid
  | case4 c solid d rest blank ih => exact List.forall_mem_cons.mpr ⟨wordOne solid, ih⟩
  | case5 c solid d rest more none ih =>
    rw [none]
    simpa using wordOne solid
  | case6 c solid d rest more word others split ih =>
    rw [split] at ih ⊢
    obtain ⟨first, later⟩ := List.forall_mem_cons.mp ih
    refine List.forall_mem_cons.mpr ⟨⟨by simp, ?_⟩, later⟩
    exact List.forall_mem_cons.mpr ⟨by simpa using solid, first.solid⟩

def peeled (mark : Char) (cut : Text → Text) (name : Text) : Text :=
  if endsWithChar mark name then trimRight (cut name) else name

theorem leftSideName (raw : Text) :
    (LeftSide.ofText raw).name = peeled '+' List.dropLast
      (peeled ':' (dropWhileEnd (· == ':')) (peeled '?' List.dropLast (trim raw))) := by
  unfold LeftSide.ofText peeled
  generalize trim raw = name
  by_cases conditional : endsWithChar '?' name = true
  · simp only [if_pos conditional]
    generalize trimRight (List.dropLast name) = name
    by_cases simple : endsWithChar ':' name = true
    · simp only [if_pos simple]
      split <;> rfl
    · simp only [if_neg simple]
      split <;> rfl
  · simp only [if_neg conditional]
    by_cases simple : endsWithChar ':' name = true
    · simp only [if_pos simple]
      split <;> rfl
    · simp only [if_neg simple]
      split <;> rfl

theorem peeledTidy (mark : Char) {cut : Text → Text} (lead : ∀ name, cut name <+: name)
    {raw name : Text} (tidy : IsTidy name) (inside : name ⊆ raw) :
    IsTidy (peeled mark cut name) ∧ peeled mark cut name ⊆ raw := by
  unfold peeled
  split
  · exact ⟨prefixTidy tidy (lead name),
      List.Subset.trans ((trimRightPrefix _).trans (lead name)).subset inside⟩
  · exact ⟨tidy, inside⟩

theorem leftSideTidy {raw : Text} (line : '\n' ∉ raw) :
    IsTidy (LeftSide.ofText raw).name ∧ (LeftSide.ofText raw).name ⊆ raw := by
  rw [leftSideName]
  have ends : ∀ name : Text, dropWhileEnd (· == ':') name <+: name := List.rdropWhile_prefix _
  have first := peeledTidy '?' List.dropLast_prefix (trimTidy line) (trimSubset raw)
  have second := peeledTidy ':' ends first.1 first.2
  exact peeledTidy '+' List.dropLast_prefix second.1 second.2

end Text

/-! No line that is read holds a line feed. -/

theorem splitLinesClear (t : Text) : ∀ line ∈ splitLines t, '\n' ∉ line := by
  induction t with
  | nil => simp [splitLines]
  | cons c rest ih =>
    unfold splitLines
    split
    · exact List.forall_mem_cons.mpr ⟨by simp, ih⟩
    · rename_i other
      split
      · simpa using fun same => other same.symm
      · rename_i line lines split
        rw [split] at ih
        obtain ⟨first, later⟩ := List.forall_mem_cons.mp ih
        refine List.forall_mem_cons.mpr ⟨?_, later⟩
        simpa using ⟨fun same => other same.symm, first⟩

theorem continuedSubset (lines : List Text) : ∀ c ∈ (continued lines).text, ∃ line ∈ lines, c ∈ line := by
  induction lines with
  | nil => simp [continued]
  | cons line rest ih =>
    have onward : ∀ c ∈ (continued rest).text, ∃ other ∈ line :: rest, c ∈ other := fun c member =>
      (ih c member).imp fun _ inside => ⟨List.mem_cons_of_mem _ inside.1, inside.2⟩
    simp only [continued]
    split
    · simp
    · split
      · exact onward
      · split
        · intro c member
          rcases List.mem_append.mp (trimSubset _ member) with here | there
          · exact ⟨line, List.mem_cons_self .., (List.dropLast_subset line) here⟩
          · exact onward c there
        · exact fun c member => ⟨line, List.mem_cons_self .., trimSubset _ member⟩

theorem joinedClear {line : Text} {rest : List Text} (clear : ∀ other ∈ line :: rest, '\n' ∉ other) :
    '\n' ∉ (joined line rest).text := by
  unfold joined
  split
  · exact clear line (List.mem_cons_self ..)
  · intro member
    rcases List.mem_append.mp member with here | there
    · exact clear line (List.mem_cons_self ..) ((List.dropLast_subset line) here)
    · obtain ⟨other, inside, within⟩ := continuedSubset rest _ there
      exact clear other (List.mem_cons_of_mem _ inside) within

theorem logicalClear (path : Text) (number taken : Nat) {lines : List Text}
    (clear : ∀ line ∈ lines, '\n' ∉ line) :
    ∀ line ∈ logicalLines path number taken lines, '\n' ∉ line.text := by
  induction lines generalizing number taken with
  | nil => simp [logicalLines]
  | cons first rest ih =>
    have later := fun number taken =>
      ih number taken fun line inside => clear line (List.mem_cons_of_mem _ inside)
    cases taken with
    | succ taken => exact later _ _
    | zero =>
      unfold logicalLines
      split
      · exact later _ _
      · exact List.forall_mem_cons.mpr ⟨joinedClear clear, later _ _⟩

theorem textClear (text : Text) : ∀ line ∈ Source.textLines text, '\n' ∉ line := by
  intro line member
  obtain ⟨raw, inside, rfl⟩ := List.mem_map.mp member
  exact fun feed => splitLinesClear text raw inside ((List.rdropWhile_prefix _ raw).subset feed)

theorem bytesClear (path : Text) (bytes : List UInt8) :
    ∀ line ∈ (Source.ofBytes path bytes).lines, '\n' ∉ line := by
  unfold Source.ofBytes
  simp only
  split
  · exact splitLinesClear _
  · split
    · exact splitLinesClear _
    · simp

theorem fileClear {files : FileTree} {path : Text} {source : Source}
    (opened : files.source? path = some source) : ∀ line ∈ source.remaining, '\n' ∉ line.text := by
  unfold FileTree.source? at opened
  split at opened <;> try contradiction
  cases Option.some.inj opened
  exact logicalClear _ _ _ (bytesClear _ _)

theorem originClear {files : FileTree} {origin : Origin} {source : Source}
    (opened : origin.source? files = some source) : ∀ line ∈ source.remaining, '\n' ∉ line.text := by
  cases origin with
  | file path => exact fileClear opened
  | text path content =>
    cases Option.some.inj opened
    exact logicalClear _ _ _ (textClear content)

end MakeTree
