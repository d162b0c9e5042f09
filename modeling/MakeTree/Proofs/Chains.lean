import MakeTree.Proofs.TextCuts
import MakeTree.Proofs.TidyTexts

/-! Chains of commands and the texts they are cut out of. No piece holds the mark that pieces are cut at;
a piece with a blank and the mark behind it is cut off again, and blanks around a text do not matter to
the commands in it. -/
namespace MakeTree
open Text

namespace Text

def chainMark : Text := ['&', '&']

theorem chainNever (t : Text) : splitChain t ≠ [] := by
  fun_induction splitChain t with
  | case1 => exact List.cons_ne_nil _ _
  | case2 rest ih => exact List.cons_ne_nil _ _
  | case3 c rest plain none ih => exact absurd none ih
  | case4 c rest plain piece pieces split ih => exact List.cons_ne_nil _ _

theorem chainCons {c : Char} {rest piece : Text} {pieces : List Text}
    (plain : ∀ more, c = '&' → rest = '&' :: more → False)
    (split : splitChain rest = piece :: pieces) :
    splitChain (c :: rest) = (c :: piece) :: pieces := by
  rw [splitChain.eq_3 c rest plain, split]

theorem chainFirst {t piece : Text} {pieces : List Text} (split : splitChain t = piece :: pieces) :
    piece <+: t := by
  fun_induction splitChain t generalizing piece pieces with
  | case1 =>
    cases split
    exact List.nil_prefix
  | case2 rest ih =>
    cases split
    exact List.nil_prefix
  | case3 c rest plain none ih => exact absurd none (chainNever rest)
  | case4 c rest plain first others onward ih =>
    cases split
    exact List.prefix_cons_inj c |>.mpr (ih onward)

theorem chainPieces {t piece : Text} (member : piece ∈ splitChain t) :
    piece ⊆ t ∧ ¬chainMark <:+: piece := by
  fun_induction splitChain t generalizing piece with
  | case1 =>
    cases List.mem_singleton.mp member
    exact ⟨List.Subset.refl _, by decide⟩
  | case2 rest ih =>
    rcases List.mem_cons.mp member with rfl | inside
    · exact ⟨List.nil_subset _, by decide⟩
    · obtain ⟨subset, unmarked⟩ := ih inside
      exact ⟨fun c held => List.mem_cons_of_mem _ (List.mem_cons_of_mem _ (subset held)), unmarked⟩
  | case3 c rest plain none ih => exact absurd none (chainNever rest)
  | case4 c rest plain first others split ih =>
    rw [split] at ih
    rcases List.mem_cons.mp member with rfl | inside
    · obtain ⟨subset, unmarked⟩ := ih (List.mem_cons_self ..)
      refine ⟨List.cons_subset_cons c subset, fun marked => ?_⟩
      rcases List.infix_cons_iff.mp marked with lead | within
      · -- Then the mark would stand at the head of the whole text.
        obtain ⟨same, second⟩ := List.cons_prefix_cons.mp lead
        obtain ⟨more, front⟩ := second.trans (chainFirst split)
        exact plain more same.symm front.symm
      · exact unmarked within
    · obtain ⟨subset, unmarked⟩ := ih (List.mem_cons_of_mem _ inside)
      exact ⟨List.subset_cons_of_subset c subset, unmarked⟩

theorem chainBefore {front behind piece : Text} {pieces : List Text}
    (unmarked : ¬chainMark <:+: front) (apart : behind.head? ≠ some '&')
    (split : splitChain behind = piece :: pieces) :
    splitChain (front ++ behind) = (front ++ piece) :: pieces := by
  induction front with
  | nil => exact split
  | cons c rest ih =>
    refine chainCons ?_ (ih fun within => unmarked (List.infix_cons within))
    rintro more rfl half
    cases rest with
    | nil => exact apart (by rw [show behind = '&' :: more from half]; rfl)
    | cons d rest =>
      cases half
      exact unmarked ⟨[], rest, rfl⟩

theorem chainWhole {t : Text} (unmarked : ¬chainMark <:+: t) : splitChain t = [t] := by
  have whole : splitChain (t ++ []) = [t ++ []] := chainBefore unmarked (by simp) rfl
  rwa [List.append_nil] at whole

theorem chainCut {piece : Text} (unmarked : ¬chainMark <:+: piece) (rest : Text) :
    splitChain (piece ++ ' ' :: '&' :: '&' :: rest) = (piece ++ [' ']) :: splitChain rest := by
  have alone : splitChain (' ' :: '&' :: '&' :: rest) = [' '] :: splitChain rest :=
    chainCons (fun _ mark => absurd mark (by decide)) (splitChain.eq_2 rest)
  exact chainBefore unmarked (by simp) alone

theorem chainAhead {gap t piece : Text} {pieces : List Text} (blank : ∀ c ∈ gap, isBlank c = true)
    (split : splitChain t = piece :: pieces) : splitChain (gap ++ t) = (gap ++ piece) :: pieces := by
  induction gap with
  | nil => exact split
  | cons c gap ih =>
    obtain ⟨first, later⟩ := List.forall_mem_cons.mp blank
    refine chainCons ?_ (ih later)
    rintro _ rfl
    exact absurd first (by decide)

theorem chainBehind {gap : Text} (blank : ∀ c ∈ gap, isBlank c = true) (t : Text) :
    ∃ front last, splitChain t = front ++ [last] ∧ splitChain (t ++ gap) = front ++ [last ++ gap] := by
  fun_induction splitChain t with
  | case1 =>
    have bare : splitChain (gap ++ []) = [gap ++ []] := chainAhead blank rfl
    exact ⟨[], [], rfl, by simpa using bare⟩
  | case2 rest ih =>
    obtain ⟨front, last, split, behind⟩ := ih
    exact ⟨[] :: front, last, congrArg _ split, congrArg _ behind⟩
  | case3 c rest plain none ih => exact absurd none (chainNever rest)
  | case4 c rest plain first others split ih =>
    obtain ⟨front, last, ends, behind⟩ := ih
    have still : ∀ more, c = '&' → rest ++ gap = '&' :: more → False := by
      rintro more same half
      cases rest with
      | nil => exact absurd (blank '&' (by rw [show gap = '&' :: more from half]; simp)) (by decide)
      | cons d rest =>
        cases half
        exact plain rest same rfl
    rw [split] at ends
    cases front with
    | nil =>
      cases ends
      exact ⟨[], c :: first, rfl, chainCons still behind⟩
    | cons piece front =>
      cases ends
      exact ⟨(c :: first) :: front, last, rfl, chainCons still behind⟩

end Text

variable {text gap : Text}

theorem commandsAhead (blank : ∀ c ∈ gap, isBlank c = true) (text : Text) :
    chainCommands (gap ++ text) = chainCommands text := by
  obtain ⟨piece, pieces, split⟩ := List.exists_cons_of_ne_nil (chainNever text)
  have front : trimLeft (gap ++ piece) = trimLeft piece := List.dropWhile_append_of_pos blank
  rw [chainCommands, chainCommands, chainAhead blank split, split, List.map_cons, List.map_cons, trim,
    front, ← trim]

theorem commandsBehind (blank : ∀ c ∈ gap, isBlank c = true) (text : Text) :
    chainCommands (text ++ gap) = chainCommands text := by
  obtain ⟨front, last, split, behind⟩ := chainBehind blank text
  rw [chainCommands, chainCommands, behind, split, List.map_append, List.map_append, List.map_singleton,
    List.map_singleton, trimBehind last blank]

theorem commandsTrim (text : Text) : chainCommands (trim text) = chainCommands text := by
  obtain ⟨behind, blank, right⟩ := trimSplit text
  have left : text.takeWhile isBlank ++ trimLeft text = text := List.takeWhile_append_dropWhile
  calc chainCommands (trim text)
      = chainCommands (trim text ++ behind) := (commandsBehind (List.all_eq_true.mp blank) _).symm
    _ = chainCommands (trimLeft text) := by rw [right]
    _ = chainCommands (text.takeWhile isBlank ++ trimLeft text) :=
        (commandsAhead (fun _ => List.mem_takeWhile_imp) _).symm
    _ = chainCommands text := by rw [left]

structure IsLink (command : Text) : Prop where
  trimmed : trim command = command
  unmarked : ¬chainMark <:+: command

theorem commandsLinks {command : Text} (member : command ∈ chainCommands text) :
    IsLink command ∧ command ⊆ text := by
  obtain ⟨piece, inside, rfl⟩ := List.mem_map.mp member
  obtain ⟨subset, unmarked⟩ := chainPieces inside
  have within : trim piece <:+: piece :=
    (trimRightPrefix _).isInfix.trans (List.dropWhile_suffix _).isInfix
  exact ⟨⟨trimTrim piece, fun marked => unmarked (marked.trans within)⟩,
    List.Subset.trans (trimSubset piece) subset⟩

theorem commandsWhole {command : Text} (link : IsLink command) : chainCommands command = [command] := by
  rw [chainCommands, chainWhole link.unmarked, List.map_singleton, link.trimmed]

theorem commandsCut {command : Text} (link : IsLink command) (rest : Text) :
    chainCommands (command ++ ' ' :: '&' :: '&' :: rest) = command :: chainCommands rest := by
  have blank : ∀ c ∈ [' '], isBlank c = true := List.all_eq_true.mp rfl
  rw [chainCommands, chainCut link.unmarked, List.map_cons, trimBehind command blank, link.trimmed]
  rfl

end MakeTree
