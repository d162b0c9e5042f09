import MakeTree.Proofs.TidyTexts
import MakeTree.Statement.Dump

/-! Printing under an indent. A printer that shows lines of its own puts the indent in front of each of
them, whatever the indent is; so printing further in is printing, with something put in front of every
line. Only an indent that ends lines itself is split by what is put in front of it. -/
namespace MakeTree
open Text

def inFront (indent text : Text) : Text := (splitLines text).flatMap (indented indent)

structure Prints (print : Text → Text) (lines : List Text) : Prop where
  clear : ∀ line ∈ lines, '\n' ∉ line
  printed : ∀ indent, print indent = lines.flatMap (indented indent)

section
variable {line : Text} {lines : List Text}

theorem splitLinesFirst (clear : '\n' ∉ line) (rest : Text) :
    splitLines (line ++ '\n' :: rest) = line :: splitLines rest := by
  induction line with
  | nil => rfl
  | cons c line ih =>
    rw [List.mem_cons, not_or] at clear
    rw [List.cons_append, splitLines, if_neg (Ne.symm clear.1), ih clear.2]

theorem splitLinesIndented {indent : Text} (level : '\n' ∉ indent)
    (clear : ∀ line ∈ lines, '\n' ∉ line) :
    splitLines (lines.flatMap (indented indent)) = lines.map (indent ++ ·) := by
  induction lines with
  | nil => rfl
  | cons line rest ih =>
    obtain ⟨first, later⟩ := List.forall_mem_cons.mp clear
    have parts : (line :: rest).flatMap (indented indent) =
        (indent ++ line) ++ '\n' :: rest.flatMap (indented indent) := by
      simp [indented]
    rw [parts, splitLinesFirst (List.not_mem_append level first), ih later, List.map_cons]

theorem inFrontNothing (front : Text) : inFront [] (front ++ ['\n']) = front ++ ['\n'] := by
  induction front with
  | nil => rfl
  | cons c rest ih =>
    unfold inFront at ih ⊢
    by_cases feed : c = '\n'
    · rw [feed, List.cons_append, splitLines, if_pos rfl, List.flatMap_cons, ih]
      rfl
    · rw [List.cons_append, splitLines, if_neg feed]
      cases lines : splitLines (rest ++ ['\n']) with
      | nil =>
        rw [lines] at ih
        simp at ih
      | cons line others =>
        rw [lines, List.flatMap_cons] at ih
        rw [List.flatMap_cons, ← ih]
        rfl

theorem indentedMap (lines : List Text) (i j : Text) :
    (lines.map (j ++ ·)).flatMap (indented i) = lines.flatMap (indented (i ++ j)) := by
  have same : (fun line => indented i (j ++ line)) = indented (i ++ j) := by
    funext line
    simp [indented]
  rw [List.flatMap_map, same]

theorem indentedLength (lines : List Text) (i j : Text) :
    (lines.flatMap (indented (i ++ j))).length =
      i.length * lines.length + (lines.flatMap (indented j)).length := by
  induction lines with
  | nil => rfl
  | cons line rest ih =>
    simp only [List.flatMap_cons, List.length_append, indented, List.length_cons, List.length_nil, ih,
      Nat.mul_succ]
    omega

theorem indentedFeeds (clear : ∀ line ∈ lines, '\n' ∉ line) (indent : Text) :
    (lines.flatMap (indented indent)).count '\n' = lines.length * (indent.count '\n' + 1) := by
  induction lines with
  | nil => simp
  | cons line rest ih =>
    obtain ⟨first, later⟩ := List.forall_mem_cons.mp clear
    simp only [List.flatMap_cons, indented, List.count_append, List.count_eq_zero.mpr first, ih later,
      List.length_cons, Nat.succ_mul, List.count_singleton_self]
    omega

end

theorem printsNone : Prints (fun _ => []) [] := ⟨by simp, fun _ => rfl⟩

theorem printsOne {line : Text} (clear : '\n' ∉ line) : Prints (indented · line) [line] where
  clear := by simpa using clear
  printed := fun _ => by simp

namespace Prints
variable {print other : Text → Text} {lines more : List Text}

theorem append (prints : Prints print lines) (next : Prints other more) :
    Prints (fun indent => print indent ++ other indent) (lines ++ more) where
  clear := fun line inside => (List.mem_append.mp inside).elim (prints.clear line) (next.clear line)
  printed := fun indent => by rw [prints.printed, next.printed, List.flatMap_append]

theorem behind (next : Prints other more) {line : Text} (clear : '\n' ∉ line) :
    Prints (fun indent => indented indent line ++ other indent) (line :: more) :=
  (printsOne clear).append next

theorem further {gap : Text} (level : '\n' ∉ gap) (prints : Prints print lines) :
    Prints (fun indent => print (indent ++ gap)) (lines.map (gap ++ ·)) where
  clear := by
    intro line inside
    obtain ⟨own, member, rfl⟩ := List.mem_map.mp inside
    exact List.not_mem_append level (prints.clear own member)
  printed := fun indent => by rw [prints.printed, indentedMap]

theorem own (prints : Prints print lines) : splitLines (print []) = lines := by
  rw [prints.printed, splitLinesIndented List.not_mem_nil prints.clear]
  simp

theorem ended (prints : Prints print lines) (some : lines ≠ []) (indent : Text) :
    ∃ front, print indent = front ++ ['\n'] := by
  obtain ⟨before, last, rfl⟩ := (List.eq_nil_or_concat lines).resolve_left some
  refine ⟨before.flatMap (indented indent) ++ (indent ++ last), ?_⟩
  rw [prints.printed]
  simp [indented]

theorem whole (prints : Prints print lines) (indent : Text) :
    inFront [] (print indent) = print indent := by
  by_cases none : lines = []
  · rw [prints.printed, none]
    rfl
  · obtain ⟨front, ends⟩ := prints.ended none indent
    rw [ends, inFrontNothing]

theorem shifted (prints : Prints print lines) (i : Text) {j : Text} (level : '\n' ∉ j) :
    print (i ++ j) = inFront i (print j) := by
  rw [inFront, prints.printed, prints.printed, splitLinesIndented level prints.clear, indentedMap]

theorem shifts (prints : Prints print lines) (i j : Text) :
    print (i ++ j) = inFront i (print j) ↔ lines = [] ∨ i = [] ∨ '\n' ∉ j := by
  constructor
  · intro same
    have left : (print (i ++ j)).length = i.length * lines.length + (print j).length := by
      rw [prints.printed, prints.printed, indentedLength]
    have right : (inFront i (print j)).length =
        i.length * (splitLines (print j)).length + (print j).length := by
      have apart := indentedLength (splitLines (print j)) i []
      rwa [List.append_nil, ← inFront, ← inFront, prints.whole] at apart
    have shown : (print j).count '\n' = lines.length * (j.count '\n' + 1) := by
      rw [prints.printed, indentedFeeds prints.clear]
    have split : (print j).count '\n' = (splitLines (print j)).length := by
      have counted := indentedFeeds (splitLinesClear (print j)) []
      rwa [← inFront, prints.whole, List.count_nil, Nat.zero_add, Nat.mul_one] at counted
    have lengths : i.length * lines.length = i.length * (lines.length * (j.count '\n' + 1)) := by
      rw [← shown, split]
      rw [same] at left
      omega
    have none : i.length * (lines.length * j.count '\n') = 0 := by
      rw [Nat.mul_succ, Nat.mul_add] at lengths
      omega
    rcases Nat.mul_eq_zero.mp none with bare | none
    · exact .inr (.inl (List.length_eq_zero_iff.mp bare))
    rcases Nat.mul_eq_zero.mp none with unprinted | level
    · exact .inl (List.length_eq_zero_iff.mp unprinted)
    · exact .inr (.inr (List.count_eq_zero.mp level))
  · rintro (rfl | rfl | level)
    · rw [prints.printed, prints.printed]
      rfl
    · rw [List.nil_append, prints.whole]
    · exact prints.shifted i level

end Prints
end MakeTree
