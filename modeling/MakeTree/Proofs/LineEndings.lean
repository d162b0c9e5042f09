import MakeTree.Proofs.Encoding
import MakeTree.Proofs.StreamSteps

/-! The three ways to end a line. A text that has no carriage returns of its own keeps its lines with
any of them in a file; and given directly it may as well have a carriage return before each line feed. -/
namespace MakeTree
open Text

def crlfLine (c : Char) : Text := if c = '\n' then ['\r', '\n'] else [c]

def withCrlf (text : Text) : Text := text.flatMap crlfLine

def withCr (text : Text) : Text := text.map fun c => if c = '\n' then '\r' else c

def endings (text : Text) : List Text := [text, withCrlf text, withCr text]

namespace Source

theorem unifyOther {c : Char} (other : c ≠ '\r') (rest : Text) :
    unifyNewlines (c :: rest) = c :: unifyNewlines rest := by
  rw [unifyNewlines.eq_3 _ _ fun _ same => absurd same other, if_neg other]

theorem unifyClean {text : Text} (clean : '\r' ∉ text) : unifyNewlines text = text := by
  induction text with
  | nil => rfl
  | cons c rest ih =>
    rw [List.mem_cons, not_or] at clean
    rw [unifyOther (Ne.symm clean.1), ih clean.2]

theorem unifyCrlf {text : Text} (clean : '\r' ∉ text) : unifyNewlines (withCrlf text) = text := by
  induction text with
  | nil => rfl
  | cons c rest ih =>
    rw [List.mem_cons, not_or] at clean
    rw [withCrlf, List.flatMap_cons, ← withCrlf, crlfLine]
    split
    · rename_i feed
      change '\n' :: unifyNewlines (withCrlf rest) = _
      rw [ih clean.2, feed]
    · rw [List.singleton_append, unifyOther (Ne.symm clean.1), ih clean.2]

theorem withCrFeedless (text : Text) : '\n' ∉ withCr text := by
  intro member
  obtain ⟨c, -, same⟩ := List.mem_map.mp member
  split at same
  · cases same
  · contradiction

theorem unifyCr {text : Text} (clean : '\r' ∉ text) : unifyNewlines (withCr text) = text := by
  induction text with
  | nil => rfl
  | cons c rest ih =>
    rw [List.mem_cons, not_or] at clean
    have feedless := withCrFeedless rest
    rw [withCr, List.map_cons, ← withCr]
    split
    · rename_i feed
      -- What follows is no line feed, so the carriage return is a line ending by itself.
      have alone : ∀ more, '\r' = '\r' → withCr rest = '\n' :: more → False := fun more _ same =>
        feedless (same ▸ List.mem_cons_self ..)
      rw [unifyNewlines.eq_3 _ _ alone, ih clean.2, feed]
      rfl
    · rw [unifyOther (Ne.symm clean.1), ih clean.2]

theorem unifyEndings {text other : Text} (clean : '\r' ∉ text) (ending : other ∈ endings text) :
    unifyNewlines other = text := by
  simp only [endings, List.mem_cons, List.not_mem_nil, or_false] at ending
  rcases ending with rfl | rfl | rfl
  · exact unifyClean clean
  · exact unifyCrlf clean
  · exact unifyCr clean

theorem withoutReturnCons {c : Char} (noReturn : c ≠ '\r') (noFeed : c ≠ '\n') (line : Text) :
    withoutReturn (c :: line) = c :: withoutReturn line := by
  have kept : (c == '\r' || c == '\n') = false := by simp [noReturn, noFeed]
  unfold withoutReturn dropWhileEnd
  rw [List.reverse_cons, List.dropWhile_append]
  split
  · rename_i all
    rw [List.isEmpty_iff.mp all, List.dropWhile_cons, kept]
    rfl
  · rw [List.reverse_append]
    rfl

theorem textLinesCons {c : Char} (noReturn : c ≠ '\r') (noFeed : c ≠ '\n') {text other : Text}
    (lines : textLines other = splitLines text) :
    textLines (c :: other) = splitLines (c :: text) := by
  simp only [textLines, splitLines, if_neg noFeed] at lines ⊢
  rw [← lines]
  cases splitLines other with
  | nil => rw [List.map_singleton, withoutReturnCons noReturn noFeed]; rfl
  | cons line more => rw [List.map_cons, withoutReturnCons noReturn noFeed]; rfl

theorem textLinesClean {text : Text} (clean : '\r' ∉ text) : textLines text = splitLines text := by
  induction text with
  | nil => rfl
  | cons c rest ih =>
    rw [List.mem_cons, not_or] at clean
    have lines := ih clean.2
    by_cases feed : c = '\n'
    · rw [feed]
      exact congrArg ([] :: ·) lines
    · exact textLinesCons (Ne.symm clean.1) feed lines

theorem textLinesCrlf {text : Text} (clean : '\r' ∉ text) :
    textLines (withCrlf text) = splitLines text := by
  induction text with
  | nil => rfl
  | cons c rest ih =>
    rw [List.mem_cons, not_or] at clean
    have lines := ih clean.2
    rw [withCrlf, List.flatMap_cons, ← withCrlf, crlfLine]
    split
    · rename_i feed
      rw [feed]
      exact congrArg ([] :: ·) lines
    · rename_i other
      exact textLinesCons (Ne.symm clean.1) other lines

theorem ofTextCrlf {text : Text} (clean : '\r' ∉ text) (path : Text) :
    ofText path (withCrlf text) = ofText path text := by
  rw [ofText, ofText, textLinesCrlf clean, textLinesClean clean]

def bare (s : Source) : Source := { s with feed := none }

theorem ofFileBare {text other : Text} (clean : '\r' ∉ text) (ending : other ∈ endings text)
    (path : Text) (place : Place) :
    (ofFile path place (encodeUtf8 other) []).bare = ofText path text := by
  have decoded : decodeUtf8 (encodeUtf8 other) = ⟨other, none⟩ := decodeEncoded 0 other
  have whole : encodeUtf8 other ++ encodeUtf8 [] = encodeUtf8 other := List.append_nil _
  simp only [ofFile, whole, ofBytes, decoded, bare, ofText, fileLines, unifyEndings clean ending,
    textLinesClean clean]

end Source
end MakeTree
