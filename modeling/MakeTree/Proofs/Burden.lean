import Mathlib.Algebra.Order.BigOperators.Group.List
import Mathlib.Algebra.Order.Ring.Nat
import MakeTree.Proofs.Includes
import MakeTree.Proofs.Settling

/-! How much there is still to read: the line ahead and the lines in the open sources, each together
with the lines of the files it may bring in. Files inside each other are followed as deep as there are
files. As long as no more sources are open than that, a step either takes the line ahead, and leaves
less, or ends a block. -/
namespace MakeTree
open Text MakeTree.Action LineStream

def inclusion? (line : Text) : Option Text :=
  match Keyword.ofLine? line with
  | some .otherwise =>
    let rest := afterFirstWord (trim line)
    if isInclude rest then (words (trim rest))[1]? else none
  | _ => if isInclude line then (words (trim line))[1]? else none

theorem statementIncluded {scopes : List Scope} {line token : Text}
    (named : (statementEffect scopes line).included = some token) :
    isInclude line = true ∧ (words (trim line))[1]? = some token := by
  unfold statementEffect at named
  simp only at named
  split at named <;> try contradiction
  rename_i kind
  exact ⟨(inclusionKind line).mp kind, named⟩

theorem statementInclusion {scopes : List Scope} {line token : Text}
    (named : (statementEffect scopes line).included = some token) :
    inclusion? line = some token := by
  obtain ⟨directive, word⟩ := statementIncluded named
  unfold inclusion?
  split
  · rename_i keyword
    rw [keywordPlain keyword] at directive
    cases directive
  · rw [if_pos directive, word]

theorem lineInclusion (scopes : List Scope) {line token : Text} :
    (lineEffect scopes line).included = some token → inclusion? line = some token := by
  refine effectShape (motive := fun effect => effect.included = some token → inclusion? line = _)
    scopes line ?_ ?_ ?_ ?_
  · intro _ named
    cases named
  · intro _ named
    cases named
  · exact fun _ => statementInclusion
  · intro keyword _ named
    obtain ⟨directive, word⟩ := statementIncluded named
    simp [inclusion?, keyword, directive, word]

namespace FileTree

def filePlaces (files : FileTree) : List Place :=
  (files.entries.filter (·.2 != .directory)).map Prod.fst

def fileCount (files : FileTree) : Nat := files.filePlaces.length

def weight (files : FileTree) (workDir : Text) : Nat → Text → Nat
  | 0, _ => 1
  | depth + 1, line =>
    match (inclusion? line).bind fun token => files.source? (Path.normalJoin workDir token) with
    | none => 1
    | some source => 1 + (source.remaining.map fun line => files.weight workDir depth line.text).sum

def load (files : FileTree) (workDir : Text) (depth : Nat) (source : Source) : Nat :=
  (source.remaining.map fun line => files.weight workDir depth line.text).sum

def loads (files : FileTree) (workDir : Text) : List Source → Nat
  | [] => 0
  | source :: below =>
    files.load workDir (files.fileCount + 1 - below.length) source + files.loads workDir below

theorem weightPositive (files : FileTree) (workDir : Text) (depth : Nat) (line : Text) :
    0 < files.weight workDir depth line := by
  cases depth with
  | zero => exact Nat.zero_lt_one
  | succ depth =>
    unfold weight
    split
    · exact Nat.zero_lt_one
    · omega

theorem weightIncluded {files : FileTree} {workDir line token : Text} {source : Source}
    (named : inclusion? line = some token)
    (opened : files.source? (Path.normalJoin workDir token) = some source) (depth : Nat) :
    files.weight workDir (depth + 1) line = 1 + files.load workDir depth source := by
  simp [weight, named, opened, load]

end FileTree

namespace LineStream

def Shallow (files : FileTree) (s : LineStream) : Prop := s.sources.length ≤ files.fileCount + 1

def burden (files : FileTree) (s : LineStream) : Nat :=
  (if s.eof then 0 else files.weight s.workDir (files.fileCount + 2 - s.sources.length) s.next) +
    files.loads s.workDir s.sources

theorem foundBurden (files : FileTree) (s : LineStream) (sources : List Source) :
    (s.found sources).burden files = files.loads s.workDir sources := by
  induction sources with
  | nil => rfl
  | cons source below ih =>
    simp only [found, FileTree.loads, FileTree.load]
    split
    · rename_i lines
      rw [ih, Source.remainingNil lines]
      simp
    · rename_i line rest lines
      have deep : files.fileCount + 2 - (below.length + 1) = files.fileCount + 1 - below.length := by
        omega
      rw [Source.remainingCons lines]
      simp [burden, FileTree.loads, FileTree.load, deep, Nat.add_assoc]

theorem pastBurden {files : FileTree} {s t : LineStream} {included : Option Text}
    (shallow : s.Shallow files) (more : s.eof = false) (named : ∀ token, included = some token → inclusion? s.next = some token)
    (past : s.Past files included t) : t.burden files < s.burden files := by
  have solid := files.weightPositive s.workDir (files.fileCount + 2 - s.sources.length) s.next
  cases past with
  | taken =>
    rw [foundBurden]
    simp only [burden, more, Bool.false_eq_true, if_false, atNext]
    omega
  | @entered token source opened =>
    have deep : files.fileCount + 2 - s.sources.length =
        files.fileCount + 1 - s.sources.length + 1 := by
      unfold Shallow at shallow
      omega
    have here := FileTree.weightIncluded (named token rfl) opened
      (files.fileCount + 1 - s.sources.length)
    rw [foundBurden]
    simp only [burden, more, Bool.false_eq_true, if_false, atNext, FileTree.loads, deep, here]
    omega

end LineStream

namespace Stage

/-- A line counts twice: it is taken, and it may open a block that takes a step to end. -/
def measure (files : FileTree) (stage : Stage) : Nat :=
  2 * stage.stream.burden files + stage.outer.length

variable {setting : Setting} {stage next : Stage} {events : List Event}

theorem goesMeasure (goes : stage.Goes setting events next) (formed : stage.Formed)
    (shallow : stage.stream.Shallow setting.files) :
    next.measure setting.files < stage.measure setting.files := by
  unfold measure
  cases goesTreats goes formed with
  | leaves same ended _ _ =>
    rw [same]
    omega
  | handles more deeper _ _ past =>
    have less := pastBurden shallow more (fun _ => lineInclusion _) past
    omega

end Stage
end MakeTree
