import MakeTree.Proofs.Dispatch
import MakeTree.Proofs.Independence
import MakeTree.Proofs.LineReading
import MakeTree.Proofs.LogicalLines

/-! The grammar of makefiles without include directives, over logical lines. A line by itself is a
statement, an assignment or the header of a rule as the reader of lines says; how lines belong
together is said here, with the statements they stand for. Nothing here reads a stream or stops
halfway through a block. -/
namespace MakeTree
open Text MakeTree.Action LineStream

def begun? (setting : Setting) (line : LogicalLine) : Except Failure Begun :=
  (beginStatement setting .empty line.text none (.standing line.location)).result.map Prod.fst

def step? (setting : Setting) (directory : Text) (line : LogicalLine) :
    Except Failure (Statement × Text) :=
  let o := Recipe.readStep setting .empty line.text (some line.location) none directory
  o.result.map fun step => (step.1, o.state)

theorem begunWith (setting : Setting) (vars : Variables) (line : LogicalLine) :
    (beginStatement setting vars line.text none (.standing line.location)).result.map Prod.fst =
      begun? setting line :=
  looksRead (beginLooks setting vars .empty line.text) _

theorem stepWith (setting : Setting) (vars : Variables) (directory : Text) (line : LogicalLine) :
    let o := Recipe.readStep setting vars line.text (some line.location) none directory
    o.result.map (fun step => (step.1, o.state)) = step? setting directory line := by
  have looks := Recipe.readStepLooks setting vars .empty line.text (some line.location)
  have like := looks none directory fun _ kept => nomatch kept
  simp only [step?, like.state]
  exact like.result.read fun _ _ same => by rw [same]

def LogicalLine.Passes (stops : List Keyword) (line : LogicalLine) : Prop :=
  ∀ keyword, Keyword.ofLine? line.text = some keyword → keyword ∉ stops

def LogicalLine.remainder (line : LogicalLine) : LogicalLine :=
  ⟨afterFirstWord (trim line.text), line.location⟩

def LogicalLine.Bare (line : LogicalLine) : Prop :=
  line.text = [] ∨ startsWith ['#'] line.text = true

theorem barePlain {line : LogicalLine} (bare : line.Bare) : isInclude line.text = false := by
  rcases bare with empty | comment
  · rw [empty]
    rfl
  · exact hashInclude comment

theorem bareKeyword {line : LogicalLine} (bare : line.Bare) (keyword : Keyword) :
    Keyword.ofLine? line.text ≠ some keyword := by
  rcases bare with empty | comment
  · rw [empty]
    simp [show Keyword.ofLine? [] = none from rfl]
  · simp [hashKeyword comment]

structure LogicalLine.Opens (line : LogicalLine) (link : Link) : Prop where
  keyword : Keyword.ofLine? line.text = some .ifeq ∨ Keyword.ofLine? line.text = some .ifneq
  condition : trim (afterFirstWord line.text) ≠ []
  link : link = ⟨trim (afterFirstWord line.text), firstWord line.text = Keyword.ifeq.text, []⟩

theorem keywordTrim (line : Text) : Keyword.ofLine? (trim line) = Keyword.ofLine? line := by
  rw [Keyword.ofLine?, firstWordTrim, Keyword.ofLine?]

def LogicalLine.trimmed (line : LogicalLine) : LogicalLine := ⟨trim line.text, line.location⟩

theorem openLinkApply (text : Text) (location : Location) :
    openLink text none (.standing location) =
      if trim (afterFirstWord text) = [] then
        ⟨[], .standing location, .error ⟨.noCondition, some location⟩⟩
      else ⟨[], .standing location, .ok (⟨trim (afterFirstWord text),
        firstWord text = Keyword.ifeq.text, []⟩, some location)⟩ := by
  by_cases none : trim (afterFirstWord text) = []
  · simp [openLink, bindApply, Outcome.andThen, none, standing]
  · simp [openLink, bindApply, Outcome.andThen, none, standing]

theorem begunKind (setting : Setting) (line : LogicalLine) :
    begun? setting line = match LineKind.of (trim line.text) with
    | .comment => .ok (.whole (.comment (commentText (trim line.text))))
    | .variable => (readVariable .empty (trim line.text) (some line.location) none
        (standing line.location)).result.map fun read => .whole read.1
    | .assignment => .ok .nothing
    | .inclusion => (readInclusion setting.files (trim line.text) none
        (standing line.location)).result.map .whole
    | .conditional =>
      if trim (afterFirstWord (trim line.text)) = [] then .error ⟨.noCondition, some line.location⟩
      else .ok (.opened (.link [] ⟨trim (afterFirstWord (trim line.text)),
        firstWord (trim line.text) = Keyword.ifeq.text, []⟩ (some line.location)))
    | .stray keyword => .error ⟨.unmatched keyword, some line.location⟩
    | .rule => (openRule setting .empty (trim line.text) none
        (standing line.location)).result.map fun read => .opened read.1
    | .command => .ok (.whole (.command (trim line.text))) := by
  unfold begun? beginStatement
  rw [bindSilent (stateApply none _)]
  cases LineKind.of (trim line.text)
  · rfl
  · exact returnRead _ _ _ _
  · rfl
  · exact returnRead _ _ _ _
  · simp only [bindApply, openLinkApply]
    split
    · rfl
    · rfl
  · rfl
  · exact returnRead _ _ _ _
  · rfl

inductive IsRecipe (setting : Setting) :
    Text → List LogicalLine → List Statement → List LogicalLine → Prop where
  | nil {directory lines} (other : ∀ line ∈ lines.head?, startsWith ['\t'] line.text = false) :
      IsRecipe setting directory lines [] lines
  | blank {directory line lines steps rest} (tab : startsWith ['\t'] line.text = true)
      (blank : allBlank line.text = true) (others : IsRecipe setting directory lines steps rest) :
      IsRecipe setting directory (line :: lines) steps rest
  | step {directory line lines step next steps rest} (tab : startsWith ['\t'] line.text = true)
      (solid : allBlank line.text = false) (reads : step? setting directory line = .ok (step, next))
      (others : IsRecipe setting next lines steps rest) :
      IsRecipe setting directory (line :: lines) (step :: steps) rest

mutual

/-- A block that starts with a line and takes in some of the lines behind it, with the statements it
stands for and the lines left. -/
inductive IsBlock (setting : Setting) :
    LogicalLine → List LogicalLine → List Statement → List LogicalLine → Prop where
  | single {line lines statement} (other : isInclude line.text = false)
      (reads : begun? setting line = .ok (.whole statement)) :
      IsBlock setting line lines [statement] lines
  | assignment {line lines} (assigns : LineKind.of (trim line.text) = .assignment) :
      IsBlock setting line lines [] lines
  | rule {line lines header directory inline recipe rest}
      (reads : begun? setting line = .ok (.opened (.rule header directory inline)))
      (steps : IsRecipe setting directory lines recipe rest) :
      IsBlock setting line lines [header.statement (inline ++ recipe)] rest
  | conditional {line lines link statements middle chained otherwise rest}
      (plain : isAssignment (trim line.text) = false) (opens : line.trimmed.Opens link)
      (body : AreBlocks setting [.endif, .otherwise] lines statements middle)
      (ends : EndsLink setting middle chained otherwise rest) :
      IsBlock setting line lines
        [.conditional (.mk link.condition link.expected statements chained otherwise)] rest

inductive AreBlocks (setting : Setting) :
    List Keyword → List LogicalLine → List Statement → List LogicalLine → Prop where
  | nil {stops lines} : AreBlocks setting stops lines [] lines
  | cons {stops line lines statements middle others rest} (passes : line.Passes stops)
      (first : IsBlock setting line lines statements middle)
      (more : AreBlocks setting stops middle others rest) :
      AreBlocks setting stops (line :: lines) (statements ++ others) rest

inductive EndsLink (setting : Setting) : List LogicalLine → Option Conditional →
    Option (List Statement) → List LogicalLine → Prop where
  | endif {line rest} (keyword : Keyword.ofLine? line.text = some .endif) :
      EndsLink setting (line :: rest) none none rest
  | chain {line lines link statements middle chained otherwise rest}
      (keyword : Keyword.ofLine? line.text = some .otherwise) (opens : line.remainder.Opens link)
      (body : AreBlocks setting [.endif, .otherwise] lines statements middle)
      (ends : EndsLink setting middle chained otherwise rest) :
      EndsLink setting (line :: lines)
        (some (.mk link.condition link.expected statements chained otherwise)) none rest
  | otherwise {line lines statements last rest}
      (keyword : Keyword.ofLine? line.text = some .otherwise)
      (bare : line.remainder.Bare)
      (body : AreBlocks setting [.endif] lines statements (last :: rest))
      (ends : Keyword.ofLine? last.text = some .endif) :
      EndsLink setting (line :: lines) none (some statements) rest
  | otherwiseWith {line lines statements middle others last rest}
      (keyword : Keyword.ofLine? line.text = some .otherwise)
      (unconditional : line.remainder.Passes [.ifeq, .ifneq])
      (solid : ¬line.remainder.Bare)
      (first : IsBlock setting line.remainder lines statements middle)
      (body : AreBlocks setting [.endif] middle others (last :: rest))
      (ends : Keyword.ofLine? last.text = some .endif) :
      EndsLink setting (line :: lines) none (some (statements ++ others)) rest

end

end MakeTree
