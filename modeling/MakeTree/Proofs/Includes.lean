import Mathlib.Data.Fintype.Card
import Mathlib.Data.Set.Finite.Basic
import Mathlib.Logic.Relation
import MakeTree.Line.Kind
import MakeTree.Proofs.StreamSteps

/-! Which files name which others in their include directives. A tree holds finitely many lines, so
where no file is included from itself the relation is well-founded: whatever holds of a file once
it holds of the files it includes holds of all. -/
namespace MakeTree
open Text

def FileTree.lines? (files : FileTree) (path : Text) : Option (List LogicalLine) :=
  match files.openFile path with
  | .ok (_, bytes) =>
    if (decodeUtf8 bytes).fault = none then
      some (logicalLines path 0 0 (Source.fileLines (decodeUtf8 bytes).text))
    else none
  | .error _ => none

def Origin.lines? (files : FileTree) : Origin → Option (List LogicalLine)
  | .file path => files.lines? path
  | .text path content => some (logicalLines path 0 0 (Source.textLines content))

theorem readableSource {files : FileTree} {path : Text} {lines : List LogicalLine}
    (readable : files.lines? path = some lines) :
    ∃ source, files.source? path = some source ∧ source.ending = .finished ∧
      source.remaining = lines := by
  unfold FileTree.lines? at readable
  split at readable <;> try contradiction
  rename_i place bytes opened
  split at readable <;> try contradiction
  rename_i sound
  cases Option.some.inj readable
  have fresh : Source.ofFile path place bytes [] =
      { path := path, lines := Source.fileLines (decodeUtf8 bytes).text, lineNumber := 0,
        ending := .finished,
        feed := some ⟨place, 0, Source.isUnended (decodeUtf8 bytes).text⟩ } := by
    simp [Source.ofFile, Source.ofBytes, encodeUtf8, sound]
  refine ⟨.ofFile path place bytes [], by simp [FileTree.source?, opened], ?_, ?_⟩
  · rw [fresh]
  · rw [fresh]
    rfl

theorem Origin.readableSource {files : FileTree} {origin : Origin} {lines : List LogicalLine}
    (readable : origin.lines? files = some lines) :
    ∃ source, origin.source? files = some source ∧ source.ending = .finished ∧
      source.remaining = lines := by
  cases origin with
  | file path => exact MakeTree.readableSource readable
  | text path content =>
    cases Option.some.inj readable
    exact ⟨_, rfl, rfl, rfl⟩

namespace LineStream

theorem entered {s : LineStream} {files : FileTree} {path : Text} {inner : List LogicalLine}
    (readable : files.lines? (s.target path) = some inner) (sound : s.Sound) :
    ∃ events t, enter files path none s = ⟨events, t, .ok ()⟩ ∧
      t.Shows (inner ++ pending s.sources) ∧ t.Sound ∧ t.location = s.location ∧
      t.workDir = s.workDir := by
  obtain ⟨source, opened, finished, lines⟩ := readableSource readable
  obtain ⟨events, outcome⟩ := enterSound opened finished sound
  have all : ∀ other ∈ source :: s.sources, other.ending = .finished := by
    intro other member
    rcases List.mem_cons.mp member with rfl | inside
    · exact finished
    · exact sound other inside
  have keeps := foundKeeps s (source :: s.sources)
  have shows := foundShows s (source :: s.sources)
  have front : pending (source :: s.sources) = inner ++ pending s.sources := by
    simp [pending, lines]
  rw [front] at shows
  exact ⟨events, _, outcome, shows, foundSound all, keeps.2, keeps.1⟩

theorem started {files : FileTree} {origin : Origin} {lines : List LogicalLine}
    (readable : origin.lines? files = some lines) (workDir? : Option Text) (s : LineStream) :
    ∃ events t, origin.start files workDir? none s = ⟨events, t, .ok ()⟩ ∧ t.Shows lines ∧
      t.Sound ∧ t.workDir = origin.workDir files workDir? := by
  obtain ⟨source, opened, finished, rfl⟩ := Origin.readableSource readable
  obtain ⟨events, outcome⟩ := Origin.startSound opened finished workDir? s
  have shows := foundShows (empty (origin.workDir files workDir?)) [source]
  rw [pending, List.flatMap_cons, List.flatMap_nil, List.append_nil] at shows
  exact ⟨events, _, outcome, shows, foundSound (by simpa using finished),
    (foundKeeps _ _).1⟩

end LineStream

def LogicalLine.token? (line : LogicalLine) : Option Text :=
  if isInclude line.text then (words line.text)[1]? else none

def LogicalLine.Names (workDir : Text) (line : LogicalLine) (path : Text) : Prop :=
  ∃ token, line.token? = some token ∧ path = Path.normalJoin workDir token

def targets (workDir : Text) (lines : List LogicalLine) : List Text :=
  (lines.filterMap LogicalLine.token?).map (Path.normalJoin workDir)

theorem targetNamed {line : LogicalLine} {lines : List LogicalLine} {workDir path : Text}
    (member : line ∈ lines) (names : line.Names workDir path) : path ∈ targets workDir lines := by
  obtain ⟨token, named, rfl⟩ := names
  exact List.mem_map_of_mem (List.mem_filterMap.mpr ⟨line, member, named⟩)

def FileTree.Includes (files : FileTree) (workDir path other : Text) : Prop :=
  ∃ lines, files.lines? path = some lines ∧ ∃ line ∈ lines, line.Names workDir other

inductive FileTree.Reached (files : FileTree) (workDir : Text) (start : List LogicalLine) :
    Text → Prop where
  | first {line path} (member : line ∈ start) (names : line.Names workDir path) :
      Reached files workDir start path
  | onward {path other} (before : Reached files workDir start path)
      (includes : files.Includes workDir path other) : Reached files workDir start other

def FileTree.tokens (files : FileTree) : List Text :=
  files.entries.flatMap fun
    | (_, .file bytes) =>
      (logicalLines [] 0 0 (Source.fileLines (decodeUtf8 bytes).text)).filterMap LogicalLine.token?
    | (_, .directory) => []

theorem contentAtEntry {files : FileTree} {place : Place} {bytes : List UInt8}
    (content : files.contentAt place = some (.file bytes)) :
    (place, .file bytes) ∈ files.entries := by
  cases place with
  | nil => cases content
  | cons name rest =>
    obtain ⟨before, after, split, _⟩ := List.lookup_eq_some_iff.mp content
    rw [split]
    simp

theorem walkContent {files : FileTree} {here place : Place} {names : List Text} {content : Content}
    (walked : files.walk here names = .ok (place, content)) :
    files.contentAt place = some content := by
  induction names generalizing here with
  | nil =>
    simp only [FileTree.walk] at walked
    split at walked <;> cases walked
    assumption
  | cons name rest ih =>
    simp only [FileTree.walk] at walked
    split at walked <;> try contradiction
    split at walked
    · exact ih walked
    · split at walked
      · exact ih walked
      · split at walked
        · cases walked
        · exact ih walked

theorem openedEntry {files : FileTree} {path : Text} {place : Place} {bytes : List UInt8}
    (opened : files.openFile path = .ok (place, bytes)) : (place, .file bytes) ∈ files.entries := by
  unfold FileTree.openFile at opened
  split at opened <;> cases opened
  rename_i resolved
  unfold FileTree.resolve at resolved
  split at resolved <;> try contradiction
  split at resolved <;> try contradiction
  split at resolved <;> try contradiction
  exact contentAtEntry (walkContent resolved)

theorem tokensAnywhere (path other : Text) (number start taken : Nat) (lines : List Text) :
    (logicalLines path number taken lines).filterMap LogicalLine.token? =
      (logicalLines other start taken lines).filterMap LogicalLine.token? := by
  have through : ∀ found : List LogicalLine, found.filterMap LogicalLine.token? =
      (found.map LogicalLine.text).filterMap fun text =>
        if isInclude text then (words text)[1]? else none := by
    intro found
    rw [List.filterMap_map]
    rfl
  rw [through, through, logicalLinesText path other]

theorem includedToken {files : FileTree} {workDir path other : Text}
    (includes : files.Includes workDir path other) :
    ∃ token ∈ files.tokens, other = Path.normalJoin workDir token := by
  obtain ⟨lines, readable, line, member, token, named, rfl⟩ := includes
  unfold FileTree.lines? at readable
  split at readable <;> try contradiction
  rename_i place bytes opened
  split at readable <;> try contradiction
  cases Option.some.inj readable
  refine ⟨token, List.mem_flatMap.mpr ⟨_, openedEntry opened, ?_⟩, rfl⟩
  simp only
  rw [tokensAnywhere [] path 0 0 0]
  exact List.mem_filterMap.mpr ⟨line, member, named⟩

theorem reachedFinite (files : FileTree) (workDir : Text) (start : List LogicalLine) :
    Finite { path // files.Reached workDir start path } := by
  let all := targets workDir start ++ files.tokens.map (Path.normalJoin workDir)
  have inside : ∀ path, files.Reached workDir start path → path ∈ all := by
    intro path reached
    cases reached with
    | first member names => exact List.mem_append_left _ (targetNamed member names)
    | onward before includes =>
      obtain ⟨token, member, rfl⟩ := includedToken includes
      exact List.mem_append_right _ (List.mem_map_of_mem member)
  exact (all.finite_toSet.subset inside).to_subtype

def FileTree.Acyclic (files : FileTree) (workDir : Text) (start : List LogicalLine) : Prop :=
  ∀ path, files.Reached workDir start path →
    ¬ Relation.TransGen (files.Includes workDir) path path

theorem reachedInduction {files : FileTree} {workDir : Text} {start : List LogicalLine}
    (acyclic : files.Acyclic workDir start) {motive : Text → Prop}
    (step : ∀ path, files.Reached workDir start path →
      (∀ other, files.Includes workDir path other → motive other) → motive path) :
    ∀ path, files.Reached workDir start path → motive path := by
  -- Only finitely many files are reached, and a transitive relation without loops on a finite type
  -- is well-founded.
  let leadsTo : { path // files.Reached workDir start path } →
      { path // files.Reached workDir start path } → Prop :=
    fun other path => Relation.TransGen (files.Includes workDir) path.val other.val
  have finite := reachedFinite files workDir start
  have transitive : IsTrans _ leadsTo := ⟨fun _ _ _ first second => second.trans first⟩
  have irreflexive : Std.Irrefl leadsTo := ⟨fun path loop => acyclic path.val path.property loop⟩
  have wellFounded := Finite.wellFounded_of_trans_of_irrefl leadsTo
  intro path reached
  refine wellFounded.induction (C := fun p => motive p.val) ⟨path, reached⟩ ?_
  intro at' ih
  refine step at'.val at'.property fun other includes => ?_
  exact ih ⟨other, .onward at'.property includes⟩ (.single includes)

end MakeTree
