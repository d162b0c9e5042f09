import MakeTree.Action
import MakeTree.Line.Joined

/-! The logical lines of a makefile and of everything it includes, read from a stack of sources.
An included source stands in front of what is left of the including one. The stream holds the next
line ahead of time, except after a line that names a file to include: then the next line is known
only once the file has been opened. -/
namespace MakeTree
open Text

structure LineStream where
  workDir : Text
  sources : List Source
  eof : Bool
  next : Text
  nextLocation : Option Location
  location : Option Location
  deriving DecidableEq, Repr

namespace LineStream

def onSource {α : Type} (source : Source) (below : List Source) (x : Action Source α) :
    Action LineStream α :=
  Action.into source (fun source s => { s with sources := source :: below }) x

/-- The innermost of the sources that has a line left gives the next line; exhausted sources are put
away. A failure leaves the next line as it was, but not the location noted for it if it was met
inside a line. -/
def findLine : List Source → Action LineStream Unit
  | [] => do
    let s ← Action.state
    Action.setState { s with sources := [], eof := true, next := [], nextLocation := none }
  | source :: below => do
    let (first, source) ← onSource source below do
      Source.skipBlank
      let first ← Source.readLine
      return (first, ← Action.state)
    match first with
    | none =>
      Action.emit (.debug .stream
        ("Finished reading makefile '".toList ++ source.path ++ ['\'']))
      findLine below
    | some line =>
      let s ← Action.state
      Action.setState { s with nextLocation := some ⟨source.path, source.lineNumber⟩ }
      let text ← onSource source below (Source.join line)
      let s ← Action.state
      Action.setState { s with eof := false, next := text }

def advance : Action LineStream Unit := do findLine (← Action.state).sources

def currentFile? (s : LineStream) : Option Text := s.sources.head?.map (·.path)

def peek : Action LineStream Text := do
  Action.emit .peeked
  return (← Action.state).next

def atEnd : Action LineStream Bool := do
  Action.emit .peeked
  return (← Action.state).eof

/-- Take the next line. With `deferred` the stream does not move on: the line names a file that is
to be included first. -/
def take (deferred : Bool) : Action LineStream Text := do
  Action.emit (.took !deferred)
  let s ← Action.state
  Action.setState { s with location := s.nextLocation }
  if !deferred then advance
  return s.next

def push (files : FileTree) (path : Text) : Action LineStream Unit := do
  Action.emit (.lookedUp path)
  match files.openFile path with
  | .error reason => Action.fail (.ofAccess path (← Action.state).location reason)
  | .ok (place, bytes) =>
    Action.emit (.debug .stream ("Reading makefile '".toList ++ path ++ ['\'']))
    let source := Source.ofFile path place bytes ((← Action.log).addedTo place)
    let s ← Action.state
    Action.setState { s with sources := source :: s.sources }

def enter (files : FileTree) (path : Text) : Action LineStream Unit := do
  let s ← Action.state
  let path := Path.normalJoin s.workDir path
  Action.emit (.included path)
  push files path
  advance

def empty (workDir : Text) : LineStream := ⟨workDir, [], false, [], none, none⟩

def workDirFor (files : FileTree) (path : Text) (workDir? : Option Text) : Text :=
  workDir?.getD (Path.parent (files.absolute path))

def startFile (files : FileTree) (path : Text) (workDir? : Option Text) :
    Action LineStream Unit := do
  Action.setState (empty (workDirFor files path workDir?))
  push files path
  advance

def startText (files : FileTree) (path text : Text) (workDir? : Option Text) :
    Action LineStream Unit := do
  Action.setState { empty (workDirFor files path workDir?) with
    sources := [Source.ofText path text] }
  advance

end LineStream
end MakeTree
