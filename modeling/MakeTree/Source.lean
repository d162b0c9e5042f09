import MakeTree.Action

/-! A makefile that has been opened and partly read: the physical lines still to come and how they
end. Bytes become lines with every kind of newline; a text given directly is cut at line feeds
alone. Carriage returns at the end of a line belong to its ending. Bytes that are no text are a fault
behind the lines before them: one that is met once, and reading goes on behind the spoilt block, or a
character that the end of the bytes cuts off, which is met every time. A file that is the log of the
run itself grows while it is read; the feed of a source says what it has heard of that. -/
namespace MakeTree
open Text

inductive Ending where
  | finished
  | faulty (fault : Utf8Fault) (rest : List UInt8)
  | truncated (fault : Utf8Fault) (bytes : List UInt8)
  deriving DecidableEq, Repr

structure Feed where
  place : Place
  heard : Nat
  unended : Bool
  deriving DecidableEq, Repr

structure Source where
  path : Text
  lines : List Text
  lineNumber : Nat
  ending : Ending
  feed : Option Feed
  deriving DecidableEq, Repr

namespace Source

def withoutReturn (line : Text) : Text := dropWhileEnd (fun c => c == '\r' || c == '\n') line

def textLines (text : Text) : List Text := (splitLines text).map withoutReturn

def unifyNewlines : Text → Text
  | [] => []
  | '\r' :: '\n' :: rest => '\n' :: unifyNewlines rest
  | c :: rest => (if c = '\r' then '\n' else c) :: unifyNewlines rest

def fileLines (text : Text) : List Text := splitLines (unifyNewlines text)

def completeLines (text : Text) : List Text := splitLines (dropWhileEnd (· != '\n') text)

def isUnended (text : Text) : Bool := !endsWithChar '\n' text && !endsWithChar '\r' text

def ofText (path text : Text) : Source := ⟨path, textLines text, 0, .finished, none⟩

def blockSize : Nat := 8192

/-- A fault within the first 8192 bytes is met by the first attempt to read, and spoils their block.
It would take longer to come to one behind them; here that is met first as well. A character cut off at
the end is met where reading reaches its line; a carriage return right before it ends no line yet, for
it could be half of a line ending. -/
def ofBytes (path : Text) (bytes : List UInt8) : Source :=
  let decoded := decodeUtf8 bytes
  match decoded.fault with
  | none => ⟨path, fileLines decoded.text, 0, .finished, none⟩
  | some fault =>
    if fault.isCutOff bytes then
      let settled :=
        if endsWithChar '\r' decoded.text then decoded.text.dropLast else decoded.text
      ⟨path, completeLines (unifyNewlines settled), 0,
        .truncated { fault with position := 0 } (bytes.drop fault.position), none⟩
    else ⟨path, [], 0, .faulty fault (bytes.drop blockSize), none⟩

def ofFile (path : Text) (place : Place) (bytes : List UInt8) (added : Text) : Source :=
  let bytes := bytes ++ encodeUtf8 added
  { ofBytes path bytes with
    feed := some ⟨place, added.length, isUnended (decodeUtf8 bytes).text⟩ }

def glue : List Text → List Text → List Text
  | [last], line :: rest => (last ++ line) :: rest
  | [], lines => lines
  | line :: rest, lines => line :: glue rest lines

def hear (s : Source) (feed : Feed) (added : Text) : Source :=
  match added.drop feed.heard with
  | [] => s
  | c :: rest =>
    let fresh := c :: rest
    let s := { s with feed := some { feed with
      heard := added.length
      unended := isUnended fresh } }
    match s.ending with
    | .finished =>
      let lines := fileLines fresh
      { s with lines := if feed.unended then glue s.lines lines else s.lines ++ lines }
    | .faulty .. => s
    | .truncated fault bytes =>
      let fault := (decodeUtf8 (bytes ++ encodeUtf8 fresh)).fault.getD fault
      { s with ending := .truncated fault bytes }

def grow (s : Source) : Log → Source
  | none => s
  | some l => match s.feed with
    | none => s
    | some feed => s.hear feed (Log.addedTo (some l) feed.place)

def readLine : Action Source (Option Text) := fun log s =>
  let s := s.grow log
  let fail (s : Source) (fault : Utf8Fault) : Outcome Source (Option Text) :=
    ⟨[], s, .error ⟨.undecodable fault, some ⟨s.path, s.lineNumber + 1⟩⟩⟩
  match s.lines with
  | line :: rest => ⟨[], { s with lines := rest, lineNumber := s.lineNumber + 1 }, .ok (some line)⟩
  | [] => match s.ending with
    | .finished => ⟨[], s, .ok none⟩
    | .faulty fault rest =>
      fail { ofBytes s.path rest with lineNumber := s.lineNumber, feed := s.feed } fault
    | .truncated fault _ => fail s fault

def skipBlank : Action Source Unit := fun log s =>
  let s := s.grow log
  ⟨[], { s with
    lines := s.lines.dropWhile allBlank
    lineNumber := s.lineNumber + (s.lines.takeWhile allBlank).length }, .ok ()⟩

end Source
end MakeTree
