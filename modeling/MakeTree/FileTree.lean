import MakeTree.Path
import MakeTree.Text.Utf8

/-! A tree of directories and files held in memory, and path resolution in it. Resolution walks
the components one by one: each step needs a directory to stand in, so a slash after a file is as
wrong as a name below it. A path that holds a null byte is refused before anything is looked for. -/
namespace MakeTree
open Text

inductive Content where
  | directory
  | file (bytes : List UInt8)
  deriving DecidableEq, Repr

inductive AccessError where
  | missing
  | notDirectory
  | isDirectory
  | nameTooLong
  | nullByte
  deriving DecidableEq, Repr

def AccessError.code? : AccessError → Option Nat
  | .missing => some 2
  | .notDirectory => some 20
  | .isDirectory => some 21
  | .nameTooLong => some 36
  | .nullByte => none

def AccessError.text : AccessError → Text
  | .missing => "No such file or directory".toList
  | .notDirectory => "Not a directory".toList
  | .isDirectory => "Is a directory".toList
  | .nameTooLong => "File name too long".toList
  | .nullByte => "embedded null byte".toList

abbrev Place := List Text

/-- The root directory always exists; an entry is found only through directories that are entries
themselves. Of two entries for one place the first counts. -/
structure FileTree where
  workingDirectory : Text
  entries : List (Place × Content)
  deriving DecidableEq, Repr

namespace FileTree

def nameLimit : Nat := 255
def pathLimit : Nat := 4096

def byteLength (t : Text) : Nat := (encodeUtf8 t).length

def contentAt (tree : FileTree) : Place → Option Content
  | [] => some .directory
  | place => tree.entries.lookup place

def walk (tree : FileTree) (here : Place) : List Text → Except AccessError (Place × Content)
  | [] => match tree.contentAt here with
    | some content => .ok (here, content)
    | none => .error .missing
  | name :: rest => match tree.contentAt here with
    | none => .error .missing
    | some (.file _) => .error .notDirectory
    | some .directory =>
      if name = [] ∨ name = ['.'] then walk tree here rest
      else if name = ['.', '.'] then walk tree here.dropLast rest
      else if nameLimit < byteLength name then .error .nameTooLong
      else walk tree (here ++ [name]) rest

def start (tree : FileTree) (path : Text) : Place :=
  if Path.isAbsolute path then []
  else (Path.components tree.workingDirectory).filter (· ≠ [])

def resolve (tree : FileTree) (path : Text) : Except AccessError (Place × Content) :=
  if '\x00' ∈ path then .error .nullByte
  else if path = [] then .error .missing
  else if pathLimit ≤ byteLength path then .error .nameTooLong
  else tree.walk (tree.start path) (Path.components path)

def openFile (tree : FileTree) (path : Text) : Except AccessError (Place × List UInt8) :=
  match tree.resolve path with
  | .error e => .error e
  | .ok (_, .directory) => .error .isDirectory
  | .ok (place, .file bytes) => .ok (place, bytes)

def isDirectory (tree : FileTree) (path : Text) : Bool :=
  match tree.resolve path with
  | .ok (_, .directory) => true
  | _ => false

def isFile (tree : FileTree) (path : Text) : Bool :=
  match tree.resolve path with
  | .ok (_, .file _) => true
  | _ => false

def absolute (tree : FileTree) (path : Text) : Text := Path.absolute tree.workingDirectory path

def insert (tree : FileTree) (place : Place) (content : Content) : FileTree :=
  { tree with entries := (place, content) :: tree.entries.filter (·.1 ≠ place) }

def placeToWrite (tree : FileTree) (path : Text) : Except AccessError Place :=
  match tree.resolve path with
  | .ok (place, .file _) => .ok place
  | .ok (_, .directory) => .error .isDirectory
  | .error .missing =>
    match tree.resolve (Path.parent path) with
    | .ok (place, .directory) => .ok (place ++ [Path.fileName path])
    | .ok (_, .file _) => .error .notDirectory
    | .error e => .error e
  | .error e => .error e

def append (tree : FileTree) (place : Place) (bytes : List UInt8) : FileTree :=
  match tree.contentAt place with
  | some (.file old) => tree.insert place (.file (old ++ bytes))
  | _ => tree.insert place (.file bytes)

end FileTree
end MakeTree
