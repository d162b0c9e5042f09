import MakeTree.Text.Basic

/-! Paths as texts, by the POSIX rules. Normalizing removes empty and `.` components and lets each
`..` cancel the name before it; exactly two leading slashes are a root of their own. Nothing here
asks a file system. -/
namespace MakeTree.Path
open Text

def rootSlashes : Text → Nat
  | '/' :: '/' :: '/' :: _ => 1
  | '/' :: '/' :: _ => 2
  | '/' :: _ => 1
  | _ => 0

def isAbsolute (path : Text) : Bool := startsWith ['/'] path

def components (path : Text) : List Text := splitOn '/' path

def descend (absolute : Bool) (done : List Text) (name : Text) : List Text :=
  if name = [] ∨ name = ['.'] then done
  else if name = ['.', '.'] then
    match done with
    | [] => if absolute then [] else [name]
    | last :: before => if last = ['.', '.'] then name :: done else before
  else name :: done

def render (slashes : Nat) (names : List Text) : Text :=
  let path := List.replicate slashes '/' ++ joinWith ['/'] names
  if path = [] then ['.'] else path

def normalize (path : Text) : Text :=
  let slashes := rootSlashes path
  render slashes ((components path).foldl (descend (slashes != 0)) []).reverse

def join (path suffix : Text) : Text :=
  if isAbsolute suffix then suffix
  else if path = [] ∨ endsWithChar '/' path then path ++ suffix
  else path ++ '/' :: suffix

def normalJoin (path suffix : Text) : Text := normalize (join path suffix)

def absolute (base path : Text) : Text :=
  normalize (if isAbsolute path then path else join base path)

def parent (path : Text) : Text :=
  let head := dropWhileEnd (· != '/') path
  if head.all (· == '/') then head else dropWhileEnd (· == '/') head

def fileName (path : Text) : Text := (path.reverse.takeWhile (· != '/')).reverse

def relativeTo? (path root : Text) : Option Text :=
  let path := normalize path
  let root := normalize root
  if path = root then some ['.']
  else
    let lead := if endsWithChar '/' root then root else root ++ ['/']
    if startsWith lead path then some (path.drop lead.length) else none

end MakeTree.Path
