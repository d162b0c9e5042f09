import MakeTree.CommandLine.Command

/-! The program itself: the command on the files of the machine. The command is a function of a
tree of files and of a number of steps, so it is run again with more of the machine's files until it
asks for no new ones, and with more steps until they suffice. -/
namespace MakeTree.CommandLine

def loadPath (tree : FileTree) (path : Text) : IO FileTree := do
  let here ← IO.currentDir
  let names := (Path.components path).filter (· ≠ [])
  let mut tree := tree
  for n in List.range (names.length + 1) do
    let place := names.take n
    let file := here / String.ofList ('/' :: Text.joinWith ['/'] place)
    if ← file.isDir then
      tree := tree.insert place .directory
    else if ← file.pathExists then
      tree := tree.insert place (.file (← IO.FS.readBinFile file).toList)
  return tree

partial def runOnMachine (fuel : Nat) (tree : FileTree) (seen arguments : List Text) : IO Run := do
  let run := run fuel tree tree.workingDirectory arguments
  let asked := run.lookups.filter (· ∉ seen)
  if asked = [] then
    if run.exit = .unfinished then runOnMachine (2 * fuel) tree seen arguments
    else return run
  else
    let mut tree := tree
    for path in asked do
      tree ← loadPath tree path
    runOnMachine fuel tree (seen ++ asked) arguments

def write (run : Run) : IO UInt32 := do
  let errors ← IO.getStderr
  IO.print (String.ofList run.output)
  errors.putStr (String.ofList run.complaint)
  match run.logPath with
  | some path =>
    let log ← IO.FS.Handle.mk (String.ofList path) .append
    log.putStr (String.ofList run.log)
  | none => errors.putStr (String.ofList run.log)
  match run.exit with
  | .returned => return (run.codes.getLast?.getD 0).toUInt32
  | .leftEarly code => return code.toUInt32
  | .raised failure =>
    errors.putStrLn (String.ofList failure.message)
    return 1
  | .unfinished => return 1
  | .noLog path reason =>
    errors.putStrLn (String.ofList (logErrorText path reason))
    return 1

end MakeTree.CommandLine

open MakeTree CommandLine in
def main (arguments : List String) : IO UInt32 := do
  let here := (← IO.currentDir).toString.toList
  write (← runOnMachine 1024 ⟨here, []⟩ [] (arguments.map (·.toList)))
