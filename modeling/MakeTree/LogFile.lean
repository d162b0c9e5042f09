import MakeTree.Journal

/-! The file that messages are added to as they are written, with what a run has added to it. It may
be one of the files being read: then a reader that has come to its end finds there what has been
written since. Messages may also go where no reader finds them; then there is no log. -/
namespace MakeTree
open Text

structure LogFile where
  place : Place
  least : Level
  written : Text
  deriving DecidableEq, Repr

abbrev Log := Option LogFile

def LogFile.record (l : LogFile) : List Event → LogFile
  | [] => l
  | events => { l with written := l.written ++ logText l.least events }

namespace Log

def record (log : Log) (events : List Event) : Log := log.map (·.record events)

def addedTo (log : Log) (place : Place) : Text :=
  match log with
  | none => []
  | some l => if l.place = place then l.written else []

end Log
end MakeTree
