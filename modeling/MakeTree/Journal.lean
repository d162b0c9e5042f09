import MakeTree.Failure
import MakeTree.Variables

/-! What reading a makefile does besides its result, as a list of events in the order they happen:
messages, the calls that change variables, and the questions put to the line stream and to the file
tree. The command adds what it prints and the codes it reports. Events keep account of a run also
where it fails: replaying its calls gives the variables as they were then. -/
namespace MakeTree
open Text

inductive Level where
  | debug
  | info
  | warning
  deriving DecidableEq, Repr

def Level.name : Level → Text
  | .debug => "DEBUG".toList
  | .info => "INFO".toList
  | .warning => "WARNING".toList

def Level.rank : Level → Nat
  | .debug => 0
  | .info => 1
  | .warning => 2

inductive Channel where
  | data
  | execution
  | parser
  | stream
  deriving DecidableEq, Repr

def Channel.name : Channel → Text
  | .data => "mkast.data".toList
  | .execution => "mkast.execution".toList
  | .parser => "mkast.parser".toList
  | .stream => "mkast.stream".toList

structure Message where
  level : Level
  channel : Channel
  text : Text
  deriving DecidableEq, Repr

inductive Event where
  | told (message : Message)
  | assigned (raw value : Text)
  | unassigned (name : Text)
  | peeked
  | took (advanced : Bool)
  | included (path : Text)
  | lookedUp (path : Text)
  | printed (text : Text)
  | reported (code : Nat)
  deriving DecidableEq, Repr

namespace Event

def debug (channel : Channel) (text : Text) : Event := .told ⟨.debug, channel, text⟩
def info (channel : Channel) (text : Text) : Event := .told ⟨.info, channel, text⟩
def warning (channel : Channel) (text : Text) : Event := .told ⟨.warning, channel, text⟩

def remark (level : Level) (location : Option Location) (text : Text) : Event :=
  .told ⟨level, .parser, Location.textOrNone location ++ ": ".toList ++ text⟩

def apply (vars : Variables) : Event → Variables
  | .assigned raw value => vars.set raw value
  | .unassigned name => vars.unset name
  | _ => vars

def message? : Event → Option Message
  | .told message => some message
  | _ => none

end Event

def replay (vars : Variables) (events : List Event) : Variables := events.foldl Event.apply vars

def messagesFrom (least : Level) (events : List Event) : List Message :=
  (events.filterMap Event.message?).filter fun m => decide (least.rank ≤ m.level.rank)

def Message.line (m : Message) : Text :=
  m.level.name ++ ':' :: m.channel.name ++ ':' :: m.text ++ ['\n']

def logText (least : Level) (events : List Event) : Text :=
  (messagesFrom least events).flatMap Message.line

def printedText (events : List Event) : Text :=
  events.flatMap fun
    | .printed text => text
    | _ => []

def reportedCodes (events : List Event) : List Nat :=
  events.filterMap fun
    | .reported code => some code
    | _ => none

def askedPaths (events : List Event) : List Text :=
  events.filterMap fun
    | .lookedUp path => some path
    | _ => none

end MakeTree
