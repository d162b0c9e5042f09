import MakeTree.Line.Joined
import MakeTree.Proofs.Unlogged

/-! The logical lines of a list of physical lines, without any reader: blank lines are passed over,
and a line ending in a backslash takes in the lines that `continued` says. A source delivers these
lines one by one; only a fault behind its last physical line can stop it. -/
namespace MakeTree
open Text

structure LogicalLine where
  text : Text
  location : Location
  deriving DecidableEq, Repr

structure Continued where
  text : Text
  length : Nat
  cut : Bool
  deriving DecidableEq, Repr

def continued : List Text → Continued
  | [] => ⟨[], 0, true⟩
  | line :: rest =>
    let more := continued rest
    if allBlank line then ⟨[], 1, false⟩
    else if isComment line then ⟨more.text, more.length + 1, more.cut⟩
    else if isContinued line then ⟨trim (line.dropLast ++ more.text), more.length + 1, more.cut⟩
    else ⟨trim line, 1, false⟩

def joined (line : Text) (rest : List Text) : Continued :=
  if isComment line || !isContinued line then ⟨line, 0, false⟩
  else ⟨line.dropLast ++ (continued rest).text, (continued rest).length, (continued rest).cut⟩

def logicalLines (path : Text) : Nat → Nat → List Text → List LogicalLine
  | _, _, [] => []
  | number, taken + 1, _ :: rest => logicalLines path (number + 1) taken rest
  | number, 0, line :: rest =>
    if allBlank line then logicalLines path (number + 1) 0 rest
    else ⟨(joined line rest).text, ⟨path, number + 1⟩⟩ ::
      logicalLines path (number + 1) (joined line rest).length rest

theorem continuedLength (lines : List Text) : (continued lines).length ≤ lines.length := by
  induction lines with
  | nil => simp [continued]
  | cons line rest ih =>
    simp only [continued, List.length_cons]
    split
    · exact Nat.succ_le_succ (Nat.zero_le _)
    · split
      · exact Nat.succ_le_succ ih
      · split
        · exact Nat.succ_le_succ ih
        · exact Nat.succ_le_succ (Nat.zero_le _)

theorem joinedLength (line : Text) (rest : List Text) :
    (joined line rest).length ≤ rest.length := by
  unfold joined
  split
  · exact Nat.zero_le _
  · exact continuedLength rest

theorem logicalLinesTaken (path : Text) (number taken : Nat) (lines : List Text)
    (inside : taken ≤ lines.length) :
    logicalLines path number taken lines =
      logicalLines path (number + taken) 0 (lines.drop taken) := by
  induction lines generalizing number taken with
  | nil =>
    have none : taken = 0 := by simpa using inside
    subst none
    rfl
  | cons line rest ih =>
    cases taken with
    | zero => rfl
    | succ taken =>
      simp only [logicalLines, List.drop_succ_cons]
      rw [ih (number + 1) taken (by simpa using inside)]
      congr 1
      omega

theorem logicalLinesBlank (path : Text) (number : Nat) (lines : List Text) :
    logicalLines path number 0 lines =
      logicalLines path (number + (lines.takeWhile allBlank).length) 0
        (lines.dropWhile allBlank) := by
  induction lines generalizing number with
  | nil => rfl
  | cons line rest ih =>
    by_cases blank : allBlank line
    · simp only [logicalLines, blank, if_true, List.takeWhile_cons_of_pos,
        List.dropWhile_cons_of_pos, List.length_cons]
      rw [ih]
      congr 1
      omega
    · simp [blank]

theorem logicalLinesCons (path : Text) (number : Nat) (line : Text) (rest : List Text)
    (solid : allBlank line = false) :
    logicalLines path number 0 (line :: rest) =
      ⟨(joined line rest).text, ⟨path, number + 1⟩⟩ ::
        logicalLines path (number + 1 + (joined line rest).length) 0
          (rest.drop (joined line rest).length) := by
  rw [logicalLines, if_neg (by simp [solid]), logicalLinesTaken _ _ _ _ (joinedLength line rest)]

theorem logicalLinesText (path other : Text) (number start taken : Nat) (lines : List Text) :
    (logicalLines path number taken lines).map LogicalLine.text =
      (logicalLines other start taken lines).map LogicalLine.text := by
  induction lines generalizing number start taken with
  | nil => rfl
  | cons line rest ih =>
    cases taken with
    | succ taken => exact ih _ _ _
    | zero =>
      simp only [logicalLines]
      split
      · exact ih _ _ _
      · simp [ih (number + 1) (start + 1)]

namespace Source

def past (s : Source) (count : Nat) : Source :=
  { s with lines := s.lines.drop count, lineNumber := s.lineNumber + count }

def remaining (s : Source) : List LogicalLine := logicalLines s.path s.lineNumber 0 s.lines

@[simp] theorem pastPath (s : Source) (count : Nat) : (s.past count).path = s.path := rfl

@[simp] theorem pastLines (s : Source) (count : Nat) :
    (s.past count).lines = s.lines.drop count := rfl

@[simp] theorem pastNumber (s : Source) (count : Nat) :
    (s.past count).lineNumber = s.lineNumber + count := rfl

theorem pastPast (s : Source) (count more : Nat) :
    (s.past count).past more = s.past (count + more) := by
  simp [past, Nat.add_assoc]

inductive Reads {α : Type} (s : Source) (count : Nat) (cut : Bool) (a : α) :
    Outcome Source α → Prop where
  | whole {events} (messages : OnlyTold events) (sound : cut = true → s.ending = .finished) :
      Reads s count cut a ⟨events, s.past count, .ok a⟩
  | broken {events t fault location} (messages : OnlyTold events) (short : cut = true)
      (unsound : s.ending ≠ .finished) :
      Reads s count cut a ⟨events, t, .error ⟨.undecodable fault, some location⟩⟩

theorem readLineCons {s : Source} {line : Text} {rest : List Text}
    (lines : s.lines = line :: rest) : readLine none s = ⟨[], s.past 1, .ok (some line)⟩ := by
  simp [readLine, grow, lines, past]

theorem readLineNil {s : Source} (lines : s.lines = []) :
    s.ending = .finished ∧ readLine none s = ⟨[], s, .ok none⟩ ∨
    s.ending ≠ .finished ∧ ∃ t fault location,
      readLine none s = ⟨[], t, .error ⟨.undecodable fault, some location⟩⟩ := by
  cases ending : s.ending with
  | finished => exact .inl ⟨rfl, by simp [readLine, grow, lines, ending]⟩
  | faulty fault rest => simp [readLine, grow, lines, ending]
  | truncated fault bytes => simp [readLine, grow, lines, ending]

theorem Reads.map {α β : Type} {s : Source} {x : Action Source α} {count : Nat} {cut : Bool} {a : α}
    (reads : s.Reads count cut a (x none s)) (f : α → β) :
    s.Reads count cut (f a) ((do return f (← x)) none s) := by
  generalize outcome : x none s = o at reads
  cases reads with
  | @whole events messages sound =>
    rw [Action.bindReturned outcome]
    simpa using Reads.whole (a := f a) messages sound
  | broken messages short unsound =>
    rw [Action.bindFailed outcome]
    exact .broken messages short unsound

theorem Reads.behind {α : Type} {s : Source} {count : Nat} {cut : Bool} {a : α}
    {o : Outcome Source α} (rest : (s.past 1).Reads count cut a o) {told : List Event}
    (messages : OnlyTold told) :
    s.Reads (count + 1) cut a (o.behind told) := by
  cases rest with
  | whole only sound =>
    rw [pastPast, Nat.add_comm]
    exact .whole (onlyToldAppend messages only) sound
  | broken only short unsound => exact .broken (onlyToldAppend messages only) short unsound

theorem continuationReads (fuel : Nat) (s : Source) (enough : s.lines.length < fuel) :
    s.Reads (continued s.lines).length (continued s.lines).cut (continued s.lines).text
      (continuation fuel none s) := by
  induction fuel generalizing s with
  | zero => omega
  | succ fuel ih =>
    cases lines : s.lines with
    | nil =>
      rcases readLineNil lines with ⟨sound, outcome⟩ | ⟨unsound, t, fault, location, outcome⟩
      · rw [continuation, Action.bindSilent outcome]
        exact .whole onlyToldNil (fun _ => sound)
      · rw [continuation, Action.bindFailed outcome]
        exact .broken onlyToldNil rfl unsound
    | cons line rest =>
      have shorter : (s.past 1).lines = rest := by simp [lines]
      have fewer : (s.past 1).lines.length < fuel := by
        rw [shorter]
        simp only [lines, List.length_cons] at enough
        omega
      have more := ih (s.past 1) fewer
      rw [shorter] at more
      rw [continuation, Action.bindSilent (readLineCons lines)]
      simp only [continued]
      split
      · exact .whole onlyToldNil (by simp)
      · split
        · exact more.behind (onlyToldCons onlyToldNil)
        · split
          · exact (more.map fun tail => trim (line.dropLast ++ tail)).behind onlyToldNil
          · exact .whole onlyToldNil (by simp)

theorem joinReads (s : Source) (line : Text) :
    s.Reads (joined line s.lines).length (joined line s.lines).cut (joined line s.lines).text
      (join line none s) := by
  unfold joined join
  split
  · exact .whole onlyToldNil (by simp)
  · have more := continuationReads (2 * s.lines.length + 2) s (by omega)
    exact more.map fun tail => line.dropLast ++ tail

end Source
end MakeTree
