/-! Texts as lists of characters, and the few ways of cutting them that makefiles need. Every
cut keeps what it does not name: `splitLines`, `splitOn` and `splitChain` only remove the
separators. -/
namespace MakeTree

abbrev Text := List Char

namespace Text

def inRanges : List (Nat × Nat) → Nat → Bool
  | [], _ => false
  | (lo, hi) :: rest, n => if n < lo then false else decide (n ≤ hi) || inRanges rest n

def dropWhileEnd (p : Char → Bool) (t : Text) : Text := (t.reverse.dropWhile p).reverse

def startsWith (lead t : Text) : Bool := lead.isPrefixOf t

def endsWithChar (c : Char) (t : Text) : Bool := t.getLast? == some c

def cutAt (c : Char) : Text → Text × Option Text
  | [] => ([], none)
  | d :: rest =>
    if d = c then ([], some rest)
    else let (before, after) := cutAt c rest; (d :: before, after)

def splitOn (c : Char) : Text → List Text
  | [] => [[]]
  | d :: rest =>
    if d = c then [] :: splitOn c rest
    else match splitOn c rest with
      | [] => [[d]]
      | piece :: pieces => (d :: piece) :: pieces

/-- Occurrences of `&&` are met from left to right, so a third `&` belongs to the next piece. -/
def splitChain : Text → List Text
  | [] => [[]]
  | '&' :: '&' :: rest => [] :: splitChain rest
  | c :: rest => match splitChain rest with
    | [] => [[c]]
    | piece :: pieces => (c :: piece) :: pieces

def splitLines : Text → List Text
  | [] => []
  | c :: rest =>
    if c = '\n' then [] :: splitLines rest
    else match splitLines rest with
      | [] => [[c]]
      | line :: lines => (c :: line) :: lines

def joinWith (sep : Text) : List Text → Text
  | [] => []
  | [t] => t
  | t :: rest => t ++ sep ++ joinWith sep rest

def ofNat (n : Nat) : Text := Nat.toDigits 10 n

def ofInt : Int → Text
  | .ofNat n => ofNat n
  | .negSucc n => '-' :: ofNat (n + 1)

end Text
end MakeTree
