import MakeTree.Text.Basic

/-! Blank characters, and cutting texts into words at them. The set is the one every makefile
rule here means by white space: ASCII blanks, the four ASCII separators, and the Unicode spaces
and line separators. Zero-width characters and the byte order mark are not blank. -/
namespace MakeTree.Text

def blankRanges : List (Nat × Nat) :=
  [(0x9, 0xD), (0x1C, 0x20), (0x85, 0x85), (0xA0, 0xA0), (0x1680, 0x1680), (0x2000, 0x200A),
   (0x2028, 0x2029), (0x202F, 0x202F), (0x205F, 0x205F), (0x3000, 0x3000)]

def isBlank (c : Char) : Bool := inRanges blankRanges c.toNat

def trimLeft (t : Text) : Text := t.dropWhile isBlank

def trimRight (t : Text) : Text := dropWhileEnd isBlank t

def trim (t : Text) : Text := trimRight (trimLeft t)

def allBlank (t : Text) : Bool := t.all isBlank

def words : Text → List Text
  | [] => []
  | c :: rest =>
    if isBlank c then words rest
    else match rest with
      | [] => [[c]]
      | d :: _ =>
        if isBlank d then [c] :: words rest
        else match words rest with
          | [] => [[c]]
          | word :: others => (c :: word) :: others

def firstWord (t : Text) : Text := (trimLeft t).takeWhile (!isBlank ·)

def afterFirstWord (t : Text) : Text := trimLeft ((trimLeft t).dropWhile (!isBlank ·))

end MakeTree.Text
