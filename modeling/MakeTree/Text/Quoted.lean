import MakeTree.Text.Printable

/-! Quoted text. The quote is `'`, unless the text holds `'` and no `"`. A backslash, the quote
itself and the three common controls are escaped by a backslash; every other character that may
not be shown is written by its code point in two, four or eight lower-case hexadecimal digits. -/
namespace MakeTree.Text

def hexDigits : Nat → Nat → Text
  | 0, _ => []
  | width + 1, n => hexDigits width (n / 16) ++ [Nat.digitChar (n % 16)]

def escapeCodePoint (n : Nat) : Text :=
  if n < 0x100 then '\\' :: 'x' :: hexDigits 2 n
  else if n < 0x10000 then '\\' :: 'u' :: hexDigits 4 n
  else '\\' :: 'U' :: hexDigits 8 n

def quoteChar (printable : Char → Bool) (quote c : Char) : Text :=
  if c = quote ∨ c = '\\' then ['\\', c]
  else if c = '\n' then ['\\', 'n']
  else if c = '\r' then ['\\', 'r']
  else if c = '\t' then ['\\', 't']
  else if printable c then [c]
  else escapeCodePoint c.toNat

def quoteFor (t : Text) : Char := if '\'' ∈ t ∧ '"' ∉ t then '"' else '\''

def quotedWith (printable : Char → Bool) (t : Text) : Text :=
  let quote := quoteFor t
  quote :: t.flatMap (quoteChar printable quote) ++ [quote]

def quoted (t : Text) : Text := quotedWith isPrintable t

def quotedListWith (printable : Char → Bool) (ts : List Text) : Text :=
  '[' :: joinWith [',', ' '] (ts.map (quotedWith printable)) ++ [']']

def quotedList (ts : List Text) : Text := quotedListWith isPrintable ts

end MakeTree.Text
