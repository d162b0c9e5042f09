import MakeTree.Text.Basic

/-! UTF-8, in both directions. Decoding stops at the first byte sequence that is no character
and says where it stands, how many bytes belong to it and what is wrong: the bytes blamed are the
longest start of the sequence that could still have become a character. -/
namespace MakeTree.Text

inductive Utf8Reason where
  | invalidStart
  | invalidContinuation
  | unexpectedEnd
  deriving DecidableEq, Repr

def Utf8Reason.text : Utf8Reason → Text
  | .invalidStart => "invalid start byte".toList
  | .invalidContinuation => "invalid continuation byte".toList
  | .unexpectedEnd => "unexpected end of data".toList

structure Utf8Fault where
  position : Nat
  lead : UInt8
  length : Nat
  reason : Utf8Reason
  deriving DecidableEq, Repr

def byteDigits (b : UInt8) : Text :=
  [Nat.digitChar (b.toNat / 16), Nat.digitChar (b.toNat % 16)]

def Utf8Fault.text (f : Utf8Fault) : Text :=
  (if f.length = 1 then
    "'utf-8' codec can't decode byte 0x".toList ++ byteDigits f.lead ++
      " in position ".toList ++ ofNat f.position
  else
    "'utf-8' codec can't decode bytes in position ".toList ++ ofNat f.position ++
      '-' :: ofNat (f.position + f.length - 1)) ++
  ": ".toList ++ f.reason.text

structure Decoded where
  text : Text
  fault : Option Utf8Fault
  deriving DecidableEq, Repr

def Decoded.cons (code : Nat) (d : Decoded) : Decoded := ⟨Char.ofNat code :: d.text, d.fault⟩

def Decoded.stop (position : Nat) (lead : UInt8) (length : Nat) (reason : Utf8Reason) : Decoded :=
  ⟨[], some ⟨position, lead, length, reason⟩⟩

def isContinuation (b : UInt8) : Bool := 0x80 ≤ b && b < 0xC0

/-- The second bytes allowed after `lead`: none that make an overlong form, a surrogate or a
code point above U+10FFFF. -/
def isSecondByte (lead b : UInt8) : Bool :=
  isContinuation b &&
  (lead != 0xE0 || 0xA0 ≤ b) && (lead != 0xED || b < 0xA0) &&
  (lead != 0xF0 || 0x90 ≤ b) && (lead != 0xF4 || b < 0x90)

def pushBits (code : Nat) (b : UInt8) : Nat := code * 64 + b.toNat % 64

def decodeFrom (position : Nat) : List UInt8 → Decoded
  | [] => ⟨[], none⟩
  | a :: rest =>
    if a < 0x80 then (decodeFrom (position + 1) rest).cons a.toNat
    else if a < 0xC2 || 0xF5 ≤ a then .stop position a 1 .invalidStart
    else match rest with
    | [] => .stop position a 1 .unexpectedEnd
    | b :: rest =>
      if !isSecondByte a b then .stop position a 1 .invalidContinuation
      else if a < 0xE0 then
        (decodeFrom (position + 2) rest).cons (pushBits (a.toNat % 32) b)
      else match rest with
      | [] => .stop position a 2 .unexpectedEnd
      | c :: rest =>
        if !isContinuation c then .stop position a 2 .invalidContinuation
        else if a < 0xF0 then
          (decodeFrom (position + 3) rest).cons (pushBits (pushBits (a.toNat % 16) b) c)
        else match rest with
        | [] => .stop position a 3 .unexpectedEnd
        | d :: rest =>
          if !isContinuation d then .stop position a 3 .invalidContinuation
          else (decodeFrom (position + 4) rest).cons
            (pushBits (pushBits (pushBits (a.toNat % 8) b) c) d)

def decodeUtf8 (bytes : List UInt8) : Decoded := decodeFrom 0 bytes

/-- Whether the fault in `bytes` is one that more bytes might have mended. The first two bytes of a
surrogate count as such where they end the bytes, although no third byte could make them valid. -/
def Utf8Fault.isCutOff (bytes : List UInt8) (f : Utf8Fault) : Bool :=
  f.reason == .unexpectedEnd ||
  f.lead == 0xED && match bytes.drop f.position with
    | [_, b] => isContinuation b
    | _ => false

def continuationByte (code : Nat) : UInt8 := (0x80 + code % 64).toUInt8

def encodeChar (c : Char) : List UInt8 :=
  let n := c.toNat
  if n < 0x80 then [n.toUInt8]
  else if n < 0x800 then [(0xC0 + n / 64).toUInt8, continuationByte n]
  else if n < 0x10000 then
    [(0xE0 + n / 4096).toUInt8, continuationByte (n / 64), continuationByte n]
  else
    [(0xF0 + n / 262144).toUInt8, continuationByte (n / 4096), continuationByte (n / 64),
     continuationByte n]

def encodeUtf8 (t : Text) : List UInt8 := t.flatMap encodeChar

end MakeTree.Text
