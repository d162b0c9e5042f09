import Mathlib.Data.Nat.Basic
import MakeTree.Text.Utf8

/-! UTF-8 as a grammar: which bytes spell a character. Encoding writes what the grammar says, decoding
reads that and nothing else; so it meets a fault exactly where bytes are the encoding of no text. -/
namespace MakeTree.Text

inductive Spells : List UInt8 → Nat → Prop where
  | one {a : UInt8} (lead : a.toNat < 0x80) : Spells [a] a.toNat
  | two {a b : UInt8} (lead : 0xC2 ≤ a.toNat ∧ a.toNat < 0xE0) (second : isSecondByte a b = true) :
      Spells [a, b] (pushBits (a.toNat % 32) b)
  | three {a b c : UInt8} (lead : 0xE0 ≤ a.toNat ∧ a.toNat < 0xF0)
      (second : isSecondByte a b = true) (third : isContinuation c = true) :
      Spells [a, b, c] (pushBits (pushBits (a.toNat % 16) b) c)
  | four {a b c d : UInt8} (lead : 0xF0 ≤ a.toNat ∧ a.toNat < 0xF5)
      (second : isSecondByte a b = true) (third : isContinuation c = true)
      (fourth : isContinuation d = true) :
      Spells [a, b, c, d] (pushBits (pushBits (pushBits (a.toNat % 8) b) c) d)

theorem continuationBounds (b : UInt8) :
    isContinuation b = true ↔ 0x80 ≤ b.toNat ∧ b.toNat < 0xC0 := by
  simp [isContinuation, UInt8.le_iff_toNat_le, UInt8.lt_iff_toNat_lt]

theorem secondBounds (a b : UInt8) :
    isSecondByte a b = true ↔ (0x80 ≤ b.toNat ∧ b.toNat < 0xC0) ∧
      (a.toNat = 0xE0 → 0xA0 ≤ b.toNat) ∧ (a.toNat = 0xED → b.toNat < 0xA0) ∧
      (a.toNat = 0xF0 → 0x90 ≤ b.toNat) ∧ (a.toNat = 0xF4 → b.toNat < 0x90) := by
  have same (n : UInt8) : (a != n) = true ↔ a.toNat ≠ n.toNat := by
    rw [bne_iff_ne, ne_eq, ne_eq, UInt8.toNat_inj]
  simp only [isSecondByte, Bool.and_eq_true, Bool.or_eq_true, continuationBounds, same,
    decide_eq_true_eq, UInt8.le_iff_toNat_le, UInt8.lt_iff_toNat_lt, and_assoc]
  simp only [UInt8.toNat_ofNat]
  grind

theorem decodeSpelled {unit : List UInt8} {code : Nat} (spells : Spells unit code)
    (position : Nat) (rest : List UInt8) :
    decodeFrom position (unit ++ rest) = (decodeFrom (position + unit.length) rest).cons code := by
  cases spells with
  | one lead =>
    have small : _ < (0x80 : UInt8) := UInt8.lt_iff_toNat_lt.mpr lead
    rw [List.singleton_append, decodeFrom.eq_def]
    simp [small]
  | @two a b lead second =>
    have bounds : ¬a < 0x80 ∧ ¬a < 0xC2 ∧ ¬0xF5 ≤ a ∧ a < 0xE0 := by
      simp [UInt8.le_iff_toNat_le, UInt8.lt_iff_toNat_lt]
      omega
    rw [List.cons_append, List.singleton_append, decodeFrom.eq_def]
    simp [bounds, second]
  | @three a b c lead second third =>
    have bounds : ¬a < 0x80 ∧ ¬a < 0xC2 ∧ ¬0xF5 ≤ a ∧ ¬a < 0xE0 ∧ a < 0xF0 := by
      simp [UInt8.le_iff_toNat_le, UInt8.lt_iff_toNat_lt]
      omega
    rw [List.cons_append, List.cons_append, List.singleton_append, decodeFrom.eq_def]
    simp [bounds, second, third]
  | @four a b c d lead second third fourth =>
    have bounds : ¬a < 0x80 ∧ ¬a < 0xC2 ∧ ¬0xF5 ≤ a ∧ ¬a < 0xE0 ∧ ¬a < 0xF0 := by
      simp [UInt8.le_iff_toNat_le, UInt8.lt_iff_toNat_lt]
      omega
    rw [List.cons_append, List.cons_append, List.cons_append, List.singleton_append, decodeFrom.eq_def]
    simp [bounds, second, third, fourth]

theorem byteToNat {n : Nat} (small : n < 256) : n.toUInt8.toNat = n := by
  rw [Nat.toUInt8, UInt8.toNat_ofNat', Nat.mod_eq_of_lt small]

theorem continuationToNat (code : Nat) : (continuationByte code).toNat = 0x80 + code % 64 :=
  byteToNat (by omega)

theorem continuationFollows (code : Nat) : isContinuation (continuationByte code) = true := by
  rw [continuationBounds, continuationToNat]
  omega

theorem pushContinuation (code : Nat) : pushBits (code / 64) (continuationByte code) = code := by
  rw [pushBits, continuationToNat]
  omega

theorem encodeSpells (c : Char) : Spells (encodeChar c) c.toNat := by
  have valid : c.toNat < 0xD800 ∨ 0xDFFF < c.toNat ∧ c.toNat < 0x110000 := c.valid
  unfold encodeChar
  generalize c.toNat = n at valid
  simp only
  split
  · rename_i ascii
    have same : n.toUInt8.toNat = n := byteToNat (by omega)
    have spells := Spells.one (a := n.toUInt8) (by omega)
    rwa [same] at spells
  split
  · have lead : (0xC0 + n / 64).toUInt8.toNat = 0xC0 + n / 64 := byteToNat (by omega)
    have spells := Spells.two (a := (0xC0 + n / 64).toUInt8) (b := continuationByte n) (by omega) <| by
      rw [secondBounds, continuationToNat, lead]
      omega
    rwa [lead, show (0xC0 + n / 64) % 32 = n / 64 by omega, pushContinuation] at spells
  split
  · have lead : (0xE0 + n / 4096).toUInt8.toNat = 0xE0 + n / 4096 := byteToNat (by omega)
    have spells := Spells.three (a := (0xE0 + n / 4096).toUInt8) (b := continuationByte (n / 64))
      (by omega) (by
        rw [secondBounds, continuationToNat, lead]
        omega) (continuationFollows n)
    rwa [lead, show (0xE0 + n / 4096) % 16 = n / 64 / 64 by omega, pushContinuation,
      pushContinuation] at spells
  · have lead : (0xF0 + n / 262144).toUInt8.toNat = 0xF0 + n / 262144 := byteToNat (by omega)
    have spells := Spells.four (a := (0xF0 + n / 262144).toUInt8)
      (b := continuationByte (n / 4096)) (by omega) (by
        rw [secondBounds, continuationToNat, lead]
        omega) (continuationFollows (n / 64)) (continuationFollows n)
    have twice : n / 4096 = n / 64 / 64 := by omega
    rw [lead, show (0xF0 + n / 262144) % 8 = n / 4096 / 64 by omega, pushContinuation, twice,
      pushContinuation, pushContinuation] at spells
    rwa [twice]

theorem charToNat {n : Nat} (valid : n < 0xD800 ∨ 0xDFFF < n ∧ n < 0x110000) :
    (Char.ofNat n).toNat = n := by
  have scalar : n.isValidChar := valid
  rw [Char.ofNat, dif_pos scalar]
  rfl

theorem byteSame {n : Nat} {b : UInt8} (same : b.toNat = n) : n.toUInt8 = b :=
  UInt8.toNat_inj.mp ((byteToNat (same ▸ b.toNat_lt)).trans same.symm)

theorem continuationSame {code : Nat} {b : UInt8} (same : b.toNat = 0x80 + code % 64) :
    continuationByte code = b := byteSame same

theorem spelledEncodes {unit : List UInt8} {code : Nat} (spells : Spells unit code) :
    encodeChar (Char.ofNat code) = unit := by
  cases spells with
  | @one a lead =>
    unfold encodeChar
    rw [charToNat (by omega)]
    simp only [if_pos lead, byteSame rfl]
  | @two a b lead second =>
    rw [secondBounds] at second
    unfold pushBits encodeChar
    rw [charToNat (by omega), if_neg (by omega), if_pos (by omega), byteSame (b := a) (by omega),
      continuationSame (b := b) (by omega)]
  | @three a b c lead second third =>
    rw [secondBounds] at second
    rw [continuationBounds] at third
    unfold pushBits encodeChar
    rw [charToNat (by omega), if_neg (by omega), if_neg (by omega), if_pos (by omega),
      byteSame (b := a) (by omega), continuationSame (b := b) (by omega),
      continuationSame (b := c) (by omega)]
  | @four a b c d lead second third fourth =>
    rw [secondBounds] at second
    rw [continuationBounds] at third fourth
    unfold pushBits encodeChar
    rw [charToNat (by omega), if_neg (by omega), if_neg (by omega), if_neg (by omega),
      byteSame (b := a) (by omega), continuationSame (b := b) (by omega),
      continuationSame (b := c) (by omega), continuationSame (b := d) (by omega)]

theorem decodeEncoded (position : Nat) (text : Text) :
    decodeFrom position (encodeUtf8 text) = ⟨text, none⟩ := by
  induction text generalizing position with
  | nil => rfl
  | cons c rest ih =>
    rw [encodeUtf8, List.flatMap_cons, decodeSpelled (encodeSpells c), ← encodeUtf8, ih,
      Decoded.cons, Char.ofNat_toNat]

theorem consEncodes {unit rest : List UInt8} {code : Nat} {d : Decoded} (spells : Spells unit code)
    (behind : d.fault = none → encodeUtf8 d.text = rest) (sound : (d.cons code).fault = none) :
    encodeUtf8 (d.cons code).text = unit ++ rest := by
  rw [Decoded.cons, encodeUtf8, List.flatMap_cons, spelledEncodes spells, ← encodeUtf8,
    behind sound]

theorem encodeDecoded (position : Nat) (bytes : List UInt8) :
    (decodeFrom position bytes).fault = none →
      encodeUtf8 (decodeFrom position bytes).text = bytes := by
  fun_induction decodeFrom position bytes with
  | case1 => exact fun _ => rfl
  | case2 position a rest ascii ih =>
    exact consEncodes (.one (UInt8.lt_iff_toNat_lt.mp ascii)) ih
  | case6 position a ascii start b rest second two ih =>
    have lead : 0xC2 ≤ a.toNat ∧ a.toNat < 0xE0 := by
      simp [UInt8.le_iff_toNat_le, UInt8.lt_iff_toNat_lt] at ascii start two ⊢
      omega
    exact consEncodes (.two lead (by simpa using second)) ih
  | case9 position a ascii start b second two c rest third three ih =>
    have lead : 0xE0 ≤ a.toNat ∧ a.toNat < 0xF0 := by
      simp [UInt8.le_iff_toNat_le, UInt8.lt_iff_toNat_lt] at ascii start two three ⊢
      omega
    exact consEncodes (.three lead (by simpa using second) (by simpa using third)) ih
  | case12 position a ascii start b second two c third three d rest fourth ih =>
    have lead : 0xF0 ≤ a.toNat ∧ a.toNat < 0xF5 := by
      simp [UInt8.le_iff_toNat_le, UInt8.lt_iff_toNat_lt] at ascii start two three ⊢
      omega
    exact consEncodes (.four lead (by simpa using second) (by simpa using third)
      (by simpa using fourth)) ih
  | _ => exact fun sound => by simp [Decoded.stop] at sound

theorem faultlessEncodes (bytes : List UInt8) :
    (decodeUtf8 bytes).fault = none ↔ ∃ text, bytes = encodeUtf8 text := by
  constructor
  · intro sound
    exact ⟨_, (encodeDecoded 0 bytes sound).symm⟩
  · rintro ⟨text, rfl⟩
    rw [decodeUtf8, decodeEncoded]

end MakeTree.Text
