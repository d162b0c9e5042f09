import Mathlib.Algebra.Order.Ring.Nat
import MakeTree.Proofs.TextCuts
import MakeTree.Text.Quoted

/-! Texts that are told apart whatever follows them. A quoted text is of that kind: its characters can
be read back one by one, and none of them is written so that it starts with the quote. -/
namespace MakeTree.Text

/-- With anything behind them, the texts are the same only if `same` holds, and then what stands behind
them is the same too. -/
def Tells (first second : Text) (same : Prop) : Prop :=
  ∀ x y, first ++ x = second ++ y → same ∧ x = y

variable {first second : Text} {same here onward : Prop}

theorem tellsAlways (text : Text) : Tells text text True :=
  fun _ _ equal => ⟨trivial, List.append_cancel_left equal⟩

theorem tellsBoth {tail other : Text} (tells : Tells first second here)
    (rest : Tells tail other onward) : Tells (first ++ tail) (second ++ other) (here ∧ onward) := by
  intro x y equal
  rw [List.append_assoc, List.append_assoc] at equal
  obtain ⟨front, equal⟩ := tells _ _ equal
  obtain ⟨back, equal⟩ := rest x y equal
  exact ⟨⟨front, back⟩, equal⟩

theorem Tells.implies (tells : Tells first second here) (implies : here → same) :
    Tells first second same := by
  intro x y equal
  obtain ⟨told, equal⟩ := tells x y equal
  exact ⟨implies told, equal⟩

theorem Tells.behind (tells : Tells first second same) (lead : Text) :
    Tells (lead ++ first) (lead ++ second) same :=
  (tellsBoth (tellsAlways lead) tells).implies And.right

theorem Tells.before (tells : Tells first second same) (tail : Text) :
    Tells (first ++ tail) (second ++ tail) same :=
  (tellsBoth tells (tellsAlways tail)).implies And.left

theorem Tells.exact (tells : Tells first second same) (equal : first = second) : same :=
  (tells [] [] (by rw [equal])).1

theorem tellsApart {c d : Char} (apart : c ≠ d) (first second : Text) :
    Tells (c :: first) (d :: second) same :=
  fun _ _ equal => absurd (List.cons.inj equal).1 apart

theorem tellsUpTo {c : Char} (clear : c ∉ first) (free : c ∉ second) :
    Tells (first ++ [c]) (second ++ [c]) (first = second) := by
  intro x y equal
  rw [List.append_assoc, List.append_assoc] at equal
  exact cutUnique equal clear free

def Avoids (c : Char) (text : Text) : Prop := ∃ d rest, text = d :: rest ∧ d ≠ c

theorem avoidsAppend {c : Char} (avoids : Avoids c first) (second : Text) :
    Avoids c (first ++ second) := by
  obtain ⟨d, rest, rfl, apart⟩ := avoids
  exact ⟨d, rest ++ second, rfl, apart⟩

theorem avoidsTells {c : Char} (avoids : Avoids c first) (second : Text) :
    Tells first (c :: second) same := by
  obtain ⟨d, rest, rfl, apart⟩ := avoids
  exact tellsApart apart _ _

theorem tellsAvoiding {c : Char} (avoids : Avoids c second) (first : Text) :
    Tells (c :: first) second same := by
  obtain ⟨d, rest, rfl, apart⟩ := avoids
  exact tellsApart (Ne.symm apart) _ _

/-! Reading a quoted character back. -/

def digitValue (digit : Char) : Nat := "0123456789abcdef".toList.idxOf digit

def hexValue (digits : Text) : Nat :=
  digits.foldl (fun value digit => 16 * value + digitValue digit) 0

theorem digitValueChar : ∀ n < 16, digitValue (Nat.digitChar n) = n := by decide

theorem hexLength (width n : Nat) : (hexDigits width n).length = width := by
  induction width generalizing n with
  | zero => rfl
  | succ width ih => rw [hexDigits, List.length_append, ih, List.length_singleton]

theorem hexValueDigits (width n : Nat) : hexValue (hexDigits width n) = n % 16 ^ width := by
  induction width generalizing n with
  | zero => rw [pow_zero, Nat.mod_one]; rfl
  | succ width ih =>
    have last := digitValueChar (n % 16) (Nat.mod_lt n (by decide))
    have front : (hexDigits width (n / 16)).foldl
        (fun value digit => 16 * value + digitValue digit) 0 = n / 16 % 16 ^ width := ih (n / 16)
    rw [hexDigits, hexValue, List.foldl_append, front, List.foldl_cons, List.foldl_nil, last,
      pow_succ', Nat.mod_mul, Nat.add_comm]

def readHex (width : Nat) (t : Text) : Char × Text :=
  (.ofNat (hexValue (t.take width)), t.drop width)

def unquoteChar : Text → Option (Char × Text)
  | [] => none
  | '\\' :: kind :: rest =>
    if kind = 'n' then some ('\n', rest)
    else if kind = 'r' then some ('\r', rest)
    else if kind = 't' then some ('\t', rest)
    else if kind = 'x' then some (readHex 2 rest)
    else if kind = 'u' then some (readHex 4 rest)
    else if kind = 'U' then some (readHex 8 rest)
    else some (kind, rest)
  | c :: rest => some (c, rest)

theorem readDigits {width : Nat} {c : Char} (fits : c.toNat < 16 ^ width) (rest : Text) :
    readHex width (hexDigits width c.toNat ++ rest) = (c, rest) := by
  have length := hexLength width c.toNat
  rw [readHex, List.take_left' length, List.drop_left' length, hexValueDigits,
    Nat.mod_eq_of_lt fits, Char.ofNat_toNat]

theorem unquoteEscaped (c : Char) (rest : Text) :
    unquoteChar (escapeCodePoint c.toNat ++ rest) = some (c, rest) := by
  unfold escapeCodePoint
  split
  · rename_i small
    exact congrArg some (readDigits small rest)
  · split
    · rename_i small
      exact congrArg some (readDigits small rest)
    · have small : c.toNat < 16 ^ 8 := by
        rcases c.valid with below | ⟨_, below⟩
        · exact Nat.lt_trans below (by decide)
        · exact Nat.lt_trans below (by decide)
      exact congrArg some (readDigits small rest)

def IsQuote (quote : Char) : Prop := quote = '\'' ∨ quote = '"'

theorem quoteForQuote (t : Text) : IsQuote (quoteFor t) := by
  unfold quoteFor
  split
  · exact .inr rfl
  · exact .inl rfl

variable {quote : Char} (printable : Char → Bool)

theorem unquoteQuoted (quotes : IsQuote quote) (c : Char) (rest : Text) :
    unquoteChar (quoteChar printable quote c ++ rest) = some (c, rest) := by
  unfold quoteChar
  split
  · rename_i marked
    rcases marked with rfl | rfl
    · rcases quotes with rfl | rfl <;> rfl
    · rfl
  rename_i unmarked
  split
  · rename_i feed
    rw [feed]
    rfl
  split
  · rename_i back
    rw [back]
    rfl
  split
  · rename_i tab
    rw [tab]
    rfl
  split
  · have plain : c ≠ '\\' := fun slash => unmarked (.inr slash)
    simp [unquoteChar, plain]
  · exact unquoteEscaped c rest

theorem quoteCharTells (quotes : IsQuote quote) (c d : Char) :
    Tells (quoteChar printable quote c) (quoteChar printable quote d) (c = d) := by
  intro x y equal
  have left := unquoteQuoted printable quotes c x
  rw [equal, unquoteQuoted printable quotes d y] at left
  cases left
  exact ⟨rfl, rfl⟩

theorem quoteCharAvoids (quotes : IsQuote quote) (c : Char) :
    Avoids quote (quoteChar printable quote c) := by
  have slash : '\\' ≠ quote := by rcases quotes with rfl | rfl <;> decide
  unfold quoteChar
  split
  · exact ⟨_, _, rfl, slash⟩
  rename_i unmarked
  split
  · exact ⟨_, _, rfl, slash⟩
  split
  · exact ⟨_, _, rfl, slash⟩
  split
  · exact ⟨_, _, rfl, slash⟩
  split
  · exact ⟨_, _, rfl, fun same => unmarked (.inl same)⟩
  · unfold escapeCodePoint
    split
    · exact ⟨_, _, rfl, slash⟩
    · split <;> exact ⟨_, _, rfl, slash⟩

theorem charactersTell (quotes : IsQuote quote) (t u : Text) :
    Tells (t.flatMap (quoteChar printable quote) ++ [quote])
      (u.flatMap (quoteChar printable quote) ++ [quote]) (t = u) := by
  induction t generalizing u with
  | nil =>
    cases u with
    | nil => exact (tellsAlways _).implies fun _ => rfl
    | cons d u =>
      rw [List.flatMap_cons, List.append_assoc]
      exact tellsAvoiding (avoidsAppend (quoteCharAvoids printable quotes d) _) _
  | cons c t ih =>
    cases u with
    | nil =>
      rw [List.flatMap_cons, List.append_assoc]
      exact avoidsTells (avoidsAppend (quoteCharAvoids printable quotes c) _) _
    | cons d u =>
      rw [List.flatMap_cons, List.flatMap_cons, List.append_assoc, List.append_assoc]
      refine (tellsBoth (quoteCharTells printable quotes c d) (ih u)).implies ?_
      rintro ⟨rfl, rfl⟩
      rfl

theorem quotedTells (t u : Text) : Tells (quotedWith printable t) (quotedWith printable u) (t = u) := by
  unfold quotedWith
  by_cases alike : quoteFor t = quoteFor u
  · simp only [alike]
    exact Tells.behind (charactersTell printable (quoteForQuote u) t u) [_]
  · exact tellsApart alike _ _

end MakeTree.Text
