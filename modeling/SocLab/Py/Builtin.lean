import SocLab.Py.Text
import Mathlib.Algebra.GroupWithZero.Nat

/-!
# SocLab.Py.Builtin — built-in exceptions and `int`

`int text base` is Python's `int(text, base)` for the bases 10 and 16: white space around the
numeral, one sign, one `_` between digits, an optional `0x` in base 16, any Unicode decimal digit.
-/

namespace Py

/-- The exception classes that the modelled code tells apart; `other` is any further subclass of
`Exception`. -/
inductive Exc where
  | valueError
  | typeError
  | overflowError
  | keyError
  | attributeError
  | recursionError
  | assertionError
  | other (name : String)
  deriving DecidableEq, Repr

/-- White space in the sense of C, which `int` skips around a numeral. -/
def isCSpace (c : Char) : Bool := (9 ≤ c.toNat && c.toNat ≤ 13) || c.toNat == 0x20

/-- Unicode decimal digits and white space as their ASCII counterparts. -/
def toAsciiDigit (c : Char) : Char :=
  if isAscii c then c
  else if isSpace c then ' '
  else match decimalValue c with
    | some d => Char.ofNat (0x30 + d)
    | none => '?'

/-- The value of an ASCII letter or digit as a digit of `base`. -/
def digitValue (base : Nat) (c : Char) : Option Nat :=
  let d :=
    if '0' ≤ c && c ≤ '9' then c.toNat - 0x30
    else if 'a' ≤ c && c ≤ 'z' then c.toNat - 0x61 + 10
    else if 'A' ≤ c && c ≤ 'Z' then c.toNat - 0x41 + 10
    else base
  if d < base then some d else none

/-- The digits after a first one: their value, appended to `acc`, and their number. -/
def moreDigits (base : Nat) : Nat → Nat → List Char → Option (Nat × Nat)
  | acc, count, [] => some (acc, count)
  | acc, count, '_' :: c :: l =>
    (digitValue base c).bind fun d => moreDigits base (acc * base + d) (count + 1) l
  | acc, count, c :: l =>
    (digitValue base c).bind fun d => moreDigits base (acc * base + d) (count + 1) l

/-- The value and the number of digits of an unsigned numeral without a prefix. -/
def digits (base : Nat) : List Char → Option (Nat × Nat)
  | [] => none
  | c :: l => (digitValue base c).bind fun d => moreDigits base d 1 l

/-- An unsigned numeral; in base 16 it may start with `0x` or `0X`, and then with one `_`. -/
def numeral (base : Nat) : List Char → Option (Nat × Nat)
  | '0' :: x :: l =>
    if base = 16 ∧ (x = 'x' ∨ x = 'X') then
      match l with
      | '_' :: l => digits base l
      | l => digits base l
    else digits base ('0' :: x :: l)
  | l => digits base l

/-- More digits than this in base 10 are refused (`sys.int_info.default_max_str_digits`). -/
def maxStrDigits : Nat := 4300

/-- The sign of a numeral and what follows it. -/
def signed : List Char → Int × List Char
  | '-' :: l => (-1, l)
  | '+' :: l => (1, l)
  | l => (1, l)

/-- `int(text, base)`, with the limit of digits in base 10. -/
def int (text : String) (base : Nat) : Except Exc Int :=
  let (sign, l) := signed (((text.toList.map toAsciiDigit).dropWhile isCSpace).rdropWhile isCSpace)
  match numeral base l with
  | none => .error .valueError
  | some (n, count) =>
    if base ≠ 16 ∧ maxStrDigits < count then .error .valueError else .ok (sign * n)

/-- `int` raises nothing but `ValueError`. -/
theorem int_error {text : String} {base : Nat} {e : Exc} (h : int text base = .error e) :
    e = .valueError := by
  unfold int at h
  dsimp only at h
  split at h
  · exact (Except.error.inj h).symm
  · split_ifs at h
    exact (Except.error.inj h).symm

/-- `str(n)`, also in an f-string: a number with more digits than the limit is refused. -/
def strOfInt (n : Int) : Except Exc String :=
  if (Nat.toDigits 10 n.natAbs).length ≤ maxStrDigits then .ok (toString n) else .error .valueError

section Digits

variable {base acc count v k d : Nat} {l : List Char} {c : Char}

theorem digitValue_lt (h : digitValue base c = some d) : d < base := by
  obtain ⟨hlt, hd⟩ := Option.ite_none_right_eq_some.mp h
  exact Option.some.inj hd ▸ hlt

theorem appendDigit_lt (hacc : acc < base ^ count) (hd : d < base) : acc * base + d < base ^ (count + 1) :=
  calc acc * base + d < acc * base + base := by omega
    _ = (acc + 1) * base := by rw [Nat.add_mul, Nat.one_mul]
    _ ≤ base ^ count * base := Nat.mul_le_mul_right base hacc
    _ = base ^ (count + 1) := (Nat.pow_succ ..).symm

theorem moreDigits_lt (hacc : acc < base ^ count) (h : moreDigits base acc count l = some (v, k)) :
    v < base ^ k := by
  fun_induction moreDigits base acc count l with
  | case1 acc count =>
    cases h
    exact hacc
  | case2 acc count c l ih =>
    obtain ⟨d, hd, h⟩ := Option.bind_eq_some_iff.mp h
    exact ih d (appendDigit_lt hacc (digitValue_lt hd)) h
  | case3 acc count c l _ ih =>
    obtain ⟨d, hd, h⟩ := Option.bind_eq_some_iff.mp h
    exact ih d (appendDigit_lt hacc (digitValue_lt hd)) h

theorem digits_lt (h : digits base l = some (v, k)) : v < base ^ k := by
  cases l with
  | nil => cases h
  | cons c l =>
    obtain ⟨d, hd, h⟩ := Option.bind_eq_some_iff.mp h
    exact moreDigits_lt (by simpa using digitValue_lt hd) h

theorem numeral_ten (l : List Char) : numeral 10 l = digits 10 l := by
  unfold numeral
  split <;> rfl

end Digits

theorem natAbs_signed (l : List Char) : (signed l).1.natAbs = 1 := by
  unfold signed
  split <;> rfl

/-- A number that was read in base 10 can be written. -/
theorem strOfInt_of_int {text : String} {n : Int} (h : int text 10 = .ok n) :
    strOfInt n = .ok (toString n) := by
  unfold int at h
  dsimp only at h
  split at h
  · cases h
  · next m count hm =>
    split_ifs at h with hcount
    have hle : count ≤ maxStrDigits := by omega
    have hlt : m < 10 ^ maxStrDigits :=
      (digits_lt (by rwa [numeral_ten] at hm)).trans_le (Nat.pow_le_pow_right (by decide) hle)
    have habs : n.natAbs = m := by
      rw [← Except.ok.inj h, Int.natAbs_mul, natAbs_signed, Nat.one_mul, Int.natAbs_natCast]
    rw [strOfInt, if_pos]
    rw [habs]
    exact (Nat.length_toDigits_le_iff (by decide) (by decide)).mpr hlt

example : int " 1_0 " 10 = .ok 10 := by decide

example : int "-0x_Ff" 16 = .ok (-255) := by decide

end Py
