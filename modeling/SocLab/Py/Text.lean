import Mathlib.Data.List.DropRight
import Mathlib.Data.List.Infix

/-!
# SocLab.Py.Text — the operations of Python's `str` on Lean strings

A Python string without lone surrogates is a Lean `String`: both are sequences of Unicode scalar
values, and both order strings by code point.  The operations work on the list of characters, where
their properties are stated.
-/

namespace Py

/-- `str.isspace` on one character: the white space that `str.strip` removes. -/
def isSpace (c : Char) : Bool :=
  let n := c.toNat
  (9 ≤ n && n ≤ 13) || (0x1c ≤ n && n ≤ 0x20) || n == 0x85 || n == 0xa0 || n == 0x1680 ||
    (0x2000 ≤ n && n ≤ 0x200a) || n == 0x2028 || n == 0x2029 || n == 0x202f || n == 0x205f ||
    n == 0x3000

/-- `str.strip()`. -/
def strip (s : String) : String :=
  String.ofList ((s.toList.dropWhile isSpace).rdropWhile isSpace)

/-- `s.split(sep)` for a one-character separator. -/
def split (s : String) (sep : Char) : List String :=
  (s.toList.splitOn sep).map String.ofList

/-- A text with one separator is its two parts around it. -/
theorem toList_of_split {s a b : String} {sep : Char} (h : split s sep = [a, b]) :
    s.toList = a.toList ++ sep :: b.toList := by
  unfold split at h
  obtain ⟨l, l', hl, rfl, hrest⟩ := List.map_eq_cons_iff.mp h
  obtain ⟨r, r', rfl, rfl, hnil⟩ := List.map_eq_cons_iff.mp hrest
  rw [List.map_eq_nil_iff] at hnil
  subst hnil
  have hjoin : [sep].intercalate (s.toList.splitOn sep) = s.toList := List.intercalate_splitOn sep
  rw [← hjoin, hl]
  simp [List.intercalate]

/-- Two parts without the separator are what the text around it is split into. -/
theorem split_of_toList {s a b : String} {sep : Char} (h : s.toList = a.toList ++ sep :: b.toList)
    (ha : sep ∉ a.toList) (hb : sep ∉ b.toList) : split s sep = [a, b] := by
  rw [split, h, List.splitOn_append_cons_self, List.splitOn_eq_singleton ha, List.splitOn_eq_singleton hb]
  simp

theorem one_le_length {s : String} (h : s ≠ "") : 1 ≤ s.length := by
  have htoList : s.toList ≠ [] := fun hnil => h (String.toList_eq_nil_iff.mp hnil)
  rw [← String.length_toList]
  exact List.length_pos_iff.mpr htoList

theorem strip_eq_empty {s : String} : strip s = "" ↔ ∀ c ∈ s.toList, isSpace c = true := by
  have hofList : strip s = "" ↔ (s.toList.dropWhile isSpace).rdropWhile isSpace = [] := by
    rw [strip, ← String.toList_inj]
    simp
  rw [hofList, List.rdropWhile_eq_nil_iff]
  constructor
  · intro h c hc
    rcases List.mem_append.mp ((List.takeWhile_append_dropWhile (p := isSpace) (l := s.toList)).symm ▸ hc)
      with htake | hdrop
    · exact List.mem_takeWhile_imp htake
    · exact h c hdrop
  · exact fun h c hc => h c ((List.dropWhile_suffix isSpace).subset hc)

/-- There is nothing to take off a text without white space. -/
theorem strip_of_no_space {s : String} (h : ∀ c ∈ s.toList, isSpace c = false) : strip s = s := by
  have hdrop : s.toList.dropWhile isSpace = s.toList := by
    rw [List.dropWhile_eq_self_iff]
    intro hlength hspace
    rw [h _ (List.getElem_mem hlength)] at hspace
    cases hspace
  have hrdrop : s.toList.rdropWhile isSpace = s.toList := by
    rw [List.rdropWhile_eq_self_iff]
    intro hne hspace
    rw [h _ (List.getLast_mem hne)] at hspace
    cases hspace
  rw [strip, hdrop, hrdrop, String.ofList_toList]

/-- `s.startswith(prefix)`. -/
def startsWith (s pre : String) : Bool := pre.toList.isPrefixOf s.toList

/-- `s.endswith(suffix)`. -/
def endsWith (s suf : String) : Bool := suf.toList.isSuffixOf s.toList

/-- `sub in s`. -/
def contains (s sub : String) : Bool := decide (sub.toList <:+: s.toList)

/-- `c.isascii()`. -/
def isAscii (c : Char) : Bool := c.toNat < 128

/-- An ASCII decimal digit. -/
def isAsciiDigit (c : Char) : Bool := '0' ≤ c && c ≤ '9'

/-- The code points of the zeros of Unicode's decimal digits; each starts a run of ten. -/
def decimalZeros : List Nat :=
  [0x30, 0x660, 0x6f0, 0x7c0, 0x966, 0x9e6, 0xa66, 0xae6, 0xb66, 0xbe6, 0xc66, 0xce6, 0xd66, 0xde6,
    0xe50, 0xed0, 0xf20, 0x1040, 0x1090, 0x17e0, 0x1810, 0x1946, 0x19d0, 0x1a80, 0x1a90, 0x1b50,
    0x1bb0, 0x1c40, 0x1c50, 0xa620, 0xa8d0, 0xa900, 0xa9d0, 0xa9f0, 0xaa50, 0xabf0, 0xff10, 0x104a0,
    0x10d30, 0x11066, 0x110f0, 0x11136, 0x111d0, 0x112f0, 0x11450, 0x114d0, 0x11650, 0x116c0,
    0x11730, 0x118e0, 0x11950, 0x11c50, 0x11d50, 0x11da0, 0x11f50, 0x16a60, 0x16ac0, 0x16b50,
    0x1d7ce, 0x1d7d8, 0x1d7e2, 0x1d7ec, 0x1d7f6, 0x1e140, 0x1e2f0, 0x1e4f0, 0x1e950, 0x1fbf0]

/-- The value of a Unicode decimal digit, as `unicodedata.decimal` gives it. -/
def decimalValue (c : Char) : Option Nat :=
  (decimalZeros.find? (fun z => z ≤ c.toNat && c.toNat < z + 10)).map (c.toNat - ·)

/-- `\d` in a `str` pattern. -/
def isDecimal (c : Char) : Bool := (decimalValue c).isSome

theorem isDecimal_of_isDigit {c : Char} (h : c.isDigit = true) : isDecimal c = true := by
  have hrange : 0x30 ≤ c.toNat ∧ c.toNat < 0x30 + 10 := by
    simp only [Char.isDigit, Bool.and_eq_true, decide_eq_true_eq, ge_iff_le, UInt32.le_iff_toNat_le] at h
    exact ⟨h.1, Nat.lt_succ_of_le h.2⟩
  have hfind : decimalZeros.find? (fun z => z ≤ c.toNat && c.toNat < z + 10) = some 0x30 := by
    rw [decimalZeros, List.find?_cons_of_pos]
    simpa using hrange
  rw [isDecimal, decimalValue, hfind]
  rfl

/-- The decimal numeral of a number, as `str(n)` and an f-string write it. -/
theorem isDecimal_of_mem_repr {n : Nat} {c : Char} (h : c ∈ (toString n).toList) :
    isDecimal c = true := by
  refine isDecimal_of_isDigit (Nat.isDigit_of_mem_toDigits (b := 10) (n := n) (by decide) (by decide) ?_)
  rwa [← Nat.toList_repr]

theorem toList_toString_ne_nil (n : Nat) : (toString n).toList ≠ [] := by
  rw [show (toString n).toList = Nat.toDigits 10 n from Nat.toList_repr]
  exact Nat.toDigits_ne_nil

end Py
