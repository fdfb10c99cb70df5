import SocLab.Py.Builtin
import Mathlib.Data.Nat.Digits.Defs

/-!
# SocLab.Py.Numeral — the numerals that `int` reads

* `PlainDigits`, `SeparatedDigits`: the digits of a text and their values, without and with single `_`
  between them, for any assignment of values to characters.
* `digits_eq_some`: the reader of a numeral finds exactly the separated digits, and their positional value.
* `int_ten_eq_ok`, `int_sixteen_eq_ok`: what `int` reads from a stripped text, in base 10 and after a `0x`.
* `int_toString`: a number that is written is read back.
-/

namespace Py

/-! ### Digits and their value -/

/-- The number that digits write in `base`, the most significant digit first. -/
def positional (base : Nat) (ds : List Nat) : Nat := Nat.ofDigits base ds.reverse

theorem positional_cons (base d : Nat) (ds : List Nat) :
    positional base (d :: ds) = d * base ^ ds.length + positional base ds := by
  rw [positional, Nat.ofDigits_reverse_cons, Nat.mul_comm, Nat.add_comm, positional]

theorem positional_eq_zero {base : Nat} (hbase : base ≠ 0) {ds : List Nat} :
    positional base ds = 0 ↔ ∀ d ∈ ds, d = 0 := by
  constructor
  · intro h d hd
    exact Nat.digits_zero_of_eq_zero hbase h d (List.mem_reverse.mpr hd)
  · intro h
    induction ds with
    | nil => rfl
    | cons d ds ih =>
      rw [positional_cons, h d List.mem_cons_self, ih fun d' hd' => h d' (List.mem_cons_of_mem d hd')]
      simp

section Digits

variable {digit digit' : Char → Option Nat} {l : List Char} {ds : List Nat}

/-- A non-empty text of digits only. -/
def PlainDigits (digit : Char → Option Nat) (l : List Char) (ds : List Nat) : Prop :=
  ds ≠ [] ∧ l.map digit = ds.map some

/-- The digits after a first one; one `_` may stand before each. -/
inductive MoreDigits (digit : Char → Option Nat) : List Char → List Nat → Prop
  | nil : MoreDigits digit [] []
  | cons {c : Char} {l : List Char} {d : Nat} {ds : List Nat} :
      digit c = some d → MoreDigits digit l ds → MoreDigits digit (c :: l) (d :: ds)
  | separated {c : Char} {l : List Char} {d : Nat} {ds : List Nat} :
      digit c = some d → MoreDigits digit l ds → MoreDigits digit ('_' :: c :: l) (d :: ds)

/-- A non-empty text of digits; one `_` may stand between two of them. -/
inductive SeparatedDigits (digit : Char → Option Nat) : List Char → List Nat → Prop
  | mk {c : Char} {l : List Char} {d : Nat} {ds : List Nat} :
      digit c = some d → MoreDigits digit l ds → SeparatedDigits digit (c :: l) (d :: ds)

theorem MoreDigits.map_of_no_separator (h : MoreDigits digit l ds) (hsep : '_' ∉ l) :
    l.map digit = ds.map some := by
  induction h with
  | nil => rfl
  | cons hd _ ih =>
    rw [List.map_cons, List.map_cons, hd, ih fun hmem => hsep (List.mem_cons_of_mem _ hmem)]
  | separated => exact absurd List.mem_cons_self hsep

theorem SeparatedDigits.moreDigits (h : SeparatedDigits digit l ds) : ds ≠ [] ∧ MoreDigits digit l ds := by
  obtain ⟨hd, hds⟩ := h
  exact ⟨List.cons_ne_nil _ _, .cons hd hds⟩

/-- Characters that are read through a map keep their digits, when only `_` is read as `_`. -/
theorem moreDigits_map {f : Char → Char} (hsep : ∀ c, f c = '_' ↔ c = '_') :
    MoreDigits digit (l.map f) ds ↔ MoreDigits (digit ∘ f) l ds := by
  constructor
  · intro h
    generalize hl : l.map f = l' at h
    induction h generalizing l with
    | nil =>
      obtain rfl := List.map_eq_nil_iff.mp hl
      exact .nil
    | cons hd _ ih =>
      obtain ⟨c, l, rfl, rfl, rfl⟩ := List.map_eq_cons_iff.mp hl
      exact .cons hd (ih rfl)
    | separated hd _ ih =>
      obtain ⟨u, l, rfl, hu, hrest⟩ := List.map_eq_cons_iff.mp hl
      obtain ⟨c, l, rfl, rfl, rfl⟩ := List.map_eq_cons_iff.mp hrest
      obtain rfl := (hsep u).mp hu
      exact .separated hd (ih rfl)
  · intro h
    induction h with
    | nil => exact .nil
    | cons hd _ ih => exact .cons hd ih
    | separated hd _ ih =>
      rw [List.map_cons, (hsep '_').mpr rfl]
      exact .separated hd ih

theorem separatedDigits_map {f : Char → Char} (hsep : ∀ c, f c = '_' ↔ c = '_') :
    SeparatedDigits digit (l.map f) ds ↔ SeparatedDigits (digit ∘ f) l ds := by
  constructor
  · intro h
    generalize hl : l.map f = l' at h
    obtain ⟨hd, hmore⟩ := h
    obtain ⟨c, l, rfl, rfl, rfl⟩ := List.map_eq_cons_iff.mp hl
    exact .mk hd ((moreDigits_map hsep).mp hmore)
  · rintro ⟨hd, hmore⟩
    exact .mk hd ((moreDigits_map hsep).mpr hmore)

end Digits

/-! ### The reader of a numeral -/

section Reader

variable {base acc count v k : Nat} {l : List Char}

theorem digitValue_separator (base : Nat) : digitValue base '_' = none := by
  simp [digitValue]

theorem moreDigits_eq_some :
    moreDigits base acc count l = some (v, k) ↔
      ∃ ds, MoreDigits (digitValue base) l ds ∧ v = acc * base ^ ds.length + positional base ds ∧
        k = count + ds.length := by
  -- The value of one more digit, shifted to the left of those that follow.
  have hshift (acc d : Nat) (ds : List Nat) :
      (acc * base + d) * base ^ ds.length + positional base ds =
        acc * base ^ (d :: ds).length + positional base (d :: ds) := by
    rw [positional_cons, List.length_cons, Nat.pow_succ']
    ring
  fun_induction moreDigits base acc count l with
  | case1 acc count =>
    constructor
    · intro h
      cases h
      exact ⟨[], .nil, by simp [positional], rfl⟩
    · rintro ⟨ds, ⟨⟩, rfl, rfl⟩
      simp [positional]
  | case2 acc count c l ih =>
    rw [Option.bind_eq_some_iff]
    constructor
    · rintro ⟨d, hd, h⟩
      obtain ⟨ds, hds, rfl, rfl⟩ := (ih d).mp h
      exact ⟨d :: ds, .separated hd hds, hshift acc d ds, by rw [List.length_cons]; omega⟩
    · rintro ⟨_, hmore, rfl, rfl⟩
      cases hmore with
      | cons hd _ => simp [digitValue_separator] at hd
      | @separated _ _ d ds hd hds =>
        exact ⟨d, hd, (ih d).mpr ⟨ds, hds, (hshift acc d ds).symm, by rw [List.length_cons]; omega⟩⟩
  | case3 acc count c l hnot ih =>
    rw [Option.bind_eq_some_iff]
    constructor
    · rintro ⟨d, hd, h⟩
      obtain ⟨ds, hds, rfl, rfl⟩ := (ih d).mp h
      exact ⟨d :: ds, .cons hd hds, hshift acc d ds, by rw [List.length_cons]; omega⟩
    · rintro ⟨_, hmore, rfl, rfl⟩
      cases hmore with
      | @cons _ _ d ds hd hds =>
        exact ⟨d, hd, (ih d).mpr ⟨ds, hds, (hshift acc d ds).symm, by rw [List.length_cons]; omega⟩⟩
      | separated => exact (hnot _ _ rfl rfl).elim

/-- **The reader finds the separated digits of the text**, and their positional value. -/
theorem digits_eq_some :
    digits base l = some (v, k) ↔
      ∃ ds, SeparatedDigits (digitValue base) l ds ∧ v = positional base ds ∧ k = ds.length := by
  cases l with
  | nil =>
    constructor
    · intro h
      cases h
    · rintro ⟨ds, ⟨⟩, -, -⟩
  | cons c l =>
    rw [digits, Option.bind_eq_some_iff]
    constructor
    · rintro ⟨d, hd, h⟩
      obtain ⟨ds, hds, rfl, rfl⟩ := moreDigits_eq_some.mp h
      exact ⟨d :: ds, .mk hd hds, (positional_cons base d ds).symm, Nat.add_comm 1 ds.length⟩
    · rintro ⟨_, @⟨_, _, d, ds, hd, hds⟩, rfl, rfl⟩
      exact ⟨d, hd, moreDigits_eq_some.mpr ⟨ds, hds, positional_cons base d ds, Nat.add_comm ds.length 1⟩⟩

/-- After a `0x` one `_` may also stand before the first digit. -/
theorem numeral_sixteen {x : Char} (hx : x = 'x' ∨ x = 'X') :
    numeral 16 ('0' :: x :: l) = some (v, k) ↔
      ∃ ds, ds ≠ [] ∧ MoreDigits (digitValue 16) l ds ∧ v = positional 16 ds ∧ k = ds.length := by
  unfold numeral
  simp only [hx, and_self, if_true]
  split
  · next l =>
    rw [digits_eq_some]
    constructor
    · rintro ⟨_, ⟨hd, hds⟩, hv, hk⟩
      exact ⟨_, List.cons_ne_nil _ _, .separated hd hds, hv, hk⟩
    · rintro ⟨_, _, hmore, hv, hk⟩
      cases hmore with
      | cons hd _ => simp [digitValue_separator] at hd
      | separated hd hds => exact ⟨_, .mk hd hds, hv, hk⟩
  · next hnot =>
    rw [digits_eq_some]
    constructor
    · rintro ⟨_, ⟨hd, hds⟩, hv, hk⟩
      exact ⟨_, List.cons_ne_nil _ _, .cons hd hds, hv, hk⟩
    · rintro ⟨_, hne, hmore, hv, hk⟩
      cases hmore with
      | nil => exact absurd rfl hne
      | cons hd hds => exact ⟨_, .mk hd hds, hv, hk⟩
      | separated => exact (hnot _ rfl).elim

end Reader

/-! ### Characters -/

/-- The value of a digit of `base` in a text: an ASCII letter or digit, or a decimal digit of Unicode. -/
def digitOf (base : Nat) (c : Char) : Option Nat := (digitValue base c).or (decimalValue c)

section Characters

variable {base d : Nat} {c : Char}

theorem decimalValue_eq_some :
    decimalValue c = some d → ∃ z ∈ decimalZeros, c.toNat = z + d ∧ d < 10 := by
  intro h
  obtain ⟨z, hz, rfl⟩ := Option.map_eq_some_iff.mp h
  have hrange := List.find?_some hz
  simp only [Bool.and_eq_true, decide_eq_true_eq] at hrange
  exact ⟨z, List.mem_of_find?_eq_some hz, by omega, by omega⟩

theorem decimalValue_of_isSpace (h : isSpace c = true) : decimalValue c = none := by
  cases hd : decimalValue c with
  | none => rfl
  | some d =>
    obtain ⟨z, hz, hc, hlt⟩ := decimalValue_eq_some hd
    -- Between two white-space characters of one run no run of digits starts, nor within ten before it.
    have hapart : ∀ z ∈ decimalZeros, ∀ d < 10, isSpace (Char.ofNat (z + d)) = false := by decide
    have hspace := hapart z hz d hlt
    rw [← hc, Char.ofNat_toNat, h] at hspace
    cases hspace

theorem digitValue_digit (hbase : 10 ≤ base) (hd : d < 10) :
    digitValue base (Char.ofNat (0x30 + d)) = some d := by
  have hvalue : Char.toNat (Char.ofNat (0x30 + d)) - 0x30 = d := by
    revert d
    decide
  have hrange : ('0' ≤ Char.ofNat (0x30 + d) && Char.ofNat (0x30 + d) ≤ '9') = true := by
    revert d
    decide
  rw [digitValue]
  simp only [hrange, if_true, hvalue]
  exact if_pos (by omega)

/-- An ASCII digit is read as itself. -/
theorem digitValue_of_decimalValue (hbase : 10 ≤ base) (hascii : isAscii c = true)
    (h : decimalValue c = some d) : digitValue base c = some d := by
  obtain ⟨z, hz, hc, hlt⟩ := decimalValue_eq_some h
  have hfirst : ∀ z ∈ decimalZeros, z < 128 → z = 0x30 := by decide
  have hn : c.toNat < 128 := by simpa [isAscii] using hascii
  obtain rfl := hfirst z hz (by omega)
  rw [← Char.ofNat_toNat c, hc]
  exact digitValue_digit hbase hlt

theorem digitValue_of_not_isAscii (hascii : isAscii c = false) : digitValue base c = none := by
  have hn : ¬ c.toNat < 128 := by simpa [isAscii] using hascii
  have habove {a : Char} (ha : a.toNat < 128) : ¬ c ≤ a := by
    rw [Char.le_def, UInt32.le_iff_toNat_le]
    change ¬ c.toNat ≤ a.toNat
    omega
  have h9 : ¬ c ≤ '9' := habove (by decide)
  have hz : ¬ c ≤ 'z' := habove (by decide)
  have hZ : ¬ c ≤ 'Z' := habove (by decide)
  simp [digitValue, h9, hz, hZ]

theorem digitValue_toAsciiDigit (hbase : 10 ≤ base) : digitValue base (toAsciiDigit c) = digitOf base c := by
  cases hascii : isAscii c with
  | true =>
    rw [toAsciiDigit, if_pos hascii, digitOf]
    cases hd : decimalValue c with
    | none => exact Option.or_none.symm
    | some d => rw [digitValue_of_decimalValue hbase hascii hd, Option.some_or]
  | false =>
    rw [digitOf, digitValue_of_not_isAscii hascii, Option.none_or, toAsciiDigit, if_neg (by simp [hascii])]
    split
    · next hspace =>
      rw [decimalValue_of_isSpace hspace]
      simp [digitValue]
    · split
      · next d hd =>
        obtain ⟨_, _, _, hlt⟩ := decimalValue_eq_some hd
        rw [hd, digitValue_digit hbase hlt]
      · next hnone =>
        rw [hnone]
        simp [digitValue]

theorem isAscii_of_digitValue (h : digitValue base c = some d) : isAscii c = true := by
  cases hascii : isAscii c with
  | true => rfl
  | false => rw [digitValue_of_not_isAscii hascii] at h; cases h

theorem digitOf_of_isAscii (hbase : 10 ≤ base) (h : isAscii c = true) :
    digitOf base c = digitValue base c := by
  rw [← digitValue_toAsciiDigit hbase, toAsciiDigit, if_pos h]

/-- In a text of ASCII characters without a separator the digits are plain. -/
theorem plainDigits_of_moreDigits {l : List Char} {ds : List Nat} (hbase : 10 ≤ base) (hne : ds ≠ [])
    (h : MoreDigits (digitOf base) l ds) (hsep : '_' ∉ l) (hascii : ∀ c ∈ l, isAscii c = true) :
    PlainDigits (digitValue base) l ds := by
  refine ⟨hne, ?_⟩
  rw [← h.map_of_no_separator hsep]
  exact List.map_congr_left fun c hc => (digitOf_of_isAscii hbase (hascii c hc)).symm

/-- What a character is read as. -/
theorem toAsciiDigit_cases (c : Char) :
    toAsciiDigit c = c ∨ (isSpace c = true ∧ toAsciiDigit c = ' ') ∨
      (∃ d < 10, toAsciiDigit c = Char.ofNat (0x30 + d)) ∨ toAsciiDigit c = '?' := by
  unfold toAsciiDigit
  split
  · exact .inl rfl
  split
  · next hspace => exact .inr (.inl ⟨hspace, rfl⟩)
  split
  · next d hd =>
    obtain ⟨_, _, _, hlt⟩ := decimalValue_eq_some hd
    exact .inr (.inr (.inl ⟨d, hlt, rfl⟩))
  · exact .inr (.inr (.inr rfl))

/-- A sign or a separator is read where it stands, and nowhere else. -/
theorem toAsciiDigit_eq_iff {a : Char} (ha : a = '_' ∨ a = '-' ∨ a = '+') : toAsciiDigit c = a ↔ c = a := by
  constructor
  · rintro rfl
    rcases toAsciiDigit_cases c with h | ⟨-, h⟩ | ⟨d, hd, h⟩ | h
    · exact h.symm
    · simp [h] at ha
    · rw [h] at ha
      have hdigit : ∀ d < 10, ¬ (Char.ofNat (0x30 + d) = '_' ∨ Char.ofNat (0x30 + d) = '-' ∨
          Char.ofNat (0x30 + d) = '+') := by decide
      exact (hdigit d hd ha).elim
    · simp [h] at ha
  · rintro rfl
    rcases ha with rfl | rfl | rfl <;> rfl

theorem isSpace_of_isCSpace (h : isCSpace (toAsciiDigit c) = true) : isSpace c = true := by
  rcases toAsciiDigit_cases c with hc | ⟨hspace, -⟩ | ⟨d, hd, hc⟩ | hc
  · rw [hc] at h
    simp only [isCSpace, Bool.or_eq_true, Bool.and_eq_true, decide_eq_true_eq, beq_iff_eq] at h
    simp only [isSpace, Bool.or_eq_true, Bool.and_eq_true, decide_eq_true_eq, beq_iff_eq]
    omega
  · exact hspace
  · rw [hc] at h
    have hdigit : ∀ d < 10, isCSpace (Char.ofNat (0x30 + d)) = false := by decide
    rw [hdigit d hd] at h
    cases h
  · rw [hc] at h
    cases h

theorem signed_map (l : List Char) :
    signed (l.map toAsciiDigit) = ((signed l).1, (signed l).2.map toAsciiDigit) := by
  cases l with
  | nil => rfl
  | cons c l =>
    by_cases hminus : c = '-'
    · subst hminus
      rfl
    by_cases hplus : c = '+'
    · subst hplus
      rfl
    have hminus' : toAsciiDigit c ≠ '-' := fun h => hminus ((toAsciiDigit_eq_iff (by simp)).mp h)
    have hplus' : toAsciiDigit c ≠ '+' := fun h => hplus ((toAsciiDigit_eq_iff (by simp)).mp h)
    simp [signed, hminus, hplus, hminus', hplus']

theorem signed_of_not_mem {l : List Char} (hplus : '+' ∉ l) (hminus : '-' ∉ l) : signed l = (1, l) := by
  unfold signed
  split
  · exact absurd List.mem_cons_self hminus
  · exact absurd List.mem_cons_self hplus
  · rfl

theorem digitValue_sign (base : Nat) : digitValue base '+' = none ∧ digitValue base '-' = none := by
  simp [digitValue]

theorem signed_nonneg_iff (l : List Char) (v : Nat) : 0 ≤ (signed l).1 * v ↔ l.head? ≠ some '-' ∨ v = 0 := by
  unfold signed
  split
  · simp
  · simp
  · next hminus _ =>
    refine iff_of_true (by simp) (Or.inl fun hhead => ?_)
    obtain ⟨l, rfl⟩ := List.head?_eq_some_iff.mp hhead
    exact hminus l rfl

end Characters

/-! ### `int` on a stripped text -/

section Stripped

variable {s : String} {n : Int}

theorem dropWhile_eq_self_of_imp {p q : Char → Bool} {l : List Char} (himp : ∀ c, q c = true → p c = true)
    (h : l.dropWhile p = l) : l.dropWhile q = l := by
  rw [List.dropWhile_eq_self_iff] at h ⊢
  exact fun hl hq => h hl (himp _ hq)

theorem dropWhile_eq_self_of_isPrefix {p : Char → Bool} {l l' : List Char} (hpre : l <+: l')
    (h : l'.dropWhile p = l') : l.dropWhile p = l := by
  obtain ⟨rest, rfl⟩ := hpre
  rw [List.dropWhile_eq_self_iff] at h ⊢
  intro hl hp
  refine h (by rw [List.length_append]; omega) ?_
  rwa [List.getElem_append_left hl]

theorem toList_strip (s : String) : (strip s).toList = (s.toList.dropWhile isSpace).rdropWhile isSpace :=
  String.toList_ofList

theorem strip_strip (s : String) : strip (strip s) = strip s := by
  have hdrop : (strip s).toList.dropWhile isSpace = (strip s).toList := by
    rw [toList_strip]
    exact dropWhile_eq_self_of_isPrefix (List.rdropWhile_prefix isSpace _)
      (List.dropWhile_idempotent isSpace _)
  rw [strip, hdrop, toList_strip, List.rdropWhile_idempotent, ← toList_strip, String.ofList_toList]

/-- White space is taken off the list of characters: at neither end of a stripped text there is any. -/
theorem toList_of_stripped (h : strip s = s) :
    s.toList.dropWhile isSpace = s.toList ∧ s.toList.rdropWhile isSpace = s.toList := by
  have hlist : (s.toList.dropWhile isSpace).rdropWhile isSpace = s.toList := by rw [← toList_strip, h]
  have hdrop : s.toList.dropWhile isSpace = s.toList := by
    refine (List.dropWhile_suffix isSpace).eq_of_length_le ?_
    calc s.toList.length = ((s.toList.dropWhile isSpace).rdropWhile isSpace).length := by rw [hlist]
      _ ≤ (s.toList.dropWhile isSpace).length := (List.rdropWhile_prefix isSpace _).length_le
  exact ⟨hdrop, by rwa [hdrop] at hlist⟩

/-- A stripped text has no white space around it that `int` could skip. -/
theorem numeral_of_stripped (h : strip s = s) :
    ((s.toList.map toAsciiDigit).dropWhile isCSpace).rdropWhile isCSpace = s.toList.map toAsciiDigit := by
  obtain ⟨hdrop, hrdrop⟩ := toList_of_stripped h
  have himp (c : Char) (hc : (isCSpace ∘ toAsciiDigit) c = true) : isSpace c = true := isSpace_of_isCSpace hc
  have hrdrop' : s.toList.reverse.dropWhile isSpace = s.toList.reverse := by
    rwa [List.rdropWhile, List.reverse_eq_iff] at hrdrop
  rw [List.dropWhile_map, dropWhile_eq_self_of_imp himp hdrop, List.rdropWhile, ← List.map_reverse,
    List.dropWhile_map, dropWhile_eq_self_of_imp himp hrdrop', List.map_reverse, List.reverse_reverse]

theorem int_eq_ok {base : Nat} (h : strip s = s) :
    int s base = .ok n ↔
      ∃ v k, numeral base ((signed s.toList).2.map toAsciiDigit) = some (v, k) ∧
        (base ≠ 16 → k ≤ maxStrDigits) ∧ n = (signed s.toList).1 * v := by
  unfold int
  rw [numeral_of_stripped h, signed_map]
  dsimp only
  split
  · next hnone =>
    rw [hnone]
    simp
  · next v k hsome =>
    rw [hsome]
    split_ifs with hlimit
    · constructor
      · intro h
        cases h
      · rintro ⟨_, _, ⟨⟩, hk, -⟩
        exact absurd (hk hlimit.1) (by omega)
    · constructor
      · intro h
        exact ⟨v, k, rfl, fun hbase => by omega, (Except.ok.inj h).symm⟩
      · rintro ⟨_, _, ⟨⟩, -, rfl⟩
        rfl

theorem digitValue_comp_toAsciiDigit {base : Nat} (hbase : 10 ≤ base) :
    digitValue base ∘ toAsciiDigit = digitOf base := funext fun _ => digitValue_toAsciiDigit hbase

/-- **A stripped text that is read in base 10**: a sign, separated digits of Unicode, and not too many. -/
theorem int_ten_eq_ok (h : strip s = s) :
    int s 10 = .ok n ↔
      ∃ ds, SeparatedDigits (digitOf 10) (signed s.toList).2 ds ∧ ds.length ≤ maxStrDigits ∧
        n = (signed s.toList).1 * positional 10 ds := by
  simp only [int_eq_ok h, numeral_ten, digits_eq_some, digitValue_comp_toAsciiDigit (Nat.le_refl 10),
    separatedDigits_map fun _ => toAsciiDigit_eq_iff (.inl rfl)]
  constructor
  · rintro ⟨_, _, ⟨ds, hds, rfl, rfl⟩, hle, rfl⟩
    exact ⟨ds, hds, hle (by decide), rfl⟩
  · rintro ⟨ds, hds, hle, rfl⟩
    exact ⟨_, _, ⟨ds, hds, rfl, rfl⟩, fun _ => hle, rfl⟩

/-- **A stripped text that is read in base 16**, when it starts with `0x`. -/
theorem int_sixteen_eq_ok {x : Char} {l : List Char} (h : strip s = s) (hx : x = 'x' ∨ x = 'X')
    (hs : s.toList = '0' :: x :: l) :
    int s 16 = .ok n ↔ ∃ ds, ds ≠ [] ∧ MoreDigits (digitOf 16) l ds ∧ n = positional 16 ds := by
  have hsigned : signed s.toList = (1, '0' :: x :: l) := by
    rw [hs]
    rfl
  have hmap : ('0' :: x :: l).map toAsciiDigit = '0' :: x :: l.map toAsciiDigit := by
    rcases hx with rfl | rfl <;> rfl
  simp only [int_eq_ok h, hsigned, hmap, numeral_sixteen hx, Int.one_mul,
    moreDigits_map fun _ => toAsciiDigit_eq_iff (.inl rfl),
    digitValue_comp_toAsciiDigit (show 10 ≤ 16 by decide)]
  constructor
  · rintro ⟨_, _, ⟨ds, hne, hds, rfl, rfl⟩, -, rfl⟩
    exact ⟨ds, hne, hds, rfl⟩
  · rintro ⟨ds, hne, hds, rfl⟩
    exact ⟨_, _, ⟨ds, hne, hds, rfl, rfl⟩, fun hbase => absurd rfl hbase, rfl⟩

end Stripped

/-! ### A number that is written -/

section Written

variable {digit : Char → Option Nat} {l : List Char} {ds : List Nat}

/-- Plain digits are separated by nothing. -/
theorem SeparatedDigits.of_plainDigits (h : PlainDigits digit l ds) : SeparatedDigits digit l ds := by
  have hmore : ∀ (l : List Char) (ds : List Nat), l.map digit = ds.map some → MoreDigits digit l ds := by
    intro l
    induction l with
    | nil =>
      intro ds hmap
      obtain rfl : ds = [] := List.map_eq_nil_iff.mp hmap.symm
      exact .nil
    | cons c l ih =>
      intro ds hmap
      obtain ⟨d, ds, rfl, hd, hds⟩ := List.map_eq_cons_iff.mp hmap.symm
      exact .cons hd.symm (ih ds hds.symm)
  obtain ⟨hne, hmap⟩ := h
  obtain ⟨d, ds, rfl⟩ := List.exists_cons_of_ne_nil hne
  obtain ⟨c, l, rfl, hd, hds⟩ := List.map_eq_cons_iff.mp hmap
  exact .mk hd (hmore l ds hds)

theorem positional_append (base : Nat) (ds : List Nat) (d : Nat) :
    positional base (ds ++ [d]) = positional base ds * base + d := by
  rw [positional, List.reverse_append, List.reverse_singleton, List.singleton_append, Nat.ofDigits_cons,
    ← positional]
  simp [Nat.add_comm, Nat.mul_comm]

/-- The digits of the numeral of a number, and their value. -/
theorem exists_plainDigits (n : Nat) :
    ∃ ds, PlainDigits (digitOf 10) (Nat.toDigits 10 n) ds ∧ positional 10 ds = n := by
  have hdigit : ∀ d < 10, digitOf 10 (Nat.digitChar d) = some d := by decide
  induction n using Nat.strongRecOn with
  | ind n ih =>
    by_cases h : n < 10
    · refine ⟨[n], ⟨List.cons_ne_nil _ _, ?_⟩, by simp [positional]⟩
      rw [Nat.toDigits_of_lt_base h, List.map_singleton, hdigit n h, List.map_singleton]
    · obtain ⟨ds, ⟨hne, hmap⟩, hvalue⟩ := ih (n / 10) (by omega)
      have hlast : n % 10 < 10 := Nat.mod_lt n (by decide)
      refine ⟨ds ++ [n % 10], ⟨by simp, ?_⟩, ?_⟩
      · rw [Nat.toDigits_of_base_le (by decide) (by omega), List.map_append, hmap, List.map_singleton,
          hdigit _ hlast, List.map_append, List.map_singleton]
      · rw [positional_append, hvalue]
        omega

theorem strip_toString (n : Nat) : strip (toString n) = toString n := by
  refine strip_of_no_space fun c hc => ?_
  by_contra hspace
  have hnone := decimalValue_of_isSpace (Bool.eq_true_of_not_eq_false hspace)
  have hsome : (decimalValue c).isSome = true := isDecimal_of_mem_repr hc
  rw [hnone] at hsome
  cases hsome

/-- **A number that is written is read back**, when it is not too long. -/
theorem int_toString {n : Nat} (h : n < 10 ^ maxStrDigits) : int (toString n) 10 = .ok n := by
  have hlist : (toString n).toList = Nat.toDigits 10 n := Nat.toList_repr
  have hdecimal : ∀ c ∈ (toString n).toList, c.isDigit = true := by
    rw [hlist]
    exact fun c hc => Nat.isDigit_of_mem_toDigits (by decide) (by decide) hc
  have hnot {c : Char} (hc : c.isDigit = false) : c ∉ (toString n).toList := by
    intro hmem
    rw [hdecimal c hmem] at hc
    cases hc
  have hsigned : signed (toString n).toList = (1, (toString n).toList) :=
    signed_of_not_mem (hnot rfl) (hnot rfl)
  obtain ⟨ds, hds, hvalue⟩ := exists_plainDigits n
  have hlength : ds.length = (Nat.toDigits 10 n).length := by
    have hmap := congrArg List.length hds.2
    rw [List.length_map, List.length_map] at hmap
    exact hmap.symm
  have hshort : ds.length ≤ maxStrDigits := by
    rw [hlength, Nat.length_toDigits_le_iff (by decide) (by decide)]
    exact h
  refine (int_ten_eq_ok (strip_toString n)).mpr ⟨ds, ?_, hshort, ?_⟩
  · rw [hsigned, hlist]
    exact .of_plainDigits hds
  · rw [hsigned, hvalue, Int.one_mul]

/-- A number that was read in base 10 is not too long to be written. -/
theorem natAbs_lt_of_int {text : String} {n : Int} (h : int text 10 = .ok n) :
    n.natAbs < 10 ^ maxStrDigits := by
  have hwritten := strOfInt_of_int h
  unfold strOfInt at hwritten
  by_cases hlength : (Nat.toDigits 10 n.natAbs).length ≤ maxStrDigits
  · exact (Nat.length_toDigits_le_iff (by decide) (by decide)).mp hlength
  · rw [if_neg hlength] at hwritten
    cases hwritten

end Written

end Py
