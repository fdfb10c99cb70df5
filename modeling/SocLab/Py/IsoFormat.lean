import SocLab.Py.DateTime

/-!
# SocLab.Py.IsoFormat — dates and times that are written out are read back

A `CivilTime` is a date and a time of day in calendar fields, down to units of 100 ns.  `CivilTime.iso` writes it
with an offset of zero, `CivilTime.wall` counts its microseconds.

* `parseDigits_padded`: a number of fixed width is read back.
* `exists_date`: the ordinals in the range of `datetime` are those of the dates of the calendar.
* `CivilTime.exists_wall`, `CivilTime.wall_eq_iff`: every wall clock is that of a civil time, up to its last digit
  of one only.
* `CivilTime.fromisoformat_textThen`: `fromisoformat` reads what was written, to the microsecond.
-/

namespace Py

namespace IsoFormat

/-! ### Digits -/

/-- The character of a digit. -/
def digit (d : Nat) : Char := Char.ofNat (0x30 + d)

/-- The last `k` decimal digits. -/
def padded : Nat → Nat → List Char
  | 0, _ => []
  | k + 1, n => padded k (n / 10) ++ [digit (n % 10)]

theorem digit_spec {d : Nat} (h : d < 10) : isAsciiDigit (digit d) = true ∧ (digit d).toNat - 0x30 = d := by
  revert d
  decide

theorem ne_of_isAsciiDigit {c c' : Char} (h : isAsciiDigit c = true) (h' : isAsciiDigit c' = false) : c ≠ c' := by
  rintro rfl
  rw [h] at h'
  cases h'

theorem length_padded (k n : Nat) : (padded k n).length = k := by
  induction k generalizing n with
  | zero => rfl
  | succ k ih => rw [padded, List.length_append, ih, List.length_singleton]

theorem isAsciiDigit_of_mem_padded {k n : Nat} {c : Char} (h : c ∈ padded k n) : isAsciiDigit c = true := by
  induction k generalizing n with
  | zero => cases h
  | succ k ih =>
    rw [padded, List.mem_append, List.mem_singleton] at h
    rcases h with h | rfl
    · exact ih h
    · exact (digit_spec (Nat.mod_lt n (by decide))).1

/-- The value of the digits. -/
theorem foldl_padded {k n : Nat} (h : n < 10 ^ k) :
    (padded k n).foldl (fun acc c => acc * 10 + (c.toNat - 0x30)) 0 = n := by
  induction k generalizing n with
  | zero =>
    rw [padded, List.foldl_nil]
    omega
  | succ k ih =>
    have hdiv : n / 10 < 10 ^ k := by
      rw [Nat.pow_succ] at h
      omega
    have hdigit := (digit_spec (Nat.mod_lt n (show 0 < 10 by decide))).2
    rw [padded, List.foldl_append, ih hdiv, List.foldl_cons, List.foldl_nil, hdigit]
    omega

theorem isAscii_of_isAsciiDigit {c : Char} (h : isAsciiDigit c = true) : isAscii c = true := by
  simp only [isAsciiDigit, Bool.and_eq_true, decide_eq_true_eq, Char.le_def, UInt32.le_iff_toNat_le] at h
  have hhigh : c.toNat ≤ 57 := h.2
  rw [isAscii, decide_eq_true_eq]
  omega

/-- ASCII characters are their own bytes. -/
theorem utf8_of_isAscii {l : List Char} (h : ∀ c ∈ l, isAscii c = true) : utf8 l = l := by
  induction l with
  | nil => rfl
  | cons c l ih =>
    have hc : c.toNat < 128 := by simpa [isAscii] using h c (by simp)
    have hsize : c.utf8Size = 1 := by
      have hval : c.val.toNat < 128 := hc
      simp [Char.utf8Size, UInt32.le_iff_toNat_le]
      omega
    have hbyte : c.val.toUInt8.toNat = c.toNat := by
      rw [UInt32.toNat_toUInt8]
      exact Nat.mod_eq_of_lt (lt_trans hc (by decide))
    have hl : utf8 l = l := ih fun d hd => h d (by simp [hd])
    rw [utf8] at hl
    rw [utf8, List.flatMap_cons, hl, String.utf8EncodeChar_eq_singleton hsize]
    show Char.ofNat c.val.toUInt8.toNat :: l = c :: l
    rw [hbyte, Char.ofNat_toNat]

/-- **A number of fixed width is read back.** -/
theorem parseDigits_padded {k n : Nat} (h : n < 10 ^ k) (rest : List Char) :
    parseDigits k (padded k n ++ rest) = some (n, rest) := by
  have htake : (padded k n ++ rest).take k = padded k n := by
    rw [List.take_append_of_le_length (by rw [length_padded]), List.take_of_length_le (by rw [length_padded])]
  have hdrop : (padded k n ++ rest).drop k = rest := List.drop_left' (length_padded k n)
  have hall : (padded k n).all isAsciiDigit = true :=
    List.all_eq_true.mpr fun c hc => isAsciiDigit_of_mem_padded hc
  unfold parseDigits
  dsimp only
  rw [htake, hdrop, if_pos ⟨length_padded k n, hall⟩, foldl_padded h]

/-- The text goes on with a digit. -/
theorem isAsciiDigit_peek_padded (k n : Nat) (rest : List Char) :
    isAsciiDigit (peek (padded (k + 1) n ++ rest)) = true := by
  have hne : padded (k + 1) n ++ rest ≠ [] := by
    intro hnil
    have hlength := congrArg List.length hnil
    rw [List.length_append, length_padded] at hlength
    simp at hlength
  cases hl : padded (k + 1) n with
  | nil =>
    have hlength := length_padded (k + 1) n
    rw [hl] at hlength
    cases hlength
  | cons c l => exact isAsciiDigit_of_mem_padded (k := k + 1) (n := n) (by rw [hl]; exact List.mem_cons_self ..)

/-! ### The calendar -/

/-- The days of the year before the first of `month`. -/
def daysBeforeMonth (year month : Nat) : Nat := ((List.range' 1 (month - 1)).map (daysInMonth year)).sum

/-- A day of the proleptic calendar. -/
structure ValidDate (year month day : Nat) : Prop where
  year_pos : 1 ≤ year
  year_le : year ≤ 9999
  month_pos : 1 ≤ month
  month_le : month ≤ 12
  day_pos : 1 ≤ day
  day_le : day ≤ daysInMonth year month

theorem ordinal_eq (year month day : Nat) :
    ordinal year month day = daysBeforeYear year + daysBeforeMonth year month + day := rfl

/-- A month ends where the next one begins. -/
theorem daysBeforeMonth_succ (year : Nat) {month : Nat} (h : 1 ≤ month) :
    daysBeforeMonth year (month + 1) = daysBeforeMonth year month + daysInMonth year month := by
  obtain ⟨m, rfl⟩ := Nat.exists_eq_add_of_le h
  have hm : 1 + m - 1 = m := by omega
  have hm' : 1 + m + 1 - 1 = m + 1 := by omega
  unfold daysBeforeMonth
  rw [hm, hm', List.range'_1_concat, List.map_append, List.sum_append]
  simp

theorem daysInYear (year : Nat) : daysBeforeMonth year 13 = if isLeap year then 366 else 365 := by
  unfold daysBeforeMonth
  cases h : isLeap year <;> simp [List.range', daysInMonth, h]

theorem isLeap_iff (year : Nat) : isLeap year = true ↔ year % 4 = 0 ∧ (year % 100 ≠ 0 ∨ year % 400 = 0) := by
  simp [isLeap]

/-- A year ends where the next one begins. -/
theorem daysBeforeYear_succ {year : Nat} (h : 1 ≤ year) :
    daysBeforeYear (year + 1) = daysBeforeYear year + daysBeforeMonth year 13 := by
  obtain ⟨y, rfl⟩ := Nat.exists_eq_add_of_le' h
  have hbefore : daysBeforeYear (y + 1) = y * 365 + y / 4 - y / 100 + y / 400 := rfl
  have hafter : daysBeforeYear (y + 1 + 1) = (y + 1) * 365 + (y + 1) / 4 - (y + 1) / 100 + (y + 1) / 400 := rfl
  have hleap := isLeap_iff (y + 1)
  rw [daysInYear, hbefore, hafter]
  by_cases hl : isLeap (y + 1) = true
  · rw [if_pos hl]
    rw [hleap] at hl
    omega
  · rw [if_neg hl]
    rw [hleap] at hl
    omega

theorem daysInMonth_pos (year month : Nat) : 1 ≤ daysInMonth year month := by
  unfold daysInMonth
  split
  · split_ifs <;> decide
  all_goals decide

theorem daysBeforeMonth_mono (year : Nat) : Monotone (daysBeforeMonth year) := by
  refine monotone_nat_of_le_succ fun month => ?_
  by_cases h : 1 ≤ month
  · rw [daysBeforeMonth_succ year h]
    exact Nat.le_add_right _ _
  · obtain rfl : month = 0 := by omega
    exact le_rfl

/-- The last day of a month is followed by the first one of the next. -/
theorem ordinal_month_end {year month : Nat} (h : 1 ≤ month) :
    ordinal year month (daysInMonth year month) = daysBeforeYear year + daysBeforeMonth year (month + 1) := by
  rw [ordinal_eq, daysBeforeMonth_succ year h, Nat.add_assoc]

/-- **The ordinals in the range of `datetime` are those of the dates.** -/
theorem exists_date {n : Nat} (hpos : 1 ≤ n) (hle : n ≤ 3652059) :
    ∃ year month day, ValidDate year month day ∧ ordinal year month day = n := by
  induction n, hpos using Nat.le_induction with
  | base => exact ⟨1, 1, 1, ⟨by decide, by decide, by decide, by decide, by decide, by decide⟩, rfl⟩
  | succ n _ ih =>
    obtain ⟨year, month, day, hdate, rfl⟩ := ih (by omega)
    have hyear := hdate.year_pos
    have hmonth := hdate.month_pos
    -- the next day is in the same month, in the next month or in the next year
    by_cases hday : day < daysInMonth year month
    · have hdate' : ValidDate year month (day + 1) := { hdate with day_pos := by omega, day_le := hday }
      exact ⟨year, month, day + 1, hdate', rfl⟩
    · obtain rfl : day = daysInMonth year month := by
        have := hdate.day_le
        omega
      rw [ordinal_month_end hmonth] at hle ⊢
      by_cases hlast : month < 12
      · have hdate' : ValidDate year (month + 1) 1 :=
          ⟨hyear, hdate.year_le, by omega, hlast, le_rfl, daysInMonth_pos year _⟩
        exact ⟨year, month + 1, 1, hdate', rfl⟩
      · obtain rfl : month = 12 := by
          have := hdate.month_le
          omega
        rw [← daysBeforeYear_succ hyear] at hle ⊢
        have hnext : year + 1 ≤ 9999 := by
          by_contra hgt
          have hend : year = 9999 := by
            have := hdate.year_le
            omega
          subst hend
          exact absurd hle (by decide)
        have hdate' : ValidDate (year + 1) 1 1 :=
          ⟨by omega, hnext, by decide, by decide, le_rfl, daysInMonth_pos _ _⟩
        exact ⟨year + 1, 1, 1, hdate', rfl⟩

section Order

variable {year month day year' month' day' : Nat}

theorem ValidDate.ordinal_le_month_end (h : ValidDate year month day) :
    ordinal year month day ≤ daysBeforeYear year + daysBeforeMonth year (month + 1) := by
  rw [← ordinal_month_end h.month_pos]
  exact Nat.add_le_add_left h.day_le _

theorem ValidDate.ordinal_le_year_end (h : ValidDate year month day) :
    ordinal year month day ≤ daysBeforeYear (year + 1) := by
  have hmonth : daysBeforeMonth year (month + 1) ≤ daysBeforeMonth year 13 :=
    daysBeforeMonth_mono year (by have := h.month_le; omega)
  calc ordinal year month day ≤ daysBeforeYear year + daysBeforeMonth year (month + 1) := h.ordinal_le_month_end
    _ ≤ daysBeforeYear year + daysBeforeMonth year 13 := Nat.add_le_add_left hmonth _
    _ = daysBeforeYear (year + 1) := (daysBeforeYear_succ h.year_pos).symm

theorem daysBeforeYear_mono : Monotone daysBeforeYear := by
  refine monotone_nat_of_le_succ fun year => ?_
  by_cases h : 1 ≤ year
  · rw [daysBeforeYear_succ h]
    exact Nat.le_add_right _ _
  · obtain rfl : year = 0 := by omega
    exact le_rfl

/-- The dates lie in the range of `datetime`. -/
theorem ValidDate.ordinal_le (h : ValidDate year month day) : ordinal year month day ≤ 3652059 := by
  calc ordinal year month day ≤ daysBeforeYear (year + 1) := h.ordinal_le_year_end
    _ ≤ daysBeforeYear 10000 := daysBeforeYear_mono (Nat.succ_le_succ h.year_le)
    _ = 3652059 := by decide

theorem ValidDate.ordinal_lt_of_year_lt (h : ValidDate year month day) (h' : ValidDate year' month' day')
    (hlt : year < year') : ordinal year month day < ordinal year' month' day' := by
  have hnext : daysBeforeYear (year + 1) ≤ daysBeforeYear year' := daysBeforeYear_mono hlt
  have hend := h.ordinal_le_year_end
  have hday := h'.day_pos
  rw [ordinal_eq year' month' day']
  omega

theorem ValidDate.ordinal_lt_of_month_lt (h : ValidDate year month day) (h' : ValidDate year month' day')
    (hlt : month < month') : ordinal year month day < ordinal year month' day' := by
  have hnext : daysBeforeMonth year (month + 1) ≤ daysBeforeMonth year month' := daysBeforeMonth_mono year hlt
  have hend := h.ordinal_le_month_end
  have hday := h'.day_pos
  rw [ordinal_eq year month' day']
  omega

/-- A date is determined by its ordinal. -/
theorem ValidDate.eq_of_ordinal_eq (h : ValidDate year month day) (h' : ValidDate year' month' day')
    (heq : ordinal year month day = ordinal year' month' day') : year = year' ∧ month = month' ∧ day = day' := by
  have hyear : year = year' := by
    by_contra hne
    rcases Nat.lt_or_gt_of_ne hne with hlt | hlt
    · exact absurd heq (h.ordinal_lt_of_year_lt h' hlt).ne
    · exact absurd heq (h'.ordinal_lt_of_year_lt h hlt).ne'
  subst hyear
  have hmonth : month = month' := by
    by_contra hne
    rcases Nat.lt_or_gt_of_ne hne with hlt | hlt
    · exact absurd heq (h.ordinal_lt_of_month_lt h' hlt).ne
    · exact absurd heq (h'.ordinal_lt_of_month_lt h hlt).ne'
  subst hmonth
  exact ⟨rfl, rfl, Nat.add_left_cancel heq⟩

end Order

end IsoFormat

/-! ### Civil times -/

open IsoFormat

/-- A time in UTC to the tenth of a microsecond, in civil fields. -/
structure CivilTime where
  year : Nat
  month : Nat
  day : Nat
  hour : Nat
  minute : Nat
  second : Nat
  /-- Units of 100 ns. -/
  ticks : Nat
  date : ValidDate year month day
  hour_lt : hour < 24
  minute_lt : minute < 60
  second_lt : second < 60
  ticks_lt : ticks < 10 ^ 7

namespace CivilTime

/-- The microseconds since `0001-01-01T00:00`. -/
def micros (t : CivilTime) : Nat :=
  (ordinal t.year t.month t.day - 1) * 86400000000 +
    (t.hour * 3600 + t.minute * 60 + t.second) * 1000000 + t.ticks / 10

theorem one_le_ordinal (t : CivilTime) : 1 ≤ ordinal t.year t.month t.day := by
  rw [ordinal_eq]
  have := t.date.day_pos
  omega

theorem micros_lt (t : CivilTime) : t.micros < wallLimit := by
  have hordinal := t.date.ordinal_le
  have hhour := t.hour_lt
  have hminute := t.minute_lt
  have hsecond := t.second_lt
  have hticks := t.ticks_lt
  unfold micros wallLimit
  omega

/-- The wall clock to the microsecond. -/
def wall (t : CivilTime) : Fin wallLimit := ⟨t.micros, t.micros_lt⟩

/-- **Every wall clock is that of a civil time.** -/
theorem exists_wall (w : Fin wallLimit) : ∃ t : CivilTime, t.wall = w := by
  obtain ⟨w, hw⟩ := w
  unfold wallLimit at hw
  obtain ⟨year, month, day, hdate, hordinal⟩ := @exists_date (w / 86400000000 + 1) (by omega) (by omega)
  let t : CivilTime :=
    { year := year
      month := month
      day := day
      hour := w % 86400000000 / 3600000000
      minute := w % 3600000000 / 60000000
      second := w % 60000000 / 1000000
      ticks := w % 1000000 * 10
      date := hdate
      hour_lt := by omega
      minute_lt := by omega
      second_lt := by omega
      ticks_lt := by omega }
  refine ⟨t, Fin.ext ?_⟩
  show (ordinal year month day - 1) * 86400000000 + (w % 86400000000 / 3600000000 * 3600 +
    w % 3600000000 / 60000000 * 60 + w % 60000000 / 1000000) * 1000000 + w % 1000000 * 10 / 10 = w
  rw [hordinal]
  omega

/-- The time without its last digit. -/
def truncated (t : CivilTime) : CivilTime :=
  { t with
    ticks := t.ticks / 10 * 10
    ticks_lt := by
      have := t.ticks_lt
      omega }

theorem wall_truncated (t : CivilTime) : t.truncated.wall = t.wall := by
  have hticks : t.ticks / 10 * 10 / 10 = t.ticks / 10 := by omega
  simp only [wall, micros, truncated, hticks]

/-- The fields that the microseconds determine. -/
theorem fields_of_micros (t : CivilTime) :
    ordinal t.year t.month t.day = t.micros / 86400000000 + 1 ∧ t.hour = t.micros % 86400000000 / 3600000000 ∧
      t.minute = t.micros % 3600000000 / 60000000 ∧ t.second = t.micros % 60000000 / 1000000 ∧
      t.ticks / 10 = t.micros % 1000000 := by
  have hone := t.one_le_ordinal
  have hhour := t.hour_lt
  have hminute := t.minute_lt
  have hsecond := t.second_lt
  have hticks := t.ticks_lt
  unfold micros
  omega

/-- A wall clock determines the time up to its last digit. -/
theorem wall_eq_iff {t t' : CivilTime} : t.wall = t'.wall ↔ t.truncated = t'.truncated := by
  constructor
  · intro h
    have hmicros : t.micros = t'.micros := congrArg Fin.val h
    obtain ⟨hordinal, hhour, hminute, hsecond, hticks⟩ := t.fields_of_micros
    obtain ⟨hordinal', hhour', hminute', hsecond', hticks'⟩ := t'.fields_of_micros
    rw [hmicros] at hordinal hhour hminute hsecond hticks
    obtain ⟨hyear, hmonth, hday⟩ := t.date.eq_of_ordinal_eq t'.date (hordinal.trans hordinal'.symm)
    simp only [truncated, mk.injEq]
    omega
  · intro h
    rw [← t.wall_truncated, h, t'.wall_truncated]

/-! ### The text -/

/-- `YYYY-MM-DD` and what follows. -/
def dateThen (t : CivilTime) (rest : List Char) : List Char :=
  padded 4 t.year ++ '-' :: (padded 2 t.month ++ '-' :: (padded 2 t.day ++ rest))

/-- `HH:MM:SS.fffffff` and what follows. -/
def clockThen (t : CivilTime) (rest : List Char) : List Char :=
  padded 2 t.hour ++ ':' :: (padded 2 t.minute ++ ':' :: (padded 2 t.second ++ '.' :: (padded 7 t.ticks ++ rest)))

/-- `YYYY-MM-DDTHH:MM:SS.fffffff` and what follows. -/
def textThen (t : CivilTime) (zone : List Char) : List Char := t.dateThen ('T' :: t.clockThen zone)

variable (t : CivilTime) (rest : List Char)

theorem year_lt : t.year < 10 ^ 4 := by
  have := t.date.year_le
  omega

theorem month_lt : t.month < 10 ^ 2 := by
  have := t.date.month_le
  omega

theorem day_lt : t.day < 10 ^ 2 := by
  have h : daysInMonth t.year t.month ≤ 31 := by
    unfold daysInMonth
    split
    · split_ifs <;> decide
    all_goals decide
  have := t.date.day_le
  omega

theorem drop_dateThen : (t.dateThen rest).drop 10 = rest := by
  have h : t.dateThen rest = (padded 4 t.year ++ '-' :: (padded 2 t.month ++ '-' :: padded 2 t.day)) ++ rest := by
    simp [dateThen]
  rw [h]
  refine List.drop_left' ?_
  simp only [List.length_append, List.length_cons, length_padded]

theorem length_dateThen : (t.dateThen rest).length = 10 + rest.length := by
  simp only [dateThen, List.length_append, List.length_cons, length_padded]
  omega

/-- The date is no week date. -/
theorem peek_month_ne : peek (padded 2 t.month ++ rest) ≠ 'W' :=
  ne_of_isAsciiDigit (isAsciiDigit_peek_padded 1 t.month rest) (by decide)

/-- The separator of date and time stands behind the date. -/
theorem separator_dateThen : separator (t.dateThen rest) = some 10 := by
  have hlength := t.length_dateThen rest
  have hdrop : (t.dateThen rest).drop 4 = '-' :: (padded 2 t.month ++ '-' :: (padded 2 t.day ++ rest)) :=
    List.drop_left' (length_padded 4 t.year)
  have hdrop' : (t.dateThen rest).drop 5 = padded 2 t.month ++ '-' :: (padded 2 t.day ++ rest) := by
    rw [show 5 = 4 + 1 from rfl, ← List.drop_drop, hdrop]
    rfl
  have hdash : peek ((t.dateThen rest).drop 4) = '-' := by rw [hdrop]; rfl
  have hweek : ¬ peek ((t.dateThen rest).drop 5) = 'W' := by
    rw [hdrop']
    exact t.peek_month_ne _
  unfold separator
  dsimp only
  rw [if_neg (by omega), if_pos hdash, if_neg hweek]

theorem parseDate_dateThen : parseDate (t.dateThen rest) 10 = some ((ordinal t.year t.month t.day : Nat) : Int) := by
  have hweek := t.peek_month_ne ('-' :: (padded 2 t.day ++ rest))
  have hdate := t.date
  have hvalid : 1 ≤ t.year ∧ 1 ≤ t.month ∧ t.month ≤ 12 ∧ 1 ≤ t.day ∧ t.day ≤ daysInMonth t.year t.month :=
    ⟨hdate.year_pos, hdate.month_pos, hdate.month_le, hdate.day_pos, hdate.day_le⟩
  have hdash (l : List Char) : peek ('-' :: l) = '-' := rfl
  unfold parseDate dateThen
  simp only [parseDigits_padded t.year_lt, Option.bind_eq_bind, Option.bind_some, hdash, if_true,
    List.drop_one, List.tail_cons, if_neg hweek, parseDigits_padded t.month_lt, parseDigits_padded t.day_lt,
    if_pos hvalid]
  simp

/-- A component of the time that is not the last one. -/
theorem parseHms_colon {sep : Option Bool} {v n : Nat} (hv : v < 10 ^ 2) (hn : 3 < n)
    (hsep : sep.getD true = true) (hms : Hms) (set : Hms → Nat → Hms) (sets : List (Hms → Nat → Hms)) :
    parseHms sep hms (padded 2 v ++ ':' :: rest) n (set :: sets) =
      parseHms (some true) (set hms v) rest (n - 3) sets := by
  have hpeek : peek (':' :: rest) = ':' := rfl
  have hcolon : (sep.getD (peek (':' :: rest) == ':')) = true := hsep
  rw [parseHms, parseDigits_padded hv]
  show (if n ≤ 3 then _ else _) = _
  rw [if_neg (by omega), hcolon, if_pos ⟨rfl, hpeek⟩]
  rfl

/-- The component before the fraction of a second. -/
theorem parseHms_point {v n : Nat} (hv : v < 10 ^ 2) (hn : 3 < n) (hms : Hms) (set : Hms → Nat → Hms)
    (sets : List (Hms → Nat → Hms)) :
    parseHms (some true) hms (padded 2 v ++ '.' :: rest) n (set :: sets) =
      parseFraction (set hms v) rest (n - 3) := by
  rw [parseHms, parseDigits_padded hv]
  show (if n ≤ 3 then _ else _) = _
  have hpeek : ¬ (true = true ∧ peek ('.' :: rest) = ':') := by
    intro h
    exact absurd h.2 (by decide : ¬ '.' = ':')
  have hpoint : peek ('.' :: rest) = '.' ∨ peek ('.' :: rest) = ',' := Or.inl rfl
  rw [if_neg (by omega), Option.getD_some, if_neg hpeek, if_pos hpoint]
  rfl

/-- The seventh digit of the fraction is dropped. -/
theorem parseFraction_ticks (hms : Hms) (hrest : isAsciiDigit (peek rest) = false) :
    parseFraction hms (padded 7 t.ticks ++ rest) 7 =
      some ({ hms with micros := t.ticks / 10 }, peek rest != Char.ofNat 0) := by
  have hsplit : padded 7 t.ticks ++ rest = padded 6 (t.ticks / 10) ++ digit (t.ticks % 10) :: rest := by
    rw [padded, List.append_assoc, List.singleton_append]
  have hlt : t.ticks / 10 < 10 ^ 6 := by
    have := t.ticks_lt
    omega
  have hdigit := (digit_spec (Nat.mod_lt t.ticks (show 0 < 10 by decide))).1
  have hdrop : (digit (t.ticks % 10) :: rest).dropWhile isAsciiDigit = rest := by
    rw [List.dropWhile_cons_of_pos hdigit]
    cases rest with
    | nil => rfl
    | cons c l =>
      refine List.dropWhile_cons_of_neg ?_
      rw [show isAsciiDigit c = false from hrest]
      decide
  rw [hsplit]
  unfold parseFraction
  dsimp only
  rw [show min 7 6 = 6 from rfl, parseDigits_padded hlt]
  show some (_, _) = _
  rw [hdrop]
  simp

/-- The time of day that is read. -/
def hms : Hms := { hour := t.hour, minute := t.minute, second := t.second, micros := t.ticks / 10 }

theorem parseClock_clockThen (hrest : isAsciiDigit (peek rest) = false) :
    parseClock (t.clockThen rest) 16 = some (t.hms, peek rest != Char.ofNat 0) := by
  have hhour : t.hour < 10 ^ 2 := t.hour_lt.trans (by decide)
  have hminute : t.minute < 10 ^ 2 := t.minute_lt.trans (by decide)
  have hsecond : t.second < 10 ^ 2 := t.second_lt.trans (by decide)
  unfold parseClock clockThen
  rw [parseHms_colon _ hhour (by decide) rfl, parseHms_colon _ hminute (by decide) rfl,
    parseHms_point _ hsecond (by decide), parseFraction_ticks t rest _ hrest]
  rfl

/-- The characters of a time of day. -/
theorem clockThen_eq : ∃ clock : List Char, (∀ l, t.clockThen l = clock ++ l) ∧ clock.length = 16 ∧
    ∀ c ∈ clock, isAsciiDigit c = true ∨ c = ':' ∨ c = '.' := by
  refine ⟨t.clockThen [], fun l => ?_, ?_, fun c hc => ?_⟩
  · simp [clockThen]
  · simp [clockThen, length_padded]
  · simp only [clockThen, List.mem_append, List.mem_cons, List.append_nil] at hc
    rcases hc with h | rfl | h | rfl | h | rfl | h
    · exact Or.inl (isAsciiDigit_of_mem_padded h)
    · exact Or.inr (Or.inl rfl)
    · exact Or.inl (isAsciiDigit_of_mem_padded h)
    · exact Or.inr (Or.inl rfl)
    · exact Or.inl (isAsciiDigit_of_mem_padded h)
    · exact Or.inr (Or.inr rfl)
    · exact Or.inl (isAsciiDigit_of_mem_padded h)

/-- The zone of an offset of zero. -/
def zulu : List Char := "+00:00".toList

theorem parseTime_clockThen : parseTime (t.clockThen zulu) = some (t.hms, some .utc) := by
  obtain ⟨clock, hclock, hlength, hchars⟩ := t.clockThen_eq
  have hsign : ∀ c ∈ clock, ¬ (c == '+' || c == '-' || c == 'Z') = true := by
    intro c hc hsign
    have hcases : c = '+' ∨ c = '-' ∨ c = 'Z' := by simpa [or_assoc] using hsign
    rcases hchars c hc with h | rfl | rfl
    · rcases hcases with rfl | rfl | rfl
      all_goals exact absurd h (by decide)
    · exact absurd hsign (by decide)
    · exact absurd hsign (by decide)
  have hfind : (t.clockThen zulu).findIdx? (fun c => c == '+' || c == '-' || c == 'Z') = some 16 := by
    rw [hclock, List.findIdx?_append, List.findIdx?_eq_none_iff.mpr (by simpa using hsign), hlength]
    rfl
  have hdrop : (t.clockThen zulu).drop 16 = zulu := by
    rw [hclock]
    exact List.drop_left' hlength
  have hdrop' : (t.clockThen zulu).drop (16 + 1) = "00:00".toList := by
    rw [← List.drop_drop, hdrop]
    rfl
  unfold parseTime
  rw [hfind]
  dsimp only
  rw [parseClock_clockThen t zulu (by decide), hdrop, hdrop']
  rfl

/-- Nothing but ASCII is written. -/
theorem utf8_textThen : utf8 (t.textThen zulu) = t.textThen zulu := by
  refine utf8_of_isAscii fun c hc => ?_
  simp only [textThen, dateThen, clockThen, List.mem_append, List.mem_cons] at hc
  have hdigits {k n : Nat} (h : c ∈ padded k n) : isAscii c = true :=
    isAscii_of_isAsciiDigit (isAsciiDigit_of_mem_padded h)
  have hzone : ∀ d ∈ zulu, isAscii d = true := List.all_eq_true.mp rfl
  rcases hc with h | rfl | h | rfl | h | rfl | h | rfl | h | rfl | h | rfl | h | h
  all_goals first | exact hdigits h | exact hzone c h | rfl

/-- **A time that was written is read back**, to the microsecond. -/
theorem read_textThen : IsoFormat.read (t.textThen zulu) = some ⟨t.wall, some .utc⟩ := by
  have hlength : (t.textThen zulu).length = 10 + ('T' :: t.clockThen zulu).length := t.length_dateThen _
  have hrest : parseRest (t.textThen zulu) 10 = some (t.hms, some .utc) := by
    have hdrop : (t.textThen zulu).drop 10 = 'T' :: t.clockThen zulu := t.drop_dateThen _
    rw [parseRest, if_pos (by rw [hlength, List.length_cons]; omega), ← List.drop_drop, hdrop]
    exact t.parseTime_clockThen
  have hwall : wall? ((((ordinal t.year t.month t.day : Nat) : Int) - 1) * 86400000000 +
      ((t.hms.hour : Int) * 3600 + t.hms.minute * 60 + t.hms.second) * 1000000 + t.hms.micros) = some t.wall := by
    rw [wall?_eq_some]
    have hone := t.one_le_ordinal
    show ((t.micros : Nat) : Int) = _
    unfold micros hms
    dsimp only
    omega
  unfold IsoFormat.read
  rw [if_neg (by omega), utf8_textThen]
  dsimp only
  rw [textThen, separator_dateThen, ← textThen]
  show (parseDate (t.textThen zulu) 10 >>= _) = _
  rw [textThen, parseDate_dateThen, ← textThen]
  show (parseRest (t.textThen zulu) 10 >>= _) = _
  rw [hrest]
  show (if t.hour < 24 ∧ t.minute < 60 ∧ t.second < 60 then _ else _) = _
  rw [if_pos ⟨t.hour_lt, t.minute_lt, t.second_lt⟩]
  show (wall? _ >>= _) = _
  rw [hwall]
  rfl

theorem fromisoformat_textThen : fromisoformat (String.ofList (t.textThen zulu)) = .ok ⟨t.wall, some .utc⟩ := by
  rw [fromisoformat, String.toList_ofList, read_textThen]

theorem textThen_append (zone : List Char) : t.textThen zone = t.textThen [] ++ zone := by
  simp [textThen, dateThen, clockThen]

/-- `YYYY-MM-DDTHH:MM:SS.fffffffZ`. -/
def iso : String := String.ofList (t.textThen ['Z'])

theorem isSpace_of_isAsciiDigit {c : Char} (h : isAsciiDigit c = true) : isSpace c = false := by
  simp only [isAsciiDigit, Bool.and_eq_true, decide_eq_true_eq, Char.le_def, UInt32.le_iff_toNat_le] at h
  have hlow : 48 ≤ c.toNat := h.1
  have hhigh : c.toNat ≤ 57 := h.2
  simp [isSpace]
  omega

/-- There is no white space in a time that is written. -/
theorem strip_iso : strip t.iso = t.iso := by
  refine strip_of_no_space fun c hc => ?_
  simp only [iso, String.toList_ofList, textThen, dateThen, clockThen, List.mem_append, List.mem_cons,
    List.not_mem_nil, or_false] at hc
  have hdigits {k n : Nat} (h : c ∈ padded k n) : isSpace c = false :=
    isSpace_of_isAsciiDigit (isAsciiDigit_of_mem_padded h)
  rcases hc with h | rfl | h | rfl | h | rfl | h | rfl | h | rfl | h | rfl | h | rfl
  all_goals first | exact hdigits h | decide

end CivilTime

end Py
