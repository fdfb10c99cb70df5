import SocLab.Py.Builtin
import Mathlib.Order.Fin.Basic
import Mathlib.Order.Lattice

/-!
# SocLab.Py.DateTime — `datetime.datetime`, its time zones and `fromisoformat`

A `DateTime` is a wall clock, counted in microseconds from `0001-01-01T00:00`, with an optional time
zone.  An `Instant` is a `DateTime` in the zone `datetime.UTC`.

* `utcoffset` and `astimezone` are the methods of the same names; `astimezone` goes to UTC and fails
  when the instant lies outside the years 1 to 9999.
* `fromisoformat` follows the reader of CPython 3.12, which accepts more than ISO 8601 and reads the bytes of
  the text in UTF-8: only the separator of date and time may be a character of several bytes.
-/

namespace Py

/-- The number of microseconds in the years 1 to 9999. -/
def wallLimit : Nat := 3652059 * 86400000000

/-- The wall clock at `n` microseconds, when it is in the range of `datetime`. -/
def wall? (n : Int) : Option (Fin wallLimit) :=
  if h : 0 ≤ n ∧ n < wallLimit then some ⟨n.toNat, by omega⟩ else none

theorem wall?_eq_some {n : Int} {w : Fin wallLimit} : wall? n = some w ↔ ((w : Nat) : Int) = n := by
  have hw : (w : Nat) < wallLimit := w.isLt
  unfold wall?
  split_ifs with h
  · rw [Option.some.injEq, Fin.ext_iff]
    dsimp only
    omega
  · refine iff_of_false (by simp) ?_
    omega

/-- An offset from UTC in microseconds: strictly between minus and plus one day. -/
structure Offset where
  micros : Int
  bound : -86400000000 < micros ∧ micros < 86400000000
  deriving DecidableEq

namespace Offset

/-- The offset of UTC. -/
def zero : Offset := ⟨0, by decide⟩

/-- The offset of so many microseconds, if it is less than a day. -/
def of? (n : Int) : Option Offset :=
  if h : -86400000000 < n ∧ n < 86400000000 then some ⟨n, h⟩ else none

end Offset

/-- A value in the zone `datetime.UTC`. -/
structure Instant where
  wall : Fin wallLimit
  deriving DecidableEq

/-- Instants compare as their wall clocks. -/
instance : LinearOrder Instant :=
  LinearOrder.lift' Instant.wall fun a b h => by cases a; cases b; simpa using h

instance exceptDecidableEq {ε α : Type} [DecidableEq ε] [DecidableEq α] : DecidableEq (Except ε α)
  | .ok a, .ok b => decidable_of_iff (a = b) (by simp)
  | .error e, .error e' => decidable_of_iff (e = e') (by simp)
  | .ok _, .error _ => .isFalse nofun
  | .error _, .ok _ => .isFalse nofun

/-- A `tzinfo` object.  `utc` is the object `datetime.UTC` and `fixed` any other `timezone`; `custom`
is a caller's class, by what it does to one value: what the lookup of its offset answers, what the
conversion to UTC gives, and what a deep copy of the object raises, if it does. -/
inductive TzInfo where
  | utc
  | fixed (offset : Offset)
  | custom (lookup : Except Exc (Option Offset)) (convert : Except Exc Instant) (copy : Option Exc)
  deriving DecidableEq

/-- A `datetime`: the wall clock, and the zone if there is one. -/
structure DateTime where
  wall : Fin wallLimit
  tzinfo : Option TzInfo
  deriving DecidableEq

namespace Instant

/-- The instant as a `datetime` in UTC. -/
def toDateTime (i : Instant) : DateTime := ⟨i.wall, some .utc⟩

@[simp] theorem toDateTime_wall (i : Instant) : i.toDateTime.wall = i.wall := rfl

@[simp] theorem toDateTime_tzinfo (i : Instant) : i.toDateTime.tzinfo = some .utc := rfl

end Instant

namespace DateTime

/-- `d.utcoffset()`. -/
def utcoffset (d : DateTime) : Except Exc (Option Offset) :=
  match d.tzinfo with
  | none => .ok none
  | some .utc => .ok (some .zero)
  | some (.fixed o) => .ok (some o)
  | some (.custom lookup _ _) => lookup

/-- `d.astimezone(UTC)`.  A naive value would be read in the zone of the system, taken to be UTC here;
no caller passes one. -/
def astimezone (d : DateTime) : Except Exc Instant :=
  match d.tzinfo with
  | none => .ok ⟨d.wall⟩
  | some .utc => .ok ⟨d.wall⟩
  | some (.fixed o) =>
    match wall? ((d.wall : Int) - o.micros) with
    | some w => .ok ⟨w⟩
    | none => .error .overflowError
  | some (.custom _ convert _) => convert

/-- An aware value, whose offset can be looked up. -/
def Aware (d : DateTime) : Prop := ∃ o, d.utcoffset = .ok (some o)

/-- An aware value whose instant lies outside the years 1 to 9999. -/
def OutOfRange (d : DateTime) : Prop :=
  ∃ o, d.utcoffset = .ok (some o) ∧
    ¬ (0 ≤ (d.wall : Int) - o.micros ∧ (d.wall : Int) - o.micros < wallLimit)

instance (d : DateTime) : Decidable d.Aware :=
  match h : d.utcoffset with
  | .ok (some o) => .isTrue ⟨o, h⟩
  | .ok none => .isFalse fun ⟨_, ho⟩ => by rw [h] at ho; simp at ho
  | .error _ => .isFalse fun ⟨_, ho⟩ => by rw [h] at ho; simp at ho

@[simp] theorem utcoffset_toDateTime (i : Instant) :
    i.toDateTime.utcoffset = .ok (some .zero) := rfl

@[simp] theorem astimezone_toDateTime (i : Instant) : i.toDateTime.astimezone = .ok i := rfl

theorem aware_toDateTime (i : Instant) : i.toDateTime.Aware := ⟨.zero, rfl⟩

theorem not_outOfRange_utc (w : Fin wallLimit) : ¬ OutOfRange ⟨w, some .utc⟩ := by
  rintro ⟨o, ho, h⟩
  cases ho
  have hw : ((w : Nat) : Int) < wallLimit := Int.ofNat_lt.mpr w.isLt
  simp only [Offset.zero] at h
  omega

theorem astimezone_fixed_error {w : Fin wallLimit} {o : Offset} {e : Exc} :
    astimezone ⟨w, some (.fixed o)⟩ = .error e ↔
      e = .overflowError ∧ OutOfRange ⟨w, some (.fixed o)⟩ := by
  have hrange : OutOfRange ⟨w, some (.fixed o)⟩ ↔
      ¬ (0 ≤ (w : Int) - o.micros ∧ (w : Int) - o.micros < wallLimit) := by
    constructor
    · rintro ⟨o', ho, h⟩
      cases ho
      exact h
    · exact fun h => ⟨o, rfl, h⟩
  rw [hrange]
  simp only [astimezone, wall?]
  split_ifs with h
  · exact iff_of_false (fun he => by cases he) fun hand => hand.2 h
  · exact ⟨fun he => ⟨(Except.error.inj he).symm, h⟩, fun hand => hand.1 ▸ rfl⟩

theorem astimezone_fixed_eq_ok {w : Fin wallLimit} {o : Offset} {i : Instant} :
    astimezone ⟨w, some (.fixed o)⟩ = .ok i ↔ ((i.wall : Nat) : Int) = (w : Int) - o.micros := by
  rw [← wall?_eq_some, astimezone]
  dsimp only
  obtain ⟨wall⟩ := i
  cases wall? ((w : Int) - o.micros) <;> simp

/-- `a == b`: in one zone the wall clocks are compared, otherwise the instants. -/
def eq (a b : DateTime) : Bool :=
  if a.tzinfo = b.tzinfo then a.wall == b.wall
  else match a.utcoffset, b.utcoffset with
    | .ok (some o), .ok (some o') => (a.wall : Int) - o.micros == (b.wall : Int) - o'.micros
    | .ok none, .ok none => a.wall == b.wall
    | _, _ => false

@[simp] theorem eq_self (a : DateTime) : a.eq a = true := by simp [eq]

end DateTime

/-! ### Reading a date and time -/

namespace IsoFormat

/-- Exactly `n` ASCII digits at the head of the text, and what follows them. -/
def parseDigits : Nat → List Char → Option (Nat × List Char)
  | n, l =>
    let ds := l.take n
    if ds.length = n ∧ ds.all isAsciiDigit then
      some (ds.foldl (fun acc c => acc * 10 + (c.toNat - 0x30)) 0, l.drop n)
    else none

/-- The character at the head; the text ends with a NUL. -/
def peek (l : List Char) : Char := l.headD (Char.ofNat 0)

/-- `calendar.isleap`. -/
def isLeap (year : Nat) : Bool := year % 4 == 0 && (year % 100 != 0 || year % 400 == 0)

/-- The number of days, February by the year. -/
def daysInMonth (year month : Nat) : Nat :=
  match month with
  | 2 => if isLeap year then 29 else 28
  | 4 | 6 | 9 | 11 => 30
  | _ => 31

/-- The number of days before the first of January of `year`. -/
def daysBeforeYear (year : Nat) : Nat :=
  let y := year - 1
  y * 365 + y / 4 - y / 100 + y / 400

/-- The ordinal of a date; `0001-01-01` is day 1. -/
def ordinal (year month day : Nat) : Nat :=
  daysBeforeYear year + ((List.range' 1 (month - 1)).map (daysInMonth year)).sum + day

/-- The ordinal of the Monday that starts week 1 of an ISO year. -/
def isoWeek1Monday (year : Nat) : Int :=
  let first : Int := ordinal year 1 1
  let weekday := (first + 6) % 7
  let monday := first - weekday
  if weekday > 3 then monday + 7 else monday

/-- The ordinal of an ISO week date. -/
def isoOrdinal (year week day : Nat) : Option Int :=
  let weekday := (ordinal year 1 1) % 7
  let longYear := weekday == 4 || (weekday == 3 && isLeap year)
  if 1 ≤ year ∧ (1 ≤ week ∧ week ≤ 52 ∨ week = 53 ∧ longYear) ∧ 1 ≤ day ∧ day ≤ 7 then
    some (isoWeek1Monday year + ((week : Int) - 1) * 7 + ((day : Int) - 1))
  else none

/-- The date in the first `len` characters of the text, as an ordinal. -/
def parseDate (l : List Char) (len : Nat) : Option Int := do
  let (year, l') ← parseDigits 4 l
  let sep := peek l' = '-'
  let l' := if sep then l'.drop 1 else l'
  if peek l' = 'W' then
    -- a week date: the day is optional and is Monday if left out
    let (week, l') ← parseDigits 2 (l'.drop 1)
    if l.length - l'.length < len then
      if sep ∧ peek l' ≠ '-' then none
      else
        let (day, _) ← parseDigits 1 (if sep then l'.drop 1 else l')
        isoOrdinal year week day
    else isoOrdinal year week 1
  else
    let (month, l') ← parseDigits 2 l'
    if sep ∧ peek l' ≠ '-' then none
    else
      let (day, _) ← parseDigits 2 (if sep then l'.drop 1 else l')
      if 1 ≤ year ∧ 1 ≤ month ∧ month ≤ 12 ∧ 1 ≤ day ∧ day ≤ daysInMonth year month then
        some (ordinal year month day : Int)
      else none

/-- A time of day, read so far. -/
structure Hms where
  hour : Nat := 0
  minute : Nat := 0
  second : Nat := 0
  micros : Nat := 0

/-- The fraction of a second in the next `n` characters; digits after the sixth are dropped.  The
Boolean says whether text follows. -/
def parseFraction (t : Hms) (l : List Char) (n : Nat) : Option (Hms × Bool) := do
  let k := min n 6
  let (v, l) ← parseDigits k l
  let l := l.dropWhile isAsciiDigit
  some ({ t with micros := v * 10 ^ (6 - k) }, peek l != Char.ofNat 0)

/-- The components of `HH[:?MM[:?SS[{.,}ffffff]]]` that `sets` still has to store, in the next `n`
characters.  `sep` says, once the first component is read, whether `:` separates them; the Boolean of
the result whether text follows. -/
def parseHms (sep : Option Bool) (t : Hms) (l : List Char) (n : Nat) :
    List (Hms → Nat → Hms) → Option (Hms × Bool)
  | [] => parseFraction t l n
  | set :: sets => do
    let (v, l') ← parseDigits 2 l
    let c := peek l'
    let colon := sep.getD (c == ':')
    if n ≤ 3 then some (set t v, c != Char.ofNat 0)
    else if colon ∧ c = ':' then parseHms (some colon) (set t v) (l'.drop 1) (n - 3) sets
    else if c = '.' ∨ c = ',' then parseFraction (set t v) (l'.drop 1) (n - 3)
    else if ¬ colon then parseHms (some colon) (set t v) l' (n - 2) sets
    else none

/-- A time of day in the next `n` characters. -/
def parseClock (l : List Char) (n : Nat) : Option (Hms × Bool) :=
  parseHms none {} l n [fun t v => { t with hour := v }, fun t v => { t with minute := v },
    fun t v => { t with second := v }]

/-- The zone of an offset of `seconds` and `micros`; none when it is a day or more. -/
def zoneOf (seconds micros : Int) : Option TzInfo :=
  if seconds = 0 then some .utc
  else (Offset.of? (seconds * 1000000 + micros)).map .fixed

/-- The time of day and the zone. -/
def parseTime (l : List Char) : Option (Hms × Option TzInfo) :=
  match l.findIdx? (fun c => c == '+' || c == '-' || c == 'Z') with
  | none => do
    let (t, more) ← parseClock l l.length
    if more then none else some (t, none)
  | some k => do
    -- whether something is left of the clock before the zone is not looked at
    let (t, _) ← parseClock l k
    let rest := l.drop (k + 1)
    if peek (l.drop k) = 'Z' then
      if peek rest ≠ Char.ofNat 0 then none else some (t, some .utc)
    else
      let sign : Int := if peek (l.drop k) = '-' then -1 else 1
      let (z, more) ← parseClock rest rest.length
      if more then none
      else
        let tz ← zoneOf (sign * (z.hour * 3600 + z.minute * 60 + z.second)) (sign * z.micros)
        some (t, some tz)

/-- Where the separator of date and time stands. -/
def separator (l : List Char) : Option Nat :=
  let at' (i : Nat) : Char := peek (l.drop i)
  let len := l.length
  if len = 7 then some 7
  else if at' 4 = '-' then
    if at' 5 = 'W' then
      if 8 < len ∧ at' 8 = '-' then
        if len = 9 then none
        else if 10 < len ∧ isAsciiDigit (at' 10) then some 8
        else some 10
      else some 8
    else some 10
  else if at' 4 = 'W' then
    -- the digits behind the week decide whether the day of the week is among them
    let pos := 7 + ((l.drop 7).takeWhile isAsciiDigit).length
    if pos < 9 then some pos else if pos % 2 = 0 then some 7 else some 8
  else some 8

/-- The number of bytes of the character that starts with this byte. -/
def width (c : Char) : Nat :=
  if c.toNat < 0x80 then 1
  else if 0xe0 ≤ c.toNat ∧ c.toNat < 0xf0 then 3
  else if 0xf0 ≤ c.toNat then 4
  else 2

/-- The time of day and the zone behind the separator at `loc`, or midnight without a zone. -/
def parseRest (l : List Char) (loc : Nat) : Option (Hms × Option TzInfo) :=
  if loc < l.length then parseTime (l.drop (loc + width (peek (l.drop loc)))) else some ({}, none)

/-- The text in UTF-8, each byte as the character with its number. -/
def utf8 (l : List Char) : List Char :=
  l.flatMap fun c => (String.utf8EncodeChar c).map fun byte => Char.ofNat byte.toNat

/-- The value of a whole text. -/
def read (text : List Char) : Option DateTime := do
  -- the length is counted in characters; everything behind it counts bytes
  if text.length < 7 then none
  else
    let l := utf8 text
    let loc ← separator l
    let day ← parseDate l loc
    let (t, tz) ← parseRest l loc
    if t.hour < 24 ∧ t.minute < 60 ∧ t.second < 60 then
      let seconds : Int := t.hour * 3600 + t.minute * 60 + t.second
      let wall ← wall? ((day - 1) * 86400000000 + seconds * 1000000 + t.micros)
      some ⟨wall, tz⟩
    else none

end IsoFormat

/-- `datetime.fromisoformat(text)`. -/
def fromisoformat (text : String) : Except Exc DateTime :=
  match IsoFormat.read text.toList with
  | some d => .ok d
  | none => .error .valueError

namespace IsoFormat

/-- A zone that was read is UTC or a fixed offset. -/
def Standard (tz : Option TzInfo) : Prop := tz = none ∨ tz = some .utc ∨ ∃ o, tz = some (.fixed o)

theorem zoneOf_standard {seconds micros : Int} {tz : TzInfo} (h : zoneOf seconds micros = some tz) :
    Standard (some tz) := by
  unfold zoneOf at h
  split_ifs at h
  · cases h
    exact Or.inr (Or.inl rfl)
  · obtain ⟨o, -, rfl⟩ := Option.map_eq_some_iff.mp h
    exact Or.inr (Or.inr ⟨o, rfl⟩)

theorem parseTime_standard {l : List Char} {t : Hms} {tz : Option TzInfo}
    (h : parseTime l = some (t, tz)) : Standard tz := by
  unfold parseTime at h
  split at h
  · obtain ⟨⟨t', more⟩, -, h⟩ := Option.bind_eq_some_iff.mp h
    dsimp only at h
    split_ifs at h
    cases h
    exact Or.inl rfl
  · next k _ =>
    obtain ⟨⟨t', more⟩, -, h⟩ := Option.bind_eq_some_iff.mp h
    dsimp only at h
    by_cases hz : peek (l.drop k) = 'Z'
    · rw [if_pos hz] at h
      split_ifs at h
      cases h
      exact Or.inr (Or.inl rfl)
    · rw [if_neg hz] at h
      obtain ⟨⟨z, more'⟩, -, h⟩ := Option.bind_eq_some_iff.mp h
      cases more' with
      | true => cases h
      | false =>
        obtain ⟨tz', htz, h⟩ := Option.bind_eq_some_iff.mp h
        cases h
        exact zoneOf_standard htz

theorem read_standard {l : List Char} {d : DateTime} (h : read l = some d) : Standard d.tzinfo := by
  unfold read at h
  split_ifs at h with hlength
  obtain ⟨loc, -, h⟩ := Option.bind_eq_some_iff.mp h
  obtain ⟨day, -, h⟩ := Option.bind_eq_some_iff.mp h
  obtain ⟨⟨t, tz⟩, htime, h⟩ := Option.bind_eq_some_iff.mp h
  dsimp only at h
  split_ifs at h
  obtain ⟨wall, -, h⟩ := Option.bind_eq_some_iff.mp h
  cases h
  unfold parseRest at htime
  split_ifs at htime
  · exact parseTime_standard htime
  · cases htime
    exact Or.inl rfl

end IsoFormat

/-- What `fromisoformat` reads has no zone of a caller's class. -/
theorem fromisoformat_standard {text : String} {d : DateTime} (h : fromisoformat text = .ok d) :
    IsoFormat.Standard d.tzinfo := by
  unfold fromisoformat at h
  split at h
  · next d' hread =>
    cases h
    exact IsoFormat.read_standard hread
  · cases h

theorem fromisoformat_error {text : String} {e : Exc} (h : fromisoformat text = .error e) :
    e = .valueError := by
  unfold fromisoformat at h
  split at h
  · cases h
  · exact (Except.error.inj h).symm

end Py
