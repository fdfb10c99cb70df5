import SocLab.Parsers.Shapes
import SocLab.Py.Numeral

/-!
# SocLab.Parsers.Numbers — the notation of the numeric fields

Decimal digits, and for the two process ids of Security also hexadecimal digits after a `0x`: this is what a
number is documented to look like (`Documented`).  The conversions leave the grammar to `int`, which reads
more (`Literal`).

* `reads_eq`: every place that reads a field converts its stripped text with `convert`.
* `convert_eq_ok`: the conversion finds a number exactly in a literal.
* `onlyDocumented_iff`: the numbers that come from elsewhere come from the literals with a sign, a `_` or a
  digit that is not ASCII (`Lax`).
-/

namespace SocLab

open Py Logic

/-- The consumed fields that hold a number. -/
inductive NumericField where
  | logonType
  | ipPort
  | sourcePort
  | destinationPort
  | sysmonProcessId
  | parentProcessId
  | newProcessId
  | securityProcessId
  | eventId
  | eventRecordId
  deriving DecidableEq

namespace NumericField

/-- The name under which the source reads the field. -/
def name : NumericField → String
  | logonType => "LogonType"
  | ipPort => "IpPort"
  | sourcePort => "SourcePort"
  | destinationPort => "DestinationPort"
  | sysmonProcessId | securityProcessId => "ProcessId"
  | parentProcessId => "ParentProcessId"
  | newProcessId => "NewProcessId"
  | eventId => "EventID"
  | eventRecordId => "EventRecordID"

/-- The two process ids that may be hexadecimal. -/
def hexadecimal : NumericField → Bool
  | newProcessId | securityProcessId => true
  | _ => false

/-- The two fields of the `System` element, whose conversion looks at no sign. -/
def ofSystem : NumericField → Bool
  | eventId | eventRecordId => true
  | _ => false

/-- The conversion of the field. -/
def convert (f : NumericField) (value : String) : Except IngestionRaised Int :=
  match f with
  | logonType | ipPort => WindowsSecurity.parseNonNegativeInteger 10 value f.name
  | sourcePort | destinationPort | sysmonProcessId | parentProcessId => Sysmon.decimalInteger value f.name
  | newProcessId | securityProcessId => WindowsSecurity.windowsInteger value f.name
  | eventId | eventRecordId => WindowsEvent.parseInteger value f.name

/-- The calls that read the field, in the named values of an event or in its `System` element.  The process
id of Sysmon is required in one event and optional in three. -/
def reads (data : StrDict) (system : Element) : NumericField → List (Except IngestionRaised (Option Int))
  | logonType => [WindowsSecurity.optionalDecimalInteger data "LogonType"]
  | ipPort => [WindowsSecurity.optionalDecimalInteger data "IpPort"]
  | sourcePort => [some <$> Sysmon.requiredInteger data "SourcePort"]
  | destinationPort => [some <$> Sysmon.requiredInteger data "DestinationPort"]
  | sysmonProcessId =>
    [some <$> Sysmon.requiredInteger data "ProcessId", Sysmon.optionalInteger data "ProcessId"]
  | parentProcessId => [Sysmon.optionalInteger data "ParentProcessId"]
  | newProcessId =>
    [some <$> do
      let newProcessId ← WindowsSecurity.requiredText data "NewProcessId"
      WindowsSecurity.windowsInteger newProcessId "NewProcessId"]
  | securityProcessId => [WindowsSecurity.optionalWindowsInteger data "ProcessId"]
  | eventId =>
    [some <$> do
      let eventIdText ← WindowsEvent.requiredText system "EventID" "EventID"
      WindowsEvent.parseInteger eventIdText "EventID"]
  | eventRecordId => [WindowsEvent.parseRecordId system]

/-- The field is there with this text. -/
def HasText (f : NumericField) (data : StrDict) (system : Element) (text : String) : Prop :=
  if f.ofSystem then
    ∃ element, WindowsEvent.childrenWithTag system (WindowsEvent.qualified f.name) = [element] ∧
      element.text.getD "" = text
  else data.get f.name = some text

/-- The text is not one that stands for an absent value. -/
def Present (f : NumericField) (text : String) : Prop :=
  strip text ≠ "" ∧ (f.ofSystem = false → strip text ≠ "-")

section Reads

variable {data : StrDict} {system : Element} {name text : String}

theorem optionalText_of_present (hblank : strip text ≠ "") (hdash : strip text ≠ "-") :
    EventData.optionalText (some text) = some (strip text) := by
  rw [EventData.optionalText, if_neg]
  rintro (h | h)
  · exact hblank h
  · exact hdash h

theorem optionalInteger_of_present {read : String → String → Except IngestionRaised Int}
    (hget : data.get name = some text) (hblank : strip text ≠ "") (hdash : strip text ≠ "-") :
    EventData.optionalInteger read data name = some <$> read (strip text) name := by
  rw [EventData.optionalInteger, hget, optionalText_of_present hblank hdash]

theorem requiredText_of_present (hget : data.get name = some text) (hblank : strip text ≠ "")
    (hdash : strip text ≠ "-") (read : String → Except IngestionRaised Int) :
    EventData.requiredText data name >>= read = read (strip text) := by
  rw [EventData.requiredText, hget, optionalText_of_present hblank hdash]
  rfl

end Reads

/-- **Every read of a field converts its stripped text.** -/
theorem reads_eq {f : NumericField} {data : StrDict} {system : Element} {text : String}
    {read : Except IngestionRaised (Option Int)} (hread : read ∈ f.reads data system)
    (htext : f.HasText data system text) (hpresent : f.Present text) :
    read = some <$> f.convert (strip text) := by
  obtain ⟨hblank, hdash⟩ := hpresent
  cases f with
  | logonType | ipPort | parentProcessId | securityProcessId =>
    obtain rfl := List.mem_singleton.mp hread
    exact optionalInteger_of_present htext hblank (hdash rfl)
  | sourcePort | destinationPort =>
    obtain rfl := List.mem_singleton.mp hread
    exact congrArg (some <$> ·) (requiredText_of_present htext hblank (hdash rfl) _)
  | sysmonProcessId =>
    -- the field is required in one shape and optional in the others
    rcases List.mem_pair.mp hread with rfl | rfl
    · exact congrArg (some <$> ·) (requiredText_of_present htext hblank (hdash rfl) _)
    · exact optionalInteger_of_present htext hblank (hdash rfl)
  | newProcessId =>
    obtain rfl := List.mem_singleton.mp hread
    exact congrArg (some <$> ·) (requiredText_of_present htext hblank (hdash rfl) _)
  | eventId =>
    obtain rfl := List.mem_singleton.mp hread
    obtain ⟨element, helement, rfl⟩ := htext
    have hrequired : WindowsEvent.requiredText system "EventID" "EventID" =
        .ok (WindowsEvent.strippedText element) :=
      WindowsEvent.requiredText_eq_ok.mpr ⟨element, helement, rfl, hblank⟩
    rw [hrequired, ok_bind, convert, WindowsEvent.strippedText, name]
  | eventRecordId =>
    obtain rfl := List.mem_singleton.mp hread
    obtain ⟨element, helement, rfl⟩ := htext
    have hchildren : WindowsEvent.childrenWithTag system (WindowsEvent.qualified "EventRecordID") = [element] :=
      helement
    rw [WindowsEvent.parseRecordId, hchildren]
    exact if_neg hblank

/-! ### The notation that is documented, and the one that is read -/

/-- The documented notation of a number. -/
inductive Documented (f : NumericField) : List Char → Int → Prop
  | decimal {s : List Char} {ds : List Nat} :
      PlainDigits (digitValue 10) s ds → Documented f s (positional 10 ds)
  | hexadecimal {x : Char} {l : List Char} {ds : List Nat} :
      f.hexadecimal = true → (x = 'x' ∨ x = 'X') → PlainDigits (digitValue 16) l ds →
        Documented f ('0' :: x :: l) (positional 16 ds)

/-- The integer literals of a field: a sign, and decimal digits of Unicode with single `_` between them, not
too many for `int`; outside `System` a `-` stands before zeros only.  In a hexadecimal literal there is no
sign, and a `_` may also follow the `0x`. -/
inductive Literal (f : NumericField) : List Char → Int → Prop
  | decimal {s : List Char} {ds : List Nat} :
      SeparatedDigits (digitOf 10) (signed s).2 ds → ds.length ≤ maxStrDigits →
        (f.ofSystem = true ∨ s.head? ≠ some '-' ∨ ∀ d ∈ ds, d = 0) →
          Literal f s ((signed s).1 * positional 10 ds)
  | hexadecimal {x : Char} {l : List Char} {ds : List Nat} :
      f.hexadecimal = true → (x = 'x' ∨ x = 'X') → ds ≠ [] → MoreDigits (digitOf 16) l ds →
        Literal f ('0' :: x :: l) (positional 16 ds)

/-- A sign, a separator or a character that is not ASCII: the documented notation has none. -/
def Undocumented (c : Char) : Prop := c = '+' ∨ c = '-' ∨ c = '_' ∨ isAscii c = false

instance : DecidablePred Undocumented := fun c => by
  unfold Undocumented
  infer_instance

/-- A literal with a character that the documented notation does not have. -/
def Lax (f : NumericField) (s : List Char) : Prop := (∃ n, f.Literal s n) ∧ ∃ c ∈ s, Undocumented c

/-- The error of a field: `InvalidRawEventError` in `System`, otherwise `InvalidNormalizedEventError`. -/
def rejected (f : NumericField) (message : String) : IngestionRaised :=
  if f.ofSystem then .invalidRawEvent message else .invalidNormalizedEvent message

/-- Numbers are read only from the documented notation, and every other text is rejected. -/
structure OnlyDocumented (f : NumericField) (text : String) : Prop where
  returned : ∀ n, f.convert (strip text) = .ok n → f.Documented (strip text).toList n
  rejected : (∀ n, ¬ f.Documented (strip text).toList n) →
    ∃ message, f.convert (strip text) = .error (f.rejected message)

section Conversion

variable {f : NumericField} {s : String} {l : List Char} {n : Int}

/-- The conversion is `int` in the base of the text, and outside `System` a test of the sign. -/
theorem convert_eq_ok_int :
    f.convert s = .ok n ↔ int s (numberBase f.hexadecimal s) = .ok n ∧ (f.ofSystem = true ∨ 0 ≤ n) := by
  cases f with
  | logonType | ipPort =>
    rw [convert, WindowsSecurity.parseNonNegativeInteger_eq_ok, natural_eq_some]
    simp [numberBase, hexadecimal, ofSystem]
  | sourcePort | destinationPort | sysmonProcessId | parentProcessId =>
    rw [convert, Sysmon.decimalInteger_eq_ok, natural_eq_some]
    simp [numberBase, hexadecimal, ofSystem]
  | newProcessId | securityProcessId =>
    rw [convert, WindowsSecurity.windowsInteger_eq_ok, natural_eq_some]
    simp [hexadecimal, ofSystem]
  | eventId | eventRecordId =>
    rw [convert, WindowsEvent.parseInteger_eq_ok]
    simp [numberBase, hexadecimal, ofSystem]

theorem startsWith_pair {a b : Char} :
    startsWith s (String.ofList [a, b]) = true ↔ ∃ l, s.toList = a :: b :: l := by
  rw [startsWith, List.isPrefixOf_iff_prefix, String.toList_ofList]
  constructor
  · rintro ⟨l, hl⟩
    exact ⟨l, hl.symm⟩
  · rintro ⟨l, hl⟩
    exact ⟨l, hl.symm⟩

theorem numberBase_eq_sixteen :
    numberBase f.hexadecimal s = 16 ↔
      f.hexadecimal = true ∧ ∃ x l, (x = 'x' ∨ x = 'X') ∧ s.toList = '0' :: x :: l := by
  have hlower : startsWith s "0x" = true ↔ ∃ l, s.toList = '0' :: 'x' :: l := startsWith_pair
  have hupper : startsWith s "0X" = true ↔ ∃ l, s.toList = '0' :: 'X' :: l := startsWith_pair
  have hbase : numberBase f.hexadecimal s = 16 ↔
      (f.hexadecimal && (startsWith s "0x" || startsWith s "0X")) = true := by
    unfold numberBase
    split_ifs with h
    · exact iff_of_true rfl h
    · exact iff_of_false (by decide) h
  rw [hbase, Bool.and_eq_true, Bool.or_eq_true, hlower, hupper]
  refine and_congr_right fun _ => ⟨?_, ?_⟩
  · rintro (⟨l, hl⟩ | ⟨l, hl⟩)
    · exact ⟨'x', l, Or.inl rfl, hl⟩
    · exact ⟨'X', l, Or.inr rfl, hl⟩
  · rintro ⟨_, l, rfl | rfl, hl⟩
    · exact Or.inl ⟨l, hl⟩
    · exact Or.inr ⟨l, hl⟩

/-- No decimal digits with separators start with `0x`. -/
theorem not_separatedDigits_zeroX {x : Char} {ds : List Nat} (hx : x = 'x' ∨ x = 'X') :
    ¬ SeparatedDigits (digitOf 10) ('0' :: x :: l) ds := by
  rintro ⟨-, hmore⟩
  cases hmore with
  | cons hd _ =>
    have hnone : digitOf 10 x = none := by
      rcases hx with rfl | rfl <;> decide
    rw [hnone] at hd
    cases hd
  | separated => simp at hx

theorem convert_error {e : IngestionRaised} (h : f.convert s = .error e) :
    ∃ message, e = f.rejected message := by
  cases f with
  | eventId | eventRecordId =>
    have hraises (name : String) :
        RaisesOnly (fun e => ∃ message, e = IngestionRaised.invalidRawEvent message)
          (WindowsEvent.parseInteger s name) :=
      raisesOnly_exceptValueError (fun _ h => int_error h) ⟨_, rfl⟩
    exact hraises _ e h
  | logonType | ipPort | newProcessId | securityProcessId => exact EventData.raisesOnly_nonNegativeInteger e h
  | sourcePort | destinationPort | sysmonProcessId | parentProcessId =>
    exact EventData.raisesOnly_nonNegativeInteger e h

/-- **The conversion finds a number exactly in a literal.** -/
theorem convert_eq_ok (h : strip s = s) : f.convert s = .ok n ↔ f.Literal s.toList n := by
  rw [convert_eq_ok_int]
  by_cases hbase : numberBase f.hexadecimal s = 16
  · obtain ⟨hf, x, l, hx, hs⟩ := numberBase_eq_sixteen.mp hbase
    rw [hbase, int_sixteen_eq_ok h hx hs, hs]
    constructor
    · rintro ⟨⟨ds, hne, hds, rfl⟩, -⟩
      exact .hexadecimal hf hx hne hds
    · intro hliteral
      cases hliteral with
      | decimal hds _ _ => exact (not_separatedDigits_zeroX hx hds).elim
      | hexadecimal _ _ hne hds => exact ⟨⟨_, hne, hds, rfl⟩, Or.inr (Int.natCast_nonneg _)⟩
  · have hten : numberBase f.hexadecimal s = 10 := (ite_eq_or_eq ..).resolve_left hbase
    rw [hten, int_ten_eq_ok h]
    constructor
    · rintro ⟨⟨ds, hds, hle, rfl⟩, hsign⟩
      refine .decimal hds hle (hsign.imp_right fun hnonneg => ?_)
      rwa [signed_nonneg_iff, positional_eq_zero (by decide)] at hnonneg
    · intro hliteral
      generalize hl : s.toList = l at hliteral
      cases hliteral with
      | decimal hds hle hsign =>
        refine ⟨⟨_, hds, hle, rfl⟩, hsign.imp_right fun hminus => ?_⟩
        rwa [signed_nonneg_iff, positional_eq_zero (by decide)]
      | hexadecimal hf hx _ _ => exact absurd (numberBase_eq_sixteen.mpr ⟨hf, _, _, hx, hl⟩) hbase

theorem documented_of_literal (h : f.Literal l n) (hplain : ∀ c ∈ l, ¬ Undocumented c) :
    f.Documented l n := by
  have hsep : '_' ∉ l := fun hmem => hplain _ hmem (by simp [Undocumented])
  have hascii : ∀ c ∈ l, isAscii c = true := fun c hc => by
    cases hc' : isAscii c with
    | true => rfl
    | false => exact (hplain c hc (by simp [Undocumented, hc'])).elim
  cases h with
  | decimal hds _ _ =>
    have hsigned : signed l = (1, l) :=
      signed_of_not_mem (fun hmem => hplain _ hmem (by simp [Undocumented]))
        fun hmem => hplain _ hmem (by simp [Undocumented])
    rw [hsigned] at hds ⊢
    obtain ⟨hne, hmore⟩ := hds.moreDigits
    rw [Int.one_mul]
    exact .decimal (plainDigits_of_moreDigits (Nat.le_refl 10) hne hmore hsep hascii)
  | hexadecimal hf hx hne hds =>
    refine .hexadecimal hf hx (plainDigits_of_moreDigits (by decide) hne hds ?_ ?_)
    · exact fun hmem => hsep (List.mem_cons_of_mem _ (List.mem_cons_of_mem _ hmem))
    · exact fun c hc => hascii c (List.mem_cons_of_mem _ (List.mem_cons_of_mem _ hc))

theorem not_undocumented_of_digitValue {base d : Nat} {c : Char} (h : digitValue base c = some d) :
    ¬ Undocumented c := by
  rintro (rfl | rfl | rfl | hascii)
  · simp [digitValue_sign] at h
  · simp [digitValue_sign] at h
  · simp [digitValue_separator] at h
  · simp [isAscii_of_digitValue h] at hascii

theorem not_undocumented_of_plainDigits {base : Nat} {ds : List Nat}
    (h : PlainDigits (digitValue base) l ds) : ∀ c ∈ l, ¬ Undocumented c := by
  intro c hc
  have hvalue : digitValue base c ∈ ds.map some := h.2 ▸ List.mem_map_of_mem hc
  obtain ⟨d, -, hd⟩ := List.mem_map.mp hvalue
  exact not_undocumented_of_digitValue hd.symm

theorem not_undocumented (h : f.Documented l n) : ∀ c ∈ l, ¬ Undocumented c := by
  cases h with
  | decimal hds => exact not_undocumented_of_plainDigits hds
  | hexadecimal _ hx hds =>
    intro c hc
    rcases List.mem_cons.mp hc with rfl | hc
    · decide
    rcases List.mem_cons.mp hc with rfl | hc
    · rcases hx with rfl | rfl <;> decide
    · exact not_undocumented_of_plainDigits hds c hc

end Conversion

/-- **Which texts keep to the documentation**: all but the literals with a sign, a separator or a digit that
is not ASCII.  What is converted is what every place of the parsers reads. -/
theorem onlyDocumented_iff (f : NumericField) (text : String) :
    (f.OnlyDocumented text ↔ ¬ f.Lax (strip text).toList) ∧
      ∀ data system, ∀ read ∈ f.reads data system, f.HasText data system text → f.Present text →
        read = some <$> f.convert (strip text) := by
  refine ⟨?_, fun data system read => reads_eq⟩
  have hconvert (n : Int) : f.convert (strip text) = .ok n ↔ f.Literal (strip text).toList n :=
    convert_eq_ok (strip_strip text)
  constructor
  · rintro hdoc ⟨⟨n, hn⟩, c, hc, hundocumented⟩
    exact not_undocumented (hdoc.returned n ((hconvert n).mpr hn)) c hc hundocumented
  · intro hlax
    have hreturned (n : Int) (hn : f.convert (strip text) = .ok n) : f.Documented (strip text).toList n := by
      have hliteral := (hconvert n).mp hn
      exact documented_of_literal hliteral fun c hc hundocumented =>
        hlax ⟨⟨n, hliteral⟩, c, hc, hundocumented⟩
    refine ⟨hreturned, fun hnot => ?_⟩
    cases hresult : f.convert (strip text) with
    | ok n => exact absurd (hreturned n hresult) (hnot n)
    | error e =>
      obtain ⟨message, rfl⟩ := convert_error hresult
      exact ⟨message, rfl⟩

/-- `1_0` is no documented number, and is read as the process id 10. -/
theorem separatedProcessId :
    Sysmon.requiredInteger ⟨[("ProcessId", "1_0")], by decide⟩ "ProcessId" = .ok 10 ∧
      ¬ sysmonProcessId.OnlyDocumented "1_0" := by
  refine ⟨by decide, fun honly => ?_⟩
  have hdocumented : sysmonProcessId.Documented (strip "1_0").toList 10 := honly.returned 10 (by decide)
  exact not_undocumented hdocumented '_' (by decide) (by decide)

end NumericField

end SocLab
