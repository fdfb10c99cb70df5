import SocLab.Parsers.Partition

/-!
# SocLab.Parsers.Dispatch — which raw events are normalized

`dispatch` applies the normalizer that the registry chooses.  `ExactDispatch` says what is raised and what is
returned by the table of the supported rows; `exactDispatch_iff` says for which events it holds: the message
about an unsupported event id cannot be written when the id has too many digits.
-/

namespace SocLab

open Py Py.Validation Logic

/-- The normalizer of the registry, applied. -/
def dispatch (raw : RawWindowsEvent) : Except IngestionRaised NormalizedEvent :=
  getEventNormalizer raw >>= fun normalizer => normalizer raw

/-- The value of the column is required and missing, or present and not of its form. -/
inductive Column.Invalid (data : StrDict) (c : Column) : Prop
  | missing : c.required = true → EventData.optionalText (data.get c.name) = none → Invalid data c
  | number (hexadecimal : Bool) (text : String) : c.kind = .number hexadecimal →
      EventData.optionalText (data.get c.name) = some text →
      (∀ n, int text (numberBase hexadecimal text) = .ok n → n < 0) → Invalid data c
  | port (text : String) : c.kind = .port → EventData.optionalText (data.get c.name) = some text →
      (∀ n, int text 10 = .ok n → n < 0 ∨ 65535 < n) → Invalid data c
  | ip (text : String) : c.kind = .ip → EventData.optionalText (data.get c.name) = some text →
      (∀ a, ipAddress text ≠ .ok a) → Invalid data c

section Invalid

variable {c : Column} {data : StrDict} {row : Row}

theorem natural_eq_none {base : Nat} {text : String} :
    natural base text = none ↔ ∀ n, int text base = .ok n → n < 0 := by
  rw [Option.eq_none_iff_forall_ne_some]
  refine forall_congr' fun n => ?_
  rw [ne_eq, natural_eq_some, not_and, not_le]

theorem Kind.read_number_eq_none {hexadecimal : Bool} {text : String} :
    (Kind.number hexadecimal).read text = none ↔
      ∀ n, int text (numberBase hexadecimal text) = .ok n → n < 0 := by
  rw [Kind.read, Option.map_eq_none_iff, natural_eq_none]

theorem Kind.read_port_eq_none {text : String} :
    Kind.port.read text = none ↔ ∀ n, int text 10 = .ok n → n < 0 ∨ 65535 < n := by
  rw [Kind.read, Option.map_eq_none_iff, Option.filter_eq_none_iff]
  simp only [natural_eq_some, decide_eq_true_eq]
  refine forall_congr' fun n => ?_
  rw [and_imp]
  refine imp_congr_right fun _ => ?_
  omega

theorem Kind.read_ip_eq_none {text : String} :
    Kind.ip.read text = none ↔ ∀ a, ipAddress text ≠ .ok a := by
  cases h : ipAddress text <;> simp [Kind.read, h, Except.toOption]

theorem Column.value_eq_none : c.value data = none ↔ c.Invalid data := by
  unfold Column.value
  constructor
  · intro h
    cases htext : EventData.optionalText (data.get c.name) with
    | none =>
      rw [htext] at h
      dsimp only at h
      split_ifs at h with hrequired
      exact .missing hrequired htext
    | some text =>
      rw [htext] at h
      dsimp only at h
      cases hkind : c.kind with
      | text =>
        rw [hkind, Kind.read] at h
        cases h
      | number hexadecimal =>
        rw [hkind, Kind.read_number_eq_none] at h
        exact .number hexadecimal text hkind htext h
      | port =>
        rw [hkind, Kind.read_port_eq_none] at h
        exact .port text hkind htext h
      | ip =>
        rw [hkind, Kind.read_ip_eq_none] at h
        exact .ip text hkind htext h
  · intro h
    cases h with
    | missing hrequired htext =>
      rw [htext]
      exact if_pos hrequired
    | number hexadecimal text hkind htext hint =>
      rw [htext, hkind]
      exact Kind.read_number_eq_none.mpr hint
    | port text hkind htext hint =>
      rw [htext, hkind]
      exact Kind.read_port_eq_none.mpr hint
    | ip text hkind htext hint =>
      rw [htext, hkind]
      exact Kind.read_ip_eq_none.mpr hint

theorem Row.readable_iff : row.Readable data ↔ ∀ c ∈ row.columns, ¬ c.Invalid data := by
  refine forall_congr' fun c => imp_congr_right fun _ => ?_
  rw [← Column.value_eq_none, ← ne_eq, Option.ne_none_iff_exists']

end Invalid

/-! ### The choice of a normalizer -/

section Choice

variable {raw : RawWindowsEvent} {row : Row}

/-- The registry has a normalizer for every row, and it follows the row. -/
theorem exists_dispatch (hrow : row ∈ supportedRows) (hraw : row.Matches raw) :
    ∃ n : EventData.Normalizer, dispatch raw = n.normalize raw ∧ row.Follows n := by
  have hdispatch {normalizer : EventNormalizer}
      (h : eventNormalizerRegistry.lookup (row.provider, row.eventId) = some normalizer) :
      dispatch raw = normalizer raw := by
    rw [dispatch, getEventNormalizer, hraw.1, hraw.2.2, h]
    rfl
  rcases List.mem_append.mp hrow with hrow | hrow
  · refine ⟨WindowsSecurity.normalizer, hdispatch ?_, WindowsSecurity.follows hrow⟩
    simp only [WindowsSecurity.rows, List.mem_cons, List.not_mem_nil, or_false] at hrow
    rcases hrow with rfl | rfl | rfl <;> rfl
  · refine ⟨Sysmon.normalizer, hdispatch ?_, Sysmon.follows hrow⟩
    simp only [Sysmon.rows, List.mem_cons, List.not_mem_nil, or_false] at hrow
    rcases hrow with rfl | rfl | rfl | rfl <;> rfl

/-- The id of a registered event has few digits. -/
theorem strOfInt_of_lookup {normalizer : EventNormalizer}
    (h : eventNormalizerRegistry.lookup (raw.provider.val, raw.eventId.val) = some normalizer) :
    strOfInt raw.eventId = .ok (toString raw.eventId.val) := by
  have hmem := List.mem_map_of_mem (f := (·.1.2)) (mem_of_lookup h)
  have hshort : ∀ k ∈ eventNormalizerRegistry.map (·.1.2),
      (Nat.toDigits 10 k.natAbs).length ≤ maxStrDigits := by decide
  exact if_pos (hshort _ hmem)

/-- Without a row, a registered event is refused by the normalizer. -/
theorem dispatch_of_lookup (hrow : ¬ ∃ row ∈ supportedRows, row.Matches raw) {normalizer : EventNormalizer}
    (h : eventNormalizerRegistry.lookup (raw.provider.val, raw.eventId.val) = some normalizer) :
    ∃ message, dispatch raw = .error (.unsupportedEvent message) := by
  have hchosen : getEventNormalizer raw = .ok normalizer := by rw [getEventNormalizer, h]
  have hmem := mem_of_lookup h
  simp only [eventNormalizerRegistry, List.mem_cons, Prod.mk.injEq, List.not_mem_nil, or_false] at hmem
  have hrefused (n : EventData.Normalizer) (hn : ¬ n.Supported raw) :
      ∃ message, n.normalize raw = .error (.unsupportedEvent message) := by
    rw [EventData.Normalizer.normalize, if_pos hn, strOfInt_of_lookup h]
    exact ⟨_, rfl⟩
  have hwindows : ¬ WindowsSecurity.normalizer.Supported raw := by
    intro hsupported
    obtain ⟨row, hmem, hraw⟩ := WindowsSecurity.exists_row hsupported
    exact hrow ⟨row, List.mem_append_left _ hmem, hraw⟩
  have hsysmon : ¬ Sysmon.normalizer.Supported raw := by
    intro hsupported
    obtain ⟨row, hmem, hraw⟩ := Sysmon.exists_row hsupported
    exact hrow ⟨row, List.mem_append_right _ hmem, hraw⟩
  rw [dispatch, hchosen, ok_bind]
  rcases hmem with ⟨-, rfl⟩ | ⟨-, rfl⟩ | ⟨-, rfl⟩ | ⟨-, rfl⟩ | ⟨-, rfl⟩ | ⟨-, rfl⟩ | ⟨-, rfl⟩
  · exact hrefused _ hwindows
  · exact hrefused _ hwindows
  · exact hrefused _ hwindows
  all_goals exact hrefused _ hsysmon

/-- The event id has more digits than can be written, and a supported provider. -/
def UnwritableId (raw : RawWindowsEvent) : Prop :=
  raw.provider.val ∈ supportedProviders ∧
    maxStrDigits < (Nat.toDigits 10 raw.eventId.val.natAbs).length

/-- What becomes of an event that has no row. -/
theorem dispatch_of_no_row (hrow : ¬ ∃ row ∈ supportedRows, row.Matches raw) :
    ¬ UnwritableId raw ∧ (∃ message, dispatch raw = .error (.unsupportedEvent message)) ∨
      UnwritableId raw ∧ dispatch raw = .error (.exception .valueError) := by
  cases h : eventNormalizerRegistry.lookup (raw.provider.val, raw.eventId.val) with
  | some normalizer =>
    refine Or.inl ⟨?_, dispatch_of_lookup hrow h⟩
    rintro ⟨-, hlong⟩
    have hwritten := strOfInt_of_lookup h
    rw [strOfInt, if_neg (not_le.mpr hlong)] at hwritten
    cases hwritten
  | none =>
    by_cases hprovider : raw.provider.val ∈ supportedProviders
    · have hdispatch : dispatch raw = (do
          let eventId ← ofCall (strOfInt raw.eventId)
          .error (.unsupportedEvent (.eventId eventId raw.provider))) := by
        rw [dispatch, getEventNormalizer, h]
        dsimp only
        rw [if_neg (not_not_intro hprovider)]
        cases strOfInt raw.eventId <;> rfl
      rw [hdispatch, strOfInt]
      -- only here is the id written out
      by_cases hlong : maxStrDigits < (Nat.toDigits 10 raw.eventId.val.natAbs).length
      · rw [if_neg (not_le.mpr hlong)]
        exact Or.inr ⟨⟨hprovider, hlong⟩, rfl⟩
      · rw [if_pos (not_lt.mp hlong)]
        exact Or.inl ⟨fun hid => hlong hid.2, _, rfl⟩
    · refine Or.inl ⟨fun hid => hprovider hid.1, .provider raw.provider, ?_⟩
      rw [dispatch, getEventNormalizer, h]
      dsimp only
      rw [if_pos hprovider]
      rfl

theorem not_unwritableId_of_row (hrow : row ∈ supportedRows) (hraw : row.Matches raw) :
    ¬ UnwritableId raw := by
  have hshort : ∀ row ∈ supportedRows, (Nat.toDigits 10 row.eventId.natAbs).length ≤ maxStrDigits := by
    decide
  rintro ⟨-, hlong⟩
  rw [hraw.2.2] at hlong
  exact absurd (hshort row hrow) (not_le.mpr hlong)

end Choice

/-! ### The result -/

/-- What is raised and what is returned for an event: by its row, if it has one. -/
structure ExactDispatch (raw : RawWindowsEvent) : Prop where
  unsupported : (∃ message, dispatch raw = .error (.unsupportedEvent message)) ↔
    ¬ ∃ row ∈ supportedRows, row.Matches raw
  invalid : (∃ message, dispatch raw = .error (.invalidNormalizedEvent message)) ↔
    ∃ row ∈ supportedRows, row.Matches raw ∧ ∃ c ∈ row.columns, c.Invalid raw.eventDataDict
  returned : (∃ event, dispatch raw = .ok event) ↔
    ∃ row ∈ supportedRows, row.Matches raw ∧ ∀ c ∈ row.columns, ¬ c.Invalid raw.eventDataDict
  event : ∀ row ∈ supportedRows, row.Matches raw → ∀ event, dispatch raw = .ok event →
    event.source = row.source ∧ event.category = row.category ∧ event.context.category = row.category ∧
      event.context.outcome? = row.outcome ∧
      ∀ c ∈ row.columns, ∀ text, EventData.optionalText (raw.eventDataDict.get c.name) = some text →
        ∃ v, c.kind.read text = some v ∧ event.context.getattr c.key = some v
  controlled : ∀ e, dispatch raw = .error e →
    (∃ message, e = .unsupportedEvent message) ∨ ∃ message, e = .invalidNormalizedEvent message

section Exact

variable {raw : RawWindowsEvent} {row : Row}

/-- An event with a row is returned or invalid, by its columns. -/
theorem dispatch_of_row (hrow : row ∈ supportedRows) (hraw : row.Matches raw) :
    (∀ c ∈ row.columns, ¬ c.Invalid raw.eventDataDict) ∧ (∃ event, dispatch raw = .ok event) ∨
      (∃ c ∈ row.columns, c.Invalid raw.eventDataDict) ∧
        ∃ message, dispatch raw = .error (.invalidNormalizedEvent message) := by
  obtain ⟨n, hn, hfollows⟩ := exists_dispatch hrow hraw
  rw [hn]
  by_cases hreadable : row.Readable raw.eventDataDict
  · exact Or.inl ⟨Row.readable_iff.mp hreadable, (hfollows.isOk_iff hraw).mpr hreadable⟩
  · refine Or.inr ⟨?_, hfollows.invalid_of_not_readable hraw hreadable⟩
    rw [Row.readable_iff] at hreadable
    simpa using hreadable

theorem exactDispatch_of_row (hrow : row ∈ supportedRows) (hraw : row.Matches raw) : ExactDispatch raw := by
  have hexists : ∃ row ∈ supportedRows, row.Matches raw := ⟨row, hrow, hraw⟩
  refine ⟨?_, ⟨?_, ?_⟩, ⟨?_, ?_⟩, ?_, ?_⟩
  · refine iff_of_false ?_ (not_not_intro hexists)
    rintro ⟨message, h⟩
    -- the outcome is decided by the columns of the row: all valid, or one that is not
    rcases dispatch_of_row hrow hraw with ⟨-, event, h'⟩ | ⟨-, message', h'⟩
    all_goals cases h.symm.trans h'
  · rintro ⟨message, h⟩
    rcases dispatch_of_row hrow hraw with ⟨-, event, h'⟩ | ⟨hinvalid, -⟩
    · cases h.symm.trans h'
    · exact ⟨row, hrow, hraw, hinvalid⟩
  · rintro ⟨row', hrow', hraw', c, hc, hinvalid⟩
    rcases dispatch_of_row hrow' hraw' with ⟨hvalid, -⟩ | ⟨-, h⟩
    · exact absurd hinvalid (hvalid c hc)
    · exact h
  · rintro ⟨event, h⟩
    rcases dispatch_of_row hrow hraw with ⟨hvalid, -⟩ | ⟨-, message, h'⟩
    · exact ⟨row, hrow, hraw, hvalid⟩
    · cases h.symm.trans h'
  · rintro ⟨row', hrow', hraw', hvalid⟩
    rcases dispatch_of_row hrow' hraw' with ⟨-, h⟩ | ⟨⟨c, hc, hinvalid⟩, -⟩
    · exact h
    · exact absurd hinvalid (hvalid c hc)
  · intro row' hrow' hraw' event h
    obtain ⟨n, hn, hfollows⟩ := exists_dispatch hrow' hraw'
    obtain ⟨context, hdescribes, rfl⟩ := (hfollows.normalize_eq_ok hraw').mp (hn ▸ h)
    refine ⟨rfl, hdescribes.category, hdescribes.category, hdescribes.outcome, fun c hc text htext => ?_⟩
    obtain ⟨v, hv, hattr⟩ := hdescribes.getattr hc
    rw [Column.value, htext] at hv
    exact ⟨v, hv, hattr⟩
  · intro e h
    rcases dispatch_of_row hrow hraw with ⟨-, event, h'⟩ | ⟨-, message, h'⟩
    · cases h.symm.trans h'
    · cases h.symm.trans h'
      exact Or.inr ⟨message, rfl⟩

theorem exactDispatch_of_unsupported (hrow : ¬ ∃ row ∈ supportedRows, row.Matches raw)
    {message : UnsupportedEvent} (h : dispatch raw = .error (.unsupportedEvent message)) :
    ExactDispatch raw := by
  refine ⟨iff_of_true ⟨message, h⟩ hrow, iff_of_false ?_ ?_, iff_of_false ?_ ?_, ?_, ?_⟩
  · rintro ⟨message', h'⟩
    cases h.symm.trans h'
  · exact fun ⟨row, hmem, hraw, _⟩ => hrow ⟨row, hmem, hraw⟩
  · rintro ⟨event, h'⟩
    cases h.symm.trans h'
  · exact fun ⟨row, hmem, hraw, _⟩ => hrow ⟨row, hmem, hraw⟩
  · exact fun row hmem hraw => absurd ⟨row, hmem, hraw⟩ hrow
  · intro e h'
    cases h.symm.trans h'
    exact Or.inl ⟨message, rfl⟩

end Exact

/-- **The acceptance of dispatch and normalization is exact**, unless the event id is too long to be written
into the message that refuses it. -/
theorem exactDispatch_iff (raw : RawWindowsEvent) : ExactDispatch raw ↔ ¬ UnwritableId raw := by
  by_cases hrow : ∃ row ∈ supportedRows, row.Matches raw
  · obtain ⟨row, hmem, hraw⟩ := hrow
    exact iff_of_true (exactDispatch_of_row hmem hraw) (not_unwritableId_of_row hmem hraw)
  · rcases dispatch_of_no_row hrow with ⟨hid, message, h⟩ | ⟨hid, h⟩
    · exact iff_of_true (exactDispatch_of_unsupported hrow h) hid
    · refine iff_of_false (fun hexact => ?_) (not_not_intro hid)
      rcases hexact.controlled _ h with ⟨message, hm⟩ | ⟨message, hm⟩
      all_goals cases hm

/-- A Sysmon event whose id has 4301 digits. -/
def longIdEvent : RawWindowsEvent where
  provider := ⟨sysmonProvider, by decide⟩
  eventId := ⟨10 ^ maxStrDigits, Int.pow_pos (by decide)⟩
  channel := ⟨"Microsoft-Windows-Sysmon/Operational", by decide⟩
  timestamp := NormalizedEvent.exampleLogon.timestamp
  computer := NormalizedEvent.exampleLogon.computer
  recordId := .unset
  eventData := .unset

theorem unwritableId_longIdEvent : UnwritableId longIdEvent := by
  refine ⟨by decide, ?_⟩
  have hlong {k : Nat} (hk : 0 < k) : k < (Nat.toDigits 10 ((10 : Int) ^ k).natAbs).length := by
    rw [Int.natAbs_pow, ← not_le, Nat.length_toDigits_le_iff (by decide) hk]
    exact lt_irrefl _
  exact hlong (by decide)

/-- The refusal of the event raises a bare `ValueError`. -/
theorem dispatch_longIdEvent :
    dispatch longIdEvent = .error (.exception .valueError) ∧ ¬ ExactDispatch longIdEvent := by
  have hrow : ¬ ∃ row ∈ supportedRows, row.Matches longIdEvent :=
    fun ⟨_, hmem, hraw⟩ => not_unwritableId_of_row hmem hraw unwritableId_longIdEvent
  rcases dispatch_of_no_row hrow with ⟨hid, -⟩ | ⟨-, h⟩
  · exact absurd unwritableId_longIdEvent hid
  · refine ⟨h, fun hexact => ?_⟩
    rcases hexact.controlled _ h with ⟨message, hm⟩ | ⟨message, hm⟩
    all_goals cases hm

end SocLab
