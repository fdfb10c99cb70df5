import SocLab.Models.Alert
import SocLab.Models.Snapshot

/-!
# SocLab.Alerts.Validation — shared validation for operations that update alerts

`alerts/_validation.py`.

* `readAlertSnapshot_toValue`: an alert reads back as it is when its evidence can be copied and dumped,
  `Alert.Readable`; otherwise it is refused, `readAlertSnapshot_of_not_readable`.
* `readAlertSnapshot_eq_some`: whatever value is accepted, the alert that is read has equal fields, and it is
  readable in turn, `readable_of_read`.
-/

namespace SocLab

open Py Py.Validation Logic

def alertTimestamps : List String := ["created_at", "state_changed_at", "updated_at"]

/-- A caller's time zone can raise during offset lookup or conversion: every exception counts as
`None`. -/
def normalizeChangeTime (value : Value) : Option Instant := (requireAwareUtcInstant value).toOption

/-- `isinstance(value, datetime) and value.tzinfo is UTC`. -/
def isUtcDatetime : Value → Bool
  | .datetime d => d.tzinfo = some .utc
  | _ => false

section Read

variable [Runtime]

def validateAlertFields (fields : Dict) : Option Alert := (Alert.modelValidate true (.dict fields)).toOption

/-- One step of `Alert.__iter__`: the evidence is copied. -/
def iterItem (item : String × Value) : Except Exc (String × Value) :=
  if item.1 = "source_match" then do .ok (item.1, ← item.2.deepcopy) else .ok item

/-- `dict(alert)`; the iteration hides keys that start with an underscore. -/
def iterItems (attributes : Dict) : Except Exc Dict :=
  (attributes.filter fun item => !startsWith item.1 "_").mapM iterItem

def readAlertSnapshot (alert : Value) : Option (Alert × Dict) :=
  match alert with
  | .model cls attributes _ =>
    if cls ≠ "Alert" then none
    else if ¬ Dict.sameKeys attributes AlertFields.fieldNames then none
    else
      match iterItems attributes with
      -- `except Exception`
      | .error _ => none
      | .ok fields =>
        if ¬ fields.sameKeys AlertFields.fieldNames ||
            !alertTimestamps.all fun name => (fields.lookup name).any isUtcDatetime then none
        else (validateAlertFields fields).map fun current => (current, fields)
  | _ => none

/-- The evidence of the alert can be dumped and copied. -/
structure Alert.Readable (a : Alert) : Prop where
  nesting : a.sourceMatch.toValue.nesting ≤ Runtime.nesting
  copies : a.sourceMatch.Copyable

theorem Alert.Readable.dumps {a : Alert} (h : a.Readable) : a.sourceMatch.Dumps := h.copies.dumps h.nesting

theorem Alert.Readable.of_sourceMatch {a b : Alert} (h : a.Readable) (hab : b.sourceMatch = a.sourceMatch) :
    b.Readable := ⟨hab ▸ h.nesting, hab ▸ h.copies⟩

theorem validateAlertFields_items {a : Alert} (h : a.sourceMatch.Dumps) : validateAlertFields a.items = some a := by
  rw [validateAlertFields, Alert.modelValidate_items true h, toOption_ok]

theorem iterItem_eq_ok {p q : String × Value} :
    iterItem p = .ok q ↔ (p.1 = "source_match" → p.2.Copies Runtime.frames) ∧ q = p := by
  unfold iterItem
  split_ifs with h
  · rw [bind_eq_ok]
    simp only [Value.deepcopy_eq_ok]
    constructor
    · rintro ⟨v, ⟨hcopies, rfl⟩, hq⟩
      cases hq
      exact ⟨fun _ => hcopies, rfl⟩
    · rintro ⟨hcopies, rfl⟩
      exact ⟨_, ⟨hcopies h, rfl⟩, rfl⟩
  · simp [h, eq_comm]

omit [Runtime] in
/-- No declared field is hidden. -/
theorem filter_visible {d : Dict} (h : ∀ k ∈ d.keys, k ∈ AlertFields.fieldNames) :
    (d.filter fun p => !startsWith p.1 "_") = d := by
  have hvisible : ∀ k ∈ AlertFields.fieldNames, (!startsWith k "_") = true := by decide
  rw [List.filter_eq_self]
  exact fun p hp => hvisible p.1 (h p.1 (List.mem_map_of_mem hp))

/-- An iteration gives the items, if those that are copied can be. -/
theorem iterItems_eq_ok {d d' : Dict} (h : ∀ k ∈ d.keys, k ∈ AlertFields.fieldNames) :
    iterItems d = .ok d' ↔ (∀ p ∈ d, p.1 = "source_match" → p.2.Copies Runtime.frames) ∧ d' = d := by
  rw [iterItems, filter_visible h, mapM_eq_ok]
  simp only [iterItem_eq_ok]
  constructor
  · intro hitems
    refine ⟨fun p hp => ?_, ?_⟩
    · obtain ⟨q, -, hpq⟩ := exists_of_forall₂ hitems p hp
      exact hpq.1
    · exact (List.forall₂_eq_eq_eq ▸ hitems.imp fun p q hpq => hpq.2.symm : d = d').symm
  · rintro ⟨hcopies, rfl⟩
    exact List.forall₂_same.mpr fun p hp => ⟨hcopies p hp, rfl⟩

omit [Runtime] in
theorem Alert.sameKeys_items (a : Alert) : Dict.sameKeys a.items AlertFields.fieldNames = true := by
  rw [Dict.sameKeys, AlertFields.keys_items]
  decide

/-- **An alert reads back as it is.** -/
theorem readAlertSnapshot_toValue {a : Alert} (h : a.Readable) : readAlertSnapshot a.toValue = some (a, a.items) := by
  have hiter : iterItems a.items = .ok a.items := by
    refine (iterItems_eq_ok (d := a.items) fun k hk => hk).mpr ⟨?_, rfl⟩
    simp only [AlertFields.items, List.forall_mem_cons]
    have hcopies := DetectionMatch.copyable_iff.mpr h.copies
    exact ⟨by simp, fun _ => hcopies, by simp⟩
  have htimes : (alertTimestamps.all fun name => (a.items.lookup name).any isUtcDatetime) = true := rfl
  rw [Alert.toValue, readAlertSnapshot, hiter]
  dsimp only
  rw [a.sameKeys_items, htimes, validateAlertFields_items h.dumps]
  rfl

end Read

theorem Alert.toValue_injective {a b : Alert} (h : a.toValue = b.toValue) : a = b := by
  obtain ⟨⟨id, m, created, state, changed, severity, priority, updated⟩, hordered⟩ := a
  obtain ⟨⟨id', m', created', state', changed', severity', priority', updated'⟩, hordered'⟩ := b
  have hinstant {i j : Instant} (h : i.toDateTime = j.toDateTime) : i = j := by
    cases i
    cases j
    cases h
    rfl
  simp only [toValue, AlertFields.items, Value.model.injEq, List.cons.injEq, Prod.mk.injEq, true_and, and_true,
    Value.datetime.injEq] at h
  obtain ⟨hid, hmatch, hcreated, hstate, hchanged, hseverity, hpriority, hupdated⟩ := h
  obtain rfl := alertId.enc_injective hid
  obtain rfl := DetectionMatch.codec.enc_injective hmatch
  obtain rfl := hinstant hcreated
  obtain rfl := StrEnum.toValue_injective hstate
  obtain rfl := hinstant hchanged
  obtain rfl := StrEnum.toValue_injective hseverity
  obtain rfl := StrEnum.toValue_injective hpriority
  obtain rfl := hinstant hupdated
  rfl

/-! ### What an accepted value is -/

section Accepted

variable [Runtime] {d : Dict}

omit [Runtime] in
/-- A timestamp in UTC is its instant. -/
theorem eq_of_isUtcDatetime {x : Value} {i : Instant} (hx : isUtcDatetime x = true)
    (h : requireAwareUtcInstant x = .ok i) : x = .datetime i.toDateTime := by
  cases x with
  | datetime dt =>
    obtain ⟨wall, tz⟩ := dt
    obtain rfl : tz = some .utc := by simpa [isUtcDatetime] using hx
    cases h
    rfl
  | _ => cases hx

omit [Runtime] in
theorem eq_of_alertId {x : Value} {id : AlertId} (h : alertId.validate true x = ok id) :
    (alertId.enc id).eq x = true := by
  obtain ⟨s, hs, hid⟩ := after_eq_ok.mp h
  obtain ⟨hcheck, -, hid⟩ := after_eq_ok.mp hid
  cases hid
  rcases strictStr_iff.mp hs with rfl | ⟨cls, rfl⟩ | ⟨o, rfl, htext⟩
  · simp [alertId, Codec.after, Codec.str, Value.eq]
  · simp [alertId, Codec.after, Codec.str, Value.eq]
  · simp [alertId, Codec.after, Codec.str, Value.eq, Foreign.equals, htext]

/-- The item of every timestamp is in UTC. -/
def UtcTimestamps (d : Dict) : Prop := ∀ name ∈ alertTimestamps, (d.lookup name).any isUtcDatetime = true

omit [Runtime] in
theorem timestamp_item (hutc : UtcTimestamps d) {name : String} (hname : name ∈ alertTimestamps)
    {i : Instant} (h : requiredField name (ofFunction requireAwareUtcInstant) d = ok i) :
    d.lookup name = some (.datetime i.toDateTime) := by
  obtain ⟨x, hx, hi⟩ := requiredField_eq_ok.mp h
  have hany := hutc name hname
  rw [hx] at hany
  rw [hx, eq_of_isUtcDatetime hany (ofFunction_eq_ok.mp hi)]

omit [Runtime] in
theorem keys_subset (hkeys : d.sameKeys AlertFields.fieldNames = true) :
    ∀ k ∈ d.keys, k ∈ AlertFields.fieldNames := by
  rw [Dict.sameKeys, Bool.and_eq_true, List.all_eq_true] at hkeys
  exact fun k hk => by simpa using hkeys.1 k hk

omit [Runtime] in
/-- An enumeration member that stands in a dict with all of the declared keys. -/
theorem enum_item (hkeys : d.sameKeys AlertFields.fieldNames = true) {name : String}
    (hname : name ∈ AlertFields.fieldNames) {ε : Type} [StrEnum ε] {e default : ε}
    (h : ModelField.get default <$> optionalField name (enumOf ε true) d = ok e) :
    d.lookup name = some (StrEnum.toValue e) := by
  rw [Dict.sameKeys, Bool.and_eq_true, List.all_eq_true, List.all_eq_true] at hkeys
  have hmem : name ∈ d.keys := by simpa using hkeys.2 name hname
  obtain ⟨x, hx⟩ : ∃ x, d.lookup name = some x := by
    rw [← Option.ne_none_iff_exists', ne_eq, List.lookup_eq_none_iff]
    obtain ⟨p, hp, rfl⟩ := List.mem_map.mp hmem
    exact fun hnone => by simpa using hnone p hp
  rw [hx, eq_of_enumOf ((optionalField_of_lookup hx).mp h)]

/-- The fields that are read equal the items. -/
theorem eqItems_of_ofDict (hkeys : d.sameKeys AlertFields.fieldNames = true) (hutc : UtcTimestamps d)
    {f : AlertFields} (h : AlertFields.ofDict true d = ok f) : Value.eqItems f.items d = true := by
  obtain ⟨hid, hmatch, hcreated, hstate, hchanged, hseverity, hpriority, hupdated⟩ :=
    AlertFields.ofDict_eq_ok.mp h
  obtain ⟨x, hx, hid⟩ := requiredField_eq_ok.mp hid
  obtain ⟨y, hy, hmatch⟩ := requiredField_eq_ok.mp hmatch
  have hself {ε : Type} [StrEnum ε] (e : ε) : (StrEnum.toValue e).eq (StrEnum.toValue e) = true :=
    (Codec.enum ε).eq_self e
  have htime (i : Instant) : (Value.datetime i.toDateTime).eq (.datetime i.toDateTime) = true := by
    simp [Value.eq]
  simp [AlertFields.items, Value.eqItems, hx, hy, enum_item hkeys (by decide) hstate,
    enum_item hkeys (by decide) hseverity, enum_item hkeys (by decide) hpriority,
    timestamp_item hutc (by decide) hcreated, timestamp_item hutc (by decide) hchanged,
    timestamp_item hutc (by decide) hupdated, hself, htime, eq_of_alertId hid,
    (ownValidatedMatch_cases (ofFunction_eq_ok.mp hmatch)).2]

end Accepted

/-- The value is an alert whose attributes are the declared ones and equal those of `a`. -/
def SameFields (a : Alert) (v : Value) : Prop :=
  ∃ attributes fieldsSet, v = .model "Alert" attributes fieldsSet ∧
    Dict.sameKeys attributes AlertFields.fieldNames = true ∧ Value.eqItems a.items attributes = true

section Read

variable [Runtime] {v : Value} {a : Alert} {d : Dict}

/-- What was checked of a value that is read. -/
theorem readAlertSnapshot_cases (h : readAlertSnapshot v = some (a, d)) :
    ∃ fieldsSet, v = .model "Alert" d fieldsSet ∧ Dict.sameKeys d AlertFields.fieldNames = true ∧
      (∀ p ∈ d, p.1 = "source_match" → p.2.Copies Runtime.frames) ∧
      UtcTimestamps d ∧ AlertFields.ofDict true d = ok a.toAlertFields := by
  unfold readAlertSnapshot at h
  split at h
  · next cls attributes fieldsSet =>
    split_ifs at h with hcls hkeys
    obtain rfl := not_not.mp hcls
    split at h
    · cases h
    · next fields hiter =>
      obtain ⟨hcopies, rfl⟩ := (iterItems_eq_ok (keys_subset hkeys)).mp hiter
      split_ifs at h with hfields
      simp only [Bool.or_eq_true, Bool.not_eq_true', not_or, Bool.not_eq_false, decide_eq_true_eq,
        not_not, List.all_eq_true] at hfields
      obtain ⟨a', ha', heq⟩ := Option.map_eq_some_iff.mp h
      cases heq
      exact ⟨fieldsSet, rfl, hkeys, hcopies, hfields.2,
        (Alert.modelValidate_eq_ok.mp (toOption_eq_some.mp ha')).1⟩
  · cases h

/-- **What is read of a value equals it.** -/
theorem readAlertSnapshot_eq_some (h : readAlertSnapshot v = some (a, d)) : SameFields a v := by
  obtain ⟨fieldsSet, rfl, hkeys, -, hutc, hread⟩ := readAlertSnapshot_cases h
  exact ⟨d, fieldsSet, rfl, hkeys, eqItems_of_ofDict hkeys hutc hread⟩

/-- The evidence is a snapshot of what it was read from. -/
theorem isSnapshot_of_ownValidatedMatch {x : Value} {m : DetectionMatch} (h : ownValidatedMatch x = .ok m) :
    m.toValue.IsSnapshot x := by
  obtain ⟨-, hread, heq⟩ := ownValidatedMatch_cases h
  exact DetectionMatch.exact m x hread heq

/-- **An alert that is read can be read again.** -/
theorem readable_of_read (h : readAlertSnapshot v = some (a, d)) : a.Readable := by
  obtain ⟨fieldsSet, rfl, -, hcopies, -, hread⟩ := readAlertSnapshot_cases h
  obtain ⟨-, hmatch, -⟩ := AlertFields.ofDict_eq_ok.mp hread
  obtain ⟨x, hx, hmatch⟩ := requiredField_eq_ok.mp hmatch
  have hown := ofFunction_eq_ok.mp hmatch
  have hsnapshot := isSnapshot_of_ownValidatedMatch hown
  refine ⟨Value.nesting_le_of_isSnapshot hsnapshot (ownValidatedMatch_cases hown).1.1, ?_⟩
  rw [← DetectionMatch.copyable_iff]
  exact .of_isSnapshot a.sourceMatch.sparse hsnapshot (hcopies _ (mem_of_lookup hx) rfl)

/-- An alert whose evidence cannot be copied or dumped is refused. -/
theorem readAlertSnapshot_of_not_readable (h : ¬ a.Readable) : readAlertSnapshot a.toValue = none := by
  rw [Option.eq_none_iff_forall_ne_some]
  rintro ⟨b, d⟩ hread
  obtain ⟨fieldsSet, hv, -, hcopies, -, hfields⟩ := readAlertSnapshot_cases hread
  obtain ⟨-, rfl, -⟩ := Value.model.inj hv
  obtain ⟨-, hmatch, -⟩ := AlertFields.ofDict_eq_ok.mp hfields
  have hown := ofFunction_eq_ok.mp ((requiredField_of_lookup rfl).mp hmatch)
  refine h ⟨(ownValidatedMatch_cases hown).1.1, DetectionMatch.copyable_iff.mp ?_⟩
  exact hcopies ("source_match", a.sourceMatch.toValue) (by simp [AlertFields.items]) rfl

end Read

end SocLab
