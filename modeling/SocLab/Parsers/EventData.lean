import SocLab.Models.RawEvent
import SocLab.Parsers.Errors

/-!
# SocLab.Parsers.EventData — what the two normalizers share

`sysmon.py` and `windows_security.py` read the named values of a raw event with the same helpers, and
their normalizers differ in texts and tables only, which a `Normalizer` holds.

* `buildNormalizedEvent_ok`: the construction of the event never fails.
* `Normalizer.raisesOnly_normalize`: an event whose id can be written raises the errors of the package.
* `Normalizer.normalize_ok`: what an event that is returned is made of.
-/

namespace SocLab

open Py Py.Validation Logic

namespace EventData

/-- `_optional_text`: a missing, blank or `-` value is absent. -/
def optionalText (value : Option String) : Option String :=
  match value with
  | none => none
  | some value => if strip value = "" ∨ strip value = "-" then none else some (strip value)

/-- `_required_text`. -/
def requiredText (data : StrDict) (field : String) : Except IngestionRaised String :=
  match optionalText (data.get field) with
  | none => .error (.invalidNormalizedEvent (field ++ " is required"))
  | some value => .ok value

/-- A non-negative integer; `expected` says in the message what the text has to be. -/
def nonNegativeInteger (expected : String) (base : Nat) (value field : String) :
    Except IngestionRaised Int := do
  let result ← exceptValueError (int value base) (.invalidNormalizedEvent (field ++ " must be " ++ expected))
  if result < 0 then .error (.invalidNormalizedEvent (field ++ " must be non-negative")) else .ok result

/-- `None` for an absent value, otherwise the integer that `read` finds in it. -/
def optionalInteger (read : String → String → Except IngestionRaised Int) (data : StrDict)
    (field : String) : Except IngestionRaised (Option Int) :=
  match optionalText (data.get field) with
  | none => .ok none
  | some value => some <$> read value field

/-- The values whose names are not consumed. -/
def retained (raw : RawWindowsEvent) (consumed : List String) : StrDict :=
  ⟨raw.eventDataDict.val.filter (·.1 ∉ consumed),
    (raw.eventDataDict.property.sublist (List.filter_sublist.map _))⟩

/-- The keyword arguments of `NormalizedEvent(...)`. -/
def normalizedFields (source : EventSource) (raw : RawWindowsEvent) (category : EventCategory)
    (context : EventContext) (consumed : List String) : Dict :=
  [("source", StrEnum.toValue source),
    ("provider", .str raw.provider),
    ("event_id", .int raw.eventId),
    ("channel", .str raw.channel),
    ("timestamp", .datetime raw.timestamp.val),
    ("computer", .str raw.computer),
    ("record_id", .ofOption (.int ·.val) (raw.recordId.get none)),
    ("category", StrEnum.toValue category),
    ("context", context.toValue),
    ("source_data", (retained raw consumed).toValue)]

/-- `NormalizedEvent(...)`. -/
def buildNormalizedEvent (source : EventSource) (raw : RawWindowsEvent) (category : EventCategory)
    (context : EventContext) (consumed : List String) : Except IngestionRaised NormalizedEvent :=
  validated (NormalizedEvent.codec.validate false
    (.dict (normalizedFields source raw category context consumed)))

/-- The event of a context: the metadata of the raw event, and the values that the context leaves. -/
def normalized (source : EventSource) (raw : RawWindowsEvent) (context : EventContext)
    (consumed : List String) : NormalizedEvent where
  source := source
  provider := raw.provider
  eventId := raw.eventId
  channel := raw.channel
  timestamp := raw.timestamp
  computer := raw.computer
  recordId := .set (raw.recordId.get none)
  category := context.category
  context := context
  sourceData := .set (retained raw consumed)
  context_matches := rfl

/-- **The construction of the event never fails**: every field was valid in the raw event. -/
theorem buildNormalizedEvent_ok (source : EventSource) (raw : RawWindowsEvent) (context : EventContext)
    (consumed : List String) :
    buildNormalizedEvent source raw context.category context consumed =
      .ok (normalized source raw context consumed) := by
  refine validated_eq_ok.mpr (after_eq_ok.mpr ⟨(normalized source raw context consumed).toEventFields, ?_,
    NormalizedEvent.validateContextMatchesCategory_self _⟩)
  refine modelDict_dict (EventFields.fields_eq_ok.mpr ⟨?_, ?_, ?_, ?_, ?_, ?_, ?_, ?_, ?_, ?_⟩) fun k hk => hk
  · exact (requiredField_of_lookup rfl).mpr (enumOf_toValue false source)
  · exact (requiredField_of_lookup rfl).mpr (constrained_eq_ok.mpr rfl)
  · exact (requiredField_of_lookup rfl).mpr (constrained_eq_ok.mpr rfl)
  · exact (requiredField_of_lookup rfl).mpr (constrained_eq_ok.mpr rfl)
  · exact (requiredField_of_lookup rfl).mpr (Codec.validate_datetime false _)
  · exact (requiredField_of_lookup rfl).mpr (constrained_eq_ok.mpr rfl)
  · exact (optionalField_set_of_lookup rfl).mpr (validate_optionalNonNegativeInteger false _)
  · exact (requiredField_of_lookup rfl).mpr (enumOf_toValue false context.category)
  · exact (requiredField_of_lookup rfl).mpr (EventContext.modelValidate_toValue false context)
  · exact (optionalField_set_of_lookup rfl).mpr (Codec.validate_strDict false _)

/-! ### Errors -/

theorem raisesOnly_requiredText {data : StrDict} {field : String} :
    RaisesOnly IngestionRaised.OfData (requiredText data field) := by
  unfold requiredText
  split
  · exact raisesOnly_error.mpr (IngestionRaised.ofData_invalidNormalizedEvent _)
  · exact raisesOnly_ok _

theorem raisesOnly_nonNegativeInteger {expected value field : String} {base : Nat} :
    RaisesOnly (fun e => ∃ message, e = IngestionRaised.invalidNormalizedEvent message)
      (nonNegativeInteger expected base value field) := by
  refine RaisesOnly.bind (raisesOnly_exceptValueError (fun _ h => int_error h) ⟨_, rfl⟩) fun n _ => ?_
  split_ifs
  · exact raisesOnly_error.mpr ⟨_, rfl⟩
  · exact raisesOnly_ok _

theorem raisesOnly_optionalInteger {read : String → String → Except IngestionRaised Int} {data : StrDict}
    {field : String} (hread : ∀ value, RaisesOnly IngestionRaised.OfData (read value field)) :
    RaisesOnly IngestionRaised.OfData (optionalInteger read data field) := by
  unfold optionalInteger
  split
  · exact raisesOnly_ok _
  · exact (hread _).map some

/-! ### The normalizers -/

/-- What the two normalizers differ in.  `eventContext` gives the context of a supported event and the
fields that it consumes, `eventCategory` the category of the same branch. -/
structure Normalizer where
  label : String
  provider : String
  channel : String
  eventIds : List Int
  source : EventSource
  eventCategory : RawWindowsEvent → EventCategory
  eventContext : RawWindowsEvent → Except IngestionRaised (EventContext × List String)
  category_eventContext : ∀ raw context consumed, eventContext raw = .ok (context, consumed) →
    context.category = eventCategory raw
  raisesOnly_eventContext : ∀ raw, RaisesOnly IngestionRaised.Handled (eventContext raw)

namespace Normalizer

variable (n : Normalizer) {raw : RawWindowsEvent}

/-- The event is one that the normalizer is for. -/
def Supported (raw : RawWindowsEvent) : Prop :=
  raw.provider.val = n.provider ∧ raw.channel.val = n.channel ∧ raw.eventId.val ∈ n.eventIds

instance (raw : RawWindowsEvent) : Decidable (n.Supported raw) := by unfold Supported; infer_instance

/-- The normalizer: the identity first, then the context and the event, with validation errors replaced. -/
def normalize (raw : RawWindowsEvent) : Except IngestionRaised NormalizedEvent :=
  if ¬ n.Supported raw then do
    let eventId ← ofCall (strOfInt raw.eventId)
    .error (.unsupportedEvent (.identity n.label raw.provider raw.channel eventId))
  else exceptValidationError (do
      let (context, consumed) ← n.eventContext raw
      buildNormalizedEvent n.source raw (n.eventCategory raw) context consumed)
    (.invalidNormalizedEvent ("invalid normalized " ++ n.label ++ " event"))

/-- With the context of the event, the event is built. -/
theorem build_of_eventContext {context : EventContext} {consumed : List String}
    (h : n.eventContext raw = .ok (context, consumed)) :
    buildNormalizedEvent n.source raw (n.eventCategory raw) context consumed =
      .ok (normalized n.source raw context consumed) := by
  rw [← n.category_eventContext raw context consumed h]
  exact buildNormalizedEvent_ok n.source raw context consumed

/-- A supported event is normalized when its context can be built. -/
theorem normalize_of_ok (hsupported : n.Supported raw) {context : EventContext} {consumed : List String}
    (h : n.eventContext raw = .ok (context, consumed)) :
    n.normalize raw = .ok (normalized n.source raw context consumed) := by
  rw [normalize, if_neg (not_not_intro hsupported), h, ok_bind]
  exact exceptValidationError_eq_ok.mpr (n.build_of_eventContext h)

/-- An error of the data of a supported event is reported as such. -/
theorem normalize_of_error (hsupported : n.Supported raw) {e : IngestionRaised} (he : e.OfData)
    (h : n.eventContext raw = .error e) :
    ∃ message, n.normalize raw = .error (.invalidNormalizedEvent message) := by
  rw [normalize, if_neg (not_not_intro hsupported), h, error_bind]
  rcases he with ⟨message, rfl⟩ | ⟨errors, rfl⟩
  · exact ⟨message, rfl⟩
  · exact ⟨_, rfl⟩

/-- **A normalized event** has a context of its data, its own metadata and the remaining data. -/
theorem normalize_ok {event : NormalizedEvent} (h : n.normalize raw = .ok event) :
    n.Supported raw ∧ ∃ context consumed, n.eventContext raw = .ok (context, consumed) ∧
      event = normalized n.source raw context consumed := by
  unfold normalize at h
  split_ifs at h with hsupported
  · obtain ⟨⟨context, consumed⟩, hcontext, h⟩ := bind_eq_ok.mp (exceptValidationError_eq_ok.mp h)
    refine ⟨hsupported, context, consumed, hcontext, ?_⟩
    exact Except.ok.inj (h.symm.trans (n.build_of_eventContext hcontext))
  · obtain ⟨eventId, -, h⟩ := bind_eq_ok.mp h
    cases h

/-- **The errors of a normalizer are those of the package**, when the event id can be written. -/
theorem raisesOnly_normalize {text : String} (htext : strOfInt raw.eventId = .ok text) :
    RaisesOnly IngestionRaised.Controlled (n.normalize raw) := by
  unfold normalize
  split_ifs
  · refine (raisesOnly_exceptValidationError ?_).mpr
      ((n.raisesOnly_eventContext raw).bind fun context hcontext => ?_)
    · exact trivial
    · obtain ⟨context, consumed⟩ := context
      dsimp only
      rw [n.build_of_eventContext hcontext]
      exact raisesOnly_ok _
  · rw [htext]
    exact raisesOnly_error.mpr trivial

end Normalizer

end EventData

end SocLab
