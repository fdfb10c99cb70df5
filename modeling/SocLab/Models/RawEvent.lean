import SocLab.Models.NormalizedEvent

/-!
# SocLab.Models.RawEvent — source-shaped contract of ingested events

`models/raw_event.py`.  The scalar types are declared there again, as in `models/normalized_event.py`.
-/

namespace SocLab

open Py Py.Validation

/-- Validated Windows Event metadata before source-specific normalization. -/
structure RawWindowsEvent where
  provider : NonEmptyString
  eventId : PositiveInteger
  channel : NonEmptyString
  timestamp : AwareDatetime
  computer : NonEmptyString
  recordId : ModelField (Option NonNegativeInteger)
  eventData : ModelField StrDict

namespace RawWindowsEvent

/-- `RawWindowsEvent.model_fields`, in the order of the class. -/
def fieldNames : List String :=
  ["provider", "event_id", "channel", "timestamp", "computer", "record_id", "event_data"]

/-- The fields of a dict, in the order of the class. -/
def fields (strict : Bool) (d : Dict) : Validation RawWindowsEvent :=
  RawWindowsEvent.mk <$> requiredField "provider" (nonEmptyString.validate strict) d
    <*> requiredField "event_id" (positiveInteger.validate strict) d
    <*> requiredField "channel" (nonEmptyString.validate strict) d
    <*> requiredField "timestamp" (Codec.datetime.validate strict) d
    <*> requiredField "computer" (nonEmptyString.validate strict) d
    <*> optionalField "record_id" (optionalNonNegativeInteger.validate strict) d
    <*> optionalField "event_data" (Codec.strDict.validate strict) d

/-- `RawWindowsEvent(**values)`, or its strict validation. -/
def modelValidate (strict : Bool) : Validator RawWindowsEvent := modelDict fieldNames (fields strict)

/-- The named values of the event, empty when none were given. -/
def eventDataDict (raw : RawWindowsEvent) : StrDict := raw.eventData.get .empty

/-- What a valid dict says about the event. -/
theorem fields_eq_ok {strict : Bool} {d : Dict} {raw : RawWindowsEvent} :
    fields strict d = ok raw ↔
      requiredField "provider" (nonEmptyString.validate strict) d = ok raw.provider ∧
      requiredField "event_id" (positiveInteger.validate strict) d = ok raw.eventId ∧
      requiredField "channel" (nonEmptyString.validate strict) d = ok raw.channel ∧
      requiredField "timestamp" (Codec.datetime.validate strict) d = ok raw.timestamp ∧
      requiredField "computer" (nonEmptyString.validate strict) d = ok raw.computer ∧
      optionalField "record_id" (optionalNonNegativeInteger.validate strict) d = ok raw.recordId ∧
      optionalField "event_data" (Codec.strDict.validate strict) d = ok raw.eventData := by
  rw [fields, map₇_eq_ok]
  constructor
  · rintro ⟨_, _, _, _, _, _, _, h₁, h₂, h₃, h₄, h₅, h₆, h₇, rfl⟩
    exact ⟨h₁, h₂, h₃, h₄, h₅, h₆, h₇⟩
  · rintro ⟨h₁, h₂, h₃, h₄, h₅, h₆, h₇⟩
    exact ⟨_, _, _, _, _, _, _, h₁, h₂, h₃, h₄, h₅, h₆, h₇, rfl⟩

end RawWindowsEvent

end SocLab
