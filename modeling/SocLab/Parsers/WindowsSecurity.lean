import SocLab.Parsers.EventData

/-!
# SocLab.Parsers.WindowsSecurity — supported Windows Security events

`parsers/windows_security.py`: the events 4624, 4625 and 4688, each with its context and the fields that it
consumes.  Process ids may be hexadecimal.  `raisesOnly_eventContext` is about the errors of the contexts,
`category_of_eventContext` about their class.
-/

namespace SocLab

open Py Py.Validation Logic

namespace WindowsSecurity

/-- `_AUTHENTICATION_FIELDS`. -/
def authenticationFields : List String :=
  ["TargetUserName", "TargetDomainName", "LogonType", "IpAddress", "IpPort", "WorkstationName"]

/-- `_PROCESS_FIELDS`. -/
def processFields : List String :=
  ["NewProcessName", "NewProcessId", "CommandLine", "ProcessId", "ParentProcessName", "SubjectUserName"]

/-- `_optional_text`. -/
def optionalText (value : Option String) : Option String := EventData.optionalText value

/-- `_required_text`. -/
def requiredText (data : StrDict) (field : String) : Except IngestionRaised String :=
  EventData.requiredText data field

/-- `_parse_non_negative_integer`. -/
def parseNonNegativeInteger (base : Nat) (value field : String) : Except IngestionRaised Int :=
  EventData.nonNegativeInteger "a valid integer" base value field

/-- `_optional_decimal_integer`. -/
def optionalDecimalInteger (data : StrDict) (field : String) : Except IngestionRaised (Option Int) :=
  EventData.optionalInteger (parseNonNegativeInteger 10) data field

/-- `_windows_integer`: hexadecimal after a `0x`. -/
def windowsInteger (value field : String) : Except IngestionRaised Int :=
  let base := if startsWith value "0x" || startsWith value "0X" then 16 else 10
  parseNonNegativeInteger base value field

/-- `_optional_windows_integer`. -/
def optionalWindowsInteger (data : StrDict) (field : String) : Except IngestionRaised (Option Int) :=
  EventData.optionalInteger windowsInteger data field

/-- The context of the events 4624 and 4625. -/
def authenticationContext (data : StrDict) (outcome : AuthenticationOutcome) :
    Except IngestionRaised AuthenticationContext := do
  let logonType ← optionalDecimalInteger data "LogonType"
  let sourcePort ← optionalDecimalInteger data "IpPort"
  validated (AuthenticationContext.modelClass.modelValidate false (.dict
    [("outcome", StrEnum.toValue outcome),
      ("user", .ofOption .str (optionalText (data.get "TargetUserName"))),
      ("domain", .ofOption .str (optionalText (data.get "TargetDomainName"))),
      ("logon_type", .ofOption .int logonType),
      ("source_ip", .ofOption .str (optionalText (data.get "IpAddress"))),
      ("source_port", .ofOption .int sourcePort),
      ("workstation", .ofOption .str (optionalText (data.get "WorkstationName")))]))

/-- The context of event 4688. -/
def processContext (data : StrDict) : Except IngestionRaised ProcessContext := do
  let image ← requiredText data "NewProcessName"
  let newProcessId ← requiredText data "NewProcessId"
  let processId ← windowsInteger newProcessId "NewProcessId"
  let parentProcessId ← optionalWindowsInteger data "ProcessId"
  validated (ProcessContext.modelClass.modelValidate false (.dict
    [("image", .str image),
      ("process_id", .int processId),
      ("command_line", .ofOption .str (optionalText (data.get "CommandLine"))),
      ("parent_process_id", .ofOption .int parentProcessId),
      ("parent_image", .ofOption .str (optionalText (data.get "ParentProcessName"))),
      ("user", .ofOption .str (optionalText (data.get "SubjectUserName")))]))

/-- The outcome that the id of a logon event stands for. -/
def authenticationOutcome (raw : RawWindowsEvent) : AuthenticationOutcome :=
  if raw.eventId.val = 4624 then .success else .failure

/-- The context of a supported event, and the fields that it consumes. -/
def eventContext (raw : RawWindowsEvent) : Except IngestionRaised (EventContext × List String) :=
  if raw.eventId.val = 4688 then
    (fun context => (.process context, processFields)) <$> processContext raw.eventDataDict
  else
    (fun context => (.authentication context, authenticationFields)) <$>
      authenticationContext raw.eventDataDict (authenticationOutcome raw)

/-- The category that goes with the branches of `eventContext`. -/
def eventCategory (raw : RawWindowsEvent) : EventCategory :=
  if raw.eventId.val = 4688 then .process else .authentication

/-! ### Errors -/

section Errors

variable {data : StrDict} {value field : String} {outcome : AuthenticationOutcome} {raw : RawWindowsEvent}

theorem raisesOnly_parseNonNegativeInteger {base : Nat} :
    RaisesOnly IngestionRaised.OfData (parseNonNegativeInteger base value field) :=
  EventData.raisesOnly_nonNegativeInteger.mono fun _ => Or.inl

theorem raisesOnly_optionalDecimalInteger :
    RaisesOnly IngestionRaised.OfData (optionalDecimalInteger data field) :=
  EventData.raisesOnly_optionalInteger fun _ => raisesOnly_parseNonNegativeInteger

theorem raisesOnly_windowsInteger : RaisesOnly IngestionRaised.OfData (windowsInteger value field) :=
  raisesOnly_parseNonNegativeInteger

theorem raisesOnly_authenticationContext :
    RaisesOnly IngestionRaised.OfData (authenticationContext data outcome) := by
  refine raisesOnly_optionalDecimalInteger.bind fun logonType _ => ?_
  refine raisesOnly_optionalDecimalInteger.bind fun sourcePort _ => ?_
  exact raisesOnly_validated (ModelClass.clean_modelValidate _ (AuthenticationContext.clean_fields false) _)
    IngestionRaised.ofData_validation

theorem raisesOnly_processContext : RaisesOnly IngestionRaised.OfData (processContext data) := by
  refine EventData.raisesOnly_requiredText.bind fun image _ => ?_
  refine EventData.raisesOnly_requiredText.bind fun newProcessId _ => ?_
  refine raisesOnly_windowsInteger.bind fun processId _ => ?_
  refine (EventData.raisesOnly_optionalInteger fun _ =>
    raisesOnly_windowsInteger).bind fun parentProcessId _ => ?_
  exact raisesOnly_validated (ModelClass.clean_modelValidate _ (ProcessContext.clean_fields false) _)
    IngestionRaised.ofData_validation

theorem raisesOnly_eventContext : RaisesOnly IngestionRaised.OfData (eventContext raw) := by
  unfold eventContext
  split_ifs
  · exact raisesOnly_processContext.map _
  · exact raisesOnly_authenticationContext.map _

end Errors

/-- The context is of the class that the category asks for. -/
theorem category_of_eventContext {raw : RawWindowsEvent} {context : EventContext} {consumed : List String}
    (h : eventContext raw = .ok (context, consumed)) : context.category = eventCategory raw := by
  unfold eventContext at h
  unfold eventCategory
  split_ifs at h ⊢
  all_goals
    obtain ⟨c, -, hc⟩ := exists_of_map_ok h
    cases hc
    rfl

/-- What the module adds to the common normalizer. -/
def normalizer : EventData.Normalizer where
  label := "Windows Security"
  provider := "Microsoft-Windows-Security-Auditing"
  channel := "Security"
  eventIds := [4624, 4625, 4688]
  source := .windowsSecurity
  eventCategory := eventCategory
  eventContext := eventContext
  category_eventContext _ _ _ := category_of_eventContext
  raisesOnly_eventContext _ := raisesOnly_eventContext.mono fun _ => IngestionRaised.OfData.handled

/-- Normalize only Security 4624, 4625 and 4688, preserving unused source data. -/
def normalizeWindowsSecurityEvent (raw : RawWindowsEvent) : Except IngestionRaised NormalizedEvent :=
  normalizer.normalize raw

end WindowsSecurity

end SocLab
