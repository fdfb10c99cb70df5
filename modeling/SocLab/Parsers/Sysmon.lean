import SocLab.Parsers.EventData

/-!
# SocLab.Parsers.Sysmon — supported Sysmon events

`parsers/sysmon.py`: the events 1, 3, 11 and 22, each with its context and the fields that it consumes.
`raisesOnly_eventContext` is about the errors of the contexts, `category_of_eventContext` about their class.
-/

namespace SocLab

open Py Py.Validation Logic

namespace Sysmon

/-- `_PROCESS_FIELDS`. -/
def processFields : List String :=
  ["Image", "ProcessId", "CommandLine", "ParentProcessId", "ParentImage", "User"]

/-- `_NETWORK_FIELDS`. -/
def networkFields : List String :=
  ["SourceIp", "SourcePort", "DestinationIp", "DestinationPort", "Protocol", "ProcessId", "Image"]

/-- `_FILE_FIELDS`. -/
def fileFields : List String := ["TargetFilename", "ProcessId", "Image"]

/-- `_DNS_FIELDS`. -/
def dnsFields : List String := ["QueryName", "QueryStatus", "QueryResults", "ProcessId", "Image"]

/-- `_optional_text`. -/
def optionalText (value : Option String) : Option String := EventData.optionalText value

/-- `_required_text`. -/
def requiredText (data : StrDict) (field : String) : Except IngestionRaised String :=
  EventData.requiredText data field

/-- `_decimal_integer`. -/
def decimalInteger (value field : String) : Except IngestionRaised Int :=
  EventData.nonNegativeInteger "a valid decimal integer" 10 value field

/-- `_required_integer`. -/
def requiredInteger (data : StrDict) (field : String) : Except IngestionRaised Int := do
  let value ← requiredText data field
  decimalInteger value field

/-- `_optional_integer`. -/
def optionalInteger (data : StrDict) (field : String) : Except IngestionRaised (Option Int) :=
  EventData.optionalInteger decimalInteger data field

/-- The context of event 1. -/
def processContext (data : StrDict) : Except IngestionRaised ProcessContext := do
  let image ← requiredText data "Image"
  let processId ← requiredInteger data "ProcessId"
  let parentProcessId ← optionalInteger data "ParentProcessId"
  validated (ProcessContext.modelClass.modelValidate false (.dict
    [("image", .str image),
      ("process_id", .int processId),
      ("command_line", .ofOption .str (optionalText (data.get "CommandLine"))),
      ("parent_process_id", .ofOption .int parentProcessId),
      ("parent_image", .ofOption .str (optionalText (data.get "ParentImage"))),
      ("user", .ofOption .str (optionalText (data.get "User")))]))

/-- The context of event 3. -/
def networkContext (data : StrDict) : Except IngestionRaised NetworkContext := do
  let sourceIp ← requiredText data "SourceIp"
  let sourcePort ← requiredInteger data "SourcePort"
  let destinationIp ← requiredText data "DestinationIp"
  let destinationPort ← requiredInteger data "DestinationPort"
  let processId ← optionalInteger data "ProcessId"
  validated (NetworkContext.modelClass.modelValidate false (.dict
    [("source_ip", .str sourceIp),
      ("source_port", .int sourcePort),
      ("destination_ip", .str destinationIp),
      ("destination_port", .int destinationPort),
      ("protocol", .ofOption .str (optionalText (data.get "Protocol"))),
      ("process_id", .ofOption .int processId),
      ("process_image", .ofOption .str (optionalText (data.get "Image")))]))

/-- The context of event 11. -/
def fileContext (data : StrDict) : Except IngestionRaised FileContext := do
  let targetPath ← requiredText data "TargetFilename"
  let processId ← optionalInteger data "ProcessId"
  validated (FileContext.modelClass.modelValidate false (.dict
    [("target_path", .str targetPath),
      ("process_id", .ofOption .int processId),
      ("process_image", .ofOption .str (optionalText (data.get "Image")))]))

/-- The context of event 22. -/
def dnsContext (data : StrDict) : Except IngestionRaised DnsContext := do
  let queryName ← requiredText data "QueryName"
  let processId ← optionalInteger data "ProcessId"
  validated (DnsContext.modelClass.modelValidate false (.dict
    [("query_name", .str queryName),
      ("query_status", .ofOption .str (optionalText (data.get "QueryStatus"))),
      ("query_results", .ofOption .str (optionalText (data.get "QueryResults"))),
      ("process_id", .ofOption .int processId),
      ("process_image", .ofOption .str (optionalText (data.get "Image")))]))

/-- The context of a supported event, and the fields that it consumes. -/
def eventContext (raw : RawWindowsEvent) : Except IngestionRaised (EventContext × List String) :=
  if raw.eventId.val = 1 then
    (fun context => (.process context, processFields)) <$> processContext raw.eventDataDict
  else if raw.eventId.val = 3 then
    (fun context => (.network context, networkFields)) <$> networkContext raw.eventDataDict
  else if raw.eventId.val = 11 then
    (fun context => (.file context, fileFields)) <$> fileContext raw.eventDataDict
  else (fun context => (.dns context, dnsFields)) <$> dnsContext raw.eventDataDict

/-- The category that goes with the branches of `eventContext`. -/
def eventCategory (raw : RawWindowsEvent) : EventCategory :=
  if raw.eventId.val = 1 then .process
  else if raw.eventId.val = 3 then .network
  else if raw.eventId.val = 11 then .file
  else .dns

/-! ### Errors -/

section Errors

variable {data : StrDict} {value field : String} {raw : RawWindowsEvent}

theorem raisesOnly_decimalInteger : RaisesOnly IngestionRaised.OfData (decimalInteger value field) :=
  EventData.raisesOnly_nonNegativeInteger.mono fun _ => Or.inl

theorem raisesOnly_requiredInteger :
    RaisesOnly IngestionRaised.OfData (requiredInteger data field) :=
  EventData.raisesOnly_requiredText.bind fun _ _ => raisesOnly_decimalInteger

theorem raisesOnly_optionalInteger :
    RaisesOnly IngestionRaised.OfData (optionalInteger data field) :=
  EventData.raisesOnly_optionalInteger fun _ => raisesOnly_decimalInteger

theorem raisesOnly_processContext : RaisesOnly IngestionRaised.OfData (processContext data) := by
  refine EventData.raisesOnly_requiredText.bind fun image _ => ?_
  refine raisesOnly_requiredInteger.bind fun processId _ => ?_
  refine raisesOnly_optionalInteger.bind fun parentProcessId _ => ?_
  exact raisesOnly_validated (ModelClass.clean_modelValidate _ (ProcessContext.clean_fields false) _)
    IngestionRaised.ofData_validation

theorem raisesOnly_networkContext : RaisesOnly IngestionRaised.OfData (networkContext data) := by
  refine EventData.raisesOnly_requiredText.bind fun sourceIp _ => ?_
  refine raisesOnly_requiredInteger.bind fun sourcePort _ => ?_
  refine EventData.raisesOnly_requiredText.bind fun destinationIp _ => ?_
  refine raisesOnly_requiredInteger.bind fun destinationPort _ => ?_
  refine raisesOnly_optionalInteger.bind fun processId _ => ?_
  exact raisesOnly_validated (ModelClass.clean_modelValidate _ (NetworkContext.clean_fields false) _)
    IngestionRaised.ofData_validation

theorem raisesOnly_fileContext : RaisesOnly IngestionRaised.OfData (fileContext data) := by
  refine EventData.raisesOnly_requiredText.bind fun targetPath _ => ?_
  refine raisesOnly_optionalInteger.bind fun processId _ => ?_
  exact raisesOnly_validated (ModelClass.clean_modelValidate _ (FileContext.clean_fields false) _)
    IngestionRaised.ofData_validation

theorem raisesOnly_dnsContext : RaisesOnly IngestionRaised.OfData (dnsContext data) := by
  refine EventData.raisesOnly_requiredText.bind fun queryName _ => ?_
  refine raisesOnly_optionalInteger.bind fun processId _ => ?_
  exact raisesOnly_validated (ModelClass.clean_modelValidate _ (DnsContext.clean_fields false) _)
    IngestionRaised.ofData_validation

theorem raisesOnly_eventContext : RaisesOnly IngestionRaised.OfData (eventContext raw) := by
  unfold eventContext
  split_ifs
  · exact raisesOnly_processContext.map _
  · exact raisesOnly_networkContext.map _
  · exact raisesOnly_fileContext.map _
  · exact raisesOnly_dnsContext.map _

end Errors

/-- The context is of the class that the category asks for. -/
theorem category_of_eventContext {raw : RawWindowsEvent} {context : EventContext} {consumed : List String}
    (h : eventContext raw = .ok (context, consumed)) : context.category = eventCategory raw := by
  unfold eventContext at h
  unfold eventCategory
  split_ifs at h ⊢
  all_goals
    obtain ⟨c, -, hc⟩ := exists_of_map_ok h
    cases hc
    rfl

/-- What the module adds to the common normalizer. -/
def normalizer : EventData.Normalizer where
  label := "Sysmon"
  provider := "Microsoft-Windows-Sysmon"
  channel := "Microsoft-Windows-Sysmon/Operational"
  eventIds := [1, 3, 11, 22]
  source := .sysmon
  eventCategory := eventCategory
  eventContext := eventContext
  category_eventContext _ _ _ := category_of_eventContext
  raisesOnly_eventContext _ := raisesOnly_eventContext.mono fun _ => IngestionRaised.OfData.handled

/-- Normalize only Sysmon 1, 3, 11 and 22, preserving unused source fields. -/
def normalizeSysmonEvent (raw : RawWindowsEvent) : Except IngestionRaised NormalizedEvent :=
  normalizer.normalize raw

end Sysmon

end SocLab
