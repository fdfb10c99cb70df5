import SocLab.Models.RawEvent
import SocLab.Parsers.Errors
import SocLab.Py.ElementTree

/-!
# SocLab.Parsers.WindowsEvent — raw events from namespaced Windows Event XML

`parsers/windows_event.py`.  The reader of XML is the parameter `fromstring`.

* `raisesOnly_parseWindowsEventXml_iff`: the errors are those of the package, unless the text reaches the
  conversion of a `SystemTime` that no UTC datetime can represent.
* `parseWindowsEventXml_ok`: the event id and the timestamp of an event that is returned.
-/

namespace SocLab

open Py Py.Validation Logic

namespace WindowsEvent

/-- `WINDOWS_EVENT_NAMESPACE`. -/
def windowsEventNamespace : String := "http://schemas.microsoft.com/win/2004/08/events/event"

/-- A local name in the namespace of Windows events. -/
def qualified (localName : String) : String := "\x7b" ++ windowsEventNamespace ++ "\x7d" ++ localName

/-- The root of a text. -/
def eventTag : String := qualified "Event"

/-- The tag of `System`. -/
def systemTag : String := qualified "System"

/-- The tag of `EventData`. -/
def eventDataTag : String := qualified "EventData"

/-- The tag of a named value. -/
def dataTag : String := qualified "Data"

/-- The children with the tag, in the order of the text. -/
def childrenWithTag (parent : Element) (tag : String) : List Element :=
  parent.children.filter (·.tag = tag)

/-- `_required_single_child`. -/
def requiredSingleChild (parent : Element) (tag fieldName : String) : Except IngestionRaised Element :=
  match childrenWithTag parent tag with
  | [element] => .ok element
  | _ => .error (.invalidRawEvent ("expected exactly one " ++ fieldName))

/-- `(element.text or "").strip()`. -/
def strippedText (element : Element) : String := strip (element.text.getD "")

/-- `_required_text`: the stripped text of the only child. -/
def requiredText (parent : Element) (localName fieldName : String) : Except IngestionRaised String := do
  let element ← requiredSingleChild parent (qualified localName) fieldName
  if strippedText element = "" then .error (.invalidRawEvent (fieldName ++ " must not be blank"))
  else .ok (strippedText element)

/-- An attribute that is neither missing nor blank, as it stands. -/
def requiredAttribute (element : Element) (name label : String) : Except IngestionRaised String :=
  match element.get name with
  | none => .error (.invalidRawEvent (label ++ " must not be missing or blank"))
  | some value =>
    if strip value = "" then .error (.invalidRawEvent (label ++ " must not be missing or blank"))
    else .ok value

/-- `_parse_integer`. -/
def parseInteger (value fieldName : String) : Except IngestionRaised Int :=
  exceptValueError (int value 10) (.invalidRawEvent (fieldName ++ " must be an integer"))

/-- The text that `fromisoformat` reads for a `SystemTime`. -/
def isoValue (value : String) : String :=
  if endsWith value "Z" then String.ofList value.toList.dropLast ++ "+00:00" else value

/-- `_parse_timestamp`; the conversion to UTC stands outside the handler. -/
def parseTimestamp (value : String) : Except IngestionRaised Instant := do
  let timestamp ← exceptValueError (fromisoformat (isoValue value))
    (.invalidRawEvent "SystemTime must be a valid datetime")
  if timestamp.tzinfo = none then .error (.invalidRawEvent "SystemTime must include a timezone")
  else do
    let offset ← ofCall timestamp.utcoffset
    if offset = none then .error (.invalidRawEvent "SystemTime must include a timezone")
    -- The conversion stands outside the handler of `ValueError`.
    else ofCall timestamp.astimezone

/-- `_parse_record_id`. -/
def parseRecordId (system : Element) : Except IngestionRaised (Option Int) :=
  match childrenWithTag system (qualified "EventRecordID") with
  | [] => .ok none
  | [element] =>
    if strippedText element = "" then .error (.invalidRawEvent "EventRecordID must not be blank")
    else some <$> parseInteger (strippedText element) "EventRecordID"
  | _ => .error (.invalidRawEvent "expected at most one EventRecordID")

/-- The loop over the children of `EventData`. -/
def parseDataElements (eventData : List (String × String)) :
    List Element → Except IngestionRaised (List (String × String))
  | [] => .ok eventData
  | dataElement :: rest =>
    if dataElement.tag ≠ dataTag then
      .error (.invalidRawEvent "EventData may contain only Data elements")
    else if dataElement.children.length ≠ 0 then
      .error (.invalidRawEvent "Data elements must not contain nested XML")
    else do
      let name ← requiredAttribute dataElement "Name" "Data Name"
      -- names are compared as they are written, without stripping
      if name ∈ eventData.map (·.1) then
        .error (.invalidRawEvent ("duplicate EventData name: " ++ name))
      else parseDataElements (eventData ++ [(name, dataElement.text.getD "")]) rest

/-- `_parse_event_data`. -/
def parseEventData (root : Element) : Except IngestionRaised (List (String × String)) :=
  match childrenWithTag root eventDataTag with
  | [] => .ok []
  | [element] => parseDataElements [] element.children
  | _ => .error (.invalidRawEvent "expected at most one EventData")

/-- The keyword arguments of `RawWindowsEvent(...)`. -/
def rawFields (provider : String) (eventId : Int) (channel : String) (timestamp : Instant)
    (computer : String) (recordId : Option Int) (eventData : List (String × String)) : Dict :=
  [("provider", .str provider),
    ("event_id", .int eventId),
    ("channel", .str channel),
    ("timestamp", .datetime timestamp.toDateTime),
    ("computer", .str computer),
    ("record_id", .ofOption .int recordId),
    ("event_data", .dict (eventData.map fun p => (p.1, .str p.2)))]

/-- `RawWindowsEvent(...)`, with the arguments in the order in which they are computed. -/
def buildRawEvent (root system : Element) (provider : String) (eventId : Int) (systemTime : String) :
    Except IngestionRaised RawWindowsEvent := do
  let channel ← requiredText system "Channel" "Channel"
  let timestamp ← parseTimestamp (strip systemTime)
  let computer ← requiredText system "Computer" "Computer"
  let recordId ← parseRecordId system
  let eventData ← parseEventData root
  validated (RawWindowsEvent.modelValidate false
    (.dict (rawFields (strip provider) eventId channel timestamp computer recordId eventData)))

/-- The event of an element tree. -/
def parseEvent (root : Element) : Except IngestionRaised RawWindowsEvent :=
  -- `iter` counts the root as well
  if root.tag ≠ eventTag ∨ root.iter.countP (·.tag = eventTag) ≠ 1 then
    .error (.invalidRawEvent "root must be exactly one namespaced Windows Event")
  else do
    let system ← requiredSingleChild root systemTag "System"
    let providerElement ← requiredSingleChild system (qualified "Provider") "Provider"
    let provider ← requiredAttribute providerElement "Name" "Provider Name"
    let eventIdText ← requiredText system "EventID" "EventID"
    let eventId ← parseInteger eventIdText "EventID"
    let timeCreated ← requiredSingleChild system (qualified "TimeCreated") "TimeCreated"
    let systemTime ← requiredAttribute timeCreated "SystemTime" "TimeCreated SystemTime"
    exceptValidationError (buildRawEvent root system provider eventId systemTime)
      (.invalidRawEvent "invalid raw Windows Event metadata")

/-- Parse exactly one namespaced Windows Event into raw typed metadata. -/
def parseWindowsEventXml (fromstring : String → Except ParseError Element) (xml : String) :
    Except IngestionRaised RawWindowsEvent :=
  match fromstring xml with
  | .error _ => .error (.malformedEventXml "malformed Windows Event XML")
  | .ok root => parseEvent root

/-! ### What the steps return -/

section Steps

variable {parent element : Element} {tag name label value fieldName localName : String}

theorem requiredSingleChild_eq_ok :
    requiredSingleChild parent tag fieldName = .ok element ↔ childrenWithTag parent tag = [element] := by
  unfold requiredSingleChild
  split
  · next e he => simp [he]
  · next hne =>
    refine iff_of_false (by simp) ?_
    exact hne element

theorem requiredText_eq_ok : requiredText parent localName fieldName = .ok value ↔
    ∃ element, childrenWithTag parent (qualified localName) = [element] ∧ strippedText element = value ∧
      value ≠ "" := by
  rw [requiredText, bind_eq_ok]
  simp only [requiredSingleChild_eq_ok]
  refine exists_congr fun element => and_congr_right fun _ => ?_
  split_ifs with h
  · refine iff_of_false (by simp) ?_
    rintro ⟨rfl, hne⟩
    exact hne h
  · rw [Except.ok.injEq]
    exact ⟨fun hv => ⟨hv, hv ▸ h⟩, And.left⟩

theorem requiredAttribute_eq_ok : requiredAttribute element name label = .ok value ↔
    element.get name = some value ∧ strip value ≠ "" := by
  unfold requiredAttribute
  split
  · next h => simp [h]
  · next v h =>
    rw [h]
    split_ifs with hblank
    · refine iff_of_false (by simp) ?_
      rintro ⟨hv, hne⟩
      cases hv
      exact hne hblank
    · rw [Except.ok.injEq, Option.some.injEq]
      exact ⟨fun hv => ⟨hv, hv ▸ hblank⟩, And.left⟩

theorem parseInteger_eq_ok {n : Int} : parseInteger value fieldName = .ok n ↔ int value 10 = .ok n :=
  exceptValueError_eq_ok

end Steps

/-! ### What the steps raise -/

section Errors

variable {parent element system root : Element} {tag name label value fieldName localName : String}

theorem raisesOnly_requiredSingleChild :
    RaisesOnly IngestionRaised.Controlled (requiredSingleChild parent tag fieldName) := by
  unfold requiredSingleChild
  split
  · exact raisesOnly_ok _
  · exact raisesOnly_error.mpr trivial

theorem raisesOnly_requiredText :
    RaisesOnly IngestionRaised.Controlled (requiredText parent localName fieldName) := by
  refine raisesOnly_requiredSingleChild.bind fun element _ => ?_
  split_ifs
  · exact raisesOnly_error.mpr trivial
  · exact raisesOnly_ok _

theorem raisesOnly_requiredAttribute :
    RaisesOnly IngestionRaised.Controlled (requiredAttribute element name label) := by
  unfold requiredAttribute
  split
  · exact raisesOnly_error.mpr trivial
  · split_ifs
    · exact raisesOnly_error.mpr trivial
    · exact raisesOnly_ok _

theorem raisesOnly_parseInteger :
    RaisesOnly IngestionRaised.Controlled (parseInteger value fieldName) :=
  raisesOnly_exceptValueError (fun _ h => int_error h) trivial

theorem raisesOnly_parseRecordId : RaisesOnly IngestionRaised.Controlled (parseRecordId system) := by
  unfold parseRecordId
  split
  · exact raisesOnly_ok _
  · split_ifs
    · exact raisesOnly_error.mpr trivial
    · exact raisesOnly_parseInteger.map some
  · exact raisesOnly_error.mpr trivial

theorem raisesOnly_parseDataElements (eventData : List (String × String)) (elements : List Element) :
    RaisesOnly IngestionRaised.Controlled (parseDataElements eventData elements) := by
  induction elements generalizing eventData with
  | nil => exact raisesOnly_ok _
  | cons dataElement rest ih =>
    rw [parseDataElements]
    split_ifs
    · exact raisesOnly_error.mpr trivial
    · exact raisesOnly_error.mpr trivial
    · refine raisesOnly_requiredAttribute.bind fun name _ => ?_
      split_ifs
      · exact raisesOnly_error.mpr trivial
      · exact ih _

theorem raisesOnly_parseEventData : RaisesOnly IngestionRaised.Controlled (parseEventData root) := by
  unfold parseEventData
  split
  · exact raisesOnly_ok _
  · exact raisesOnly_parseDataElements _ _
  · exact raisesOnly_error.mpr trivial

/-- **The conversion of a time raises an uncontrolled error exactly on instants out of range.** -/
theorem raisesOnly_parseTimestamp_iff (value : String) {P : IngestionRaised → Prop}
    (hcontrolled : ∀ e, e.Controlled → P e) (hoverflow : ¬ P (.exception .overflowError)) :
    RaisesOnly P (parseTimestamp value) ↔
      ∀ d, fromisoformat (isoValue value) = .ok d → ¬ d.OutOfRange := by
  have hread : RaisesOnly P (exceptValueError (fromisoformat (isoValue value))
      (.invalidRawEvent "SystemTime must be a valid datetime")) := by
    refine RaisesOnly.mono (P := IngestionRaised.Controlled) ?_ hcontrolled
    exact raisesOnly_exceptValueError (fun _ h => fromisoformat_error h) trivial
  rw [parseTimestamp, hread.bind_iff]
  refine forall_congr' fun d => ?_
  rw [exceptValueError_eq_ok]
  refine imp_congr_right fun hd => ?_
  obtain ⟨wall, tzinfo⟩ := d
  rcases fromisoformat_standard hd with rfl | rfl | ⟨o, rfl⟩
  · refine iff_of_true (raisesOnly_error.mpr (hcontrolled _ trivial)) ?_
    rintro ⟨o, ho, -⟩
    cases ho
  · exact iff_of_true (raisesOnly_ok _) (DateTime.not_outOfRange_utc wall)
  · show RaisesOnly P (ofCall (DateTime.astimezone ⟨wall, some (.fixed o)⟩)) ↔ _
    cases h : DateTime.astimezone ⟨wall, some (.fixed o)⟩ with
    | ok i =>
      refine iff_of_true (raisesOnly_ok _) fun hrange => ?_
      rw [DateTime.astimezone_fixed_error.mpr ⟨rfl, hrange⟩] at h
      cases h
    | error e =>
      obtain ⟨rfl, hrange⟩ := DateTime.astimezone_fixed_error.mp h
      exact iff_of_false (fun hraises => hoverflow (raisesOnly_error.mp hraises)) (not_not_intro hrange)

end Errors

/-! ### The time that no UTC datetime represents -/

/-- The tree passes every check that the source makes before it converts the text of `SystemTime`. -/
structure ReachesSystemTime (root : Element) (systemTime : String) : Prop where
  event : root.tag = eventTag
  single : root.iter.countP (·.tag = eventTag) = 1
  metadata : ∃ system, childrenWithTag root systemTag = [system] ∧
    (∃ element name, childrenWithTag system (qualified "Provider") = [element] ∧
      element.get "Name" = some name ∧ strip name ≠ "") ∧
    (∃ element n, childrenWithTag system (qualified "EventID") = [element] ∧
      strippedText element ≠ "" ∧ int (strippedText element) 10 = .ok n) ∧
    (∃ element, childrenWithTag system (qualified "TimeCreated") = [element] ∧
      element.get "SystemTime" = some systemTime ∧ strip systemTime ≠ "") ∧
    ∃ element, childrenWithTag system (qualified "Channel") = [element] ∧ strippedText element ≠ ""

/-- The tree reaches the conversion of a time whose instant lies outside the years 1 to 9999. -/
def OverflowingSystemTime (root : Element) : Prop :=
  ∃ systemTime d, ReachesSystemTime root systemTime ∧
    fromisoformat (isoValue (strip systemTime)) = .ok d ∧ d.OutOfRange

section Overflow

variable {root system : Element} {provider systemTime : String} {eventId : Int}

theorem clean_rawFields (channel : String) (timestamp : Instant) (computer : String)
    (recordId : Option Int) (eventData : List (String × String)) :
    Clean (RawWindowsEvent.modelValidate false
      (.dict (rawFields provider eventId channel timestamp computer recordId eventData))) := by
  refine clean_modelItems ?_
  have htimestamp : Clean (requiredField "timestamp" awareDatetime
      (rawFields provider eventId channel timestamp computer recordId eventData)) :=
    clean_required_datetime rfl (DateTime.aware_toDateTime timestamp)
  simp [RawWindowsEvent.fields, clean_required, clean_optional, Codec.datetime, htimestamp, Codec.strDict]

/-- Validation errors are handled, and the conversion of the time stands before everything that could
fail otherwise. -/
theorem raisesOnly_buildRawEvent_iff :
    RaisesOnly IngestionRaised.Controlled (exceptValidationError
      (buildRawEvent root system provider eventId systemTime)
      (.invalidRawEvent "invalid raw Windows Event metadata")) ↔
    ∀ channel, requiredText system "Channel" "Channel" = .ok channel →
      ∀ d, fromisoformat (isoValue (strip systemTime)) = .ok d → ¬ d.OutOfRange := by
  have hhandled : (IngestionRaised.invalidRawEvent "invalid raw Windows Event metadata").Controlled := trivial
  rw [raisesOnly_exceptValidationError hhandled, buildRawEvent,
    (raisesOnly_handled raisesOnly_requiredText).bind_iff]
  refine forall_congr' fun channel => imp_congr_right fun _ => ?_
  have htime := raisesOnly_parseTimestamp_iff (strip systemTime)
    (fun _ => IngestionRaised.Controlled.handled) (IngestionRaised.not_handled_exception .overflowError)
  constructor
  · intro h
    exact htime.mp (raisesOnly_bind.mp h).1
  · intro h
    refine (htime.mpr h).bind fun timestamp _ => ?_
    refine (raisesOnly_handled raisesOnly_requiredText).bind fun computer _ => ?_
    refine (raisesOnly_handled raisesOnly_parseRecordId).bind fun recordId _ => ?_
    refine (raisesOnly_handled raisesOnly_parseEventData).bind fun eventData _ => ?_
    exact raisesOnly_validated (clean_rawFields _ _ _ _ _) IngestionRaised.handled_validation

theorem raisesOnly_parseEvent_iff :
    RaisesOnly IngestionRaised.Controlled (parseEvent root) ↔ ¬ OverflowingSystemTime root := by
  constructor
  -- each step before the timestamp succeeds, so the exception of the conversion comes through
  · rintro h ⟨systemTime, d, ⟨hevent, hsingle, system, hsystem, ⟨providerElement, name, hprovider, hname,
      hnameBlank⟩, ⟨eventIdElement, n, heventId, heventIdBlank, hn⟩, ⟨timeCreated, htimeCreated, hsystemTime,
      hsystemTimeBlank⟩, channelElement, hchannel, hchannelBlank⟩, hd, hrange⟩
    rw [parseEvent, if_neg (by simp [hevent, hsingle]), requiredSingleChild_eq_ok.mpr hsystem, ok_bind,
      requiredSingleChild_eq_ok.mpr hprovider, ok_bind, requiredAttribute_eq_ok.mpr ⟨hname, hnameBlank⟩,
      ok_bind, requiredText_eq_ok.mpr ⟨_, heventId, rfl, heventIdBlank⟩, ok_bind,
      parseInteger_eq_ok.mpr hn, ok_bind, requiredSingleChild_eq_ok.mpr htimeCreated, ok_bind,
      requiredAttribute_eq_ok.mpr ⟨hsystemTime, hsystemTimeBlank⟩, ok_bind] at h
    exact raisesOnly_buildRawEvent_iff.mp h _ (requiredText_eq_ok.mpr ⟨_, hchannel, rfl, hchannelBlank⟩)
      d hd hrange
  · intro h
    unfold parseEvent
    split_ifs with hroot
    · exact raisesOnly_error.mpr trivial
    · obtain ⟨hevent, hsingle⟩ := not_or.mp hroot
      -- each step raises controlled errors only, and the steps before the timestamp are remembered
      refine raisesOnly_requiredSingleChild.bind fun system hsystem => ?_
      refine raisesOnly_requiredSingleChild.bind fun providerElement hprovider => ?_
      refine raisesOnly_requiredAttribute.bind fun provider hname => ?_
      refine raisesOnly_requiredText.bind fun eventIdText heventId => ?_
      refine raisesOnly_parseInteger.bind fun eventId hn => ?_
      refine raisesOnly_requiredSingleChild.bind fun timeCreated htimeCreated => ?_
      refine raisesOnly_requiredAttribute.bind fun systemTime hsystemTime => ?_
      refine raisesOnly_buildRawEvent_iff.mpr fun channel hchannel d hd hrange => ?_
      obtain ⟨eventIdElement, heventIdChild, rfl, heventIdBlank⟩ := requiredText_eq_ok.mp heventId
      obtain ⟨channelElement, hchannelChild, rfl, hchannelBlank⟩ := requiredText_eq_ok.mp hchannel
      have hsystem' := requiredSingleChild_eq_ok.mp hsystem
      have hprovider' := requiredSingleChild_eq_ok.mp hprovider
      have hname' := requiredAttribute_eq_ok.mp hname
      have hn' := parseInteger_eq_ok.mp hn
      have htimeCreated' := requiredSingleChild_eq_ok.mp htimeCreated
      have hsystemTime' := requiredAttribute_eq_ok.mp hsystemTime
      have hreaches : OverflowingSystemTime root :=
        ⟨systemTime, d, ⟨not_not.mp hevent, not_not.mp hsingle, system, hsystem', ⟨_, _, hprovider', hname'⟩,
          ⟨_, _, heventIdChild, heventIdBlank, hn'⟩, ⟨_, htimeCreated', hsystemTime'⟩, _, hchannelChild,
          hchannelBlank⟩, hd, hrange⟩
      exact h hreaches

/-- **The errors of the parser are those of the package, except on a time out of range.** -/
theorem raisesOnly_parseWindowsEventXml_iff {fromstring : String → Except ParseError Element} {xml : String} :
    RaisesOnly IngestionRaised.Controlled (parseWindowsEventXml fromstring xml) ↔
      ∀ root, fromstring xml = .ok root → ¬ OverflowingSystemTime root := by
  unfold parseWindowsEventXml
  split
  · next h =>
    refine iff_of_true (raisesOnly_error.mpr trivial) fun root hroot => ?_
    rw [h] at hroot
    cases hroot
  · next root h =>
    rw [raisesOnly_parseEvent_iff, h]
    constructor
    · rintro hroot _ ⟨⟩
      exact hroot
    · exact fun hroot => hroot root rfl

/-! ### Events that are returned -/

/-- The event id of an event that is returned was read from a text, and its timestamp is an instant. -/
theorem parseWindowsEventXml_ok {fromstring : String → Except ParseError Element} {xml : String}
    {raw : RawWindowsEvent} (h : parseWindowsEventXml fromstring xml = .ok raw) :
    (∃ text, int text 10 = .ok raw.eventId.val) ∧ ∃ i : Instant, raw.timestamp.val = i.toDateTime := by
  unfold parseWindowsEventXml at h
  split at h
  · cases h
  · unfold parseEvent at h
    split_ifs at h
    obtain ⟨system, -, h⟩ := bind_eq_ok.mp h
    obtain ⟨providerElement, -, h⟩ := bind_eq_ok.mp h
    obtain ⟨provider, -, h⟩ := bind_eq_ok.mp h
    obtain ⟨eventIdText, -, h⟩ := bind_eq_ok.mp h
    obtain ⟨eventId, hn, h⟩ := bind_eq_ok.mp h
    obtain ⟨timeCreated, -, h⟩ := bind_eq_ok.mp h
    obtain ⟨systemTime, -, h⟩ := bind_eq_ok.mp h
    obtain ⟨channel, -, h⟩ := bind_eq_ok.mp (exceptValidationError_eq_ok.mp h)
    obtain ⟨timestamp, -, h⟩ := bind_eq_ok.mp h
    obtain ⟨computer, -, h⟩ := bind_eq_ok.mp h
    obtain ⟨recordId, -, h⟩ := bind_eq_ok.mp h
    obtain ⟨eventData, -, h⟩ := bind_eq_ok.mp h
    obtain ⟨d, hd, hfields, -⟩ := modelDict_eq_ok.mp (validated_eq_ok.mp h)
    cases hd
    obtain ⟨-, heventId, -, htimestamp, -⟩ := RawWindowsEvent.fields_eq_ok.mp hfields
    refine ⟨⟨eventIdText, ?_⟩, ⟨timestamp, ?_⟩⟩
    · have hread := constrained_eq_ok.mp ((requiredField_of_lookup rfl).mp heventId)
      rw [← Validation.ok.inj hread]
      exact parseInteger_eq_ok.mp hn
    · have hread := (requiredField_of_lookup rfl).mp htimestamp
      rw [← Validation.ok.inj ((awareDatetime_ok (DateTime.aware_toDateTime timestamp)).symm.trans hread)]

end Overflow

end WindowsEvent

end SocLab
