import SocLab.Parsers.Sysmon
import SocLab.Parsers.WindowsEvent
import SocLab.Parsers.WindowsSecurity

/-!
# SocLab.Parsers.Pipeline — dispatch, and the entry point of normalization

`parsers/registry.py` and `parsers/pipeline.py`.

* `normalizeWindowsEventXml_controlled_iff`: exactly when the pipeline raises nothing but the errors of the
  package.
* `utcRepresentable_of_normalizeWindowsEventXml`: the events that are returned carry an instant.
-/

namespace SocLab

open Py Logic

/-- A function from raw to normalized events. -/
abbrev EventNormalizer : Type := RawWindowsEvent → Except IngestionRaised NormalizedEvent

/-- The provider of the Security log. -/
def windowsSecurityProvider : String := "Microsoft-Windows-Security-Auditing"

/-- The provider of the Sysmon log. -/
def sysmonProvider : String := "Microsoft-Windows-Sysmon"

/-- `_EVENT_NORMALIZERS`: the normalizer for a provider and an event id. -/
def eventNormalizerRegistry : List ((String × Int) × EventNormalizer) :=
  [((windowsSecurityProvider, 4624), WindowsSecurity.normalizeWindowsSecurityEvent),
    ((windowsSecurityProvider, 4625), WindowsSecurity.normalizeWindowsSecurityEvent),
    ((windowsSecurityProvider, 4688), WindowsSecurity.normalizeWindowsSecurityEvent),
    ((sysmonProvider, 1), Sysmon.normalizeSysmonEvent),
    ((sysmonProvider, 3), Sysmon.normalizeSysmonEvent),
    ((sysmonProvider, 11), Sysmon.normalizeSysmonEvent),
    ((sysmonProvider, 22), Sysmon.normalizeSysmonEvent)]

/-- The providers of the table, with repetitions. -/
def supportedProviders : List String := eventNormalizerRegistry.map (·.1.1)

/-- The registered normalizer for the provider and the event id of a raw event. -/
def getEventNormalizer (raw : RawWindowsEvent) : Except IngestionRaised EventNormalizer :=
  match eventNormalizerRegistry.lookup (raw.provider.val, raw.eventId.val) with
  | some normalizer => .ok normalizer
  | none =>
    if raw.provider.val ∉ supportedProviders then .error (.unsupportedEvent (.provider raw.provider))
    else do
      -- the message is formatted first, and `str` of a long identifier raises
      let eventId ← ofCall (strOfInt raw.eventId)
      .error (.unsupportedEvent (.eventId eventId raw.provider))

/-- Ingest one Windows Event XML record and dispatch its raw event for normalization. -/
def normalizeWindowsEventXml (fromstring : String → Except ParseError Element) (xml : String) :
    Except IngestionRaised NormalizedEvent := do
  let raw ← WindowsEvent.parseWindowsEventXml fromstring xml
  let normalizer ← getEventNormalizer raw
  normalizer raw

section Dispatch

variable {raw : RawWindowsEvent} {normalizer : EventNormalizer}

theorem exists_of_getEventNormalizer (h : getEventNormalizer raw = .ok normalizer) :
    ∃ n : EventData.Normalizer, normalizer = n.normalize := by
  unfold getEventNormalizer at h
  split at h
  · next found hfound =>
    cases h
    have hmem := mem_of_lookup hfound
    simp only [eventNormalizerRegistry, List.mem_cons, Prod.mk.injEq, List.not_mem_nil, or_false] at hmem
    rcases hmem with ⟨-, rfl⟩ | ⟨-, rfl⟩ | ⟨-, rfl⟩ | ⟨-, rfl⟩ | ⟨-, rfl⟩ | ⟨-, rfl⟩ | ⟨-, rfl⟩
    all_goals exact ⟨_, rfl⟩
  · split_ifs at h
    obtain ⟨eventId, -, h⟩ := bind_eq_ok.mp h
    cases h

theorem raisesOnly_getEventNormalizer {text : String} (htext : strOfInt raw.eventId = .ok text) :
    RaisesOnly IngestionRaised.Controlled (getEventNormalizer raw) := by
  unfold getEventNormalizer
  split
  · exact raisesOnly_ok _
  · split_ifs
    · rw [htext]
      exact raisesOnly_error.mpr trivial
    · exact raisesOnly_error.mpr trivial

end Dispatch

section Pipeline

variable {fromstring : String → Except ParseError Element} {xml : String}

/-- After a successful parse only errors of the package are left. -/
theorem raisesOnly_normalizer {raw : RawWindowsEvent}
    (h : WindowsEvent.parseWindowsEventXml fromstring xml = .ok raw) :
    RaisesOnly IngestionRaised.Controlled (getEventNormalizer raw >>= fun normalizer => normalizer raw) := by
  obtain ⟨⟨text, hint⟩, -⟩ := WindowsEvent.parseWindowsEventXml_ok h
  have htext := strOfInt_of_int hint
  refine (raisesOnly_getEventNormalizer htext).bind fun normalizer hnormalizer => ?_
  obtain ⟨n, rfl⟩ := exists_of_getEventNormalizer hnormalizer
  exact n.raisesOnly_normalize htext

/-- The timestamp of an event that is returned is an instant in UTC. -/
theorem timestamp_of_normalizeWindowsEventXml {event : NormalizedEvent}
    (h : normalizeWindowsEventXml fromstring xml = .ok event) :
    ∃ i : Instant, event.timestamp.val = i.toDateTime := by
  obtain ⟨raw, hraw, h⟩ := bind_eq_ok.mp h
  obtain ⟨normalizer, hnormalizer, h⟩ := bind_eq_ok.mp h
  obtain ⟨-, i, hinstant⟩ := WindowsEvent.parseWindowsEventXml_ok hraw
  obtain ⟨n, rfl⟩ := exists_of_getEventNormalizer hnormalizer
  obtain ⟨-, context, consumed, -, rfl⟩ := n.normalize_ok h
  exact ⟨i, by rw [EventData.normalized, hinstant]⟩

/-- The events that are returned carry an instant. -/
theorem utcRepresentable_of_normalizeWindowsEventXml {event : NormalizedEvent}
    (h : normalizeWindowsEventXml fromstring xml = .ok event) : event.UtcRepresentable := by
  obtain ⟨i, hi⟩ := timestamp_of_normalizeWindowsEventXml h
  exact ⟨i, by rw [hi, DateTime.astimezone_toDateTime]⟩

end Pipeline

/-- **When the pipeline fails in a controlled way**: exactly when the text does not reach the conversion
of a `SystemTime` whose instant lies outside the years 1 to 9999. -/
theorem normalizeWindowsEventXml_controlled_iff (fromstring : String → Except ParseError Element)
    (xml : String) :
    (∀ e, normalizeWindowsEventXml fromstring xml = .error e → e.Controlled) ↔
      ∀ root, fromstring xml = .ok root → ¬ WindowsEvent.OverflowingSystemTime root := by
  show RaisesOnly IngestionRaised.Controlled (normalizeWindowsEventXml fromstring xml) ↔ _
  rw [normalizeWindowsEventXml, raisesOnly_bind, WindowsEvent.raisesOnly_parseWindowsEventXml_iff]
  exact and_iff_left fun raw hraw => raisesOnly_normalizer hraw

namespace WindowsEvent

/-- A logon in the first hour of the year 1, one hour east of UTC. -/
def exampleXml : String :=
  "<Event xmlns='http://schemas.microsoft.com/win/2004/08/events/event'><System>" ++
  "<Provider Name='Microsoft-Windows-Security-Auditing'/><EventID>4624</EventID>" ++
  "<TimeCreated SystemTime='0001-01-01T00:00:00+01:00'/><Channel>Security</Channel>" ++
  "<Computer>host</Computer></System></Event>"

/-- The element tree of `exampleXml`. -/
def exampleTree : Element :=
  .mk eventTag [] none
    [.mk systemTag [] none
      [.mk (qualified "Provider") [("Name", windowsSecurityProvider)] none [],
        .mk (qualified "EventID") [] (some "4624") [],
        .mk (qualified "TimeCreated") [("SystemTime", "0001-01-01T00:00:00+01:00")] none [],
        .mk (qualified "Channel") [] (some "Security") [],
        .mk (qualified "Computer") [] (some "host") []]]

end WindowsEvent

/-- The instant of the event lies before the year 1, and the error of its conversion escapes. -/
theorem normalizeWindowsEventXml_not_controlled :
    ¬ ∀ (fromstring : String → Except ParseError Element) (xml : String) (e : IngestionRaised),
      normalizeWindowsEventXml fromstring xml = .error e → e.Controlled := by
  intro h
  have hraised : (normalizeWindowsEventXml
      (fun xml => if xml = WindowsEvent.exampleXml then .ok WindowsEvent.exampleTree else .error ⟨⟩)
      WindowsEvent.exampleXml).map (fun _ => ()) = .error (.exception .overflowError) := by
    decide +kernel
  exact h _ _ _ (error_of_map_error hraised)

end SocLab
