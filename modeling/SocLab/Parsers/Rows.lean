import SocLab.Parsers.Shapes

/-!
# SocLab.Parsers.Rows — the supported events as a table

A `Row` is a supported identity with what becomes of its events; `Follows` says that a normalizer does what
the row says.

* `Follows.normalize_eq_ok`, `Follows.isOk_iff`: the events that are returned, and when there is one.
* `Sysmon.follows`, `WindowsSecurity.follows`: the normalizers follow their rows.
-/

namespace SocLab

open Py Py.Validation Logic

namespace EventContext

/-- The fields that are read from the event data. -/
def readSlots : EventContext → List Slot
  | authentication c => c.slots.tail
  | c => c.slots

/-- The outcome, which the event id fixes. -/
def outcome? : EventContext → Option AuthenticationOutcome
  | authentication c => some c.outcome
  | _ => none

/-- The attribute of an instance. -/
def getattr (context : EventContext) (name : String) : Option Value :=
  (Slot.items context.slots).lookup name

end EventContext

/-- A supported identity, and what its events are. -/
structure Row where
  provider : String
  channel : String
  eventId : Int
  source : EventSource
  category : EventCategory
  outcome : Option AuthenticationOutcome
  columns : List Column
  consumed : List String

namespace Row

/-- The raw event has the identity of the row. -/
def Matches (row : Row) (raw : RawWindowsEvent) : Prop :=
  raw.provider.val = row.provider ∧ raw.channel.val = row.channel ∧ raw.eventId.val = row.eventId

instance (row : Row) (raw : RawWindowsEvent) : Decidable (row.Matches raw) := by
  unfold Matches
  infer_instance

theorem Matches.ne {row : Row} {raw : RawWindowsEvent} (h : row.Matches raw) {k : Int}
    (hk : row.eventId ≠ k) : raw.eventId.val ≠ k := fun he => hk (h.2.2.symm.trans he)

/-- Every column of the row has a value. -/
def Readable (row : Row) (data : StrDict) : Prop := ∀ c ∈ row.columns, ∃ v, c.value data = some v

/-- The context of the row's class whose fields have the values of the columns. -/
structure Describes (row : Row) (data : StrDict) (context : EventContext) : Prop where
  category : context.category = row.category
  outcome : context.outcome? = row.outcome
  fields : List.Forall₂ (Column.Fills data) row.columns context.readSlots

end Row

namespace WindowsSecurity

/-- The row of a logon. -/
def authenticationRow (eventId : Int) (outcome : AuthenticationOutcome) : Row where
  provider := normalizer.provider
  channel := normalizer.channel
  eventId := eventId
  source := .windowsSecurity
  category := .authentication
  outcome := some outcome
  columns := authenticationColumns
  consumed := authenticationFields

/-- The row of a started process. -/
def processRow : Row where
  provider := normalizer.provider
  channel := normalizer.channel
  eventId := 4688
  source := .windowsSecurity
  category := .process
  outcome := none
  columns := processColumns
  consumed := processFields

/-- The rows of the Security log. -/
def rows : List Row := [authenticationRow 4624 .success, authenticationRow 4625 .failure, processRow]

end WindowsSecurity

namespace Sysmon

/-- A row of Sysmon. -/
def row (eventId : Int) (category : EventCategory) (columns : List Column) (consumed : List String) : Row where
  provider := normalizer.provider
  channel := normalizer.channel
  eventId := eventId
  source := .sysmon
  category := category
  outcome := none
  columns := columns
  consumed := consumed

/-- The rows of the Sysmon log. -/
def rows : List Row :=
  [row 1 .process processColumns processFields, row 3 .network networkColumns networkFields,
    row 11 .file fileColumns fileFields, row 22 .dns dnsColumns dnsFields]

end Sysmon

/-- All events that have a normalizer. -/
def supportedRows : List Row := WindowsSecurity.rows ++ Sysmon.rows

/-! ### The normalizers and the table -/

/-- The normalizer does with an event what the row says. -/
structure Row.Follows (row : Row) (n : EventData.Normalizer) : Prop where
  supported : ∀ raw, row.Matches raw → n.Supported raw
  source : n.source = row.source
  context : ∀ raw, row.Matches raw → ∀ context consumed, n.eventContext raw = .ok (context, consumed) ↔
    consumed = row.consumed ∧ row.Describes raw.eventDataDict context
  readable : ∀ raw, row.Matches raw → row.Readable raw.eventDataDict →
    ∃ context, n.eventContext raw = .ok (context, row.consumed)
  errors : ∀ raw, RaisesOnly IngestionRaised.OfData (n.eventContext raw)

theorem map_pair_eq_ok {α β : Type} {x : Except IngestionRaised α} {mk : α → β} {consumed k : List String}
    {b : β} : (fun a => (mk a, consumed)) <$> x = .ok (b, k) ↔ ∃ a, x = .ok a ∧ mk a = b ∧ k = consumed := by
  cases x with
  | ok a =>
    show Except.ok (mk a, consumed) = _ ↔ _
    simp [eq_comm]
  | error e =>
    show Except.error e = _ ↔ _
    simp

/-- A normalizer follows a row when the branch for the identity builds a context of the row's class from the
columns. -/
theorem Row.follows_of_builder {row : Row} {n : EventData.Normalizer} {α : Type} {mk : α → EventContext}
    {builder : StrDict → Except IngestionRaised α}
    (hsupported : ∀ raw, row.Matches raw → n.Supported raw) (hsource : n.source = row.source)
    (hbranch : ∀ raw, row.Matches raw →
      n.eventContext raw = (fun a => (mk a, row.consumed)) <$> builder raw.eventDataDict)
    (hbuilder : ∀ data a, builder data = .ok a ↔
      (mk a).outcome? = row.outcome ∧ List.Forall₂ (Column.Fills data) row.columns (mk a).readSlots)
    (hreadable : ∀ data, row.Readable data → ∃ a, builder data = .ok a)
    (hmk : ∀ context : EventContext, context.category = row.category ↔ ∃ a, mk a = context)
    (herrors : ∀ raw, RaisesOnly IngestionRaised.OfData (n.eventContext raw)) : row.Follows n where
  supported := hsupported
  source := hsource
  context raw hraw context consumed := by
    rw [hbranch raw hraw, map_pair_eq_ok]
    constructor
    · rintro ⟨a, ha, rfl, rfl⟩
      obtain ⟨houtcome, hfields⟩ := (hbuilder _ a).mp ha
      exact ⟨rfl, (hmk _).mpr ⟨a, rfl⟩, houtcome, hfields⟩
    · rintro ⟨rfl, hcategory, houtcome, hfields⟩
      obtain ⟨a, rfl⟩ := (hmk context).mp hcategory
      exact ⟨a, (hbuilder _ a).mpr ⟨houtcome, hfields⟩, rfl, rfl⟩
  readable raw hraw h := by
    obtain ⟨a, ha⟩ := hreadable _ h
    exact ⟨mk a, by rw [hbranch raw hraw, ha]; rfl⟩
  errors := herrors

section Classes

variable (context : EventContext)

theorem category_authentication : context.category = .authentication ↔ ∃ c, .authentication c = context := by
  cases context <;> simp [EventContext.category]

theorem category_process : context.category = .process ↔ ∃ c, .process c = context := by
  cases context <;> simp [EventContext.category]

theorem category_network : context.category = .network ↔ ∃ c, .network c = context := by
  cases context <;> simp [EventContext.category]

theorem category_file : context.category = .file ↔ ∃ c, .file c = context := by
  cases context <;> simp [EventContext.category]

theorem category_dns : context.category = .dns ↔ ∃ c, .dns c = context := by
  cases context <;> simp [EventContext.category]

end Classes

namespace Sysmon

theorem supported_of_matches {row : Row} (h : row ∈ rows) (raw : RawWindowsEvent) (hraw : row.Matches raw) :
    normalizer.Supported raw := by
  simp only [rows, List.mem_cons, List.not_mem_nil, or_false] at h
  rcases h with rfl | rfl | rfl | rfl
  all_goals exact ⟨hraw.1, hraw.2.1, by rw [hraw.2.2]; decide⟩

/-- **The normalizer follows its rows.** -/
theorem follows {row : Row} (h : row ∈ rows) : row.Follows normalizer := by
  have hsupported := supported_of_matches h
  simp only [rows, List.mem_cons, List.not_mem_nil, or_false] at h
  rcases h with rfl | rfl | rfl | rfl
  · refine Row.follows_of_builder hsupported rfl (fun raw hraw => ?_) (fun data c => ?_)
      (fun _ => exists_processContext) category_process fun _ => raisesOnly_eventContext
    · exact if_pos hraw.2.2
    · exact processContext_eq_ok.trans (and_iff_right rfl).symm
  · refine Row.follows_of_builder hsupported rfl (fun raw hraw => ?_) (fun data c => ?_)
      (fun _ => exists_networkContext) category_network fun _ => raisesOnly_eventContext
    · have hprocess : raw.eventId.val ≠ 1 := hraw.ne (by decide)
      exact (if_neg hprocess).trans (if_pos hraw.2.2)
    · exact networkContext_eq_ok.trans (and_iff_right rfl).symm
  · refine Row.follows_of_builder hsupported rfl (fun raw hraw => ?_) (fun data c => ?_)
      (fun _ => exists_fileContext) category_file fun _ => raisesOnly_eventContext
    · have hprocess : raw.eventId.val ≠ 1 := hraw.ne (by decide)
      have hnetwork : raw.eventId.val ≠ 3 := hraw.ne (by decide)
      exact (if_neg hprocess).trans ((if_neg hnetwork).trans (if_pos hraw.2.2))
    · exact fileContext_eq_ok.trans (and_iff_right rfl).symm
  · refine Row.follows_of_builder hsupported rfl (fun raw hraw => ?_) (fun data c => ?_)
      (fun _ => exists_dnsContext) category_dns fun _ => raisesOnly_eventContext
    · have hprocess : raw.eventId.val ≠ 1 := hraw.ne (by decide)
      have hnetwork : raw.eventId.val ≠ 3 := hraw.ne (by decide)
      have hfile : raw.eventId.val ≠ 11 := hraw.ne (by decide)
      exact (if_neg hprocess).trans ((if_neg hnetwork).trans (if_neg hfile))
    · exact dnsContext_eq_ok.trans (and_iff_right rfl).symm

/-- A supported event matches one of the rows. -/
theorem exists_row {raw : RawWindowsEvent} (h : normalizer.Supported raw) : ∃ row ∈ rows, row.Matches raw := by
  obtain ⟨hprovider, hchannel, hid⟩ := h
  simp only [normalizer, List.mem_cons, List.not_mem_nil, or_false] at hid
  rcases hid with hid | hid | hid | hid
  · exact ⟨row 1 .process processColumns processFields, by simp [rows], hprovider, hchannel, hid⟩
  · exact ⟨row 3 .network networkColumns networkFields, by simp [rows], hprovider, hchannel, hid⟩
  · exact ⟨row 11 .file fileColumns fileFields, by simp [rows], hprovider, hchannel, hid⟩
  · exact ⟨row 22 .dns dnsColumns dnsFields, by simp [rows], hprovider, hchannel, hid⟩

end Sysmon

namespace WindowsSecurity

theorem supported_of_matches {row : Row} (h : row ∈ rows) (raw : RawWindowsEvent) (hraw : row.Matches raw) :
    normalizer.Supported raw := by
  simp only [rows, List.mem_cons, List.not_mem_nil, or_false] at h
  rcases h with rfl | rfl | rfl
  all_goals exact ⟨hraw.1, hraw.2.1, by rw [hraw.2.2]; decide⟩

theorem authenticationRow_follows {eventId : Int} {outcome : AuthenticationOutcome}
    (hmem : authenticationRow eventId outcome ∈ rows) (hprocess : eventId ≠ 4688)
    (houtcome : (if eventId = 4624 then .success else .failure) = outcome) :
    (authenticationRow eventId outcome).Follows normalizer := by
  refine @Row.follows_of_builder _ _ _ _ (fun data => authenticationContext data outcome)
    (supported_of_matches hmem) rfl (fun raw hraw => ?_) (fun data c => ?_)
    (fun _ => exists_authenticationContext outcome) category_authentication fun _ => raisesOnly_eventContext
  · have hid : raw.eventId.val = eventId := hraw.2.2
    have hraised : authenticationOutcome raw = outcome := by rw [authenticationOutcome, hid, houtcome]
    rw [← hraised]
    exact if_neg (hid ▸ hprocess)
  · rw [authenticationContext_eq_ok]
    exact and_congr_left' (Option.some.injEq ..).to_iff.symm

/-- **The normalizer follows its rows.** -/
theorem follows {row : Row} (h : row ∈ rows) : row.Follows normalizer := by
  have hmem := h
  simp only [rows, List.mem_cons, List.not_mem_nil, or_false] at h
  rcases h with rfl | rfl | rfl
  · exact authenticationRow_follows hmem (by decide) rfl
  · exact authenticationRow_follows hmem (by decide) rfl
  · refine Row.follows_of_builder (supported_of_matches hmem) rfl (fun raw hraw => ?_) (fun data c => ?_)
      (fun _ => exists_processContext) category_process fun _ => raisesOnly_eventContext
    · exact if_pos hraw.2.2
    · exact processContext_eq_ok.trans (and_iff_right rfl).symm

theorem exists_row {raw : RawWindowsEvent} (h : normalizer.Supported raw) : ∃ row ∈ rows, row.Matches raw := by
  obtain ⟨hprovider, hchannel, hid⟩ := h
  simp only [normalizer, List.mem_cons, List.not_mem_nil, or_false] at hid
  rcases hid with hid | hid | hid
  · exact ⟨authenticationRow 4624 .success, by simp [rows], hprovider, hchannel, hid⟩
  · exact ⟨authenticationRow 4625 .failure, by simp [rows], hprovider, hchannel, hid⟩
  · exact ⟨processRow, by simp [rows], hprovider, hchannel, hid⟩

end WindowsSecurity

/-! ### What a normalizer makes of the events of a row -/

section Normalize

variable {row : Row} {n : EventData.Normalizer} {raw : RawWindowsEvent}

theorem Row.Describes.readable {data : StrDict} {context : EventContext} (h : row.Describes data context) :
    row.Readable data := by
  intro c hc
  obtain ⟨s, -, hs⟩ := exists_of_forall₂ h.fields c hc
  exact ⟨s.value, hs.value⟩

namespace Row.Follows

theorem normalize_eq_ok (h : row.Follows n) (hraw : row.Matches raw) {event : NormalizedEvent} :
    n.normalize raw = .ok event ↔ ∃ context, row.Describes raw.eventDataDict context ∧
      event = EventData.normalized row.source raw context row.consumed := by
  constructor
  · intro hevent
    obtain ⟨-, context, consumed, hcontext, rfl⟩ := n.normalize_ok hevent
    obtain ⟨rfl, hdescribes⟩ := (h.context raw hraw context consumed).mp hcontext
    exact ⟨context, hdescribes, by rw [h.source]⟩
  · rintro ⟨context, hdescribes, rfl⟩
    rw [← h.source]
    exact n.normalize_of_ok (h.supported raw hraw) ((h.context raw hraw _ _).mpr ⟨rfl, hdescribes⟩)

theorem isOk_iff (h : row.Follows n) (hraw : row.Matches raw) :
    (∃ event, n.normalize raw = .ok event) ↔ row.Readable raw.eventDataDict := by
  constructor
  · rintro ⟨event, hevent⟩
    obtain ⟨context, hdescribes, -⟩ := (h.normalize_eq_ok hraw).mp hevent
    exact hdescribes.readable
  · intro hreadable
    obtain ⟨context, hcontext⟩ := h.readable raw hraw hreadable
    exact ⟨_, n.normalize_of_ok (h.supported raw hraw) hcontext⟩

/-- An event of the row that is not returned is invalid. -/
theorem invalid_of_not_readable (h : row.Follows n) (hraw : row.Matches raw)
    (hreadable : ¬ row.Readable raw.eventDataDict) :
    ∃ message, n.normalize raw = .error (.invalidNormalizedEvent message) := by
  cases hcontext : n.eventContext raw with
  | ok pair =>
    exact absurd ((h.isOk_iff hraw).mp ⟨_, n.normalize_of_ok (h.supported raw hraw) hcontext⟩) hreadable
  | error e => exact n.normalize_of_error (h.supported raw hraw) (h.errors raw e hcontext) hcontext

end Row.Follows

end Normalize

end SocLab
