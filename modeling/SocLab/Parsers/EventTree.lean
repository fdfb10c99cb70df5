import SocLab.Parsers.WindowsEvent
import Mathlib.Data.List.Perm.Basic

/-!
# SocLab.Parsers.EventTree — what a well formed event tree says

`Reading` is the content of an event tree and `Reads` the relation between the two, without any order of
the checks.

* `parseEvent_eq_ok`: the parser returns exactly the events of the trees with a reading.
* `Reads.reorder`: an order of siblings does not matter, except that the data come in the order in which
  they are written.
-/

namespace SocLab

open Py Py.Validation Logic

namespace WindowsEvent

/-- Exactly one child has the name, and it has the property. -/
def OnlyChild (localName : String) (P : Element → Prop) (parent : Element) : Prop :=
  ∃ child, childrenWithTag parent (qualified localName) = [child] ∧ P child

/-- The element has no child of that name. -/
def NoChild (localName : String) (parent : Element) : Prop :=
  childrenWithTag parent (qualified localName) = []

/-- The content of an event tree; the time is as written. -/
structure Reading where
  provider : String
  eventId : Int
  channel : String
  systemTime : DateTime
  computer : String
  recordId : Option Int
  eventData : List (String × String)

/-- The stripped `Name` is the provider. -/
def ProviderName (name : String) (element : Element) : Prop :=
  ∃ text, element.get "Name" = some text ∧ strip text = name

/-- The stripped text is read as the number. -/
def IntegerText (n : Int) (element : Element) : Prop := int (strippedText element) 10 = .ok n

/-- The stripped `SystemTime` is read as the aware datetime. -/
def TimeAttribute (d : DateTime) (element : Element) : Prop :=
  ∃ text, element.get "SystemTime" = some text ∧ fromisoformat (isoValue (strip text)) = .ok d ∧ d.Aware

/-- A `Data` element without children, with its name and its text as they stand. -/
structure DataEntry (element : Element) (entry : String × String) : Prop where
  tag : element.tag = dataTag
  childless : element.children = []
  name : element.get "Name" = some entry.1
  not_blank : strip entry.1 ≠ ""
  text : entry.2 = element.text.getD ""

/-- The `System` element says what the reading has, each child once. -/
structure SystemReads (r : Reading) (system : Element) : Prop where
  provider : OnlyChild "Provider" (ProviderName r.provider) system
  provider_ne : r.provider ≠ ""
  eventId : OnlyChild "EventID" (IntegerText r.eventId) system
  eventId_pos : 0 < r.eventId
  systemTime : OnlyChild "TimeCreated" (TimeAttribute r.systemTime) system
  channel : OnlyChild "Channel" (strippedText · = r.channel) system
  channel_ne : r.channel ≠ ""
  computer : OnlyChild "Computer" (strippedText · = r.computer) system
  computer_ne : r.computer ≠ ""
  recordId : NoChild "EventRecordID" system ∧ r.recordId = none ∨
    OnlyChild "EventRecordID" (fun e => ∃ n, IntegerText n e ∧ 0 ≤ n ∧ r.recordId = some n) system

/-- The tree is an event with the given content. -/
structure Reads (r : Reading) (root : Element) : Prop where
  event : root.tag = eventTag
  single : ∀ e ∈ Element.iterAll root.children, e.tag ≠ eventTag
  system : OnlyChild "System" (SystemReads r) root
  eventData : NoChild "EventData" root ∧ r.eventData = [] ∨
    OnlyChild "EventData" (fun e => List.Forall₂ DataEntry e.children r.eventData) root
  distinct : (r.eventData.map (·.1)).Nodup

/-- The event that a reading describes: the texts and numbers as they were read, and the instant of the
time in UTC. -/
structure Describes (r : Reading) (raw : RawWindowsEvent) : Prop where
  provider : raw.provider.val = r.provider
  eventId : raw.eventId.val = r.eventId
  channel : raw.channel.val = r.channel
  timestamp : ∃ o, r.systemTime.utcoffset = .ok (some o) ∧ raw.timestamp.val.tzinfo = some .utc ∧
    (raw.timestamp.val.wall : Int) = (r.systemTime.wall : Int) - o.micros
  computer : raw.computer.val = r.computer
  recordId : ∃ n, raw.recordId = .set n ∧ n.map (·.val) = r.recordId
  eventData : ∃ d, raw.eventData = .set d ∧ d.val = r.eventData

/-! ### What the steps return -/

section Steps

variable {root system element : Element}

theorem int_empty (base : Nat) (n : Int) : int "" base ≠ .ok n := by
  have hnumeral : numeral base [] = none := rfl
  simp [int, signed, hnumeral]

theorem root_check : ¬ (root.tag ≠ eventTag ∨ root.iter.countP (·.tag = eventTag) ≠ 1) ↔
    root.tag = eventTag ∧ ∀ e ∈ Element.iterAll root.children, e.tag ≠ eventTag := by
  rw [not_or, not_not, not_not]
  refine and_congr_right fun htag => ?_
  rw [Element.iter_eq, List.countP_cons_of_pos (by simpa using htag), Nat.add_eq_right,
    List.countP_eq_zero]
  simp

theorem eventIdText_eq_ok {n : Int} :
    (∃ text, requiredText system "EventID" "EventID" = .ok text ∧ parseInteger text "EventID" = .ok n) ↔
      OnlyChild "EventID" (IntegerText n) system := by
  simp only [requiredText_eq_ok, parseInteger_eq_ok]
  constructor
  · rintro ⟨text, ⟨element, hchild, rfl, -⟩, hn⟩
    exact ⟨element, hchild, hn⟩
  · rintro ⟨element, hchild, hn⟩
    refine ⟨_, ⟨element, hchild, rfl, fun hblank => ?_⟩, hn⟩
    rw [IntegerText, hblank] at hn
    exact int_empty 10 n hn

theorem parseRecordId_eq_ok {recordId : Option Int} : parseRecordId system = .ok recordId ↔
    NoChild "EventRecordID" system ∧ recordId = none ∨
      OnlyChild "EventRecordID" (fun e => ∃ n, IntegerText n e ∧ recordId = some n) system := by
  unfold parseRecordId NoChild OnlyChild
  split
  · next h => simp [h, eq_comm]
  · next element h =>
    rw [h]
    simp only [List.cons_ne_nil, false_and, false_or, List.cons.injEq, and_true, exists_eq_left']
    split_ifs with hblank
    · refine iff_of_false (by simp) ?_
      rintro ⟨n, hn, -⟩
      rw [IntegerText, hblank] at hn
      exact int_empty 10 n hn
    · cases hint : parseInteger (strippedText element) "EventRecordID" with
      | ok n =>
        have hn := parseInteger_eq_ok.mp hint
        simp [IntegerText, hn, eq_comm]
      | error e =>
        refine iff_of_false (by simp) ?_
        rintro ⟨n, hn, -⟩
        rw [parseInteger_eq_ok.mpr hn] at hint
        cases hint
  · next hnone hone =>
    refine iff_of_false (by simp) ?_
    rintro (⟨h, -⟩ | ⟨element, h, -⟩)
    · exact hnone h
    · exact hone element h

/-- The conversion of a time that was read is the same instant in UTC. -/
theorem parseTimestamp_eq_ok {value : String} {i : Instant} : parseTimestamp value = .ok i ↔
    ∃ d o, fromisoformat (isoValue value) = .ok d ∧ d.utcoffset = .ok (some o) ∧
      (i.wall : Int) = (d.wall : Int) - o.micros := by
  rw [parseTimestamp, bind_eq_ok]
  refine exists_congr fun d => ?_
  rw [exceptValueError_eq_ok, exists_and_left]
  refine and_congr_right fun hd => ?_
  obtain ⟨wall, tzinfo⟩ := d
  rcases fromisoformat_standard hd with rfl | rfl | ⟨o, rfl⟩
  · simp [DateTime.utcoffset]
  · obtain ⟨wall'⟩ := i
    show Except.ok _ = _ ↔ _
    simp only [DateTime.utcoffset, Except.ok.injEq, Option.some.injEq, exists_eq_left', Offset.zero,
      Instant.mk.injEq, Fin.ext_iff]
    omega
  · show ofCall (DateTime.astimezone ⟨wall, some (.fixed o)⟩) = _ ↔ _
    simp only [DateTime.utcoffset, Except.ok.injEq, Option.some.injEq, exists_eq_left']
    rw [← DateTime.astimezone_fixed_eq_ok]
    cases DateTime.astimezone ⟨wall, some (.fixed o)⟩ <;> simp [ofCall, Except.mapError]

/-- One more name that is not among the names. -/
theorem nodup_names_append {acc : List (String × String)} {name text : String} :
    ((acc ++ [(name, text)]).map (·.1)).Nodup ↔ (acc.map (·.1)).Nodup ∧ name ∉ acc.map (·.1) := by
  rw [List.map_append, List.map_singleton, List.nodup_append_comm, List.singleton_append,
    List.nodup_cons, and_comm]

/-- The loop appends one entry for each element, and the names stay distinct. -/
theorem parseDataElements_eq_ok {acc data : List (String × String)} {elements : List Element}
    (hacc : (acc.map (·.1)).Nodup) : parseDataElements acc elements = .ok data ↔
      ∃ entries, List.Forall₂ DataEntry elements entries ∧ data = acc ++ entries ∧
        (data.map (·.1)).Nodup := by
  -- the entries read so far are the accumulator of the loop
  induction elements generalizing acc with
  | nil =>
    rw [parseDataElements, Except.ok.injEq]
    constructor
    · rintro rfl
      exact ⟨[], .nil, by simp, hacc⟩
    · rintro ⟨entries, hentries, rfl, -⟩
      cases hentries
      simp
  | cons element rest ih =>
    rw [parseDataElements]
    split_ifs with htag hchildren
    · refine iff_of_false (by simp) ?_
      rintro ⟨entries, hentries, -, -⟩
      obtain ⟨entry, -, hentry, -, -⟩ := List.forall₂_cons_left_iff.mp hentries
      exact htag hentry.tag
    · refine iff_of_false (by simp) ?_
      rintro ⟨entries, hentries, -, -⟩
      obtain ⟨entry, -, hentry, -, -⟩ := List.forall₂_cons_left_iff.mp hentries
      exact hchildren (by rw [hentry.childless]; rfl)
    · rw [bind_eq_ok]
      constructor
      · rintro ⟨name, hname, h⟩
        obtain ⟨hname, hblank⟩ := requiredAttribute_eq_ok.mp hname
        split_ifs at h with hdup
        obtain ⟨entries, hentries, rfl, hnodup⟩ := (ih (nodup_names_append.mpr ⟨hacc, hdup⟩)).mp h
        refine ⟨(name, element.text.getD "") :: entries, .cons ?_ hentries, by simp, hnodup⟩
        exact ⟨not_not.mp htag, List.length_eq_zero_iff.mp (not_not.mp hchildren), hname, hblank, rfl⟩
      · rintro ⟨_, hall, hdata, hnodup⟩
        obtain ⟨⟨name, text⟩, entries, hentry, hentries, rfl⟩ := List.forall₂_cons_left_iff.mp hall
        obtain rfl : text = element.text.getD "" := hentry.text
        obtain rfl : data = acc ++ [(name, element.text.getD "")] ++ entries := by simp [hdata]
        have hnames : ((acc ++ [(name, element.text.getD "")]).map (·.1)).Nodup :=
          hnodup.sublist ((List.sublist_append_left _ entries).map _)
        refine ⟨name, requiredAttribute_eq_ok.mpr ⟨hentry.name, hentry.not_blank⟩, ?_⟩
        rw [if_neg (nodup_names_append.mp hnames).2]
        exact (ih hnames).mpr ⟨entries, hentries, rfl, hnodup⟩

end Steps

/-! ### The events of the trees -/

section Events

variable {root : Element} {r : Reading} {raw : RawWindowsEvent}

/-- The validation of the keyword arguments gives the event that has them. -/
theorem modelValidate_rawFields {provider channel computer : String} {eventId : Int} {timestamp : Instant}
    {recordId : Option Int} {eventData : List (String × String)} :
    RawWindowsEvent.modelValidate false
        (.dict (rawFields provider eventId channel timestamp computer recordId eventData)) = ok raw ↔
      raw.provider.val = provider ∧ raw.eventId.val = eventId ∧ raw.channel.val = channel ∧
        raw.timestamp.val = timestamp.toDateTime ∧ raw.computer.val = computer ∧
        (∃ n, raw.recordId = .set n ∧ n.map (·.val) = recordId) ∧
        ∃ d, raw.eventData = .set d ∧ d.val = eventData := by
  have hkeys : ∀ k ∈ Dict.keys (rawFields provider eventId channel timestamp computer recordId eventData),
      k ∈ RawWindowsEvent.fieldNames := fun k hk => hk
  have htime {d : DateTime} {a : AwareDatetime} :
      Codec.datetime.validate false (.datetime d) = ok a ↔ a.val = d := awareDatetime_eq_ok
  have hdata {items : List (String × String)} {d : StrDict} :
      Codec.strDict.validate false (.dict (items.map fun p => (p.1, .str p.2))) = ok d ↔ d.val = items :=
    strDict_eq_ok
  rw [RawWindowsEvent.modelValidate, modelDict_iff hkeys, RawWindowsEvent.fields_eq_ok,
    requiredField_of_lookup rfl, requiredField_of_lookup rfl, requiredField_of_lookup rfl,
    requiredField_of_lookup rfl, requiredField_of_lookup rfl, optionalField_eq_ok_of_lookup rfl,
    optionalField_eq_ok_of_lookup rfl, nonEmptyString_eq_ok, nonEmptyString_eq_ok, nonEmptyString_eq_ok,
    positiveInteger_eq_ok, htime]
  simp only [optionalNonNegativeInteger_eq_ok, hdata]

/-- What an event that is returned was built of. -/
theorem buildRawEvent_eq_ok {system : Element} {provider systemTime : String} {eventId : Int} :
    buildRawEvent root system provider eventId systemTime = .ok raw ↔
      ∃ channel timestamp computer recordId eventData,
        requiredText system "Channel" "Channel" = .ok channel ∧
        parseTimestamp (strip systemTime) = .ok timestamp ∧
        requiredText system "Computer" "Computer" = .ok computer ∧
        parseRecordId system = .ok recordId ∧ parseEventData root = .ok eventData ∧
        RawWindowsEvent.modelValidate false
          (.dict (rawFields (strip provider) eventId channel timestamp computer recordId eventData)) =
            ok raw := by
  simp only [buildRawEvent, bind_eq_ok, validated_eq_ok, exists_and_left]

theorem parseEventData_eq_ok {data : List (String × String)} : parseEventData root = .ok data ↔
    (NoChild "EventData" root ∧ data = [] ∨
      OnlyChild "EventData" (fun e => List.Forall₂ DataEntry e.children data) root) ∧
    (data.map (·.1)).Nodup := by
  unfold parseEventData NoChild OnlyChild eventDataTag
  split
  · next h =>
    simp only [h, true_and, List.nil_eq, reduceCtorEq, false_and, exists_false, or_false]
    rw [Except.ok.injEq]
    constructor
    · rintro rfl
      exact ⟨rfl, List.nodup_nil⟩
    · exact fun hdata => hdata.1.symm
  · next element h =>
    simp only [h, List.cons_ne_nil, false_and, false_or, List.cons.injEq, and_true, exists_eq_left']
    rw [@parseDataElements_eq_ok [] data element.children List.nodup_nil]
    constructor
    · rintro ⟨entries, hentries, rfl, hnodup⟩
      exact ⟨hentries, hnodup⟩
    · rintro ⟨hentries, hnodup⟩
      exact ⟨data, hentries, rfl, hnodup⟩
  · next hnone hone =>
    refine iff_of_false (by simp) ?_
    rintro ⟨⟨h, -⟩ | ⟨element, h, -⟩, -⟩
    · exact hnone h
    · exact hone element h

/-- The record id of an event that was built is not negative. -/
theorem recordId_of_parseRecordId {system : Element} {recordId : Option Int} {n : Option NonNegativeInteger}
    (h : parseRecordId system = .ok recordId) (hn : n.map (·.val) = recordId) :
    NoChild "EventRecordID" system ∧ recordId = none ∨
      OnlyChild "EventRecordID" (fun e => ∃ n, IntegerText n e ∧ 0 ≤ n ∧ recordId = some n) system := by
  refine (parseRecordId_eq_ok.mp h).imp_right ?_
  rintro ⟨element, helement, k, hk, hrecordId⟩
  obtain ⟨n, rfl, rfl⟩ := Option.map_eq_some_iff.mp (hn.trans hrecordId)
  exact ⟨element, helement, _, hk, n.property, hrecordId⟩

theorem exists_reads_of_parseEvent (h : parseEvent root = .ok raw) : ∃ r, Reads r root ∧ Describes r raw := by
  unfold parseEvent at h
  split_ifs at h with hroot
  obtain ⟨system, hsystem, h⟩ := bind_eq_ok.mp h
  obtain ⟨providerElement, hproviderElement, h⟩ := bind_eq_ok.mp h
  obtain ⟨provider, hprovider, h⟩ := bind_eq_ok.mp h
  obtain ⟨eventIdText, heventIdText, h⟩ := bind_eq_ok.mp h
  obtain ⟨eventId, heventId, h⟩ := bind_eq_ok.mp h
  obtain ⟨timeCreated, htimeCreated, h⟩ := bind_eq_ok.mp h
  obtain ⟨systemTime, hsystemTime, h⟩ := bind_eq_ok.mp h
  obtain ⟨channel, timestamp, computer, recordId, eventData, hchannel, htimestamp, hcomputer, hrecordId,
    heventData, h⟩ := buildRawEvent_eq_ok.mp (exceptValidationError_eq_ok.mp h)
  obtain ⟨hrawProvider, hrawEventId, hrawChannel, hrawTimestamp, hrawComputer, ⟨n, hrawRecordId, hn⟩,
    hrawEventData⟩ := modelValidate_rawFields.mp h
  obtain ⟨d, o, hd, ho, hwall⟩ := parseTimestamp_eq_ok.mp htimestamp
  obtain ⟨hname, hprovider_ne⟩ := requiredAttribute_eq_ok.mp hprovider
  obtain ⟨channelElement, hchannelElement, hchannel, hchannel_ne⟩ := requiredText_eq_ok.mp hchannel
  obtain ⟨computerElement, hcomputerElement, hcomputer, hcomputer_ne⟩ := requiredText_eq_ok.mp hcomputer
  obtain ⟨heventData, hdistinct⟩ := parseEventData_eq_ok.mp heventData
  obtain ⟨hevent, hsingle⟩ := root_check.mp hroot
  have heventId_pos : 0 < eventId := hrawEventId ▸ raw.eventId.property
  -- what the steps have read, in one place
  let r : Reading := ⟨strip provider, eventId, channel, d, computer, recordId, eventData⟩
  have hsystemReads : SystemReads r system :=
    { provider := ⟨providerElement, requiredSingleChild_eq_ok.mp hproviderElement, provider, hname, rfl⟩
      provider_ne := hprovider_ne
      eventId := eventIdText_eq_ok.mp ⟨eventIdText, heventIdText, heventId⟩
      eventId_pos := heventId_pos
      systemTime := ⟨timeCreated, requiredSingleChild_eq_ok.mp htimeCreated, systemTime,
        (requiredAttribute_eq_ok.mp hsystemTime).1, hd, o, ho⟩
      channel := ⟨channelElement, hchannelElement, hchannel⟩
      channel_ne := hchannel_ne
      computer := ⟨computerElement, hcomputerElement, hcomputer⟩
      computer_ne := hcomputer_ne
      recordId := recordId_of_parseRecordId hrecordId hn }
  have hdescribes : Describes r raw :=
    { provider := hrawProvider
      eventId := hrawEventId
      channel := hrawChannel
      timestamp := ⟨o, ho, by rw [hrawTimestamp]; rfl, by rw [hrawTimestamp]; exact hwall⟩
      computer := hrawComputer
      recordId := ⟨n, hrawRecordId, hn⟩
      eventData := hrawEventData }
  exact ⟨r, ⟨hevent, hsingle, ⟨system, requiredSingleChild_eq_ok.mp hsystem, hsystemReads⟩, heventData,
    hdistinct⟩, hdescribes⟩

theorem parseEvent_of_reads (hr : Reads r root) (hraw : Describes r raw) : parseEvent root = .ok raw := by
  obtain ⟨system, hsystem, hs⟩ := hr.system
  obtain ⟨providerElement, hproviderElement, provider, hname, hprovider⟩ := hs.provider
  obtain ⟨eventIdText, heventIdText, heventId⟩ := eventIdText_eq_ok.mpr hs.eventId
  obtain ⟨timeCreated, htimeCreated, systemTime, hsystemTime, hd, -⟩ := hs.systemTime
  obtain ⟨o, ho, htz, hwall⟩ := hraw.timestamp
  have hprovider_ne : strip provider ≠ "" := hprovider ▸ hs.provider_ne
  have hsystemTime_ne : strip systemTime ≠ "" := by
    intro hblank
    rw [hblank] at hd
    cases hd
  have hchannel : requiredText system "Channel" "Channel" = .ok r.channel := by
    obtain ⟨element, helement, htext⟩ := hs.channel
    exact requiredText_eq_ok.mpr ⟨element, helement, htext, hs.channel_ne⟩
  have hcomputer : requiredText system "Computer" "Computer" = .ok r.computer := by
    obtain ⟨element, helement, htext⟩ := hs.computer
    exact requiredText_eq_ok.mpr ⟨element, helement, htext, hs.computer_ne⟩
  have hrecordId : parseRecordId system = .ok r.recordId := by
    refine parseRecordId_eq_ok.mpr (hs.recordId.imp_right ?_)
    rintro ⟨element, helement, n, hn, -, hrecordId⟩
    exact ⟨element, helement, n, hn, hrecordId⟩
  have htimestamp : parseTimestamp (strip systemTime) = .ok ⟨raw.timestamp.val.wall⟩ :=
    parseTimestamp_eq_ok.mpr ⟨r.systemTime, o, hd, ho, hwall⟩
  have htimestamp_utc : raw.timestamp.val = Instant.toDateTime ⟨raw.timestamp.val.wall⟩ := by
    generalize raw.timestamp.val = t at htz ⊢
    obtain ⟨wall, tzinfo⟩ := t
    cases htz
    rfl
  have heventData : parseEventData root = .ok r.eventData :=
    parseEventData_eq_ok.mpr ⟨hr.eventData, hr.distinct⟩
  have hfields := modelValidate_rawFields.mpr ⟨hraw.provider.trans hprovider.symm, hraw.eventId, hraw.channel,
    htimestamp_utc, hraw.computer, hraw.recordId, hraw.eventData⟩
  have hsystem : childrenWithTag root systemTag = [system] := hsystem
  rw [parseEvent, if_neg (root_check.mpr ⟨hr.event, hr.single⟩), requiredSingleChild_eq_ok.mpr hsystem,
    ok_bind, requiredSingleChild_eq_ok.mpr hproviderElement, ok_bind,
    requiredAttribute_eq_ok.mpr ⟨hname, hprovider_ne⟩, ok_bind, heventIdText, ok_bind, heventId, ok_bind,
    requiredSingleChild_eq_ok.mpr htimeCreated, ok_bind,
    requiredAttribute_eq_ok.mpr ⟨hsystemTime, hsystemTime_ne⟩, ok_bind]
  exact exceptValidationError_eq_ok.mpr (buildRawEvent_eq_ok.mpr
    ⟨_, _, _, _, _, hchannel, htimestamp, hcomputer, hrecordId, heventData, hfields⟩)

/-- **The parser returns exactly the events that the readings of the tree describe.** -/
theorem parseEvent_eq_ok : parseEvent root = .ok raw ↔ ∃ r, Reads r root ∧ Describes r raw := by
  constructor
  · exact exists_reads_of_parseEvent
  · rintro ⟨r, hr, hraw⟩
    exact parseEvent_of_reads hr hraw

/-- The time of the tree, if it is one, has an instant in the years 1 to 9999. -/
def UtcRepresentable (root : Element) : Prop :=
  ∀ system ∈ childrenWithTag root systemTag, ∀ element ∈ childrenWithTag system (qualified "TimeCreated"),
    ∀ text d, element.get "SystemTime" = some text → fromisoformat (isoValue (strip text)) = .ok d →
      ¬ d.OutOfRange

/-- A reading whose time can be converted describes an event. -/
theorem exists_describes (hr : Reads r root) (htime : UtcRepresentable root) : ∃ raw, Describes r raw := by
  obtain ⟨system, hsystem, hs⟩ := hr.system
  obtain ⟨element, helement, text, htext, hd, o, ho⟩ := hs.systemTime
  have hrange : 0 ≤ (r.systemTime.wall : Int) - o.micros ∧
      (r.systemTime.wall : Int) - o.micros < wallLimit := by
    by_contra hout
    exact htime system (by rw [systemTag, hsystem]; simp) element (by rw [helement]; simp) text _ htext hd
      ⟨o, ho, hout⟩
  obtain ⟨n, hn⟩ : ∃ n : Option NonNegativeInteger, n.map (·.val) = r.recordId := by
    rcases hs.recordId with ⟨-, hnone⟩ | ⟨_, -, n, -, hpos, hsome⟩
    · exact ⟨none, hnone.symm⟩
    · exact ⟨some ⟨n, hpos⟩, hsome.symm⟩
  let i : Instant := ⟨⟨((r.systemTime.wall : Int) - o.micros).toNat, by omega⟩⟩
  have hwall : ((i.wall : Nat) : Int) = (r.systemTime.wall : Int) - o.micros := Int.toNat_of_nonneg hrange.1
  let raw : RawWindowsEvent :=
    { provider := ⟨r.provider, one_le_length hs.provider_ne⟩
      eventId := ⟨r.eventId, hs.eventId_pos⟩
      channel := ⟨r.channel, one_le_length hs.channel_ne⟩
      timestamp := ⟨i.toDateTime, DateTime.aware_toDateTime i⟩
      computer := ⟨r.computer, one_le_length hs.computer_ne⟩
      recordId := .set n
      eventData := .set ⟨r.eventData, hr.distinct⟩ }
  exact ⟨raw, rfl, rfl, rfl, ⟨o, ho, rfl, hwall⟩, rfl, ⟨n, rfl, hn⟩, ⟨_, rfl, rfl⟩⟩

end Events

/-! ### The order of siblings -/

section Order

variable {root root' system system' parent parent' element element' : Element} {r : Reading}
  {localName tag : String}

theorem childrenWithTag_reorder (tag : String) (h : parent.Reorder parent') :
    (childrenWithTag parent tag).Perm (childrenWithTag parent' tag) ∨
      List.Forall₂ (Relation.ReflGen Element.Reorder) (childrenWithTag parent tag)
        (childrenWithTag parent' tag) := by
  rcases h.children with hperm | hall
  · exact Or.inl (hperm.filter _)
  · refine Or.inr (List.rel_filter ?_ hall)
    rintro a b (_ | h)
    · exact Iff.rfl
    · show decide (a.tag = tag) = true ↔ decide (b.tag = tag) = true
      rw [h.tag_eq]

theorem NoChild.reorder (hno : NoChild localName parent) (h : parent.Reorder parent') :
    NoChild localName parent' := by
  unfold NoChild at hno ⊢
  rcases childrenWithTag_reorder (qualified localName) h with hperm | hall
  · rw [hno] at hperm
    exact hperm.nil_eq.symm
  · rw [hno] at hall
    exact List.forall₂_nil_left_iff.mp hall

/-- The only child is another one at most in the order below it. -/
theorem OnlyChild.reorder {P Q : Element → Prop} (honly : OnlyChild localName P parent)
    (h : parent.Reorder parent') (hP : ∀ e e', Relation.ReflGen Element.Reorder e e' → P e → Q e') :
    OnlyChild localName Q parent' := by
  obtain ⟨child, hchild, hp⟩ := honly
  rcases childrenWithTag_reorder (qualified localName) h with hperm | hall
  · rw [hchild] at hperm
    exact ⟨child, List.singleton_perm.mp hperm |>.symm, hP _ _ .refl hp⟩
  · rw [hchild] at hall
    obtain ⟨child', _, hrel, hnil, hchild'⟩ := List.forall₂_cons_left_iff.mp hall
    rw [List.forall₂_nil_left_iff.mp hnil] at hchild'
    exact ⟨child', hchild', hP _ _ hrel hp⟩

/-- What is read of one element alone does not depend on an order. -/
theorem leaf_reorder {P : Element → Prop}
    (hP : ∀ e e' : Element, e'.text = e.text → (∀ name, e'.get name = e.get name) → P e → P e') :
    ∀ e e', Relation.ReflGen Element.Reorder e e' → P e → P e' := by
  rintro e e' (_ | h) hp
  · exact hp
  · exact hP e e' h.text_eq h.get_eq hp

theorem providerName_reorder (name : String) :
    ∀ e e', Relation.ReflGen Element.Reorder e e' → ProviderName name e → ProviderName name e' := by
  refine leaf_reorder fun e e' _ hget h => ?_
  obtain ⟨text, htext, hname⟩ := h
  exact ⟨text, (hget "Name").trans htext, hname⟩

theorem timeAttribute_reorder (d : DateTime) :
    ∀ e e', Relation.ReflGen Element.Reorder e e' → TimeAttribute d e → TimeAttribute d e' := by
  refine leaf_reorder fun e e' _ hget h => ?_
  obtain ⟨text, htext, hd⟩ := h
  exact ⟨text, (hget "SystemTime").trans htext, hd⟩

theorem strippedText_reorder (P : String → Prop) :
    ∀ e e', Relation.ReflGen Element.Reorder e e' → P (strippedText e) → P (strippedText e') := by
  refine leaf_reorder fun e e' htext _ hp => ?_
  rwa [strippedText, htext, ← strippedText]

theorem SystemReads.reorder (hs : SystemReads r system) (data : List (String × String))
    (h : Relation.ReflGen Element.Reorder system system') :
    SystemReads { r with eventData := data } system' := by
  cases h with
  | refl =>
    exact ⟨hs.provider, hs.provider_ne, hs.eventId, hs.eventId_pos, hs.systemTime, hs.channel,
      hs.channel_ne, hs.computer, hs.computer_ne, hs.recordId⟩
  | single h =>
    have hprovider := hs.provider.reorder h (providerName_reorder _)
    have heventId := hs.eventId.reorder h (strippedText_reorder fun s => int s 10 = .ok r.eventId)
    have hsystemTime := hs.systemTime.reorder h (timeAttribute_reorder _)
    have hchannel := hs.channel.reorder h (strippedText_reorder (· = r.channel))
    have hcomputer := hs.computer.reorder h (strippedText_reorder (· = r.computer))
    refine ⟨hprovider, hs.provider_ne, heventId, hs.eventId_pos, hsystemTime, hchannel, hs.channel_ne,
      hcomputer, hs.computer_ne, ?_⟩
    rcases hs.recordId with ⟨hno, hnone⟩ | honly
    · exact Or.inl ⟨hno.reorder h, hnone⟩
    · refine Or.inr (honly.reorder h ?_)
      exact strippedText_reorder fun s => ∃ n, int s 10 = .ok n ∧ 0 ≤ n ∧ r.recordId = some n

theorem DataEntry.reorder {entry : String × String} (hentry : DataEntry element entry)
    (h : Relation.ReflGen Element.Reorder element element') : DataEntry element' entry := by
  cases h with
  | refl => exact hentry
  | single h =>
    have hchildless : element'.children = [] := by
      rcases h.children with hperm | hall
      · rw [hentry.childless] at hperm
        exact hperm.nil_eq.symm
      · rw [hentry.childless] at hall
        exact List.forall₂_nil_left_iff.mp hall
    exact ⟨h.tag_eq.trans hentry.tag, hchildless, (h.get_eq "Name").trans hentry.name, hentry.not_blank,
      h.text_eq ▸ hentry.text⟩

/-- Elements that differ in the order below them have the same entries. -/
theorem dataEntries_of_forall₂ {cs cs' : List Element} {data : List (String × String)}
    (hdata : List.Forall₂ DataEntry cs data)
    (h : List.Forall₂ (Relation.ReflGen Element.Reorder) cs cs') : List.Forall₂ DataEntry cs' data := by
  induction h generalizing data with
  | nil => exact hdata
  | cons hrel _ ih =>
    obtain ⟨entry, rest, hentry, hrest, rfl⟩ := List.forall₂_cons_left_iff.mp hdata
    exact .cons (hentry.reorder hrel) (ih hrest)

/-- The entries come in the order in which their elements stand. -/
theorem dataEntries_reorder {data : List (String × String)}
    (hdata : List.Forall₂ DataEntry element.children data)
    (h : Relation.ReflGen Element.Reorder element element') :
    ∃ data', data'.Perm data ∧ List.Forall₂ DataEntry element'.children data' := by
  cases h with
  | refl => exact ⟨data, .refl _, hdata⟩
  | single h =>
    rcases h.children with hperm | hall
    · obtain ⟨data', hdata', hperm'⟩ := List.perm_comp_forall₂ hperm.symm hdata
      exact ⟨data', hperm', hdata'⟩
    · exact ⟨data, .refl _, dataEntries_of_forall₂ hdata hall⟩

/-- A tree in another order has the same reading, up to the order of its data. -/
theorem Reads.reorder (hr : Reads r root) (h : root.Reorder root') :
    ∃ data, data.Perm r.eventData ∧ Reads { r with eventData := data } root' := by
  have hsingle : ∀ e ∈ Element.iterAll root'.children, e.tag ≠ eventTag := by
    have hperm := h.perm_iter
    rw [Element.iter_eq, Element.iter_eq, List.map_cons, List.map_cons, h.tag_eq, List.perm_cons] at hperm
    intro e he htag
    obtain ⟨e₀, he₀, hsame⟩ := List.mem_map.mp (hperm.mem_iff.mpr (List.mem_map_of_mem he))
    exact hr.single e₀ he₀ (hsame.trans htag)
  have hevent : root'.tag = eventTag := h.tag_eq.trans hr.event
  have hsystem (data : List (String × String)) :
      OnlyChild "System" (SystemReads { r with eventData := data }) root' :=
    hr.system.reorder h fun e e' hrel hs => hs.reorder data hrel
  rcases hr.eventData with ⟨hno, hnil⟩ | honly
  · exact ⟨[], by rw [hnil], hevent, hsingle, hsystem [], Or.inl ⟨hno.reorder h, rfl⟩, List.nodup_nil⟩
  · obtain ⟨child, hchild, data, hperm, hdata⟩ := honly.reorder h (Q := fun e => ∃ data,
      data.Perm r.eventData ∧ List.Forall₂ DataEntry e.children data)
        fun e e' hrel hdata => dataEntries_reorder hdata hrel
    have hdistinct : (data.map (·.1)).Nodup := (hperm.map _).nodup_iff.mpr hr.distinct
    exact ⟨data, hperm, hevent, hsingle, hsystem data, Or.inr ⟨child, hchild, hdata⟩, hdistinct⟩

theorem Reads.reorder_all (hr : Reads r root) (h : Relation.ReflTransGen Element.Reorder root root') :
    ∃ data, data.Perm r.eventData ∧ Reads { r with eventData := data } root' := by
  induction h with
  | refl => exact ⟨r.eventData, .refl _, hr⟩
  | tail _ hstep ih =>
    obtain ⟨data, hperm, hreads⟩ := ih
    obtain ⟨data', hperm', hreads'⟩ := hreads.reorder hstep
    exact ⟨data', hperm'.trans hperm, hreads'⟩

end Order

/-- **The ingestion of an event tree is exact.**  An event is returned exactly for the trees that have a
reading, it is the event that the reading describes, and another order of siblings gives the same event,
its data in that order. -/
theorem parseWindowsEventXml_exact {fromstring : String → Except ParseError Element} {xml : String}
    {root : Element} (hroot : fromstring xml = .ok root) (htime : UtcRepresentable root) :
    ((∃ raw, parseWindowsEventXml fromstring xml = .ok raw) ↔ ∃ r, Reads r root) ∧
      (∀ raw, parseWindowsEventXml fromstring xml = .ok raw ↔ ∃ r, Reads r root ∧ Describes r raw) ∧
      ∀ xml' root', fromstring xml' = .ok root' → Relation.ReflTransGen Element.Reorder root root' →
        ∀ raw, parseWindowsEventXml fromstring xml = .ok raw → ∃ data : StrDict,
          data.val.Perm raw.eventDataDict.val ∧
            parseWindowsEventXml fromstring xml' = .ok { raw with eventData := .set data } := by
  have hparse : parseWindowsEventXml fromstring xml = parseEvent root := by
    rw [parseWindowsEventXml, hroot]
  rw [hparse]
  refine ⟨⟨?_, ?_⟩, fun raw => parseEvent_eq_ok, ?_⟩
  · rintro ⟨raw, h⟩
    obtain ⟨r, hr, -⟩ := parseEvent_eq_ok.mp h
    exact ⟨r, hr⟩
  · rintro ⟨r, hr⟩
    obtain ⟨raw, hraw⟩ := exists_describes hr htime
    exact ⟨raw, parseEvent_eq_ok.mpr ⟨r, hr, hraw⟩⟩
  · intro xml' root' hroot' horder raw h
    obtain ⟨r, hr, hraw⟩ := parseEvent_eq_ok.mp h
    obtain ⟨data, hperm, hr'⟩ := hr.reorder_all horder
    obtain ⟨d, hd, hdata⟩ := hraw.eventData
    refine ⟨⟨data, hr'.distinct⟩, ?_, ?_⟩
    · rw [RawWindowsEvent.eventDataDict, hd, ModelField.get_set, hdata]
      exact hperm
    · rw [parseWindowsEventXml, hroot']
      exact parseEvent_eq_ok.mpr ⟨_, hr', hraw.provider, hraw.eventId, hraw.channel, hraw.timestamp,
        hraw.computer, hraw.recordId, ⟨_, rfl, rfl⟩⟩

/-- A network connection with two named values. -/
def networkXml : String :=
  "<Event xmlns='http://schemas.microsoft.com/win/2004/08/events/event'><EventData>" ++
  "<Data Name='Image'> a.exe</Data><Data Name='Note'/></EventData><System>" ++
  "<Computer>host</Computer><Channel>Microsoft-Windows-Sysmon/Operational</Channel><EventID>3</EventID>" ++
  "<TimeCreated SystemTime='2024-05-01T10:00:00Z'/><Provider Name='Microsoft-Windows-Sysmon'/>" ++
  "</System></Event>"

/-- The `TimeCreated` of the example. -/
def networkTime : Element := .mk (qualified "TimeCreated") [("SystemTime", "2024-05-01T10:00:00Z")] none []

/-- A `System` element with its children in another order than the parser asks for them. -/
def networkSystem : Element :=
  .mk systemTag [] none
    [.mk (qualified "Computer") [] (some "host") [],
      .mk (qualified "Channel") [] (some "Microsoft-Windows-Sysmon/Operational") [],
      .mk (qualified "EventID") [] (some "3") [],
      networkTime,
      .mk (qualified "Provider") [("Name", "Microsoft-Windows-Sysmon")] none []]

/-- The element tree of `networkXml`. -/
def networkTree : Element :=
  .mk eventTag [] none
    [.mk eventDataTag [] none
      [.mk dataTag [("Name", "Image")] (some " a.exe") [], .mk dataTag [("Name", "Note")] none []],
    networkSystem]

theorem utcRepresentable_networkTree : UtcRepresentable networkTree := by
  intro system hsystem element helement text d htext hd
  have hchildren : childrenWithTag networkTree systemTag = [networkSystem] := rfl
  have htimes : childrenWithTag networkSystem (qualified "TimeCreated") = [networkTime] := rfl
  rw [hchildren, List.mem_singleton] at hsystem
  subst hsystem
  rw [htimes, List.mem_singleton] at helement
  subst helement
  cases htext
  have hread : (fromisoformat (isoValue (strip "2024-05-01T10:00:00Z"))).map (·.tzinfo) =
    .ok (some .utc) := by decide +kernel
  obtain ⟨⟨wall, tzinfo⟩, hd', htz⟩ := exists_of_map_ok hread
  cases hd.symm.trans hd'
  cases htz
  exact DateTime.not_outOfRange_utc wall

theorem parseWindowsEventXml_exact_network : ∃ raw r,
    parseWindowsEventXml (fun xml => if xml = networkXml then .ok networkTree else .error ⟨⟩) networkXml =
        .ok raw ∧
      Reads r networkTree ∧ Describes r raw ∧
      raw.eventDataDict.val = [("Image", " a.exe"), ("Note", "")] := by
  obtain ⟨raw, hraw, hdata⟩ := exists_of_map_ok (show (parseWindowsEventXml
    (fun xml => if xml = networkXml then .ok networkTree else .error ⟨⟩) networkXml).map
      (·.eventDataDict.val) = .ok [("Image", " a.exe"), ("Note", "")] by decide +kernel)
  obtain ⟨r, hr, hdescribes⟩ :=
    ((parseWindowsEventXml_exact (if_pos rfl) utcRepresentable_networkTree).2.1 raw).mp hraw
  exact ⟨raw, r, hraw, hr, hdescribes, hdata⟩

end WindowsEvent

end SocLab
