import SocLab.Parsers.EventTree
import SocLab.Py.IsoFormat
import SocLab.Py.Numeral

/-!
# SocLab.Parsers.Notation — the Windows notation of an event

An `EventRecord` is what an event record of Windows says and `tree` writes it down: the time in UTC to 100 ns,
the numbers in decimal, one `Data` element for each named value.  `raw` is the event that says the same.

* `EventRecord.parseEvent_tree`: the parser reads back what was written.
* `EventRecord.exists_record_of_parseEvent`: whatever is read, an event that is returned is that of a record.
* `EventRecord.raw_eq_iff`: of a record an event leaves out the last digit of the time and nothing else.
* `parseWindowsEventXml_record`: the three for texts.
-/

namespace SocLab

open Py Py.Validation Logic

namespace WindowsEvent

/-- A text that is not empty, without white space around it. -/
@[ext]
structure Label where
  val : String
  stripped : strip val = val
  ne : val ≠ ""

/-- An event as its log shows it. -/
@[ext]
structure EventRecord where
  provider : Label
  eventId : Nat
  time : CivilTime
  recordId : Option Nat
  channel : Label
  computer : Label
  eventData : List (String × String)
  eventId_pos : 0 < eventId
  -- `int` refuses longer numerals.
  eventId_lt : eventId < 10 ^ maxStrDigits
  recordId_lt : ∀ n, recordId = some n → n < 10 ^ maxStrDigits
  named : ∀ entry ∈ eventData, strip entry.1 ≠ ""
  distinct : (eventData.map (·.1)).Nodup

namespace EventRecord

/-! ### Writing -/

/-- An element with a text and nothing else. -/
def textElement (localName text : String) : Element := .mk (qualified localName) [] (some text) []

/-- An element with an attribute and nothing else. -/
def attributeElement (localName name value : String) : Element :=
  .mk (qualified localName) [(name, value)] none []

/-- The text of an element; an empty one is none. -/
def textOf (text : String) : Option String := if text = "" then none else some text

/-- One named value. -/
def dataElement (entry : String × String) : Element := .mk dataTag [("Name", entry.1)] (textOf entry.2) []

/-- The children of `System`, in the order of Windows. -/
def systemChildren (c : EventRecord) : List Element :=
  attributeElement "Provider" "Name" c.provider.val ::
  textElement "EventID" (toString c.eventId) ::
  attributeElement "TimeCreated" "SystemTime" c.time.iso ::
  ((c.recordId.map fun n => textElement "EventRecordID" (toString n)).toList ++
    [textElement "Channel" c.channel.val, textElement "Computer" c.computer.val])

/-- The `System` element. -/
def system (c : EventRecord) : Element := .mk systemTag [] none c.systemChildren

/-- The `EventData` element. -/
def dataTree (c : EventRecord) : Element := .mk eventDataTag [] none (c.eventData.map dataElement)

/-- The element tree of a record. -/
def tree (c : EventRecord) : Element := .mk eventTag [] none [c.system, c.dataTree]

/-- The event that says what the record says, to the microsecond. -/
def raw (c : EventRecord) : RawWindowsEvent where
  provider := ⟨c.provider.val, one_le_length c.provider.ne⟩
  eventId := ⟨c.eventId, Int.natCast_pos.mpr c.eventId_pos⟩
  channel := ⟨c.channel.val, one_le_length c.channel.ne⟩
  timestamp := ⟨(Instant.mk c.time.wall).toDateTime, DateTime.aware_toDateTime _⟩
  computer := ⟨c.computer.val, one_le_length c.computer.ne⟩
  recordId := .set (c.recordId.map fun (n : Nat) => ⟨(n : Int), Int.natCast_nonneg n⟩)
  eventData := .set ⟨c.eventData, c.distinct⟩

/-- The record without the last digit of its time. -/
def truncated (c : EventRecord) : EventRecord := { c with time := c.time.truncated }

/-! ### Reading back -/

/-- What the parser reads of the tree. -/
def reading (c : EventRecord) : Reading where
  provider := c.provider.val
  eventId := c.eventId
  channel := c.channel.val
  systemTime := ⟨c.time.wall, some .utc⟩
  computer := c.computer.val
  recordId := c.recordId.map fun n => (n : Int)
  eventData := c.eventData

theorem isoValue_iso (t : CivilTime) : isoValue t.iso = String.ofList (t.textThen CivilTime.zulu) := by
  have hlist : t.iso.toList = t.textThen [] ++ ['Z'] := by
    rw [CivilTime.iso, String.toList_ofList, CivilTime.textThen_append]
  have hends : endsWith t.iso "Z" = true := by
    rw [endsWith, hlist, List.isSuffixOf_iff_suffix]
    exact List.suffix_append _ _
  rw [isoValue, if_pos hends, hlist, List.dropLast_concat, t.textThen_append CivilTime.zulu,
    String.ofList_append]
  rfl

theorem timeAttribute (t : CivilTime) :
    TimeAttribute ⟨t.wall, some .utc⟩ (attributeElement "TimeCreated" "SystemTime" t.iso) := by
  refine ⟨t.iso, rfl, ?_, .zero, rfl⟩
  rw [t.strip_iso, isoValue_iso, t.fromisoformat_textThen]

theorem integerText {n : Nat} (h : n < 10 ^ maxStrDigits) (localName : String) :
    IntegerText n (textElement localName (toString n)) := by
  show int (strip (toString n)) 10 = .ok (n : Int)
  rw [strip_toString]
  exact int_toString h

section Tree

variable (c : EventRecord)

/-- Each name stands once below `System`, whether there is a record id or not. -/
theorem system_children :
    childrenWithTag c.system (qualified "Provider") = [attributeElement "Provider" "Name" c.provider.val] ∧
      childrenWithTag c.system (qualified "EventID") = [textElement "EventID" (toString c.eventId)] ∧
      childrenWithTag c.system (qualified "TimeCreated") =
        [attributeElement "TimeCreated" "SystemTime" c.time.iso] ∧
      childrenWithTag c.system (qualified "EventRecordID") =
        (c.recordId.map fun n => textElement "EventRecordID" (toString n)).toList ∧
      childrenWithTag c.system (qualified "Channel") = [textElement "Channel" c.channel.val] ∧
      childrenWithTag c.system (qualified "Computer") = [textElement "Computer" c.computer.val] := by
  unfold system systemChildren
  cases c.recordId with
  | none => exact ⟨rfl, rfl, rfl, rfl, rfl, rfl⟩
  | some n => exact ⟨rfl, rfl, rfl, rfl, rfl, rfl⟩

theorem systemReads : SystemReads c.reading c.system := by
  obtain ⟨hprovider, heventId, htime, hrecordId, hchannel, hcomputer⟩ := c.system_children
  have hread : (NoChild "EventRecordID" c.system ∧ c.reading.recordId = none) ∨
      OnlyChild "EventRecordID" (fun e => ∃ n, IntegerText n e ∧ 0 ≤ n ∧ c.reading.recordId = some n)
        c.system := by
    cases hid : c.recordId with
    | none =>
      rw [hid] at hrecordId
      exact Or.inl ⟨hrecordId, by rw [reading, hid]; rfl⟩
    | some n =>
      rw [hid] at hrecordId
      have htext := integerText (c.recordId_lt n hid) "EventRecordID"
      exact Or.inr ⟨_, hrecordId, n, htext, Int.natCast_nonneg n, by rw [reading, hid]; rfl⟩
  exact
    { provider := ⟨_, hprovider, c.provider.val, rfl, c.provider.stripped⟩
      provider_ne := c.provider.ne
      eventId := ⟨_, heventId, integerText c.eventId_lt "EventID"⟩
      eventId_pos := Int.natCast_pos.mpr c.eventId_pos
      systemTime := ⟨_, htime, timeAttribute c.time⟩
      channel := ⟨_, hchannel, c.channel.stripped⟩
      channel_ne := c.channel.ne
      computer := ⟨_, hcomputer, c.computer.stripped⟩
      computer_ne := c.computer.ne
      recordId := hread }

theorem dataEntries : List.Forall₂ DataEntry c.dataTree.children c.eventData := by
  show List.Forall₂ DataEntry (c.eventData.map dataElement) c.eventData
  rw [List.forall₂_map_left_iff, List.forall₂_same]
  intro entry hentry
  have htext : entry.2 = (textOf entry.2).getD "" := by
    unfold textOf
    by_cases h : entry.2 = ""
    · rw [if_pos h, h]
      rfl
    · rw [if_neg h]
      rfl
  exact ⟨rfl, rfl, rfl, c.named entry hentry, htext⟩

/-- There is no second event in the tree. -/
theorem single_event : ∀ e ∈ Element.iterAll c.tree.children, e.tag ≠ eventTag := by
  have hsystem : ∀ e ∈ c.system.children, e.children = [] ∧ e.tag ≠ eventTag := by
    show ∀ e ∈ c.systemChildren, e.children = [] ∧ e.tag ≠ eventTag
    unfold systemChildren
    cases c.recordId with
    | none => simp [attributeElement, textElement, Element.children, Element.tag, qualified, eventTag]
    | some n => simp [attributeElement, textElement, Element.children, Element.tag, qualified, eventTag]
  have hdata : ∀ e ∈ c.dataTree.children, e.children = [] ∧ e.tag ≠ eventTag := by
    show ∀ e ∈ c.eventData.map dataElement, e.children = [] ∧ e.tag ≠ eventTag
    intro e he
    obtain ⟨entry, -, rfl⟩ := List.mem_map.mp he
    refine ⟨rfl, ?_⟩
    show dataTag ≠ eventTag
    decide
  have hiter : Element.iterAll c.tree.children =
      c.system :: c.system.children ++ c.dataTree :: c.dataTree.children := by
    show Element.iterAll [c.system, c.dataTree] = _
    rw [Element.iterAll_eq_flatMap, List.flatMap_cons, List.flatMap_singleton, Element.iter_eq,
      Element.iter_eq, Element.iterAll_of_childless fun e he => (hsystem e he).1,
      Element.iterAll_of_childless fun e he => (hdata e he).1]
  intro e he
  rw [hiter, List.mem_append, List.mem_cons, List.mem_cons] at he
  rcases he with (rfl | he) | rfl | he
  · show systemTag ≠ eventTag
    decide
  · exact (hsystem e he).2
  · show eventDataTag ≠ eventTag
    decide
  · exact (hdata e he).2

theorem reads_tree : Reads c.reading c.tree where
  event := rfl
  single := c.single_event
  system := ⟨c.system, rfl, c.systemReads⟩
  eventData := Or.inr ⟨c.dataTree, rfl, c.dataEntries⟩
  distinct := c.distinct

theorem describes_raw : Describes c.reading c.raw where
  provider := rfl
  eventId := rfl
  channel := rfl
  timestamp := ⟨.zero, rfl, rfl, (Int.sub_zero _).symm⟩
  computer := rfl
  recordId := by
    refine ⟨_, rfl, ?_⟩
    unfold reading
    cases c.recordId with
    | none => rfl
    | some n => rfl
  eventData := ⟨_, rfl, rfl⟩

/-- **The parser reads back what was written.** -/
theorem parseEvent_tree : parseEvent c.tree = .ok c.raw :=
  parseEvent_eq_ok.mpr ⟨c.reading, c.reads_tree, c.describes_raw⟩

end Tree

/-! ### The events of the parser -/

section Image

variable {root : Element} {r : Reading} {raw : RawWindowsEvent}

theorem label_of_strip {text name : String} (h : strip text = name) (hne : name ≠ "") :
    ∃ l : Label, l.val = name := by
  subst h
  exact ⟨⟨strip text, strip_strip text, hne⟩, rfl⟩

theorem exists_nat_of_integerText {element : Element} {n : Int} (h : IntegerText n element) (hn : 0 ≤ n) :
    ∃ k : Nat, n = k ∧ k < 10 ^ maxStrDigits := by
  have hlt := natAbs_lt_of_int h
  obtain ⟨k, rfl⟩ := Int.eq_ofNat_of_zero_le hn
  rw [Int.natAbs_natCast] at hlt
  exact ⟨k, rfl, hlt⟩

theorem not_blank_of_dataEntries {elements : List Element} {data : List (String × String)}
    (h : List.Forall₂ DataEntry elements data) : ∀ entry ∈ data, strip entry.1 ≠ "" := by
  induction h with
  | nil =>
    intro entry hentry
    cases hentry
  | cons hhead _ ih =>
    intro entry hentry
    rcases List.mem_cons.mp hentry with rfl | hentry
    · exact hhead.not_blank
    · exact ih entry hentry

/-- The record of a reading and of the instant that the event has for its time. -/
theorem exists_record_of_reads (hr : Reads r root) (hraw : Describes r raw) :
    ∃ c : EventRecord, c.raw = raw := by
  obtain ⟨system, -, hs⟩ := hr.system
  obtain ⟨_, -, _, -, hprovider⟩ := hs.provider
  obtain ⟨_, -, hchannel⟩ := hs.channel
  obtain ⟨_, -, hcomputer⟩ := hs.computer
  obtain ⟨_, -, heventId⟩ := hs.eventId
  obtain ⟨provider, hprovider⟩ := label_of_strip hprovider hs.provider_ne
  obtain ⟨channel, hchannel⟩ := label_of_strip hchannel hs.channel_ne
  obtain ⟨computer, hcomputer⟩ := label_of_strip hcomputer hs.computer_ne
  obtain ⟨eventId, hid, heventId_lt⟩ := exists_nat_of_integerText heventId hs.eventId_pos.le
  have heventId_pos : 0 < eventId := by
    have := hs.eventId_pos
    omega
  obtain ⟨time, htime⟩ := CivilTime.exists_wall raw.timestamp.val.wall
  obtain ⟨recordId, hrecordId, hrecordId_lt⟩ : ∃ recordId : Option Nat,
      (recordId.map fun n => (n : Int)) = r.recordId ∧ ∀ n, recordId = some n → n < 10 ^ maxStrDigits := by
    rcases hs.recordId with ⟨-, hnone⟩ | ⟨_, -, n, hn, hpos, hsome⟩
    · refine ⟨none, hnone.symm, ?_⟩
      intro n hn
      cases hn
    · obtain ⟨k, rfl, hlt⟩ := exists_nat_of_integerText hn hpos
      refine ⟨some k, hsome.symm, ?_⟩
      intro n hn
      cases hn
      exact hlt
  have hnamed : ∀ entry ∈ r.eventData, strip entry.1 ≠ "" := by
    rcases hr.eventData with ⟨-, hnil⟩ | ⟨_, -, hdata⟩
    · rw [hnil]
      intro entry hentry
      cases hentry
    · exact not_blank_of_dataEntries hdata
  let c : EventRecord :=
    { provider := provider
      eventId := eventId
      time := time
      recordId := recordId
      channel := channel
      computer := computer
      eventData := r.eventData
      eventId_pos := heventId_pos
      eventId_lt := heventId_lt
      recordId_lt := hrecordId_lt
      named := hnamed
      distinct := hr.distinct }
  -- The event is the one that the record describes, and the parser reads the record back.
  have hdescribes : Describes c.reading raw := by
    obtain ⟨_, -, htz, -⟩ := hraw.timestamp
    obtain ⟨n, hn, hn'⟩ := hraw.recordId
    have hwall : ((raw.timestamp.val.wall : Nat) : Int) = (time.wall : Int) - Offset.zero.micros := by
      rw [htime]
      exact (Int.sub_zero _).symm
    exact
      { provider := hraw.provider.trans hprovider.symm
        eventId := hraw.eventId.trans hid
        channel := hraw.channel.trans hchannel.symm
        timestamp := ⟨.zero, rfl, htz, hwall⟩
        computer := hraw.computer.trans hcomputer.symm
        recordId := ⟨n, hn, hn'.trans hrecordId.symm⟩
        eventData := hraw.eventData }
  have hparse : parseEvent c.tree = .ok raw := parseEvent_eq_ok.mpr ⟨c.reading, c.reads_tree, hdescribes⟩
  rw [c.parseEvent_tree] at hparse
  exact ⟨c, Except.ok.inj hparse⟩

theorem exists_record_of_parseEvent (h : parseEvent root = .ok raw) : ∃ c : EventRecord, c.raw = raw := by
  obtain ⟨r, hr, hraw⟩ := parseEvent_eq_ok.mp h
  exact exists_record_of_reads hr hraw

end Image

/-! ### What an event leaves out -/

section Precision

variable {c c' : EventRecord}

theorem raw_truncated (c : EventRecord) : c.truncated.raw = c.raw := by
  have hwall : c.time.truncated.wall = c.time.wall := c.time.wall_truncated
  simp only [raw, truncated, hwall]

theorem truncated_truncated (c : EventRecord) : c.truncated.truncated = c.truncated := by
  have htime : c.time.truncated.truncated = c.time.truncated := CivilTime.wall_eq_iff.mp c.time.wall_truncated
  simp only [truncated, htime]

/-- Of a record an event leaves out the last digit of the time and nothing else. -/
theorem raw_eq_iff : c.raw = c'.raw ↔ c.truncated = c'.truncated := by
  constructor
  · intro h
    have hprovider : c.provider.val = c'.provider.val := congrArg (·.provider.val) h
    have heventId : (c.eventId : Int) = c'.eventId := congrArg (·.eventId.val) h
    have hchannel : c.channel.val = c'.channel.val := congrArg (·.channel.val) h
    have hwall : c.time.wall = c'.time.wall := congrArg (·.timestamp.val.wall) h
    have hcomputer : c.computer.val = c'.computer.val := congrArg (·.computer.val) h
    have hrecordId : c.raw.recordId = c'.raw.recordId := congrArg (·.recordId) h
    have heventData : c.raw.eventDataDict.val = c'.raw.eventDataDict.val := congrArg (·.eventDataDict.val) h
    have hinjective : Function.Injective
        fun (n : Nat) => (⟨(n : Int), Int.natCast_nonneg n⟩ : NonNegativeInteger) := by
      intro n n' hn
      exact Int.ofNat.inj (congrArg Subtype.val hn)
    apply EventRecord.ext
    · exact Label.ext hprovider
    · exact Int.ofNat.inj heventId
    · exact CivilTime.wall_eq_iff.mp hwall
    · exact Option.map_injective hinjective (ModelField.set.inj hrecordId)
    · exact Label.ext hchannel
    · exact Label.ext hcomputer
    · exact heventData
  · intro h
    rw [← raw_truncated c, h, raw_truncated]

end Precision

end EventRecord

/-- **The ingestion of Windows event records.**  A record is read back from its notation, every event that is
returned for any text is that of one record with a time in whole microseconds, and records of the same event
differ in the last digit of their times at most. -/
theorem parseWindowsEventXml_record (fromstring : String → Except ParseError Element) :
    (∀ (c : EventRecord) xml, fromstring xml = .ok c.tree →
      parseWindowsEventXml fromstring xml = .ok c.raw) ∧
    (∀ xml raw, parseWindowsEventXml fromstring xml = .ok raw →
      ∃! c : EventRecord, c.truncated = c ∧ c.raw = raw) ∧
    ∀ c c' : EventRecord, c.raw = c'.raw ↔ c.truncated = c'.truncated := by
  refine ⟨?_, ?_, fun c c' => EventRecord.raw_eq_iff⟩
  · intro c xml hxml
    rw [parseWindowsEventXml, hxml]
    exact c.parseEvent_tree
  · intro xml raw h
    have hparse : ∃ root, parseEvent root = .ok raw := by
      unfold parseWindowsEventXml at h
      cases hxml : fromstring xml with
      | error e =>
        rw [hxml] at h
        cases h
      | ok root =>
        rw [hxml] at h
        exact ⟨root, h⟩
    obtain ⟨root, hroot⟩ := hparse
    obtain ⟨c, hc⟩ := EventRecord.exists_record_of_parseEvent hroot
    have hraw : c.truncated.raw = raw := c.raw_truncated.trans hc
    refine ⟨c.truncated, ⟨c.truncated_truncated, hraw⟩, ?_⟩
    intro c' hc'
    obtain ⟨htruncated, hraw'⟩ := hc'
    have hsame := EventRecord.raw_eq_iff.mp (hraw'.trans hc.symm)
    rwa [htruncated] at hsame

/-- A network connection in the last 100 ns of a leap day. -/
def networkRecord : EventRecord where
  provider := ⟨"Microsoft-Windows-Sysmon", by decide, by decide⟩
  eventId := 3
  time :=
    { year := 2024
      month := 2
      day := 29
      hour := 23
      minute := 59
      second := 59
      ticks := 9999999
      date := ⟨by decide, by decide, by decide, by decide, by decide, by decide⟩
      hour_lt := by decide
      minute_lt := by decide
      second_lt := by decide
      ticks_lt := by decide }
  recordId := some 0
  channel := ⟨"Microsoft-Windows-Sysmon/Operational", by decide, by decide⟩
  computer := ⟨"host", by decide, by decide⟩
  eventData := [("Image", " a.exe"), ("Note", "")]
  eventId_pos := by decide
  eventId_lt := Nat.lt_of_lt_of_le (by decide : 3 < 10 ^ 1) (Nat.pow_le_pow_right (by decide) (by decide))
  recordId_lt := by
    intro n hn
    cases hn
    exact Nat.pow_pos (by decide)
  named := by decide
  distinct := by decide

/-- The text of the example record. -/
def networkRecordXml : String :=
  "<Event xmlns='http://schemas.microsoft.com/win/2004/08/events/event'><System>" ++
  "<Provider Name='Microsoft-Windows-Sysmon'/><EventID>3</EventID>" ++
  "<TimeCreated SystemTime='" ++ networkRecord.time.iso ++ "'/><EventRecordID>0</EventRecordID>" ++
  "<Channel>Microsoft-Windows-Sysmon/Operational</Channel><Computer>host</Computer></System>" ++
  "<EventData><Data Name='Image'> a.exe</Data><Data Name='Note'/></EventData></Event>"

example : networkRecord.time.iso = "2024-02-29T23:59:59.9999999Z" := by decide

theorem parseWindowsEventXml_record_network :
    parseWindowsEventXml (fun xml => if xml = networkRecordXml then .ok networkRecord.tree else .error ⟨⟩)
      networkRecordXml = .ok networkRecord.raw ∧ networkRecord.raw.recordId = .set (some ⟨0, by decide⟩) :=
  ⟨(parseWindowsEventXml_record _).1 networkRecord networkRecordXml (if_pos rfl), rfl⟩

end WindowsEvent

end SocLab
