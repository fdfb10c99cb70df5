import SocLab.Alerts.Session
import SocLab.Detection.Reference
import SocLab.Detection.Safety
import SocLab.Parsers.Dispatch

/-!
# SocLab.Alerts.Triage — from the text of an event to the analyst queue

The parts together, as `test_alert_management_pipeline.py` composes them: events are normalized, evaluated
against a library, the matches become alerts, and analysts work on these.

* `triage`: nothing fails on the way, every rule that is true of an event gives one match, and every match stands
  behind one alert of the queue, whatever the analysts do.
* `detection_reference`: the engine matches the rules that are true of the raw event.
* `evidence_provenance`: what an alert shows as evidence is what the raw event held.
-/

namespace SocLab

open Py Logic

/-! ### Detection -/

section Detect

variable {rules : List DetectionRule} {event : NormalizedEvent}

/-- The rule is about the event, and its condition is true of it. -/
def TrueOf (event : NormalizedEvent) (r : DetectionRule) : Prop :=
  applicable event r = true ∧ meaning event r.condition.val = .true

theorem trueOf_of_fires {r : DetectionRule} {t : ConditionTrace} (h : Fires event r t) : TrueOf event r := by
  obtain ⟨happlicable, heval, houtcome⟩ := h
  refine ⟨happlicable, ?_⟩
  rw [← truth_of_evaluateCondition heval, houtcome]
  rfl

theorem exists_fires {r : DetectionRule} (hok : ∀ e, ¬ Fails event r e) (h : TrueOf event r) :
    ∃ t, Fires event r t := by
  obtain ⟨happlicable, hmeaning⟩ := h
  cases heval : evaluateCondition event r.condition.val with
  | error e => exact absurd ⟨happlicable, heval⟩ (hok e)
  | ok t =>
    have houtcome : t.outcome.truth = ConditionOutcome.true.truth :=
      (truth_of_evaluateCondition heval).trans hmeaning
    exact ⟨t, happlicable, heval, ConditionOutcome.truth_injective houtcome⟩

/-- The matches of an event: one for each rule that is true of it, in the order of the rule ids. -/
structure Detected (rules : List DetectionRule) (event : NormalizedEvent) (ms : List DetectionMatch) : Prop where
  event_eq : ∀ m ∈ ms, m.event = event
  sound : ∀ m ∈ ms, ∃ r ∈ rules, m.ruleId = r.id ∧ TrueOf event r
  complete : ∀ r ∈ rules, TrueOf event r → ∃ m ∈ ms, m.ruleId = r.id
  ordered : ms.Pairwise fun a b => a.ruleId < b.ruleId

theorem detected_of_ok {ms : List DetectionMatch}
    (h : evaluateEvent (some event) (some (rules.map some)) = .ok ms) : Detected rules event ms := by
  have hids := nodup_of_ok h
  have hok := not_fails_of_ok hids h
  rw [evaluateEvent_ok hids hok] at h
  obtain rfl := Except.ok.inj h
  obtain ⟨hordered, hspec⟩ := matches_spec event hids
  refine ⟨fun m hm => ?_, fun m hm => ?_, fun r hr htrue => ?_, hordered⟩
  · obtain ⟨r, -, t, -, hfields⟩ := (hspec m).mp hm
    rw [hfields]
    rfl
  · obtain ⟨r, hr, t, hfires, hfields⟩ := (hspec m).mp hm
    refine ⟨r, hr, ?_, trueOf_of_fires hfires⟩
    rw [hfields]
    rfl
  · obtain ⟨t, hfires⟩ := exists_fires (hok r hr) htrue
    have hlocation := location_of_evaluateCondition hfires.2.1
    obtain ⟨m, -, hfields⟩ := @engineMatch_ok event r t hlocation hfires.2.2
    refine ⟨m, (hspec m).mpr ⟨r, hr, t, hfires, hfields⟩, ?_⟩
    rw [hfields]
    rfl

end Detect

/-! ### Alerts for matches -/

/-- What the caller of `create_alert` adds to a match. -/
structure Intake where
  alertId : AlertId
  createdAt : DateTime
  instant : Instant
  severity : AlertSeverity
  priority : AlertPriority
  utc : requireAwareUtcInstant (.datetime createdAt) = .ok instant

section Create

variable [Runtime] {ms : List DetectionMatch} {intakes : List Intake}

/-- `create_alert` for a match. -/
def Intake.create (m : DetectionMatch) (i : Intake) : Except CreationRaised Alert :=
  createAlert m.toValue (.str i.alertId) (.datetime i.createdAt) (StrEnum.toValue i.severity)
    (StrEnum.toValue i.priority)

theorem Intake.create_eq {m : DetectionMatch} (h : m.Dumps) (i : Intake) :
    i.create m = .ok (.created m i.alertId i.instant i.severity i.priority) :=
  createAlert_ok h i.alertId i.utc i.severity i.priority

/-- Every match that can be dumped becomes an alert with its own id. -/
theorem exists_alerts (hdumps : ∀ m ∈ ms, m.Dumps) (hlength : intakes.length = ms.length) :
    ∃ as : List Alert, (ms.zip intakes).mapM (fun p => p.2.create p.1) = .ok as ∧
      as.map (·.sourceMatch) = ms ∧ as.map (·.alertId.val) = intakes.map (·.alertId.val) := by
  refine ⟨_, mapM_of_ok fun p hp => p.2.create_eq (hdumps _ (List.of_mem_zip hp).1), ?_, ?_⟩
  · rw [List.map_map]
    show (ms.zip intakes).map Prod.fst = ms
    exact List.map_fst_zip hlength.ge
  · rw [List.map_map]
    show (ms.zip intakes).map (fun p => p.2.alertId.val) = _
    have hmap : (ms.zip intakes).map (fun p => p.2.alertId.val) =
        ((ms.zip intakes).map Prod.snd).map (·.alertId.val) := by rw [List.map_map]; rfl
    rw [hmap, List.map_snd_zip hlength.le]

/-- The queue of every state holds the evidence of all alerts. -/
theorem exists_queue {as : List Alert} (hread : ∀ a ∈ as, a.Readable) (hids : (as.map (·.alertId.val)).Nodup) :
    ∃ q, listAlerts (.of (as.map Alert.toValue)) allStates = .ok q ∧ q.Perm as := by
  refine ⟨_, listAlerts_map_eq_ok.mpr ⟨⟨hread, hids⟩, ⟨allStates_wellFormed, trivial, trivial⟩, rfl⟩, ?_⟩
  rw [List.filter_eq_self.mpr fun a _ => passes_allStates a]
  exact sorted_perm queueKey as

/-- The matches of a normalized event can be dumped and copied. -/
theorem copyable_of_normalized {fromstring : String → Except ParseError Element} {xml : String}
    {event : NormalizedEvent} {rules : List DetectionRule} {m : DetectionMatch}
    (hevent : normalizeWindowsEventXml fromstring xml = .ok event)
    (hms : evaluateEvent (some event) (some (rules.map some)) = .ok ms) (hm : m ∈ ms) : m.Copyable ∧ m.Dumps := by
  obtain ⟨i, hi⟩ := timestamp_of_normalizeWindowsEventXml hevent
  exact copyable_of_match hms (by rw [hi]; rfl) hm

end Create

/-! ### An example -/

/-- A logon of `alice`. -/
def logonXml : String :=
  "<Event xmlns='http://schemas.microsoft.com/win/2004/08/events/event'><System>" ++
  "<Provider Name='Microsoft-Windows-Security-Auditing'/><EventID>4624</EventID>" ++
  "<TimeCreated SystemTime='2024-05-01T10:00:00Z'/><Channel>Security</Channel><Computer>host</Computer>" ++
  "</System><EventData><Data Name='TargetUserName'>alice</Data></EventData></Event>"

/-- The element tree of a text of the Security log with named values. -/
def securityTree (eventId : String) (data : List (String × String)) : Element :=
  .mk WindowsEvent.eventTag [] none
    [.mk WindowsEvent.systemTag [] none
      [.mk (WindowsEvent.qualified "Provider") [("Name", windowsSecurityProvider)] none [],
        .mk (WindowsEvent.qualified "EventID") [] (some eventId) [],
        .mk (WindowsEvent.qualified "TimeCreated") [("SystemTime", "2024-05-01T10:00:00Z")] none [],
        .mk (WindowsEvent.qualified "Channel") [] (some "Security") [],
        .mk (WindowsEvent.qualified "Computer") [] (some "host") []],
    .mk WindowsEvent.eventDataTag [] none
      (data.map fun p => .mk WindowsEvent.dataTag [("Name", p.1)] (some p.2) [])]

/-- A parser that knows the text of the logon. -/
def logonParser (xml : String) : Except ParseError Element :=
  if xml = logonXml then .ok (securityTree "4624" [("TargetUserName", "alice")]) else .error ⟨⟩

theorem exists_logon : ∃ event ms m, normalizeWindowsEventXml logonParser logonXml = .ok event ∧
    evaluateEvent (some event) (some ([DetectionRule.exampleRule].map some)) = .ok ms ∧ m ∈ ms := by
  obtain ⟨event, hevent, hids⟩ := exists_of_map_ok (show (normalizeWindowsEventXml logonParser logonXml).map
    (fun event => (evaluateEvent (some event) (some ([DetectionRule.exampleRule].map some))).toOption.map
      fun ms => ms.map (·.ruleId)) = .ok (some ["alice-logon"]) by decide +kernel)
  obtain ⟨ms, hms, hids⟩ := Option.map_eq_some_iff.mp hids
  obtain ⟨m, rest, rfl, -, -⟩ := List.map_eq_cons_iff.mp hids
  cases heval : evaluateEvent (some event) (some ([DetectionRule.exampleRule].map some)) with
  | ok ms =>
    rw [heval] at hms
    cases hms
    exact ⟨event, _, m, hevent, heval, List.mem_cons_self⟩
  | error e =>
    rw [heval] at hms
    cases hms

theorem exists_loaded : ∃ rules, loadDetectionRules (DirectoryTree.exampleRules.tree.fileSystem ⟨true, ["srv"]⟩)
    exampleReader 5 ⟨true, ["srv"]⟩ = some (.ok rules) := by
  have hload : (loadDetectionRules (DirectoryTree.exampleRules.tree.fileSystem ⟨true, ["srv"]⟩)
      exampleReader 5 ⟨true, ["srv"]⟩).map (·.map fun rules => rules.map (·.id)) =
    some (.ok ["alice-logon", "host-logon"]) := by decide +kernel
  obtain ⟨result, hresult, hids⟩ := Option.map_eq_some_iff.mp hload
  obtain ⟨rules, rfl, -⟩ := exists_of_map_ok hids
  exact ⟨rules, hresult⟩

/-! ### The way of an event -/

section Triage

variable {fs : FileSystem} {readRule : String → Except ReadFailure DetectionRule} {fuel : Nat} {ruleRoot : Path}
  {rules : List DetectionRule} {fromstring : String → Except ParseError Element}

/-- **From event texts to the analyst queue.**  With a loaded library every event that normalization returns is
evaluated; it has one match for each rule that is true of it; every match becomes an alert; and after any calls
of the analysts the queue of all states is listed, with exactly these matches as evidence. -/
theorem triage [Runtime] (hload : loadDetectionRules fs readRule fuel ruleRoot = some (.ok rules))
    {events : List NormalizedEvent}
    (hevents : ∀ event ∈ events, ∃ xml, normalizeWindowsEventXml fromstring xml = .ok event) :
    ∃ mss, events.mapM (fun event => evaluateEvent (some event) (some (rules.map some))) = .ok mss ∧
      List.Forall₂ (Detected rules) events mss ∧
      ∀ intakes : List Intake, intakes.length = mss.flatten.length → (intakes.map (·.alertId.val)).Nodup →
        ∃ as, (mss.flatten.zip intakes).mapM (fun p => p.2.create p.1) = .ok as ∧
          ∀ rs : List (String × Request), ∃ q,
            listAlerts (.of ((session as rs).map Alert.toValue)) allStates = .ok q ∧
              (q.map (·.sourceMatch)).Perm mss.flatten ∧
              (q.map (·.alertId.val)).Perm (intakes.map (·.alertId.val)) := by
  obtain ⟨hids, hsemantics⟩ := semantics_of_loadDetectionRules hload
  have hevaluate : ∀ event ∈ events, ∃ ms, evaluateEvent (some event) (some (rules.map some)) = .ok ms := by
    intro event hevent
    obtain ⟨xml, hxml⟩ := hevents event hevent
    exact evaluateEvent_isOk hids hsemantics (utcRepresentable_of_normalizeWindowsEventXml hxml)
  obtain ⟨mss, hmss⟩ := exists_forall₂ hevaluate
  refine ⟨mss, mapM_eq_ok.mpr hmss, hmss.imp fun event ms => detected_of_ok, ?_⟩
  intro intakes hlength hnodup
  -- a loaded rule is at most eight deep, so its matches are copied and read back
  have hcopyable : ∀ m ∈ mss.flatten, m.Copyable ∧ m.Dumps := by
    intro m hm
    obtain ⟨ms, hmem, hm⟩ := List.mem_flatten.mp hm
    obtain ⟨event, hevent, hdetected⟩ := exists_of_forall₂ hmss.flip ms hmem
    obtain ⟨xml, hxml⟩ := hevents event hevent
    exact copyable_of_normalized hxml hdetected hm
  obtain ⟨as, has, hsource, hid⟩ := exists_alerts (fun m hm => (hcopyable m hm).2) hlength
  refine ⟨as, has, fun rs => ?_⟩
  -- the requests keep the evidence, so every alert stays readable
  have hread : ∀ a ∈ session as rs, a.Readable := by
    refine readable_session.mpr fun a ha => ?_
    obtain ⟨hcopy, hdumps⟩ := hcopyable a.sourceMatch (hsource ▸ List.mem_map_of_mem ha)
    exact ⟨hdumps.1, hcopy⟩
  have hsession : ((session as rs).map (·.alertId.val)).Nodup := nodup_session (by rw [hid]; exact hnodup) rs
  obtain ⟨q, hq, hperm⟩ := exists_queue hread hsession
  refine ⟨q, hq, ?_, ?_⟩
  · rw [← hsource, ← map_sourceMatch_session as rs]
    exact hperm.map _
  · rw [← hid, ← map_id_session as rs]
    exact hperm.map _

theorem triage_example : ∃ (_ : Runtime) (rules : List DetectionRule) (events : List NormalizedEvent)
    (mss : List (List DetectionMatch)), events ≠ [] ∧
      events.mapM (fun event => evaluateEvent (some event) (some (rules.map some))) = .ok mss ∧
        List.Forall₂ (Detected rules) events mss := by
  let runtime := Runtime.ordinary
  obtain ⟨rules, hload⟩ := exists_loaded
  obtain ⟨event, -, -, hevent, -⟩ := exists_logon
  have hevents : ∀ e ∈ [event], ∃ xml, normalizeWindowsEventXml logonParser xml = .ok e := by
    intro e he
    rw [List.mem_singleton.mp he]
    exact ⟨_, hevent⟩
  obtain ⟨mss, hmss, hdetected, -⟩ := triage hload hevents
  exact ⟨runtime, rules, [event], mss, by simp, hmss, hdetected⟩

/-- Where a normalized event comes from. -/
theorem exists_described {xml : String} {event : NormalizedEvent}
    (h : normalizeWindowsEventXml fromstring xml = .ok event) :
    ∃ raw, WindowsEvent.parseWindowsEventXml fromstring xml = .ok raw ∧ ∃ row ∈ supportedRows, row.Matches raw ∧
      ∃ context, row.Describes raw.eventDataDict context ∧
        event = EventData.normalized row.source raw context row.consumed := by
  obtain ⟨raw, hraw, hdispatch⟩ := bind_eq_ok.mp h
  have hdispatch : dispatch raw = .ok event := hdispatch
  refine ⟨raw, hraw, ?_⟩
  by_cases hrow : ∃ row ∈ supportedRows, row.Matches raw
  · obtain ⟨row, hmem, hmatches⟩ := hrow
    obtain ⟨n, hn, hfollows⟩ := exists_dispatch hmem hmatches
    rw [hn] at hdispatch
    exact ⟨row, hmem, hmatches, (hfollows.normalize_eq_ok hmatches).mp hdispatch⟩
  · rcases dispatch_of_no_row hrow with ⟨-, message, herror⟩ | ⟨-, herror⟩
    · cases herror.symm.trans hdispatch
    · cases herror.symm.trans hdispatch

/-- The rule is about the events of the row, and its condition is true of the raw event. -/
def Row.Detects (row : Row) (raw : RawWindowsEvent) (r : DetectionRule) : Prop :=
  row.category ∈ r.categories.val ∧ (∀ sources, r.sourceList = some sources → row.source ∈ sources) ∧
    row.verdict raw r.condition.val = .true

theorem trueOf_iff_detects {row : Row} {raw : RawWindowsEvent} {context : EventContext} (hwell : row.WellFormed)
    (hdescribes : row.Describes raw.eventDataDict context)
    (hutc : (EventData.normalized row.source raw context row.consumed).UtcRepresentable) {r : DetectionRule}
    (hok : ∀ e, ¬ Fails (EventData.normalized row.source raw context row.consumed) r e) :
    TrueOf (EventData.normalized row.source raw context row.consumed) r ↔ row.Detects raw r := by
  have happlicable : applicable (EventData.normalized row.source raw context row.consumed) r = true ↔
      row.category ∈ r.categories.val ∧ ∀ sources, r.sourceList = some sources → row.source ∈ sources := by
    rw [applicable, Bool.and_eq_true, decide_eq_true_eq]
    refine and_congr ?_ ?_
    · show context.category ∈ r.categories.val ↔ _
      rw [hdescribes.category]
    · show _ ↔ ∀ sources, r.sourceList = some sources → row.source ∈ sources
      cases r.sourceList with
      | none => simp
      | some sources =>
        show decide (row.source ∈ sources) = true ↔ _
        simp
  unfold TrueOf Row.Detects
  rw [← and_assoc, ← happlicable]
  refine and_congr_right fun hfits => ?_
  cases heval : evaluateCondition (EventData.normalized row.source raw context row.consumed) r.condition.val with
  | error e => exact absurd ⟨hfits, heval⟩ (hok e)
  | ok t => rw [meaning_eq_verdict hwell hdescribes hutc heval]

/-- What rules that pass the check detect in an event text. -/
theorem detects_of_semantics (hids : (rules.map (·.id)).Nodup)
    (hsemantics : ∀ r ∈ rules, validateDetectionRuleSemantics r = .ok ()) {xml : String} {event : NormalizedEvent}
    (hevent : normalizeWindowsEventXml fromstring xml = .ok event) :
    ∃ raw, WindowsEvent.parseWindowsEventXml fromstring xml = .ok raw ∧ ∃ row ∈ supportedRows, row.Matches raw ∧
      ∃ ms, evaluateEvent (some event) (some (rules.map some)) = .ok ms ∧ (ms.map (·.ruleId)).Nodup ∧
        ∀ id, id ∈ ms.map (·.ruleId) ↔ ∃ r ∈ rules, r.id = id ∧ row.Detects raw r := by
  have hutc := utcRepresentable_of_normalizeWindowsEventXml hevent
  obtain ⟨ms, hms⟩ := evaluateEvent_isOk hids hsemantics hutc
  have hdetected := detected_of_ok hms
  have hok := not_fails_of_ok hids hms
  obtain ⟨raw, hraw, row, hrow, hmatches, context, hdescribes, rfl⟩ := exists_described hevent
  have hiff (r : DetectionRule) (hr : r ∈ rules) :=
    trueOf_iff_detects (Row.wellFormed_of_mem hrow) hdescribes hutc (hok r hr)
  refine ⟨raw, hraw, row, hrow, hmatches, ms, hms, ?_, fun id => ?_⟩
  · rw [List.nodup_iff_pairwise_ne, List.pairwise_map]
    exact hdetected.ordered.imp fun h => ne_of_lt h
  · rw [List.mem_map]
    constructor
    · rintro ⟨m, hm, rfl⟩
      obtain ⟨r, hr, hid, htrue⟩ := hdetected.sound m hm
      exact ⟨r, hr, hid.symm, (hiff r hr).mp htrue⟩
    · rintro ⟨r, hr, rfl, hdetects⟩
      exact hdetected.complete r hr ((hiff r hr).mpr hdetects)

/-- **The detection pipeline implements the reference semantics.**  Parsing, normalization and the engine on a loaded
library together detect in an event text exactly the rules that are true of the raw event, each once. -/
theorem detection_reference (hload : loadDetectionRules fs readRule fuel ruleRoot = some (.ok rules))
    {xml : String} {event : NormalizedEvent} (hevent : normalizeWindowsEventXml fromstring xml = .ok event) :
    ∃ raw, WindowsEvent.parseWindowsEventXml fromstring xml = .ok raw ∧ ∃ row ∈ supportedRows, row.Matches raw ∧
      ∃ ms, evaluateEvent (some event) (some (rules.map some)) = .ok ms ∧ (ms.map (·.ruleId)).Nodup ∧
        ∀ id, id ∈ ms.map (·.ruleId) ↔ ∃ r ∈ rules, r.id = id ∧ row.Detects raw r := by
  obtain ⟨hids, hsemantics⟩ := semantics_of_loadDetectionRules hload
  exact detects_of_semantics hids hsemantics hevent

theorem detection_reference_example : ∃ (rules : List DetectionRule) (raw : RawWindowsEvent)
    (ms : List DetectionMatch), ∃ row ∈ supportedRows, row.Matches raw ∧
      ∀ id, id ∈ ms.map (·.ruleId) ↔ ∃ r ∈ rules, r.id = id ∧ row.Detects raw r := by
  obtain ⟨rules, hload⟩ := exists_loaded
  obtain ⟨event, -, -, hevent, -⟩ := exists_logon
  obtain ⟨raw, -, row, hrow, hraw, ms, -, -, hiff⟩ := detection_reference hload hevent
  exact ⟨rules, raw, ms, row, hrow, hraw, hiff⟩

/-- **The evidence of an alert is what the raw event held.**  Whatever the analysts did with the alert, its trace
has the shape of the condition of a rule, its outcome follows from the evidence of its leaves, and each of them
reports a leaf of the rule with what its path stands for in the event that was parsed. -/
theorem evidence_provenance [Runtime] {xml : String} {event : NormalizedEvent} {ms : List DetectionMatch}
    {m : DetectionMatch}
    {id createdAt severity priority : Value} {a₀ : Alert}
    (hevent : normalizeWindowsEventXml fromstring xml = .ok event)
    (hms : evaluateEvent (some event) (some (rules.map some)) = .ok ms) (hm : m ∈ ms)
    (ha : createAlert m.toValue id createdAt severity priority = .ok a₀) (rs : List Request) :
    ∃ raw, WindowsEvent.parseWindowsEventXml fromstring xml = .ok raw ∧ ∃ row ∈ supportedRows, row.Matches raw ∧
      ∃ r ∈ rules, (run perform a₀ rs).sourceMatch.ruleId = r.id ∧
        Isomorphic r.condition.val (run perform a₀ rs).sourceMatch.trace.node ∧
        (run perform a₀ rs).sourceMatch.trace.node.recompute = some .true ∧
        ∀ n ∈ (run perform a₀ rs).sourceMatch.trace.node.nodes, n.evidence.kind = .leaf →
          ∃ steps l, readLocation n.location = some steps ∧ r.condition.val.follow steps = some (.leaf l) ∧
            Attests row raw l n.evidence := by
  have hsource : (run perform a₀ rs).sourceMatch = m := by
    have hread := (createAlert_eq_ok ha).1
    rw [ownValidatedMatch_toValue (copyable_of_normalized hevent hms hm).2] at hread
    rw [sourceMatch_run, Except.ok.inj hread]
  rw [hsource]
  obtain ⟨raw, hraw, row, hrow, hmatches, context, hdescribes, rfl⟩ := exists_described hevent
  have hids := nodup_of_ok hms
  rw [evaluateEvent_ok hids (not_fails_of_ok hids hms)] at hms
  obtain rfl := Except.ok.inj hms
  obtain ⟨r, hr, t, ⟨-, heval, houtcome⟩, hfields⟩ := ((matches_spec _ hids).2 m).mp hm
  have htrace : m.trace = t := by rw [hfields]; rfl
  have htraversed := evaluateCondition_eq_ok.mp heval
  refine ⟨raw, hraw, row, hrow, hmatches, r, hr, by rw [hfields]; rfl, ?_⟩
  rw [htrace]
  refine ⟨isomorphic_of_evaluate htraversed, ?_,
    attests_of_evaluateCondition (Row.wellFormed_of_mem hrow) hdescribes heval⟩
  rw [recompute_of_evaluate htraversed, houtcome]

theorem evidence_provenance_example : ∃ (_ : Runtime) (a₀ : Alert),
    (run perform a₀ [.acknowledge (exampleTime 1), .close (exampleTime 2)]).sourceMatch.trace.node.recompute =
      some .true := by
  let runtime := Runtime.ordinary
  obtain ⟨event, ms, m, hevent, hms, hm⟩ := exists_logon
  have ha := createAlert_ok (copyable_of_normalized hevent hms hm).2 ⟨"alice-1", by decide⟩
    (requireAwareUtcInstant_toDateTime (exampleInstant 0)) .unassigned .normal
  obtain ⟨raw, -, row, -, -, r, -, -, -, hrecompute, -⟩ := evidence_provenance hevent hms hm ha
    [.acknowledge (exampleTime 1), .close (exampleTime 2)]
  exact ⟨runtime, _, hrecompute⟩

end Triage

end SocLab
