import SocLab.Alerts.Validation
import SocLab.Detection.Bounds
import SocLab.Detection.Engine

/-!
# SocLab.Alerts.Creation — alerts from existing detection evidence

`alerts/creation.py`.

* `createAlert_ok`: what creation gives on a match whose dump can be copied, a valid id, an aware instant and
  members of the enumerations.
* `evidence_handover`: the evidence of the engine, which can be copied, arrives in the alert as it was.
-/

namespace SocLab

open Py Py.Validation Logic

/-- The argument of `create_alert` that a field of the model comes from. -/
def publicFields : List (String × String) :=
  [("source_match", "match"), ("alert_id", "alert_id"), ("created_at", "created_at"),
    ("state_changed_at", "created_at"), ("updated_at", "created_at")]

/-- A creation input failed validation, with no evidence in the diagnostics. -/
structure AlertCreationError where
  field : Option String := none
  deriving DecidableEq

def AlertCreationError.reason (e : AlertCreationError) : String :=
  match e.field with
  | some field => "invalid_" ++ field
  | none => "invalid_input"

/-- What `create_alert` raises: its own error, or an exception that it does not handle. -/
inductive CreationRaised where
  | creation (e : AlertCreationError)
  | exception (e : Exc)

/-- The argument behind the first entry of a validation error. -/
def publicField : List LineError → Option String
  | ⟨.name field :: _, _⟩ :: _ => publicFields.lookup field
  | _ => none

/-- `Alert(...)` in `create_alert`, with the created instant in three fields. -/
def creationFields (source alertId createdAt severity priority : Value) : Dict :=
  [("alert_id", alertId),
    ("source_match", source),
    ("created_at", createdAt),
    ("state", StrEnum.toValue AlertState.new),
    ("state_changed_at", createdAt),
    ("severity", severity),
    ("priority", priority),
    ("updated_at", createdAt)]

/-- The alert that creation is for. -/
def Alert.created (m : DetectionMatch) (id : AlertId) (i : Instant) (severity : AlertSeverity)
    (priority : AlertPriority) : Alert where
  alertId := id
  sourceMatch := m
  createdAt := i
  state := .new
  stateChangedAt := i
  severity := severity
  priority := priority
  updatedAt := i
  ordered := ⟨le_rfl, le_rfl⟩

section Creation

variable [Runtime]

/-- Create a NEW alert from a true match using an explicit id and instant. -/
def createAlert (source alertId createdAt : Value)
    (severity : Value := StrEnum.toValue AlertSeverity.unassigned)
    (priority : Value := StrEnum.toValue AlertPriority.normal) : Except CreationRaised Alert :=
  if (StrEnum.ofMember? (ε := AlertSeverity) severity).isNone then .error (.creation ⟨"severity"⟩)
  else if (StrEnum.ofMember? (ε := AlertPriority) priority).isNone then .error (.creation ⟨"priority"⟩)
  else
    match Alert.modelValidate false (.dict (creationFields source alertId createdAt severity priority)) with
    | .ok alert => .ok alert
    | .invalid errors => .error (.creation ⟨publicField errors⟩)
    -- `except (ValidationError, TypeError, ValueError, OverflowError)`; the rest leaves the function
    | .exception .typeError | .exception .valueError | .exception .overflowError =>
      .error (.creation ⟨none⟩)
    | .exception e => .error (.exception e)

/-- Creation succeeds on every match whose dump can be copied, valid id, aware instant in the range of UTC and
enumeration member. -/
theorem createAlert_ok {m : DetectionMatch} (hm : m.Dumps) (id : AlertId) {t : DateTime} {i : Instant}
    (ht : requireAwareUtcInstant (.datetime t) = .ok i) (severity : AlertSeverity)
    (priority : AlertPriority) :
    createAlert m.toValue (.str id) (.datetime t) (StrEnum.toValue severity) (StrEnum.toValue priority) =
      .ok (.created m id i severity priority) := by
  have hfields : Alert.modelValidate false (.dict (creationFields m.toValue (.str id) (.datetime t)
      (StrEnum.toValue severity) (StrEnum.toValue priority))) =
      ok (.created m id i severity priority) := by
    rw [Alert.modelValidate_eq_ok, AlertFields.ofDict_eq_ok]
    have hmatch := ofFunction_eq_ok.mpr (ownValidatedMatch_toValue hm)
    have hinstant : ofFunction requireAwareUtcInstant (.datetime t) = ok i := ofFunction_eq_ok.mpr ht
    refine ⟨⟨?_, ?_, ?_, ?_, ?_, ?_, ?_, ?_⟩, fun k hk => hk⟩
    · exact (requiredField_of_lookup rfl).mpr (SocLab.alertId.reads false id)
    · exact (requiredField_of_lookup rfl).mpr hmatch
    · exact (requiredField_of_lookup rfl).mpr hinstant
    · exact (optionalField_of_lookup rfl).mpr (reads_enumOf AlertState false .new)
    · exact (requiredField_of_lookup rfl).mpr hinstant
    · exact (optionalField_of_lookup rfl).mpr (reads_enumOf AlertSeverity false severity)
    · exact (optionalField_of_lookup rfl).mpr (reads_enumOf AlertPriority false priority)
    · exact (requiredField_of_lookup rfl).mpr hinstant
  rw [createAlert, StrEnum.ofMember?_toValue, StrEnum.ofMember?_toValue, hfields]
  rfl

/-- What a creation that succeeds was given, and what it made of it. -/
theorem createAlert_eq_ok {source alertId createdAt severity priority : Value} {a : Alert}
    (h : createAlert source alertId createdAt severity priority = .ok a) :
    ownValidatedMatch source = .ok a.sourceMatch ∧
      requireAwareUtcInstant createdAt = .ok a.createdAt ∧
      severity = StrEnum.toValue a.severity ∧ priority = StrEnum.toValue a.priority ∧
      a = .created a.sourceMatch a.alertId a.createdAt a.severity a.priority := by
  unfold createAlert at h
  split_ifs at h with hseverity hpriority
  obtain ⟨severity, rfl⟩ : ∃ e : AlertSeverity, severity = StrEnum.toValue e := by
    obtain ⟨e, he⟩ := Option.ne_none_iff_exists'.mp (by simpa using hseverity)
    exact ⟨e, StrEnum.toValue_of_ofMember? he⟩
  obtain ⟨priority, rfl⟩ : ∃ e : AlertPriority, priority = StrEnum.toValue e := by
    obtain ⟨e, he⟩ := Option.ne_none_iff_exists'.mp (by simpa using hpriority)
    exact ⟨e, StrEnum.toValue_of_ofMember? he⟩
  split at h
  · next a' ha' =>
    cases h
    obtain ⟨hid, hmatch, hcreated, hstate, hchanged, hseverity, hpriority, hupdated⟩ :=
      AlertFields.ofDict_eq_ok.mp (Alert.modelValidate_eq_ok.mp ha').1
    have hmatch := ofFunction_eq_ok.mp ((requiredField_of_lookup rfl).mp hmatch)
    have hcreated := ofFunction_eq_ok.mp ((requiredField_of_lookup rfl).mp hcreated)
    have hchanged := ofFunction_eq_ok.mp ((requiredField_of_lookup rfl).mp hchanged)
    have hupdated := ofFunction_eq_ok.mp ((requiredField_of_lookup rfl).mp hupdated)
    have hstate := (optionalField_of_lookup rfl).mp hstate
    have hseverity := (optionalField_of_lookup rfl).mp hseverity
    have hpriority := (optionalField_of_lookup rfl).mp hpriority
    rw [enumOf_toValue] at hstate hseverity hpriority
    refine ⟨hmatch, hcreated, by rw [ok.inj hseverity], by rw [ok.inj hpriority], ?_⟩
    rw [hcreated] at hchanged hupdated
    obtain ⟨⟨id, m, created, state, changed, severity', priority', updated⟩, hordered⟩ := a
    obtain rfl : created = changed := Except.ok.inj hchanged
    obtain rfl : created = updated := Except.ok.inj hupdated
    obtain rfl : .new = state := ok.inj hstate
    rfl
  all_goals cases h

omit [Runtime] in
/-- Where a match of the engine comes from. -/
theorem exists_rule_of_match {event : NormalizedEvent} {rules : List DetectionRule} {ms : List DetectionMatch}
    (h : evaluateEvent (some event) (some (rules.map some)) = .ok ms) {m : DetectionMatch} (hm : m ∈ ms) :
    m.event = event ∧ ∃ r ∈ rules, evaluateCondition event r.condition.val = .ok m.trace := by
  have hnodup := nodup_of_ok h
  rw [evaluateEvent_ok hnodup (not_fails_of_ok hnodup h)] at h
  cases h
  obtain ⟨r, hr, t, hfires, hfields⟩ := ((matches_spec _ hnodup).2 m).mp hm
  rw [hfields]
  exact ⟨rfl, r, hr, hfires.2.1⟩

/-- The evidence of the engine can be copied when the time zone of the event can be. -/
theorem copyable_of_match {event : NormalizedEvent} {rules : List DetectionRule} {ms : List DetectionMatch}
    (h : evaluateEvent (some event) (some (rules.map some)) = .ok ms)
    (hzone : event.timestamp.val.copyFailure = none) {m : DetectionMatch} (hm : m ∈ ms) : m.Copyable ∧ m.Dumps := by
  obtain ⟨hevent, r, -, heval⟩ := exists_rule_of_match h hm
  obtain ⟨hheight, hactual⟩ := explanation_copies heval hzone
  exact DetectionMatch.copyable_of_height hheight hactual (by rw [hevent]; exact hzone)

/-- **The evidence of the engine arrives in the alert as it was**: the snapshot of a match is that match,
also when it is taken again, and creation succeeds on it. -/
theorem evidence_handover {event : NormalizedEvent} (hzone : event.timestamp.val.copyFailure = none)
    {rules : List DetectionRule} {ms : List DetectionMatch}
    (h : evaluateEvent (some event) (some (rules.map some)) = .ok ms) {m : DetectionMatch} (hm : m ∈ ms) :
    (m.event = event ∧ ∃ r ∈ rules, evaluateCondition event r.condition.val = .ok m.trace) ∧
      (∃ s, ownValidatedMatch m.toValue = .ok s ∧ s = m ∧ ownValidatedMatch s.toValue = .ok s) ∧
      ∀ (id : String) (t : DateTime) (i : Instant) (severity : AlertSeverity) (priority : AlertPriority),
        slug.fullmatch id.toList = true → id.length ≤ 128 → t.Aware → t.astimezone = .ok i →
        ∃ a, createAlert m.toValue (.str id) (.datetime t) (StrEnum.toValue severity)
            (StrEnum.toValue priority) = .ok a ∧
          a.alertId = id ∧ a.sourceMatch = m ∧ a.createdAt = i ∧ a.stateChangedAt = i ∧
            a.updatedAt = i ∧ a.state = .new ∧ a.severity = severity ∧ a.priority = priority := by
  have hdumps := (copyable_of_match h hzone hm).2
  have hsnapshot := ownValidatedMatch_toValue hdumps
  refine ⟨exists_rule_of_match h hm, ⟨m, hsnapshot, rfl, hsnapshot⟩, ?_⟩
  · intro id t i severity priority hslug hlength haware hutc
    have ht : requireAwareUtcInstant (.datetime t) = .ok i := by
      obtain ⟨o, ho⟩ := haware
      rw [requireAwareUtcInstant, ho]
      exact hutc
    exact ⟨_, createAlert_ok hdumps ⟨id, alertId_valid.mpr ⟨hslug, hlength⟩⟩ ht severity priority, rfl, rfl,
      rfl, rfl, rfl, rfl, rfl, rfl⟩

end Creation

theorem exists_match_exampleLogon : ∃ ms m, evaluateEvent (some .exampleLogon)
    (some ([DetectionRule.exampleRule].map some)) = .ok ms ∧ m ∈ ms := by
  obtain ⟨ms, hms, hids⟩ := exists_of_map_ok (show (evaluateEvent (some .exampleLogon)
    (some ([DetectionRule.exampleRule].map some))).map (fun ms => ms.map (·.ruleId)) =
      .ok ["alice-logon"] by decide)
  obtain ⟨m, rest, rfl, -, -⟩ := List.map_eq_cons_iff.mp hids
  exact ⟨_, m, hms, by simp⟩

theorem evidence_handover_example : ∃ _ : Runtime, ∃ m a, createAlert (DetectionMatch.toValue m) (.str "alice-1")
    (.datetime NormalizedEvent.exampleLogon.timestamp) = .ok a ∧ a.sourceMatch = m := by
  obtain ⟨ms, m, hms, hm⟩ := exists_match_exampleLogon
  refine ⟨.ordinary, m, ?_⟩
  obtain ⟨a, ha, -, hsource, -⟩ := (@evidence_handover .ordinary _ rfl _ _ hms _ hm).2.2 "alice-1"
    NormalizedEvent.exampleLogon.timestamp _ .unassigned .normal (by decide) (by decide)
    NormalizedEvent.exampleLogon.timestamp.property rfl
  exact ⟨a, ha, hsource⟩

end SocLab
