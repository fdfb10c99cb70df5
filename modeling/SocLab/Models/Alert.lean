import SocLab.Models.Copies

/-!
# SocLab.Models.Alert — validated alert values that own their evidence

`models/alert.py`.  An `Alert` carries the order of its timestamps as a field, its id the slug and the
length, and its timestamps are instants in UTC.

* `ownValidatedMatch` is the snapshot of the evidence; `ownValidatedMatch_toValue` says that it gives
  back every match whose dump can be copied.
* `Alert.modelValidate_items`: the fields of an alert with such evidence validate to that alert.
-/

namespace SocLab

open Py Py.Validation Logic

/-! ### Enumerations -/

/-- The complete lifecycle state set. -/
inductive AlertState where
  | new
  | acknowledged
  | closed
  deriving DecidableEq

instance : StrEnum AlertState where
  name := "AlertState"
  members := [.new, .acknowledged, .closed]
  value
    | .new => "new"
    | .acknowledged => "acknowledged"
    | .closed => "closed"
  mem_members e := by cases e <;> simp
  value_injective e e' := by cases e <;> cases e' <;> simp

/-- Security significance, separate from handling urgency. -/
inductive AlertSeverity where
  | unassigned
  | informational
  | low
  | medium
  | high
  | critical
  deriving DecidableEq

instance : StrEnum AlertSeverity where
  name := "AlertSeverity"
  members := [.unassigned, .informational, .low, .medium, .high, .critical]
  value
    | .unassigned => "unassigned"
    | .informational => "informational"
    | .low => "low"
    | .medium => "medium"
    | .high => "high"
    | .critical => "critical"
  mem_members e := by cases e <;> simp
  value_injective e e' := by cases e <;> cases e' <;> simp

/-- Operational handling urgency, separate from security significance. -/
inductive AlertPriority where
  | low
  | normal
  | high
  | urgent
  deriving DecidableEq

instance : StrEnum AlertPriority where
  name := "AlertPriority"
  members := [.low, .normal, .high, .urgent]
  value
    | .low => "low"
    | .normal => "normal"
    | .high => "high"
    | .urgent => "urgent"
  mem_members e := by cases e <;> simp
  value_injective e e' := by cases e <;> cases e' <;> simp

/-! ### Field validators -/

/-- The declared length and `validate_alert_id`. -/
def alertIdChecks (s : String) : List (Bool × String) :=
  [(s.length < 1, "string_too_short"), (128 < s.length, "string_too_long"),
    (!slug.fullmatch s.toList, "alert_id must be an ASCII lowercase slug")]

/-- The id of an alert: a slug of at most 128 characters. -/
abbrev AlertId : Type := {s : String // raiseFirst (alertIdChecks s) = ok ()}

theorem alertId_valid {s : String} :
    raiseFirst (alertIdChecks s) = ok () ↔ slug.fullmatch s.toList = true ∧ s.length ≤ 128 := by
  rw [raiseFirst_eq_ok]
  simp only [alertIdChecks, List.forall_mem_cons, decide_eq_false_iff_not, Bool.not_eq_false']
  constructor
  · rintro ⟨-, hlength, hslug, -⟩
    exact ⟨hslug, by omega⟩
  · rintro ⟨hslug, hlength⟩
    refine ⟨?_, by omega, hslug, by simp⟩
    intro hempty
    have hs : s.toList = [] := List.eq_nil_of_length_eq_zero (by rw [String.length_toList]; omega)
    rw [hs] at hslug
    exact absurd hslug (by decide)

/-- `alert_id`: the constraints of the text, then the check of the slug. -/
def alertId : Codec AlertId :=
  Codec.str.after (fun s => (certify (raiseFirst (alertIdChecks s))).after fun h => ok ⟨s, h.down⟩)
    Subtype.val fun id => by rw [certify_ok id.property, after_ok]

theorem DetectionMatch.type_toValue (m : DetectionMatch) : m.toValue.type = .model "DetectionMatch" := rfl

/-- `require_aware_utc_instant`. -/
def requireAwareUtcInstant (value : Value) : Except Exc Instant :=
  match value with
  | .datetime d =>
    match d.utcoffset with
    | .ok (some _) => d.astimezone
    | .ok none => .error .valueError
    | .error e => .error e
  | _ => .error .valueError

section Evidence

variable [Runtime]

/-- `deepcopy(value.model_dump(mode="python", exclude_unset=True, warnings="error"))`. -/
def copiedDump (value : Value) : Except Exc Value := do (← value.modelDump).deepcopy

/-- `own_validated_match`: the evidence is dumped, copied, read again in strict mode and compared. -/
def ownValidatedMatch (value : Value) : Except Exc DetectionMatch :=
  if value.type ≠ .model "DetectionMatch" then .error .valueError
  else
    match copiedDump value with
    -- only these two are handled; what else a copy raises leaves the validator
    | .error .typeError | .error .valueError => .error .valueError
    | .error e => .error e
    | .ok data =>
      match DetectionMatch.codec.validate true data with
      | .ok snapshot => if snapshot.toValue.eq value then .ok snapshot else .error .valueError
      | .invalid _ => .error .valueError
      | .exception .typeError => .error .valueError
      | .exception e => .error e

/-- The dump of the match can be made and copied. -/
def DetectionMatch.Dumps (m : DetectionMatch) : Prop :=
  m.toValue.nesting ≤ Runtime.nesting ∧ m.toValue.dump.Copies Runtime.frames

/-- The match itself can be copied with the frames that are left: its time zones can be, and its trace is not too
deep. -/
def DetectionMatch.Copyable (m : DetectionMatch) : Prop := m.CopiedIn Runtime.frames

theorem DetectionMatch.copyable_iff {m : DetectionMatch} : m.toValue.Copies Runtime.frames ↔ m.Copyable :=
  m.copies_iff (by have := Runtime.frames_ge; omega)

/-- A copy of the match takes more than one of its dump. -/
theorem DetectionMatch.Copyable.dumps {m : DetectionMatch} (h : m.Copyable)
    (hnesting : m.toValue.nesting ≤ Runtime.nesting) : m.Dumps := ⟨hnesting, (copyable_iff.mpr h).dump⟩

/-- A match whose trace is not deep can be copied and dumped whenever its time zones can be copied. -/
theorem DetectionMatch.copyable_of_height {m : DetectionMatch} (hheight : m.trace.node.height ≤ 8)
    (hactual : m.trace.node.ClocksCopy) (htimestamp : m.event.timestamp.val.copyFailure = none) :
    m.Copyable ∧ m.Dumps := by
  have hframes := Runtime.frames_ge
  have hnesting := Runtime.nesting_ge
  have hcopy : m.Copyable := ⟨htimestamp, hactual, by omega⟩
  exact ⟨hcopy, hcopy.dumps ((m.nesting_le (by omega)).mpr (by omega))⟩

theorem copiedDump_eq_ok {value data : Value} : copiedDump value = .ok data ↔
    (value.nesting ≤ Runtime.nesting ∧ value.dump.Copies Runtime.frames) ∧ data = value.dump := by
  rw [copiedDump, bind_eq_ok]
  simp only [Value.modelDump_eq_ok, Value.deepcopy_eq_ok]
  constructor
  · rintro ⟨_, ⟨hnesting, rfl⟩, hcopies, rfl⟩
    exact ⟨⟨hnesting, hcopies⟩, rfl⟩
  · rintro ⟨⟨hnesting, hcopies⟩, rfl⟩
    exact ⟨_, ⟨hnesting, rfl⟩, hcopies, rfl⟩

/-- **The snapshot of a match is that match**: its event in the same context class, its trace with the
same children in the same order, and every field given or left out as it was. -/
theorem ownValidatedMatch_toValue {m : DetectionMatch} (h : m.Dumps) : ownValidatedMatch m.toValue = .ok m := by
  have hread : DetectionMatch.codec.validate true m.toValue.dump = ok m :=
    DetectionMatch.codec.reads true m
  have hself : m.toValue.eq m.toValue = true := DetectionMatch.codec.eq_self m
  rw [ownValidatedMatch, if_neg (not_not_intro m.type_toValue), copiedDump_eq_ok.mpr ⟨h, rfl⟩]
  dsimp only
  rw [hread]
  dsimp only
  rw [if_pos hself]

/-- The snapshot was read from the dump of the value and equals the value. -/
theorem ownValidatedMatch_cases {value : Value} {m : DetectionMatch} (h : ownValidatedMatch value = .ok m) :
    (value.nesting ≤ Runtime.nesting ∧ value.dump.Copies Runtime.frames) ∧
      DetectionMatch.codec.validate true value.dump = ok m ∧ m.toValue.eq value = true := by
  unfold ownValidatedMatch at h
  split_ifs at h
  split at h
  · cases h
  · cases h
  · cases h
  · next data hdata =>
    obtain ⟨hcopies, rfl⟩ := copiedDump_eq_ok.mp hdata
    split at h
    · next snapshot hread =>
      split_ifs at h with heq
      cases h
      exact ⟨hcopies, hread, heq⟩
    · cases h
    · cases h
    · cases h

end Evidence

@[simp] theorem requireAwareUtcInstant_toDateTime (i : Instant) :
    requireAwareUtcInstant (.datetime i.toDateTime) = .ok i := rfl

/-! ### Alerts -/

/-- The declared fields of an alert. -/
structure AlertFields where
  alertId : AlertId
  sourceMatch : DetectionMatch
  createdAt : Instant
  state : AlertState
  stateChangedAt : Instant
  severity : AlertSeverity
  priority : AlertPriority
  updatedAt : Instant

namespace AlertFields

/-- `dict(alert)`. -/
def items (f : AlertFields) : Dict :=
  [("alert_id", SocLab.alertId.enc f.alertId),
    ("source_match", f.sourceMatch.toValue),
    ("created_at", .datetime f.createdAt.toDateTime),
    ("state", StrEnum.toValue f.state),
    ("state_changed_at", .datetime f.stateChangedAt.toDateTime),
    ("severity", StrEnum.toValue f.severity),
    ("priority", StrEnum.toValue f.priority),
    ("updated_at", .datetime f.updatedAt.toDateTime)]

/-- `Alert.model_fields`, in the order of the class. -/
def fieldNames : List String :=
  ["alert_id", "source_match", "created_at", "state", "state_changed_at", "severity", "priority",
    "updated_at"]

theorem keys_items (f : AlertFields) : f.items.keys = fieldNames := rfl

variable [Runtime]

/-- The fields read from a dict; an item that is left out has its default. -/
def ofDict (strict : Bool) (d : Dict) : Validation AlertFields :=
  AlertFields.mk <$> requiredField "alert_id" (SocLab.alertId.validate strict) d
    <*> requiredField "source_match" (ofFunction ownValidatedMatch) d
    <*> requiredField "created_at" (ofFunction requireAwareUtcInstant) d
    <*> (ModelField.get .new <$> optionalField "state" (enumOf AlertState strict) d)
    <*> requiredField "state_changed_at" (ofFunction requireAwareUtcInstant) d
    <*> (ModelField.get .unassigned <$> optionalField "severity" (enumOf AlertSeverity strict) d)
    <*> (ModelField.get .normal <$> optionalField "priority" (enumOf AlertPriority strict) d)
    <*> requiredField "updated_at" (ofFunction requireAwareUtcInstant) d

end AlertFields

/-- One immutable alert value with independently owned detection evidence. -/
structure Alert extends AlertFields where
  ordered : createdAt ≤ stateChangedAt ∧ stateChangedAt ≤ updatedAt

namespace Alert

/-- `validate_timestamp_order`. -/
def validateTimestampOrder (f : AlertFields) : Validation Alert :=
  if h : f.createdAt ≤ f.stateChangedAt ∧ f.stateChangedAt ≤ f.updatedAt then ok ⟨f, h⟩
  else error "alert timestamps must satisfy created_at <= state_changed_at <= updated_at"

/-- `Alert.model_validate(fields, strict=strict)`; outside strict mode also `Alert(**fields)`. -/
def modelValidate [Runtime] (strict : Bool) : Validator Alert := fun x =>
  (modelDict AlertFields.fieldNames (AlertFields.ofDict strict) x).after validateTimestampOrder

/-- The instance, made with all of its fields given. -/
def toValue (a : Alert) : Value := .model "Alert" a.items AlertFields.fieldNames

end Alert

section Validate

variable [Runtime]

/-- The fields that are read, item by item. -/
theorem AlertFields.ofDict_eq_ok {strict : Bool} {d : Dict} {f : AlertFields} :
    ofDict strict d = ok f ↔
      requiredField "alert_id" (SocLab.alertId.validate strict) d = ok f.alertId ∧
      requiredField "source_match" (ofFunction ownValidatedMatch) d = ok f.sourceMatch ∧
      requiredField "created_at" (ofFunction requireAwareUtcInstant) d = ok f.createdAt ∧
      ModelField.get .new <$> optionalField "state" (enumOf AlertState strict) d = ok f.state ∧
      requiredField "state_changed_at" (ofFunction requireAwareUtcInstant) d = ok f.stateChangedAt ∧
      ModelField.get .unassigned <$> optionalField "severity" (enumOf AlertSeverity strict) d =
        ok f.severity ∧
      ModelField.get .normal <$> optionalField "priority" (enumOf AlertPriority strict) d =
        ok f.priority ∧
      requiredField "updated_at" (ofFunction requireAwareUtcInstant) d = ok f.updatedAt := by
  constructor
  · intro h
    rw [ofDict] at h
    obtain ⟨_, _, h₇, hupdated, hf⟩ := seq_eq_ok.mp h
    obtain ⟨_, _, h₆, hpriority, rfl⟩ := seq_eq_ok.mp h₇
    obtain ⟨_, _, h₅, hseverity, rfl⟩ := seq_eq_ok.mp h₆
    obtain ⟨_, _, h₄, hchanged, rfl⟩ := seq_eq_ok.mp h₅
    obtain ⟨_, _, h₃, hstate, rfl⟩ := seq_eq_ok.mp h₄
    obtain ⟨_, _, h₂, hcreated, rfl⟩ := seq_eq_ok.mp h₃
    obtain ⟨_, _, h₁, hmatch, rfl⟩ := seq_eq_ok.mp h₂
    obtain ⟨_, hid, rfl⟩ := map_eq_ok.mp h₁
    subst hf
    exact ⟨hid, hmatch, hcreated, hstate, hchanged, hseverity, hpriority, hupdated⟩
  · rintro ⟨hid, hmatch, hcreated, hstate, hchanged, hseverity, hpriority, hupdated⟩
    rw [ofDict, hid, hmatch, hcreated, hstate, hchanged, hseverity, hpriority, hupdated]
    rfl

theorem AlertFields.ofDict_items (strict : Bool) {f : AlertFields} (h : f.sourceMatch.Dumps) :
    ofDict strict f.items = ok f := by
  have hinstant (i : Instant) :
      ofFunction requireAwareUtcInstant (.datetime i.toDateTime) = ok i := rfl
  have hmatch := ofFunction_eq_ok.mpr (ownValidatedMatch_toValue h)
  rw [ofDict_eq_ok]
  refine ⟨?_, ?_, ?_, ?_, ?_, ?_, ?_, ?_⟩
  · exact (requiredField_of_lookup rfl).mpr (SocLab.alertId.reads strict f.alertId)
  · exact (requiredField_of_lookup rfl).mpr hmatch
  · exact (requiredField_of_lookup rfl).mpr (hinstant f.createdAt)
  · exact (optionalField_of_lookup rfl).mpr (reads_enumOf AlertState strict f.state)
  · exact (requiredField_of_lookup rfl).mpr (hinstant f.stateChangedAt)
  · exact (optionalField_of_lookup rfl).mpr (reads_enumOf AlertSeverity strict f.severity)
  · exact (optionalField_of_lookup rfl).mpr (reads_enumOf AlertPriority strict f.priority)
  · exact (requiredField_of_lookup rfl).mpr (hinstant f.updatedAt)

theorem Alert.modelValidate_eq_ok {strict : Bool} {d : Dict} {a : Alert} :
    modelValidate strict (.dict d) = ok a ↔
      AlertFields.ofDict strict d = ok a.toAlertFields ∧ ∀ k ∈ Dict.keys d, k ∈ AlertFields.fieldNames := by
  rw [modelValidate, after_eq_ok]
  constructor
  · rintro ⟨f, hf, horder⟩
    obtain ⟨d', hd', hf, hkeys⟩ := modelDict_eq_ok.mp hf
    cases hd'
    unfold validateTimestampOrder at horder
    split_ifs at horder
    · cases horder
      exact ⟨hf, hkeys⟩
    · cases horder
  · rintro ⟨hf, hkeys⟩
    refine ⟨a.toAlertFields, modelDict_dict hf hkeys, ?_⟩
    rw [validateTimestampOrder, dif_pos a.ordered]

/-- **The fields of an alert validate to that alert.** -/
theorem Alert.modelValidate_items (strict : Bool) {a : Alert} (h : a.sourceMatch.Dumps) :
    modelValidate strict (.dict a.items) = ok a :=
  modelValidate_eq_ok.mpr ⟨AlertFields.ofDict_items strict h, fun _ hk => hk⟩

end Validate

/-! ### Evidence that is too deep -/

section Nested

variable [Runtime] {event : NormalizedEvent} {k : Nat} (hk : k % 2 = 0)

theorem nestedMatch_dumps (hzone : event.timestamp.val.copyFailure = none) (hnesting : k + 2 ≤ Runtime.nesting)
    (hframes : 4 * k + 6 ≤ Runtime.frames) : (nestedMatch event k hk).Dumps := by
  have hframes' := Runtime.frames_ge
  have hnesting' := Runtime.nesting_ge
  have hheight : (nestedMatch event k hk).trace.node.height = k + 1 := height_nestedTrace k "$"
  refine ⟨(DetectionMatch.nesting_le _ (by omega)).mpr (by omega), ?_⟩
  exact DetectionMatch.copies_dump _ (by omega) (by omega) hzone (clocksCopy_nestedTrace k "$")

theorem le_of_nestedMatch_copyable (h : (nestedMatch event k hk).Copyable) : 6 * k + 10 ≤ Runtime.frames := by
  have hheight : (nestedMatch event k hk).trace.node.height = k + 1 := height_nestedTrace k "$"
  have hframes := h.height
  omega

end Nested

/-- A match of one leaf. -/
def exampleMatch : DetectionMatch := nestedMatch .exampleLogon 0 rfl

theorem exampleMatch_copyable [Runtime] : exampleMatch.Copyable ∧ exampleMatch.Dumps :=
  DetectionMatch.copyable_of_height (by decide) (clocksCopy_nestedTrace 0 "$") rfl

/-- The match of a trace of 170 negations. -/
def deepMatch : DetectionMatch := nestedMatch .exampleLogon 170 rfl

/-- With 1000 frames creation accepts the match, whose dump can be copied, but it cannot be copied itself. -/
theorem deepMatch_dumps :
    @DetectionMatch.Dumps .ordinary deepMatch ∧ ¬ @DetectionMatch.Copyable .ordinary deepMatch := by
  let runtime := Runtime.ordinary
  refine ⟨nestedMatch_dumps rfl rfl (by decide) (by decide), fun hcopy => ?_⟩
  have hframes := le_of_nestedMatch_copyable rfl hcopy
  exact absurd hframes (by decide)

end SocLab
