import SocLab.Alerts.History
import SocLab.Alerts.Queue

/-!
# SocLab.Alerts.Snapshot — values that bypassed validation are rejected, never repaired

The operations on alerts take any value, such as an instance whose fields were replaced or overwritten without a
validation.

* `Genuine attributes`: an instance with these attributes satisfies every invariant of an alert as it stands.
* `AgreeOutside names a attributes`: but for the named fields the alert is a snapshot of the instance.
* `ReturnedFor names v a`: the value was genuine, the snapshot taken of it agrees with it everywhere, and the
  alert `a` outside of `names`.  `accepted_unrepaired` says that every operation returns such alerts only.
-/

namespace SocLab

open Py Py.Validation Logic

/-- The attributes of an instance that needs no repair. -/
structure Genuine (attributes : Dict) : Prop where
  keys : attributes.sameKeys AlertFields.fieldNames = true
  alertId : ∃ x s, attributes.lookup "alert_id" = some x ∧ (Value.str s).IsSnapshot x ∧
    slug.fullmatch s.toList = true ∧ s.length ≤ 128
  state : ∃ e : AlertState, attributes.lookup "state" = some (StrEnum.toValue e)
  severity : ∃ e : AlertSeverity, attributes.lookup "severity" = some (StrEnum.toValue e)
  priority : ∃ e : AlertPriority, attributes.lookup "priority" = some (StrEnum.toValue e)
  timestamps : ∃ created changed updated : Instant,
    attributes.lookup "created_at" = some (.datetime created.toDateTime) ∧
      attributes.lookup "state_changed_at" = some (.datetime changed.toDateTime) ∧
      attributes.lookup "updated_at" = some (.datetime updated.toDateTime) ∧
      created ≤ changed ∧ changed ≤ updated
  sourceMatch : ∃ x, ∃ m : DetectionMatch, attributes.lookup "source_match" = some x ∧ m.toValue.IsSnapshot x ∧
    m.rootOutcome = .true ∧ m.trace.outcome = .true ∧ m.trace.location = "$" ∧ m.trace.node.Valid

/-- The fields of the alert beside the named ones equal those of the instance and repair nothing in them. -/
def AgreeOutside (names : List String) (a : Alert) (attributes : Dict) : Prop :=
  ∀ p ∈ a.items, p.1 ∉ names → ∃ x, attributes.lookup p.1 = some x ∧ p.2.eq x = true ∧ p.2.IsSnapshot x

/-- A genuine instance, of which a snapshot was taken that agrees with it in every field, and an alert that
differs from it in the named fields at most. -/
def ReturnedFor [Runtime] (names : List String) (v : Value) (a : Alert) : Prop :=
  ∃ attributes fieldsSet, v = .model "Alert" attributes fieldsSet ∧ Genuine attributes ∧
    (∃ snapshot, readAlertSnapshot v = some (snapshot, attributes) ∧ AgreeOutside [] snapshot attributes) ∧
      AgreeOutside names a attributes

/-! ### What is read -/

section Read

variable [Runtime] {d : Dict} {v : Value} {a : Alert}

omit [Runtime] in
theorem isSnapshot_of_alertId {x : Value} {id : AlertId} (h : alertId.validate true x = ok id) :
    (Value.str id.val).IsSnapshot x := by
  obtain ⟨s, hs, hid⟩ := after_eq_ok.mp h
  obtain ⟨hcheck, -, hid⟩ := after_eq_ok.mp hid
  cases hid
  exact isSnapshot_of_text hs

/-- Every field of the alert that is read is a snapshot of the attribute. -/
theorem agreeOutside_of_read (hkeys : d.sameKeys AlertFields.fieldNames = true) (hutc : UtcTimestamps d)
    (h : AlertFields.ofDict true d = ok a.toAlertFields) : AgreeOutside [] a d := by
  have hequal := Value.lookup_of_eqItems (eqItems_of_ofDict hkeys hutc h)
  obtain ⟨hid, hmatch, hcreated, hstate, hchanged, hseverity, hpriority, hupdated⟩ :=
    AlertFields.ofDict_eq_ok.mp h
  obtain ⟨x, hx, hid⟩ := requiredField_eq_ok.mp hid
  obtain ⟨y, hy, hmatch⟩ := requiredField_eq_ok.mp hmatch
  have hsnapshot : ∀ p ∈ a.items, ∃ x, d.lookup p.1 = some x ∧ p.2.IsSnapshot x := by
    simp only [AlertFields.items, List.forall_mem_cons]
    exact ⟨⟨x, hx, isSnapshot_of_alertId hid⟩,
      ⟨y, hy, isSnapshot_of_ownValidatedMatch (ofFunction_eq_ok.mp hmatch)⟩,
      ⟨_, timestamp_item hutc (by decide) hcreated, rfl⟩, ⟨_, enum_item hkeys (by decide) hstate, rfl⟩,
      ⟨_, timestamp_item hutc (by decide) hchanged, rfl⟩, ⟨_, enum_item hkeys (by decide) hseverity, rfl⟩,
      ⟨_, enum_item hkeys (by decide) hpriority, rfl⟩, ⟨_, timestamp_item hutc (by decide) hupdated, rfl⟩,
      by simp⟩
  intro p hp _
  obtain ⟨x, hx, heq⟩ := hequal p hp
  obtain ⟨y, hy, hxy⟩ := hsnapshot p hp
  obtain rfl : x = y := Option.some.inj (hx.symm.trans hy)
  exact ⟨x, hx, heq, hxy⟩

omit [Runtime] in
/-- An instance with which an alert agrees is as valid as the alert. -/
theorem genuine_of_agree (hkeys : d.sameKeys AlertFields.fieldNames = true) (h : AgreeOutside [] a d) :
    Genuine d := by
  have hsnapshot {name : String} {x : Value} (hx : (name, x) ∈ a.items) :
      ∃ y, d.lookup name = some y ∧ x.IsSnapshot y := by
    obtain ⟨y, hy, -, hxy⟩ := h _ hx (by simp)
    exact ⟨y, hy, hxy⟩
  have hmember {ε : Type} [StrEnum ε] {name : String} {e : ε} (he : (name, StrEnum.toValue e) ∈ a.items) :
      d.lookup name = some (StrEnum.toValue e) := by
    obtain ⟨y, hy, rfl⟩ := hsnapshot he
    exact hy
  have htime {name : String} {i : Instant} (hi : (name, Value.datetime i.toDateTime) ∈ a.items) :
      d.lookup name = some (.datetime i.toDateTime) := by
    obtain ⟨y, hy, rfl⟩ := hsnapshot hi
    exact hy
  have hfirst : ("alert_id", alertId.enc a.alertId) ∈ a.items := by simp [AlertFields.items]
  have hsecond : ("source_match", a.sourceMatch.toValue) ∈ a.items := by simp [AlertFields.items]
  obtain ⟨x, hx, hid⟩ := hsnapshot hfirst
  obtain ⟨y, hy, hmatch⟩ := hsnapshot hsecond
  obtain ⟨-, -, houtcome, htrace, hlocation⟩ := validateMatch_eq_ok.mp a.sourceMatch.valid
  exact {
    keys := hkeys
    alertId := ⟨x, a.alertId.val, hx, hid, alertId_valid.mp a.alertId.property⟩
    state := ⟨a.state, hmember (by simp [AlertFields.items])⟩
    severity := ⟨a.severity, hmember (by simp [AlertFields.items])⟩
    priority := ⟨a.priority, hmember (by simp [AlertFields.items])⟩
    timestamps := ⟨a.createdAt, a.stateChangedAt, a.updatedAt, htime (by simp [AlertFields.items]),
      htime (by simp [AlertFields.items]), htime (by simp [AlertFields.items]), a.ordered⟩
    sourceMatch := ⟨y, a.sourceMatch, hy, hmatch, houtcome, htrace, hlocation, a.sourceMatch.trace.valid⟩ }

/-- **What is read of a value repairs nothing in it.** -/
theorem returnedFor_read (h : readAlertSnapshot v = some (a, d)) : ReturnedFor [] v a := by
  obtain ⟨fieldsSet, hv, hkeys, -, hutc, hread⟩ := readAlertSnapshot_cases h
  have hagree := agreeOutside_of_read hkeys hutc hread
  exact ⟨d, fieldsSet, hv, genuine_of_agree hkeys hagree, ⟨a, h, hagree⟩, hagree⟩

end Read

/-! ### What is updated -/

section Update

variable [Runtime] {d : Dict} {v : Value} {a a' : Alert}

/-- The dict after the assignments, in their order. -/
def assignAll (d : Dict) (updates : List (String × Value)) : Dict := updates.foldl (fun d u => d.set u.1 u.2) d

omit [Runtime] in
theorem lookup_assignAll {updates : List (String × Value)} {name : String} (h : name ∉ updates.map (·.1)) :
    (assignAll d updates).lookup name = d.lookup name := by
  induction updates generalizing d with
  | nil => rfl
  | cons u updates ih =>
    rw [List.map_cons, List.mem_cons, not_or] at h
    rw [assignAll, List.foldl_cons]
    exact (ih h.2).trans (Dict.lookup_set_of_ne h.1 u.2)

/-- The fields that were not assigned are read as before. -/
theorem mem_items_of_assignAll {updates : List (String × Value)}
    (h : AlertFields.ofDict true d = ok a.toAlertFields)
    (h' : AlertFields.ofDict true (assignAll d updates) = ok a'.toAlertFields) :
    ∀ p ∈ a'.items, p.1 ∉ updates.map (·.1) → p ∈ a.items := by
  have hrequired {α : Type} {name : String} {v : Validator α} {x x' : α}
      (hx : requiredField name v d = ok x) (hx' : requiredField name v (assignAll d updates) = ok x')
      (hname : name ∉ updates.map (·.1)) : x' = x := by
    rw [requiredField, lookup_assignAll hname] at hx'
    exact Validation.ok.inj (hx'.symm.trans hx)
  have hoptional {ε : Type} [StrEnum ε] {name : String} {e e' default : ε}
      (he : ModelField.get default <$> optionalField name (enumOf ε true) d = ok e)
      (he' : ModelField.get default <$> optionalField name (enumOf ε true) (assignAll d updates) = ok e')
      (hname : name ∉ updates.map (·.1)) : e' = e := by
    rw [optionalField, lookup_assignAll hname] at he'
    exact Validation.ok.inj (he'.symm.trans he)
  obtain ⟨hid, hmatch, hcreated, hstate, hchanged, hseverity, hpriority, hupdated⟩ :=
    AlertFields.ofDict_eq_ok.mp h
  obtain ⟨hid', hmatch', hcreated', hstate', hchanged', hseverity', hpriority', hupdated'⟩ :=
    AlertFields.ofDict_eq_ok.mp h'
  simp only [AlertFields.items, List.forall_mem_cons]
  refine ⟨fun hn => ?_, fun hn => ?_, fun hn => ?_, fun hn => ?_, fun hn => ?_, fun hn => ?_, fun hn => ?_,
    fun hn => ?_, by simp⟩
  · simp [hrequired hid hid' hn]
  · simp [hrequired hmatch hmatch' hn]
  · simp [hrequired hcreated hcreated' hn]
  · simp [hoptional hstate hstate' hn]
  · simp [hrequired hchanged hchanged' hn]
  · simp [hoptional hseverity hseverity' hn]
  · simp [hoptional hpriority hpriority' hn]
  · simp [hrequired hupdated hupdated' hn]

theorem ReturnedFor.mono {names : List String} (h : ReturnedFor [] v a) : ReturnedFor names v a := by
  obtain ⟨attributes, fieldsSet, hv, hgenuine, hsnapshot, hagree⟩ := h
  exact ⟨attributes, fieldsSet, hv, hgenuine, hsnapshot, fun p hp _ => hagree p hp (by simp)⟩

/-- **An update of what was read repairs nothing in the fields that it leaves alone.** -/
theorem returnedFor_assignAll (updates : List (String × Value)) (h : readAlertSnapshot v = some (a, d))
    (h' : validateAlertFields (assignAll d updates) = some a') : ReturnedFor (updates.map (·.1)) v a' := by
  obtain ⟨fieldsSet, hv, hkeys, -, hutc, hread⟩ := readAlertSnapshot_cases h
  have hagree := agreeOutside_of_read hkeys hutc hread
  have hread' := (Alert.modelValidate_eq_ok.mp (toOption_eq_some.mp h')).1
  refine ⟨d, fieldsSet, hv, genuine_of_agree hkeys hagree, ⟨a, h, hagree⟩, fun p hp hname => ?_⟩
  exact hagree p (mem_items_of_assignAll hread hread' p hp hname) (by simp)

end Update

/-! ### The operations -/

section Operations

variable [Runtime] {v at_ : Value} {a' : Alert}

theorem returnedFor_transition {sourceState targetState : AlertState}
    (h : transition v at_ sourceState targetState = .ok a') :
    ReturnedFor ["state", "state_changed_at", "updated_at"] v a' := by
  unfold transition at h
  split at h
  · cases h
  · next current fields hread =>
    split at h
    · cases h
    · next instant hinstant =>
      split_ifs at h
      · cases h
        exact (returnedFor_read hread).mono
      · dsimp only at h
        split at h
        · cases h
        · next updated hupdated =>
          cases h
          exact returnedFor_assignAll [("state", StrEnum.toValue targetState),
            ("state_changed_at", .datetime instant.toDateTime), ("updated_at", .datetime instant.toDateTime)]
            hread hupdated

theorem returnedFor_setPolicy {ε : Type} [StrEnum ε] [DecidableEq ε] {previous : Alert → ε} {field : String}
    {value : Value} (h : setPolicy previous v field value at_ = .ok a') :
    ReturnedFor [field, "updated_at"] v a' := by
  unfold setPolicy at h
  split at h
  · cases h
  · next current fields hread =>
    split at h
    · cases h
    · split at h
      · cases h
      · next instant hinstant =>
        split_ifs at h
        · cases h
          exact (returnedFor_read hread).mono
        · dsimp only at h
          split at h
          · cases h
          · next updated hupdated =>
            cases h
            exact returnedFor_assignAll [(field, value), ("updated_at", .datetime instant.toDateTime)] hread
              hupdated

end Operations

end SocLab
