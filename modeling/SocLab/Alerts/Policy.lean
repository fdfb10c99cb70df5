import SocLab.Alerts.Validation
import SocLab.Logic.Checks

/-!
# SocLab.Alerts.Policy — independent severity and priority updates for active alerts

`alerts/policy.py`.  Severity and priority are two instances of `PolicyField`, which says how an alert is
read and updated at one of its fields; `setPolicy_toValue` is about any of them.
-/

namespace SocLab

open Py Py.Validation Logic

/-- A policy update failed with a safe reason and field name. -/
structure AlertPolicyError where
  reason : String
  field : String
  deriving DecidableEq

section Operations

variable [Runtime]

/-- `_set_policy`, for a field with members of the enumeration `ε`. -/
def setPolicy {ε : Type} [StrEnum ε] [DecidableEq ε] (previous : Alert → ε) (alert : Value)
    (field : String) (value changedAt : Value) : Except AlertPolicyError Alert :=
  match readAlertSnapshot alert with
  | none => .error ⟨"invalid_alert", "alert"⟩
  | some (current, fields) =>
    match StrEnum.ofMember? (ε := ε) value with
    | none => .error ⟨"invalid_value", field⟩
    | some member =>
      match normalizeChangeTime changedAt with
      | none => .error ⟨"invalid_changed_at", "changed_at"⟩
      | some instant =>
        if instant < current.updatedAt then .error ⟨"out_of_order_changed_at", "changed_at"⟩
        -- before the values are compared: on a closed alert the same value fails as well
        else if current.state = .closed then .error ⟨"closed_alert", "state"⟩
        else if member = previous current then .ok current
        else
          let fields := fields.set field value
          let fields := fields.set "updated_at" (.datetime instant.toDateTime)
          match validateAlertFields fields with
          | none => .error ⟨"invalid_alert", "alert"⟩
          | some updated => .ok updated

/-- Assign security significance to an active alert. -/
def setSeverity (alert value changedAt : Value) : Except AlertPolicyError Alert :=
  setPolicy (·.severity) alert "severity" value changedAt

/-- Assign operational urgency to an active alert. -/
def setPriority (alert value changedAt : Value) : Except AlertPolicyError Alert :=
  setPolicy (·.priority) alert "priority" value changedAt

end Operations

/-! ### What the updates do -/

/-- A field of an alert that is updated on its own: how it is read, and the alert with another member
from an instant on that is not before its last update. -/
structure PolicyField (ε : Type) [StrEnum ε] where
  name : String
  previous : Alert → ε
  assign : (a : Alert) → ε → (i : Instant) → a.updatedAt ≤ i → Alert
  sourceMatch_assign : ∀ a e i h, (assign a e i h).sourceMatch = a.sourceMatch
  items_assign : ∀ a e i h, (Dict.set a.items name (StrEnum.toValue e)).set "updated_at"
    (.datetime i.toDateTime) = (assign a e i h).items

def severityField : PolicyField AlertSeverity where
  name := "severity"
  previous a := a.severity
  assign a e i h := { a with severity := e, updatedAt := i, ordered := ⟨a.ordered.1, a.ordered.2.trans h⟩ }
  sourceMatch_assign _ _ _ _ := rfl
  items_assign _ _ _ _ := rfl

def priorityField : PolicyField AlertPriority where
  name := "priority"
  previous a := a.priority
  assign a e i h := { a with priority := e, updatedAt := i, ordered := ⟨a.ordered.1, a.ordered.2.trans h⟩ }
  sourceMatch_assign _ _ _ _ := rfl
  items_assign _ _ _ _ := rfl

section Update

variable [Runtime] {ε : Type} [StrEnum ε] [DecidableEq ε] (f : PolicyField ε) (a : Alert) (value changedAt : Value)

/-- **What an update does on an alert that can be read.** -/
theorem setPolicy_toValue (h : a.Readable) :
    setPolicy f.previous a.toValue f.name value changedAt =
      match StrEnum.ofMember? (ε := ε) value with
      | none => .error ⟨"invalid_value", f.name⟩
      | some member =>
        match normalizeChangeTime changedAt with
        | none => .error ⟨"invalid_changed_at", "changed_at"⟩
        | some i =>
          if h : i < a.updatedAt then .error ⟨"out_of_order_changed_at", "changed_at"⟩
          else if a.state = .closed then .error ⟨"closed_alert", "state"⟩
          else if member = f.previous a then .ok a
          else .ok (f.assign a member i (not_lt.mp h)) := by
  rw [setPolicy, readAlertSnapshot_toValue h]
  dsimp only
  cases hmember : StrEnum.ofMember? (ε := ε) value with
  | none => rfl
  | some member =>
    cases normalizeChangeTime changedAt with
    | none => rfl
    | some i =>
      dsimp only
      by_cases hi : i < a.updatedAt
      · rw [if_pos hi, dif_pos hi]
      · have hdumps : (f.assign a member i (not_lt.mp hi)).sourceMatch.Dumps := by
          rw [f.sourceMatch_assign]
          exact h.dumps
        rw [if_neg hi, dif_neg hi, StrEnum.toValue_of_ofMember? hmember,
          f.items_assign a member i (not_lt.mp hi), validateAlertFields_items hdumps]

/-- An alert that cannot be read is reported as invalid. -/
theorem setPolicy_of_not_readable (h : ¬ a.Readable) :
    setPolicy f.previous a.toValue f.name value changedAt = .error ⟨"invalid_alert", "alert"⟩ := by
  rw [setPolicy, readAlertSnapshot_of_not_readable h]

/-- What an update that succeeds has done. -/
theorem setPolicy_cases {a' : Alert} (h : setPolicy f.previous a.toValue f.name value changedAt = .ok a') :
    a.Readable ∧
      ∃ e i, ∃ hi : a.updatedAt ≤ i, value = StrEnum.toValue e ∧ normalizeChangeTime changedAt = some i ∧
        a.state ≠ .closed ∧ (e = f.previous a ∧ a' = a ∨ e ≠ f.previous a ∧ a' = f.assign a e i hi) := by
  by_cases hread : a.Readable
  · refine ⟨hread, ?_⟩
    rw [setPolicy_toValue f a value changedAt hread] at h
    cases hmember : StrEnum.ofMember? (ε := ε) value with
    | none => simp [hmember] at h
    | some member =>
      cases hi : normalizeChangeTime changedAt with
      | none => simp [hmember, hi] at h
      | some i =>
        rw [hmember, hi] at h
        dsimp only at h
        split_ifs at h with horder hclosed hsame
        · cases h
          exact ⟨member, i, not_lt.mp horder, StrEnum.toValue_of_ofMember? hmember, rfl, hclosed,
            Or.inl ⟨hsame, rfl⟩⟩
        · cases h
          exact ⟨member, i, not_lt.mp horder, StrEnum.toValue_of_ofMember? hmember, rfl, hclosed,
            Or.inr ⟨hsame, rfl⟩⟩
  · rw [setPolicy_of_not_readable f a value changedAt hread] at h
    cases h

/-- When an update succeeds, and which error it reports. -/
theorem setPolicy_guarded :
    Guarded
      [(a.Readable, ⟨"invalid_alert", "alert"⟩),
        (∃ e : ε, value = StrEnum.toValue e, ⟨"invalid_value", f.name⟩),
        (∃ i, normalizeChangeTime changedAt = some i, ⟨"invalid_changed_at", "changed_at"⟩),
        (∀ i, normalizeChangeTime changedAt = some i → a.updatedAt ≤ i,
          ⟨"out_of_order_changed_at", "changed_at"⟩),
        (a.state ≠ .closed, ⟨"closed_alert", "state"⟩)]
      (setPolicy f.previous a.toValue f.name value changedAt) := by
  by_cases hread : a.Readable
  · refine .pass hread ?_
    rw [setPolicy_toValue f a value changedAt hread]
    cases hmember : StrEnum.ofMember? (ε := ε) value with
    | none =>
      refine .fail ?_
      rintro ⟨e, rfl⟩
      simp at hmember
    | some member =>
      refine .pass ⟨member, StrEnum.toValue_of_ofMember? hmember⟩ ?_
      cases normalizeChangeTime changedAt with
      | none => exact .fail (by simp)
      | some i =>
        dsimp only
        refine .pass ⟨i, rfl⟩ ?_
        split_ifs with horder hclosed hsame
        · exact .fail (by simpa using horder)
        · exact .pass (by simpa using horder) (.fail (by simp [hclosed]))
        · exact .pass (by simpa using horder) (.pass hclosed (.ok _))
        · exact .pass (by simpa using horder) (.pass hclosed (.ok _))
  · rw [setPolicy_of_not_readable f a value changedAt hread]
    exact .fail hread

end Update

end SocLab
