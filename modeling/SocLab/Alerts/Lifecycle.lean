import SocLab.Alerts.Validation
import SocLab.Logic.Checks

/-!
# SocLab.Alerts.Lifecycle — explicit state transitions for immutable alerts

`alerts/lifecycle.py`.  `transition_toValue` says what a transition does on an alert that can be read: the
validation that the source repeats before and after an update never fails there.
-/

namespace SocLab

open Py Py.Validation Logic

/-- A lifecycle request failed with a safe reason and field name. -/
structure AlertTransitionError where
  reason : String
  field : String
  deriving DecidableEq

section Operations

variable [Runtime]

/-- `_transition`. -/
def transition (alert at_ : Value) (sourceState targetState : AlertState) :
    Except AlertTransitionError Alert :=
  match readAlertSnapshot alert with
  | none => .error ⟨"invalid_alert", "alert"⟩
  | some (current, fields) =>
    match normalizeChangeTime at_ with
    | none => .error ⟨"invalid_at", "at"⟩
    | some instant =>
      if instant < current.updatedAt then .error ⟨"out_of_order_at", "at"⟩
      -- the time is checked first, so a request without effect also fails with an earlier one
      else if current.state = targetState then .ok current
      else if current.state ≠ sourceState then .error ⟨"forbidden_transition", "state"⟩
      else
        let fields := fields.set "state" (StrEnum.toValue targetState)
        let fields := fields.set "state_changed_at" (.datetime instant.toDateTime)
        let fields := fields.set "updated_at" (.datetime instant.toDateTime)
        match validateAlertFields fields with
        | none => .error ⟨"invalid_alert", "alert"⟩
        | some updated => .ok updated

/-- Acknowledge a NEW alert or validate an ACKNOWLEDGED no-op. -/
def acknowledgeAlert (alert at_ : Value) : Except AlertTransitionError Alert :=
  transition alert at_ .new .acknowledged

/-- Close an ACKNOWLEDGED alert or validate a CLOSED no-op. -/
def closeAlert (alert at_ : Value) : Except AlertTransitionError Alert :=
  transition alert at_ .acknowledged .closed

end Operations

/-- The alert in another state from an instant on that is not before its last update. -/
def Alert.inState (a : Alert) (state : AlertState) (i : Instant) (h : a.updatedAt ≤ i) : Alert :=
  { a with
    state := state
    stateChangedAt := i
    updatedAt := i
    ordered := ⟨a.ordered.1.trans (a.ordered.2.trans h), le_rfl⟩ }

section Transition

variable (a : Alert) (at_ : Value) (sourceState targetState : AlertState)

theorem Alert.items_inState (i : Instant) (h : a.updatedAt ≤ i) :
    ((Dict.set a.items "state" (StrEnum.toValue targetState)).set "state_changed_at"
      (.datetime i.toDateTime)).set "updated_at" (.datetime i.toDateTime) =
      (a.inState targetState i h).items := rfl

variable [Runtime]

/-- **What a transition does on an alert that can be read.** -/
theorem transition_toValue (h : a.Readable) :
    transition a.toValue at_ sourceState targetState =
      match normalizeChangeTime at_ with
      | none => .error ⟨"invalid_at", "at"⟩
      | some i =>
        if h : i < a.updatedAt then .error ⟨"out_of_order_at", "at"⟩
        else if a.state = targetState then .ok a
        else if a.state ≠ sourceState then .error ⟨"forbidden_transition", "state"⟩
        else .ok (a.inState targetState i (not_lt.mp h)) := by
  rw [transition, readAlertSnapshot_toValue h]
  dsimp only
  cases normalizeChangeTime at_ with
  | none => rfl
  | some i =>
    dsimp only
    by_cases hi : i < a.updatedAt
    · rw [if_pos hi, dif_pos hi]
    · have hupdated : validateAlertFields (a.inState targetState i (not_lt.mp hi)).items =
          some (a.inState targetState i (not_lt.mp hi)) := validateAlertFields_items h.dumps
      rw [if_neg hi, dif_neg hi, a.items_inState targetState i (not_lt.mp hi), hupdated]

/-- An alert that cannot be read is reported as invalid. -/
theorem transition_of_not_readable (h : ¬ a.Readable) :
    transition a.toValue at_ sourceState targetState = .error ⟨"invalid_alert", "alert"⟩ := by
  rw [transition, readAlertSnapshot_of_not_readable h]

/-- What a transition that succeeds has done. -/
theorem transition_cases {a' : Alert}
    (h : transition a.toValue at_ sourceState targetState = .ok a') :
    a.Readable ∧ ∃ i, ∃ hi : a.updatedAt ≤ i, normalizeChangeTime at_ = some i ∧
      (a.state = targetState ∧ a' = a ∨
        a.state = sourceState ∧ a.state ≠ targetState ∧ a' = a.inState targetState i hi) := by
  by_cases hread : a.Readable
  · refine ⟨hread, ?_⟩
    rw [transition_toValue a at_ sourceState targetState hread] at h
    cases hi : normalizeChangeTime at_ with
    | none => simp [hi] at h
    | some i =>
      rw [hi] at h
      dsimp only at h
      split_ifs at h with horder htarget hsource
      · cases h
        exact ⟨i, not_lt.mp horder, rfl, Or.inl ⟨htarget, rfl⟩⟩
      · cases h
        exact ⟨i, not_lt.mp horder, rfl, Or.inr ⟨not_not.mp hsource, htarget, rfl⟩⟩
  · rw [transition_of_not_readable a at_ sourceState targetState hread] at h
    cases h

/-- When a transition succeeds, and which error it reports. -/
theorem transition_guarded :
    Guarded
      [(a.Readable, ⟨"invalid_alert", "alert"⟩),
        (∃ i, normalizeChangeTime at_ = some i, ⟨"invalid_at", "at"⟩),
        (∀ i, normalizeChangeTime at_ = some i → a.updatedAt ≤ i, ⟨"out_of_order_at", "at"⟩),
        (a.state = targetState ∨ a.state = sourceState, ⟨"forbidden_transition", "state"⟩)]
      (transition a.toValue at_ sourceState targetState) := by
  by_cases hread : a.Readable
  · refine .pass hread ?_
    rw [transition_toValue a at_ sourceState targetState hread]
    cases normalizeChangeTime at_ with
    | none => exact .fail (by simp)
    | some i =>
      dsimp only
      refine .pass ⟨i, rfl⟩ ?_
      split_ifs with horder htarget hsource
      · exact .fail (by simpa using horder)
      · exact .pass (by simpa using horder) (.pass (Or.inl htarget) (.ok _))
      · exact .pass (by simpa using horder) (.fail (by simp [htarget, hsource]))
      · exact .pass (by simpa using horder) (.pass (Or.inr (not_not.mp hsource)) (.ok _))
  · rw [transition_of_not_readable a at_ sourceState targetState hread]
    exact .fail hread

end Transition

end SocLab
