import SocLab.Alerts.Creation
import SocLab.Alerts.Lifecycle
import SocLab.Alerts.Policy
import SocLab.Logic.Run

/-!
# SocLab.Alerts.History — alerts over whole runs

A `Request` is a call of one of the four operations on the current alert; a request that raises leaves
it as it was.

* `effect_of_perform` says once what a request that succeeds has done; the invariants of runs are
  derived from it.
* `alert_history`: the timestamps, the states and the policy fields after any run.
* `reachable_operations`: every reachable alert reads back, and when the operations on it succeed.
-/

namespace SocLab

open Py Py.Validation Logic

inductive Request where
  | acknowledge (at_ : Value)
  | close (at_ : Value)
  | setSeverity (value changedAt : Value)
  | setPriority (value changedAt : Value)

namespace Request

/-- The instant that is given with a request. -/
def instant : Request → Option Instant
  | acknowledge at_ | close at_ => normalizeChangeTime at_
  | setSeverity _ changedAt | setPriority _ changedAt => normalizeChangeTime changedAt

/-- The value of a `set_severity`. -/
def severity : Request → Option Value
  | setSeverity value _ => some value
  | _ => none

/-- The value of a `set_priority`. -/
def priority : Request → Option Value
  | setPriority value _ => some value
  | _ => none

end Request

section Perform

variable [Runtime]

/-- A request on the current alert. -/
def perform (a : Alert) : Request → Except (AlertTransitionError ⊕ AlertPolicyError) Alert
  | .acknowledge at_ => (acknowledgeAlert a.toValue at_).mapError .inl
  | .close at_ => (closeAlert a.toValue at_).mapError .inl
  | .setSeverity value changedAt => (setSeverity a.toValue value changedAt).mapError .inr
  | .setPriority value changedAt => (setPriority a.toValue value changedAt).mapError .inr

end Perform

/-- What a request at the instant `i` does when it succeeds. -/
inductive Effect (a : Alert) (i : Instant) (h : a.updatedAt ≤ i) : Request → Alert → Prop
  | acknowledge {at_} : a.state = .new → Effect a i h (.acknowledge at_) (a.inState .acknowledged i h)
  | acknowledged {at_} : a.state = .acknowledged → Effect a i h (.acknowledge at_) a
  | close {at_} : a.state = .acknowledged → Effect a i h (.close at_) (a.inState .closed i h)
  | closed {at_} : a.state = .closed → Effect a i h (.close at_) a
  | severity {e changedAt} : a.state ≠ .closed → e ≠ a.severity →
      Effect a i h (.setSeverity (StrEnum.toValue e) changedAt) (severityField.assign a e i h)
  | sameSeverity {changedAt} : a.state ≠ .closed →
      Effect a i h (.setSeverity (StrEnum.toValue a.severity) changedAt) a
  | priority {e changedAt} : a.state ≠ .closed → e ≠ a.priority →
      Effect a i h (.setPriority (StrEnum.toValue e) changedAt) (priorityField.assign a e i h)
  | samePriority {changedAt} : a.state ≠ .closed →
      Effect a i h (.setPriority (StrEnum.toValue a.priority) changedAt) a

theorem ok_of_mapError {ε ε' α : Type} {f : ε → ε'} {x : Except ε α} {a : α}
    (h : x.mapError f = .ok a) : x = .ok a := by
  cases x with
  | ok b =>
    cases h
    rfl
  | error e => cases h

section Effect

variable [Runtime] {a a' : Alert} {r : Request}

/-- A request on an alert that cannot be read fails. -/
theorem readable_of_perform (h : perform a r = .ok a') : a.Readable := by
  cases r with
  | acknowledge at_ => exact (transition_cases a at_ .new .acknowledged (ok_of_mapError h)).1
  | close at_ => exact (transition_cases a at_ .acknowledged .closed (ok_of_mapError h)).1
  | setSeverity value changedAt => exact (setPolicy_cases severityField a value changedAt (ok_of_mapError h)).1
  | setPriority value changedAt => exact (setPolicy_cases priorityField a value changedAt (ok_of_mapError h)).1

/-- **What a request that succeeds has done.** -/
theorem effect_of_perform (h : perform a r = .ok a') :
    ∃ i, ∃ hi : a.updatedAt ≤ i, r.instant = some i ∧ Effect a i hi r a' := by
  cases r with
  | acknowledge at_ =>
    obtain ⟨-, i, hi, hinstant, hcases⟩ := transition_cases a at_ .new .acknowledged (ok_of_mapError h)
    rcases hcases with ⟨hstate, rfl⟩ | ⟨hstate, -, rfl⟩
    · exact ⟨i, hi, hinstant, .acknowledged hstate⟩
    · exact ⟨i, hi, hinstant, .acknowledge hstate⟩
  | close at_ =>
    obtain ⟨-, i, hi, hinstant, hcases⟩ := transition_cases a at_ .acknowledged .closed (ok_of_mapError h)
    rcases hcases with ⟨hstate, rfl⟩ | ⟨hstate, -, rfl⟩
    · exact ⟨i, hi, hinstant, .closed hstate⟩
    · exact ⟨i, hi, hinstant, .close hstate⟩
  | setSeverity value changedAt =>
    obtain ⟨-, e, i, hi, rfl, hinstant, hstate, hcases⟩ :=
      setPolicy_cases severityField a value changedAt (ok_of_mapError h)
    rcases hcases with ⟨rfl, rfl⟩ | ⟨hne, rfl⟩
    · exact ⟨i, hi, hinstant, .sameSeverity hstate⟩
    · exact ⟨i, hi, hinstant, .severity hstate hne⟩
  | setPriority value changedAt =>
    obtain ⟨-, e, i, hi, rfl, hinstant, hstate, hcases⟩ :=
      setPolicy_cases priorityField a value changedAt (ok_of_mapError h)
    rcases hcases with ⟨rfl, rfl⟩ | ⟨hne, rfl⟩
    · exact ⟨i, hi, hinstant, .samePriority hstate⟩
    · exact ⟨i, hi, hinstant, .priority hstate hne⟩

/-- **A request that has an effect succeeds on an alert that can be read.** -/
theorem perform_of_effect (hread : a.Readable) {i : Instant} (hi : a.updatedAt ≤ i) (hinstant : r.instant = some i)
    (h : Effect a i hi r a') : perform a r = .ok a' := by
  have htransition {at_ : Value} {sourceState targetState : AlertState} (hat : normalizeChangeTime at_ = some i) :
      transition a.toValue at_ sourceState targetState =
        if a.state = targetState then .ok a
        else if a.state ≠ sourceState then .error ⟨"forbidden_transition", "state"⟩
        else .ok (a.inState targetState i hi) := by
    rw [transition_toValue _ _ _ _ hread, hat]
    dsimp only
    rw [dif_neg (not_lt.mpr hi)]
  have hpolicy {ε : Type} [StrEnum ε] [DecidableEq ε] (f : PolicyField ε) {e : ε} {changedAt : Value}
      (hat : normalizeChangeTime changedAt = some i) (hactive : a.state ≠ .closed) :
      setPolicy f.previous a.toValue f.name (StrEnum.toValue e) changedAt =
        if e = f.previous a then .ok a else .ok (f.assign a e i hi) := by
    rw [setPolicy_toValue _ _ _ _ hread, StrEnum.ofMember?_toValue, hat]
    dsimp only
    rw [dif_neg (not_lt.mpr hi), if_neg hactive]
  have hmap {ε ε' : Type} {x : Except ε Alert} (f : ε → ε') (h : x = .ok a') : x.mapError f = .ok a' :=
    congrArg (Except.mapError f) h
  cases h with
  | acknowledge hstate => exact hmap _ ((htransition hinstant).trans (by simp [hstate]))
  | acknowledged hstate => exact hmap _ ((htransition hinstant).trans (if_pos hstate))
  | close hstate => exact hmap _ ((htransition hinstant).trans (by simp [hstate]))
  | closed hstate => exact hmap _ ((htransition hinstant).trans (if_pos hstate))
  | severity hactive hne => exact hmap _ ((hpolicy severityField hinstant hactive).trans (if_neg hne))
  | sameSeverity hactive => exact hmap _ ((hpolicy severityField hinstant hactive).trans (if_pos rfl))
  | priority hactive hne => exact hmap _ ((hpolicy priorityField hinstant hactive).trans (if_neg hne))
  | samePriority hactive => exact hmap _ ((hpolicy priorityField hinstant hactive).trans (if_pos rfl))

end Effect

/-! ### Runs -/

/-- The call changed the state. -/
def changesState (c : Call Alert Request) : Bool := c.before.state ≠ c.after.state

/-- The call changed the state, the severity or the priority. -/
def changesAlert (c : Call Alert Request) : Bool :=
  c.before.state ≠ c.after.state || c.before.severity ≠ c.after.severity ||
    c.before.priority ≠ c.after.priority

/-- The call gave a value and succeeded. -/
def succeedsWith [Runtime] (given : Request → Option Value) (c : Call Alert Request) : Bool :=
  (given c.request).isSome && (perform c.before c.request).isOk

/-- `b` is what the last call of some kind was given, or `b₀` when there was none. -/
def LastOf {β : Type} (given : Request → Option β) (last : Option (Call Alert Request)) (b₀ b : β) : Prop :=
  match last with
  | none => b = b₀
  | some c => given c.request = some b

section Runs

variable [Runtime] {a a' a₀ : Alert} {r : Request}

/-- A request either fails and changes nothing, or it succeeds with its effect. -/
theorem next_cases (a : Alert) (r : Request) :
    (perform a r).isOk = false ∧ next perform a r = a ∨
      (perform a r).isOk = true ∧
        ∃ i, ∃ hi : a.updatedAt ≤ i, r.instant = some i ∧ Effect a i hi r (next perform a r) := by
  cases h : perform a r with
  | error e => exact Or.inl ⟨rfl, next_of_error h⟩
  | ok a' =>
    rw [next_of_ok h]
    exact Or.inr ⟨rfl, effect_of_perform h⟩

/-- No operation touches the identity and the evidence. -/
theorem identity_of_perform (h : perform a r = .ok a') :
    a'.alertId = a.alertId ∧ a'.sourceMatch = a.sourceMatch ∧ a'.createdAt = a.createdAt := by
  obtain ⟨i, hi, -, heffect⟩ := effect_of_perform h
  cases heffect <;> exact ⟨rfl, rfl, rfl⟩

theorem state_of_perform (h : perform a r = .ok a') : a'.state = a.state ∨
    ∃ l t, [AlertState.new, .acknowledged, .closed] = l ++ a.state :: a'.state :: t := by
  obtain ⟨i, hi, -, heffect⟩ := effect_of_perform h
  cases heffect with
  | acknowledge hstate => exact Or.inr ⟨[], [.closed], by rw [hstate]; rfl⟩
  | close hstate => exact Or.inr ⟨[.new], [], by rw [hstate]; rfl⟩
  | _ => exact Or.inl rfl

/-- No operation changes a closed alert. -/
theorem eq_of_perform_closed (hclosed : a.state = .closed) (h : perform a r = .ok a') : a' = a := by
  obtain ⟨i, hi, -, heffect⟩ := effect_of_perform h
  cases heffect with
  | acknowledge hstate => rw [hclosed] at hstate; cases hstate
  | close hstate => rw [hclosed] at hstate; cases hstate
  | severity hstate => exact absurd hclosed hstate
  | priority hstate => exact absurd hclosed hstate
  | _ => rfl

/-- The state has its timestamp from the last call that changed it. -/
theorem stateChangedAt_run (rs : List Request) :
    LastOf Request.instant (lastCall perform changesState a₀ rs) a₀.stateChangedAt
      (run perform a₀ rs).stateChangedAt := by
  refine lastCall_rule (R := fun o a => LastOf Request.instant o a₀.stateChangedAt a.stateChangedAt) rfl
    (fun a r hchanged => ?_) (fun o a r hsame h => ?_) rs
  · have hne : a.state ≠ (next perform a r).state := of_decide_eq_true hchanged
    rcases next_cases a r with ⟨-, heq⟩ | ⟨-, i, hi, hinstant, heffect⟩
    · exact absurd (by rw [heq]) hne
    · show r.instant = some _
      rw [hinstant]
      generalize next perform a r = a' at hne heffect
      cases heffect with
      | acknowledge => rfl
      | close => rfl
      | _ => exact absurd rfl hne
  · have heq : a.state = (next perform a r).state := not_not.mp (of_decide_eq_false hsame)
    rcases next_cases a r with ⟨-, hnext⟩ | ⟨-, i, hi, -, heffect⟩
    · rwa [hnext]
    · generalize next perform a r = a' at heq heffect
      cases heffect with
      | acknowledge hstate => rw [hstate] at heq; cases heq
      | close hstate => rw [hstate] at heq; cases heq
      | _ => exact h

/-- The last update is the last call that changed the state or a policy field. -/
theorem updatedAt_run (rs : List Request) :
    LastOf Request.instant (lastCall perform changesAlert a₀ rs) a₀.updatedAt
      (run perform a₀ rs).updatedAt := by
  refine lastCall_rule (R := fun o a => LastOf Request.instant o a₀.updatedAt a.updatedAt) rfl
    (fun a r hchanged => ?_) (fun o a r hsame h => ?_) rs
  · rcases next_cases a r with ⟨-, heq⟩ | ⟨-, i, hi, hinstant, heffect⟩
    · simp [changesAlert, callOf, heq] at hchanged
    · show r.instant = some _
      rw [hinstant]
      rw [changesAlert, callOf] at hchanged
      generalize next perform a r = a' at hchanged heffect
      cases heffect with
      | acknowledge => rfl
      | close => rfl
      | severity => rfl
      | priority => rfl
      | _ => simp at hchanged
  · rcases next_cases a r with ⟨-, hnext⟩ | ⟨-, i, hi, -, heffect⟩
    · rwa [hnext]
    · rw [changesAlert, callOf] at hsame
      generalize next perform a r = a' at hsame heffect
      cases heffect with
      | acknowledge hstate => simp [hstate, Alert.inState] at hsame
      | close hstate => simp [hstate, Alert.inState] at hsame
      | severity _ hne => simp [severityField, hne.symm] at hsame
      | priority _ hne => simp [priorityField, hne.symm] at hsame
      | _ => exact h

/-- A field is as the last successful call that gave a value for it has set it. -/
theorem policy_run {given : Request → Option Value} (field : Alert → Value)
    (h : ∀ a i hi r a', Effect a i hi r a' →
      given r = some (field a') ∨ given r = none ∧ field a' = field a) (rs : List Request) :
    LastOf given (lastCall perform (succeedsWith given) a₀ rs) (field a₀) (field (run perform a₀ rs)) := by
  refine lastCall_rule (R := fun o a => LastOf given o (field a₀) (field a)) rfl
    (fun a r hset => ?_) (fun o a r hnot hlast => ?_) rs
  · rw [succeedsWith, callOf, Bool.and_eq_true] at hset
    rcases next_cases a r with ⟨hfailed, -⟩ | ⟨-, i, hi, -, heffect⟩
    · rw [hfailed] at hset
      cases hset.2
    · rcases h a i hi r _ heffect with hgiven | ⟨hnone, -⟩
      · exact hgiven
      · rw [hnone] at hset
        cases hset.1
  · rcases next_cases a r with ⟨-, hnext⟩ | ⟨hok, i, hi, -, heffect⟩
    · rwa [hnext]
    · rw [succeedsWith, callOf, hok, Bool.and_true] at hnot
      rcases h a i hi r _ heffect with hgiven | ⟨-, hsame⟩
      · rw [hgiven] at hnot
        cases hnot
      · rwa [hsame]

theorem severity_run (rs : List Request) :
    LastOf Request.severity (lastCall perform (succeedsWith Request.severity) a₀ rs)
      (StrEnum.toValue a₀.severity) (StrEnum.toValue (run perform a₀ rs).severity) := by
  refine policy_run (fun a => StrEnum.toValue a.severity) (fun a i hi r a' heffect => ?_) rs
  cases heffect with
  | severity => exact Or.inl rfl
  | sameSeverity => exact Or.inl rfl
  | _ => exact Or.inr ⟨rfl, rfl⟩

theorem priority_run (rs : List Request) :
    LastOf Request.priority (lastCall perform (succeedsWith Request.priority) a₀ rs)
      (StrEnum.toValue a₀.priority) (StrEnum.toValue (run perform a₀ rs).priority) := by
  refine policy_run (fun a => StrEnum.toValue a.priority) (fun a i hi r a' heffect => ?_) rs
  cases heffect with
  | priority => exact Or.inl rfl
  | samePriority => exact Or.inl rfl
  | _ => exact Or.inr ⟨rfl, rfl⟩

/-- **The history of an alert over any run**, from its creation on: identity and evidence, the order of
the timestamps, the states, when the state and the alert were last changed, the policy fields, and that
closed alerts stay as they are. -/
theorem alert_history {source id createdAt severity priority : Value}
    (h : createAlert source id createdAt severity priority = .ok a₀) (rs : List Request) :
    ((run perform a₀ rs).alertId = a₀.alertId ∧ (run perform a₀ rs).sourceMatch = a₀.sourceMatch ∧
        (run perform a₀ rs).createdAt = a₀.createdAt) ∧
      ((run perform a₀ rs).createdAt ≤ (run perform a₀ rs).stateChangedAt ∧
        (run perform a₀ rs).stateChangedAt ≤ (run perform a₀ rs).updatedAt ∧
        ∀ name ∈ alertTimestamps, ∃ d, (run perform a₀ rs).items.lookup name = some (.datetime d) ∧
          d.tzinfo = some .utc) ∧
      ((path perform a₀ rs).map (·.state)).destutter (· ≠ ·) <+: [.new, .acknowledged, .closed] ∧
      (∃ t₀, requireAwareUtcInstant createdAt = .ok t₀ ∧
        LastOf Request.instant (lastCall perform changesState a₀ rs) t₀
          (run perform a₀ rs).stateChangedAt ∧
        LastOf Request.instant (lastCall perform changesAlert a₀ rs) t₀ (run perform a₀ rs).updatedAt) ∧
      (LastOf Request.severity (lastCall perform (succeedsWith Request.severity) a₀ rs) severity
          (StrEnum.toValue (run perform a₀ rs).severity) ∧
        LastOf Request.priority (lastCall perform (succeedsWith Request.priority) a₀ rs) priority
          (StrEnum.toValue (run perform a₀ rs).priority)) ∧
      ((run perform a₀ rs).state = .closed →
        ∀ rs', run perform a₀ (rs ++ rs') = run perform a₀ rs) := by
  obtain ⟨-, hinstant, hseverity, hpriority, hcreated⟩ := createAlert_eq_ok h
  -- a new alert was neither changed nor updated
  have hstate : a₀.state = .new := by rw [hcreated]; rfl
  have hchanged : a₀.stateChangedAt = a₀.createdAt := by rw [hcreated]; rfl
  have hupdated : a₀.updatedAt = a₀.createdAt := by rw [hcreated]; rfl
  refine ⟨?_, ⟨(run perform a₀ rs).ordered.1, (run perform a₀ rs).ordered.2, ?_⟩, ?_,
    ⟨a₀.createdAt, hinstant, ?_, ?_⟩, ⟨?_, ?_⟩, ?_⟩
  · refine run_invariant (P := fun a : Alert => a.alertId = a₀.alertId ∧ a.sourceMatch = a₀.sourceMatch ∧
      a.createdAt = a₀.createdAt) ⟨rfl, rfl, rfl⟩ (fun a r a' hperform ha => ?_) rs
    obtain ⟨hid, hmatch, hcreated⟩ := identity_of_perform hperform
    rwa [hid, hmatch, hcreated]
  · simp only [alertTimestamps, List.forall_mem_cons]
    exact ⟨⟨_, rfl, rfl⟩, ⟨_, rfl, rfl⟩, ⟨_, rfl, rfl⟩, by simp⟩
  · refine path_destutter_prefix (by decide) ?_ (fun a r a' => state_of_perform) rs
    rw [hstate]
    exact ⟨_, rfl⟩
  · rw [← hchanged]
    exact stateChangedAt_run rs
  · rw [← hupdated]
    exact updatedAt_run rs
  · rw [hseverity]
    exact severity_run rs
  · rw [hpriority]
    exact priority_run rs
  · intro hclosed rs'
    rw [run_append]
    exact run_of_stuck (fun r a' => eq_of_perform_closed hclosed) rs'

end Runs

/-- A new alert, created at the first instant. -/
def exampleAlert (id : AlertId) (priority : AlertPriority) : Alert :=
  .created exampleMatch id ⟨0, by decide⟩ .unassigned priority

/-- An instant after it. -/
def exampleInstant (n : Fin 8) : Instant := ⟨n.castLE (by decide)⟩

def exampleTime (n : Fin 8) : Value := .datetime (exampleInstant n).toDateTime

section Example

variable [Runtime] (id : AlertId) (priority : AlertPriority)

theorem readable_exampleAlert : (exampleAlert id priority).Readable :=
  ⟨exampleMatch_copyable.2.1, exampleMatch_copyable.1⟩

theorem createAlert_exampleAlert : createAlert exampleMatch.toValue (.str id) (exampleTime 0)
    (StrEnum.toValue AlertSeverity.unassigned) (StrEnum.toValue priority) = .ok (exampleAlert id priority) :=
  createAlert_ok exampleMatch_copyable.2 id (requireAwareUtcInstant_toDateTime _) .unassigned priority

end Example

theorem alert_history_example : ∃ (_ : Runtime) (a : Alert), createAlert exampleMatch.toValue (.str "alice-1")
      (exampleTime 0) = .ok a ∧
    (run perform a [.close (exampleTime 1), .acknowledge (exampleTime 2), .close (exampleTime 3)]).alertId =
      a.alertId := by
  have h := @createAlert_exampleAlert .ordinary ⟨"alice-1", by decide⟩ .normal
  exact ⟨.ordinary, _, h, (@alert_history .ordinary _ _ _ _ _ _ h _).1.1⟩

/-! ### Reachable alerts -/

section Reachable

variable [Runtime]

/-- The values that a creation and any operations on its result give. -/
inductive Reachable : Value → Prop
  | created {source id createdAt severity priority a} :
      createAlert source id createdAt severity priority = .ok a → Reachable a.toValue
  | acknowledged {v at_ a} : Reachable v → acknowledgeAlert v at_ = .ok a → Reachable a.toValue
  | closed {v at_ a} : Reachable v → closeAlert v at_ = .ok a → Reachable a.toValue
  | severity {v value changedAt a} : Reachable v → setSeverity v value changedAt = .ok a →
      Reachable a.toValue
  | priority {v value changedAt a} : Reachable v → setPriority v value changedAt = .ok a →
      Reachable a.toValue

theorem Reachable.exists_alert {v : Value} (h : Reachable v) : ∃ a : Alert, v = a.toValue := by
  cases h <;> exact ⟨_, rfl⟩

/-- A request leads from a reachable alert to another one. -/
theorem Reachable.perform {a a' : Alert} {r : Request} (h : Reachable a.toValue)
    (hperform : perform a r = .ok a') : Reachable a'.toValue := by
  cases r with
  | acknowledge at_ => exact .acknowledged h (ok_of_mapError hperform)
  | close at_ => exact .closed h (ok_of_mapError hperform)
  | setSeverity value changedAt => exact .severity h (ok_of_mapError hperform)
  | setPriority value changedAt => exact .priority h (ok_of_mapError hperform)

/-- A reachable alert was created, or a request returned it that was made on a reachable alert. -/
theorem Reachable.last {v : Value} (h : Reachable v) :
    (∃ source id createdAt severity priority a, createAlert source id createdAt severity priority = .ok a ∧
      v = a.toValue) ∨ ∃ b r a, Reachable (Alert.toValue b) ∧ SocLab.perform b r = .ok a ∧ v = a.toValue := by
  have hmap {ε ε' : Type} {x : Except ε Alert} {a : Alert} (f : ε → ε') (h : x = .ok a) : x.mapError f = .ok a :=
    congrArg (Except.mapError f) h
  cases h with
  | created hcreate => exact Or.inl ⟨_, _, _, _, _, _, hcreate, rfl⟩
  | @acknowledged v at_ a hv hcall =>
    obtain ⟨b, rfl⟩ := hv.exists_alert
    exact Or.inr ⟨b, .acknowledge at_, a, hv, hmap _ hcall, rfl⟩
  | @closed v at_ a hv hcall =>
    obtain ⟨b, rfl⟩ := hv.exists_alert
    exact Or.inr ⟨b, .close at_, a, hv, hmap _ hcall, rfl⟩
  | @severity v value changedAt a hv hcall =>
    obtain ⟨b, rfl⟩ := hv.exists_alert
    exact Or.inr ⟨b, .setSeverity value changedAt, a, hv, hmap _ hcall, rfl⟩
  | @priority v value changedAt a hv hcall =>
    obtain ⟨b, rfl⟩ := hv.exists_alert
    exact Or.inr ⟨b, .setPriority value changedAt, a, hv, hmap _ hcall, rfl⟩

/-- The evidence of a reachable alert can be dumped, as it was when the alert was created. -/
theorem Reachable.nesting_le {v : Value} (h : Reachable v) :
    ∀ a : Alert, v = a.toValue → a.sourceMatch.toValue.nesting ≤ Runtime.nesting := by
  intro a ha
  rcases h.last with ⟨_, _, _, _, _, a', hcreate, rfl⟩ | ⟨b, r, a', -, hperform, rfl⟩
  · obtain rfl := Alert.toValue_injective ha
    have hown := (createAlert_eq_ok hcreate).1
    exact Value.nesting_le_of_isSnapshot (isSnapshot_of_ownValidatedMatch hown) (ownValidatedMatch_cases hown).1.1
  · obtain rfl := Alert.toValue_injective ha
    -- an operation returns the evidence that it read
    rw [(identity_of_perform hperform).2.1]
    exact (readable_of_perform hperform).nesting

/-- A reachable alert can be read exactly when its evidence can be copied. -/
theorem Reachable.readable_iff {a : Alert} (h : Reachable a.toValue) : a.Readable ↔ a.sourceMatch.Copyable :=
  ⟨fun hread => hread.copies, fun hcopy => ⟨h.nesting_le a rfl, hcopy⟩⟩

end Reachable

/-- The datetime is aware and its instant is a UTC datetime. -/
def UtcInstant (t : DateTime) (i : Instant) : Prop := t.Aware ∧ t.astimezone = .ok i

theorem normalizeChangeTime_datetime {t : DateTime} {i : Instant} :
    normalizeChangeTime (.datetime t) = some i ↔ UtcInstant t i := by
  unfold normalizeChangeTime requireAwareUtcInstant UtcInstant DateTime.Aware
  dsimp only
  split
  · next o ho => cases hutc : t.astimezone <;> simp [ho, Except.toOption]
  · next ho => simp [ho, Except.toOption]
  · next e he => simp [he, Except.toOption]

section Operations

variable [Runtime]

/-- A transition succeeds or fails by its contract, and never because the alert is invalid. -/
def TransitionKept (a : Alert) (t : DateTime) (sourceState targetState : AlertState)
    (x : Except AlertTransitionError Alert) : Prop :=
  Guarded
      [(∃ i, UtcInstant t i, ⟨"invalid_at", "at"⟩),
        (∀ i, UtcInstant t i → a.updatedAt ≤ i, ⟨"out_of_order_at", "at"⟩),
        (a.state = targetState ∨ a.state = sourceState, ⟨"forbidden_transition", "state"⟩)] x ∧
    x ≠ .error ⟨"invalid_alert", "alert"⟩

/-- An update of a field succeeds or fails by its contract, and never because the alert is invalid. -/
def PolicyKept (ε : Type) [StrEnum ε] (field : String) (a : Alert) (value : Value) (t : DateTime)
    (x : Except AlertPolicyError Alert) : Prop :=
  Guarded
      [(∃ e : ε, value = StrEnum.toValue e, ⟨"invalid_value", field⟩),
        (∃ i, UtcInstant t i, ⟨"invalid_changed_at", "changed_at"⟩),
        (∀ i, UtcInstant t i → a.updatedAt ≤ i, ⟨"out_of_order_changed_at", "changed_at"⟩),
        (a.state ≠ .closed, ⟨"closed_alert", "state"⟩)] x ∧
    x ≠ .error ⟨"invalid_alert", "alert"⟩

/-- The alert reads back, and the operations on it keep their contracts. -/
structure OperationsKept (a : Alert) : Prop where
  read : readAlertSnapshot a.toValue = some (a, a.items)
  acknowledge : ∀ t, TransitionKept a t .new .acknowledged (acknowledgeAlert a.toValue (.datetime t))
  close : ∀ t, TransitionKept a t .acknowledged .closed (closeAlert a.toValue (.datetime t))
  severity : ∀ value t, PolicyKept AlertSeverity "severity" a value t (setSeverity a.toValue value (.datetime t))
  priority : ∀ value t, PolicyKept AlertPriority "priority" a value t (setPriority a.toValue value (.datetime t))

/-- Every operation reports the alert as invalid. -/
structure OperationsRefused (a : Alert) : Prop where
  read : readAlertSnapshot a.toValue = none
  acknowledge : ∀ at_, acknowledgeAlert a.toValue at_ = .error ⟨"invalid_alert", "alert"⟩
  close : ∀ at_, closeAlert a.toValue at_ = .error ⟨"invalid_alert", "alert"⟩
  severity : ∀ value changedAt, setSeverity a.toValue value changedAt = .error ⟨"invalid_alert", "alert"⟩
  priority : ∀ value changedAt, setPriority a.toValue value changedAt = .error ⟨"invalid_alert", "alert"⟩

variable {a : Alert}

theorem operationsKept_of_readable (h : a.Readable) : OperationsKept a := by
  have htransition (t : DateTime) (sourceState targetState : AlertState) :
      TransitionKept a t sourceState targetState (transition a.toValue (.datetime t) sourceState targetState) := by
    have hguarded := (transition_guarded a (.datetime t) sourceState targetState).of_pass h
    simp only [normalizeChangeTime_datetime] at hguarded
    exact ⟨hguarded, hguarded.ne_error (by simp)⟩
  have hpolicy {ε : Type} [StrEnum ε] [DecidableEq ε] (f : PolicyField ε) (value : Value) (t : DateTime) :
      PolicyKept ε f.name a value t (setPolicy f.previous a.toValue f.name value (.datetime t)) := by
    have hguarded := (setPolicy_guarded f a value (.datetime t)).of_pass h
    simp only [normalizeChangeTime_datetime] at hguarded
    exact ⟨hguarded, hguarded.ne_error (by simp)⟩
  exact {
    read := readAlertSnapshot_toValue h
    acknowledge := fun t => htransition t .new .acknowledged
    close := fun t => htransition t .acknowledged .closed
    severity := hpolicy severityField
    priority := hpolicy priorityField }

theorem operationsRefused_of_not_readable (h : ¬ a.Readable) : OperationsRefused a where
  read := readAlertSnapshot_of_not_readable h
  acknowledge at_ := transition_of_not_readable a at_ .new .acknowledged h
  close at_ := transition_of_not_readable a at_ .acknowledged .closed h
  severity value changedAt := setPolicy_of_not_readable severityField a value changedAt h
  priority value changedAt := setPolicy_of_not_readable priorityField a value changedAt h

/-- **Reachable alerts read back, and the operations on them succeed exactly when the contract says**, with the
error of the first condition that fails and never that the alert is invalid, exactly when the evidence can be
copied; otherwise every operation reports an invalid alert. -/
theorem reachable_operations {v : Value} (h : Reachable v) :
    ∃ a : Alert, v = a.toValue ∧ (OperationsKept a ↔ a.sourceMatch.Copyable) ∧
      (OperationsRefused a ↔ ¬ a.sourceMatch.Copyable) := by
  obtain ⟨a, rfl⟩ := h.exists_alert
  have hexclusive (hkept : OperationsKept a) : ¬ OperationsRefused a := by
    intro hrefused
    cases hkept.read.symm.trans hrefused.read
  refine ⟨a, rfl, ?_⟩
  rw [← h.readable_iff]
  by_cases hread : a.Readable
  · have hkept := operationsKept_of_readable hread
    exact ⟨iff_of_true hkept hread, iff_of_false (hexclusive hkept) (not_not_intro hread)⟩
  · have hrefused := operationsRefused_of_not_readable hread
    exact ⟨iff_of_false (fun hkept => hexclusive hkept hrefused) hread, iff_of_true hrefused hread⟩

end Operations

/-- An alert that was acknowledged and assigned a severity. -/
theorem reachable_operations_example : ∃ (_ : Runtime) (a : Alert), Reachable a.toValue ∧ a.state = .acknowledged ∧
    a.severity = .high ∧ a.updatedAt = exampleInstant 2 ∧ OperationsKept a := by
  let runtime := Runtime.ordinary
  have h₀ := Reachable.created (createAlert_exampleAlert ⟨"alice-1", by decide⟩ .normal)
  have hread := readable_exampleAlert ⟨"alice-1", by decide⟩ .normal
  have hlater : exampleInstant 0 ≤ exampleInstant 1 ∧ exampleInstant 1 ≤ exampleInstant 2 := by decide
  have h₁ := h₀.perform (perform_of_effect (r := .acknowledge (exampleTime 1)) hread hlater.1 rfl (.acknowledge rfl))
  have h₂ := h₁.perform (perform_of_effect (r := .setSeverity (StrEnum.toValue AlertSeverity.high) (exampleTime 2))
    (hread.of_sourceMatch rfl) hlater.2 rfl (.severity nofun nofun))
  obtain ⟨a, ha, hkept, -⟩ := reachable_operations h₂
  obtain rfl := Alert.toValue_injective ha
  exact ⟨runtime, _, h₂, rfl, rfl, rfl, hkept.mpr exampleMatch_copyable.1⟩

/-- With 1000 frames an alert for a trace of 170 negations is created, and refused from then on. -/
theorem reachable_operations_deep : ∃ (runtime : Runtime) (a : Alert), runtime.frames = 1000 ∧
    createAlert deepMatch.toValue (.str "alice-1") (.datetime NormalizedEvent.exampleLogon.timestamp) = .ok a ∧
    readAlertSnapshot a.toValue = none ∧
    acknowledgeAlert a.toValue (.datetime NormalizedEvent.exampleLogon.timestamp) =
      .error ⟨"invalid_alert", "alert"⟩ := by
  let runtime := Runtime.ordinary
  obtain ⟨hdumps, hcopy⟩ := deepMatch_dumps
  have hcreate := createAlert_ok hdumps ⟨"alice-1", by decide⟩ (t := NormalizedEvent.exampleLogon.timestamp) rfl
    .unassigned .normal
  have hrefused := operationsRefused_of_not_readable (a := .created deepMatch ⟨"alice-1", by decide⟩
    ⟨63900000000000000, by decide⟩ .unassigned .normal) fun hread => hcopy hread.copies
  exact ⟨runtime, _, rfl, hcreate, hrefused.read, hrefused.acknowledge _⟩

end SocLab
