import SocLab.Alerts.History
import SocLab.Alerts.Queue
import SocLab.Logic.Delivery
import SocLab.Logic.Fleet

/-!
# SocLab.Alerts.Session — the analyst queue while its alerts are worked on

The operations are functions of one alert, and their caller holds the collection that `list_alerts` is
called with.  A call that succeeds replaces the alert that it was made on, and one that raises leaves it.

* `session_queue`: after any interleaving of calls the collection is listed, nothing is lost, and an alert
  that has left the queue of active alerts does not come back.
* `session_redelivery`: calls with increasing instants, delivered at least once, amount to calls made once.
* `queue_after_operation`: where an alert stands after one operation; the others keep their order.
* `queue_narrowed`: a queue can be listed again with further filters, and filters compose.
-/

namespace SocLab

open Py Py.Validation Logic

section Perform

variable [Runtime]

/-- The collection after calls on its alerts, each addressed by the id of an alert. -/
def session (as : List Alert) (rs : List (String × Request)) : List Alert :=
  serve perform (fun a => a.alertId.val) as rs

theorem alertId_of_perform (a : Alert) (r : Request) (a' : Alert) (h : perform a r = .ok a') :
    a'.alertId.val = a.alertId.val := by
  rw [(identity_of_perform h).1]

/-- The alert after a call that has an effect. -/
theorem run_cons_of_effect {a a' : Alert} {r : Request} (hread : a.Readable) {i : Instant} (hi : a.updatedAt ≤ i)
    (hinstant : r.instant = some i) (h : Effect a i hi r a') (rs : List Request) :
    run perform a (r :: rs) = run perform a' rs := by
  rw [run, List.foldl_cons, next_of_ok (perform_of_effect hread hi hinstant h)]
  rfl

end Perform

section Listing

variable [Runtime] {as as' q : List Alert} {states severities priorities : FilterArg}

/-- **The queue of alerts**: it is returned when they can be read, have distinct ids and the filters are well
formed. -/
theorem listAlerts_map_eq_ok :
    listAlerts (.of (as.map Alert.toValue)) states severities priorities = .ok q ↔
      ((∀ a ∈ as, a.Readable) ∧ (as.map (·.alertId.val)).Nodup) ∧
        FiltersWellFormed states severities priorities ∧
        q = sorted queueKey (as.filter (passes states severities priorities)) := by
  rw [listAlerts_eq_ok, accepted_map_toValue_iff]
  refine and_congr_right fun h => ?_
  rw [snapshots_map_toValue h.1]

theorem mem_of_listAlerts_map
    (h : listAlerts (.of (as.map Alert.toValue)) states severities priorities = .ok q) (a : Alert) :
    a ∈ q ↔ a ∈ as ∧ Selected states severities priorities a := by
  rw [mem_of_listAlerts h, snapshots_map_toValue (listAlerts_map_eq_ok.mp h).1.1]

/-- The alerts that a second listing selects of a first one. -/
theorem listAlerts_listAlerts {entries : List Value} {states' severities' priorities' : FilterArg}
    (h : listAlerts (.of entries) states severities priorities = .ok q)
    (hfilters' : FiltersWellFormed states' severities' priorities') :
    listAlerts (.of (q.map Alert.toValue)) states' severities' priorities' =
      .ok (q.filter (passes states' severities' priorities')) := by
  obtain ⟨hids, -⟩ := listAlerts_map_eq_ok.mp (listAlerts_idempotent h)
  have hlt : (q.filter (passes states' severities' priorities')).Pairwise
      (fun a b => queueKey a < queueKey b) := (pairwise_of_listAlerts h).filter _
  exact listAlerts_map_eq_ok.mpr ⟨hids, hfilters', (sorted_of_pairwise queueKey (hlt.imp fun hab => hab.le)).symm⟩

/-- **A queue is a collection that can be listed again, and filters compose.**  Listing a queue with further
filters never fails and keeps its order; the order of the two listings does not matter; and filters that select
what both select give the same queue at once. -/
theorem queue_narrowed {entries : List Value} {q : List Alert} {states' severities' priorities' : FilterArg}
    (h : listAlerts (.of entries) states severities priorities = .ok q)
    (hfilters' : FiltersWellFormed states' severities' priorities') :
    ∃ q', listAlerts (.of (q.map Alert.toValue)) states' severities' priorities' = .ok q' ∧
      q'.Sublist q ∧ (∀ a, a ∈ q' ↔ a ∈ q ∧ Selected states' severities' priorities' a) ∧
      (∃ r, listAlerts (.of entries) states' severities' priorities' = .ok r ∧
        listAlerts (.of (r.map Alert.toValue)) states severities priorities = .ok q') ∧
      ∀ states'' severities'' priorities'', FiltersWellFormed states'' severities'' priorities'' →
        (∀ a, Selected states'' severities'' priorities'' a ↔
          Selected states severities priorities a ∧ Selected states' severities' priorities' a) →
        listAlerts (.of entries) states'' severities'' priorities'' = .ok q' := by
  obtain ⟨haccepted, hfilters, hq⟩ := listAlerts_eq_ok.mp h
  have hselects {s v p : FilterArg} (hwf : FiltersWellFormed s v p) (a : Alert) :
      passes s v p a = true ↔ Selected s v p a := matching_iff hwf.1 hwf.2.1 hwf.2.2 a
  -- a queue is what its filters leave of the sorted snapshots
  have hlisted {s v p : FilterArg} (hwf : FiltersWellFormed s v p) :
      listAlerts (.of entries) s v p = .ok ((sorted queueKey (snapshots entries)).filter (passes s v p)) := by
    rw [← sorted_filter queueKey _ haccepted.nodup_keys]
    exact listAlerts_eq_ok.mpr ⟨haccepted, hwf, rfl⟩
  rw [sorted_filter queueKey _ haccepted.nodup_keys] at hq
  refine ⟨_, listAlerts_listAlerts h hfilters', List.filter_sublist, fun a => ?_,
    ⟨_, hlisted hfilters', ?_⟩, fun states'' severities'' priorities'' hwf'' hboth => ?_⟩
  · rw [List.mem_filter, hselects hfilters']
  · rw [listAlerts_listAlerts (hlisted hfilters') hfilters, hq, List.filter_comm]
  · rw [hlisted hwf'', hq, List.filter_filter]
    congr 1
    refine List.filter_congr fun a _ => ?_
    rw [Bool.eq_iff_iff, Bool.and_eq_true, hselects hwf'', hselects hfilters, hselects hfilters', hboth]
    exact and_comm

end Listing

/-! Three alerts, of which one was acknowledged. -/

def aliceAlert : Alert := exampleAlert ⟨"alice-1", by decide⟩ .normal

def bobAlert : Alert := exampleAlert ⟨"bob-1", by decide⟩ .high

def carolAlert : Alert :=
  (exampleAlert ⟨"carol-1", by decide⟩ .high).inState .acknowledged (exampleInstant 1) (by decide)

section Example

variable [Runtime]

theorem readable_aliceAlert : aliceAlert.Readable := readable_exampleAlert ⟨"alice-1", by decide⟩ .normal

theorem readable_bobAlert : bobAlert.Readable := readable_exampleAlert ⟨"bob-1", by decide⟩ .high

theorem readable_carolAlert : carolAlert.Readable :=
  (readable_exampleAlert ⟨"carol-1", by decide⟩ .high).of_sourceMatch (by rw [carolAlert, Alert.inState])

/-- They are listed by priority, and then by id. -/
theorem listAlerts_examples : listAlerts (.of ([carolAlert, aliceAlert, bobAlert].map Alert.toValue)) =
    .ok [bobAlert, carolAlert, aliceAlert] := by
  refine listAlerts_map_eq_ok.mpr ⟨⟨?_, by decide⟩, ⟨trivial, trivial, trivial⟩, rfl⟩
  simp only [List.forall_mem_cons]
  exact ⟨readable_carolAlert, readable_aliceAlert, readable_bobAlert, by simp⟩

end Example

/-- The alerts of high priority, and the acknowledged ones of them. -/
theorem queue_narrowed_example : ∃ (_ : Runtime) (states priorities : FilterArg),
    listAlerts (.of ([carolAlert, aliceAlert, bobAlert].map Alert.toValue)) .none .none priorities =
      .ok [bobAlert, carolAlert] ∧
    listAlerts (.of ([bobAlert, carolAlert].map Alert.toValue)) states = .ok [carolAlert] ∧
    listAlerts (.of ([carolAlert, aliceAlert, bobAlert].map Alert.toValue)) states .none priorities =
      .ok [carolAlert] := by
  let runtime := Runtime.ordinary
  let priorities := FilterArg.set [StrEnum.toValue AlertPriority.high]
  let states := FilterArg.set [StrEnum.toValue AlertState.acknowledged]
  have hpriorities : FiltersWellFormed .none .none priorities := ⟨trivial, trivial, by decide, by simp⟩
  have hstates : FiltersWellFormed states .none .none := ⟨⟨by decide, by simp⟩, trivial, trivial⟩
  have hhigh : listAlerts (.of ([carolAlert, aliceAlert, bobAlert].map Alert.toValue)) .none .none priorities =
      .ok [bobAlert, carolAlert] :=
    listAlerts_map_eq_ok.mpr ⟨(listAlerts_map_eq_ok.mp listAlerts_examples).1, hpriorities, rfl⟩
  obtain ⟨q', hq', -, -, -, hboth⟩ := queue_narrowed hhigh hstates
  obtain rfl : q' = [carolAlert] := (listAlerts_map_eq_ok.mp hq').2.2
  refine ⟨runtime, states, priorities, hhigh, hq', ?_⟩
  refine hboth states .none priorities ⟨hstates.1, trivial, hpriorities.2.2⟩ fun a => ?_
  have hactive : StrEnum.toValue a.state ∈ [StrEnum.toValue AlertState.acknowledged] → a.state ∈ activeStates := by
    rw [List.mem_singleton]
    intro h
    rw [StrEnum.toValue_injective h]
    decide
  simp only [Selected, FilterArg.Admits, states, priorities, true_and, and_true]
  tauto

/-! ### Any interleaving of calls -/

section Session

variable [Runtime] {as : List Alert} {rs : List (String × Request)}

theorem session_eq_map (as : List Alert) (rs : List (String × Request)) :
    session as rs = as.map fun a => run perform a (requestsFor a.alertId.val rs) :=
  serve_eq_map alertId_of_perform as rs

theorem map_id_session (as : List Alert) (rs : List (String × Request)) :
    (session as rs).map (·.alertId.val) = as.map (·.alertId.val) := map_key_serve alertId_of_perform as rs

theorem nodup_session (hids : (as.map (·.alertId.val)).Nodup) (rs : List (String × Request)) :
    ((session as rs).map (·.alertId.val)).Nodup := by
  rw [map_id_session]
  exact hids

theorem mem_session {a' : Alert} : a' ∈ session as rs ↔
    ∃ a ∈ as, a' = run perform a (requestsFor a.alertId.val rs) := by
  rw [session_eq_map, List.mem_map]
  exact exists_congr fun a => and_congr_right fun _ => eq_comm

/-- No request touches the evidence. -/
theorem sourceMatch_run (a : Alert) (rs : List Request) : (run perform a rs).sourceMatch = a.sourceMatch :=
  run_invariant (P := fun b : Alert => b.sourceMatch = a.sourceMatch) rfl
    (fun _ _ _ hperform h => (identity_of_perform hperform).2.1.trans h) rs

theorem map_sourceMatch_session (as : List Alert) (rs : List (String × Request)) :
    (session as rs).map (·.sourceMatch) = as.map (·.sourceMatch) := by
  rw [session_eq_map, List.map_map]
  exact List.map_congr_left fun a _ => sourceMatch_run a _

/-- So an alert that can be read can be read again after any calls. -/
theorem readable_run (a : Alert) (rs : List Request) : (run perform a rs).Readable ↔ a.Readable :=
  ⟨fun h => h.of_sourceMatch (sourceMatch_run a rs).symm, fun h => h.of_sourceMatch (sourceMatch_run a rs)⟩

theorem readable_session : (∀ a' ∈ session as rs, a'.Readable) ↔ ∀ a ∈ as, a.Readable := by
  rw [session_eq_map, List.forall_mem_map]
  exact forall₂_congr fun a _ => readable_run a _

/-- A closed alert stays closed. -/
theorem state_run_of_closed {a : Alert} (hclosed : a.state = .closed) (rs : List Request) :
    (run perform a rs).state = .closed := by
  have hstuck : run perform a rs = a := run_of_stuck (fun r a' => eq_of_perform_closed hclosed) rs
  rw [hstuck]
  exact hclosed

omit [Runtime] in
/-- Without filters the queue is about the alerts that are not closed. -/
theorem selected_none {a : Alert} : Selected .none .none .none a ↔ a.state ≠ .closed := by
  simp only [Selected, FilterArg.Admits, activeStates, and_true]
  cases a.state <;> decide

/-- **The queue over any interleaving of calls**: the collection is listed exactly when its alerts could be read
at first; what the queue holds of an alert comes from the calls on that alert alone, in whichever order calls on
different alerts are made; every alert is still there; and what stands on the queue of active alerts stood there
before. -/
theorem session_queue (hids : (as.map (·.alertId.val)).Nodup) (rs : List (String × Request)) :
    (∀ states severities priorities, FiltersWellFormed states severities priorities →
      ((∃ q, listAlerts (.of ((session as rs).map Alert.toValue)) states severities priorities = .ok q) ↔
        ∀ a ∈ as, a.Readable)) ∧
    (∀ states severities priorities q,
      listAlerts (.of ((session as rs).map Alert.toValue)) states severities priorities = .ok q →
      (∀ a', a' ∈ q ↔ (∃ a ∈ as, a' = run perform a (requestsFor a.alertId.val rs)) ∧
        Selected states severities priorities a') ∧
      ∀ as' rs', as.Perm as' → (∀ id, requestsFor id rs = requestsFor id rs') →
        listAlerts (.of ((session as' rs').map Alert.toValue)) states severities priorities = .ok q) ∧
    ((∀ a ∈ as, a.Readable) → ∃ whole,
      listAlerts (.of ((session as rs).map Alert.toValue)) allStates = .ok whole ∧
        (whole.map (·.alertId.val)).Perm (as.map (·.alertId.val))) ∧
    ∀ rs' q q', listAlerts (.of ((session as rs).map Alert.toValue)) = .ok q →
      listAlerts (.of ((session as (rs ++ rs')).map Alert.toValue)) = .ok q' →
      ∀ a' ∈ q', ∃ a ∈ q, a' = run perform a (requestsFor a.alertId.val rs') := by
  have hsession := nodup_session hids rs
  refine ⟨fun states severities priorities hfilters => ⟨?_, fun hread => ?_⟩,
    fun states severities priorities q hq => ⟨fun a' => ?_, fun as' rs' hperm hrequests => ?_⟩, fun hread => ?_, ?_⟩
  · rintro ⟨q, hq⟩
    exact readable_session.mp (listAlerts_map_eq_ok.mp hq).1.1
  · exact ⟨_, listAlerts_map_eq_ok.mpr ⟨⟨readable_session.mpr hread, hsession⟩, hfilters, rfl⟩⟩
  · rw [mem_of_listAlerts_map hq, mem_session]
  -- the order of alerts and the interleaving of their requests change the list only
  · have hsame : (session as rs).Perm (session as' rs') :=
      serve_interleaving alertId_of_perform hperm hrequests
    exact listAlerts_perm hq (hsame.map _)
  · have hfilters : FiltersWellFormed allStates .none .none := ⟨allStates_wellFormed, trivial, trivial⟩
    refine ⟨_, listAlerts_map_eq_ok.mpr ⟨⟨readable_session.mpr hread, hsession⟩, hfilters, rfl⟩, ?_⟩
    rw [List.filter_eq_self.mpr fun a _ => passes_allStates a, ← map_id_session as rs]
    exact (sorted_perm queueKey _).map _
  · intro rs' q q' hq hq' a' ha'
    -- the session resumed: an alert that is active later was active before
    have hlater : session as (rs ++ rs') = session (session as rs) rs' := serve_append as rs rs'
    rw [hlater] at hq'
    obtain ⟨hmem, hactive'⟩ := (mem_of_listAlerts_map hq' a').mp ha'
    obtain ⟨a, ha, rfl⟩ := mem_session.mp hmem
    have hactive : a.state ≠ .closed := by
      intro hclosed
      exact selected_none.mp hactive' (state_run_of_closed hclosed _)
    exact ⟨a, (mem_of_listAlerts_map hq a).mpr ⟨ha, selected_none.mpr hactive⟩, rfl⟩

end Session

/-! One alert is acknowledged and closed, and another is given a severity in the meantime. -/

def exampleCalls : List (String × Request) :=
  [("bob-1", .acknowledge (exampleTime 1)),
    ("alice-1", .setSeverity (StrEnum.toValue AlertSeverity.high) (exampleTime 2)),
    ("bob-1", .close (exampleTime 3))]

def aliceSevere : Alert := severityField.assign aliceAlert .high (exampleInstant 2) (by decide)

def bobClosed : Alert :=
  (bobAlert.inState .acknowledged (exampleInstant 1) (by decide)).inState .closed (exampleInstant 3) (by decide)

theorem session_exampleCalls [Runtime] : session [aliceAlert, bobAlert] exampleCalls = [aliceSevere, bobClosed] := by
  have hlater : exampleInstant 0 ≤ exampleInstant 1 ∧ exampleInstant 0 ≤ exampleInstant 2 ∧
      exampleInstant 1 ≤ exampleInstant 3 := by decide
  have halice : run perform aliceAlert (requestsFor "alice-1" exampleCalls) = aliceSevere :=
    run_cons_of_effect readable_aliceAlert hlater.2.1 rfl (.severity (e := .high) nofun nofun) []
  have hacknowledged : (bobAlert.inState .acknowledged (exampleInstant 1) hlater.1).Readable :=
    readable_bobAlert.of_sourceMatch rfl
  have hbob : run perform bobAlert (requestsFor "bob-1" exampleCalls) = bobClosed :=
    (run_cons_of_effect readable_bobAlert hlater.1 rfl (.acknowledge rfl) _).trans
      (run_cons_of_effect hacknowledged hlater.2.2 rfl (.close rfl) [])
  rw [session_eq_map]
  exact congrArg₂ (fun a b => [a, b]) halice hbob

/-- The closed alert has left the queue. -/
theorem session_queue_example : ∃ _ : Runtime,
    listAlerts (.of ((session [aliceAlert, bobAlert] exampleCalls).map Alert.toValue)) = .ok [aliceSevere] := by
  let runtime := Runtime.ordinary
  have hread : ∀ a ∈ [aliceAlert, bobAlert], a.Readable := by
    simp only [List.forall_mem_cons]
    exact ⟨readable_aliceAlert, readable_bobAlert, by simp⟩
  have hids : ([aliceAlert, bobAlert].map (·.alertId.val)).Nodup := by decide
  obtain ⟨hlisted, -⟩ := session_queue hids exampleCalls
  obtain ⟨q, hq⟩ := (hlisted .none .none .none ⟨trivial, trivial, trivial⟩).mpr hread
  refine ⟨runtime, hq.trans (congrArg _ ?_)⟩
  rw [session_exampleCalls] at hq
  exact (listAlerts_map_eq_ok.mp hq).2.2

/-! ### Calls that arrive again -/

section Redelivery

variable {a : Alert}

/-- A request does not go back before the last update, and what it changes carries its instant. -/
theorem updatedAt_of_effect {i : Instant} {hi : a.updatedAt ≤ i} {r : Request} {a' : Alert}
    (h : Effect a i hi r a') : a' = a ∨ a'.updatedAt = i := by
  cases h with
  | acknowledge => exact Or.inr rfl
  | close => exact Or.inr rfl
  | severity => exact Or.inr rfl
  | priority => exact Or.inr rfl
  | _ => exact Or.inl rfl

/-- The alert is as the request asks. -/
def AsAsked (a : Alert) : Request → Prop
  | .acknowledge _ => a.state = .acknowledged
  | .close _ => a.state = .closed
  | .setSeverity value _ => value = StrEnum.toValue a.severity
  | .setPriority value _ => value = StrEnum.toValue a.priority

theorem asAsked_of_effect {i : Instant} {hi : a.updatedAt ≤ i} {r : Request} {a' : Alert}
    (h : Effect a i hi r a') : AsAsked a' r := by
  cases h with
  | acknowledged hstate => exact hstate
  | closed hclosed => exact hclosed
  | _ => exact rfl

/-- A request changes nothing on an alert that is as it asks. -/
theorem eq_of_effect {i : Instant} {hi : a.updatedAt ≤ i} {r : Request} {a' : Alert} (hr : AsAsked a r)
    (h : Effect a i hi r a') : a' = a := by
  cases h with
  | acknowledge hnew => rw [show a.state = .acknowledged from hr] at hnew; cases hnew
  | close hstate => rw [show a.state = .closed from hr] at hstate; cases hstate
  | severity _ hne => exact absurd (StrEnum.toValue_injective hr) hne
  | priority _ hne => exact absurd (StrEnum.toValue_injective hr) hne
  | _ => rfl

section Delivery

variable [Runtime]

/-- The operations on alerts are requests to a machine with a clock. -/
theorem clocked_perform : Clocked perform (fun a : Alert => a.updatedAt) Request.instant where
  repeated {a a' r} h := by
    obtain ⟨i, hi, -, heffect⟩ := effect_of_perform h
    rcases next_cases a' r with ⟨-, hsame⟩ | ⟨-, j, hj, -, hagain⟩
    · exact hsame
    · exact eq_of_effect (asAsked_of_effect heffect) hagain
  ticks {a a' r} h hne := by
    obtain ⟨i, hi, hinstant, heffect⟩ := effect_of_perform h
    rcases updatedAt_of_effect heffect with hsame | hupdated
    · exact absurd hsame hne
    · rw [hinstant, hupdated]
  stamped {a r} hnone := by
    rcases next_cases a r with ⟨-, hsame⟩ | ⟨-, i, hi, hinstant, -⟩
    · exact hsame
    · rw [hnone] at hinstant
      cases hinstant
  late {a r t} hinstant hlate := by
    rcases next_cases a r with ⟨-, hsame⟩ | ⟨-, i, hi, hinstant', -⟩
    · exact hsame
    · rw [hinstant] at hinstant'
      cases hinstant'
      exact absurd hlate (not_lt.mpr hi)

/-- **Delivery at least once amounts to delivery once.**  For each alert the calls on it have increasing
instants and arrive in order, and then any of them again, any number of times and at any later point, among
the calls on other alerts: the alerts are those of the calls made once, and a call that arrives again and
succeeds returns the alert as it stands. -/
theorem session_redelivery {as : List Alert} {rs ds : List (String × Request)}
    (htimes : ∀ id, (requestsFor id rs).Pairwise (Earlier Request.instant))
    (hdelivered : ∀ id, Delivered (requestsFor id rs) (requestsFor id ds)) :
    session as ds = session as rs ∧
      ∀ a ∈ as, ∀ r ∈ requestsFor a.alertId.val rs, ∀ a',
        perform (run perform a (requestsFor a.alertId.val ds)) r = .ok a' →
          a' = run perform a (requestsFor a.alertId.val ds) := by
  have hrun (a : Alert) : run perform a (requestsFor a.alertId.val ds) =
      run perform a (requestsFor a.alertId.val rs) :=
    clocked_perform.run_of_delivered (htimes _) (hdelivered _) a
  constructor
  · rw [session_eq_map, session_eq_map]
    exact List.map_congr_left fun a _ => hrun a
  · intro a _ r hr a' h
    have hsame := clocked_perform.next_of_mem (htimes _) a hr
    rw [hrun] at h ⊢
    rw [next_of_ok h] at hsame
    exact hsame

end Delivery

end Redelivery

/-- The calls, of which two arrive again: one at once and later, the other at the end. -/
def redeliveredCalls : List (String × Request) :=
  [("bob-1", .acknowledge (exampleTime 1)), ("bob-1", .acknowledge (exampleTime 1)),
    ("alice-1", .setSeverity (StrEnum.toValue AlertSeverity.high) (exampleTime 2)),
    ("bob-1", .close (exampleTime 3)), ("bob-1", .acknowledge (exampleTime 1)),
    ("alice-1", .setSeverity (StrEnum.toValue AlertSeverity.high) (exampleTime 2))]

theorem session_redelivery_example : ∃ _ : Runtime,
    session [aliceAlert, bobAlert] redeliveredCalls = [aliceSevere, bobClosed] := by
  let runtime := Runtime.ordinary
  have hcalls (id : String) (halice : id ≠ "alice-1") (hbob : id ≠ "bob-1") :
      requestsFor id exampleCalls = [] ∧ requestsFor id redeliveredCalls = [] := by
    simp [requestsFor, exampleCalls, redeliveredCalls, halice.symm, hbob.symm]
  have hearlier : Earlier Request.instant (.acknowledge (exampleTime 1)) (.close (exampleTime 3)) := by
    intro t t' ht ht'
    obtain rfl : exampleInstant 1 = t := Option.some.inj ht
    obtain rfl : exampleInstant 3 = t' := Option.some.inj ht'
    decide
  have htimes (id : String) : (requestsFor id exampleCalls).Pairwise (Earlier Request.instant) := by
    by_cases halice : id = "alice-1"
    · subst halice
      exact List.pairwise_singleton _ _
    · by_cases hbob : id = "bob-1"
      · subst hbob
        exact List.pairwise_pair.mpr hearlier
      · rw [(hcalls id halice hbob).1]
        exact .nil
  have hdelivered (id : String) : Delivered (requestsFor id exampleCalls) (requestsFor id redeliveredCalls) := by
    by_cases halice : id = "alice-1"
    · subst halice
      exact .again (List.mem_singleton_self _) (.first _ .nil)
    · by_cases hbob : id = "bob-1"
      · subst hbob
        have hfirst : Delivered [Request.acknowledge (exampleTime 1)]
            [.acknowledge (exampleTime 1), .acknowledge (exampleTime 1)] :=
          .again (List.mem_singleton_self _) (.first _ .nil)
        have hacknowledge : Request.acknowledge (exampleTime 1) ∈
            [Request.acknowledge (exampleTime 1)] ++ [.close (exampleTime 3)] := List.mem_cons_self ..
        exact .again hacknowledge (.first (.close (exampleTime 3)) hfirst)
      · rw [(hcalls id halice hbob).1, (hcalls id halice hbob).2]
        exact .nil
  exact ⟨runtime, (session_redelivery htimes hdelivered).1.trans session_exampleCalls⟩

/-! ### One operation -/

section Operation

variable [Runtime] {a a' : Alert} {r : Request}

/-- The lifecycle does not touch what the queue is ordered by. -/
theorem queueKey_of_transition (h : perform a r = .ok a')
    (hr : (∃ at_, r = .acknowledge at_) ∨ ∃ at_, r = .close at_) : queueKey a' = queueKey a := by
  obtain ⟨i, hi, -, heffect⟩ := effect_of_perform h
  rcases hr with ⟨at_, rfl⟩ | ⟨at_, rfl⟩
  · cases heffect <;> rfl
  · cases heffect <;> rfl

omit [Runtime] in
/-- With the age and the id of another alert, one that is no less urgent and no less severe is due no
later. -/
theorem queueKey_le (hid : a'.alertId = a.alertId) (hcreated : a'.createdAt = a.createdAt)
    (hpriority : priorityRank a'.priority ≤ priorityRank a.priority)
    (hseverity : severityRank a'.severity ≤ severityRank a.severity) : queueKey a' ≤ queueKey a := by
  rw [queueKey, queueKey, hid, hcreated]
  rcases hpriority.lt_or_eq with hlt | heq
  · exact (Prod.Lex.toLex_lt_toLex.mpr (Or.inl hlt)).le
  · rw [heq]
    refine Prod.Lex.toLex_le_toLex.mpr (Or.inr ⟨rfl, ?_⟩)
    rcases hseverity.lt_or_eq with hlt | heq
    · exact (Prod.Lex.toLex_lt_toLex.mpr (Or.inl hlt)).le
    · rw [heq]

/-- The queue `q` is that of the other alerts, `ahead ++ behind`, with the alert between them if the filters
select it. -/
structure Placed (states severities priorities : FilterArg) (a : Alert) (ahead behind q : List Alert) :
    Prop where
  selected : Selected states severities priorities a → q = ahead ++ a :: behind
  notSelected : ¬ Selected states severities priorities a → q = ahead ++ behind

variable {others l₁ l₂ : List Alert} {states severities priorities : FilterArg}

/-- Where an alert stands among the others. -/
theorem placed_of_listAlerts {q : List Alert}
    (h : listAlerts (.of ((a :: others).map Alert.toValue)) states severities priorities = .ok q)
    {rest : List Alert} (hrest : listAlerts (.of (others.map Alert.toValue)) states severities priorities = .ok rest) :
    (rest.filter (queueKey · < queueKey a) ++ rest.filter (queueKey a < queueKey ·) = rest) ∧
      Placed states severities priorities a (rest.filter (queueKey · < queueKey a))
        (rest.filter (queueKey a < queueKey ·)) q := by
  obtain ⟨hids, hfilters, rfl⟩ := listAlerts_map_eq_ok.mp h
  obtain ⟨-, -, rfl⟩ := listAlerts_map_eq_ok.mp hrest
  -- distinct ids make distinct keys, also of what the filters leave
  have hkeys : ((a :: others.filter (passes states severities priorities)).map queueKey).Nodup := by
    have hall := (accepted_map_toValue_iff.mpr hids).nodup_keys
    rw [snapshots_map_toValue hids.1] at hall
    exact hall.sublist ((List.filter_sublist.cons_cons a).map queueKey)
  have hselected := matching_iff hfilters.1 hfilters.2.1 hfilters.2.2 a
  have hsplit := filter_lt_append_filter_gt hkeys
  refine ⟨hsplit, fun h => ?_, fun h => ?_⟩
  · have hpasses : passes states severities priorities a = true := hselected.mpr h
    rw [List.filter_cons_of_pos hpasses]
    exact sorted_cons hkeys
  · have hpasses : ¬ passes states severities priorities a = true := fun h' => h (hselected.mp h')
    rw [List.filter_cons_of_neg hpasses, hsplit]

/-- **An operation moves no other alert on the queue.**  Before and after it the queue is that of the other
alerts with the alert between them, or left out by the filters.  The lifecycle keeps its place; it moves only
forward when it becomes no less urgent and no less severe, and only backward in the opposite case. -/
theorem queue_after_operation {q : List Alert}
    (hq : listAlerts (.of ((l₁ ++ a :: l₂).map Alert.toValue)) states severities priorities = .ok q)
    (h : perform a r = .ok a') :
    ∃ ahead behind ahead' behind' q',
      listAlerts (.of ((l₁ ++ l₂).map Alert.toValue)) states severities priorities = .ok (ahead ++ behind) ∧
      ahead ++ behind = ahead' ++ behind' ∧
      Placed states severities priorities a ahead behind q ∧
      listAlerts (.of ((l₁ ++ a' :: l₂).map Alert.toValue)) states severities priorities = .ok q' ∧
      Placed states severities priorities a' ahead' behind' q' ∧
      ((∃ at_, r = .acknowledge at_) ∨ (∃ at_, r = .close at_) → ahead' = ahead) ∧
      (priorityRank a'.priority ≤ priorityRank a.priority →
        severityRank a'.severity ≤ severityRank a.severity → ahead' <+: ahead) ∧
      (priorityRank a.priority ≤ priorityRank a'.priority →
        severityRank a.severity ≤ severityRank a'.severity → ahead <+: ahead') := by
  have hmiddle (b : Alert) : (l₁ ++ b :: l₂).Perm (b :: (l₁ ++ l₂)) := List.perm_middle
  have hcons := listAlerts_perm hq ((hmiddle a).map _)
  obtain ⟨⟨hread, hids⟩, hfilters, -⟩ := listAlerts_map_eq_ok.mp hcons
  obtain ⟨hid, hevidence, hcreated⟩ := identity_of_perform h
  rw [List.forall_mem_cons] at hread
  -- the others are listed without the alert, and with the alert that the operation returns
  have hrest := listAlerts_map_eq_ok.mpr ⟨⟨hread.2, (List.nodup_cons.mp hids).2⟩, hfilters, rfl⟩
  have hcons' := listAlerts_map_eq_ok.mpr ⟨⟨List.forall_mem_cons.mpr ⟨hread.1.of_sourceMatch hevidence, hread.2⟩, by
    rw [List.map_cons, alertId_of_perform a r a' h]
    exact hids⟩, hfilters, rfl⟩
  have hlt := pairwise_of_listAlerts hrest
  obtain ⟨hsplit, hplaced⟩ := placed_of_listAlerts hcons hrest
  obtain ⟨hsplit', hplaced'⟩ := placed_of_listAlerts hcons' hrest
  refine ⟨_, _, _, _, _, hrest.trans (congrArg _ hsplit.symm), hsplit.trans hsplit'.symm, hplaced,
    listAlerts_perm hcons' ((hmiddle a').symm.map _), hplaced', ?_, ?_, ?_⟩
  · intro hr
    rw [queueKey_of_transition h hr]
  · intro hpriority hseverity
    exact filter_lt_prefix hlt (queueKey_le hid hcreated hpriority hseverity)
  · intro hpriority hseverity
    exact filter_lt_prefix hlt (queueKey_le hid.symm hcreated.symm hpriority hseverity)

end Operation

/-- The last alert of the queue becomes urgent, and is then its first. -/
theorem queue_after_operation_example : ∃ (_ : Runtime) (a' : Alert),
    listAlerts (.of ([carolAlert, aliceAlert, bobAlert].map Alert.toValue)) =
      .ok [bobAlert, carolAlert, aliceAlert] ∧
    perform aliceAlert (.setPriority (StrEnum.toValue AlertPriority.urgent) (exampleTime 2)) = .ok a' ∧
    listAlerts (.of ([carolAlert, a', bobAlert].map Alert.toValue)) = .ok [a', bobAlert, carolAlert] := by
  let runtime := Runtime.ordinary
  have hlater : exampleInstant 0 ≤ exampleInstant 2 := by decide
  have h := perform_of_effect (r := .setPriority (StrEnum.toValue AlertPriority.urgent) (exampleTime 2))
    readable_aliceAlert hlater rfl (.priority nofun nofun)
  have hqueue : listAlerts (.of (([carolAlert] ++ aliceAlert :: [bobAlert]).map Alert.toValue)) =
      .ok [bobAlert, carolAlert, aliceAlert] := listAlerts_examples
  obtain ⟨-, -, -, -, q', -, -, -, hq', -⟩ := queue_after_operation hqueue h
  refine ⟨runtime, _, listAlerts_examples, h, hq'.trans (congrArg _ ?_)⟩
  exact (listAlerts_map_eq_ok.mp hq').2.2

end SocLab
