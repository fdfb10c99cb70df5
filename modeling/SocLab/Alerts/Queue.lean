import SocLab.Alerts.Validation
import SocLab.Logic.Except
import SocLab.Py.Sorted
import Mathlib.Data.Prod.Lex
import Mathlib.Data.String.Basic

/-!
# SocLab.Alerts.Queue — read-only filtering and ordering for analyst queues

`alerts/queue.py`.

* `listAlerts_eq_ok` says when a queue is returned and which one: the snapshots of the entries, filtered
  and sorted.
* `queue_exact` collects the consequences: independence of the enumeration order, the filtered queue
  inside the whole one, idempotence.
-/

namespace SocLab

open Py Py.Validation Logic

/-- The queue request failed with a safe reason and field name. -/
structure AlertQueueError where
  reason : String
  field : String
  deriving DecidableEq

/-- The argument `alerts`: what `len` answers and the first `n` items that an iteration gives.  `refused`
is a value that is no collection, or a mapping, a text or bytes. -/
inductive AlertCollection where
  | refused
  | collection (size : Except Exc Nat) (take : Nat → Except Exc (List Value))

/-- The finite collection of the given entries, in the order of an iteration. -/
def AlertCollection.of (entries : List Value) : AlertCollection :=
  .collection (.ok entries.length) fun n => .ok (entries.take n)

/-- `_snapshot_collection`; one lookahead catches overlong iterators. -/
def snapshotCollection : AlertCollection → Except AlertQueueError (List Value)
  | .refused => .error ⟨"invalid_collection", "alerts"⟩
  | .collection size take =>
    match size with
    | .error _ => .error ⟨"invalid_collection", "alerts"⟩
    | .ok size =>
      -- one entry more than the size, so that a collection that grows is noticed
      match take (size + 1) with
      | .error _ => .error ⟨"invalid_collection", "alerts"⟩
      | .ok entries =>
        if entries.length = size then .ok entries else .error ⟨"invalid_collection", "alerts"⟩

/-- A filter argument: `set` is a built-in set or frozenset with its items in some order, `other` any
further value. -/
inductive FilterArg where
  | none
  | set (values : List Value)
  | other

/-- `_read_filter`. -/
def readFilter (ε : Type) [StrEnum ε] (values : FilterArg) (field : String) :
    Except AlertQueueError (Option (List ε)) :=
  match values with
  | .none => .ok Option.none
  | .set values =>
    if values.isEmpty || values.any fun value => (StrEnum.ofMember? (ε := ε) value).isNone then
      .error ⟨"invalid_filter", field⟩
    else .ok (some (values.filterMap StrEnum.ofMember?))
  | .other => .error ⟨"invalid_filter", field⟩

def activeStates : List AlertState := [.new, .acknowledged]

def priorityRank : AlertPriority → Nat
  | .urgent => 0
  | .high => 1
  | .normal => 2
  | .low => 3

def severityRank : AlertSeverity → Nat
  | .critical => 0
  | .high => 1
  | .medium => 2
  | .low => 3
  | .informational => 4
  | .unassigned => 5

/-- `_queue_key`; tuples compare lexicographically. -/
def queueKey (a : Alert) : ℕ ×ₗ ℕ ×ₗ Instant ×ₗ String :=
  toLex (priorityRank a.priority, toLex (severityRank a.severity, toLex (a.createdAt, a.alertId.val)))

/-- The condition of the generator in `list_alerts`. -/
def matching (states : List AlertState) (severities : Option (List AlertSeverity))
    (priorities : Option (List AlertPriority)) (a : Alert) : Bool :=
  a.state ∈ states && severities.all (a.severity ∈ ·) && priorities.all (a.priority ∈ ·)

section Operations

variable [Runtime]

/-- The loop over the entries: the ids seen and the alerts validated so far. -/
def validateEntries (seenIds : List String) (validated : List Alert) :
    List Value → Except AlertQueueError (List Alert)
  | [] => .ok validated
  | entry :: entries =>
    match readAlertSnapshot entry with
    | none => .error ⟨"invalid_alert", "alerts"⟩
    | some (alert, _) =>
      if alert.alertId.val ∈ seenIds then .error ⟨"duplicate_alert_id", "alert_id"⟩
      else validateEntries (alert.alertId :: seenIds) (validated ++ [alert]) entries

/-- Validate a finite collection and return detached alerts in queue order. -/
def listAlerts (alerts : AlertCollection) (states severities priorities : FilterArg := .none) :
    Except AlertQueueError (List Alert) := do
  let entries ← snapshotCollection alerts
  let validated ← validateEntries [] [] entries
  -- the filters are read after all entries, and an invalid entry is reported first
  let selectedStates ← readFilter AlertState states "states"
  let selectedSeverities ← readFilter AlertSeverity severities "severities"
  let selectedPriorities ← readFilter AlertPriority priorities "priorities"
  .ok (sorted queueKey (validated.filter
    (matching (selectedStates.getD activeStates) selectedSeverities selectedPriorities)))

end Operations

/-! ### What the parts do -/

/-- The alerts that are read of the entries. -/
def snapshots [Runtime] (entries : List Value) : List Alert :=
  entries.filterMap fun entry => (readAlertSnapshot entry).map (·.1)

/-- Every entry is read and no two alerts share an id. -/
structure Accepted [Runtime] (entries : List Value) : Prop where
  read : ∀ entry ∈ entries, (readAlertSnapshot entry).isSome = true
  distinct : ((snapshots entries).map (·.alertId.val)).Nodup

namespace FilterArg

variable {ε : Type} [StrEnum ε]

/-- The filter is left out, or a non-empty set of members of exactly this enumeration. -/
def WellFormed (ε : Type) [StrEnum ε] : FilterArg → Prop
  | none => True
  | set values => values ≠ [] ∧ ∀ value ∈ values, ∃ e : ε, value = StrEnum.toValue e
  | other => False

/-- The member passes the filter; `whenOmitted` are the members that pass without one. -/
def Admits (whenOmitted : ε → Prop) (f : FilterArg) (e : ε) : Prop :=
  match f with
  | none => whenOmitted e
  | set values => StrEnum.toValue e ∈ values
  | other => False

end FilterArg

/-- The alert passes the three filters. -/
def Selected (states severities priorities : FilterArg) (a : Alert) : Prop :=
  states.Admits (· ∈ activeStates) a.state ∧ severities.Admits (fun _ => True) a.severity ∧
    priorities.Admits (fun _ => True) a.priority

theorem snapshotCollection_of (entries : List Value) :
    snapshotCollection (.of entries) = .ok entries := by
  rw [AlertCollection.of, snapshotCollection]
  simp

section Entries

variable [Runtime] {entry : Value} {entries : List Value} {a : Alert} {d : Dict}

theorem snapshots_cons (h : readAlertSnapshot entry = some (a, d)) :
    snapshots (entry :: entries) = a :: snapshots entries := by
  rw [snapshots, List.filterMap_cons, h]
  rfl

theorem mem_snapshots : a ∈ snapshots entries ↔ ∃ entry ∈ entries, ∃ d,
    readAlertSnapshot entry = some (a, d) := by
  simp [snapshots, List.mem_filterMap]

theorem accepted_nil : Accepted [] := ⟨by simp, by simp [snapshots]⟩

theorem accepted_cons (h : readAlertSnapshot entry = some (a, d)) :
    Accepted (entry :: entries) ↔
      (∀ a' ∈ snapshots entries, a'.alertId.val ≠ a.alertId.val) ∧ Accepted entries := by
  constructor
  · rintro ⟨hread, hdistinct⟩
    rw [snapshots_cons h, List.map_cons, List.nodup_cons] at hdistinct
    refine ⟨fun a' ha' heq => hdistinct.1 ?_, ⟨fun e he => hread e (by simp [he]), hdistinct.2⟩⟩
    exact List.mem_map.mpr ⟨a', ha', heq⟩
  · rintro ⟨hnew, hread, hdistinct⟩
    refine ⟨List.forall_mem_cons.mpr ⟨by rw [h]; rfl, hread⟩, ?_⟩
    rw [snapshots_cons h, List.map_cons, List.nodup_cons]
    refine ⟨fun hmem => ?_, hdistinct⟩
    obtain ⟨a', ha', heq⟩ := List.mem_map.mp hmem
    exact hnew a' ha' heq

/-- The loop accepts entries that are read with distinct new ids. -/
theorem validateEntries_eq_ok {seenIds : List String} {validated as : List Alert} :
    validateEntries seenIds validated entries = .ok as ↔
      Accepted entries ∧ (∀ a ∈ snapshots entries, a.alertId.val ∉ seenIds) ∧
        as = validated ++ snapshots entries := by
  induction entries generalizing seenIds validated with
  | nil => simp [validateEntries, accepted_nil, snapshots, eq_comm]
  | cons entry entries ih =>
    cases hread : readAlertSnapshot entry with
    | none =>
      rw [validateEntries, hread]
      refine iff_of_false (by simp) fun h => ?_
      have := h.1.read entry (by simp)
      rw [hread] at this
      cases this
    | some snapshot =>
      obtain ⟨a, d⟩ := snapshot
      rw [validateEntries, hread, accepted_cons hread, snapshots_cons hread]
      dsimp only
      split_ifs with hseen
      · exact iff_of_false (by simp) fun h => h.2.1 a (by simp) hseen
      · rw [ih]
        simp only [List.mem_cons, not_or, forall_eq_or_imp, List.append_assoc, List.singleton_append]
        constructor
        · rintro ⟨haccepted, hnew, has⟩
          exact ⟨⟨fun a' ha' => (hnew a' ha').1, haccepted⟩, ⟨hseen, fun a' ha' => (hnew a' ha').2⟩, has⟩
        · rintro ⟨⟨hne, haccepted⟩, ⟨-, hnew⟩, has⟩
          exact ⟨haccepted, fun a' ha' => ⟨hne a' ha', hnew a' ha'⟩, has⟩

end Entries

section Filters

variable {ε : Type} [StrEnum ε] {f : FilterArg} {field : String} {selected : Option (List ε)}

/-- The members that a filter names. -/
def FilterArg.members (ε : Type) [StrEnum ε] : FilterArg → Option (List ε)
  | .set values => some (values.filterMap StrEnum.ofMember?)
  | _ => Option.none

theorem readFilter_eq_ok : readFilter ε f field = .ok selected ↔
    f.WellFormed ε ∧ selected = f.members ε := by
  cases f with
  | none => simp [readFilter, FilterArg.WellFormed, FilterArg.members, eq_comm]
  | other => simp [readFilter, FilterArg.WellFormed]
  | set values =>
    have hmember (value : Value) : (StrEnum.ofMember? (ε := ε) value).isNone = false ↔
        ∃ e : ε, value = StrEnum.toValue e := by
      constructor
      · intro h
        obtain ⟨e, he⟩ := Option.isSome_iff_exists.mp (by simpa using h)
        exact ⟨e, StrEnum.toValue_of_ofMember? he⟩
      · rintro ⟨e, rfl⟩
        simp
    unfold readFilter FilterArg.WellFormed FilterArg.members
    dsimp only
    split_ifs with h
    · refine iff_of_false (by simp) fun hf => ?_
      simp only [Bool.or_eq_true, List.isEmpty_iff, List.any_eq_true] at h
      rcases h with hnil | ⟨value, hvalue, hnone⟩
      · exact hf.1.1 hnil
      · rw [(hmember value).mpr (hf.1.2 value hvalue)] at hnone
        cases hnone
    · simp only [Bool.or_eq_true, List.isEmpty_iff, List.any_eq_true, not_or, not_exists, not_and,
        Bool.not_eq_true] at h
      simp only [Except.ok.injEq, eq_comm (a := selected)]
      exact (and_iff_right ⟨h.1, fun value hvalue => (hmember value).mp (h.2 value hvalue)⟩).symm

theorem mem_members {values : List Value} {e : ε} :
    e ∈ values.filterMap StrEnum.ofMember? ↔ StrEnum.toValue e ∈ values := by
  rw [List.mem_filterMap]
  constructor
  · rintro ⟨value, hvalue, he⟩
    rwa [← StrEnum.toValue_of_ofMember? he]
  · exact fun h => ⟨_, h, by simp⟩

theorem matching_iff {states severities priorities : FilterArg} (hstates : states.WellFormed AlertState)
    (hseverities : severities.WellFormed AlertSeverity) (hpriorities : priorities.WellFormed AlertPriority)
    (a : Alert) :
    matching ((states.members AlertState).getD activeStates) (severities.members AlertSeverity)
      (priorities.members AlertPriority) a = true ↔ Selected states severities priorities a := by
  simp only [matching, Selected, Bool.and_eq_true, decide_eq_true_eq, and_assoc]
  refine and_congr ?_ (and_congr ?_ ?_)
  · cases states with
    | none => exact Iff.rfl
    | set values => exact mem_members
    | other => exact hstates.elim
  · cases severities with
    | none => simp [FilterArg.members, FilterArg.Admits]
    | set values => simpa [FilterArg.members, FilterArg.Admits] using mem_members
    | other => exact hseverities.elim
  · cases priorities with
    | none => simp [FilterArg.members, FilterArg.Admits]
    | set values => simpa [FilterArg.members, FilterArg.Admits] using mem_members
    | other => exact hpriorities.elim

end Filters

/-! ### The queue -/

section Queue

variable {entries entries' : List Value} {states severities priorities : FilterArg} {r : List Alert}

/-- The condition of the filters, as the generator computes it. -/
def passes (states severities priorities : FilterArg) : Alert → Bool :=
  matching ((states.members AlertState).getD activeStates) (severities.members AlertSeverity)
    (priorities.members AlertPriority)

/-- The three filters are well formed. -/
def FiltersWellFormed (states severities priorities : FilterArg) : Prop :=
  states.WellFormed AlertState ∧ severities.WellFormed AlertSeverity ∧
    priorities.WellFormed AlertPriority

/-- The filter that names every state. -/
def allStates : FilterArg := .set ((StrEnum.members (ε := AlertState)).map StrEnum.toValue)

theorem allStates_wellFormed : allStates.WellFormed AlertState := by
  refine ⟨by simp [StrEnum.members], fun value hvalue => ?_⟩
  obtain ⟨e, -, rfl⟩ := List.mem_map.mp hvalue
  exact ⟨e, rfl⟩

theorem passes_allStates (a : Alert) : passes allStates .none .none a = true := by
  have hnone (ε : Type) [StrEnum ε] : FilterArg.none.WellFormed ε := trivial
  rw [passes, matching_iff allStates_wellFormed (hnone AlertSeverity) (hnone AlertPriority)]
  exact ⟨List.mem_map_of_mem (StrEnum.mem_members a.state), trivial, trivial⟩

variable [Runtime]

/-- **When a queue is returned, and which one.** -/
theorem listAlerts_eq_ok :
    listAlerts (.of entries) states severities priorities = .ok r ↔
      Accepted entries ∧ FiltersWellFormed states severities priorities ∧
        r = sorted queueKey ((snapshots entries).filter (passes states severities priorities)) := by
  rw [listAlerts, snapshotCollection_of, ok_bind]
  constructor
  · intro h
    obtain ⟨validated, hvalidated, h⟩ := bind_eq_ok.mp h
    obtain ⟨selectedStates, hstates, h⟩ := bind_eq_ok.mp h
    obtain ⟨selectedSeverities, hseverities, h⟩ := bind_eq_ok.mp h
    obtain ⟨selectedPriorities, hpriorities, h⟩ := bind_eq_ok.mp h
    obtain ⟨haccepted, -, rfl⟩ := validateEntries_eq_ok.mp hvalidated
    obtain ⟨hstates', rfl⟩ := readFilter_eq_ok.mp hstates
    obtain ⟨hseverities', rfl⟩ := readFilter_eq_ok.mp hseverities
    obtain ⟨hpriorities', rfl⟩ := readFilter_eq_ok.mp hpriorities
    exact ⟨haccepted, ⟨hstates', hseverities', hpriorities'⟩, (Except.ok.inj h).symm⟩
  · rintro ⟨haccepted, ⟨hstates, hseverities, hpriorities⟩, rfl⟩
    rw [validateEntries_eq_ok.mpr ⟨haccepted, by simp, rfl⟩, ok_bind,
      readFilter_eq_ok.mpr ⟨hstates, rfl⟩, ok_bind, readFilter_eq_ok.mpr ⟨hseverities, rfl⟩, ok_bind,
      readFilter_eq_ok.mpr ⟨hpriorities, rfl⟩, ok_bind]
    rfl

/-- Distinct ids make distinct keys. -/
theorem Accepted.nodup_keys (h : Accepted entries) : ((snapshots entries).map queueKey).Nodup := by
  refine List.Nodup.of_map (fun key => (ofLex (ofLex (ofLex key).2).2).2) ?_
  rw [List.map_map]
  exact h.distinct

theorem Accepted.perm (hperm : entries.Perm entries') (h : Accepted entries) : Accepted entries' where
  read entry hentry := h.read entry (hperm.mem_iff.mpr hentry)
  distinct := ((hperm.filterMap _).map _).nodup_iff.mp h.distinct

theorem snapshots_map_toValue {as : List Alert} (hread : ∀ a ∈ as, a.Readable) :
    snapshots (as.map Alert.toValue) = as := by
  induction as with
  | nil => rfl
  | cons a as ih =>
    rw [List.forall_mem_cons] at hread
    rw [List.map_cons, snapshots_cons (readAlertSnapshot_toValue hread.1), ih hread.2]

theorem accepted_map_toValue {as : List Alert} (hread : ∀ a ∈ as, a.Readable)
    (h : (as.map (·.alertId.val)).Nodup) : Accepted (as.map Alert.toValue) where
  read entry hentry := by
    obtain ⟨a, ha, rfl⟩ := List.mem_map.mp hentry
    rw [readAlertSnapshot_toValue (hread a ha)]
    rfl
  distinct := by rwa [snapshots_map_toValue hread]

/-- Alerts are accepted when all of them can be read and their ids differ. -/
theorem accepted_map_toValue_iff {as : List Alert} : Accepted (as.map Alert.toValue) ↔
    (∀ a ∈ as, a.Readable) ∧ (as.map (·.alertId.val)).Nodup := by
  constructor
  · intro h
    have hread : ∀ a ∈ as, a.Readable := by
      intro a ha
      have hsome := h.read a.toValue (List.mem_map_of_mem ha)
      by_contra hunread
      rw [readAlertSnapshot_of_not_readable hunread] at hsome
      cases hsome
    exact ⟨hread, by simpa only [snapshots_map_toValue hread] using h.distinct⟩
  · rintro ⟨hread, hids⟩
    exact accepted_map_toValue hread hids

/-- A queue holds the snapshots of the entries that the filters select. -/
theorem mem_of_listAlerts (h : listAlerts (.of entries) states severities priorities = .ok r) (a : Alert) :
    a ∈ r ↔ a ∈ snapshots entries ∧ Selected states severities priorities a := by
  obtain ⟨-, ⟨hstates, hseverities, hpriorities⟩, hr⟩ := listAlerts_eq_ok.mp h
  rw [hr, mem_sorted, List.mem_filter, passes, matching_iff hstates hseverities hpriorities]

theorem Accepted.nodup_keys_filter (h : Accepted entries) (p : Alert → Bool) :
    (((snapshots entries).filter p).map queueKey).Nodup :=
  h.nodup_keys.sublist (List.filter_sublist.map queueKey)

/-- A queue is in strictly ascending order. -/
theorem pairwise_of_listAlerts (h : listAlerts (.of entries) states severities priorities = .ok r) :
    r.Pairwise (fun a b => queueKey a < queueKey b) := by
  obtain ⟨haccepted, -, hr⟩ := listAlerts_eq_ok.mp h
  rw [hr]
  exact pairwise_lt_sorted queueKey (haccepted.nodup_keys_filter _)

/-- The order of the entries does not matter. -/
theorem listAlerts_perm (h : listAlerts (.of entries) states severities priorities = .ok r)
    (hperm : entries.Perm entries') : listAlerts (.of entries') states severities priorities = .ok r := by
  obtain ⟨haccepted, hfilters, hr⟩ := listAlerts_eq_ok.mp h
  have hsame : ((snapshots entries).filter (passes states severities priorities)).Perm
      ((snapshots entries').filter (passes states severities priorities)) := (hperm.filterMap _).filter _
  refine listAlerts_eq_ok.mpr ⟨haccepted.perm hperm, hfilters, ?_⟩
  rw [hr]
  exact sorted_eq_of_perm queueKey (haccepted.nodup_keys_filter _) hsame

/-- A queue is part of the one that has every state. -/
theorem sublist_of_listAlerts (h : listAlerts (.of entries) states severities priorities = .ok r) :
    ∃ whole, listAlerts (.of entries) allStates = .ok whole ∧ r.Sublist whole := by
  obtain ⟨haccepted, -, hr⟩ := listAlerts_eq_ok.mp h
  refine ⟨_, listAlerts_eq_ok.mpr ⟨haccepted, ⟨allStates_wellFormed, trivial, trivial⟩, rfl⟩, ?_⟩
  rw [hr, List.filter_eq_self.mpr fun a _ => passes_allStates a,
    sorted_filter queueKey _ haccepted.nodup_keys]
  exact List.filter_sublist

/-- The queue of a queue is that queue. -/
theorem listAlerts_idempotent (h : listAlerts (.of entries) states severities priorities = .ok r) :
    listAlerts (.of (r.map Alert.toValue)) states severities priorities = .ok r := by
  obtain ⟨haccepted, hfilters, hr⟩ := listAlerts_eq_ok.mp h
  have hids : (r.map (·.alertId.val)).Nodup := by
    rw [hr, ((sorted_perm queueKey _).map _).nodup_iff]
    exact haccepted.distinct.sublist (List.filter_sublist.map _)
  have hall : ∀ a ∈ r, passes states severities priorities a = true := by
    intro a ha
    exact (matching_iff hfilters.1 hfilters.2.1 hfilters.2.2 a).mpr ((mem_of_listAlerts h a).mp ha).2
  have hread : ∀ a ∈ r, a.Readable := by
    intro a ha
    obtain ⟨entry, -, d, hd⟩ := mem_snapshots.mp ((mem_of_listAlerts h a).mp ha).1
    exact readable_of_read hd
  have hsorted : sorted queueKey r = r :=
    sorted_of_pairwise queueKey ((pairwise_of_listAlerts h).imp fun hlt => hlt.le)
  refine listAlerts_eq_ok.mpr ⟨accepted_map_toValue hread hids, hfilters, ?_⟩
  rw [snapshots_map_toValue hread, List.filter_eq_self.mpr hall, hsorted]

/-- **The analyst queue, exactly.** -/
theorem queue_exact (entries : List Value) (states severities priorities : FilterArg) :
    ((∃ r, listAlerts (.of entries) states severities priorities = .ok r) ↔
      ((∀ entry ∈ entries, (readAlertSnapshot entry).isSome = true) ∧
        ((snapshots entries).map (·.alertId.val)).Nodup) ∧
      states.WellFormed AlertState ∧ severities.WellFormed AlertSeverity ∧
        priorities.WellFormed AlertPriority) ∧
    ∀ r, listAlerts (.of entries) states severities priorities = .ok r →
      (∀ a, a ∈ r ↔ (∃ entry ∈ entries, (∃ d, readAlertSnapshot entry = some (a, d)) ∧ SameFields a entry) ∧
        Selected states severities priorities a) ∧
      r.Pairwise (fun a b => queueKey a < queueKey b) ∧
      (∀ entries', entries.Perm entries' →
        listAlerts (.of entries') states severities priorities = .ok r) ∧
      (∃ whole, listAlerts (.of entries) allStates = .ok whole ∧ r.Sublist whole) ∧
      listAlerts (.of (r.map Alert.toValue)) states severities priorities = .ok r := by
  refine ⟨⟨?_, ?_⟩, fun r h => ?_⟩
  · rintro ⟨r, h⟩
    obtain ⟨haccepted, hfilters, -⟩ := listAlerts_eq_ok.mp h
    exact ⟨⟨haccepted.read, haccepted.distinct⟩, hfilters⟩
  · rintro ⟨⟨hread, hdistinct⟩, hfilters⟩
    exact ⟨_, listAlerts_eq_ok.mpr ⟨⟨hread, hdistinct⟩, hfilters, rfl⟩⟩
  · refine ⟨fun a => ?_, pairwise_of_listAlerts h, fun entries' => listAlerts_perm h,
      sublist_of_listAlerts h, listAlerts_idempotent h⟩
    rw [mem_of_listAlerts h, mem_snapshots]
    refine and_congr_left fun _ => ⟨?_, ?_⟩
    · rintro ⟨entry, hentry, d, hd⟩
      exact ⟨entry, hentry, ⟨d, hd⟩, readAlertSnapshot_eq_some hd⟩
    · rintro ⟨entry, hentry, ⟨d, hd⟩, -⟩
      exact ⟨entry, hentry, d, hd⟩

end Queue

end SocLab
