import SocLab.Alerts.History

/-!
# SocLab.Alerts.Commute — independent changes at one instant

A `Change` is a severity, a priority or an acknowledgement.  `Change.apply` is what it makes of an alert that
can be read and is not closed, at an instant not before its last update: `perform_request`.  Changes of different
kinds commute (`apply_comm`), and a change that is made already makes nothing (`apply_of_made`), so that the three
of them give one alert in any order: `changes_commute`.
-/

namespace SocLab

open Py Py.Validation Logic

inductive Change where
  | severity (e : AlertSeverity)
  | priority (e : AlertPriority)
  | acknowledge

/-- The alert can be read, is not closed, and was last updated at the instant or before. -/
structure ActiveAt [Runtime] (i : Instant) (a : Alert) : Prop where
  readable : a.Readable
  order : a.updatedAt ≤ i
  active : a.state ≠ .closed

namespace Change

/-- The call that makes the change. -/
def request : Change → Value → Request
  | severity e, changedAt => .setSeverity (StrEnum.toValue e) changedAt
  | priority e, changedAt => .setPriority (StrEnum.toValue e) changedAt
  | acknowledge, at_ => .acknowledge at_

/-- The alert is as the change makes it. -/
def Made : Change → Alert → Prop
  | severity e, a => a.severity = e
  | priority e, a => a.priority = e
  | acknowledge, a => a.state = .acknowledged

instance (c : Change) (a : Alert) : Decidable (c.Made a) := by
  cases c <;> unfold Made <;> infer_instance

/-- The alert with the change made at the instant `i`. -/
def make (i : Instant) (a : Alert) (h : a.updatedAt ≤ i) : Change → Alert
  | severity e => severityField.assign a e i h
  | priority e => priorityField.assign a e i h
  | acknowledge => a.inState .acknowledged i h

/-- A change that is made already writes nothing. -/
def apply (c : Change) (i : Instant) (a : Alert) (h : a.updatedAt ≤ i) : Alert :=
  if c.Made a then a else c.make i a h

variable {c d : Change} {i : Instant} {a : Alert}

theorem sourceMatch_apply (h : a.updatedAt ≤ i) : (c.apply i a h).sourceMatch = a.sourceMatch := by
  unfold apply
  split_ifs
  · rfl
  · cases c <;> rfl

theorem apply_of_made (hmade : c.Made a) (h : a.updatedAt ≤ i) : c.apply i a h = a := if_pos hmade

theorem apply_of_not_made (hmade : ¬ c.Made a) (h : a.updatedAt ≤ i) : c.apply i a h = c.make i a h :=
  if_neg hmade

section Perform

variable [Runtime]

/-- The effect of the call of a change. -/
theorem effect_request (x : Value) (ha : ActiveAt i a) :
    Effect a i ha.order (c.request x) (c.apply i a ha.order) := by
  unfold apply
  split_ifs with hmade
  · cases c with
    | severity e => exact hmade ▸ .sameSeverity ha.active
    | priority e => exact hmade ▸ .samePriority ha.active
    | acknowledge => exact .acknowledged hmade
  · cases c with
    | severity e => exact .severity ha.active fun h => hmade h.symm
    | priority e => exact .priority ha.active fun h => hmade h.symm
    | acknowledge =>
      refine .acknowledge ?_
      have hactive := ha.active
      cases hstate : a.state with
      | new => rfl
      | acknowledged => exact absurd hstate hmade
      | closed => exact absurd hstate hactive

/-- What the call of a change does. -/
theorem perform_request {x : Value} (hx : normalizeChangeTime x = some i) (ha : ActiveAt i a) :
    perform a (c.request x) = .ok (c.apply i a ha.order) := by
  have hinstant : (c.request x).instant = some i := by cases c <;> exact hx
  exact perform_of_effect ha.readable ha.order hinstant (effect_request x ha)

theorem activeAt_apply (ha : ActiveAt i a) : ActiveAt i (c.apply i a ha.order) := by
  have hread : (c.apply i a ha.order).Readable := ha.readable.of_sourceMatch (sourceMatch_apply ha.order)
  unfold apply at hread ⊢
  split_ifs at hread ⊢
  · exact ha
  · cases c with
    | acknowledge => exact ⟨hread, le_rfl, nofun⟩
    | _ => exact ⟨hread, le_rfl, ha.active⟩

end Perform

/-- A change is made by its call. -/
theorem made_apply (h : a.updatedAt ≤ i) : c.Made (c.apply i a h) := by
  unfold apply
  split_ifs with hmade
  · exact hmade
  · cases c <;> rfl

/-- The changes are of different kinds. -/
def Independent : Change → Change → Prop
  | severity _, severity _ => False
  | priority _, priority _ => False
  | acknowledge, acknowledge => False
  | _, _ => True

/-- A change is made or not whatever else changes. -/
theorem made_apply_iff (hcd : Independent c d) (h : a.updatedAt ≤ i) :
    c.Made (d.apply i a h) ↔ c.Made a := by
  unfold apply
  split_ifs
  · rfl
  · cases c <;> cases d <;> first | exact hcd.elim | exact Iff.rfl

theorem apply_congr {b : Alert} (hab : a = b) (h : a.updatedAt ≤ i) (h' : b.updatedAt ≤ i) :
    c.apply i a h = c.apply i b h' := by
  subst hab
  rfl

variable [Runtime]

/-- **Changes of different kinds commute.** -/
theorem apply_comm (hcd : Independent c d) (hdc : Independent d c) (ha : ActiveAt i a) :
    d.apply i (c.apply i a ha.order) (activeAt_apply ha).order =
      c.apply i (d.apply i a ha.order) (activeAt_apply ha).order := by
  by_cases hc : c.Made a
  · rw [apply_congr (apply_of_made hc ha.order) _ ha.order,
      apply_of_made ((made_apply_iff hcd ha.order).mpr hc)]
  by_cases hd : d.Made a
  · rw [apply_congr (c := c) (apply_of_made hd ha.order) _ ha.order,
      apply_of_made ((made_apply_iff hdc ha.order).mpr hd)]
  · have hd' := (made_apply_iff hdc ha.order).not.mpr hd
    have hc' := (made_apply_iff hcd ha.order).not.mpr hc
    rw [apply_of_not_made hd', apply_of_not_made hc']
    have hcmake := apply_of_not_made hc ha.order
    have hdmake := apply_of_not_made hd ha.order
    have hmake {b b' : Alert} (e : Change) (hb : b = b') (h : b.updatedAt ≤ i) (h' : b'.updatedAt ≤ i) :
        e.make i b h = e.make i b' h' := by
      subst hb
      rfl
    rw [hmake d hcmake _ (by cases c <;> exact le_rfl), hmake c hdmake _ (by cases d <;> exact le_rfl)]
    cases c <;> cases d <;> first | exact hcd.elim | rfl

/-- The calls of changes of different kinds at one instant commute. -/
theorem perform_comm (hcd : Independent c d) (hdc : Independent d c) {x y : Value}
    (hx : normalizeChangeTime x = some i) (hy : normalizeChangeTime y = some i) (ha : ActiveAt i a) :
    (perform a (c.request x) >>= fun a₁ => perform a₁ (d.request y)) =
      (perform a (d.request y) >>= fun a₁ => perform a₁ (c.request x)) := by
  rw [perform_request hx ha, perform_request hy ha, ok_bind, ok_bind,
    perform_request hy (activeAt_apply ha), perform_request hx (activeAt_apply ha), apply_comm hcd hdc ha]

/-- A change that is made already is repeated without effect. -/
theorem perform_of_made {x : Value} (hx : normalizeChangeTime x = some i) (ha : ActiveAt i a)
    (hmade : c.Made a) : perform a (c.request x) = .ok a := by
  rw [perform_request hx ha, apply_of_made hmade]

end Change

open Change

/-- A severity, a priority and an acknowledgement, with the datetimes they are given. -/
def threeChanges (severity : AlertSeverity) (priority : AlertPriority) (x y z : Value) : List Request :=
  [.setSeverity (StrEnum.toValue severity) x, .setPriority (StrEnum.toValue priority) y, .acknowledge z]

section ThreeChanges

variable [Runtime] {severity : AlertSeverity} {priority : AlertPriority} {x y z : Value} {i : Instant} {a : Alert}

theorem threeChanges_comm (hx : normalizeChangeTime x = some i) (hy : normalizeChangeTime y = some i)
    (hz : normalizeChangeTime z = some i) (ha : ActiveAt i a) :
    ∀ r ∈ threeChanges severity priority x y z, ∀ r' ∈ threeChanges severity priority x y z,
      (perform a r >>= fun a₁ => perform a₁ r') = (perform a r' >>= fun a₁ => perform a₁ r) := by
  have hsp := perform_comm (c := .severity severity) (d := .priority priority) trivial trivial hx hy ha
  have hsa := perform_comm (c := .severity severity) (d := .acknowledge) trivial trivial hx hz ha
  have hpa := perform_comm (c := .priority priority) (d := .acknowledge) trivial trivial hy hz ha
  intro r hr r' hr'
  simp only [threeChanges, List.mem_cons, List.not_mem_nil, or_false] at hr hr'
  rcases hr with rfl | rfl | rfl
  · rcases hr' with rfl | rfl | rfl
    · rfl
    · exact hsp
    · exact hsa
  · rcases hr' with rfl | rfl | rfl
    · exact hsp.symm
    · rfl
    · exact hpa
  · rcases hr' with rfl | rfl | rfl
    · exact hsa.symm
    · exact hpa.symm
    · rfl

theorem threeChanges_ok (hx : normalizeChangeTime x = some i) (hy : normalizeChangeTime y = some i)
    (hz : normalizeChangeTime z = some i) :
    ∀ r ∈ threeChanges severity priority x y z, ∀ a, ActiveAt i a →
      ∃ a', perform a r = .ok a' ∧ ActiveAt i a' := by
  have hok (c : Change) {t : Value} (ht : normalizeChangeTime t = some i) (a : Alert) (ha : ActiveAt i a) :
      ∃ a', perform a (c.request t) = .ok a' ∧ ActiveAt i a' :=
    ⟨_, perform_request ht ha, activeAt_apply ha⟩
  have hseverity := hok (.severity severity) hx
  have hpriority := hok (.priority priority) hy
  have hacknowledge := hok .acknowledge hz
  simp only [threeChanges, List.forall_mem_cons]
  exact ⟨hseverity, hpriority, hacknowledge, by simp⟩

/-- The alert that the three changes make in the order of the list. -/
theorem exists_threeChanges (hx : normalizeChangeTime x = some i) (hy : normalizeChangeTime y = some i)
    (hz : normalizeChangeTime z = some i) (ha : ActiveAt i a) :
    ∃ b, (threeChanges severity priority x y z).foldlM perform a = .ok b ∧ ActiveAt i b ∧
      (Change.severity severity).Made b ∧ (Change.priority priority).Made b ∧
        Change.acknowledge.Made b := by
  have ha₁ := activeAt_apply (c := .severity severity) ha
  have ha₂ := activeAt_apply (c := .priority priority) ha₁
  refine ⟨_, ?_, activeAt_apply (c := .acknowledge) ha₂, ?_, ?_, made_apply ha₂.order⟩
  · have h₁ := perform_request (c := .severity severity) hx ha
    have h₂ := perform_request (c := .priority priority) hy ha₁
    have h₃ := perform_request (c := .acknowledge) hz ha₂
    simp only [Change.request] at h₁ h₂ h₃
    simp only [threeChanges, List.foldlM_cons, List.foldlM_nil, h₁, h₂, h₃, ok_bind]
    rfl
  · refine (made_apply_iff (c := .severity severity) (d := .acknowledge) trivial ha₂.order).mpr ?_
    refine (made_apply_iff (c := .severity severity) (d := .priority priority) trivial ha₁.order).mpr ?_
    exact made_apply ha.order
  · refine (made_apply_iff (c := .priority priority) (d := .acknowledge) trivial ha₂.order).mpr ?_
    exact made_apply ha₁.order

/-- A severity, a priority and an acknowledgement at one instant succeed in any order with the same alert, and then
change nothing when they are repeated. -/
def ChangesCommute (a : Alert) : Prop :=
  ∀ (severity : AlertSeverity) (priority : AlertPriority) (x y z : Value) (i : Instant),
    normalizeChangeTime x = some i → normalizeChangeTime y = some i → normalizeChangeTime z = some i →
    a.updatedAt ≤ i → ∃ b : Alert,
      (∀ rs : List Request, rs.Perm (threeChanges severity priority x y z) → rs.foldlM perform a = .ok b) ∧
      ∀ t i', normalizeChangeTime t = some i' → i ≤ i' →
        ∀ r ∈ threeChanges severity priority t t t, perform b r = .ok b

theorem changesCommute_of_readable (hread : a.Readable) (hactive : a.state ≠ .closed) : ChangesCommute a := by
  intro severity priority x y z i hx hy hz horder
  have ha : ActiveAt i a := ⟨hread, horder, hactive⟩
  obtain ⟨b, hb, hb', hseverity, hpriority, hacknowledge⟩ := exists_threeChanges hx hy hz ha
  refine ⟨b, fun rs hperm => ?_, fun t i' ht hi => ?_⟩
  · have hcomm : ∀ r ∈ threeChanges severity priority x y z, ∀ r' ∈ threeChanges severity priority x y z,
        ∀ a, ActiveAt i a → (perform a r >>= fun a₁ => perform a₁ r') =
          (perform a r' >>= fun a₁ => perform a₁ r) :=
      fun r hr r' hr' _ ha => threeChanges_comm hx hy hz ha r hr r' hr'
    rw [← hb]
    exact (foldlM_perm hperm.symm (threeChanges_ok hx hy hz) hcomm ha).symm
  · have hlater : ActiveAt i' b := ⟨hb'.readable, hb'.order.trans hi, hb'.active⟩
    intro r hr
    simp only [threeChanges, List.mem_cons, List.not_mem_nil, or_false] at hr
    rcases hr with rfl | rfl | rfl
    · exact perform_of_made (c := .severity severity) ht hlater hseverity
    · exact perform_of_made (c := .priority priority) ht hlater hpriority
    · exact perform_of_made (c := .acknowledge) ht hlater hacknowledge

/-- When the first of several requests succeeds the alert can be read. -/
theorem readable_of_foldlM {r : Request} {rs : List Request} {b : Alert} (h : (r :: rs).foldlM perform a = .ok b) :
    a.Readable := by
  rw [List.foldlM_cons] at h
  obtain ⟨a', ha', -⟩ := bind_eq_ok.mp h
  exact readable_of_perform ha'

theorem readable_of_changesCommute (h : ChangesCommute a) : a.Readable := by
  have hnow : normalizeChangeTime (.datetime a.updatedAt.toDateTime) = some a.updatedAt := rfl
  obtain ⟨b, hb, -⟩ := h .low .low _ _ _ _ hnow hnow hnow le_rfl
  exact readable_of_foldlM (hb _ (List.Perm.refl _))

/-- **Independent changes at one instant commute**: on a reachable alert that is not closed a severity, a
priority and an acknowledgement succeed in any order with the same alert, and then change nothing when they
are repeated, exactly when the evidence can be copied. -/
theorem changes_commute {v : Value} (hv : Reachable v) : ∃ a : Alert, v = a.toValue ∧
    (a.state ≠ .closed → (ChangesCommute a ↔ a.sourceMatch.Copyable)) := by
  obtain ⟨a, rfl⟩ := hv.exists_alert
  refine ⟨a, rfl, fun hactive => ?_⟩
  rw [← hv.readable_iff]
  exact ⟨readable_of_changesCommute, fun hread => changesCommute_of_readable hread hactive⟩

end ThreeChanges

theorem changes_commute_example : ∃ (_ : Runtime) (a b : Alert), Reachable a.toValue ∧
    [Request.acknowledge (exampleTime 1),
      .setPriority (StrEnum.toValue AlertPriority.high) (exampleTime 1),
      .setSeverity (StrEnum.toValue AlertSeverity.low) (exampleTime 1)].foldlM perform a = .ok b := by
  let runtime := Runtime.ordinary
  have hreach := Reachable.created (createAlert_exampleAlert ⟨"alice-1", by decide⟩ .normal)
  have htime : normalizeChangeTime (exampleTime 1) = some (exampleInstant 1) := rfl
  have hlater : exampleInstant 0 ≤ exampleInstant 1 := by decide
  obtain ⟨a, ha, hchanges⟩ := changes_commute hreach
  obtain rfl := Alert.toValue_injective ha
  obtain ⟨b, hb, -⟩ := (hchanges nofun).mpr exampleMatch_copyable.1 .low .high _ _ _ _ htime htime htime hlater
  exact ⟨runtime, _, b, hreach, hb _ (List.reverse_perm (threeChanges _ _ _ _ _))⟩

/-- With 1000 frames no order of the changes succeeds on the new alert for a trace of 170 negations. -/
theorem changes_commute_deep : ∃ (runtime : Runtime) (a : Alert), runtime.frames = 1000 ∧ Reachable a.toValue ∧
    a.state = .new ∧ ∀ rs : List Request,
      rs.Perm (threeChanges .low .high (exampleTime 1) (exampleTime 1) (exampleTime 1)) →
        ∀ b, rs.foldlM perform a ≠ .ok b := by
  let runtime := Runtime.ordinary
  obtain ⟨hdumps, hcopy⟩ := deepMatch_dumps
  have hreach := Reachable.created (createAlert_ok hdumps ⟨"alice-1", by decide⟩
    (requireAwareUtcInstant_toDateTime (exampleInstant 0)) .unassigned .normal)
  refine ⟨runtime, _, rfl, hreach, rfl, fun rs hperm b hb => ?_⟩
  cases rs with
  | nil => exact absurd hperm.length_eq nofun
  | cons r rs => exact hcopy (readable_of_foldlM hb).copies

end SocLab
