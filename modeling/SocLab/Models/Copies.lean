import SocLab.Models.DetectionMatch
import SocLab.Py.Copy

/-!
# SocLab.Models.Copies — what a copy of a match takes

A match holds an event with its context and a trace, and nothing in them but the time zones of datetimes can refuse
to be copied.  The frames and the nesting come from the height of the trace.

* `copies_event`, `copies_context`: events and contexts take a few frames.
* `DetectionMatch.copies_iff` and `DetectionMatch.nesting_le`: when a match can be copied and dumped.
* `DetectionMatch.sparse`: fields of a match that were not given hold defaults.
-/

namespace SocLab

open Py Py.Validation Py.Codec

/-! ### Declared types -/

theorem atomic_nonEmptyString : nonEmptyString.Atomic := atomic_str.constrained _ _

theorem atomic_nonNegativeInteger : nonNegativeInteger.Atomic := atomic_int.constrained _ _

theorem atomic_positiveInteger : positiveInteger.Atomic := atomic_int.constrained _ _

theorem atomic_port : port.Atomic := atomic_int.constrained _ _

theorem atomic_optionalStr : optionalStr.Atomic := atomic_str.nullable _

theorem atomic_optionalNonNegativeInteger : optionalNonNegativeInteger.Atomic :=
  atomic_nonNegativeInteger.nullable _

theorem atomic_optionalPort : optionalPort.Atomic := atomic_port.nullable _

theorem atomic_optionalIp : optionalIp.Atomic := atomic_ip.nullable _

theorem atomic_optionalOperator : optionalOperator.Atomic := (atomic_enum DetectionOperator).nullable _

theorem atomic_optionalAbsence : optionalAbsence.Atomic := (atomic_literal Absence).nullable _

theorem isDefault_none : Value.IsDefault .none := Or.inl rfl

/-! ### Contexts -/

theorem AuthenticationContext.plain_slots (c : AuthenticationContext) : ∀ s ∈ c.slots, s.Plain := by
  simp only [slots, List.forall_mem_cons]
  exact ⟨plain_given (atomic_enum _), plain_field atomic_optionalStr isDefault_none,
    plain_field atomic_optionalStr isDefault_none, plain_field atomic_optionalNonNegativeInteger isDefault_none,
    plain_field atomic_optionalIp isDefault_none, plain_field atomic_optionalPort isDefault_none,
    plain_field atomic_optionalStr isDefault_none, by simp⟩

theorem ProcessContext.plain_slots (c : ProcessContext) : ∀ s ∈ c.slots, s.Plain := by
  simp only [slots, List.forall_mem_cons]
  exact ⟨plain_given atomic_nonEmptyString, plain_field atomic_optionalNonNegativeInteger isDefault_none,
    plain_field atomic_optionalStr isDefault_none, plain_field atomic_optionalNonNegativeInteger isDefault_none,
    plain_field atomic_optionalStr isDefault_none, plain_field atomic_optionalStr isDefault_none, by simp⟩

theorem NetworkContext.plain_slots (c : NetworkContext) : ∀ s ∈ c.slots, s.Plain := by
  simp only [slots, List.forall_mem_cons]
  exact ⟨plain_given atomic_ip, plain_given atomic_port, plain_given atomic_ip, plain_given atomic_port,
    plain_field atomic_optionalStr isDefault_none, plain_field atomic_optionalNonNegativeInteger isDefault_none,
    plain_field atomic_optionalStr isDefault_none, by simp⟩

theorem FileContext.plain_slots (c : FileContext) : ∀ s ∈ c.slots, s.Plain := by
  simp only [slots, List.forall_mem_cons]
  exact ⟨plain_given atomic_nonEmptyString, plain_field atomic_optionalNonNegativeInteger isDefault_none,
    plain_field atomic_optionalStr isDefault_none, by simp⟩

theorem DnsContext.plain_slots (c : DnsContext) : ∀ s ∈ c.slots, s.Plain := by
  simp only [slots, List.forall_mem_cons]
  exact ⟨plain_given atomic_nonEmptyString, plain_field atomic_optionalStr isDefault_none,
    plain_field atomic_optionalStr isDefault_none, plain_field atomic_optionalNonNegativeInteger isDefault_none,
    plain_field atomic_optionalStr isDefault_none, by simp⟩

namespace EventContext

theorem plain_slots (c : EventContext) : ∀ s ∈ c.slots, s.Plain := by
  cases c with
  | authentication c => exact c.plain_slots
  | process c => exact c.plain_slots
  | network c => exact c.plain_slots
  | file c => exact c.plain_slots
  | dns c => exact c.plain_slots

/-- The instance of a context is made of its slots. -/
theorem exists_modelOf (c : EventContext) :
    ∃ cls, c.toValue = modelOf cls c.slots ∧ (c.slots.map (·.name)).Nodup := by
  cases c with
  | authentication c => exact ⟨_, rfl, c.nodup_slots⟩
  | process c => exact ⟨_, rfl, c.nodup_slots⟩
  | network c => exact ⟨_, rfl, c.nodup_slots⟩
  | file c => exact ⟨_, rfl, c.nodup_slots⟩
  | dns c => exact ⟨_, rfl, c.nodup_slots⟩

theorem copies {n : Nat} (c : EventContext) (hn : 4 ≤ n) : c.toValue.Copies n := by
  obtain ⟨cls, hvalue, -⟩ := c.exists_modelOf
  rw [hvalue, copies_modelOf]
  exact ⟨hn, fun s hs => (c.plain_slots s hs).atomic.copies _⟩

theorem nesting_le (c : EventContext) : c.toValue.nesting ≤ 1 := by
  obtain ⟨cls, hvalue, hnodup⟩ := c.exists_modelOf
  rw [hvalue, nesting_modelOf_le hnodup]
  exact ⟨le_rfl, fun s hs _ => (Value.nesting_scalar (c.plain_slots s hs).atomic.scalar).le⟩

theorem sparse (c : EventContext) : c.toValue.Sparse := by
  obtain ⟨cls, hvalue, hnodup⟩ := c.exists_modelOf
  rw [hvalue, sparse_modelOf hnodup]
  exact fun s hs => (c.plain_slots s hs).sparse

end EventContext

/-! ### Events -/

namespace NormalizedEvent

variable (e : NormalizedEvent)

/-- The instance of the event. -/
def toValue : Value := codec.enc e

theorem toValue_eq : e.toValue = modelOf "NormalizedEvent" e.slots := rfl

/-- The slots of an event: plain ones, the timestamp, the context and the retained data. -/
theorem slots_cases {s : Slot} (h : s ∈ e.slots) :
    s.Plain ∨ s = .given "timestamp" .datetime e.timestamp ∨ s = .given "context" EventContext.codec e.context ∨
      s = .field "source_data" .strDict .empty e.sourceData := by
  simp only [EventFields.slots, List.mem_cons, List.not_mem_nil, or_false] at h
  rcases h with rfl | rfl | rfl | rfl | rfl | rfl | rfl | rfl | rfl | rfl
  · exact Or.inl (plain_given (atomic_enum _))
  · exact Or.inl (plain_given atomic_nonEmptyString)
  · exact Or.inl (plain_given atomic_positiveInteger)
  · exact Or.inl (plain_given atomic_nonEmptyString)
  · exact Or.inr (Or.inl rfl)
  · exact Or.inl (plain_given atomic_nonEmptyString)
  · exact Or.inl (plain_field atomic_optionalNonNegativeInteger isDefault_none)
  · exact Or.inl (plain_given (atomic_enum _))
  · exact Or.inr (Or.inr (Or.inl rfl))
  · exact Or.inr (Or.inr (Or.inr rfl))

/-- The parts of retained data are texts. -/
theorem exists_of_mem_sourceData {d : StrDict} {p : String × Value} (h : p ∈ d.val.map fun p => (p.1, Value.str p.2)) :
    ∃ s, p.2 = .str s := by
  obtain ⟨q, -, rfl⟩ := List.mem_map.mp h
  exact ⟨q.2, rfl⟩

/-- An event is copied when its time zone is. -/
theorem copies {n : Nat} (hn : 8 ≤ n) : e.toValue.Copies n ↔ e.timestamp.val.copyFailure = none := by
  rw [toValue_eq, copies_modelOf]
  constructor
  · intro h
    exact h.2 (.given "timestamp" .datetime e.timestamp) (by simp [EventFields.slots])
  · intro h
    refine ⟨by omega, fun s hs => ?_⟩
    rcases e.slots_cases hs with hplain | rfl | rfl | rfl
    · exact hplain.atomic.copies _
    · exact h
    · exact e.context.copies (by omega)
    · refine Value.copies_dict.mpr ⟨by omega, fun p hp => ?_⟩
      obtain ⟨s, hs⟩ := exists_of_mem_sourceData hp
      rw [hs]
      rfl

theorem nesting_le : e.toValue.nesting ≤ 2 := by
  rw [toValue_eq, nesting_modelOf_le e.nodup_slots]
  refine ⟨by decide, fun s hs _ => ?_⟩
  rcases e.slots_cases hs with hplain | rfl | rfl | rfl
  · rw [Value.nesting_scalar hplain.atomic.scalar]
    decide
  · exact Nat.zero_le _
  · exact e.context.nesting_le
  · refine Value.nesting_dict_le.mpr fun p hp => ?_
    obtain ⟨s, hs⟩ := exists_of_mem_sourceData hp
    rw [hs]
    exact Nat.zero_le _

theorem sparse : e.toValue.Sparse := by
  rw [toValue_eq, sparse_modelOf e.nodup_slots]
  intro s hs
  rcases e.slots_cases hs with hplain | rfl | rfl | rfl
  · exact hplain.sparse
  · exact Value.sparse_scalar trivial
  · exact e.context.sparse
  · cases e.sourceData with
    | unset => exact Or.inr (Or.inr (Or.inr rfl))
    | set d =>
      refine Value.sparse_dict.mpr fun p hp => ?_
      obtain ⟨s, hs⟩ := exists_of_mem_sourceData hp
      rw [hs]
      trivial

end NormalizedEvent

/-! ### Traces -/

namespace TraceNode

variable {e : TraceEvidence} {cs : ModelField (List TraceNode)} {n : Nat}

/-- The slots of a node: plain ones, the children, the operand and the actual value. -/
theorem slots_cases {children : Value} {given : Bool} {s : Slot} (h : s ∈ slots e children given) :
    s.Plain ∨ s = ⟨"children", children, given⟩ ∨ s = ⟨"expected", e.expected.get .none, e.expected.isSet⟩ ∨
      s = ⟨"actual", e.actual.get .none, e.actual.isSet⟩ := by
  simp only [slots, List.mem_cons, List.not_mem_nil, or_false] at h
  rcases h with rfl | rfl | rfl | rfl | rfl | rfl | rfl | rfl | rfl | rfl | rfl
  · exact Or.inl (plain_given atomic_str)
  · exact Or.inl (plain_given (atomic_literal _))
  · exact Or.inl (plain_given (atomic_enum _))
  · exact Or.inr (Or.inl rfl)
  · exact Or.inl (plain_field atomic_optionalStr isDefault_none)
  · exact Or.inl (plain_field atomic_optionalOperator isDefault_none)
  · exact Or.inr (Or.inr (Or.inl rfl))
  · exact Or.inr (Or.inr (Or.inr rfl))
  · exact Or.inl (plain_field atomic_optionalAbsence isDefault_none)
  · exact Or.inl (plain_field atomic_bool (Or.inr (Or.inl ⟨false, rfl⟩)))
  · exact Or.inl (plain_field atomic_optionalStr isDefault_none)

/-- An operand is a text or a number, or a list of them. -/
theorem atomic_or_list_of_expected {locations : List String} (h : TraceShape e locations) :
    (e.expected.get .none).Atomic ∨ ∃ items, e.expected.get .none = .list items ∧ ∀ v ∈ items, v.Atomic := by
  have hatomic {v : Value} (hv : v.type = .str ∨ v.type = .int) : v.Atomic := by
    rcases hv with hv | hv
    · obtain ⟨s, rfl⟩ := Value.type_eq_str.mp hv
      trivial
    · obtain ⟨k, rfl⟩ := Value.type_eq_int.mp hv
      trivial
  cases hx : e.expected with
  | unset => exact Or.inl trivial
  | set v =>
    obtain ⟨op, hop⟩ := ConditionTrace.validOperand_expected h hx
    rcases operand_of_validOperand hop with htype | ⟨items, rfl, hitems⟩
    · exact Or.inl (hatomic htype)
    · exact Or.inr ⟨items, rfl, fun v hv => hatomic (hitems v hv)⟩

/-- An actual value is a scalar of an event. -/
theorem atomic_or_datetime_of_actual {locations : List String} (h : TraceShape e locations) :
    (e.actual.get .none).Atomic ∨ ∃ d, e.actual = .set (.datetime d) := by
  cases hx : e.actual with
  | unset => exact Or.inl trivial
  | set v =>
    have hsafe := (h.actual v hx).1
    cases v with
    | datetime d => exact Or.inr ⟨d, rfl⟩
    | list items => cases hsafe
    | dict items => cases hsafe
    | model cls fields given => cases hsafe
    | object o => cases hsafe
    | _ => exact Or.inl trivial

/-- A node is copied with six frames more than its children, when its datetime is. -/
theorem copies_mk (h : Valid (mk e cs)) :
    (toValue (mk e cs)).Copies n ↔ 6 ≤ n ∧ (∀ d, e.actual = .set (.datetime d) → d.copyFailure = none) ∧
      ∀ c ∈ cs.get [], c.toValue.Copies (n - 6) := by
  have hshape := validateTrace_eq_ok.mp (valid_mk.mp h).1
  have hlist : (Value.list ((cs.get []).map toValue)).Copies (n - 4) ↔
      2 ≤ n - 4 ∧ ∀ c ∈ cs.get [], c.toValue.Copies (n - 4 - 2) := by
    rw [Value.copies_list, List.forall_mem_map]
  rw [toValue_mk, copies_modelOf]
  constructor
  · intro hcopies
    obtain ⟨hn, hslots⟩ := hcopies
    obtain ⟨htwo, hchildren⟩ := hlist.mp
      (hslots ⟨"children", .list ((cs.get []).map toValue), cs.isSet⟩ (by simp [slots]))
    refine ⟨by omega, fun d hd => ?_, fun c hc => ?_⟩
    · have hactual := hslots ⟨"actual", e.actual.get .none, e.actual.isSet⟩ (by simp [slots])
      rw [hd] at hactual
      exact hactual
    · have hsub : n - 4 - 2 = n - 6 := by omega
      exact hsub ▸ hchildren c hc
  · intro hcopies
    obtain ⟨hn, hactual, hchildren⟩ := hcopies
    refine ⟨by omega, fun s hs => ?_⟩
    -- plain fields are copied without frames of their own; the children and the expected list are not
    rcases slots_cases hs with hplain | rfl | rfl | rfl
    · exact hplain.atomic.copies _
    · have hsub : n - 4 - 2 = n - 6 := by omega
      exact hlist.mpr ⟨by omega, hsub ▸ hchildren⟩
    · rcases atomic_or_list_of_expected hshape with hatomic | ⟨items, hitems, hatomic⟩
      · exact hatomic.copies _
      · dsimp only
        rw [hitems, Value.copies_list]
        exact ⟨by omega, fun v hv => (hatomic v hv).copies _⟩
    · rcases atomic_or_datetime_of_actual hshape with hatomic | ⟨d, hd⟩
      · exact hatomic.copies _
      · dsimp only
        rw [hd]
        exact hactual d hd

/-- A node nests one instance more than its children. -/
theorem nesting_mk_le (h : Valid (mk e cs)) :
    (toValue (mk e cs)).nesting ≤ n ↔ 1 ≤ n ∧ ∀ c ∈ cs.get [], c.toValue.nesting ≤ n - 1 := by
  have hshape := validateTrace_eq_ok.mp (valid_mk.mp h).1
  have hlist : (Value.list ((cs.get []).map toValue)).nesting ≤ n - 1 ↔
      ∀ c ∈ cs.get [], c.toValue.nesting ≤ n - 1 := by
    rw [Value.nesting_list_le, List.forall_mem_map]
  rw [toValue_mk, nesting_modelOf_le (nodup_slots _ _ _)]
  refine and_congr_right fun _ => ?_
  constructor
  · intro hslots
    cases cs with
    | unset => exact fun c hc => absurd hc (by simp)
    | set cs => exact hlist.mp (hslots ⟨"children", .list (cs.map toValue), true⟩ (by simp [slots]) rfl)
  · intro hchildren s hs _
    rcases slots_cases hs with hplain | rfl | rfl | rfl
    · rw [Value.nesting_scalar hplain.atomic.scalar]
      exact Nat.zero_le _
    · exact hlist.mpr hchildren
    · rcases atomic_or_list_of_expected hshape with hatomic | ⟨items, hitems, hatomic⟩
      · rw [Value.nesting_scalar hatomic.scalar]
        exact Nat.zero_le _
      · dsimp only
        rw [hitems, Value.nesting_list_le]
        intro v hv
        rw [Value.nesting_scalar (hatomic v hv).scalar]
        exact Nat.zero_le _
    · rcases atomic_or_datetime_of_actual hshape with hatomic | ⟨d, hd⟩
      · rw [Value.nesting_scalar hatomic.scalar]
        exact Nat.zero_le _
      · dsimp only
        rw [hd]
        exact Nat.zero_le _

theorem sparse (t : TraceNode) (h : t.Valid) : t.toValue.Sparse := by
  induction t with
  | mk e cs ih =>
    have hshape := validateTrace_eq_ok.mp (valid_mk.mp h).1
    rw [toValue_mk, sparse_modelOf (nodup_slots _ _ _)]
    intro s hs
    rcases slots_cases hs with hplain | rfl | rfl | rfl
    · exact hplain.sparse
    · cases cs with
      | unset => exact Or.inr (Or.inr (Or.inl rfl))
      | set cs =>
        refine Value.sparse_list.mpr (List.forall_mem_map.mpr fun c hc => ?_)
        exact ih c hc ((valid_mk.mp h).2 c hc)
    · cases hx : e.expected with
      | unset => exact isDefault_none
      | set v =>
        rcases atomic_or_list_of_expected hshape with hatomic | ⟨items, hitems, hatomic⟩
        · rw [hx] at hatomic
          exact Value.sparse_scalar hatomic.scalar
        · rw [hx] at hitems
          obtain rfl : v = .list items := hitems
          exact Value.sparse_list.mpr fun v hv => Value.sparse_scalar (hatomic v hv).scalar
    · cases hx : e.actual with
      | unset => exact isDefault_none
      | set v =>
        rcases atomic_or_datetime_of_actual hshape with hatomic | ⟨d, hd⟩
        · rw [hx] at hatomic
          exact Value.sparse_scalar hatomic.scalar
        · rw [hx] at hd
          cases hd
          exact Value.sparse_scalar trivial

/-- The time zones of the actual values can be copied. -/
def ClocksCopy (t : TraceNode) : Prop :=
  ∀ c ∈ t.nodes, ∀ d, c.evidence.actual = .set (.datetime d) → d.copyFailure = none

theorem clocksCopy_mk : ClocksCopy (mk e cs) ↔
    (∀ d, e.actual = .set (.datetime d) → d.copyFailure = none) ∧ ∀ c ∈ cs.get [], c.ClocksCopy := by
  simp only [ClocksCopy, mem_nodes_mk, forall_eq_or_imp]
  refine and_congr Iff.rfl ?_
  constructor
  · exact fun h c hc n hn => h n ⟨c, hc, hn⟩
  · rintro h n ⟨c, hc, hn⟩
    exact h c hc n hn

/-- **What a copy of a trace takes**: six frames for each level, and time zones that can be copied. -/
theorem copies_iff (t : TraceNode) (h : t.Valid) (n : Nat) :
    t.toValue.Copies n ↔ 6 * t.height ≤ n ∧ t.ClocksCopy := by
  induction t generalizing n with
  | mk e cs ih =>
    have hvalid := (valid_mk.mp h).2
    have hheight : 6 * (mk e cs).height ≤ n ↔ 6 ≤ n ∧ ∀ c ∈ cs.get [], 6 * c.height ≤ n - 6 := by
      have hle : heightAll (cs.get []) ≤ (n - 6) / 6 ↔ ∀ c ∈ cs.get [], 6 * c.height ≤ n - 6 := by
        rw [heightAll_le]
        refine forall₂_congr fun c _ => ?_
        omega
      rw [← hle, height_mk]
      omega
    rw [copies_mk h, hheight, clocksCopy_mk]
    constructor
    · rintro ⟨hn, hactual, hcs⟩
      refine ⟨⟨hn, fun c hc => ?_⟩, hactual, fun c hc => ?_⟩
      · exact ((ih c hc (hvalid c hc) (n - 6)).mp (hcs c hc)).1
      · exact ((ih c hc (hvalid c hc) (n - 6)).mp (hcs c hc)).2
    · rintro ⟨⟨hn, hheights⟩, hactual, hclocks⟩
      exact ⟨hn, hactual, fun c hc => (ih c hc (hvalid c hc) (n - 6)).mpr ⟨hheights c hc, hclocks c hc⟩⟩

/-- A trace nests as many instances as it is high. -/
theorem nesting_le_iff (t : TraceNode) (h : t.Valid) (n : Nat) : t.toValue.nesting ≤ n ↔ t.height ≤ n := by
  induction t generalizing n with
  | mk e cs ih =>
    have hheight : (mk e cs).height ≤ n ↔ 1 ≤ n ∧ ∀ c ∈ cs.get [], c.height ≤ n - 1 := by
      rw [← heightAll_le, height_mk]
      omega
    rw [nesting_mk_le h, hheight]
    exact and_congr_right fun _ => forall₂_congr fun c hc => ih c hc ((valid_mk.mp h).2 c hc) (n - 1)

/-- A dump takes four frames for each level. -/
theorem copies_dump (t : TraceNode) (h : t.Valid) {n : Nat} (hn : 4 * t.height ≤ n) (hclocks : t.ClocksCopy) :
    t.toValue.dump.Copies n := by
  induction t generalizing n with
  | mk e cs ih =>
    have hshape := validateTrace_eq_ok.mp (valid_mk.mp h).1
    rw [height_mk] at hn
    rw [clocksCopy_mk] at hclocks
    rw [toValue_mk]
    refine copies_dump_modelOf (nodup_slots _ _ _) (by omega) fun s hs => ?_
    rcases slots_cases hs with hplain | rfl | rfl | rfl
    · exact (hplain.atomic.copies _).dump
    · dsimp only
      rw [Value.dump_list, List.map_map, Value.copies_list, List.forall_mem_map]
      refine ⟨by omega, fun c hc => ih c hc ((valid_mk.mp h).2 c hc) ?_ (hclocks.2 c hc)⟩
      have hle := heightAll_le.mp le_rfl c hc
      omega
    · rcases atomic_or_list_of_expected hshape with hatomic | ⟨items, hitems, hatomic⟩
      · exact (hatomic.copies _).dump
      · dsimp only
        rw [hitems]
        exact (Value.copies_list.mpr ⟨by omega, fun v hv => (hatomic v hv).copies _⟩).dump
    · rcases atomic_or_datetime_of_actual hshape with hatomic | ⟨d, hd⟩
      · exact (hatomic.copies _).dump
      · dsimp only
        rw [hd]
        exact hclocks.1 d hd

end TraceNode

/-! ### Matches -/

namespace DetectionMatch

variable (m : DetectionMatch)

/-- The match as a value. -/
def toValue : Value := codec.enc m

theorem toValue_eq : m.toValue = modelOf "DetectionMatch" m.slots := rfl

/-- The slots of a match: plain ones, the event and the trace. -/
theorem slots_cases {s : Slot} (h : s ∈ m.slots) : s.Plain ∨ s = .given "event" NormalizedEvent.codec m.event ∨
    s = .given "trace" ConditionTrace.codec m.trace := by
  simp only [MatchFields.slots, List.mem_cons, List.not_mem_nil, or_false] at h
  rcases h with rfl | rfl | rfl | rfl | rfl | rfl
  · exact Or.inl (plain_given atomic_str)
  · exact Or.inl (plain_given atomic_positiveInteger)
  · exact Or.inl (plain_given atomic_str)
  · exact Or.inr (Or.inl rfl)
  · exact Or.inl (plain_given (atomic_enum _))
  · exact Or.inr (Or.inr rfl)

/-- The time zones of the match can be copied, and `n` frames are enough for the levels of its trace. -/
structure CopiedIn (n : Nat) : Prop where
  timestamp : m.event.timestamp.val.copyFailure = none
  actual : m.trace.node.ClocksCopy
  height : 6 * m.trace.node.height + 4 ≤ n

/-- **What a copy of a match takes.** -/
theorem copies_iff {n : Nat} (hn : 12 ≤ n) : m.toValue.Copies n ↔ m.CopiedIn n := by
  have htrace : m.trace.toValue.Copies (n - 4) ↔ _ := m.trace.node.copies_iff m.trace.valid (n - 4)
  have hevent := m.event.copies (n := n - 4) (by omega)
  rw [toValue_eq, copies_modelOf]
  constructor
  · intro h
    have hevent := hevent.mp (h.2 (.given "event" NormalizedEvent.codec m.event) (by simp [MatchFields.slots]))
    have htrace := htrace.mp (h.2 (.given "trace" ConditionTrace.codec m.trace) (by simp [MatchFields.slots]))
    exact ⟨hevent, htrace.2, by omega⟩
  · intro h
    have hheight := h.height
    refine ⟨by omega, fun s hs => ?_⟩
    rcases m.slots_cases hs with hplain | rfl | rfl
    · exact hplain.atomic.copies _
    · exact hevent.mpr h.timestamp
    · exact htrace.mpr ⟨by omega, h.actual⟩

/-- A dump of a match takes two frames, and four for each level of its trace. -/
theorem copies_dump {n : Nat} (hn : 12 ≤ n) (hheight : 4 * m.trace.node.height + 2 ≤ n)
    (htimestamp : m.event.timestamp.val.copyFailure = none) (hactual : m.trace.node.ClocksCopy) :
    m.toValue.dump.Copies n := by
  rw [toValue_eq]
  refine copies_dump_modelOf m.nodup_slots (by omega) fun s hs => ?_
  rcases m.slots_cases hs with hplain | rfl | rfl
  · exact (hplain.atomic.copies _).dump
  · exact ((m.event.copies (by omega)).mpr htimestamp).dump
  · exact m.trace.node.copies_dump m.trace.valid (by omega) hactual

theorem nesting_le {n : Nat} (hn : 3 ≤ n) : m.toValue.nesting ≤ n ↔ m.trace.node.height + 1 ≤ n := by
  have htrace : m.trace.toValue.nesting ≤ n - 1 ↔ _ := m.trace.node.nesting_le_iff m.trace.valid (n - 1)
  have hsub : m.trace.node.height + 1 ≤ n ↔ m.trace.node.height ≤ n - 1 := by omega
  rw [hsub, ← htrace, toValue_eq, nesting_modelOf_le m.nodup_slots]
  constructor
  · intro h
    exact h.2 (.given "trace" ConditionTrace.codec m.trace) (by simp [MatchFields.slots]) rfl
  · intro h
    refine ⟨by omega, fun s hs _ => ?_⟩
    rcases m.slots_cases hs with hplain | rfl | rfl
    · rw [Value.nesting_scalar hplain.atomic.scalar]
      exact Nat.zero_le _
    · exact m.event.nesting_le.trans (by omega)
    · exact h

/-- **Fields of a match that were not given hold defaults**, at every depth. -/
theorem sparse : m.toValue.Sparse := by
  rw [toValue_eq, sparse_modelOf m.nodup_slots]
  intro s hs
  rcases m.slots_cases hs with hplain | rfl | rfl
  · exact hplain.sparse
  · exact m.event.sparse
  · exact m.trace.node.sparse m.trace.valid

end DetectionMatch

/-! ### Traces of any height -/

/-- The trace of a leaf below `k` negations. -/
def nestedTrace : Nat → String → TraceNode
  | 0, location => .mk { location, kind := .leaf, outcome := .true, field := .set (some "event_id"),
                          op := .set (some .exists_), actual := .set (.int 4624) } .unset
  | k + 1, location => .mk { location, kind := .not_, outcome := if (k + 1) % 2 = 0 then .true else .false }
      (.set [nestedTrace k (notLocation location)])

theorem location_nestedTrace (k : Nat) (location : String) : (nestedTrace k location).location = location := by
  cases k <;> rfl

theorem height_nestedTrace (k : Nat) (location : String) : (nestedTrace k location).height = k + 1 := by
  induction k generalizing location with
  | zero => rfl
  | succ k ih => simp [nestedTrace, TraceNode.height, TraceNode.heightAll, ih]

theorem clocksCopy_nestedTrace (k : Nat) (location : String) : (nestedTrace k location).ClocksCopy := by
  induction k generalizing location with
  | zero => exact TraceNode.clocksCopy_mk.mpr ⟨by simp, by simp⟩
  | succ k ih => exact TraceNode.clocksCopy_mk.mpr ⟨by simp, by simpa using ih _⟩

theorem valid_nestedTrace (k : Nat) {location : String} (h : traceLocation.fullmatch location.toList = true) :
    (nestedTrace k location).Valid := by
  induction k generalizing location with
  | zero =>
    have hpath : validPath "event_id" = true := by decide
    refine TraceNode.valid_mk.mpr ⟨validateTrace_eq_ok.mpr ?_, by simp⟩
    constructor <;> simp [h, hpath, safeActual, existenceOperators]
  | succ k ih =>
    refine TraceNode.valid_mk.mpr ⟨validateTrace_eq_ok.mpr ?_, by simpa using ih (traceLocation_not h)⟩
    constructor <;> simp [h, location_nestedTrace]

theorem outcome_nestedTrace (k : Nat) (location : String) :
    (nestedTrace k location).evidence.outcome = if k % 2 = 0 then .true else .false := by cases k <;> rfl

/-- A match of the event whose trace negates `k` times. -/
def nestedMatch (event : NormalizedEvent) (k : Nat) (hk : k % 2 = 0) : DetectionMatch where
  ruleId := "nested"
  ruleVersion := DetectionRule.exampleRule.version
  ruleTitle := "Nested negations"
  event := event
  rootOutcome := .true
  trace := ⟨nestedTrace k "$", valid_nestedTrace k (by decide)⟩
  valid := by
    have houtcome : (nestedTrace k "$").evidence.outcome = .true := by rw [outcome_nestedTrace, if_pos hk]
    have hid : slug.fullmatch "nested".toList = true ∧ strip "Nested negations" ≠ "" := by decide
    exact validateMatch_eq_ok.mpr ⟨hid.1, hid.2, rfl, houtcome, location_nestedTrace k "$"⟩

end SocLab
