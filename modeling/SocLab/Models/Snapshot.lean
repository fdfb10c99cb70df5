import SocLab.Models.DetectionMatch
import SocLab.Py.Snapshot

/-!
# SocLab.Models.Snapshot — the classes below a match take nothing that they would have to repair

Each declared type of an event, a context, a trace or a match is exact: an instance that equals the value from
whose dump it was validated is a snapshot of that value, at every depth.
-/

namespace SocLab

open Py Py.Validation Py.Codec

/-! ### Declared types -/

theorem exact_nonEmptyString : nonEmptyString.Exact := exact_str.constrained _ _

theorem exact_nonNegativeInteger : nonNegativeInteger.Exact := exact_int.constrained _ _

theorem exact_positiveInteger : positiveInteger.Exact := exact_int.constrained _ _

theorem exact_port : port.Exact := exact_int.constrained _ _

theorem exact_optionalStr : optionalStr.Exact := exact_str.nullable _

theorem exact_optionalNonNegativeInteger : optionalNonNegativeInteger.Exact :=
  exact_nonNegativeInteger.nullable _

theorem exact_optionalPort : optionalPort.Exact := exact_port.nullable _

theorem exact_optionalIp : optionalIp.Exact := exact_ip.nullable _

theorem exact_optionalOperator : optionalOperator.Exact := (exact_enum DetectionOperator).nullable _

theorem exact_optionalAbsence : optionalAbsence.Exact := (exact_literal Absence).nullable _

/-! ### Contexts -/

theorem AuthenticationContext.exact : AuthenticationContext.modelClass.codec.Exact := by
  refine ModelClass.exact fun d c h => ?_
  obtain ⟨houtcome, huser, hdomain, hlogon, hip, hport, hworkstation⟩ := fields_eq_ok.mp h
  change ∀ s ∈ c.slots, SlotRead d s
  simp only [slots, List.forall_mem_cons]
  exact ⟨slotRead_given (exact_enum _) houtcome, slotRead_field exact_optionalStr huser,
    slotRead_field exact_optionalStr hdomain, slotRead_field exact_optionalNonNegativeInteger hlogon,
    slotRead_field exact_optionalIp hip, slotRead_field exact_optionalPort hport,
    slotRead_field exact_optionalStr hworkstation, by simp⟩

theorem ProcessContext.exact : ProcessContext.modelClass.codec.Exact := by
  refine ModelClass.exact fun d c h => ?_
  obtain ⟨himage, hid, hcommand, hparentId, hparent, huser⟩ := fields_eq_ok.mp h
  change ∀ s ∈ c.slots, SlotRead d s
  simp only [slots, List.forall_mem_cons]
  exact ⟨slotRead_given exact_nonEmptyString himage, slotRead_field exact_optionalNonNegativeInteger hid,
    slotRead_field exact_optionalStr hcommand, slotRead_field exact_optionalNonNegativeInteger hparentId,
    slotRead_field exact_optionalStr hparent, slotRead_field exact_optionalStr huser, by simp⟩

theorem NetworkContext.exact : NetworkContext.modelClass.codec.Exact := by
  refine ModelClass.exact fun d c h => ?_
  obtain ⟨hsource, hsourcePort, hdestination, hdestinationPort, hprotocol, hid, himage⟩ := fields_eq_ok.mp h
  change ∀ s ∈ c.slots, SlotRead d s
  simp only [slots, List.forall_mem_cons]
  exact ⟨slotRead_given exact_ip hsource, slotRead_given exact_port hsourcePort,
    slotRead_given exact_ip hdestination, slotRead_given exact_port hdestinationPort,
    slotRead_field exact_optionalStr hprotocol, slotRead_field exact_optionalNonNegativeInteger hid,
    slotRead_field exact_optionalStr himage, by simp⟩

theorem FileContext.exact : FileContext.modelClass.codec.Exact := by
  refine ModelClass.exact fun d c h => ?_
  obtain ⟨hpath, hid, himage⟩ := fields_eq_ok.mp h
  change ∀ s ∈ c.slots, SlotRead d s
  simp only [slots, List.forall_mem_cons]
  exact ⟨slotRead_given exact_nonEmptyString hpath, slotRead_field exact_optionalNonNegativeInteger hid,
    slotRead_field exact_optionalStr himage, by simp⟩

theorem DnsContext.exact : DnsContext.modelClass.codec.Exact := by
  refine ModelClass.exact fun d c h => ?_
  obtain ⟨hname, hstatus, hresults, hid, himage⟩ := fields_eq_ok.mp h
  change ∀ s ∈ c.slots, SlotRead d s
  simp only [slots, List.forall_mem_cons]
  exact ⟨slotRead_given exact_nonEmptyString hname, slotRead_field exact_optionalStr hstatus,
    slotRead_field exact_optionalStr hresults, slotRead_field exact_optionalNonNegativeInteger hid,
    slotRead_field exact_optionalStr himage, by simp⟩

/-- A dump is no instance, so a member of a union reads its fields. -/
theorem member_dump_eq_ok {α β : Type} {cls : ModelClass α} {mk : α → β} {y : Value} {b : β}
    (h : cls.member mk true y.dump = ok b) : ∃ a, cls.codec.validate true y.dump = ok a ∧ mk a = b := by
  have hnone : cls.ofInstance? y.dump = none := by cases y <;> rfl
  rw [ModelClass.member, hnone] at h
  exact map_eq_ok.mp h

/-- **A context is a snapshot in its own class.** -/
theorem EventContext.exact : EventContext.codec.Exact := by
  intro c y h heq
  obtain ⟨v, hv, hc⟩ := exists_of_union_eq_ok h
  simp only [List.mem_cons, List.not_mem_nil, or_false] at hv
  rcases hv with rfl | rfl | rfl | rfl | rfl
  · obtain ⟨a, ha, rfl⟩ := member_dump_eq_ok hc
    exact AuthenticationContext.exact a y ha heq
  · obtain ⟨a, ha, rfl⟩ := member_dump_eq_ok hc
    exact ProcessContext.exact a y ha heq
  · obtain ⟨a, ha, rfl⟩ := member_dump_eq_ok hc
    exact NetworkContext.exact a y ha heq
  · obtain ⟨a, ha, rfl⟩ := member_dump_eq_ok hc
    exact FileContext.exact a y ha heq
  · obtain ⟨a, ha, rfl⟩ := member_dump_eq_ok hc
    exact DnsContext.exact a y ha heq

/-! ### Events -/

theorem EventFields.exact : EventFields.modelClass.codec.Exact := by
  refine ModelClass.exact fun d e h => ?_
  obtain ⟨hsource, hprovider, hid, hchannel, htimestamp, hcomputer, hrecord, hcategory, hcontext, hdata⟩ :=
    fields_eq_ok.mp h
  change ∀ s ∈ e.slots, SlotRead d s
  simp only [slots, List.forall_mem_cons]
  exact ⟨slotRead_given (exact_enum _) hsource, slotRead_given exact_nonEmptyString hprovider,
    slotRead_given exact_positiveInteger hid, slotRead_given exact_nonEmptyString hchannel,
    slotRead_given exact_datetime htimestamp, slotRead_given exact_nonEmptyString hcomputer,
    slotRead_field exact_optionalNonNegativeInteger hrecord, slotRead_given (exact_enum _) hcategory,
    slotRead_given EventContext.exact hcontext, slotRead_field exact_strDict hdata, by simp⟩

theorem NormalizedEvent.exact : NormalizedEvent.codec.Exact := by
  refine EventFields.exact.after fun f e h => ?_
  unfold validateContextMatchesCategory at h
  split_ifs at h
  · cases h
    rfl
  · cases h

/-! ### Traces -/

/-- A text, an integer, or a list of these. -/
theorem isSnapshot_of_validOperand {op : DetectionOperator} {v y : Value} (hv : validOperand op v = true)
    (h : y.dump = v) : v.IsSnapshot y := by
  rcases operand_of_validOperand hv with htype | ⟨items, rfl, hitems⟩
  · exact Value.isSnapshot_of_dump (Value.scalar_of_type htype) h
  · obtain ⟨ys, rfl, rfl⟩ := Value.eq_list_of_dump h
    refine ⟨ys, rfl, Value.isSnapshotList_iff.mpr ?_⟩
    rw [List.forall₂_map_left_iff, List.forall₂_same]
    exact fun y hy => Value.isSnapshot_of_dump (Value.scalar_of_type (hitems _ (List.mem_map_of_mem hy))) rfl

theorem isSnapshot_of_safeActual {v y : Value} (hv : safeActual v = .ok true) (h : y.dump = v) :
    v.IsSnapshot y := by
  refine Value.isSnapshot_of_dump ?_ h
  cases v with
  | list items => cases hv
  | dict items => cases hv
  | model cls fields given => cases hv
  | _ => trivial

/-- An item of any type, whose values have one form. -/
theorem slotRead_any {d : Dict} {name : String} {f : ModelField Value}
    (h : optionalField name anyValue d = ok f)
    (hf : ∀ v, f = .set v → ∀ y : Value, y.dump = v → v.IsSnapshot y) :
    SlotRead d ⟨name, f.get .none, f.isSet⟩ := by
  rcases optionalField_eq_ok.mp h with ⟨hnone, rfl⟩ | ⟨x, v, hx, hv, rfl⟩
  · exact hnone
  · cases hv
    exact ⟨x, hx, fun y hy _ => hf x rfl y hy⟩

namespace ConditionTrace

theorem mem_nodes {ts : ModelField (List ConditionTrace)} {t : ConditionTrace} (h : t ∈ ts.get []) :
    t.node ∈ (ts.map fun cs => cs.map node).get [] := by
  cases ts with
  | unset => simp at h
  | set ts => exact List.mem_map_of_mem h

theorem isSnapshot_of_expected {e : TraceEvidence} {locations : List String} (hshape : TraceShape e locations)
    {v y : Value} (hv : e.expected = .set v) (h : y.dump = v) : v.IsSnapshot y := by
  obtain ⟨op, hop⟩ := validOperand_expected hshape hv
  exact isSnapshot_of_validOperand hop h

theorem fields_of_eq_ok {d : Dict} {children : Validation (ModelField (List ConditionTrace))}
    {e : TraceEvidence} {ts : ModelField (List ConditionTrace)} (h : fields true d children = ok (e, ts)) :
    requiredField "location" (Codec.str.validate true) d = ok e.location ∧
      requiredField "kind" ((Codec.literal TraceKind).validate true) d = ok e.kind ∧
      requiredField "outcome" ((Codec.enum ConditionOutcome).validate true) d = ok e.outcome ∧
      children = ok ts ∧
      optionalField "field" (optionalStr.validate true) d = ok e.field ∧
      optionalField "op" (optionalOperator.validate true) d = ok e.op ∧
      optionalField "expected" anyValue d = ok e.expected ∧
      optionalField "actual" anyValue d = ok e.actual ∧
      optionalField "absence" (optionalAbsence.validate true) d = ok e.absence ∧
      optionalField "redacted" (Codec.bool.validate true) d = ok e.redacted ∧
      optionalField "redaction_marker" (optionalStr.validate true) d = ok e.redactionMarker := by
  rw [fields] at h
  obtain ⟨_, _, h₁₀, hmarker, heq⟩ := seq_eq_ok.mp h
  obtain ⟨_, _, h₉, hredacted, rfl⟩ := seq_eq_ok.mp h₁₀
  obtain ⟨_, _, h₈, habsence, rfl⟩ := seq_eq_ok.mp h₉
  obtain ⟨_, _, h₇, hactual, rfl⟩ := seq_eq_ok.mp h₈
  obtain ⟨_, _, h₆, hexpected, rfl⟩ := seq_eq_ok.mp h₇
  obtain ⟨_, _, h₅, hop, rfl⟩ := seq_eq_ok.mp h₆
  obtain ⟨_, _, h₄, hfield, rfl⟩ := seq_eq_ok.mp h₅
  obtain ⟨_, _, h₃, hchildren, rfl⟩ := seq_eq_ok.mp h₄
  obtain ⟨_, _, h₂, houtcome, rfl⟩ := seq_eq_ok.mp h₃
  obtain ⟨_, _, h₁, hkind, rfl⟩ := seq_eq_ok.mp h₂
  obtain ⟨_, hlocation, rfl⟩ := map_eq_ok.mp h₁
  cases heq
  exact ⟨hlocation, hkind, houtcome, hchildren, hfield, hop, hexpected, hactual, habsence, hredacted, hmarker⟩

theorem modelValidate_eq_ok {x : Value} {t : ConditionTrace} (h : modelValidate true x = ok t) :
    ∃ d e ts, x = .dict d ∧
      fields true d (optionalField "children" (listOf (modelValidate true)) d) = ok (e, ts) ∧
      init e ts = ok t := by
  cases x with
  | dict d =>
    rw [modelValidate_dict] at h
    obtain ⟨⟨e, ts⟩, hfields, hinit⟩ := after_eq_ok.mp h
    obtain ⟨d', hd, hfields, -⟩ := modelDict_eq_ok.mp hfields
    cases hd
    exact ⟨d, e, ts, rfl, hfields, hinit⟩
  | _ => cases h

/-- The children, each of which is a snapshot of what it was read from. -/
theorem slotRead_children {d : Dict} {ts : ModelField (List ConditionTrace)}
    (hread : optionalField "children" (listOf (modelValidate true)) d = ok ts)
    (hsnapshot : ∀ t ∈ ts.get [], ∀ y, modelValidate true y.dump = ok t → t.toValue.eq y = true →
      t.toValue.IsSnapshot y) :
    SlotRead d ⟨"children", .list ((ts.get []).map toValue), ts.isSet⟩ := by
  rcases optionalField_eq_ok.mp hread with ⟨hnone, rfl⟩ | ⟨x, ts, hx, hts, rfl⟩
  · exact hnone
  · refine ⟨x, hx, fun y hy heq => ?_⟩
    obtain ⟨items, rfl, hitems⟩ := listOf_eq_ok.mp hts
    obtain ⟨ys, rfl, rfl⟩ := Value.eq_list_of_dump hy
    rw [List.forall₂_map_left_iff] at hitems
    have hequal := Value.forall₂_of_eqList heq
    rw [List.forall₂_map_left_iff] at hequal
    refine ⟨ys, rfl, Value.isSnapshotList_iff.mpr (List.forall₂_map_left_iff.mpr ?_)⟩
    have hread := Logic.forall₂_imp_of_mem hitems.flip fun t ht y hty => hsnapshot t ht y hty
    exact hread.mp (fun _ _ h => h) hequal

/-- **A trace is a snapshot at every one of its nodes.** -/
theorem exact : codec.Exact := by
  suffices h : ∀ (n : TraceNode) (hn : n.Valid) (y : Value), modelValidate true y.dump = ok ⟨n, hn⟩ →
      n.toValue.eq y = true → n.toValue.IsSnapshot y from fun t y => h t.node t.valid y
  intro n
  induction n with
  | mk e cs ih =>
    intro hvalid y hread heq
    obtain ⟨d, e', ts, hd, hfields, hinit⟩ := modelValidate_eq_ok hread
    obtain ⟨rfl, rfl⟩ := TraceNode.mk.inj (node_of_init hinit)
    obtain ⟨hlocation, hkind, houtcome, hchildren, hfield, hop, hexpected, hactual, habsence, hredacted,
      hmarker⟩ := fields_of_eq_ok hfields
    have hshape := validateTrace_eq_ok.mp (TraceNode.valid_mk.mp hvalid).1
    rw [TraceNode.toValue_mk, map_nodes] at heq ⊢
    refine isSnapshot_modelOf (TraceNode.nodup_slots _ _ _) hd ?_ heq
    have hsnapshot : SlotRead d ⟨"children", .list ((ts.get []).map toValue), ts.isSet⟩ :=
      slotRead_children hchildren fun t ht y => ih t.node (mem_nodes ht) t.valid y
    simp only [TraceNode.slots, List.forall_mem_cons, ModelField.isSet_map]
    exact ⟨slotRead_given exact_str hlocation, slotRead_given (exact_literal _) hkind,
      slotRead_given (exact_enum _) houtcome, hsnapshot, slotRead_field exact_optionalStr hfield,
      slotRead_field exact_optionalOperator hop,
      slotRead_any hexpected fun v hv y => isSnapshot_of_expected hshape hv,
      slotRead_any hactual fun v hv y => isSnapshot_of_safeActual (hshape.actual v hv).1,
      slotRead_field exact_optionalAbsence habsence, slotRead_field exact_bool hredacted,
      slotRead_field exact_optionalStr hmarker, by simp⟩

end ConditionTrace

/-! ### Matches -/

theorem MatchFields.exact : MatchFields.modelClass.codec.Exact := by
  refine ModelClass.exact fun d m h => ?_
  obtain ⟨_, _, h₅, htrace, hm⟩ := seq_eq_ok.mp h
  obtain ⟨_, _, h₄, houtcome, rfl⟩ := seq_eq_ok.mp h₅
  obtain ⟨_, _, h₃, hevent, rfl⟩ := seq_eq_ok.mp h₄
  obtain ⟨_, _, h₂, htitle, rfl⟩ := seq_eq_ok.mp h₃
  obtain ⟨_, _, h₁, hversion, rfl⟩ := seq_eq_ok.mp h₂
  obtain ⟨_, hid, rfl⟩ := map_eq_ok.mp h₁
  subst hm
  change ∀ s ∈ slots _, SlotRead d s
  simp only [slots, List.forall_mem_cons]
  exact ⟨slotRead_given exact_str hid, slotRead_given exact_positiveInteger hversion,
    slotRead_given exact_str htitle, slotRead_given NormalizedEvent.exact hevent,
    slotRead_given (exact_enum _) houtcome, slotRead_given ConditionTrace.exact htrace, by simp⟩

/-- **A match is a snapshot of what it was read from**: of its event, its context and its whole trace. -/
theorem DetectionMatch.exact : DetectionMatch.codec.Exact := by
  refine MatchFields.exact.after fun f m h => ?_
  obtain ⟨hcheck, -, hm⟩ := after_eq_ok.mp h
  cases hm
  rfl

end SocLab
