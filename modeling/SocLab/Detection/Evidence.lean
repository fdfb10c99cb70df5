import SocLab.Detection.Explanation
import SocLab.Detection.FieldPaths
import SocLab.Parsers.Partition

/-!
# SocLab.Detection.Evidence — what a field path reads from the event log

`Row.evidence` says what a path of a rule stands for in a raw event, without the code of the normalizers and
of the evaluator: a metadata field, a field of the context, which is a named value in the form of its column,
or a named value that no field of the context was read from.

* `value_of_resolveEventField`: a path that resolves on the normalized event has that value.
* `attests_of_evaluateCondition`: the leaves of a trace show these values, or that there is none.
-/

namespace SocLab

open Py Logic

namespace Row

/-- The metadata of an event of the row. -/
def metadata (row : Row) (raw : RawWindowsEvent) : List (String × Option Scalar) :=
  [("source", some (.str (StrEnum.value row.source))),
    ("provider", some (.str raw.provider)),
    ("event_id", some (.int raw.eventId)),
    ("channel", some (.str raw.channel)),
    ("timestamp", some (.datetime raw.timestamp)),
    ("computer", some (.str raw.computer)),
    ("record_id", (raw.recordId.get none).map fun n => .int n.val),
    ("category", some (.str (StrEnum.value row.category)))]

/-- The value of a field of the context, from the named values of the event. -/
def contextValue (row : Row) (data : StrDict) (key : String) : Option Scalar :=
  if key = "outcome" then row.outcome.map fun o => .str (StrEnum.value o)
  else do
    let column ← row.columns.find? (·.key == key)
    let value ← column.value data
    Scalar.ofValue value

/-- What a path stands for in a raw event of the row. -/
def evidence (row : Row) (raw : RawWindowsEvent) (path : String) : Option Scalar :=
  match split path '.' with
  | ["context", key] => row.contextValue raw.eventDataDict key
  | ["source_data", name] => if name ∈ row.consumed then none else (raw.eventDataDict.get name).map .str
  | _ => ((row.metadata raw).lookup path).join

end Row

section Fields

variable {row : Row} {raw : RawWindowsEvent} {context : EventContext} {path name : String} {kind : FieldType}
  {field : ResolvedField} {v : Value}

/-- What is dumped of a field decides what the path resolves to. -/
theorem value_of_dumpField {slots : List Slot}
    (h : dumpField slots name >>= resolved path kind = .ok field) :
    ∃ s, slots.find? (·.name == name) = some s ∧ field.value = Scalar.ofValue (enumText s.value.dump) := by
  obtain ⟨v, hdump, hresolved⟩ := bind_eq_ok.mp h
  unfold dumpField at hdump
  split at hdump
  · next s hs =>
    cases hdump
    exact ⟨s, hs, value_of_resolved hresolved⟩
  · cases hdump

/-- The value of a column is plain. -/
theorem Column.enumText_dump {c : Column} {data : StrDict} (h : c.value data = some v) :
    enumText v.dump = v := by
  rcases Column.value_cases h with ⟨-, rfl⟩ | ⟨text, -, hread⟩
  · rfl
  · cases hkind : c.kind with
    | text =>
      rw [hkind] at hread
      cases hread
      rfl
    | number hexadecimal =>
      rw [hkind] at hread
      obtain ⟨n, -, rfl⟩ := Option.map_eq_some_iff.mp hread
      rfl
    | port =>
      rw [hkind] at hread
      obtain ⟨n, -, rfl⟩ := Option.map_eq_some_iff.mp hread
      rfl
    | ip =>
      rw [hkind] at hread
      obtain ⟨a, -, rfl⟩ := Option.map_eq_some_iff.mp hread
      rfl

/-- The column of a field is found by the key. -/
theorem Row.WellFormed.find? (hwell : row.WellFormed) {c : Column} (hc : c ∈ row.columns) :
    row.columns.find? (·.key == c.key) = some c := by
  have hsome : (row.columns.find? (·.key == c.key)).isSome = true :=
    List.find?_isSome.mpr ⟨c, hc, beq_self_eq_true c.key⟩
  obtain ⟨c', hc'⟩ := Option.isSome_iff_exists.mp hsome
  have hkey : c'.key = c.key := by simpa using List.find?_some hc'
  rw [hc', List.inj_on_of_nodup_map hwell.keys_nodup (List.mem_of_find?_eq_some hc') hc hkey]

theorem evidence_context (hsplit : split path '.' = ["context", name]) :
    row.evidence raw path = row.contextValue raw.eventDataDict name := by
  unfold Row.evidence
  rw [hsplit]
  rfl

theorem evidence_common (h : commonFieldTypes.lookup path = some kind) :
    row.evidence raw path = ((row.metadata raw).lookup path).join := by
  unfold Row.evidence
  split
  · next hsplit => rw [lookup_common_of_split hsplit] at h; cases h
  · next hsplit => rw [lookup_common_of_split hsplit] at h; cases h
  · rfl

/-- The metadata of the normalized event is that of the raw event. -/
theorem value_common (hdescribes : row.Describes raw.eventDataDict context)
    (h : commonFieldTypes.lookup path = some kind)
    (hfield : dumpField (EventData.normalized row.source raw context row.consumed).slots path >>=
      resolved path kind = .ok field) :
    field.value = row.evidence raw path := by
  obtain ⟨s, hs, hvalue⟩ := value_of_dumpField hfield
  rw [hvalue, evidence_common h]
  have hmem := mem_of_lookup h
  simp only [commonFieldTypes, List.mem_cons, Prod.mk.injEq, List.not_mem_nil, or_false] at hmem
  rcases hmem with ⟨rfl, -⟩ | ⟨rfl, -⟩ | ⟨rfl, -⟩ | ⟨rfl, -⟩ | ⟨rfl, -⟩ | ⟨rfl, -⟩ | ⟨rfl, -⟩ | ⟨rfl, -⟩
  · cases hs; rfl
  · cases hs; rfl
  · cases hs; rfl
  · cases hs; rfl
  · cases hs; rfl
  · cases hs; rfl
  · cases hs
    show Scalar.ofValue (enumText (optionalNonNegativeInteger.enc (raw.recordId.get none)).dump) =
      (raw.recordId.get none).map fun n => Scalar.int n.val
    cases raw.recordId.get none with
    | none => rfl
    | some n => rfl
  · cases hs
    show some (Scalar.str (StrEnum.value context.category)) = some (.str (StrEnum.value row.category))
    rw [hdescribes.category]

/-- A field of the context holds the value of its column, or the outcome that the event id fixes. -/
theorem value_context (hwell : row.WellFormed) (hdescribes : row.Describes raw.eventDataDict context)
    (hsplit : split path '.' = ["context", name])
    (hfield : dumpField context.slots name >>= resolved path kind = .ok field) :
    field.value = row.evidence raw path := by
  obtain ⟨s, hs, hvalue⟩ := value_of_dumpField hfield
  have hname : s.name = name := by simpa using List.find?_some hs
  have hmem : s ∈ context.slots := List.mem_of_find?_eq_some hs
  rw [hvalue, evidence_context hsplit, Row.contextValue]
  by_cases houtcome : name = "outcome"
  · rw [if_pos houtcome, ← hdescribes.outcome]
    rw [houtcome] at hs
    cases context with
    | authentication c => cases hs; rfl
    | process c => cases hs
    | network c => cases hs
    | file c => cases hs
    | dns c => cases hs
  · rw [if_neg houtcome]
    have hread := (EventContext.mem_slots hmem).resolve_right (hname ▸ houtcome)
    obtain ⟨c, hc, hfills⟩ := exists_of_forall₂ hdescribes.fields.flip s hread
    have hkey : c.key = name := hfills.name.symm.trans hname
    have hfind := hwell.find? hc
    rw [hkey] at hfind
    rw [Column.enumText_dump hfills.value, hfind]
    show _ = (c.value raw.eventDataDict).bind Scalar.ofValue
    rw [hfills.value]
    rfl

theorem get_retained (raw : RawWindowsEvent) (consumed : List String) (name : String) :
    (EventData.retained raw consumed).get name =
      if name ∈ consumed then none else raw.eventDataDict.get name := by
  ext text
  rw [StrDict.get_eq_some]
  show (name, text) ∈ raw.eventDataDict.val.filter (·.1 ∉ consumed) ↔ _
  rw [List.mem_filter, decide_eq_true_eq, ← StrDict.get_eq_some]
  split_ifs with hconsumed
  · simp [hconsumed]
  · simp [hconsumed]

/-- **A path of a rule reads from the normalized event what it stands for in the raw event.** -/
theorem value_of_resolveEventField (hwell : row.WellFormed)
    (hdescribes : row.Describes raw.eventDataDict context)
    (h : resolveEventField (EventData.normalized row.source raw context row.consumed) path = .ok field) :
    field.value = row.evidence raw path := by
  obtain ⟨kind, hkind, -⟩ := bind_eq_ok.mp h
  cases fieldPath_of_fieldType hkind with
  | common hlookup =>
    rw [resolveEventField_common hkind hlookup] at h
    exact value_common hdescribes hlookup h
  | context hsplit hlookup =>
    rw [resolveEventField_context hkind hsplit] at h
    exact value_context hwell hdescribes hsplit h
  | @sourceData name hsplit hname =>
    rw [resolveEventField_sourceData hkind hsplit] at h
    have hevidence : row.evidence raw path =
        ((EventData.retained raw row.consumed).get name).map Scalar.str := by
      rw [get_retained, Row.evidence, hsplit]
      show (if name ∈ row.consumed then none else (raw.eventDataDict.get name).map Scalar.str) = _
      split_ifs with hconsumed
      · rfl
      · rfl
    rw [hevidence]
    split at h
    · next hget =>
      cases h
      rw [show (EventData.retained raw row.consumed).get name = none from hget]
      rfl
    · next text hget =>
      rw [value_of_resolved h, show (EventData.retained raw row.consumed).get name = some text from hget]
      rfl

/-- A field without a value is missing from the retained data, or a declared field that is `None`. -/
theorem presence_of_value_none {event : NormalizedEvent} (h : resolveEventField event path = .ok field)
    (hnone : field.value = none) :
    field.presence = if startsWith path "source_data." then .missing else .absent := by
  have hresolved {kind : FieldType} {v : Value} (h : resolved path kind v = .ok field) :
      field.presence = .absent := by
    rcases resolved_cases h with ⟨-, rfl⟩ | ⟨s, -, -, rfl⟩
    · rfl
    · cases hnone
  obtain ⟨kind, hkind, -⟩ := bind_eq_ok.mp h
  -- a value is missing in retained data only
  cases fieldPath_of_fieldType hkind with
  | common hlookup =>
    rw [resolveEventField_common hkind hlookup] at h
    obtain ⟨v, -, h⟩ := bind_eq_ok.mp h
    rw [(not_startsWith_of_common hlookup).1]
    exact hresolved h
  | context hsplit hlookup =>
    rw [resolveEventField_context hkind hsplit] at h
    obtain ⟨v, -, h⟩ := bind_eq_ok.mp h
    rw [(startsWith_of_context hsplit).1]
    exact hresolved h
  | sourceData hsplit hname =>
    rw [resolveEventField_sourceData hkind hsplit] at h
    rw [startsWith_of_sourceData hsplit]
    split at h
    · cases h; rfl
    · rw [value_of_resolved h] at hnone
      cases hnone

end Fields

/-! ### The evidence of a leaf -/

/-- The evidence shows the value, or why there is none. -/
def TraceEvidence.Shows (e : TraceEvidence) (path : String) : Option Scalar → Prop
  | some s => e.actual = .set s.toValue ∧ e.absence = .unset
  | none => e.actual = .unset ∧
      e.absence = .set (some (if startsWith path "source_data." then .missing else .absent))

/-- A node reports the leaf, with what its path stands for in the raw event. -/
structure Attests (row : Row) (raw : RawWindowsEvent) (l : LeafCondition) (e : TraceEvidence) : Prop where
  field : e.field = .set (some l.field)
  op : e.op = .set (some l.op)
  expected : e.expected = l.value
  shows : e.Shows l.field (row.evidence raw l.field)

/-- What a leaf shows is the value of its field. -/
theorem LeafExplained.shows {event : NormalizedEvent} {field : ResolvedField} {l : LeafCondition}
    {e : TraceEvidence} (h : LeafExplained field l e) (hfield : resolveEventField event l.field = .ok field) :
    e.Shows l.field field.value := by
  have hvalue := presence_of_resolveEventField hfield
  rcases h.actual with ⟨s, -, hs, hactual⟩ | ⟨hp, hactual⟩ | ⟨hp, hactual⟩
  · rw [hs]
    exact hactual
  · obtain ⟨-, hnone⟩ := hvalue.resolve_left fun h => by rw [hp] at h; cases h.1
    have hpresence := presence_of_value_none hfield hnone
    rw [hp] at hpresence
    rw [hnone]
    refine ⟨hactual.1, ?_⟩
    split_ifs at hpresence ⊢
    exact hactual.2
  · obtain ⟨-, hnone⟩ := hvalue.resolve_left fun h => by rw [hp] at h; cases h.1
    have hpresence := presence_of_value_none hfield hnone
    rw [hp] at hpresence
    rw [hnone]
    refine ⟨hactual.1, ?_⟩
    split_ifs at hpresence ⊢
    exact hactual.2

section Attests

variable {row : Row} {raw : RawWindowsEvent} {context : EventContext}

theorem attests_of_evaluateLeaf (hwell : row.WellFormed) (hdescribes : row.Describes raw.eventDataDict context)
    {l : LeafCondition} {location : String} {t : ConditionTrace}
    (h : evaluateLeaf (EventData.normalized row.source raw context row.consumed) l location = .ok t) :
    Attests row raw l t.node.evidence := by
  obtain ⟨field, hfield, hleaf⟩ := leafExplained h
  have hshows := hleaf.shows hfield
  rw [value_of_resolveEventField hwell hdescribes hfield] at hshows
  exact ⟨hleaf.field, hleaf.op, hleaf.expected, hshows⟩

/-- **Every leaf of a trace reports the leaf of the condition at its location**, with what its path stands for in
the raw event. -/
theorem attests_of_evaluateCondition (hwell : row.WellFormed)
    (hdescribes : row.Describes raw.eventDataDict context) {c : ConditionNode} {t : ConditionTrace}
    (h : evaluateCondition (EventData.normalized row.source raw context row.consumed) c = .ok t) :
    ∀ n ∈ t.node.nodes, n.evidence.kind = .leaf → ∃ steps l, readLocation n.location = some steps ∧
      c.follow steps = some (.leaf l) ∧ Attests row raw l n.evidence := by
  intro n hn hkind
  obtain ⟨steps, c', t', hread, hfollow, heval, ht'⟩ := traced_of_evaluate (evaluateCondition_eq_ok.mp h) n hn
  have hshape : Isomorphic c' n := ht' ▸ isomorphic_of_evaluate heval
  cases c' with
  | leaf l => exact ⟨steps, l, hread [] (by decide), hfollow, ht' ▸ attests_of_evaluateLeaf hwell hdescribes heval⟩
  | all cs => cases hshape with | all he => cases he.symm.trans hkind
  | any cs => cases hshape with | any he => cases he.symm.trans hkind
  | not_ c => cases hshape with | not_ he => cases he.symm.trans hkind

end Attests

end SocLab
