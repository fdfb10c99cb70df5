import SocLab.Detection.Engine
import SocLab.Detection.Library
import SocLab.Detection.Soundness
import SocLab.Parsers.Pipeline

/-!
# SocLab.Detection.Safety — loaded rules do not go wrong, and absence is no evidence

* `evaluateEvent_safe`: rules with distinct ids that passed validation and the load-time check evaluate
  without any error on every event with a timestamp in the range of UTC.
* `evaluateCondition_extends` and `matches_extends`: an event that says more than another one keeps every
  true condition, and every match, of rules that ask for absence only below an odd number of negations.
-/

namespace SocLab

open Py Logic

/-! ### Safety -/

/-- Rules that passed the load-time check evaluate on every event in the range of UTC. -/
theorem evaluateEvent_isOk {rules : List DetectionRule} (hids : (rules.map (·.id)).Nodup)
    (hsemantics : ∀ r ∈ rules, validateDetectionRuleSemantics r = .ok ()) {event : NormalizedEvent}
    (hutc : event.UtcRepresentable) :
    ∃ ms, evaluateEvent (some event) (some (rules.map some)) = .ok ms := by
  refine ⟨_, evaluateEvent_ok hids fun r hr e hfails => ?_⟩
  obtain ⟨happlicable, herror⟩ := hfails
  have hcategory : event.category ∈ r.categories.val := by
    simp only [applicable, Bool.and_eq_true, decide_eq_true_iff] at happlicable
    exact happlicable.1
  have hcheck := checkCondition_of_validateNode hcategory (hsemantics r hr)
  obtain ⟨t, ht⟩ := (evaluateCondition_follows hutc r.condition.property).isOk_iff.mpr hcheck
  rw [ht] at herror
  cases herror

/-- **Loaded rules do not go wrong**: rules with distinct ids that passed the load-time check, among them
every library that the loader returns, on events in the range of UTC, among them every event that the
pipeline returns. -/
theorem evaluateEvent_safe {rules : List DetectionRule} {event : NormalizedEvent}
    (hrules : ((rules.map (·.id)).Nodup ∧ ∀ r ∈ rules, validateDetectionRuleSemantics r = .ok ()) ∨
      ∃ fs readRule fuel ruleRoot, loadDetectionRules fs readRule fuel ruleRoot = some (.ok rules))
    (hevent : event.UtcRepresentable ∨
      ∃ fromstring xml, normalizeWindowsEventXml fromstring xml = .ok event) :
    ∃ ms, evaluateEvent (some event) (some (rules.map some)) = .ok ms := by
  have hvalid : (rules.map (·.id)).Nodup ∧ ∀ r ∈ rules, validateDetectionRuleSemantics r = .ok () := by
    rcases hrules with h | ⟨fs, readRule, fuel, ruleRoot, hload⟩
    · exact h
    · exact semantics_of_loadDetectionRules hload
  have hutc : event.UtcRepresentable := by
    rcases hevent with h | ⟨fromstring, xml, hxml⟩
    · exact h
    · exact utcRepresentable_of_normalizeWindowsEventXml hxml
  exact evaluateEvent_isOk hvalid.1 hvalid.2 hutc

theorem evaluateEvent_safe_example :
    ∃ ms, evaluateEvent (some .exampleLogon) (some ([DetectionRule.exampleRule].map some)) = .ok ms :=
  evaluateEvent_safe
    (Or.inl ⟨by decide, by
      intro r hr
      rw [List.mem_singleton.mp hr]
      decide⟩) (Or.inl ⟨_, rfl⟩)

/-! ### Added information -/

/-- The value of a declared field; `None` is `Value.none`. -/
def getField (slots : List Slot) (name : String) : Option Value :=
  (slots.find? (·.name == name)).map (·.value)

/-- The event `e'` says at least what `e` says: every field present in `e` has the same value in `e'`. -/
structure Extends (e e' : NormalizedEvent) : Prop where
  category : e'.category = e.category
  common : ∀ name ∈ commonFields, ∀ v, getField e.slots name = some v → v ≠ .none →
    getField e'.slots name = some v
  context : ∀ name v, getField e.context.slots name = some v → v ≠ .none →
    getField e'.context.slots name = some v
  sourceData : ∀ name text, e.sourceDataDict.get name = some text →
    e'.sourceDataDict.get name = some text

/-- Every `exists` leaf stands under an even number of `not` nodes, every `not_exists` leaf under an odd
number. -/
def ExistencePolarity (c : ConditionNode) : Prop :=
  ∀ leaf p, Kleene.Formula.OccursAt leaf p c.toFormula →
    (leaf.op = .exists_ → p = true) ∧ (leaf.op = .notExists → p = false)

section Extends

variable {e e' : NormalizedEvent} {path : String} {field : ResolvedField} {leaf : LeafCondition}

/-- A field that is present in a dump is present in the dump of an extension, with the same value. -/
theorem resolved_dumpField_extends {slots slots' : List Slot} {name : String} {kind : FieldType}
    (hext : ∀ v, getField slots name = some v → v ≠ .none → getField slots' name = some v)
    (h : (dumpField slots name >>= resolved path kind) = .ok field) (hpresent : field.presence = .present) :
    (dumpField slots' name >>= resolved path kind) = .ok field := by
  obtain ⟨v, hv, hresolved⟩ := bind_eq_ok.mp h
  unfold dumpField at hv
  split at hv
  · next s hs =>
    cases hv
    have hne : s.value ≠ .none := by
      rintro hnone
      rw [hnone] at hresolved
      cases hresolved
      cases hpresent
    have hattr : getField slots name = some s.value := by rw [getField, hs]; rfl
    obtain ⟨s', hs', hvalue⟩ := Option.map_eq_some_iff.mp (hext s.value hattr hne)
    rw [dumpField, hs']
    show resolved path kind s'.value.dump = .ok field
    rw [hvalue]
    exact hresolved
  · cases hv

theorem mem_commonFields {kind : FieldType} (h : commonFieldTypes.lookup path = some kind) :
    path ∈ commonFields := by
  have hmem := List.mem_map_of_mem (f := (·.1)) (mem_of_lookup h)
  exact hmem

/-- A field that is present resolves to the same value in an extension. -/
theorem resolveEventField_extends (hext : Extends e e') (h : resolveEventField e path = .ok field)
    (hpresent : field.presence = .present) : resolveEventField e' path = .ok field := by
  cases hkind : fieldType path e.category with
  | error r =>
    rw [resolveEventField_error hkind] at h
    cases h
  | ok kind =>
    have hkind' : fieldType path e'.category = .ok kind := by rw [hext.category, hkind]
    cases fieldPath_of_fieldType hkind with
    | common hlookup =>
      rw [resolveEventField_common hkind hlookup] at h
      rw [resolveEventField_common hkind' hlookup]
      exact resolved_dumpField_extends (hext.common path (mem_commonFields hlookup)) h hpresent
    | context hsplit hlookup =>
      rw [resolveEventField_context hkind hsplit] at h
      rw [resolveEventField_context hkind' hsplit]
      exact resolved_dumpField_extends (hext.context _) h hpresent
    | sourceData hsplit hname =>
      rw [resolveEventField_sourceData hkind hsplit] at h
      rw [resolveEventField_sourceData hkind' hsplit]
      split at h
      · cases h
        cases hpresent
      · next text htext =>
        rw [hext.sourceData _ text htext]
        exact h

/-- The steps behind a truth value that is known. -/
theorem exists_of_leafTruth (h : leafTruth e leaf ≠ .unknown) :
    ∃ field operands o, resolveEventField e leaf.field = .ok field ∧
      validatedOperands field.fieldType leaf = .ok operands ∧
      leafOutcome field leaf.op operands = .ok o ∧ leafTruth e leaf = o.truth := by
  unfold leafTruth at h ⊢
  dsimp only at h ⊢
  cases hfield : resolveEventField e leaf.field with
  | error r => simp [hfield] at h
  | ok field =>
    cases hoperands : validatedOperands field.fieldType leaf with
    | error r => simp [hfield, hoperands] at h
    | ok operands =>
      cases ho : leafOutcome field leaf.op operands with
      | error r => simp [hfield, hoperands, ho] at h
      | ok o => exact ⟨field, operands, o, rfl, hoperands, ho, by simp [hoperands, ho]⟩

/-- A field that is not present decides existence leaves only. -/
theorem leafOutcome_not_present {op : DetectionOperator} {operands : List Operand}
    {o : ConditionOutcome} (h : leafOutcome field op operands = .ok o)
    (hpresent : field.presence ≠ .present) :
    (op = .exists_ ∧ o = .false) ∨ (op = .notExists ∧ o = .true) ∨ o = .unknown := by
  unfold leafOutcome at h
  split_ifs at h with hop hexists
  · cases h
    exact Or.inl ⟨hexists, by simp [outcome, hpresent]⟩
  · cases h
    refine Or.inr (Or.inl ⟨?_, by simp [outcome, hpresent]⟩)
    simpa [existenceOperators, hexists] using hop
  · split at h
    · next hp _ => exact absurd hp hpresent
    · cases h
      exact Or.inr (Or.inr rfl)

/-- A leaf that is decided, and not by an absence, is decided in the same way in an extension. -/
theorem leafTruth_extends (hext : Extends e e') (hknown : leafTruth e leaf ≠ .unknown)
    (hexists : leaf.op = .exists_ → leafTruth e leaf = .true)
    (hnotExists : leaf.op = .notExists → leafTruth e leaf = .false) :
    leafTruth e' leaf = leafTruth e leaf := by
  obtain ⟨field, operands, o, hfield, hoperands, ho, htruth⟩ := exists_of_leafTruth hknown
  by_cases hpresent : field.presence = .present
  · have hfield' := resolveEventField_extends hext hfield hpresent
    rw [htruth]
    simp [leafTruth, hfield', hoperands, ho]
  · rw [htruth] at hknown hexists hnotExists
    rcases leafOutcome_not_present ho hpresent with ⟨hop, rfl⟩ | ⟨hop, rfl⟩ | rfl
    · cases hexists hop
    · cases hnotExists hop
    · exact absurd rfl hknown

/-- The value of a condition stays true in an extension. -/
theorem meaning_extends (hext : Extends e e') {c : ConditionNode} (hc : ExistencePolarity c)
    (h : meaning e c = .true) : meaning e' c = .true := by
  refine Kleene.Formula.eval_true_mono (fun leaf hoccurs hv => ?_) (fun leaf hoccurs hv => ?_) h
  · rw [← hv]
    refine leafTruth_extends hext (by simp [hv]) (fun _ => hv) fun hop => ?_
    cases (hc leaf true hoccurs).2 hop
  · rw [← hv]
    refine leafTruth_extends hext (by simp [hv]) (fun hop => ?_) fun _ => hv
    cases (hc leaf false hoccurs).1 hop

theorem evaluateCondition_extends (hext : Extends e e') {c : ConditionNode} (hc : ExistencePolarity c)
    {t t' : ConditionTrace} (ht : evaluateCondition e c = .ok t) (ht' : evaluateCondition e' c = .ok t')
    (h : t.outcome = .true) : t'.outcome = .true := by
  have hmeaning : meaning e c = .true := by rw [← truth_of_evaluateCondition ht, h]; rfl
  refine ConditionOutcome.truth_injective ?_
  rw [truth_of_evaluateCondition ht', meaning_extends hext hc hmeaning]
  rfl

/-- The same rules are applicable. -/
theorem applicable_extends (hext : Extends e e') (rule : DetectionRule) :
    applicable e' rule = applicable e rule := by
  have hsource : e'.source = e.source := by
    have h := hext.common "source" (by decide) (StrEnum.toValue e.source) rfl (by simp [StrEnum.toValue])
    have h' : (some (StrEnum.toValue e'.source) : Option Value) = some (StrEnum.toValue e.source) := h
    have h'' := congrArg (Option.map (StrEnum.ofMember? (ε := EventSource))) h'
    simpa using h''
  rw [applicable, applicable, hext.category, hsource]

end Extends

/-- **Absence is never evidence**: a true condition stays true, and a match stays a match, on an event
that says more. -/
theorem absence_no_evidence {e e' : NormalizedEvent} (hext : Extends e e') :
    (∀ c t t', ExistencePolarity c → evaluateCondition e c = .ok t → evaluateCondition e' c = .ok t' →
      t.outcome = .true → t'.outcome = .true) ∧
    ∀ (rules : List DetectionRule) (ms ms' : List DetectionMatch),
      evaluateEvent (some e) (some (rules.map some)) = .ok ms →
      evaluateEvent (some e') (some (rules.map some)) = .ok ms' →
      ∀ r ∈ rules, ExistencePolarity r.condition.val → ∀ m ∈ ms, m.ruleId = r.id →
        ∃ m' ∈ ms', m'.ruleId = m.ruleId ∧ m'.ruleVersion = m.ruleVersion ∧ m'.ruleTitle = m.ruleTitle := by
  refine ⟨fun c t t' hc ht ht' h => evaluateCondition_extends hext hc ht ht' h, ?_⟩
  intro rules ms ms' h h' r hr hc m hm hid
  have hnodup := nodup_of_ok h
  rw [evaluateEvent_ok hnodup (not_fails_of_ok hnodup h)] at h
  have hfails' := not_fails_of_ok hnodup h'
  rw [evaluateEvent_ok hnodup hfails'] at h'
  cases h
  cases h'
  obtain ⟨r₀, hr₀, t, hfires, hfields⟩ := ((matches_spec _ hnodup).2 m).mp hm
  have hid₀ : r₀.id = r.id := by
    rw [← hid, hfields]
    rfl
  -- ids are distinct, so the match is one of this rule
  obtain rfl : r₀ = r := List.inj_on_of_nodup_map hnodup hr₀ hr hid₀
  have happlicable : applicable e' r₀ = true := by rw [applicable_extends hext, hfires.1]
  cases heval : evaluateCondition e' r₀.condition.val with
  | error err => exact absurd ⟨happlicable, heval⟩ (hfails' r₀ hr err)
  | ok t' =>
    have hfires' : Fires e' r₀ t' :=
      ⟨happlicable, heval, evaluateCondition_extends hext hc hfires.2.1 heval hfires.2.2⟩
    obtain ⟨m', -, hfields'⟩ := verdict_of_fires hfires'
    refine ⟨m', ((matches_spec _ hnodup).2 m').mpr ⟨r₀, hr, t', hfires', hfields'⟩, ?_⟩
    rw [hfields, hfields']
    exact ⟨rfl, rfl, rfl⟩

/-- The logon of `alice` with the number of its record. -/
def NormalizedEvent.exampleRecord : NormalizedEvent :=
  { NormalizedEvent.exampleLogon with recordId := .set (some ⟨7, by decide⟩) }

theorem exampleRecord_extends : Extends .exampleLogon .exampleRecord where
  category := rfl
  common name hname v hv hne := by
    rw [← hv]
    simp only [commonFields, List.mem_cons, List.not_mem_nil, or_false] at hname
    rcases hname with rfl | rfl | rfl | rfl | rfl | rfl | rfl | rfl
    case inr.inr.inr.inr.inr.inr.inl => exact absurd (Option.some.inj hv).symm hne
    all_goals rfl
  context _ _ h _ := h
  sourceData _ _ h := h

theorem exampleRule_polarity : ExistencePolarity DetectionRule.exampleRule.condition.val := by
  rintro leaf p hoccurs
  cases hoccurs with
  | all hmem hleaf =>
    rw [List.mem_singleton.mp hmem] at hleaf
    cases hleaf
    exact ⟨nofun, nofun⟩

theorem absence_no_evidence_example :
    ∃ t, evaluateCondition .exampleRecord DetectionRule.exampleRule.condition.val = .ok t ∧
      t.outcome = .true := by
  obtain ⟨t, ht, h⟩ := exists_of_map_ok (show (evaluateCondition .exampleLogon
    DetectionRule.exampleRule.condition.val).map (·.outcome) = .ok .true by decide)
  have hutc : NormalizedEvent.exampleRecord.UtcRepresentable := ⟨_, rfl⟩
  obtain ⟨t', ht'⟩ := (evaluateCondition_follows hutc
    DetectionRule.exampleRule.condition.property).isOk_iff.mpr (by decide)
  exact ⟨t', ht', (absence_no_evidence exampleRecord_extends).1 _ t t' exampleRule_polarity ht ht' h⟩

end SocLab
