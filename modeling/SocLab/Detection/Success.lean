import SocLab.Detection.Soundness
import SocLab.Logic.Rewriting

/-!
# SocLab.Detection.Success — when a condition tree evaluates

For every event, also one whose timestamp has no UTC instant, a tree evaluates exactly when its leaves
evaluate on their own and its connectives have children (`evaluate_isOk_iff`).  `evaluateLeaf_eq_ok` and
`connectiveTrace_eq_ok` say what the traces of a leaf and of a connective are.
-/

namespace SocLab

open Py Py.Validation Logic

variable {event : NormalizedEvent} {location : String}

namespace ConditionTrace

/-- `ConditionTrace(...)` succeeds on the nodes that `validate_trace` accepts. -/
theorem init_eq_ok_iff {e : TraceEvidence} {children : ModelField (List ConditionTrace)}
    {t : ConditionTrace} : ConditionTrace.init e children = ok t ↔
      TraceShape e ((children.get []).map (·.location)) ∧
        t.node = .mk e (children.map fun cs => cs.map node) := by
  constructor
  · intro h
    have hnode := node_of_init h
    have hvalid := t.valid
    rw [hnode, TraceNode.valid_mk, map_nodes, validateTrace_eq_ok] at hvalid
    exact ⟨hvalid.1, hnode⟩
  · rintro ⟨hshape, hnode⟩
    obtain ⟨t', ht', hnode'⟩ := init_ok children hshape
    cases t
    cases t'
    simp only at hnode hnode'
    subst hnode hnode'
    exact ht'

end ConditionTrace

/-! ### Leaves -/

/-- A leaf evaluates when its field resolves, its operands and its comparison are accepted, and the
validator accepts the evidence. -/
theorem evaluateLeaf_eq_ok {leaf : LeafCondition} {t : ConditionTrace} :
    evaluateLeaf event leaf location = .ok t ↔ ∃ field operands o,
      resolveEventField event leaf.field = .ok field ∧
      validatedOperands field.fieldType leaf = .ok operands ∧
      leafOutcome field leaf.op operands = .ok o ∧
      TraceShape (leafEvidence field leaf location o) [] ∧
      t.node = .mk (leafEvidence field leaf location o) .unset := by
  rw [evaluateLeaf]
  simp only [bind_eq_ok, ofValidation_eq_ok, ConditionTrace.init_eq_ok_iff]
  constructor
  · rintro ⟨field, hfield, operands, hoperands, o, ho, hshape, hnode⟩
    exact ⟨field, operands, o, hfield, hoperands, ho, hshape, hnode⟩
  · rintro ⟨field, operands, o, hfield, hoperands, ho, hshape, hnode⟩
    exact ⟨field, hfield, operands, hoperands, o, ho, hshape, hnode⟩

/-- The evidence of a leaf is accepted at every place. -/
theorem TraceShape.relocate {field : ResolvedField} {leaf : LeafCondition} {o : ConditionOutcome}
    {location' : String} (h : TraceShape (leafEvidence field leaf location o) [])
    (hlocation : traceLocation.fullmatch location'.toList = true) :
    TraceShape (leafEvidence field leaf location' o) [] where
  location := hlocation
  leaf := h.leaf
  logical := h.logical
  not_ hk := by cases hk
  list hk := by rcases hk with hk | hk <;> cases hk
  redacted := h.redacted
  marker := h.marker
  actual := h.actual
  evidence := h.evidence

/-- The leaf evaluates on its own. -/
def LeafEvaluates (event : NormalizedEvent) (leaf : LeafCondition) : Prop :=
  ∃ t, evaluateCondition event (.leaf leaf) = .ok t

theorem evaluateLeaf_isOk_iff {leaf : LeafCondition}
    (hlocation : traceLocation.fullmatch location.toList = true) :
    (∃ t, evaluateLeaf event leaf location = .ok t) ↔ LeafEvaluates event leaf := by
  have hroot : traceLocation.fullmatch "$".toList = true := by decide
  have hmove {from_ to_ : String} (hto : traceLocation.fullmatch to_.toList = true) :
      (∃ t, evaluateLeaf event leaf from_ = .ok t) → ∃ t, evaluateLeaf event leaf to_ = .ok t := by
    rintro ⟨t, h⟩
    obtain ⟨field, operands, o, hfield, hoperands, ho, hshape, -⟩ := evaluateLeaf_eq_ok.mp h
    have hshape' := hshape.relocate hto
    obtain ⟨t', -, hnode⟩ := ConditionTrace.init_ok .unset hshape'
    exact ⟨t', evaluateLeaf_eq_ok.mpr ⟨field, operands, o, hfield, hoperands, ho, hshape', hnode⟩⟩
  simp only [LeafEvaluates, evaluateCondition_eq_ok, evaluate]
  exact ⟨hmove hroot, hmove hlocation⟩

/-! ### Trees -/

theorem connectiveTrace_eq_ok {kind : TraceKind} {o : ConditionOutcome} {children : List ConditionTrace}
    {t : ConditionTrace} : connectiveTrace location kind o children = .ok t ↔
      TraceShape { location, kind, outcome := o } (children.map (·.location)) ∧
        t.node = .mk { location, kind, outcome := o } (.set (children.map (·.node))) := by
  rw [connectiveTrace, ofValidation_eq_ok, ConditionTrace.init_eq_ok_iff]
  rfl

/-! What the trace of a connective is made of. -/

theorem node_of_evaluate_all {cs : List ConditionNode} {t : ConditionTrace}
    (h : evaluate event location (.all cs) = .ok t) :
    ∃ ts, evaluateFrom event location .all 0 cs = .ok ts ∧ t.node = .mk
      { location, kind := .all, outcome := connective true (ts.map (·.outcome)) }
      (.set (ts.map (·.node))) := by
  rw [evaluate] at h
  obtain ⟨ts, hts, h⟩ := bind_eq_ok.mp h
  exact ⟨ts, hts, (connectiveTrace_eq_ok.mp h).2⟩

theorem node_of_evaluate_any {cs : List ConditionNode} {t : ConditionTrace}
    (h : evaluate event location (.any cs) = .ok t) :
    ∃ ts, evaluateFrom event location .any 0 cs = .ok ts ∧ t.node = .mk
      { location, kind := .any, outcome := connective false (ts.map (·.outcome)) }
      (.set (ts.map (·.node))) := by
  rw [evaluate] at h
  obtain ⟨ts, hts, h⟩ := bind_eq_ok.mp h
  exact ⟨ts, hts, (connectiveTrace_eq_ok.mp h).2⟩

theorem node_of_evaluate_not {c : ConditionNode} {t : ConditionTrace}
    (h : evaluate event location (.not_ c) = .ok t) :
    ∃ t', evaluate event (notLocation location) c = .ok t' ∧ t.node = .mk
      { location, kind := .not_, outcome := negation t'.outcome } (.set [t'.node]) := by
  rw [evaluate] at h
  obtain ⟨t', ht', h⟩ := bind_eq_ok.mp h
  exact ⟨t', ht', (connectiveTrace_eq_ok.mp h).2⟩

/-- The traces of the children, one by one. -/
theorem evaluateFrom_eq_ok {kind : TraceKind} {cs : List ConditionNode} {ts : List ConditionTrace}
    {i : Nat} : evaluateFrom event location kind i cs = .ok ts ↔
      List.Forall₂ (fun p t => evaluate event (childLocation location kind p.2) p.1 = .ok t)
        (cs.zipIdx i) ts := by
  induction cs generalizing i ts with
  | nil => simp [evaluateFrom, eq_comm]
  | cons c cs ih =>
    simp only [evaluateFrom, bind_eq_ok, List.zipIdx_cons, ih]
    constructor
    · rintro ⟨t, ht, ts', hts', h⟩
      cases h
      exact .cons ht hts'
    · rintro (_ | ⟨ht, hts⟩)
      exact ⟨_, ht, _, hts, rfl⟩

/-- The tree evaluates: its leaves do, and its connectives have children. -/
def Evaluates (event : NormalizedEvent) (c : ConditionNode) : Prop :=
  c.toFormula.Total (LeafEvaluates event)

theorem evaluates_all {cs : List ConditionNode} :
    Evaluates event (.all cs) ↔ cs ≠ [] ∧ ∀ c ∈ cs, Evaluates event c := by
  rw [Evaluates, ConditionNode.toFormula, ConditionNode.toFormulas_eq_map]
  simp [Evaluates]

theorem evaluates_any {cs : List ConditionNode} :
    Evaluates event (.any cs) ↔ cs ≠ [] ∧ ∀ c ∈ cs, Evaluates event c := by
  rw [Evaluates, ConditionNode.toFormula, ConditionNode.toFormulas_eq_map]
  simp [Evaluates]

theorem evaluates_not {c : ConditionNode} : Evaluates event (.not_ c) ↔ Evaluates event c := Iff.rfl

/-- The traces of children that evaluate are there and stand at their places. -/
theorem evaluateFrom_isOk_iff {kind : TraceKind} (hkind : kind = .all ∨ kind = .any)
    (hlocation : traceLocation.fullmatch location.toList = true) {cs : List ConditionNode}
    (ih : ∀ c ∈ cs, ∀ location, traceLocation.fullmatch location.toList = true →
      ((∃ t, evaluate event location c = .ok t) ↔ Evaluates event c)) (i : Nat) :
    (∃ ts, evaluateFrom event location kind i cs = .ok ts) ↔ ∀ c ∈ cs, Evaluates event c := by
  induction cs generalizing i with
  | nil => simp [evaluateFrom]
  | cons c cs ihcs =>
    have hc := ih c (by simp) _ (traceLocation_child hlocation hkind i)
    have hcs := ihcs (fun d hd => ih d (by simp [hd])) (i + 1)
    rw [List.forall_mem_cons, ← hc, ← hcs]
    simp only [evaluateFrom, bind_eq_ok]
    constructor
    · rintro ⟨_, t, ht, ts, hts, _⟩
      exact ⟨⟨t, ht⟩, ts, hts⟩
    · rintro ⟨⟨t, ht⟩, ts, hts⟩
      exact ⟨t :: ts, t, ht, ts, hts, rfl⟩

theorem locations_of_evaluateFrom {kind : TraceKind} {cs : List ConditionNode}
    {ts : List ConditionTrace} {i : Nat} (h : evaluateFrom event location kind i cs = .ok ts) :
    ts.map (·.location) = (List.range' i cs.length).map (childLocation location kind) := by
  induction cs generalizing i ts with
  | nil =>
    cases h
    rfl
  | cons c cs ih =>
    simp only [evaluateFrom, bind_eq_ok] at h
    obtain ⟨t, ht, ts', hts', h⟩ := h
    cases h
    rw [List.map_cons, location_of_evaluate ht, ih hts', List.length_cons, List.range'_succ,
      List.map_cons]

/-- `all` and `any` over children that evaluate when they are total. -/
theorem connective_isOk_iff {conjunction : Bool} {kind : TraceKind} {cs : List ConditionNode}
    (hkind : kind = .all ∨ kind = .any) (hlocation : traceLocation.fullmatch location.toList = true)
    (ih : ∀ c ∈ cs, ∀ location, traceLocation.fullmatch location.toList = true →
      ((∃ t, evaluate event location c = .ok t) ↔ Evaluates event c)) :
    (∃ t, (evaluateFrom event location kind 0 cs >>= fun children =>
      connectiveTrace location kind (connective conjunction (children.map (·.outcome))) children) =
        .ok t) ↔ cs ≠ [] ∧ ∀ c ∈ cs, Evaluates event c := by
  rw [← evaluateFrom_isOk_iff hkind hlocation ih 0]
  constructor
  · rintro ⟨t, h⟩
    obtain ⟨ts, hts, h⟩ := bind_eq_ok.mp h
    refine ⟨?_, ts, hts⟩
    rintro rfl
    cases hts
    exact ((connectiveTrace_eq_ok.mp h).1.list hkind).1 rfl
  · rintro ⟨hne, ts, hts⟩
    have hshape : TraceShape
        { location, kind, outcome := connective conjunction (ts.map (·.outcome)) }
        (ts.map (·.location)) := by
      rw [locations_of_evaluateFrom hts]
      exact list_shape hlocation hkind (by simpa using hne) _
    obtain ⟨t, ht, -⟩ := connectiveTrace_ok hshape
    exact ⟨t, bind_eq_ok.mpr ⟨ts, hts, ht⟩⟩

/-- **A tree evaluates when its leaves do**, wherever it stands. -/
theorem evaluate_isOk_iff {c : ConditionNode}
    (hlocation : traceLocation.fullmatch location.toList = true) :
    (∃ t, evaluate event location c = .ok t) ↔ Evaluates event c := by
  induction c generalizing location with
  | leaf l => exact evaluateLeaf_isOk_iff hlocation
  | all cs ih =>
    rw [evaluates_all, evaluate]
    exact connective_isOk_iff (Or.inl rfl) hlocation fun c hc _ => ih c hc
  | any cs ih =>
    rw [evaluates_any, evaluate]
    exact connective_isOk_iff (Or.inr rfl) hlocation fun c hc _ => ih c hc
  | not_ c ih =>
    rw [evaluates_not, ← ih (traceLocation_not hlocation), evaluate]
    constructor
    · rintro ⟨t, h⟩
      obtain ⟨t', ht', -⟩ := bind_eq_ok.mp h
      exact ⟨t', ht'⟩
    · rintro ⟨t', ht'⟩
      have hshape : TraceShape { location, kind := .not_, outcome := negation t'.outcome }
          ([t'].map (·.location)) := by
        rw [List.map_singleton, location_of_evaluate ht']
        exact not_shape hlocation _
      obtain ⟨t, ht, -⟩ := connectiveTrace_ok hshape
      exact ⟨t, bind_eq_ok.mpr ⟨t', ht', ht⟩⟩

theorem evaluateCondition_isOk_iff {c : ConditionNode} :
    (∃ t, evaluateCondition event c = .ok t) ↔ Evaluates event c := by
  simp only [evaluateCondition_eq_ok]
  exact evaluate_isOk_iff (by decide)

end SocLab
