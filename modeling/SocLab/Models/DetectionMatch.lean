import SocLab.Models.Detection

/-!
# SocLab.Models.DetectionMatch — traces and matches

What a match reports, from `models/detection.py`.

* A `ConditionTrace` carries the validation of each of its nodes, so that one exists only if its
  validator accepted it; `validateTrace_eq_ok` says what the validator accepts.
* `ConditionTrace.reads_modelValidate` and `DetectionMatch.codec`: a trace or a match that is dumped
  reads back as it was, with the same fields given and left out at every node.
-/

namespace SocLab

open Py Py.Validation

/-! ### Traces -/

/-- `Literal["leaf", "all", "any", "not"]`. -/
inductive TraceKind where
  | leaf
  | all
  | any
  | not_
  deriving DecidableEq

instance : StrEnum TraceKind where
  name := "kind"
  members := [.leaf, .all, .any, .not_]
  value
    | .leaf => "leaf"
    | .all => "all"
    | .any => "any"
    | .not_ => "not"
  mem_members e := by cases e <;> simp
  value_injective e e' := by cases e <;> cases e' <;> simp

/-- `Literal["missing", "absent"]`. -/
inductive Absence where
  | missing
  | absent
  deriving DecidableEq

instance : StrEnum Absence where
  name := "absence"
  members := [.missing, .absent]
  value
    | .missing => "missing"
    | .absent => "absent"
  mem_members e := by cases e <;> simp
  value_injective e e' := by cases e <;> cases e' <;> simp

/-- `op: DetectionOperator | None`. -/
def optionalOperator : Codec (Option DetectionOperator) :=
  (Codec.enum DetectionOperator).nullable fun _ h => by cases h

/-- `absence: Literal[...] | None`. -/
def optionalAbsence : Codec (Option Absence) := (Codec.literal Absence).nullable fun _ h => by cases h

/-- `\.(?:all|any)\[\d+\]|\.not`. -/
def traceStep : Regex Char :=
  .alt
    (.cat (.lit ['.']) (.cat (.alt (.lit ['a', 'l', 'l']) (.lit ['a', 'n', 'y']))
      (.cat (.lit ['[']) (.cat (.plus (.cls isDecimal)) (.lit [']'])))))
    (.lit ['.', 'n', 'o', 't'])

/-- `\$(?:\.(?:all|any)\[\d+\]|\.not)*`. -/
def traceLocation : Regex Char := .cat (.lit ['$']) (.star traceStep)

/-- The location of a child of `all` or `any`. -/
def childLocation (location : String) (kind : TraceKind) (index : Nat) : String :=
  location ++ "." ++ StrEnum.value kind ++ "[" ++ toString index ++ "]"

/-- The location of the child of `not`. -/
def notLocation (location : String) : String := location ++ ".not"

section Locations

variable {location : String}

theorem traceStep_append (h : traceLocation.fullmatch location.toList = true) {w : List Char}
    (hw : w ∈ traceStep.lang) : traceLocation.fullmatch (location.toList ++ w) = true := by
  rw [Regex.fullmatch_iff] at h ⊢
  obtain ⟨u, hu, v, hv, huv⟩ := Regex.mem_cat.mp h
  refine Regex.mem_cat.mpr ⟨u, hu, v ++ w, Regex.append_mem_star hv hw, ?_⟩
  rw [← List.append_assoc, huv]

theorem traceLocation_not (h : traceLocation.fullmatch location.toList = true) :
    traceLocation.fullmatch (notLocation location).toList = true := by
  rw [notLocation, String.toList_append]
  exact traceStep_append h (Regex.mem_alt.mpr (Or.inr (Regex.lit_mem_lang _)))

theorem traceLocation_child (h : traceLocation.fullmatch location.toList = true) {kind : TraceKind}
    (hkind : kind = .all ∨ kind = .any) (i : Nat) :
    traceLocation.fullmatch (childLocation location kind i).toList = true := by
  have hdigits : (toString i).toList ∈ (Regex.plus (.cls isDecimal)).lang :=
    Regex.mem_plus_cls (toList_toString_ne_nil i) fun c => isDecimal_of_mem_repr
  have hname : (StrEnum.value kind).toList ∈
      (Regex.alt (.lit ['a', 'l', 'l']) (.lit ['a', 'n', 'y'])).lang := by
    rcases hkind with rfl | rfl
    · exact Regex.mem_alt.mpr (Or.inl (Regex.lit_mem_lang _))
    · exact Regex.mem_alt.mpr (Or.inr (Regex.lit_mem_lang _))
  have hstep : ['.'] ++ ((StrEnum.value kind).toList ++ (['['] ++ ((toString i).toList ++ [']']))) ∈
      traceStep.lang := by
    refine Regex.mem_alt.mpr (Or.inl (Regex.mem_cat.mpr ⟨_, Regex.lit_mem_lang _, _, ?_, rfl⟩))
    refine Regex.mem_cat.mpr ⟨_, hname, _, ?_, rfl⟩
    refine Regex.mem_cat.mpr ⟨_, Regex.lit_mem_lang _, _, ?_, rfl⟩
    exact Regex.mem_cat.mpr ⟨_, hdigits, _, Regex.lit_mem_lang _, rfl⟩
  have happend : (childLocation location kind i).toList = location.toList ++
      (['.'] ++ ((StrEnum.value kind).toList ++ (['['] ++ ((toString i).toList ++ [']'])))) := by
    simp [childLocation, String.toList_append]
  rw [happend]
  exact traceStep_append h hstep

end Locations

/-- The fields of one trace node but its children. -/
structure TraceEvidence where
  location : String
  kind : TraceKind
  outcome : ConditionOutcome
  field : ModelField (Option String) := .unset
  op : ModelField (Option DetectionOperator) := .unset
  expected : ModelField Value := .unset
  actual : ModelField Value := .unset
  absence : ModelField (Option Absence) := .unset
  redacted : ModelField Bool := .unset
  redactionMarker : ModelField (Option String) := .unset

/-- A trace before its checks: what a node says, and its children. -/
inductive TraceNode where
  | mk (evidence : TraceEvidence) (children : ModelField (List TraceNode))

/-- The checks of `validate_trace` before the actual value is looked at; of the children they read the
locations. -/
def traceChecks (e : TraceEvidence) (children : List String) : List (Bool × String) :=
  let leaf := e.kind = .leaf
  let field := e.field.get none
  let op := e.op.get none
  let existence := op = some .exists_ ∨ op = some .notExists
  let absence := e.absence.get none
  let redacted := e.redacted.get false
  let marker := e.redactionMarker.get none
  [(!traceLocation.fullmatch e.location.toList, "invalid trace location"),
    (leaf && (children ≠ [] || field.isNone || op.isNone || !validPath (field.getD "")),
      "leaf trace requires field and operator, without children"),
    (leaf && existence && e.expected.isSet, "existence trace must omit expected value"),
    (leaf && ¬ existence &&
      (!e.expected.isSet || !op.any fun op => validOperand op (e.expected.get .none)),
      "leaf trace requires a valid expected operand"),
    (¬ leaf && (field.isSome || op.isSome || e.expected.isSet || e.actual.isSet || absence.isSome),
      "logical trace cannot contain leaf evidence"),
    (e.kind = .not_ && children.length ≠ 1 || (e.kind = .all || e.kind = .any) && children = [],
      "logical trace has invalid child count"),
    (e.kind = .not_ && children.head? ≠ some (notLocation e.location),
      "negated child has an inconsistent trace location"),
    ((e.kind = .all || e.kind = .any) &&
      children.zipIdx.any fun p => p.1 ≠ childLocation e.location e.kind p.2,
      "child has an inconsistent trace location"),
    (redacted ≠ marker.isSome, "redaction requires a marker and vice versa"),
    (marker = some "", "redaction marker must be non-empty"),
    (¬ leaf && redacted, "logical trace cannot be redacted"),
    (redacted && e.actual.isSet, "redacted trace must omit actual value"),
    (absence.isSome && e.actual.isSet, "absent or missing trace must omit actual value")]

/-- The check of the actual value; looking up the offset of a datetime may raise. -/
def checkActual (actual : ModelField Value) : Validation Unit :=
  match actual with
  | .unset => ok ()
  | .set v =>
    match safeActual v with
    | .ok true => ok ()
    | .ok false => error "trace actual must be a normalized scalar value"
    | .error e => raised e

/-- `validate_trace` on one node. -/
def validateTrace (e : TraceEvidence) (children : List String) : Validation Unit :=
  ((raiseFirst (traceChecks e children)).after fun _ => checkActual e.actual).after fun _ =>
    raiseFirst
      [(e.kind = .leaf && !(e.actual.isSet || (e.absence.get none).isSome || e.redacted.get false),
        "leaf trace requires actual, absence reason, or redaction")]

/-- What the validator accepts, field by field. -/
structure TraceShape (e : TraceEvidence) (children : List String) : Prop where
  location : traceLocation.fullmatch e.location.toList = true
  leaf : e.kind = .leaf → children = [] ∧ ∃ field op, e.field.get none = some field ∧
    e.op.get none = some op ∧ validPath field = true ∧
    (op ∈ existenceOperators → e.expected = .unset) ∧
    (op ∉ existenceOperators → ∃ v, e.expected = .set v ∧ validOperand op v = true)
  logical : e.kind ≠ .leaf → e.field.get none = none ∧ e.op.get none = none ∧ e.expected = .unset ∧
    e.actual = .unset ∧ e.absence.get none = none ∧ e.redacted.get false = false
  not_ : e.kind = .not_ → children = [notLocation e.location]
  list : e.kind = .all ∨ e.kind = .any →
    children ≠ [] ∧ ∀ p ∈ children.zipIdx, p.1 = childLocation e.location e.kind p.2
  redacted : e.redacted.get false = (e.redactionMarker.get none).isSome
  marker : e.redactionMarker.get none ≠ some ""
  actual : ∀ v, e.actual = .set v → safeActual v = .ok true ∧ e.redacted.get false = false ∧
    e.absence.get none = none
  evidence : e.kind = .leaf → e.actual ≠ .unset ∨ e.absence.get none ≠ none ∨ e.redacted.get false = true

theorem checkActual_eq_ok {actual : ModelField Value} :
    checkActual actual = ok () ↔ ∀ v, actual = .set v → safeActual v = .ok true := by
  cases actual with
  | unset => simp [checkActual]
  | set v =>
    rw [checkActual]
    split
    · next h => simp [h]
    · next h => simp [h, error]
    · next e h => cases e <;> simp [h, raised, error]

theorem validateTrace_steps {e : TraceEvidence} {children : List String} :
    validateTrace e children = ok () ↔ (∀ c ∈ traceChecks e children, c.1 = false) ∧
      checkActual e.actual = ok () ∧ (e.kind = .leaf → e.actual ≠ .unset ∨
        e.absence.get none ≠ none ∨ e.redacted.get false = true) := by
  rw [validateTrace, after_eq_ok]
  constructor
  · rintro ⟨u, hu, hlast⟩
    obtain ⟨u', hchecks, hactual⟩ := after_eq_ok.mp hu
    refine ⟨raiseFirst_eq_ok.mp hchecks, hactual, fun hleaf => ?_⟩
    have h := raiseFirst_eq_ok.mp hlast _ (List.mem_cons_self ..)
    cases hset : e.actual with
    | set v => exact Or.inl (by simp)
    | unset => simpa [hleaf, hset, imp_iff_not_or] using h
  · rintro ⟨hchecks, hactual, hleaf⟩
    refine ⟨(), after_eq_ok.mpr ⟨(), raiseFirst_eq_ok.mpr hchecks, hactual⟩, raiseFirst_eq_ok.mpr ?_⟩
    intro c hc
    rw [List.mem_singleton.mp hc]
    cases hset : e.actual with
    | set v => simp
    | unset => simpa [hset, imp_iff_not_or] using hleaf

theorem traceShape_of_validateTrace {e : TraceEvidence} {children : List String}
    (h : validateTrace e children = ok ()) : TraceShape e children := by
  rw [validateTrace_steps, checkActual_eq_ok] at h
  obtain ⟨hchecks, hactual, hevidence⟩ := h
  simp [traceChecks] at hchecks
  obtain ⟨hloc, hleaf, hexist, hcompare, hlogical, ⟨hlength, hne⟩, hnot, hlist, hred, hmarker,
    hlogred, hredact, habsence⟩ := hchecks
  refine ⟨hloc, fun hk => ?_, fun hk => ?_, fun hk => ?_, fun hk => ?_, hred, hmarker, ?_, hevidence⟩
  · obtain ⟨⟨⟨hnil, hfield⟩, hop⟩, hpath⟩ := hleaf hk
    obtain ⟨field, hfield⟩ := Option.isSome_iff_exists.mp hfield
    obtain ⟨op, hop⟩ := Option.isSome_iff_exists.mp hop
    refine ⟨hnil, field, op, hfield, hop, by simpa [hfield] using hpath, fun hmem => ?_, fun hmem => ?_⟩
    · exact hexist hk (by simpa [hop, existenceOperators] using hmem)
    · have hnot : op ≠ .exists_ ∧ op ≠ .notExists := by simpa [existenceOperators] using hmem
      obtain ⟨hset, hany⟩ := hcompare hk (by simpa [hop] using hnot.1) (by simpa [hop] using hnot.2)
      obtain ⟨v, hv⟩ := ModelField.isSet_eq_true.mp hset
      exact ⟨v, hv, by simpa [hop, hv] using hany⟩
  · obtain ⟨⟨⟨⟨hfield, hop⟩, hexp⟩, hact⟩, habs⟩ := hlogical hk
    exact ⟨hfield, hop, hexp, hact, habs, hlogred hk⟩
  · obtain ⟨c, rfl⟩ := List.length_eq_one_iff.mp (hlength hk)
    have hc := hnot hk
    rw [List.head?_cons, Option.some.injEq] at hc
    rw [hc]
  · exact ⟨hne hk, fun p hp => hlist hk p.1 p.2 hp⟩
  · intro v hv
    refine ⟨hactual v hv, ?_, ?_⟩
    · by_contra hr
      have hunset := hredact (by simpa using hr)
      rw [hv] at hunset
      cases hunset
    · by_contra ha
      have hunset := habsence (Option.isSome_iff_ne_none.mpr ha)
      rw [hv] at hunset
      cases hunset

theorem validateTrace_of_traceShape {e : TraceEvidence} {children : List String}
    (h : TraceShape e children) : validateTrace e children = ok () := by
  rw [validateTrace_steps, checkActual_eq_ok]
  refine ⟨?_, fun v hv => (h.actual v hv).1, h.evidence⟩
  simp [traceChecks]
  refine ⟨h.location, fun hk => ?_, fun hk hop => ?_, fun hk h1 h2 => ?_, fun hk => ?_,
    ⟨fun hk => ?_, fun hk => (h.list hk).1⟩, fun hk => ?_, fun hk a b hab => (h.list hk).2 (a, b) hab,
    h.redacted, h.marker, fun hk => (h.logical hk).2.2.2.2.2, fun hr => ?_, fun ha => ?_⟩
  · obtain ⟨hnil, field, op, hfield, hop, hpath, -⟩ := h.leaf hk
    simp [hnil, hfield, hop, hpath]
  · obtain ⟨-, field, op, -, hop', -, hexist, -⟩ := h.leaf hk
    refine hexist ?_
    rw [hop'] at hop
    simpa [existenceOperators] using hop
  · obtain ⟨-, field, op, -, hop', -, -, hcompare⟩ := h.leaf hk
    have hnot : op ∉ existenceOperators := by
      rw [hop', Option.some.injEq] at h1 h2
      simpa [existenceOperators] using ⟨h1, h2⟩
    obtain ⟨v, hv, hvalid⟩ := hcompare hnot
    simp [hv, hop', hvalid]
  · obtain ⟨hfield, hop, hexp, hact, habs, -⟩ := h.logical hk
    simp [hfield, hop, hexp, hact, habs]
  · rw [h.not_ hk]
    rfl
  · rw [h.not_ hk]
    rfl
  · cases hv : e.actual with
    | unset => rfl
    | set v => simp [(h.actual v hv).2.1] at hr
  · cases hv : e.actual with
    | unset => rfl
    | set v => simp [(h.actual v hv).2.2] at ha

/-- **`validate_trace` accepts exactly the nodes of that shape.** -/
theorem validateTrace_eq_ok {e : TraceEvidence} {children : List String} :
    validateTrace e children = ok () ↔ TraceShape e children :=
  ⟨traceShape_of_validateTrace, validateTrace_of_traceShape⟩

namespace TraceNode

/-- The fields of a node but its children. -/
def evidence : TraceNode → TraceEvidence
  | mk e _ => e

/-- Unset where none were given. -/
def children : TraceNode → ModelField (List TraceNode)
  | mk _ cs => cs

/-- The address of a node. -/
def location (t : TraceNode) : String := t.evidence.location

mutual

/-- The validator accepts the node and every node below it. -/
def Valid : TraceNode → Prop
  | mk e .unset => validateTrace e [] = ok ()
  | mk e (.set cs) => validateTrace e (cs.map location) = ok () ∧ AllValid cs

/-- Every child is. -/
def AllValid : List TraceNode → Prop
  | [] => True
  | c :: cs => Valid c ∧ AllValid cs

end

theorem allValid_iff {cs : List TraceNode} : AllValid cs ↔ ∀ c ∈ cs, Valid c := by
  induction cs with
  | nil => simp [AllValid]
  | cons c cs ih => simp [AllValid, ih]

theorem valid_mk {e : TraceEvidence} {cs : ModelField (List TraceNode)} :
    Valid (mk e cs) ↔ validateTrace e ((cs.get []).map location) = ok () ∧ ∀ c ∈ cs.get [], Valid c := by
  cases cs with
  | unset => simp [Valid]
  | set cs => simp [Valid, allValid_iff]

/-- Induction over traces: a node over all of its children at once. -/
@[elab_as_elim, induction_eliminator]
theorem induction {P : TraceNode → Prop}
    (mk : ∀ e children, (∀ c ∈ children.get [], P c) → P (mk e children)) : ∀ t, P t :=
  @TraceNode.rec P (fun cs => ∀ c ∈ cs.get [], P c) (fun cs => ∀ c ∈ cs, P c) mk
    (fun _ h => absurd h (by simp)) (fun _ h => h) (fun _ h => absurd h (by simp))
    fun c cs hc hcs d hd => by
      rcases List.mem_cons.mp hd with rfl | hd
      · exact hc
      · exact hcs d hd

mutual

/-- The node and all nodes below it. -/
def nodes : TraceNode → List TraceNode
  | mk e .unset => [mk e .unset]
  | mk e (.set cs) => mk e (.set cs) :: nodesAll cs

/-- The nodes of the children, in order. -/
def nodesAll : List TraceNode → List TraceNode
  | [] => []
  | c :: cs => nodes c ++ nodesAll cs

end

mutual

/-- How many nodes stand below each other, the node included. -/
def height : TraceNode → Nat
  | mk _ .unset => 1
  | mk _ (.set cs) => heightAll cs + 1

/-- The greatest height among children. -/
def heightAll : List TraceNode → Nat
  | [] => 0
  | c :: cs => max (height c) (heightAll cs)

end

theorem mem_nodesAll {n : TraceNode} {cs : List TraceNode} :
    n ∈ nodesAll cs ↔ ∃ c ∈ cs, n ∈ c.nodes := by
  induction cs with
  | nil => simp [nodesAll]
  | cons c cs ih => simp [nodesAll, ih]

theorem nodes_mk (e : TraceEvidence) (cs : ModelField (List TraceNode)) :
    (mk e cs).nodes = mk e cs :: nodesAll (cs.get []) := by cases cs <;> rfl

theorem mem_nodes_mk {n : TraceNode} {e : TraceEvidence} {cs : ModelField (List TraceNode)} :
    n ∈ (mk e cs).nodes ↔ n = mk e cs ∨ ∃ c ∈ cs.get [], n ∈ c.nodes := by
  rw [nodes_mk, List.mem_cons, mem_nodesAll]

theorem heightAll_le {cs : List TraceNode} {k : Nat} : heightAll cs ≤ k ↔ ∀ c ∈ cs, c.height ≤ k := by
  induction cs with
  | nil => simp [heightAll]
  | cons c cs ih => simp [heightAll, ih]

theorem height_mk (e : TraceEvidence) (cs : ModelField (List TraceNode)) :
    (mk e cs).height = heightAll (cs.get []) + 1 := by cases cs <;> rfl

/-- The fields of a node in the order of the class; `children` comes as it is dumped. -/
def slots (e : TraceEvidence) (children : Value) (childrenSet : Bool) : List Slot :=
  [.given "location" .str e.location,
    .given "kind" (.literal TraceKind) e.kind,
    .given "outcome" (.enum ConditionOutcome) e.outcome,
    ⟨"children", children, childrenSet⟩,
    .field "field" optionalStr none e.field,
    .field "op" optionalOperator none e.op,
    ⟨"expected", e.expected.get .none, e.expected.isSet⟩,
    ⟨"actual", e.actual.get .none, e.actual.isSet⟩,
    .field "absence" optionalAbsence none e.absence,
    .field "redacted" .bool false e.redacted,
    .field "redaction_marker" optionalStr none e.redactionMarker]

/-- `ConditionTrace.model_fields`, in the order of the class. -/
def fieldNames : List String :=
  ["location", "kind", "outcome", "children", "field", "op", "expected", "actual", "absence",
    "redacted", "redaction_marker"]

theorem nodup_slots (e : TraceEvidence) (children : Value) (childrenSet : Bool) :
    ((slots e children childrenSet).map (·.name)).Nodup := by
  show fieldNames.Nodup
  decide

mutual

/-- The instance of `ConditionTrace`. -/
def toValue : TraceNode → Value
  | mk e .unset => modelOf "ConditionTrace" (slots e (.list []) false)
  | mk e (.set cs) => modelOf "ConditionTrace" (slots e (.list (toValues cs)) true)

/-- The children as instances. -/
def toValues : List TraceNode → List Value
  | [] => []
  | c :: cs => toValue c :: toValues cs

end

theorem toValues_eq_map (cs : List TraceNode) : toValues cs = cs.map toValue := by
  induction cs with
  | nil => rfl
  | cons c cs ih => rw [toValues, ih]; rfl

theorem toValue_mk (e : TraceEvidence) (cs : ModelField (List TraceNode)) :
    toValue (mk e cs) =
      modelOf "ConditionTrace" (slots e (.list ((cs.get []).map toValue)) cs.isSet) := by
  cases cs with
  | unset => simp [toValue]
  | set cs => simp [toValue, toValues_eq_map]

end TraceNode

/-- Ordered, safe-to-render evidence for one condition-tree node. -/
structure ConditionTrace where
  node : TraceNode
  valid : node.Valid

namespace ConditionTrace

/-- `trace.location`. -/
def location (t : ConditionTrace) : String := t.node.location

/-- `trace.outcome`. -/
def outcome (t : ConditionTrace) : ConditionOutcome := t.node.evidence.outcome

/-- The instance of a validated trace. -/
def toValue (t : ConditionTrace) : Value := t.node.toValue

theorem map_nodes {β : Type} (g : TraceNode → β) (children : ModelField (List ConditionTrace)) :
    ((children.map fun cs => cs.map node).get []).map g = (children.get []).map fun t => g t.node := by
  cases children with
  | unset => rfl
  | set cs => exact List.map_map

theorem valid_nodes {children : ModelField (List ConditionTrace)} {c : TraceNode}
    (hc : c ∈ (children.map fun cs => cs.map node).get []) : c.Valid := by
  cases children with
  | unset => simp [ModelField.map] at hc
  | set cs =>
    obtain ⟨t, -, rfl⟩ := List.mem_map.mp hc
    exact t.valid

/-- `ConditionTrace(...)` for fields that have their declared types. -/
def init (e : TraceEvidence) (children : ModelField (List ConditionTrace)) :
    Validation ConditionTrace :=
  (certify (validateTrace e ((children.get []).map location))).after fun h =>
    ok ⟨.mk e (children.map fun cs => cs.map node), TraceNode.valid_mk.mpr
      ⟨map_nodes TraceNode.location children ▸ h.down, fun _ => valid_nodes⟩⟩

theorem init_ok {e : TraceEvidence} (children : ModelField (List ConditionTrace))
    (h : TraceShape e ((children.get []).map location)) :
    ∃ t, init e children = ok t ∧ t.node = .mk e (children.map fun cs => cs.map node) :=
  ⟨_, by rw [init, certify_ok (validateTrace_eq_ok.mpr h), after_ok], rfl⟩

theorem node_of_init {e : TraceEvidence} {children : ModelField (List ConditionTrace)}
    {t : ConditionTrace} (h : init e children = ok t) :
    t.node = .mk e (children.map fun cs => cs.map node) := by
  obtain ⟨hcheck, -, ht⟩ := after_eq_ok.mp h
  cases ht
  rfl

/-- The children of a node, as traces. -/
def children (t : ConditionTrace) : ModelField (List ConditionTrace) :=
  match t with
  | ⟨.mk _ .unset, _⟩ => .unset
  | ⟨.mk _ (.set cs), h⟩ => .set (cs.attach.map fun c => ⟨c.val, (TraceNode.valid_mk.mp h).2 c.val c.2⟩)

theorem map_node_children (t : ConditionTrace) :
    (t.children.map fun cs => cs.map node) = t.node.children := by
  obtain ⟨⟨e, cs⟩, h⟩ := t
  cases cs with
  | unset => rfl
  | set cs => simp [children, ModelField.map, TraceNode.children, List.map_map, Function.comp_def]

/-- The constructor rebuilds a trace from its fields. -/
theorem init_self (t : ConditionTrace) : init t.node.evidence t.children = ok t := by
  have hlocs : (t.children.get []).map location = ((t.node.children).get []).map TraceNode.location := by
    rw [← map_node_children, map_nodes]
    rfl
  obtain ⟨⟨e, cs⟩, h⟩ := t
  have hv := (TraceNode.valid_mk.mp h).1
  rw [init, certify_ok (h := by rw [hlocs]; exact hv), after_ok]
  congr 2
  rw [map_node_children]
  rfl

/-! #### Reading a trace -/

/-- The fields of a dict as a trace, in the order of the class; the children are read apart. -/
def fields (strict : Bool) (d : Dict) (children : Validation (ModelField (List ConditionTrace))) :
    Validation (TraceEvidence × ModelField (List ConditionTrace)) :=
  (fun location kind outcome children field op expected actual absence redacted marker =>
      (⟨location, kind, outcome, field, op, expected, actual, absence, redacted, marker⟩, children)) <$>
    requiredField "location" (Codec.str.validate strict) d
    <*> requiredField "kind" ((Codec.literal TraceKind).validate strict) d
    <*> requiredField "outcome" ((Codec.enum ConditionOutcome).validate strict) d
    <*> children
    <*> optionalField "field" (optionalStr.validate strict) d
    <*> optionalField "op" (optionalOperator.validate strict) d
    <*> optionalField "expected" anyValue d
    <*> optionalField "actual" anyValue d
    <*> optionalField "absence" (optionalAbsence.validate strict) d
    <*> optionalField "redacted" (Codec.bool.validate strict) d
    <*> optionalField "redaction_marker" (optionalStr.validate strict) d

mutual

/-- `ConditionTrace.model_validate(value, strict=strict)`. -/
def modelValidate (strict : Bool) : Validator ConditionTrace
  | .dict d =>
    (modelItems TraceNode.fieldNames (fields strict d (childrenItem strict d)) d).after fun f =>
      init f.1 f.2
  | _ => error "model_type"

/-- The item `children` of a dict. -/
def childrenItem (strict : Bool) : List (String × Value) → Validation (ModelField (List ConditionTrace))
  | [] => ok .unset
  | (k, v) :: d =>
    if k = "children" then
      ModelField.set <$> within (.name "children") (match v with
        | .list vs => childrenFrom strict 0 vs
        | _ => error "list_type")
    else childrenItem strict d

/-- The children from an index on, each error under its index. -/
def childrenFrom (strict : Bool) : Nat → List Value → Validation (List ConditionTrace)
  | _, [] => ok []
  | i, v :: vs => List.cons <$> within (.index i) (modelValidate strict v) <*> childrenFrom strict (i + 1) vs

end

theorem childrenFrom_eq (strict : Bool) (i : Nat) (vs : List Value) :
    childrenFrom strict i vs = traverseFrom (modelValidate strict) i vs := by
  induction vs generalizing i with
  | nil => rfl
  | cons v vs ih => rw [childrenFrom, ih, traverseFrom]

theorem childrenItem_eq (strict : Bool) (d : Dict) :
    childrenItem strict d = optionalField "children" (listOf (modelValidate strict)) d := by
  induction d with
  | nil => rfl
  | cons p d ih =>
    obtain ⟨k, v⟩ := p
    by_cases hk : k = "children"
    · subst hk
      cases v <;> simp [childrenItem, optionalField, listOf, childrenFrom_eq]
    · have hb : ("children" == k) = false := by simpa using fun e : "children" = k => hk e.symm
      have hstep : childrenItem strict ((k, v) :: d) = childrenItem strict d := by
        cases v <;> simp [childrenItem, hk]
      rw [hstep, ih, optionalField, optionalField, List.lookup_cons, hb]

theorem modelValidate_dict (strict : Bool) (d : Dict) :
    modelValidate strict (.dict d) =
      (modelDict TraceNode.fieldNames (fun d => fields strict d
        (optionalField "children" (listOf (modelValidate strict)) d)) (.dict d)).after
          fun f => init f.1 f.2 := by
  rw [modelValidate, childrenItem_eq]
  rfl

/-! #### What was dumped reads back -/

/-- Only a leaf has an expected value, and that is an operand. -/
theorem validOperand_expected {e : TraceEvidence} {locations : List String} (h : TraceShape e locations)
    {v : Value} (hv : e.expected = .set v) : ∃ op, validOperand op v = true := by
  by_cases hk : e.kind = .leaf
  · obtain ⟨-, field, op, -, -, -, hexist, hcompare⟩ := h.leaf hk
    by_cases hop : op ∈ existenceOperators
    · rw [hexist hop] at hv
      cases hv
    · obtain ⟨w, hw, hvalid⟩ := hcompare hop
      rw [hv] at hw
      cases hw
      exact ⟨op, hvalid⟩
  · rw [(h.logical hk).2.2.1] at hv
    cases hv

theorem plain_expected {e : TraceEvidence} {locations : List String} (h : TraceShape e locations)
    {v : Value} (hv : e.expected = .set v) : v.Plain := by
  obtain ⟨op, hop⟩ := validOperand_expected h hv
  exact plain_of_validOperand hop

theorem plain_actual {e : TraceEvidence} {locations : List String} (h : TraceShape e locations)
    {v : Value} (hv : e.actual = .set v) : v.Plain := plain_of_safeActual (h.actual v hv).1

theorem fields_setItems {e : TraceEvidence} {locations : List String} (h : TraceShape e locations)
    {strict : Bool} {cs : ModelField (List ConditionTrace)} (v : Value) (b : Bool) :
    fields strict (Slot.setItems (TraceNode.slots e v b)) (ok cs) = ok (e, cs) := by
  have hn := TraceNode.nodup_slots e v b
  have hexpected : optionalField "expected" anyValue (Slot.setItems (TraceNode.slots e v b)) =
      ok e.expected := by
    refine optional_setItems id .none hn (fun w hw => ?_) rfl
    rw [id, (plain_expected h hw).1, anyValue]
  have hactual : optionalField "actual" anyValue (Slot.setItems (TraceNode.slots e v b)) =
      ok e.actual := by
    refine optional_setItems id .none hn (fun w hw => ?_) rfl
    rw [id, (plain_actual h hw).1, anyValue]
  rw [fields, required_given hn (a := e.location) rfl, required_given hn (a := e.kind) rfl,
    required_given hn (a := e.outcome) rfl, optional_field hn (f := e.field) rfl,
    optional_field hn (f := e.op) rfl, hexpected, hactual, optional_field hn (f := e.absence) rfl,
    optional_field hn (f := e.redacted) rfl, optional_field hn (f := e.redactionMarker) rfl]
  rfl

/-- **A dumped trace reads back as it was.** -/
theorem reads_modelValidate (strict : Bool) : Reads (modelValidate strict) toValue := by
  suffices h : ∀ (n : TraceNode) (hn : n.Valid), modelValidate strict n.toValue.dump = ok ⟨n, hn⟩ from
    fun t => h t.node t.valid
  intro n
  induction n with
  | mk e cs ih =>
    intro hvalid
    have hslots := TraceNode.nodup_slots e (.list ((cs.get []).map TraceNode.toValue)) cs.isSet
    obtain ⟨hshape, hcs⟩ := TraceNode.valid_mk.mp hvalid
    rw [TraceNode.toValue_mk, dump_modelOf hslots, modelValidate_dict]
    have hchildren : optionalField "children" (listOf (modelValidate strict)) (Slot.setItems
        (TraceNode.slots e (.list ((cs.get []).map TraceNode.toValue)) cs.isSet)) =
        ok (children ⟨.mk e cs, hvalid⟩) := by
      have hnodes := map_node_children ⟨.mk e cs, hvalid⟩
      generalize children ⟨.mk e cs, hvalid⟩ = f at hnodes
      change (f.map fun ts => ts.map node) = cs at hnodes
      refine optional_setItems (fun ts => .list (ts.map toValue)) [] hslots
        (fun ts hts => ?_) ?_
      · have hget : cs.get [] = ts.map node := by rw [← hnodes, hts]; rfl
        rw [Value.dump_list, List.map_map]
        refine traverseFrom_map (fun t ht => ?_) 0
        exact ih t.node (hget ▸ List.mem_map_of_mem ht) t.valid
      · have hvalues := map_nodes TraceNode.toValue f
        rw [hnodes] at hvalues
        rw [hvalues, ← hnodes, ModelField.isSet_map]
        rfl
    rw [modelDict_dict (a := (e, children ⟨.mk e cs, hvalid⟩))]
    · exact init_self ⟨.mk e cs, hvalid⟩
    · rw [hchildren]
      exact fields_setItems (validateTrace_eq_ok.mp hshape) _ _
    · exact fun k hk => setItems_keys_subset _ hk

theorem eq_toValue (t : ConditionTrace) : t.toValue.eq t.toValue = true := by
  suffices h : ∀ n : TraceNode, n.Valid → n.toValue.eq n.toValue = true from h t.node t.valid
  intro n
  induction n with
  | mk e cs ih =>
    intro hvalid
    obtain ⟨hv, hcs⟩ := TraceNode.valid_mk.mp hvalid
    have hshape := validateTrace_eq_ok.mp hv
    have hchildren : (Value.list ((cs.get []).map TraceNode.toValue)).eq
        (.list ((cs.get []).map TraceNode.toValue)) = true := by
      rw [Value.eq]
      refine Value.eqList_self fun v hv => ?_
      obtain ⟨c, hc, rfl⟩ := List.mem_map.mp hv
      exact ih c hc (hcs c hc)
    have hexpected : (e.expected.get .none).eq (e.expected.get .none) = true := by
      cases hx : e.expected with
      | unset => simp [Value.eq]
      | set v => exact (plain_expected hshape hx).2
    have hactual : (e.actual.get .none).eq (e.actual.get .none) = true := by
      cases hx : e.actual with
      | unset => simp [Value.eq]
      | set v => exact (plain_actual hshape hx).2
    rw [TraceNode.toValue_mk]
    refine eq_modelOf (TraceNode.nodup_slots _ _ _) ?_
    simp [TraceNode.slots, Slot.given, Slot.field, hchildren, hexpected, hactual]

/-- Traces as a field type. -/
def codec : Codec ConditionTrace where
  validate := modelValidate
  enc := toValue
  reads := reads_modelValidate
  eq_self := eq_toValue

end ConditionTrace

/-! ### Matches -/

/-- The declared fields of a match. -/
structure MatchFields where
  ruleId : String
  ruleVersion : PositiveInteger
  ruleTitle : String
  event : NormalizedEvent
  rootOutcome : ConditionOutcome
  trace : ConditionTrace

/-- `DetectionMatch.validate_match`, its checks in order with their messages. -/
def validateMatch (f : MatchFields) : Validation Unit :=
  raiseFirst
    [(!slug.fullmatch f.ruleId.toList || strip f.ruleTitle = "", "match requires a valid rule identity"),
      (f.rootOutcome ≠ .true || f.trace.outcome ≠ .true,
        "a detection match requires a true root outcome"),
      (f.trace.location ≠ "$", "match trace must start at the root")]

theorem validateMatch_eq_ok {f : MatchFields} :
    validateMatch f = ok () ↔ slug.fullmatch f.ruleId.toList = true ∧ strip f.ruleTitle ≠ "" ∧
      f.rootOutcome = .true ∧ f.trace.outcome = .true ∧ f.trace.location = "$" := by
  rw [validateMatch, raiseFirst_eq_ok]
  simp [and_assoc]

namespace MatchFields

/-- The fields of a match in the order of the class; all are given. -/
def slots (m : MatchFields) : List Slot :=
  [.given "rule_id" .str m.ruleId,
    .given "rule_version" positiveInteger m.ruleVersion,
    .given "rule_title" .str m.ruleTitle,
    .given "event" NormalizedEvent.codec m.event,
    .given "root_outcome" (.enum ConditionOutcome) m.rootOutcome,
    .given "trace" ConditionTrace.codec m.trace]

/-- The fields of a dict as a match, in the order of the class. -/
def fields (strict : Bool) (d : Dict) : Validation MatchFields :=
  MatchFields.mk <$> requiredField "rule_id" (Codec.str.validate strict) d
    <*> requiredField "rule_version" (positiveInteger.validate strict) d
    <*> requiredField "rule_title" (Codec.str.validate strict) d
    <*> requiredField "event" (NormalizedEvent.codec.validate strict) d
    <*> requiredField "root_outcome" ((Codec.enum ConditionOutcome).validate strict) d
    <*> requiredField "trace" (ConditionTrace.codec.validate strict) d

theorem nodup_slots (m : MatchFields) : (m.slots.map (·.name)).Nodup := by
  simp [slots, Slot.given]

/-- `class DetectionMatch`, up to its validator. -/
def modelClass : ModelClass MatchFields where
  name := "DetectionMatch"
  fieldNames := ["rule_id", "rule_version", "rule_title", "event", "root_outcome", "trace"]
  slots := slots
  fields := fields
  nodup := by decide
  names_slots _ := rfl
  fields_setItems strict m := by
    have hn := m.nodup_slots
    rw [fields, required_given hn (a := m.ruleId) rfl, required_given hn (a := m.ruleVersion) rfl,
      required_given hn (a := m.ruleTitle) rfl, required_given hn (a := m.event) rfl,
      required_given hn (a := m.rootOutcome) rfl, required_given hn (a := m.trace) rfl]
    rfl
  eq_slots m := by simp [slots, Slot.given]

end MatchFields

/-- Evidence of one successful rule/event match, never an Alert. -/
structure DetectionMatch extends MatchFields where
  valid : validateMatch toMatchFields = ok ()

namespace DetectionMatch

/-- `DetectionMatch(...)` for fields that have their declared types. -/
def init (f : MatchFields) : Validation DetectionMatch :=
  (certify (validateMatch f)).after fun h => ok ⟨f, h.down⟩

theorem init_eq_ok {f : MatchFields} (h : validateMatch f = ok ()) : init f = ok ⟨f, h⟩ := by
  rw [init, certify_ok h, after_ok]

/-- **A dumped match reads back as it was**, its event in the same context class and its trace with the
same fields given and left out at every node. -/
def codec : Codec DetectionMatch :=
  MatchFields.modelClass.codec.after init toMatchFields fun m => init_eq_ok m.valid

end DetectionMatch

end SocLab
