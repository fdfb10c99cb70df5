import SocLab.Models.DetectionMatch
import SocLab.Detection.Semantics
import SocLab.Logic.Kleene

/-!
# SocLab.Detection.Evaluator — one condition tree against one event

`detection/evaluator.py`: a path resolves to a `ResolvedField` of its declared type, a leaf compares its
value with the operands, and the connectives aggregate the outcomes of all of their children into a
trace.

`resolveEventField`, `compare`, `evaluateLeaf`, `evaluate` and `evaluateCondition` are the functions of
the source.
-/

namespace SocLab

open Py Py.Validation

/-! ### Resolving a field -/

/-- Missing retained text is distinct from an absent declared field. -/
inductive FieldPresence where
  | present
  | missing
  | absent
  deriving DecidableEq

/-- A whitelisted field with its declared type and explicit presence state. -/
structure ResolvedField where
  path : String
  fieldType : FieldType
  presence : FieldPresence
  value : Option Scalar
  deriving DecidableEq

/-- Members of the enumerations of an event stand for their text. -/
def enumText : Value → Value
  | .enum cls v =>
    if cls = StrEnum.name EventSource ∨ cls = StrEnum.name EventCategory ∨
        cls = StrEnum.name AuthenticationOutcome then .str v
    else .enum cls v
  | v => v

/-- `_resolved`. -/
def resolved (path : String) (kind : FieldType) (value : Value) : Except Raised ResolvedField :=
  let present (s : Scalar) : Except Raised ResolvedField := .ok ⟨path, kind, .present, some s⟩
  let invalid : Except Raised ResolvedField :=
    .error (.detection (.incompatible path "resolve" "invalid_actual_type"))
  match value with
  | .none => .ok ⟨path, kind, .absent, none⟩
  | value =>
    -- a member of a `StrEnum` is read as its text, as the source does before the match on the type
    match kind, enumText value with
    | .string, .str s => present (.str s)
    | .integer, .int n => present (.int n)
    | .ip, .ip a => present (.ip a)
    | .timestamp, .datetime d =>
      match d.utcoffset with
      | .ok (some _) => present (.datetime d)
      | .ok none => invalid
      | .error e => .error (.python e)
    | _, _ => invalid

/-- `model.model_dump(mode="python", include={name})[name]`; a name that is no field is a `KeyError`. -/
def dumpField (slots : List Slot) (name : String) : Except Raised Value :=
  match slots.find? (·.name == name) with
  | some s => .ok s.value.dump
  | none => .error (.detection (.evaluation "invalid_evaluation_input"))

/-- The name behind the dot of a path. -/
def fieldName (path : String) : String := ((split path '.')[1]?).getD ""

/-- Resolve a closed path without coercion, traversal, or fallback. -/
def resolveEventField (event : NormalizedEvent) (path : String) : Except Raised ResolvedField := do
  let kind ← fieldType path event.category
  if startsWith path "source_data." then
    match event.sourceDataDict.get (fieldName path) with
    -- only retained data can be missing; a declared field is there with `None`
    | none => .ok ⟨path, kind, .missing, none⟩
    | some text => resolved path kind (.str text)
  else if startsWith path "context." then
    if event.context.category ≠ event.category then
      .error (.detection (.evaluation "invalid_context_type"))
    else do
      let value ← dumpField event.context.slots (fieldName path)
      resolved path kind value
  else do
    let value ← dumpField event.slots path
    resolved path kind value

/-! ### Comparing -/

namespace Scalar

def toValue : Scalar → Value
  | str s => .str s
  | int n => .int n
  | datetime d => .datetime d
  | ip a => .ip a

/-- `a == b`. -/
def eq : Scalar → Scalar → Bool
  | str a, str b => a == b
  | int a, int b => a == b
  | datetime a, datetime b => a.eq b
  | ip a, ip b => decide (a = b)
  | _, _ => false

/-- `actual == operand`; an address equals no network. -/
def eqOperand (a : Scalar) : Operand → Bool
  | .scalar b => a.eq b
  | .network _ => false

/-- The text of an operand that `cast(str, ...)` is applied to. -/
def text : Scalar → Except Raised String
  | str s => .ok s
  | _ => .error (.python .typeError)

/-- The number that `cast(int, ...)` is applied to. -/
def number : Scalar → Except Raised Int
  | int n => .ok n
  | _ => .error (.python .typeError)

end Scalar

namespace Operand

def text : Operand → Except Raised String
  | scalar s => s.text
  | network _ => .error (.python .typeError)

def number : Operand → Except Raised Int
  | scalar s => s.number
  | network _ => .error (.python .typeError)

end Operand

/-- `any(item in actual for item in operands)`. -/
def containsAny (actual : String) : List Operand → Except Raised Bool
  | [] => .ok false
  | item :: items => do
    let s ← item.text
    if Py.contains actual s then .ok true else containsAny actual items

/-- A datetime is compared as its UTC instant. -/
def comparedValue (actual : Scalar) : Except Raised Scalar :=
  match actual with
  | .datetime d =>
    match d.astimezone with
    | .ok i => .ok (.datetime i.toDateTime)
    | .error e => .error (.python e)
  | actual => .ok actual

/-- `_compare`.  Where the source casts, only the class it casts to is modelled, and any other raises;
the operators of `Semantics.string` and `Semantics.integer` are checked to be used on that class. -/
def compare (actual : Scalar) (op : DetectionOperator) (operands : List Operand) :
    Except Raised Bool := do
  let actual ← comparedValue actual
  match operands with
  -- `operands[0]`; no validated leaf comes here without an operand
  | [] => .error (.python (.other "IndexError"))
  | expected :: _ =>
    match op with
    | .equals => .ok (actual.eqOperand expected)
    | .notEquals => .ok (!actual.eqOperand expected)
    | .in_ => .ok (operands.any actual.eqOperand)
    | .notIn => .ok (!operands.any actual.eqOperand)
    | .contains => do .ok (Py.contains (← actual.text) (← expected.text))
    | .containsAny => do containsAny (← actual.text) operands
    | .startsWith => do .ok (Py.startsWith (← actual.text) (← expected.text))
    | .endsWith => do .ok (Py.endsWith (← actual.text) (← expected.text))
    | .greaterThan => do .ok (decide ((← actual.number) > (← expected.number)))
    | .greaterOrEqual => do .ok (decide ((← actual.number) ≥ (← expected.number)))
    | .lessThan => do .ok (decide ((← actual.number) < (← expected.number)))
    | .lessOrEqual => do .ok (decide ((← actual.number) ≤ (← expected.number)))
    | .ipInCidr =>
      match actual, expected with
      | .ip a, .network n => .ok (a.inNetwork n)
      | _, _ => .error (.python .attributeError)
    | .exists_ | .notExists => .error (.detection (.evaluation "unsupported_comparison"))

/-- `_outcome`. -/
def outcome (value : Bool) : ConditionOutcome := if value then .true else .false

/-! ### Evaluating -/

/-- A `ValidationError` is a `ValueError`. -/
def ofValidation {α : Type} : Validation α → Except Raised α
  | ok a => .ok a
  | invalid _ => .error (.python .valueError)
  | exception e => .error (.python e)

/-- The outcome of a leaf, from its resolved field and its operands. -/
def leafOutcome (field : ResolvedField) (op : DetectionOperator) (operands : List Operand) :
    Except Raised ConditionOutcome :=
  if op ∈ existenceOperators then
    .ok (outcome (if op = .exists_ then field.presence = .present else field.presence ≠ .present))
  else
    match field.presence, field.value with
    | .present, some value => do .ok (outcome (← compare value op operands))
    -- a comparison of what is not there, with `not_equals` and `not_in` among them
    | _, _ => .ok .unknown

/-- The evidence that the trace of a leaf carries. -/
def leafEvidence (field : ResolvedField) (leaf : LeafCondition) (location : String)
    (outcome : ConditionOutcome) : TraceEvidence where
  location := location
  kind := .leaf
  outcome := outcome
  field := .set (some leaf.field)
  op := .set (some leaf.op)
  expected := if leaf.op ∈ existenceOperators then .unset else .set (leaf.value.get .none)
  actual := match field.presence with
    | .present => .set ((field.value.map Scalar.toValue).getD .none)
    | _ => .unset
  absence := match field.presence with
    | .present => .unset
    | .missing => .set (some .missing)
    | .absent => .set (some .absent)

/-- `_evaluate_leaf`. -/
def evaluateLeaf (event : NormalizedEvent) (leaf : LeafCondition) (location : String) :
    Except Raised ConditionTrace := do
  let field ← resolveEventField event leaf.field
  let operands ← validatedOperands field.fieldType leaf
  let outcome ← leafOutcome field leaf.op operands
  ofValidation (ConditionTrace.init (leafEvidence field leaf location outcome) .unset)

/-- The outcome of `not`. -/
def negation : ConditionOutcome → ConditionOutcome
  | .true => .false
  | .false => .true
  | .unknown => .unknown

/-- The outcome of `all` (a conjunction) or `any` from the outcomes of the children. -/
def connective (conjunction : Bool) (outcomes : List ConditionOutcome) : ConditionOutcome :=
  let decisive : ConditionOutcome := if conjunction then .false else .true
  if decisive ∈ outcomes then decisive
  else if .unknown ∈ outcomes then .unknown
  else if conjunction then .true else .false

/-- The trace of a connective over the traces of its children. -/
def connectiveTrace (location : String) (kind : TraceKind) (outcome : ConditionOutcome)
    (children : List ConditionTrace) : Except Raised ConditionTrace :=
  ofValidation (ConditionTrace.init { location, kind, outcome } (.set children))

mutual

/-- `_evaluate`. -/
def evaluate (event : NormalizedEvent) (location : String) : ConditionNode → Except Raised ConditionTrace
  | .leaf leaf => evaluateLeaf event leaf location
  | .not_ child => do
    let child ← evaluate event (notLocation location) child
    connectiveTrace location .not_ (negation child.outcome) [child]
  | .all nodes => do
    let children ← evaluateFrom event location .all 0 nodes
    connectiveTrace location .all (connective true (children.map (·.outcome))) children
  | .any nodes => do
    let children ← evaluateFrom event location .any 0 nodes
    connectiveTrace location .any (connective false (children.map (·.outcome))) children

/-- All child traces, in order, from the index `i` on. -/
def evaluateFrom (event : NormalizedEvent) (location : String) (kind : TraceKind) :
    Nat → List ConditionNode → Except Raised (List ConditionTrace)
  | _, [] => .ok []
  | i, node :: nodes => do
    let child ← evaluate event (childLocation location kind i) node
    let children ← evaluateFrom event location kind (i + 1) nodes
    .ok (child :: children)

end

/-- The exceptions that `evaluate_condition` turns into its own error. -/
def guardedExceptions : List Exc :=
  [.typeError, .valueError, .attributeError, .keyError, .overflowError, .recursionError]

/-- Evaluate one validated tree, with ordered, complete three-valued evidence. -/
def evaluateCondition (event : NormalizedEvent) (condition : ConditionNode) :
    Except Raised ConditionTrace :=
  match evaluate event "$" condition with
  | .ok trace => .ok trace
  | .error (.detection e) => .error (.detection e)
  | .error (.python e) =>
    -- the handler around the whole evaluation, not around one node
    if e ∈ guardedExceptions then .error (.detection (.evaluation "invalid_evaluation_input"))
    else .error (.python e)

/-! ### The place of a trace -/

theorem ofValidation_eq_ok {α : Type} {x : Validation α} {a : α} :
    ofValidation x = .ok a ↔ x = ok a := by
  cases x <;> simp [ofValidation]

/-- A trace that is returned stands at the place that was asked for. -/
theorem location_of_evaluate {event : NormalizedEvent} {location : String} {c : ConditionNode}
    {t : ConditionTrace} (h : evaluate event location c = .ok t) : t.location = location := by
  have hinit {e : TraceEvidence} {children : ModelField (List ConditionTrace)}
      (h : ofValidation (ConditionTrace.init e children) = .ok t) : t.location = e.location := by
    rw [ConditionTrace.location, ConditionTrace.node_of_init (ofValidation_eq_ok.mp h)]
    rfl
  cases c with
  | leaf l =>
    obtain ⟨field, -, h⟩ := Logic.bind_eq_ok.mp h
    obtain ⟨operands, -, h⟩ := Logic.bind_eq_ok.mp h
    obtain ⟨o, -, h⟩ := Logic.bind_eq_ok.mp h
    exact hinit h
  | all cs =>
    obtain ⟨ts, -, h⟩ := Logic.bind_eq_ok.mp (by simpa only [evaluate] using h)
    exact hinit h
  | any cs =>
    obtain ⟨ts, -, h⟩ := Logic.bind_eq_ok.mp (by simpa only [evaluate] using h)
    exact hinit h
  | not_ c =>
    obtain ⟨ts, -, h⟩ := Logic.bind_eq_ok.mp (by simpa only [evaluate] using h)
    exact hinit h

/-- Evaluation from the root succeeds with the traversal. -/
theorem evaluateCondition_eq_ok {event : NormalizedEvent} {c : ConditionNode} {t : ConditionTrace} :
    evaluateCondition event c = .ok t ↔ evaluate event "$" c = .ok t := by
  unfold evaluateCondition
  split
  · next h => rw [h]
  · next h => simp [h]
  · next h => split_ifs <;> simp [h]

theorem location_of_evaluateCondition {event : NormalizedEvent} {c : ConditionNode}
    {t : ConditionTrace} (h : evaluateCondition event c = .ok t) : t.location = "$" :=
  location_of_evaluate (evaluateCondition_eq_ok.mp h)

end SocLab
