import SocLab.Models.Detection
import SocLab.Logic.Except

/-!
# SocLab.Detection.Semantics — field types, operands and the load-time check

`detection/errors.py` and `detection/semantics.py`.

* `Raised` is what a call raises: one of the controlled errors, or another exception.
* `fieldType` resolves a path against one category; `validatedOperands` reads the operand of a leaf.
* `validateDetectionRuleSemantics` is the check at load time.  `checkCondition k` is that check for the
  single category `k`: `validateNode_singleton` and `checkCondition_of_validateNode` relate the two.
-/

namespace SocLab

open Py

/-! ### Errors -/

/-- The controlled errors; `evaluation` is the base class with its message. -/
inductive DetectionEvaluationError where
  | evaluation (message : String)
  | engine (reason : String) (ruleId : Option String)
  | invalidField (field : String)
  | incompatible (field operator reason : String)
  deriving DecidableEq

/-- What a call raises. -/
inductive Raised where
  | detection (e : DetectionEvaluationError)
  | python (e : Exc)
  deriving DecidableEq

/-! ### Fields -/

/-- Semantic types remain known even when optional values are absent. -/
inductive FieldType where
  | string
  | integer
  | timestamp
  | ip
  deriving DecidableEq

inductive Scalar where
  | str (s : String)
  | int (n : Int)
  | datetime (d : DateTime)
  | ip (a : IPAddress)
  deriving DecidableEq

/-- An operand: a scalar or a network. -/
inductive Operand where
  | scalar (s : Scalar)
  | network (n : IPNetwork)
  deriving DecidableEq

def commonFieldTypes : List (String × FieldType) :=
  [("source", .string), ("provider", .string), ("event_id", .integer), ("channel", .string),
    ("timestamp", .timestamp), ("computer", .string), ("record_id", .integer), ("category", .string)]

def contextFieldTypes : EventCategory → List (String × FieldType)
  | .authentication =>
    [("outcome", .string), ("user", .string), ("domain", .string), ("logon_type", .integer),
      ("source_ip", .ip), ("source_port", .integer), ("workstation", .string)]
  | .process =>
    [("image", .string), ("process_id", .integer), ("command_line", .string),
      ("parent_process_id", .integer), ("parent_image", .string), ("user", .string)]
  | .network =>
    [("source_ip", .ip), ("source_port", .integer), ("destination_ip", .ip),
      ("destination_port", .integer), ("protocol", .string), ("process_id", .integer),
      ("process_image", .string)]
  | .file => [("target_path", .string), ("process_id", .integer), ("process_image", .string)]
  | .dns =>
    [("query_name", .string), ("query_status", .string), ("query_results", .string),
      ("process_id", .integer), ("process_image", .string)]

/-- A name that `source_data` may be asked for; past `isascii()` only ASCII letters and digits are
alphanumeric. -/
def sourceDataName (name : String) : Bool :=
  match name.toList with
  | [] => false
  | c :: cs => (c :: cs).all isAscii && isAsciiLetter c &&
    (c :: cs).all fun c => isAsciiLetter c || isAsciiDigit c || c == '_'

/-- Resolve a closed data path against one category, without an event instance. -/
def fieldType (field : String) (category : EventCategory) : Except Raised FieldType :=
  match commonFieldTypes.lookup field with
  | some kind => .ok kind
  | none =>
    match split field '.' with
    | [first, name] =>
      match (if first = "context" then (contextFieldTypes category).lookup name else none) with
      | some kind => .ok kind
      | none =>
        -- a name under `context.` that the category lacks comes here as well, and is refused
        if first = "source_data" ∧ sourceDataName name then .ok .string
        else .error (.detection (.invalidField field))
    | _ => .error (.detection (.invalidField field))

/-- How a path resolves: a common field, a field of the context, or retained text. -/
inductive FieldPath (category : EventCategory) : String → FieldType → Prop
  | common {field kind} : commonFieldTypes.lookup field = some kind → FieldPath category field kind
  | context {field name kind} : split field '.' = ["context", name] →
    (contextFieldTypes category).lookup name = some kind → FieldPath category field kind
  | sourceData {field name} : split field '.' = ["source_data", name] → sourceDataName name = true →
    FieldPath category field .string

theorem fieldPath_of_fieldType {field : String} {category : EventCategory} {kind : FieldType}
    (h : fieldType field category = .ok kind) : FieldPath category field kind := by
  unfold fieldType at h
  split at h
  · next k hlookup =>
    cases h
    exact .common hlookup
  · split at h
    · next first name hsplit =>
      split at h
      · next k hcontext =>
        cases h
        split_ifs at hcontext with hfirst
        subst hfirst
        exact .context hsplit hcontext
      · split_ifs at h with hsource
        cases h
        obtain ⟨rfl, hname⟩ := hsource
        exact .sourceData hsplit hname
    · cases h

/-! ### Operands -/

namespace Semantics

def string : List DetectionOperator := [.contains, .containsAny, .startsWith, .endsWith]

def integer : List DetectionOperator := [.greaterThan, .greaterOrEqual, .lessThan, .lessOrEqual]

def list : List DetectionOperator := [.in_, .notIn, .containsAny]

end Semantics

def incompatible (field : String) (op : DetectionOperator) (reason : String) : Raised :=
  .detection (.incompatible field (StrEnum.value op) reason)

/-- Parse only typed IP/time literals; never coerce strings or integers. -/
def literal (field : String) (kind : FieldType) (op : DetectionOperator) (value : Value) :
    Except Raised Scalar :=
  let invalid : Raised := incompatible field op "invalid_literal_type_or_value"
  -- `except (ValueError, OverflowError): pass`
  let caught (e : Exc) : Raised := if e = .valueError ∨ e = .overflowError then invalid else .python e
  match kind, value with
  | .integer, .int n => .ok (.int n)
  | .string, .str s => .ok (.str s)
  | .ip, .str s =>
    match ipAddress s with
    | .ok a => .ok (.ip a)
    | .error e => .error (caught e)
  | .timestamp, .str s =>
    match fromisoformat s with
    | .error e => .error (caught e)
    | .ok d =>
      match d.utcoffset with
      | .error e => .error (caught e)
      | .ok none => .error invalid
      | .ok (some _) =>
        match d.astimezone with
        | .ok i => .ok (.datetime i.toDateTime)
        | .error e => .error (caught e)
  | _, _ => .error invalid

/-- Validate compatibility and every operand, even without an actual field value. -/
def validatedOperands (kind : FieldType) (leaf : LeafCondition) : Except Raised (List Operand) :=
  let op := leaf.op
  let value := leaf.value.get .none
  if op ∈ existenceOperators then
    if leaf.value.isSet then .error (incompatible leaf.field op "unexpected_operand") else .ok []
  else if (op ∈ Semantics.string ∧ kind ≠ .string) ∨ (op ∈ Semantics.integer ∧ kind ≠ .integer) ∨
      (op = .ipInCidr ∧ kind ≠ .ip) then
    .error (incompatible leaf.field op "incompatible_field_type")
  else if op = .ipInCidr then
    match value with
    | .str s =>
      match ipNetwork s with
      | .ok n => .ok [.network n]
      | .error .valueError => .error (incompatible leaf.field op "invalid_cidr")
      | .error e => .error (.python e)
    | _ => .error (incompatible leaf.field op "invalid_cidr")
  else if op ∈ Semantics.list then
    match value with
    | .list (item :: items) => do
      let operands ← (item :: items).mapM (literal leaf.field kind op)
      .ok (operands.map .scalar)
    | _ => .error (incompatible leaf.field op "invalid_operand_list")
  else do
    let operand ← literal leaf.field kind op value
    .ok [.scalar operand]

/-! ### Reading a literal -/

/-- What a literal of a field type is read as; neither the field nor the operator matters. -/
inductive ReadsLiteral : FieldType → Value → Scalar → Prop
  | number (n : Int) : ReadsLiteral .integer (.int n) (.int n)
  | text (t : String) : ReadsLiteral .string (.str t) (.str t)
  | address {t : String} {a : IPAddress} : ipAddress t = .ok a → ReadsLiteral .ip (.str t) (.ip a)
  | instant {t : String} {d : DateTime} {o : Offset} {i : Instant} : fromisoformat t = .ok d →
      d.utcoffset = .ok (some o) → d.astimezone = .ok i → ReadsLiteral .timestamp (.str t) (.datetime i.toDateTime)

theorem literal_eq_ok {field : String} {kind : FieldType} {op : DetectionOperator} {v : Value} {s : Scalar} :
    literal field kind op v = .ok s ↔ ReadsLiteral kind v s := by
  constructor
  · intro h
    unfold literal at h
    dsimp only at h
    split at h
    · cases h
      exact .number _
    · cases h
      exact .text _
    · split at h
      · next a ha =>
        cases h
        exact .address ha
      · cases h
    · split at h
      · cases h
      · next d hd =>
        split at h
        · cases h
        · cases h
        · next o ho =>
          split at h
          · next i hi =>
            cases h
            exact .instant hd ho hi
          · cases h
    · cases h
  · intro h
    cases h with
    | number n => rfl
    | text t => rfl
    | address ha => simp only [literal, ha]
    | instant hd ho hi => simp only [literal, hd, ho, hi]

section Errors

variable {field : String} {kind : FieldType} {op : DetectionOperator} {leaf : LeafCondition} {e : Raised}

/-- A literal that is refused is refused with the controlled error. -/
theorem literal_error {v : Value} (h : literal field kind op v = .error e) :
    e = incompatible field op "invalid_literal_type_or_value" := by
  unfold literal at h
  dsimp only at h
  split at h
  · cases h
  · cases h
  · split at h
    · cases h
    · next hip =>
      cases h
      rw [ipAddress_error hip, if_pos (Or.inl rfl)]
  · split at h
    · next hiso =>
      cases h
      rw [fromisoformat_error hiso, if_pos (Or.inl rfl)]
    · next d hiso =>
      rcases fromisoformat_standard hiso with htz | htz | ⟨o, htz⟩
      · simp only [DateTime.utcoffset, htz] at h
        cases h
        rfl
      · simp only [DateTime.utcoffset, DateTime.astimezone, htz] at h
        cases h
      · simp only [DateTime.utcoffset, DateTime.astimezone, htz] at h
        cases hw : wall? ((d.wall : Int) - o.micros) with
        | some w => rw [hw] at h; cases h
        | none => rw [hw] at h; cases h; rfl
  · cases h
    rfl

theorem fieldType_error {category : EventCategory} (h : fieldType field category = .error e) :
    e = .detection (.invalidField field) := by
  unfold fieldType at h
  split at h
  · cases h
  · split at h
    · split at h
      · cases h
      · split_ifs at h
        cases h
        rfl
    · cases h
      rfl

theorem validatedOperands_error (h : validatedOperands kind leaf = .error e) :
    ∃ reason, e = incompatible leaf.field leaf.op reason := by
  unfold validatedOperands at h
  dsimp only at h
  by_cases hexist : leaf.op ∈ existenceOperators
  · rw [if_pos hexist] at h
    split_ifs at h
    cases h
    exact ⟨_, rfl⟩
  rw [if_neg hexist] at h
  split_ifs at h with hincompatible hcidr hlist
  · cases h
    exact ⟨_, rfl⟩
  · split at h
    · next s _ =>
      split at h
      · cases h
      · cases h
        exact ⟨_, rfl⟩
      · next e' hnot hnetwork => exact absurd (ipNetwork_error hnetwork) hnot
    · cases h
      exact ⟨_, rfl⟩
  · split at h
    · next item items _ =>
      cases hscalars : (item :: items).mapM (literal leaf.field kind leaf.op) with
      | ok scalars => rw [hscalars] at h; cases h
      | error e' =>
        rw [hscalars] at h
        cases h
        obtain ⟨v, -, hv⟩ := Logic.exists_of_mapM_error hscalars
        exact ⟨_, literal_error hv⟩
    · cases h
      exact ⟨_, rfl⟩
  · cases hliteral : literal leaf.field kind leaf.op (leaf.value.get .none) with
    | ok s => rw [hliteral] at h; cases h
    | error e' =>
      rw [hliteral] at h
      cases h
      exact ⟨_, literal_error hliteral⟩

end Errors

/-! ### The load-time check -/

/-- The part of `_validate_node` that is about one leaf. -/
def validateLeafSemantics (rule : RuleFields) (leaf : LeafCondition) : Except Raised Unit :=
  if Py.startsWith leaf.field "source_data." ∧ (rule.sourceList.getD []) = [] then
    .error (incompatible leaf.field leaf.op "sources_required")
  else do
    let kinds ← rule.categories.val.mapM (fieldType leaf.field)
    match kinds with
    | kind :: _ =>
      if kinds.dedup.length ≠ 1 then
        .error (incompatible leaf.field leaf.op "incompatible_category_types")
      else do
        let _ ← validatedOperands kind leaf
        .ok ()
    -- no rule has an empty list of categories
    | [] => .error (incompatible leaf.field leaf.op "incompatible_category_types")

/-- `_validate_node`. -/
def validateNode (rule : RuleFields) (node : ConditionNode) : Except Raised Unit :=
  node.visit (validateLeafSemantics rule)

/-- Check a structurally validated rule for every target category, without mutation. -/
def validateDetectionRuleSemantics (rule : DetectionRule) : Except Raised Unit :=
  validateNode rule.toRuleFields rule.condition.val

/-! ### The check for one category -/

/-- What a leaf needs of a category: its field is declared and its operand is one of that type. -/
def checkLeaf (category : EventCategory) (leaf : LeafCondition) : Except Raised Unit := do
  let kind ← fieldType leaf.field category
  let _ ← validatedOperands kind leaf
  .ok ()

def checkCondition (category : EventCategory) (node : ConditionNode) : Except Raised Unit :=
  node.visit (checkLeaf category)

/-- **With one category and some sources, the load-time check is the check for that category.** -/
theorem validateNode_singleton {rule : RuleFields} {category : EventCategory}
    (hcategories : rule.categories.val = [category]) (hsources : rule.sourceList.getD [] ≠ [])
    (node : ConditionNode) : validateNode rule node = checkCondition category node := by
  have hleaf : validateLeafSemantics rule = checkLeaf category := by
    funext leaf
    rw [validateLeafSemantics, if_neg fun h => hsources h.2, hcategories, checkLeaf]
    cases h : fieldType leaf.field category with
    | error e => simp [h]
    | ok kind => simp [h]
  rw [validateNode, checkCondition, hleaf]

/-- A leaf that passes at load time passes for every target category. -/
theorem checkLeaf_of_validateLeafSemantics {rule : RuleFields} {category : EventCategory}
    (hcategory : category ∈ rule.categories.val) {leaf : LeafCondition}
    (h : validateLeafSemantics rule leaf = .ok ()) : checkLeaf category leaf = .ok () := by
  unfold validateLeafSemantics at h
  split_ifs at h with hsources
  cases hkinds : rule.categories.val.mapM (fieldType leaf.field) with
  | error e => rw [hkinds] at h; cases h
  | ok kinds =>
    obtain ⟨kind, hkind, hfield⟩ :=
      Logic.exists_of_forall₂ (Logic.forall₂_of_mapM_ok hkinds) _ hcategory
    cases kinds with
    | nil => cases hkind
    | cons first rest =>
      simp only [hkinds, Logic.ok_bind] at h
      split_ifs at h with hlength
      have hfirst : kind = first := by
        obtain ⟨k, hk⟩ := List.length_eq_one_iff.mp (not_not.mp hlength)
        have hmem : ∀ x ∈ first :: rest, x = k := fun x hx => by
          simpa [hk] using List.mem_dedup.mpr hx
        rw [hmem kind hkind, hmem first (List.mem_cons_self ..)]
      rw [checkLeaf, hfield, hfirst]
      exact h

/-- **A rule that passes at load time passes for every category that it targets.** -/
theorem checkCondition_of_validateNode {rule : RuleFields} {category : EventCategory}
    (hcategory : category ∈ rule.categories.val) {node : ConditionNode}
    (h : validateNode rule node = .ok ()) : checkCondition category node = .ok () :=
  ConditionNode.visit_mono (fun _ => checkLeaf_of_validateLeafSemantics hcategory) h

/-! ### Errors of the checks -/

section Errors

open Logic

variable {rule : DetectionRule} {category : EventCategory} {kind : FieldType} {leaf : LeafCondition}
  {path : String} {e : Raised}

theorem raisesOnly_fieldType :
    RaisesOnly (fun e => ∃ d, e = Raised.detection d) (fieldType path category) := by
  intro e h
  exact ⟨_, fieldType_error h⟩

theorem raisesOnly_validatedOperands :
    RaisesOnly (fun e => ∃ d, e = Raised.detection d) (validatedOperands kind leaf) := by
  intro e h
  obtain ⟨reason, hreason⟩ := validatedOperands_error h
  exact ⟨_, hreason⟩

theorem raisesOnly_checkLeaf :
    RaisesOnly (fun e => ∃ d, e = Raised.detection d) (checkLeaf category leaf) := by
  refine raisesOnly_fieldType.bind fun kind _ => ?_
  exact raisesOnly_validatedOperands.bind fun _ _ => raisesOnly_ok _

/-- The check raises nothing but controlled errors. -/
theorem checkCondition_error {node : ConditionNode} (h : checkCondition category node = .error e) :
    ∃ d, e = .detection d := by
  refine ConditionNode.visit_error (P := fun e => ∃ d, e = .detection d) (fun leaf e hleaf => ?_) h
  exact raisesOnly_checkLeaf e hleaf

end Errors

end SocLab
