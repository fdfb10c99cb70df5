import SocLab.Models.Detection
import SocLab.Py.Document

/-!
# SocLab.Models.RuleParsing — rules read from dicts, and dumped again

`DetectionRule.model_validate` on a dict, from `models/detection.py`, outside strict mode as its callers use
it.  A node is read as a member of the union of the four classes: `ConditionNode.modelValidate_eq` is that
union without the recursion through the items.  An instance of a class, which a dict may hold in place of its
fields, is no document and is not read here.
-/

namespace SocLab

open Py Py.Validation

/-! ### Leaves -/

namespace LeafCondition

/-- The keys of a leaf, in the order of the class. -/
def fieldNames : List String := ["field", "op", "value"]

/-- The fields of a dict as a leaf; the operand is any value. -/
def fields (d : Dict) : Validation (String × DetectionOperator × ModelField Value) :=
  (fun field op value => (field, op, value)) <$> requiredField "field" strictStr d
    <*> requiredField "op" (enumOf DetectionOperator false) d
    <*> optionalField "value" anyValue d

/-- `LeafCondition(...)` for fields that have their declared types. -/
def init (field : String) (op : DetectionOperator) (value : ModelField Value) : Validation LeafCondition :=
  (certify (validateLeaf field op value)).after fun h => ok ⟨field, op, value, h.down⟩

/-- `LeafCondition.model_validate(value)`. -/
def modelValidate : Validator LeafCondition := fun x =>
  (modelDict fieldNames fields x).after fun f => init f.1 f.2.1 f.2.2

theorem init_eq_ok {field : String} {op : DetectionOperator} {value : ModelField Value} {l : LeafCondition} :
    init field op value = ok l ↔ l.field = field ∧ l.op = op ∧ l.value = value := by
  rw [init, after_eq_ok]
  constructor
  · rintro ⟨h, -, hl⟩
    cases hl
    exact ⟨rfl, rfl, rfl⟩
  · rintro ⟨rfl, rfl, rfl⟩
    exact ⟨⟨l.valid⟩, certify_ok l.valid, rfl⟩

theorem clean_init (field : String) (op : DetectionOperator) (value : ModelField Value) :
    Clean (init field op value) := (clean_certify (clean_raiseFirst _)).after fun _ => clean_ok _

theorem clean_modelValidate (x : Value) : Clean (modelValidate x) := by
  refine (clean_modelDict (fun d => ?_) x).after fun f => clean_init _ _ _
  have hvalue : Clean (optionalField "value" anyValue d) := clean_optional fun x => clean_ok x
  simp [fields, clean_required, hvalue]

end LeafCondition

/-! ### Nodes -/

/-- A node whose lists of children are not empty. -/
abbrev WellFormedNode : Type := {c : ConditionNode // c.WellFormed}

/-- `Annotated[list[ConditionNode], Field(min_length=1)]`. -/
abbrev NodeList : Type := {l : List WellFormedNode // 1 ≤ l.length}

namespace NodeList

/-- The nodes themselves. -/
def nodes (l : NodeList) : List ConditionNode := l.val.map (·.val)

theorem wellFormed_nodes (l : NodeList) :
    l.nodes ≠ [] ∧ ConditionNode.AllWellFormed l.nodes := by
  refine ⟨fun hnil => ?_, ConditionNode.allWellFormed_iff.mpr fun c hc => ?_⟩
  · have hlength := l.property
    rw [List.map_eq_nil_iff.mp hnil] at hlength
    cases hlength
  · obtain ⟨w, -, rfl⟩ := List.mem_map.mp hc
    exact w.property

end NodeList

namespace ConditionNode

/-- A leaf has no children that it must have. -/
def ofLeaf (l : LeafCondition) : WellFormedNode := ⟨leaf l, trivial⟩

/-- `AllCondition(all=…)`. -/
def ofAll (l : NodeList) : WellFormedNode := ⟨all l.nodes, l.wellFormed_nodes⟩

/-- `AnyCondition(any=…)`. -/
def ofAny (l : NodeList) : WellFormedNode := ⟨any l.nodes, l.wellFormed_nodes⟩

/-- `NotCondition(not=…)`. -/
def ofNot (c : WellFormedNode) : WellFormedNode := ⟨not_ c.val, c.property⟩

mutual

/-- The union `ConditionNode`. -/
def modelValidate : Validator WellFormedNode
  | .dict d =>
    union [fun x => ofLeaf <$> LeafCondition.modelValidate x,
      fun _ => ofAll <$> modelItems ["all"] (nodesItem "all" d) d,
      fun _ => ofAny <$> modelItems ["any"] (nodesItem "any" d) d,
      fun _ => ofNot <$> modelItems ["not"] (nodeItem d) d] (.dict d)
  | x =>
    union [fun x => ofLeaf <$> LeafCondition.modelValidate x, fun _ => ofAll <$> error "model_type",
      fun _ => ofAny <$> error "model_type", fun _ => ofNot <$> error "model_type"] x

/-- The item of a dict that holds a list of nodes. -/
def nodesItem (name : String) : List (String × Value) → Validation NodeList
  | [] => within (.name name) (error "missing")
  | (k, v) :: d =>
    if k = name then
      within (.name name) ((match v with
        | .list vs => nodesFrom 0 vs
        | _ => error "list_type").after fun l => if h : 1 ≤ l.length then ok ⟨l, h⟩ else error "too_short")
    else nodesItem name d

/-- The item `not` of a dict. -/
def nodeItem : List (String × Value) → Validation WellFormedNode
  | [] => within (.name "not") (error "missing")
  | (k, v) :: d => if k = "not" then within (.name "not") (modelValidate v) else nodeItem d

/-- The children from an index on, each error under its index. -/
def nodesFrom : Nat → List Value → Validation (List WellFormedNode)
  | _, [] => ok []
  | i, v :: vs => List.cons <$> within (.index i) (modelValidate v) <*> nodesFrom (i + 1) vs

end

/-- The declared type of the children of `all` and `any`. -/
def nodeList : Validator NodeList := constrained (listOf modelValidate) (fun l => 1 ≤ l.length) "too_short"

/-- The four classes of the union, each from its own fields. -/
def leafClass : Validator WellFormedNode := fun x => ofLeaf <$> LeafCondition.modelValidate x

/-- `class AllCondition`, by its alias. -/
def allClass : Validator WellFormedNode := fun x =>
  ofAll <$> modelDict ["all"] (requiredField "all" nodeList) x

/-- `class AnyCondition`, by its alias. -/
def anyClass : Validator WellFormedNode := fun x =>
  ofAny <$> modelDict ["any"] (requiredField "any" nodeList) x

/-- `class NotCondition`, by its alias. -/
def notClass : Validator WellFormedNode := fun x =>
  ofNot <$> modelDict ["not"] (requiredField "not" modelValidate) x

/-- The members of the union in the order of the annotation. -/
def nodeClasses : List (Validator WellFormedNode) := [leafClass, allClass, anyClass, notClass]

theorem nodesFrom_eq (i : Nat) (vs : List Value) : nodesFrom i vs = traverseFrom modelValidate i vs := by
  induction vs generalizing i with
  | nil => rfl
  | cons v vs ih => rw [nodesFrom, ih, traverseFrom]

theorem nodesItem_eq (name : String) (d : Dict) : nodesItem name d = requiredField name nodeList d := by
  induction d with
  | nil => rfl
  | cons p d ih =>
    obtain ⟨k, v⟩ := p
    by_cases hk : k = name
    · subst hk
      rw [requiredField, List.lookup_cons_self]
      cases v <;> simp [nodesItem, nodeList, constrained, listOf, nodesFrom_eq]
    · have hb : (name == k) = false := by simpa using fun e : name = k => hk e.symm
      have hstep : nodesItem name ((k, v) :: d) = nodesItem name d := by
        cases v <;> simp [nodesItem, hk]
      rw [hstep, ih, requiredField, requiredField, List.lookup_cons, hb]

theorem nodeItem_eq (d : Dict) : nodeItem d = requiredField "not" modelValidate d := by
  induction d with
  | nil => rfl
  | cons p d ih =>
    obtain ⟨k, v⟩ := p
    by_cases hk : k = "not"
    · subst hk
      rw [requiredField, List.lookup_cons_self, nodeItem, if_pos rfl]
    · have hb : ("not" == k) = false := by simpa using fun e : "not" = k => hk e.symm
      rw [nodeItem, if_neg hk, ih, requiredField, requiredField, List.lookup_cons, hb]

/-- **A node is read as a member of the union.** -/
theorem modelValidate_eq (x : Value) : modelValidate x = union nodeClasses x := by
  cases x with
  | dict d =>
    rw [modelValidate, nodesItem_eq, nodesItem_eq, nodeItem_eq]
    rfl
  | _ => rfl

end ConditionNode

/-! ### Rules -/

/-- `Annotated[list[…], Field(min_length=1, strict=True)]`; the members may be given as texts. -/
def memberList (ε : Type) [StrEnum ε] : Validator {l : List ε // 1 ≤ l.length} :=
  constrained (listOf (enumOf ε false)) (fun l => 1 ≤ l.length) "too_short"

namespace DetectionRule

/-- `DetectionRule.model_fields`, in the order of the class. -/
def fieldNames : List String :=
  ["id", "version", "title", "description", "categories", "sources", "condition"]

/-- The fields of a dict as a rule, in the order of the class. -/
def fields (d : Dict) : Validation RuleFields :=
  RuleFields.mk <$> requiredField "id" strictStr d
    <*> requiredField "version" (positiveInteger.validate false) d
    <*> requiredField "title" strictStr d
    <*> requiredField "description" strictStr d
    <*> requiredField "categories" (memberList EventCategory) d
    <*> optionalField "sources" (nullable (memberList EventSource)) d
    <*> requiredField "condition" ConditionNode.modelValidate d

/-- `DetectionRule(...)` for fields that have their declared types. -/
def init (f : RuleFields) : Validation DetectionRule :=
  (certify (validateRule f)).after fun h => ok ⟨f, h.down⟩

/-- `DetectionRule.model_validate(value)`. -/
def modelValidate : Validator DetectionRule := fun x => (modelDict fieldNames fields x).after init

theorem init_eq_ok {f : RuleFields} {rule : DetectionRule} : init f = ok rule ↔ rule.toRuleFields = f := by
  rw [init, after_eq_ok]
  constructor
  · rintro ⟨h, -, hrule⟩
    cases hrule
    rfl
  · rintro rfl
    exact ⟨⟨rule.valid⟩, certify_ok rule.valid, rfl⟩

/-- The rules that are read are those whose fields are valid. -/
theorem modelValidate_eq_ok {x : Value} {rule : DetectionRule} : modelValidate x = ok rule ↔
    ∃ d, x = .dict d ∧ fields d = ok rule.toRuleFields ∧ ∀ k ∈ Dict.keys d, k ∈ fieldNames := by
  rw [modelValidate, after_eq_ok]
  simp only [init_eq_ok, modelDict_eq_ok]
  constructor
  · rintro ⟨f, ⟨d, rfl, hf, hkeys⟩, rfl⟩
    exact ⟨d, rfl, hf, hkeys⟩
  · rintro ⟨d, rfl, hf, hkeys⟩
    exact ⟨_, ⟨d, rfl, hf, hkeys⟩, rfl⟩

theorem fields_eq_ok {d : Dict} {f : RuleFields} :
    fields d = ok f ↔
      requiredField "id" strictStr d = ok f.id ∧
      requiredField "version" (positiveInteger.validate false) d = ok f.version ∧
      requiredField "title" strictStr d = ok f.title ∧
      requiredField "description" strictStr d = ok f.description ∧
      requiredField "categories" (memberList EventCategory) d = ok f.categories ∧
      optionalField "sources" (nullable (memberList EventSource)) d = ok f.sources ∧
      requiredField "condition" ConditionNode.modelValidate d = ok f.condition := by
  rw [fields, map₇_eq_ok]
  constructor
  · rintro ⟨_, _, _, _, _, _, _, h₁, h₂, h₃, h₄, h₅, h₆, h₇, rfl⟩
    exact ⟨h₁, h₂, h₃, h₄, h₅, h₆, h₇⟩
  · rintro ⟨h₁, h₂, h₃, h₄, h₅, h₆, h₇⟩
    exact ⟨_, _, _, _, _, _, _, h₁, h₂, h₃, h₄, h₅, h₆, h₇, rfl⟩

end DetectionRule

/-! ### Dumping by alias -/

/-- The items of a leaf that were given. -/
def LeafCondition.dumpItems (l : LeafCondition) : Dict :=
  [("field", .str l.field), ("op", StrEnum.toValue l.op)] ++
    match l.value with
    | .unset => []
    | .set v => [("value", v.dump)]

namespace ConditionNode

mutual

/-- `node.model_dump(by_alias=True, exclude_unset=True)`. -/
def dumpByAlias : ConditionNode → Value
  | leaf l => .dict l.dumpItems
  | all children => .dict [("all", .list (dumpAllByAlias children))]
  | any children => .dict [("any", .list (dumpAllByAlias children))]
  | not_ child => .dict [("not", dumpByAlias child)]

/-- The children as their documents. -/
def dumpAllByAlias : List ConditionNode → List Value
  | [] => []
  | c :: cs => dumpByAlias c :: dumpAllByAlias cs

end

theorem dumpAllByAlias_eq_map (cs : List ConditionNode) : dumpAllByAlias cs = cs.map dumpByAlias := by
  induction cs with
  | nil => rfl
  | cons c cs ih => rw [dumpAllByAlias, ih]; rfl

end ConditionNode

/-- The members of a list, dumped. -/
def dumpMembers {ε : Type} [StrEnum ε] (l : List ε) : Value := .list (l.map StrEnum.toValue)

/-- `rule.model_dump(by_alias=True, exclude_unset=True)`. -/
def RuleFields.dumpByAlias (f : RuleFields) : Value :=
  .dict ([("id", .str f.id), ("version", .int f.version), ("title", .str f.title),
      ("description", .str f.description), ("categories", dumpMembers f.categories.val)] ++
    (match f.sources with
      | .unset => []
      | .set l => [("sources", .ofOption (fun l => dumpMembers l.val) l)]) ++
    [("condition", f.condition.val.dumpByAlias)])

end SocLab
