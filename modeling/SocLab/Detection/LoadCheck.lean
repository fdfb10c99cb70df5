import SocLab.Detection.FieldPaths
import SocLab.Detection.Safety
import SocLab.Models.RuleDocument

/-!
# SocLab.Detection.LoadCheck — the load-time check refuses nothing that works

`validate_detection_rule_semantics` decides for all target categories at once, from the first category's
field type.  Types of fields do not depend on the category, so this is the conjunction of the checks for the
categories, and with `evaluateCondition_follows` it accepts a rule exactly when no event of a target category
makes its condition raise.
-/

namespace SocLab

open Py Logic

/-! ### Traversals as lists of leaves -/

namespace ConditionNode

variable {ε : Type} {f : LeafCondition → Except ε Unit}

/-- A traversal visits the leaves from left to right. -/
theorem visit_eq_mapM (c : ConditionNode) : visit f c = (c.leaves.mapM f).map fun _ => () := by
  have hlist {cs : List ConditionNode} (ih : ∀ c ∈ cs, visit f c = (c.leaves.mapM f).map fun _ => ()) :
      visitList f cs = ((leavesAll cs).mapM f).map fun _ => () := by
    induction cs with
    | nil => rfl
    | cons c cs ihcs =>
      rw [visitList, ih c (by simp), ihcs fun d hd => ih d (by simp [hd]), leavesAll, List.mapM_append]
      cases c.leaves.mapM f with
      | error e => rfl
      | ok us => cases (leavesAll cs).mapM f <;> rfl
  induction c with
  | leaf l =>
    rw [visit, leaves, List.mapM_cons, List.mapM_nil]
    cases f l <;> rfl
  | all cs ih => exact hlist ih
  | any cs ih => exact hlist ih
  | not_ c ih => exact ih

theorem visit_eq_error {c : ConditionNode} {e : ε} : visit f c = .error e ↔
    ∃ l₁ l l₂, c.leaves = l₁ ++ l :: l₂ ∧ (∀ x ∈ l₁, f x = .ok ()) ∧ f l = .error e := by
  rw [visit_eq_mapM]
  constructor
  · intro h
    rcases exists_first_error f c.leaves with hall | ⟨l₁, l, l₂, e', hsplit, hbefore, hl⟩
    · obtain ⟨us, hus⟩ := exists_forall₂ hall
      rw [mapM_eq_ok.mpr hus] at h
      cases h
    · rw [hsplit, mapM_of_error hbefore hl] at h
      cases h
      exact ⟨l₁, l, l₂, hsplit, fun x hx => (hbefore x hx).choose_spec, hl⟩
  · rintro ⟨l₁, l, l₂, hsplit, hbefore, hl⟩
    rw [hsplit, mapM_of_error (fun x hx => ⟨(), hbefore x hx⟩) hl]
    rfl

end ConditionNode

/-! ### One leaf -/

section Leaf

variable {rule : DetectionRule} {category category' : EventCategory} {path name : String}
  {kind kind' : FieldType} {l : LeafCondition} {e : Raised}

/-- Contexts that share a field give it the same type. -/
theorem contextFieldTypes_agree (h : (contextFieldTypes category).lookup name = some kind)
    (h' : (contextFieldTypes category').lookup name = some kind') : kind = kind' := by
  have hagree : ∀ p ∈ contextFieldTypes category, ∀ p' ∈ contextFieldTypes category',
      p.1 = p'.1 → p.2 = p'.2 := by
    cases category <;> cases category' <;> decide
  exact hagree _ (mem_of_lookup h) _ (mem_of_lookup h') rfl

/-- **The type of a field does not depend on the category.** -/
theorem fieldType_agree (h : fieldType path category = .ok kind)
    (h' : fieldType path category' = .ok kind') : kind = kind' := by
  cases fieldPath_of_fieldType h with
  | common hlookup =>
    have hcommon (c : EventCategory) : fieldType path c = .ok kind := fieldType_of_fieldPath (.common hlookup)
    rw [hcommon category'] at h'
    exact Except.ok.inj h'
  | context hsplit hname =>
    cases fieldPath_of_fieldType h' with
    | common hlookup =>
      rw [lookup_common_of_split hsplit] at hlookup
      cases hlookup
    | context hsplit' hname' =>
      rw [hsplit] at hsplit'
      cases hsplit'
      exact contextFieldTypes_agree hname hname'
    | sourceData hsplit' =>
      rw [hsplit] at hsplit'
      simp at hsplit'
  | sourceData hsplit hname =>
    have hsource (c : EventCategory) : fieldType path c = .ok .string :=
      fieldType_of_fieldPath (.sourceData hsplit hname)
    rw [hsource category'] at h'
    exact Except.ok.inj h'

/-- A validated rule has sources wherever it needs them. -/
theorem sources_of_leaf (hl : l ∈ rule.condition.val.leaves) :
    ¬ (startsWith l.field "source_data." = true ∧ rule.sourceList.getD [] = []) := by
  rintro ⟨hsource, hnone⟩
  obtain ⟨-, -, -, -, -, -, hrequired⟩ := validateRule_iff.mp rule.valid
  obtain ⟨sources, hsources⟩ := hrequired ⟨l, hl, hsource⟩
  rw [RuleFields.sourceList, hsources] at hnone
  have hlength := sources.property
  rw [show sources.val = [] from hnone] at hlength
  exact absurd hlength (by decide)

/-- The check of a leaf: a category does not know the field, or all of them give it one type. -/
theorem validateLeafSemantics_cases (hl : l ∈ rule.condition.val.leaves) :
    (∃ category ∈ rule.categories.val, ∃ e, fieldType l.field category = .error e ∧
      validateLeafSemantics rule.toRuleFields l = .error e) ∨
    ∃ kind, (∀ category ∈ rule.categories.val, fieldType l.field category = .ok kind) ∧
      validateLeafSemantics rule.toRuleFields l = (validatedOperands kind l).map fun _ => () := by
  have hcheck : validateLeafSemantics rule.toRuleFields l = _ := if_neg (sources_of_leaf hl)
  cases hkinds : rule.categories.val.mapM (fieldType l.field) with
  | error e =>
    obtain ⟨category, hcategory, he⟩ := exists_of_mapM_error hkinds
    refine Or.inl ⟨category, hcategory, e, he, ?_⟩
    rw [hcheck, hkinds]
    rfl
  | ok kinds =>
    have hall := mapM_eq_ok.mp hkinds
    obtain ⟨first, hfirst⟩ := List.exists_mem_of_length_pos rule.categories.property
    obtain ⟨kind, hkind, hfield⟩ := exists_of_forall₂ hall first hfirst
    -- two categories never give one field two types, so the list of types is constant
    have hsame : ∀ category ∈ rule.categories.val, fieldType l.field category = .ok kind := by
      intro category hcategory
      obtain ⟨kind', -, hfield'⟩ := exists_of_forall₂ hall category hcategory
      rw [hfield', fieldType_agree hfield' hfield]
    have hkinds' : ∀ k ∈ kinds, k = kind := by
      intro k hk
      obtain ⟨category, -, hfield'⟩ := exists_of_forall₂ hall.flip k hk
      exact fieldType_agree hfield' hfield
    refine Or.inr ⟨kind, hsame, ?_⟩
    cases kinds with
    | nil => cases hkind
    | cons k ks =>
      obtain rfl : k = kind := hkinds' k (by simp)
      have hreplicate := List.eq_replicate_iff.mpr ⟨rfl, hkinds'⟩
      have hlength : (k :: ks).dedup.length = 1 := by
        rw [hreplicate, List.replicate_dedup (by simp)]
        rfl
      rw [hcheck, hkinds, ok_bind]
      dsimp only
      rw [if_neg (not_not.mpr hlength)]
      cases validatedOperands k l <;> rfl

/-- The check of a leaf is the check for each of the categories. -/
theorem validateLeafSemantics_eq_ok (hl : l ∈ rule.condition.val.leaves) :
    validateLeafSemantics rule.toRuleFields l = .ok () ↔
      ∀ category ∈ rule.categories.val, checkLeaf category l = .ok () := by
  refine ⟨fun h category hcategory => checkLeaf_of_validateLeafSemantics hcategory h, fun h => ?_⟩
  rcases validateLeafSemantics_cases hl with ⟨category, hcategory, e, he, -⟩ | ⟨kind, hkind, hcheck⟩
  · have hleaf := h category hcategory
    rw [checkLeaf, he] at hleaf
    cases hleaf
  · obtain ⟨first, hfirst⟩ := List.exists_mem_of_length_pos rule.categories.property
    have hleaf := h first hfirst
    rw [checkLeaf, hkind first hfirst] at hleaf
    rw [hcheck]
    cases hoperands : validatedOperands kind l with
    | ok operands => rfl
    | error e =>
      rw [ok_bind, hoperands] at hleaf
      cases hleaf

/-- Its error is the one for some category. -/
theorem validateLeafSemantics_eq_error (hl : l ∈ rule.condition.val.leaves)
    (h : validateLeafSemantics rule.toRuleFields l = .error e) :
    ∃ category ∈ rule.categories.val, checkLeaf category l = .error e := by
  rcases validateLeafSemantics_cases hl with ⟨category, hcategory, e', he', hcheck⟩ | ⟨kind, hkind, hcheck⟩
  · rw [h] at hcheck
    cases hcheck
    refine ⟨category, hcategory, ?_⟩
    rw [checkLeaf, he', error_bind]
  · rw [h] at hcheck
    obtain ⟨first, hfirst⟩ := List.exists_mem_of_length_pos rule.categories.property
    refine ⟨first, hfirst, ?_⟩
    rw [checkLeaf, hkind first hfirst, ok_bind, error_of_map_error hcheck.symm, error_bind]

end Leaf

/-! ### Events of every category -/

/-- A context with the required fields only. -/
def EventContext.exampleOf : EventCategory → EventContext
  | .authentication => .authentication ⟨.success, .unset, .unset, .unset, .unset, .unset, .unset⟩
  | .process => .process ⟨⟨"image", by decide⟩, .unset, .unset, .unset, .unset, .unset⟩
  | .network => .network ⟨.v4 ⟨0, by decide⟩, ⟨0, by decide⟩, .v4 ⟨0, by decide⟩, ⟨0, by decide⟩, .unset, .unset,
    .unset⟩
  | .file => .file ⟨⟨"path", by decide⟩, .unset, .unset⟩
  | .dns => .dns ⟨⟨"name", by decide⟩, .unset, .unset, .unset, .unset⟩

/-- An event of the source and of the category. -/
def NormalizedEvent.exampleOf (source : EventSource) (category : EventCategory) : NormalizedEvent :=
  { NormalizedEvent.exampleLogon with
    source
    category
    context := .exampleOf category
    context_matches := by cases category <;> rfl }

theorem NormalizedEvent.utcRepresentable_exampleOf (source : EventSource) (category : EventCategory) :
    (exampleOf source category).UtcRepresentable := ⟨_, rfl⟩

/-! ### The rule -/

section Rule

variable {rule : DetectionRule} {rules : List DetectionRule} {e : Raised}

/-- The check of a rule is the check of its condition for each of the categories. -/
theorem validateDetectionRuleSemantics_eq_ok : validateDetectionRuleSemantics rule = .ok () ↔
    ∀ category ∈ rule.categories.val, checkCondition category rule.condition.val = .ok () := by
  rw [validateDetectionRuleSemantics, validateNode, ConditionNode.visit_eq_ok]
  constructor
  · intro h category hcategory
    refine ConditionNode.visit_eq_ok.mpr fun l hl => ?_
    exact (validateLeafSemantics_eq_ok hl).mp (h l hl) category hcategory
  · intro h l hl
    refine (validateLeafSemantics_eq_ok hl).mpr fun category hcategory => ?_
    exact ConditionNode.visit_eq_ok.mp (h category hcategory) l hl

/-- Its error is the one for some category: before the leaf at fault all leaves pass for every category. -/
theorem validateDetectionRuleSemantics_eq_error (h : validateDetectionRuleSemantics rule = .error e) :
    ∃ category ∈ rule.categories.val, checkCondition category rule.condition.val = .error e := by
  obtain ⟨l₁, l, l₂, hsplit, hbefore, hl⟩ := ConditionNode.visit_eq_error.mp h
  have hmem : ∀ x ∈ l₁ ++ [l], x ∈ rule.condition.val.leaves := by
    intro x hx
    rw [hsplit, List.append_cons]
    exact List.mem_append_left _ hx
  obtain ⟨category, hcategory, hcheck⟩ := validateLeafSemantics_eq_error (hmem l (by simp)) hl
  refine ⟨category, hcategory, ConditionNode.visit_eq_error.mpr ⟨l₁, l, l₂, hsplit, fun x hx => ?_, hcheck⟩⟩
  exact (validateLeafSemantics_eq_ok (hmem x (by simp [hx]))).mp (hbefore x hx) category hcategory

/-- The rule evaluates on every event of its categories. -/
def DetectionRule.Total (rule : DetectionRule) : Prop :=
  ∀ event : NormalizedEvent, event.UtcRepresentable → event.category ∈ rule.categories.val →
    ∃ t, evaluateCondition event rule.condition.val = .ok t

theorem evaluateCondition_of_checkCondition_error {event : NormalizedEvent} (hutc : event.UtcRepresentable)
    (h : checkCondition event.category rule.condition.val = .error e) :
    evaluateCondition event rule.condition.val = .error e :=
  ((evaluateCondition_follows hutc rule.condition.property).error_iff e).mpr h

theorem validateDetectionRuleSemantics_iff : validateDetectionRuleSemantics rule = .ok () ↔ rule.Total := by
  rw [validateDetectionRuleSemantics_eq_ok]
  constructor
  · intro h event hutc hcategory
    exact (evaluateCondition_follows hutc rule.condition.property).isOk_iff.mpr (h _ hcategory)
  · intro h category hcategory
    have hutc := NormalizedEvent.utcRepresentable_exampleOf .windowsSecurity category
    exact (evaluateCondition_follows hutc rule.condition.property).isOk_iff.mp (h _ hutc hcategory)

/-- Some event is for the rule. -/
theorem exists_applicable {category : EventCategory} (hcategory : category ∈ rule.categories.val) :
    ∃ event : NormalizedEvent, event.UtcRepresentable ∧ event.category = category ∧
      applicable event rule = true := by
  have hsource : ∃ source, ∀ sources, rule.sourceList = some sources → source ∈ sources := by
    cases hs : rule.sources.get none with
    | none => exact ⟨.windowsSecurity, by simp [RuleFields.sourceList, hs]⟩
    | some l =>
      obtain ⟨source, hsource⟩ := List.exists_mem_of_length_pos l.property
      refine ⟨source, ?_⟩
      simp only [RuleFields.sourceList, hs, Option.map_some, Option.some.injEq]
      rintro _ rfl
      exact hsource
  obtain ⟨source, hsource⟩ := hsource
  refine ⟨.exampleOf source category, NormalizedEvent.utcRepresentable_exampleOf source category, rfl, ?_⟩
  rw [applicable, Bool.and_eq_true, decide_eq_true_eq]
  refine ⟨hcategory, ?_⟩
  cases hlist : rule.sourceList with
  | none => rfl
  | some sources => exact decide_eq_true (hsource sources hlist)

/-- **The load-time check is exact.**  It accepts a validated rule exactly when its condition evaluates on
every event of its categories; its error is what every event of some category of the rule raises; and the
engine is total on a collection with distinct ids exactly when the check accepts all of its rules. -/
theorem loadCheck_exact :
    (∀ rule, validateDetectionRuleSemantics rule = .ok () ↔ rule.Total) ∧
      (∀ rule e, validateDetectionRuleSemantics rule = .error e → ∃ category ∈ rule.categories.val,
        ∀ event : NormalizedEvent, event.UtcRepresentable → event.category = category →
          evaluateCondition event rule.condition.val = .error e) ∧
      ∀ rules : List DetectionRule, (rules.map (·.id)).Nodup →
        ((∀ event : NormalizedEvent, event.UtcRepresentable →
            ∃ ms, evaluateEvent (some event) (some (rules.map some)) = .ok ms) ↔
          ∀ r ∈ rules, validateDetectionRuleSemantics r = .ok ()) := by
  refine ⟨fun rule => validateDetectionRuleSemantics_iff, fun rule e h => ?_, fun rules hids => ⟨?_, ?_⟩⟩
  · obtain ⟨category, hcategory, hcheck⟩ := validateDetectionRuleSemantics_eq_error h
    refine ⟨category, hcategory, fun event hutc hevent => ?_⟩
    exact evaluateCondition_of_checkCondition_error hutc (hevent ▸ hcheck)
  · intro h r hr
    refine validateDetectionRuleSemantics_eq_ok.mpr fun category hcategory => ?_
    obtain ⟨event, hutc, rfl, happlicable⟩ := exists_applicable hcategory
    obtain ⟨ms, hms⟩ := h event hutc
    cases hcheck : checkCondition event.category r.condition.val with
    | ok u => rfl
    | error e =>
      have hraises := evaluateCondition_of_checkCondition_error hutc hcheck
      exact absurd ⟨happlicable, hraises⟩ (not_fails_of_ok hids hms r hr e)
  · intro h event hutc
    exact evaluateEvent_isOk hids h hutc

end Rule

end SocLab
