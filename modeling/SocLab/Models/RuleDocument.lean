import SocLab.Models.RuleParsing

/-!
# SocLab.Models.RuleDocument — the rule language, and that it is read exactly

The rule language as a grammar over data documents, without the validators of the source.

* `PathForm` and `OperandShape` are the forms of a path and of an operand; `NodeDocument x c` says that the
  document `x` is a node and stands for the condition `c`, `RuleDocument d f` the same of a whole rule.
* `ConditionNode.modelValidate_iff` and `DetectionRule.modelValidate_iff`: what is read is that grammar.
* `rule_language_exact` adds that no node is of two classes and that a rule dumps to its document.
-/

namespace SocLab

open Py Py.Validation

/-! ### Paths and operands -/

/-- A name behind `context.` or `source_data.`. -/
def SegmentForm (name : List Char) : Prop :=
  ∃ c cs, name = c :: cs ∧ isAsciiLetter c = true ∧
    ∀ x ∈ cs, isAsciiLetter x = true ∨ isAsciiDigit x = true ∨ x = '_'

/-- The path forms: a common field, or a name below `context` or `source_data`. -/
inductive PathForm : String → Prop
  | common {path} : path ∈ commonFields → PathForm path
  | nested {path root name : String} : root = "context" ∨ root = "source_data" →
      path.toList = root.toList ++ '.' :: name.toList → SegmentForm name.toList → PathForm path

/-- The operand shapes of the operators that take one. -/
inductive OperandShape : DetectionOperator → Value → Prop
  | text {op s} : op ∈ [DetectionOperator.equals, .notEquals, .contains, .startsWith, .endsWith, .ipInCidr] →
      OperandShape op (.str s)
  | number {op n} : op ∈ [DetectionOperator.equals, .notEquals, .greaterThan, .greaterOrEqual, .lessThan,
      .lessOrEqual] → OperandShape op (.int n)
  | texts {op} {ss : List String} : op ∈ [DetectionOperator.containsAny, .in_, .notIn] → ss ≠ [] →
      OperandShape op (.list (ss.map .str))
  | numbers {op} {ns : List Int} : op ∈ [DetectionOperator.in_, .notIn] → ns ≠ [] →
      OperandShape op (.list (ns.map .int))

theorem segment_iff {name : List Char} : segment.fullmatch name = true ↔ SegmentForm name := by
  rw [Regex.fullmatch_iff, segment, Regex.mem_cat]
  constructor
  · rintro ⟨u, hu, v, hv, rfl⟩
    obtain ⟨c, hc, rfl⟩ := Regex.mem_cls.mp hu
    refine ⟨c, v, rfl, hc, fun x hx => ?_⟩
    have hclass := Regex.mem_star_cls.mp hv x hx
    simpa [or_assoc] using hclass
  · rintro ⟨c, cs, rfl, hc, hcs⟩
    refine ⟨[c], Regex.mem_cls.mpr ⟨c, hc, rfl⟩, cs, Regex.mem_star_cls.mpr fun x hx => ?_, rfl⟩
    simpa [or_assoc] using hcs x hx

/-- A segment has no dot. -/
theorem dot_not_mem_segment {name : List Char} (h : SegmentForm name) : '.' ∉ name := by
  obtain ⟨c, cs, rfl, hc, hcs⟩ := h
  intro hdot
  rcases List.mem_cons.mp hdot with rfl | hdot
  · exact absurd hc (by decide)
  · exact absurd (hcs _ hdot) (by decide)

theorem split_nested {path root name : String} (hroot : root = "context" ∨ root = "source_data")
    (hpath : path.toList = root.toList ++ '.' :: name.toList) (hname : SegmentForm name.toList) :
    split path '.' = [root, name] := by
  refine split_of_toList hpath ?_ (dot_not_mem_segment hname)
  rcases hroot with rfl | rfl <;> decide

theorem validPath_iff {path : String} : validPath path = true ↔ PathForm path := by
  unfold validPath
  split_ifs with hcommon
  · exact iff_of_true rfl (.common hcommon)
  · split
    · next first second hsplit =>
      rw [Bool.and_eq_true, Bool.or_eq_true, beq_iff_eq, beq_iff_eq, segment_iff]
      constructor
      · rintro ⟨hfirst, hsegment⟩
        exact .nested hfirst (toList_of_split hsplit) hsegment
      · rintro (h | ⟨hroot, hpath, hsegment⟩)
        · exact absurd h hcommon
        · rw [split_nested hroot hpath hsegment] at hsplit
          cases hsplit
          exact ⟨hroot, hsegment⟩
    · next hsplit =>
      refine iff_of_false Bool.false_ne_true ?_
      rintro (h | ⟨hroot, hpath, hsegment⟩)
      · exact hcommon h
      · exact hsplit _ _ (split_nested hroot hpath hsegment)

/-- The values of a list that all have the type of texts. -/
theorem exists_texts (items : List Value) (h : ∀ v ∈ items, v.type = .str) :
    ∃ ss : List String, items = ss.map .str := by
  induction items with
  | nil => exact ⟨[], rfl⟩
  | cons v items ih =>
    obtain ⟨s, rfl⟩ := Value.type_eq_str.mp (h v (by simp))
    obtain ⟨ss, rfl⟩ := ih fun w hw => h w (by simp [hw])
    exact ⟨s :: ss, rfl⟩

theorem exists_numbers (items : List Value) (h : ∀ v ∈ items, v.type = .int) :
    ∃ ns : List Int, items = ns.map .int := by
  induction items with
  | nil => exact ⟨[], rfl⟩
  | cons v items ih =>
    obtain ⟨n, rfl⟩ := Value.type_eq_int.mp (h v (by simp))
    obtain ⟨ns, rfl⟩ := ih fun w hw => h w (by simp [hw])
    exact ⟨n :: ns, rfl⟩

theorem operandShape_of_validOperand {op : DetectionOperator} {v : Value} (hop : op ∉ existenceOperators)
    (h : validOperand op v = true) : OperandShape op v := by
  unfold validOperand at h
  by_cases hlist : op ∈ listOperators
  · rw [if_pos hlist] at h
    split at h
    · next first rest =>
      -- `contains_any` takes texts only, the other lists texts or integers
      by_cases hany : op = .containsAny
      · rw [if_pos hany, List.all_eq_true] at h
        obtain ⟨ss, hss⟩ := exists_texts _ fun v hv => by simpa using h v hv
        rw [hss, hany]
        exact .texts (by decide) fun hnil => by simp [hnil] at hss
      · rw [if_neg hany, Bool.and_eq_true, Bool.or_eq_true, decide_eq_true_iff, decide_eq_true_iff,
          List.all_eq_true] at h
        obtain ⟨hsame, hfirst | hfirst⟩ := h
        · obtain ⟨ss, hss⟩ := exists_texts (first :: rest) fun v hv => by
            rw [of_decide_eq_true (hsame v hv), hfirst]
          rw [hss]
          exact .texts hlist fun hnil => by simp [hnil] at hss
        · obtain ⟨ns, hns⟩ := exists_numbers (first :: rest) fun v hv => by
            rw [of_decide_eq_true (hsame v hv), hfirst]
          rw [hns]
          refine .numbers ?_ fun hnil => by simp [hnil] at hns
          revert hlist hany
          cases op <;> decide
    · cases h
  · rw [if_neg hlist] at h
    split_ifs at h with hinteger hstring
    · obtain ⟨n, rfl⟩ := Value.type_eq_int.mp (of_decide_eq_true h)
      exact .number (by revert hinteger; cases op <;> decide)
    · obtain ⟨s, rfl⟩ := Value.type_eq_str.mp (of_decide_eq_true h)
      exact .text (by revert hstring; cases op <;> decide)
    · have hequality : op = .equals ∨ op = .notEquals := by
        revert hop hlist hinteger hstring
        cases op <;> decide
      rw [Bool.or_eq_true, decide_eq_true_iff, decide_eq_true_iff] at h
      rcases h with h | h
      · obtain ⟨s, rfl⟩ := Value.type_eq_str.mp h
        exact .text (by rcases hequality with rfl | rfl <;> decide)
      · obtain ⟨n, rfl⟩ := Value.type_eq_int.mp h
        exact .number (by rcases hequality with rfl | rfl <;> decide)

theorem validOperand_of_operandShape {op : DetectionOperator} {v : Value} (h : OperandShape op v) :
    validOperand op v = true ∧ op ∉ existenceOperators := by
  cases h with
  | text hop =>
    revert hop
    cases op <;> simp [validOperand, listOperators, integerOperators, stringOperators, existenceOperators,
      Value.type]
  | number hop =>
    revert hop
    cases op <;> simp [validOperand, listOperators, integerOperators, stringOperators, existenceOperators,
      Value.type]
  | @texts ss hop hne =>
    obtain ⟨s, ss, rfl⟩ := List.exists_cons_of_ne_nil hne
    revert hop
    cases op <;> simp [validOperand, listOperators, existenceOperators, Value.type]
  | @numbers ns hop hne =>
    obtain ⟨n, ns, rfl⟩ := List.exists_cons_of_ne_nil hne
    revert hop
    cases op <;> simp [validOperand, listOperators, existenceOperators, Value.type]

/-- What the validator of a leaf accepts: a path, and an operand exactly for the operators that take one. -/
theorem validateLeaf_iff {field : String} {op : DetectionOperator} {value : ModelField Value} :
    validateLeaf field op value = ok () ↔ PathForm field ∧
      (value = .unset ∧ op ∈ existenceOperators ∨ ∃ v, value = .set v ∧ OperandShape op v) := by
  have hchecks : validateLeaf field op value = ok () ↔ PathForm field ∧
      ¬ (op ∈ existenceOperators ∧ value.isSet = true) ∧
      ¬ (op ∉ existenceOperators ∧ (value.isSet = false ∨ validOperand op (value.get .none) = false)) := by
    rw [validateLeaf, raiseFirst_eq_ok, ← validPath_iff]
    cases value <;> simp
  rw [hchecks]
  refine and_congr_right fun _ => ?_
  cases value with
  | unset => simp
  | set v =>
    by_cases hop : op ∈ existenceOperators
    · simp only [hop, ModelField.isSet_set, and_self, not_true_eq_false, false_and, reduceCtorEq, false_or,
        ModelField.set.injEq, exists_eq_left', false_iff]
      exact fun h => (validOperand_of_operandShape h).2 hop
    · have hshape : validOperand op v = true ↔ OperandShape op v :=
        ⟨operandShape_of_validOperand hop, fun h => (validOperand_of_operandShape h).1⟩
      simp [hop, hshape]

/-! ### Nodes -/

/-- The node grammar: the document is a node and stands for the condition.  The keys may stand in any
order. -/
inductive NodeDocument : Value → ConditionNode → Prop
  | comparison {d : Dict} {field op v valid} : PathForm field → OperandShape op v →
      d.Perm [("field", .str field), ("op", .str (StrEnum.value op)), ("value", v)] →
      NodeDocument (.dict d) (.leaf ⟨field, op, .set v, valid⟩)
  | existence {d : Dict} {field op valid} : PathForm field → op ∈ existenceOperators →
      d.Perm [("field", .str field), ("op", .str (StrEnum.value op))] →
      NodeDocument (.dict d) (.leaf ⟨field, op, .unset, valid⟩)
  | all {items cs} : items ≠ [] → List.Forall₂ NodeDocument items cs →
      NodeDocument (.dict [("all", .list items)]) (.all cs)
  | any {items cs} : items ≠ [] → List.Forall₂ NodeDocument items cs →
      NodeDocument (.dict [("any", .list items)]) (.any cs)
  | not_ {x c} : NodeDocument x c → NodeDocument (.dict [("not", x)]) (.not_ c)

/-- The class accepts dicts that have the key and no key beside the given names. -/
def ReadsKey (cls : Validator WellFormedNode) (key : String) (names : List String) : Prop :=
  ∀ x w, cls x = ok w → ∃ d, x = .dict d ∧ key ∈ Dict.keys d ∧ ∀ k ∈ Dict.keys d, k ∈ names

theorem mem_keys_of_lookup {d : Dict} {name : String} {v : Value} (h : d.lookup name = some v) :
    name ∈ d.keys := List.mem_map_of_mem (mem_of_lookup h)

namespace ConditionNode

theorem readsKey_leafClass : ReadsKey leafClass "field" LeafCondition.fieldNames := by
  intro x w h
  obtain ⟨l, hl, -⟩ := map_eq_ok.mp h
  obtain ⟨f, hf, -⟩ := after_eq_ok.mp hl
  obtain ⟨d, rfl, hfields, hkeys⟩ := modelDict_eq_ok.mp hf
  simp only [LeafCondition.fields, seq_eq_ok, map_eq_ok] at hfields
  obtain ⟨_, _, ⟨_, _, ⟨_, hfield, -⟩, -, -⟩, -, -⟩ := hfields
  obtain ⟨y, hy, -⟩ := requiredField_eq_ok.mp hfield
  exact ⟨d, rfl, mem_keys_of_lookup hy, hkeys⟩

theorem readsKey_member {α : Type} {mk : α → WellFormedNode} {v : Validator α} {key : String} :
    ReadsKey (fun x => mk <$> modelDict [key] (requiredField key v) x) key [key] := by
  intro x w h
  obtain ⟨a, ha, -⟩ := map_eq_ok.mp h
  obtain ⟨d, rfl, hfield, hkeys⟩ := modelDict_eq_ok.mp ha
  obtain ⟨y, hy, -⟩ := requiredField_eq_ok.mp hfield
  exact ⟨d, rfl, mem_keys_of_lookup hy, hkeys⟩

end ConditionNode

theorem ReadsKey.ne_ok {cls : Validator WellFormedNode} {key : String} {names : List String}
    (h : ReadsKey cls key names) {d : Dict} (hkey : key ∉ d.keys) (w : WellFormedNode) :
    cls (.dict d) ≠ ok w := by
  intro hw
  obtain ⟨d', hd, hmem, -⟩ := h _ w hw
  cases hd
  exact hkey hmem

theorem ReadsKey.exclusive {cls cls' : Validator WellFormedNode} {key key' : String}
    {names names' : List String} {x : Value} (h : ReadsKey cls key names) (h' : ReadsKey cls' key' names')
    (hkey : key' ∉ names) : ¬ ((cls x).toOption.isSome = true ∧ (cls' x).toOption.isSome = true) := by
  rintro ⟨hsome, hsome'⟩
  obtain ⟨w, hw⟩ := Option.isSome_iff_exists.mp hsome
  obtain ⟨w', hw'⟩ := Option.isSome_iff_exists.mp hsome'
  obtain ⟨d, rfl, -, hnames⟩ := h _ w (toOption_eq_some.mp hw)
  obtain ⟨d', hd, hmem, -⟩ := h' _ w' (toOption_eq_some.mp hw')
  cases hd
  exact hkey (hnames _ hmem)

namespace ConditionNode

section Read

variable {x : Value} {w : WellFormedNode}

theorem mem_nodeClasses_of_ok (h : modelValidate x = ok w) : ∃ cls ∈ nodeClasses, cls x = ok w := by
  rw [modelValidate_eq] at h
  generalize nodeClasses = vs at h ⊢
  induction vs with
  | nil => cases h
  | cons v vs ih =>
    rw [union] at h
    split at h
    · next a ha =>
      cases h
      exact ⟨v, by simp, ha⟩
    · split at h
      · next a ha =>
        cases h
        obtain ⟨cls, hmem, hcls⟩ := ih ha
        exact ⟨cls, by simp [hmem], hcls⟩
      · cases h
      · cases h
    · cases h

/-- A document that the class of leaves reads. -/
theorem nodeDocument_of_leafClass (hx : x.IsDocument) (h : leafClass x = ok w) : NodeDocument x w.val := by
  obtain ⟨l, hl, rfl⟩ := map_eq_ok.mp h
  obtain ⟨⟨field, op, value⟩, hf, hinit⟩ := after_eq_ok.mp hl
  obtain ⟨d, rfl, hfields, hkeys⟩ := modelDict_eq_ok.mp hf
  obtain ⟨field', op', value', valid⟩ := l
  obtain ⟨rfl, rfl, rfl⟩ := LeafCondition.init_eq_ok.mp hinit
  simp only [LeafCondition.fields, seq_eq_ok, map_eq_ok] at hfields
  obtain ⟨_, _, ⟨_, _, ⟨_, hfield, rfl⟩, hop, rfl⟩, hvalue, heq⟩ := hfields
  obtain ⟨rfl, rfl, rfl⟩ : _ ∧ _ ∧ _ := by simpa using heq
  obtain ⟨y, hy, hfield⟩ := requiredField_eq_ok.mp hfield
  obtain ⟨z, hz, hop⟩ := requiredField_eq_ok.mp hop
  obtain rfl := (strictStr_eq_ok (Value.isDocument_of_lookup hx hy)).mp hfield
  obtain rfl := (enumOf_eq_ok (Value.isDocument_of_lookup hx hz)).mp hop
  have hnodup := (Value.isDocument_dict.mp hx).1
  obtain ⟨hpath, hoperand⟩ := validateLeaf_iff.mp valid
  rcases optionalField_eq_ok.mp hvalue with ⟨hnone, rfl⟩ | ⟨v, _, hv, hany, rfl⟩
  · obtain ⟨-, hexists⟩ | ⟨v, hv, -⟩ := hoperand
    · refine .existence hpath hexists (Value.perm_of_lookup hnodup (by simp) ?_ fun k hk => ?_)
      · simp [hy, hz]
      · have hkey := hkeys k hk
        rw [List.lookup_eq_none_iff] at hnone
        obtain ⟨p, hp, rfl⟩ := List.mem_map.mp hk
        have hne := hnone p hp
        simp only [LeafCondition.fieldNames, List.mem_cons, List.not_mem_nil, or_false] at hkey
        rcases hkey with hkey | hkey | hkey <;> simp [hkey] at hne ⊢
    · cases hv
  · cases hany
    obtain ⟨hunset, -⟩ | ⟨v', hv', hshape⟩ := hoperand
    · cases hunset
    · cases hv'
      refine .comparison hpath hshape (Value.perm_of_lookup hnodup (by simp) ?_ hkeys)
      simp [hy, hz, hv]

/-- A document that a class with one list of nodes reads. -/
theorem exists_items_of_listClass {key : String} {l : NodeList} {d : Dict} (hx : (Value.dict d).IsDocument)
    (hfield : requiredField key nodeList d = ok l) (hkeys : ∀ k ∈ Dict.keys d, k ∈ [key]) :
    ∃ items, d = [(key, .list items)] ∧ items ≠ [] ∧
      List.Forall₂ (fun x w => modelValidate x = ok w) items l.val := by
  obtain ⟨y, hy, hlist⟩ := requiredField_eq_ok.mp hfield
  obtain ⟨items, rfl, hitems⟩ := listOf_eq_ok.mp (constrained_eq_ok.mp hlist)
  have hperm : d.Perm [(key, .list items)] :=
    Value.perm_of_lookup (Value.isDocument_dict.mp hx).1 (by simp) (by simp [hy]) hkeys
  refine ⟨items, List.perm_singleton.mp hperm, fun hnil => ?_, hitems⟩
  have hlength := hitems.length_eq
  have hone := l.property
  rw [← hlength, hnil] at hone
  cases hone

/-- **How a node is read**: as a leaf, as a list of nodes under one key, or as a negated node. -/
theorem cases_of_modelValidate (hx : x.IsDocument) (h : modelValidate x = ok w) :
    (∃ l, w.val = .leaf l ∧ NodeDocument x (.leaf l)) ∨
      (∃ items l, x = .dict [("all", .list items)] ∧ items ≠ [] ∧
        List.Forall₂ (fun x w => modelValidate x = ok w) items l.val ∧ w.val = .all (NodeList.nodes l)) ∨
      (∃ items l, x = .dict [("any", .list items)] ∧ items ≠ [] ∧
        List.Forall₂ (fun x w => modelValidate x = ok w) items l.val ∧ w.val = .any (NodeList.nodes l)) ∨
      ∃ y v, x = .dict [("not", y)] ∧ modelValidate y = ok v ∧ w.val = .not_ v.val := by
  obtain ⟨cls, hmem, hcls⟩ := mem_nodeClasses_of_ok h
  simp only [nodeClasses, List.mem_cons, List.not_mem_nil, or_false] at hmem
  rcases hmem with rfl | rfl | rfl | rfl
  · obtain ⟨l, -, rfl⟩ := map_eq_ok.mp hcls
    exact Or.inl ⟨l, rfl, nodeDocument_of_leafClass hx hcls⟩
  · obtain ⟨l, hl, rfl⟩ := map_eq_ok.mp hcls
    obtain ⟨d, rfl, hfield, hkeys⟩ := modelDict_eq_ok.mp hl
    obtain ⟨items, rfl, hne, hitems⟩ := exists_items_of_listClass hx hfield hkeys
    exact Or.inr (Or.inl ⟨items, l, rfl, hne, hitems, rfl⟩)
  · obtain ⟨l, hl, rfl⟩ := map_eq_ok.mp hcls
    obtain ⟨d, rfl, hfield, hkeys⟩ := modelDict_eq_ok.mp hl
    obtain ⟨items, rfl, hne, hitems⟩ := exists_items_of_listClass hx hfield hkeys
    exact Or.inr (Or.inr (Or.inl ⟨items, l, rfl, hne, hitems, rfl⟩))
  · obtain ⟨v, hv, rfl⟩ := map_eq_ok.mp hcls
    obtain ⟨d, rfl, hfield, hkeys⟩ := modelDict_eq_ok.mp hv
    obtain ⟨y, hy, hvalue⟩ := requiredField_eq_ok.mp hfield
    have hperm : d.Perm [("not", y)] :=
      Value.perm_of_lookup (Value.isDocument_dict.mp hx).1 (by simp) (by simp [hy]) hkeys
    exact Or.inr (Or.inr (Or.inr ⟨y, v, by rw [List.perm_singleton.mp hperm], hvalue, rfl⟩))

theorem forall₂_nodes {items : List Value} {l : NodeList}
    (hitems : List.Forall₂ (fun x w => modelValidate x = ok w) items l.val)
    (h : ∀ x ∈ items, ∀ c ∈ l.nodes, ∀ hc, modelValidate x = ok ⟨c, hc⟩ → NodeDocument x c) :
    List.Forall₂ NodeDocument items l.nodes := by
  rw [NodeList.nodes, List.forall₂_map_right_iff]
  rw [List.forall₂_iff_zip] at hitems ⊢
  refine ⟨hitems.1, fun hmem => ?_⟩
  obtain ⟨hitem, hnode⟩ := List.of_mem_zip hmem
  exact h _ hitem _ (List.mem_map_of_mem hnode) _ (hitems.2 hmem)

/-- What is read is a node of the grammar. -/
theorem nodeDocument_of_modelValidate (hx : x.IsDocument) (h : modelValidate x = ok w) :
    NodeDocument x w.val := by
  obtain ⟨c, hc⟩ := w
  -- over the node that was built: the class tells which member of the union succeeded
  induction c generalizing x with
  | leaf l =>
    rcases cases_of_modelValidate hx h with ⟨l', hl, hdoc⟩ | ⟨_, _, _, _, _, hl⟩ | ⟨_, _, _, _, _, hl⟩ |
      ⟨_, _, _, _, hl⟩
    · cases hl
      exact hdoc
    all_goals cases hl
  | all cs ih =>
    rcases cases_of_modelValidate hx h with ⟨_, hl, _⟩ | ⟨items, l, rfl, hne, hitems, hl⟩ |
      ⟨_, _, _, _, _, hl⟩ | ⟨_, _, _, _, hl⟩
    · cases hl
    · cases hl
      have hdocs := Value.isDocument_list.mp (Value.isDocument_singleton.mp hx)
      exact .all hne (forall₂_nodes hitems fun y hy c hc _ => ih c hc (hdocs y hy) _)
    all_goals cases hl
  | any cs ih =>
    rcases cases_of_modelValidate hx h with ⟨_, hl, _⟩ | ⟨_, _, _, _, _, hl⟩ |
      ⟨items, l, rfl, hne, hitems, hl⟩ | ⟨_, _, _, _, hl⟩
    · cases hl
    · cases hl
    · cases hl
      have hdocs := Value.isDocument_list.mp (Value.isDocument_singleton.mp hx)
      exact .any hne (forall₂_nodes hitems fun y hy c hc _ => ih c hc (hdocs y hy) _)
    · cases hl
  | not_ c ih =>
    rcases cases_of_modelValidate hx h with ⟨_, hl, _⟩ | ⟨_, _, _, _, _, hl⟩ | ⟨_, _, _, _, _, hl⟩ |
      ⟨y, v, rfl, hv, hl⟩
    · cases hl
    · cases hl
    · cases hl
    · cases hl
      exact .not_ (ih (Value.isDocument_singleton.mp hx) v.property hv)

/-! #### Nodes of the grammar are read -/

/-- A class whose key is missing refuses the dict, and nothing else happens. -/
theorem clean_of_missing {α : Type} {mk : α → WellFormedNode} {v : Validator α} {key : String} {d : Dict}
    (h : d.lookup key = none) : Clean (mk <$> modelDict [key] (requiredField key v) (.dict d)) := by
  refine clean_map.mpr (clean_modelItems ?_)
  rw [requiredField, h]
  exact (clean_error _).within _

theorem clean_leafClass (x : Value) : Clean (leafClass x) :=
  clean_map.mpr (LeafCondition.clean_modelValidate x)

section Skip

variable {vs : List (Validator WellFormedNode)} {key : String} {y : Value}

/-- The class of leaves is passed over for a dict with one other key. -/
theorem union_skip_leafClass (hkey : key ≠ "field") (h : union vs (.dict [(key, y)]) = ok w) :
    union (leafClass :: vs) (.dict [(key, y)]) = ok w := by
  have hmem : "field" ∉ Dict.keys [(key, y)] := by simpa [Dict.keys] using hkey.symm
  exact union_tail (clean_leafClass _) (readsKey_leafClass.ne_ok hmem) h

/-- A class of one field is passed over for a dict with one other key. -/
theorem union_skip_member {α : Type} {mk : α → WellFormedNode} {v : Validator α} {name : String}
    (hkey : key ≠ name) (h : union vs (.dict [(key, y)]) = ok w) :
    union ((fun x => mk <$> modelDict [name] (requiredField name v) x) :: vs) (.dict [(key, y)]) = ok w := by
  have hmem : name ∉ Dict.keys [(key, y)] := by simpa [Dict.keys] using hkey.symm
  have hmissing : List.lookup name [(key, y)] = none := by simpa using hkey.symm
  exact union_tail (clean_of_missing hmissing) (readsKey_member.ne_ok hmem) h

end Skip

theorem leafClass_ok {d : Dict} {l : LeafCondition} (hd : (d.map (·.1)).Nodup) {items : Dict}
    (hperm : d.Perm ([("field", .str l.field), ("op", .str (StrEnum.value l.op))] ++ items))
    (hitems : ∀ p ∈ items, p.1 = "value")
    (hvalue : optionalField "value" anyValue d = ok l.value) : leafClass (.dict d) = ok (ofLeaf l) := by
  have hfield : requiredField "field" strictStr d = ok l.field := by
    have hlookup : d.lookup "field" = some (.str l.field) :=
      Value.lookup_of_perm hd hperm (p := ("field", .str l.field)) (by simp)
    exact (requiredField_of_lookup hlookup).mpr rfl
  have hop : requiredField "op" (enumOf DetectionOperator false) d = ok l.op := by
    have hlookup : d.lookup "op" = some (.str (StrEnum.value l.op)) :=
      Value.lookup_of_perm hd hperm (p := ("op", .str (StrEnum.value l.op))) (by simp)
    exact (requiredField_of_lookup hlookup).mpr ((enumOf_eq_ok (Value.isDocument_str _)).mpr rfl)
  have hfields : LeafCondition.fields d = ok (l.field, l.op, l.value) := by
    rw [LeafCondition.fields, hfield, hop, hvalue]
    rfl
  have hkeys : ∀ k ∈ Dict.keys d, k ∈ LeafCondition.fieldNames := by
    intro k hk
    obtain ⟨p, hp, rfl⟩ := List.mem_map.mp hk
    rcases List.mem_append.mp (hperm.mem_iff.mp hp) with hp | hp
    · simp only [List.mem_cons, List.not_mem_nil, or_false] at hp
      rcases hp with rfl | rfl <;> simp [LeafCondition.fieldNames]
    · simp [LeafCondition.fieldNames, hitems p hp]
  have hdict := modelDict_eq_ok.mpr ⟨d, rfl, hfields, hkeys⟩
  have hinit : LeafCondition.init l.field l.op l.value = ok l := LeafCondition.init_eq_ok.mpr ⟨rfl, rfl, rfl⟩
  exact map_eq_ok.mpr ⟨l, after_eq_ok.mpr ⟨_, hdict, hinit⟩, rfl⟩

theorem exists_nodes {items : List Value} {cs : List ConditionNode} (hwf : ∀ c ∈ cs, c.WellFormed)
    (h : List.Forall₂ (fun x c => ∀ hc, modelValidate x = ok ⟨c, hc⟩) items cs) :
    ∃ ws : List WellFormedNode, ws.map (·.val) = cs ∧
      List.Forall₂ (fun x w => modelValidate x = ok w) items ws := by
  induction h with
  | nil => exact ⟨[], rfl, .nil⟩
  | @cons x c items cs hc _ ih =>
    obtain ⟨ws, hws, hitems⟩ := ih fun d hd => hwf d (by simp [hd])
    exact ⟨⟨c, hwf c (by simp)⟩ :: ws, by rw [List.map_cons, hws], .cons (hc _) hitems⟩

/-- The declared type of the children accepts a non-empty list of nodes. -/
theorem nodeList_ok {items : List Value} {cs : List ConditionNode} (hne : items ≠ [])
    (hwf : ∀ c ∈ cs, c.WellFormed)
    (h : List.Forall₂ (fun x c => ∀ hc, modelValidate x = ok ⟨c, hc⟩) items cs) :
    ∃ l : NodeList, l.nodes = cs ∧ nodeList (.list items) = ok l := by
  obtain ⟨ws, hws, hitems⟩ := exists_nodes hwf h
  have hlength : 1 ≤ ws.length := by
    rw [← hitems.length_eq]
    exact List.length_pos_iff.mpr hne
  exact ⟨⟨ws, hlength⟩, hws, constrained_eq_ok.mpr (listOf_eq_ok.mpr ⟨items, rfl, hitems⟩)⟩

theorem modelDict_singleton {α : Type} {v : Validator α} {key : String} {y : Value} {a : α} (h : v y = ok a) :
    modelDict [key] (requiredField key v) (.dict [(key, y)]) = ok a :=
  modelDict_dict ((requiredField_of_lookup List.lookup_cons_self).mpr h) fun _ hk => hk

theorem forall₂_read {items : List Value} {cs : List ConditionNode} (hdocs : (Value.list items).IsDocument)
    (h : List.Forall₂ NodeDocument items cs)
    (ih : ∀ c ∈ cs, ∀ x, x.IsDocument → NodeDocument x c → ∀ hc, modelValidate x = ok ⟨c, hc⟩) :
    List.Forall₂ (fun x c => ∀ hc, modelValidate x = ok ⟨c, hc⟩) items cs := by
  rw [List.forall₂_iff_zip] at h ⊢
  refine ⟨h.1, fun hmem => ?_⟩
  obtain ⟨hitem, hnode⟩ := List.of_mem_zip hmem
  exact ih _ hnode _ (Value.isDocument_list.mp hdocs _ hitem) (h.2 hmem)

/-- A node of the grammar is read as the condition that it stands for. -/
theorem modelValidate_of_nodeDocument {c : ConditionNode} (hx : x.IsDocument) (h : NodeDocument x c)
    (hc : c.WellFormed) : modelValidate x = ok ⟨c, hc⟩ := by
  -- over the node; the union tries its members in order, and the keys exclude those before the right one
  induction c generalizing x with
  | leaf l =>
    rw [modelValidate_eq]
    cases h with
    | @comparison d field op v valid hpath hshape hperm =>
      have hd := (Value.isDocument_dict.mp hx).1
      have hvalue : d.lookup "value" = some v := Value.lookup_of_perm hd hperm (p := ("value", v)) (by simp)
      exact union_head (leafClass_ok hd hperm (by simp) ((optionalField_set_of_lookup hvalue).mpr rfl))
    | @existence d field op valid hpath hop hperm =>
      have hd := (Value.isDocument_dict.mp hx).1
      have hvalue : d.lookup "value" = none := Value.lookup_eq_none_of_perm hperm (by simp)
      exact union_head (@leafClass_ok _ _ hd [] (by simpa using hperm) (by simp)
        (optionalField_eq_ok.mpr (Or.inl ⟨hvalue, rfl⟩)))
  | all cs ih =>
    cases h with
    | @all items _ hne hitems =>
      have hdocs := Value.isDocument_singleton.mp hx
      obtain ⟨l, rfl, hl⟩ := nodeList_ok hne (allWellFormed_iff.mp hc.2)
        (forall₂_read hdocs hitems fun c hmem x hx hdoc hc => ih c hmem hx hdoc hc)
      have hclass : allClass (.dict [("all", .list items)]) = ok ⟨.all l.nodes, hc⟩ :=
        map_eq_ok.mpr ⟨l, modelDict_singleton hl, rfl⟩
      rw [modelValidate_eq]
      exact union_skip_leafClass (by decide) (union_head hclass)
  | any cs ih =>
    cases h with
    | @any items _ hne hitems =>
      have hdocs := Value.isDocument_singleton.mp hx
      obtain ⟨l, rfl, hl⟩ := nodeList_ok hne (allWellFormed_iff.mp hc.2)
        (forall₂_read hdocs hitems fun c hmem x hx hdoc hc => ih c hmem hx hdoc hc)
      have hclass : anyClass (.dict [("any", .list items)]) = ok ⟨.any l.nodes, hc⟩ :=
        map_eq_ok.mpr ⟨l, modelDict_singleton hl, rfl⟩
      rw [modelValidate_eq]
      refine union_skip_leafClass (by decide) ?_
      exact union_skip_member (by decide) (union_head hclass)
  | not_ c ih =>
    cases h with
    | @not_ y _ hy =>
      have hread := ih (Value.isDocument_singleton.mp hx) hy hc
      have hclass : notClass (.dict [("not", y)]) = ok ⟨.not_ c, hc⟩ :=
        map_eq_ok.mpr ⟨⟨c, hc⟩, modelDict_singleton hread, rfl⟩
      rw [modelValidate_eq]
      refine union_skip_leafClass (by decide) ?_
      refine union_skip_member (by decide) ?_
      exact union_skip_member (by decide) (union_head hclass)

theorem wellFormed_of_nodeDocument {c : ConditionNode} (h : NodeDocument x c) : c.WellFormed := by
  have hlist {items : List Value} {cs : List ConditionNode} (hne : items ≠ [])
      (hitems : List.Forall₂ NodeDocument items cs)
      (ih : ∀ c ∈ cs, ∀ {x}, NodeDocument x c → c.WellFormed) : cs ≠ [] ∧ AllWellFormed cs := by
    refine ⟨?_, allWellFormed_iff.mpr fun c hc => ?_⟩
    · rintro rfl
      exact hne (List.forall₂_nil_right_iff.mp hitems)
    · obtain ⟨y, -, hy⟩ := Logic.exists_of_forall₂ hitems.flip c hc
      exact ih c hc hy
  induction c generalizing x with
  | leaf l => exact trivial
  | all cs ih =>
    cases h with
    | all hne hitems => exact hlist hne hitems ih
  | any cs ih =>
    cases h with
    | any hne hitems => exact hlist hne hitems ih
  | not_ c ih =>
    cases h with
    | not_ hy => exact ih hy

/-- **The reader of nodes reads the node grammar.** -/
theorem modelValidate_iff (hx : x.IsDocument) : modelValidate x = ok w ↔ NodeDocument x w.val :=
  ⟨nodeDocument_of_modelValidate hx, fun h => modelValidate_of_nodeDocument hx h w.property⟩

/-! #### The classes exclude each other -/

/-- In a list whose members exclude each other, one that holds is the only one. -/
theorem filter_eq_singleton {α : Type} {p : α → Bool} {l : List α}
    (hl : l.Pairwise fun a b => ¬ (p a = true ∧ p b = true)) {a : α} (ha : a ∈ l) (hp : p a = true) :
    l.filter p = [a] := by
  have hmem : a ∈ l.filter p := List.mem_filter.mpr ⟨ha, hp⟩
  have hpair := hl.filter p
  have hall : ∀ b ∈ l.filter p, p b = true := fun b hb => (List.mem_filter.mp hb).2
  generalize l.filter p = m at hmem hpair hall
  cases m with
  | nil => cases hmem
  | cons b m =>
    cases m with
    | nil => rw [List.mem_singleton.mp hmem]
    | cons c m =>
      exact absurd ⟨hall b (by simp), hall c (by simp)⟩ ((List.pairwise_cons.mp hpair).1 c (by simp))

/-- **A node is read by exactly one of the four classes.** -/
theorem exists_nodeClass (h : modelValidate x = ok w) : ∃ cls,
    nodeClasses.filter (fun cls => (cls x).toOption.isSome) = [cls] ∧ cls x = ok w := by
  obtain ⟨cls, hmem, hcls⟩ := mem_nodeClasses_of_ok h
  refine ⟨cls, filter_eq_singleton ?_ hmem (by rw [hcls]; rfl), hcls⟩
  simp only [nodeClasses, List.pairwise_cons, List.forall_mem_cons, List.not_mem_nil, false_implies,
    implies_true, List.Pairwise.nil, and_true]
  refine ⟨⟨?_, ?_, ?_⟩, ⟨?_, ?_⟩, ?_⟩
  · exact readsKey_leafClass.exclusive readsKey_member (by decide)
  · exact readsKey_leafClass.exclusive readsKey_member (by decide)
  · exact readsKey_leafClass.exclusive readsKey_member (by decide)
  · exact readsKey_member.exclusive readsKey_member (by decide)
  · exact readsKey_member.exclusive readsKey_member (by decide)
  · exact readsKey_member.exclusive readsKey_member (by decide)

end Read

/-! #### Measures -/

mutual

/-- The number of nodes on a longest way from the root to a leaf. -/
def depth : ConditionNode → Nat
  | leaf _ => 1
  | all children | any children => 1 + depthAll children
  | not_ child => 1 + depth child

/-- The greatest depth among children. -/
def depthAll : List ConditionNode → Nat
  | [] => 0
  | c :: cs => max (depth c) (depthAll cs)

end

theorem depthAll_eq (cs : List ConditionNode) : depthAll cs = (cs.map depth).foldr max 0 := by
  induction cs with
  | nil => rfl
  | cons c cs ih => rw [depthAll, ih]; rfl

theorem measureList_eq (cs : List ConditionNode) : measureList cs = cs.map measure := by
  induction cs with
  | nil => rfl
  | cons c cs ih => rw [measureList, ih]; rfl

theorem anyUsesSourceData_iff (cs : List ConditionNode) :
    anyUsesSourceData cs = true ↔ ∃ c ∈ cs, usesSourceData c = true := by
  induction cs with
  | nil => simp [anyUsesSourceData]
  | cons c cs ih => simp [anyUsesSourceData, ih]

theorem foldl_max (l : List Nat) (a : Nat) : l.foldl max a = max a (l.foldr max 0) := by
  induction l generalizing a with
  | nil => simp
  | cons b l ih => rw [List.foldl_cons, ih, List.foldr_cons, max_assoc]

/-- The measure of the source is the depth and the number of leaves. -/
theorem measure_eq (c : ConditionNode) : c.measure = (c.depth, c.leaves.length) := by
  have hlist {cs : List ConditionNode} (ih : ∀ c ∈ cs, c.measure = (c.depth, c.leaves.length)) :
      (1 + ((measureList cs).map (·.1)).foldl max 0, ((measureList cs).map (·.2)).sum) =
        (1 + depthAll cs, (leavesAll cs).length) := by
    have hfst : (measureList cs).map (·.1) = cs.map depth := by
      rw [measureList_eq, List.map_map]
      exact List.map_congr_left fun c hc => by rw [Function.comp_apply, ih c hc]
    have hsnd : (measureList cs).map (·.2) = cs.map fun c => c.leaves.length := by
      rw [measureList_eq, List.map_map]
      exact List.map_congr_left fun c hc => by rw [Function.comp_apply, ih c hc]
    rw [hfst, hsnd, depthAll_eq, leavesAll_eq, List.length_flatMap, foldl_max, Nat.zero_max]
  induction c with
  | leaf l => rfl
  | all cs ih => exact hlist ih
  | any cs ih => exact hlist ih
  | not_ c ih =>
    rw [measure, ih, depth, leaves]
    simp

/-- The source looks for `source_data` at every leaf. -/
theorem usesSourceData_iff (c : ConditionNode) :
    c.usesSourceData = true ↔ ∃ l ∈ c.leaves, startsWith l.field "source_data." = true := by
  have hlist {cs : List ConditionNode}
      (ih : ∀ c ∈ cs, c.usesSourceData = true ↔ ∃ l ∈ c.leaves, startsWith l.field "source_data." = true) :
      anyUsesSourceData cs = true ↔ ∃ l ∈ leavesAll cs, startsWith l.field "source_data." = true := by
    rw [anyUsesSourceData_iff, leavesAll_eq]
    simp only [List.mem_flatMap]
    constructor
    · rintro ⟨c, hc, huses⟩
      obtain ⟨l, hl, hsource⟩ := (ih c hc).mp huses
      exact ⟨l, ⟨c, hc, hl⟩, hsource⟩
    · rintro ⟨l, ⟨c, hc, hl⟩, hsource⟩
      exact ⟨c, hc, (ih c hc).mpr ⟨l, hl, hsource⟩⟩
  induction c with
  | leaf l => simp [usesSourceData, leaves]
  | all cs ih => exact hlist ih
  | any cs ih => exact hlist ih
  | not_ c ih => exact ih

end ConditionNode

/-! ### Rules -/

/-- A text with a character that is no white space. -/
def NonBlank (s : String) : Prop := ∃ c ∈ s.toList, isSpace c = false

theorem strip_ne_empty {s : String} : strip s ≠ "" ↔ NonBlank s := by
  rw [ne_eq, strip_eq_empty, NonBlank]
  simp

/-- The members of a list as their texts. -/
def memberTexts {ε : Type} [StrEnum ε] (l : List ε) : Value := .list (l.map fun e => .str (StrEnum.value e))

/-- The grammar of rules: the items of the document are those of the rule. -/
structure RuleDocument (d : Dict) (f : RuleFields) : Prop where
  keys : ∀ k ∈ d.keys, k ∈ DetectionRule.fieldNames
  id : d.lookup "id" = some (.str f.id) ∧ slug.fullmatch f.id.toList = true
  version : d.lookup "version" = some (.int f.version)
  title : d.lookup "title" = some (.str f.title) ∧ NonBlank f.title
  description : d.lookup "description" = some (.str f.description) ∧ NonBlank f.description
  categories : d.lookup "categories" = some (memberTexts f.categories.val) ∧ f.categories.val.Nodup
  sources : f.sources = .unset ∧ d.lookup "sources" = none ∨
    ∃ l, f.sources = .set (some l) ∧ d.lookup "sources" = some (memberTexts l.val) ∧ l.val.Nodup
  condition : ∃ x, d.lookup "condition" = some x ∧ NodeDocument x f.condition.val
  bounds : f.condition.val.depth ≤ 8 ∧ f.condition.val.leaves.length ≤ 64
  scope : (∃ l ∈ f.condition.val.leaves, startsWith l.field "source_data." = true) →
    d.lookup "sources" ≠ none

theorem length_dedup_eq {α : Type} [DecidableEq α] {l : List α} : l.dedup.length = l.length ↔ l.Nodup := by
  rw [← List.dedup_eq_self]
  exact ⟨(List.dedup_sublist l).eq_of_length, fun h => by rw [h]⟩

/-- What `validate_rule` accepts. -/
theorem validateRule_iff {f : RuleFields} : validateRule f = ok () ↔
    slug.fullmatch f.id.toList = true ∧ (NonBlank f.title ∧ NonBlank f.description) ∧
      f.categories.val.Nodup ∧ f.sources ≠ .set none ∧ (∀ l, f.sources = .set (some l) → l.val.Nodup) ∧
      (f.condition.val.depth ≤ 8 ∧ f.condition.val.leaves.length ≤ 64) ∧
      ((∃ l ∈ f.condition.val.leaves, startsWith l.field "source_data." = true) →
        ∃ l, f.sources = .set (some l)) := by
  rw [validateRule, raiseFirst_eq_ok, ← strip_ne_empty, ← strip_ne_empty, ← length_dedup_eq,
    ← ConditionNode.usesSourceData_iff]
  cases hsources : f.sources with
  | unset => simp [RuleFields.sourceList, hsources, ConditionNode.measure_eq]
  | set o =>
    cases o with
    | none => simp [RuleFields.sourceList, hsources]
    | some l => simp [RuleFields.sourceList, hsources, ConditionNode.measure_eq, length_dedup_eq]

section Members

variable {ε : Type} [StrEnum ε] {x : Value}

/-- A list of members is read from the list of their texts. -/
theorem memberList_eq_ok (hx : x.IsDocument) {l : {l : List ε // 1 ≤ l.length}} :
    memberList ε x = ok l ↔ x = memberTexts l.val := by
  have hitems (items : List Value) (hitems : ∀ v ∈ items, v.IsDocument) (es : List ε) :
      List.Forall₂ (fun x e => enumOf ε false x = ok e) items es ↔
        items = es.map fun e => .str (StrEnum.value e) := by
    induction es generalizing items with
    | nil => exact List.forall₂_nil_right_iff
    | cons e es ih =>
      cases items with
      | nil => simp
      | cons v items =>
        rw [List.forall_mem_cons] at hitems
        rw [List.forall₂_cons, enumOf_eq_ok hitems.1, ih items hitems.2, List.map_cons, List.cons.injEq]
  rw [memberList, constrained_eq_ok, listOf_eq_ok, memberTexts]
  constructor
  · rintro ⟨items, rfl, h⟩
    rw [(hitems items (Value.isDocument_list.mp hx) l.val).mp h]
  · rintro rfl
    exact ⟨_, rfl, (hitems _ (Value.isDocument_list.mp hx) l.val).mpr rfl⟩

theorem nullable_memberList_eq_ok (hx : x.IsDocument) {o : Option {l : List ε // 1 ≤ l.length}} :
    nullable (memberList ε) x = ok o ↔
      x = .none ∧ o = none ∨ ∃ l, o = some l ∧ x = memberTexts l.val := by
  by_cases hnone : x = .none
  · subst hnone
    simp [nullable, memberTexts, eq_comm]
  · cases o with
    | none => simp [nullable_eq_none, hnone]
    | some l => simp [nullable_eq_some hnone, memberList_eq_ok hx, hnone]

end Members

namespace DetectionRule

section Read

variable {d : Dict} {f : RuleFields}

/-- An item of a document that is read by a declared type. -/
theorem requiredField_iff (hd : (Value.dict d).IsDocument) {α : Type} {name : String} {v : Validator α} {a : α}
    {y : Value} (hv : ∀ x : Value, x.IsDocument → (v x = ok a ↔ x = y)) :
    requiredField name v d = ok a ↔ d.lookup name = some y := by
  rw [requiredField_eq_ok]
  constructor
  · rintro ⟨x, hx, hread⟩
    rw [hx, (hv x (Value.isDocument_of_lookup hd hx)).mp hread]
  · exact fun h => ⟨y, h, (hv y (Value.isDocument_of_lookup hd h)).mpr rfl⟩

theorem sources_iff (hd : (Value.dict d).IsDocument) :
    optionalField "sources" (nullable (memberList EventSource)) d = ok f.sources ↔
      f.sources = .unset ∧ d.lookup "sources" = none ∨
        f.sources = .set none ∧ d.lookup "sources" = some .none ∨
        ∃ l, f.sources = .set (some l) ∧ d.lookup "sources" = some (memberTexts l.val) := by
  rw [optionalField_eq_ok]
  constructor
  · rintro (⟨hnone, hunset⟩ | ⟨x, o, hx, hread, hset⟩)
    · exact Or.inl ⟨hunset, hnone⟩
    · rcases (nullable_memberList_eq_ok (Value.isDocument_of_lookup hd hx)).mp hread with
        ⟨rfl, rfl⟩ | ⟨l, rfl, rfl⟩
      · exact Or.inr (Or.inl ⟨hset, hx⟩)
      · exact Or.inr (Or.inr ⟨l, hset, hx⟩)
  · rintro (⟨hunset, hnone⟩ | ⟨hset, hx⟩ | ⟨l, hset, hx⟩)
    · exact Or.inl ⟨hnone, hunset⟩
    · exact Or.inr ⟨_, _, hx, rfl, hset⟩
    · exact Or.inr ⟨_, _, hx,
        (nullable_memberList_eq_ok (Value.isDocument_of_lookup hd hx)).mpr (Or.inr ⟨l, rfl, rfl⟩), hset⟩

/-- The declared types read the items of the grammar. -/
theorem fields_iff (hd : (Value.dict d).IsDocument) : fields d = ok f ↔
    d.lookup "id" = some (.str f.id) ∧ d.lookup "version" = some (.int f.version) ∧
      d.lookup "title" = some (.str f.title) ∧ d.lookup "description" = some (.str f.description) ∧
      d.lookup "categories" = some (memberTexts f.categories.val) ∧
      (f.sources = .unset ∧ d.lookup "sources" = none ∨
        f.sources = .set none ∧ d.lookup "sources" = some .none ∨
        ∃ l, f.sources = .set (some l) ∧ d.lookup "sources" = some (memberTexts l.val)) ∧
      ∃ x, d.lookup "condition" = some x ∧ NodeDocument x f.condition.val := by
  have hcondition : requiredField "condition" ConditionNode.modelValidate d = ok f.condition ↔
      ∃ x, d.lookup "condition" = some x ∧ NodeDocument x f.condition.val := by
    rw [requiredField_eq_ok]
    refine exists_congr fun x => and_congr_right fun hx => ?_
    exact ConditionNode.modelValidate_iff (Value.isDocument_of_lookup hd hx)
  rw [fields_eq_ok, requiredField_iff hd fun x hx => strictStr_eq_ok hx,
    requiredField_iff hd fun x hx => constrained_eq_ok.trans (strictInt_eq_ok hx),
    requiredField_iff hd fun x hx => strictStr_eq_ok hx, requiredField_iff hd fun x hx => strictStr_eq_ok hx,
    requiredField_iff hd fun x hx => memberList_eq_ok hx, sources_iff hd, hcondition]

/-- A document of the grammar is read, and passes the validator of rules. -/
theorem ruleDocument_iff (hd : (Value.dict d).IsDocument) :
    RuleDocument d f ↔ fields d = ok f ∧ validateRule f = ok () ∧ ∀ k ∈ d.keys, k ∈ fieldNames := by
  rw [fields_iff hd, validateRule_iff]
  constructor
  · intro h
    -- `sources` is left out, null or a list; the validator of the rule excludes the null
    have hsources : f.sources = .unset ∧ d.lookup "sources" = none ∨
        f.sources = .set none ∧ d.lookup "sources" = some .none ∨
        ∃ l, f.sources = .set (some l) ∧ d.lookup "sources" = some (memberTexts l.val) := by
      rcases h.sources with hunset | ⟨l, hset, hlookup, -⟩
      · exact Or.inl hunset
      · exact Or.inr (Or.inr ⟨l, hset, hlookup⟩)
    refine ⟨⟨h.id.1, h.version, h.title.1, h.description.1, h.categories.1, hsources, h.condition⟩,
      ⟨h.id.2, ⟨h.title.2, h.description.2⟩, h.categories.2, ?_, ?_, h.bounds, ?_⟩, h.keys⟩
    · rcases h.sources with ⟨hunset, -⟩ | ⟨l, hset, -, -⟩
      · simp [hunset]
      · simp [hset]
    · rcases h.sources with ⟨hunset, -⟩ | ⟨l, hset, -, hnodup⟩
      · simp [hunset]
      · rintro l' hset'
        rw [hset] at hset'
        cases hset'
        exact hnodup
    · intro hscope
      rcases h.sources with ⟨-, hnone⟩ | ⟨l, hset, -, -⟩
      · exact absurd hnone (h.scope hscope)
      · exact ⟨l, hset⟩
  · rintro ⟨⟨hid, hversion, htitle, hdescription, hcategories, hsources, hcondition⟩,
      ⟨hslug, ⟨hblank, hblank'⟩, hnodup, hnotNone, hnodup', hbounds, hscope⟩, hkeys⟩
    refine ⟨hkeys, ⟨hid, hslug⟩, hversion, ⟨htitle, hblank⟩, ⟨hdescription, hblank'⟩, ⟨hcategories, hnodup⟩,
      ?_, hcondition, hbounds, ?_⟩
    · rcases hsources with hunset | ⟨hnone, -⟩ | ⟨l, hset, hlookup⟩
      · exact Or.inl hunset
      · exact absurd hnone hnotNone
      · exact Or.inr ⟨l, hset, hlookup, hnodup' l hset⟩
    · intro huses
      obtain ⟨l, hset⟩ := hscope huses
      rcases hsources with ⟨hunset, -⟩ | ⟨hnone, -⟩ | ⟨l', -, hlookup⟩
      · rw [hset] at hunset
        cases hunset
      · exact absurd hnone hnotNone
      · rw [hlookup]
        exact Option.some_ne_none _

/-- **The reader of rules reads the grammar of rules.** -/
theorem modelValidate_iff {x : Value} (hx : x.IsDocument) {rule : DetectionRule} :
    modelValidate x = ok rule ↔ ∃ d, x = .dict d ∧ RuleDocument d rule.toRuleFields := by
  rw [modelValidate_eq_ok]
  refine exists_congr fun d => and_congr_right ?_
  rintro rfl
  rw [ruleDocument_iff hx]
  exact ⟨fun h => ⟨h.1, rule.valid, h.2⟩, fun h => ⟨h.1, h.2.2⟩⟩

end Read

end DetectionRule

/-! ### The round trip -/

section RoundTrip

theorem eq_memberTexts {ε : Type} [StrEnum ε] (l : List ε) :
    (dumpMembers l).eq (memberTexts l) = true := by
  rw [dumpMembers, memberTexts, Value.eq]
  refine Value.eqList_of_forall₂ ?_
  rw [List.forall₂_map_left_iff, List.forall₂_map_right_iff, List.forall₂_same]
  intro e _
  simp [StrEnum.toValue, Value.eq]

/-- **A node dumps to its document.** -/
theorem ConditionNode.eq_dumpByAlias {x : Value} {c : ConditionNode} (hx : x.IsDocument)
    (h : NodeDocument x c) : c.dumpByAlias.eq x = true := by
  have hlist {items : List Value} {cs : List ConditionNode} (hdocs : (Value.list items).IsDocument)
      (hitems : List.Forall₂ NodeDocument items cs)
      (ih : ∀ c ∈ cs, ∀ {x : Value}, x.IsDocument → NodeDocument x c → c.dumpByAlias.eq x = true) :
      Value.eqList (cs.map dumpByAlias) items = true := by
    refine Value.eqList_of_forall₂ ?_
    rw [List.forall₂_map_left_iff, List.forall₂_iff_zip]
    refine ⟨hitems.length_eq.symm, fun hmem => ?_⟩
    obtain ⟨hnode, hitem⟩ := List.of_mem_zip hmem
    exact ih _ hnode (Value.isDocument_list.mp hdocs _ hitem)
      ((List.forall₂_iff_zip.mp hitems.flip).2 hmem)
  have hop (op : DetectionOperator) :
      (StrEnum.toValue op).eq (.str (StrEnum.value op)) = true := by
    simp [StrEnum.toValue, Value.eq]
  induction c generalizing x with
  | leaf l =>
    cases h with
    | @comparison d field op v valid hpath hshape hperm =>
      have hplain : v.Plain := plain_of_validOperand (validOperand_of_operandShape hshape).1
      refine Value.eq_dict_of_perm (Value.isDocument_dict.mp hx).1 hperm (.cons ⟨rfl, by simp [Value.eq]⟩
        (.cons ⟨rfl, hop op⟩ (.cons ⟨rfl, ?_⟩ .nil)))
      show v.dump.eq v = true
      rw [hplain.1]
      exact hplain.2
    | @existence d field op valid hpath _ hperm =>
      exact Value.eq_dict_of_perm (Value.isDocument_dict.mp hx).1 hperm (.cons ⟨rfl, by simp [Value.eq]⟩
        (.cons ⟨rfl, hop op⟩ .nil))
  | all cs ih =>
    cases h with
    | all hne hitems =>
      have heq := hlist (Value.isDocument_singleton.mp hx) hitems ih
      simp [dumpByAlias, dumpAllByAlias_eq_map, Value.eq, Value.eqItems, heq]
  | any cs ih =>
    cases h with
    | any hne hitems =>
      have heq := hlist (Value.isDocument_singleton.mp hx) hitems ih
      simp [dumpByAlias, dumpAllByAlias_eq_map, Value.eq, Value.eqItems, heq]
  | not_ c ih =>
    cases h with
    | not_ hy =>
      have heq := ih (Value.isDocument_singleton.mp hx) hy
      simp [dumpByAlias, Value.eq, Value.eqItems, heq]

/-- **A rule dumps to its document.** -/
theorem RuleFields.eq_dumpByAlias {d : Dict} {f : RuleFields} (hd : (Value.dict d).IsDocument)
    (h : RuleDocument d f) : f.dumpByAlias.eq (.dict d) = true := by
  have hnodup := (Value.isDocument_dict.mp hd).1
  obtain ⟨x, hx, hnode⟩ := h.condition
  have hcondition := ConditionNode.eq_dumpByAlias (Value.isDocument_of_lookup hd hx) hnode
  have hstr (s : String) : (Value.str s).eq (.str s) = true := by simp [Value.eq]
  have hint (n : Int) : (Value.int n).eq (.int n) = true := by simp [Value.eq]
  rcases h.sources with ⟨hunset, hnone⟩ | ⟨l, hset, hlookup, -⟩
  · have hperm : d.Perm [("id", .str f.id), ("version", .int f.version), ("title", .str f.title),
        ("description", .str f.description), ("categories", memberTexts f.categories.val),
        ("condition", x)] := by
      refine Value.perm_of_lookup hnodup (by simp) ?_ fun k hk => ?_
      · simp [h.id.1, h.version, h.title.1, h.description.1, h.categories.1, hx]
      · have hkey := h.keys k hk
        have hsources : k ≠ "sources" := by
          rintro rfl
          obtain ⟨p, hp, hname⟩ := List.mem_map.mp hk
          simpa [hname] using List.lookup_eq_none_iff.mp hnone p hp
        simpa [DetectionRule.fieldNames, hsources] using hkey
    rw [RuleFields.dumpByAlias, hunset]
    exact Value.eq_dict_of_perm hnodup hperm (.cons ⟨rfl, hstr _⟩ (.cons ⟨rfl, hint _⟩ (.cons ⟨rfl, hstr _⟩
      (.cons ⟨rfl, hstr _⟩ (.cons ⟨rfl, eq_memberTexts _⟩ (.cons ⟨rfl, hcondition⟩ .nil))))))
  · have hperm : d.Perm [("id", .str f.id), ("version", .int f.version), ("title", .str f.title),
        ("description", .str f.description), ("categories", memberTexts f.categories.val),
        ("sources", memberTexts l.val), ("condition", x)] := by
      refine Value.perm_of_lookup hnodup (by simp) ?_ h.keys
      simp [h.id.1, h.version, h.title.1, h.description.1, h.categories.1, hlookup, hx]
    rw [RuleFields.dumpByAlias, hset]
    exact Value.eq_dict_of_perm hnodup hperm (.cons ⟨rfl, hstr _⟩ (.cons ⟨rfl, hint _⟩ (.cons ⟨rfl, hstr _⟩
      (.cons ⟨rfl, hstr _⟩ (.cons ⟨rfl, eq_memberTexts _⟩ (.cons ⟨rfl, eq_memberTexts _⟩
        (.cons ⟨rfl, hcondition⟩ .nil)))))))

end RoundTrip

/-- **The rule language is parsed exactly and without loss**: the documents that are accepted are those of
the grammar, each of their nodes is read by exactly one class as the condition that the grammar gives it, and
the rule dumps to the document. -/
theorem rule_language_exact (doc : {x : Value // x.IsDocument}) :
    ((∃ rule, DetectionRule.modelValidate doc.val = ok rule) ↔
        ∃ d f, doc.val = .dict d ∧ RuleDocument d f) ∧
      (∀ rule, DetectionRule.modelValidate doc.val = ok rule →
        (∃ d, doc.val = .dict d ∧ RuleDocument d rule.toRuleFields) ∧
          rule.dumpByAlias.eq doc.val = true) ∧
      ∀ (node : {x : Value // x.IsDocument}) (c : ConditionNode), NodeDocument node.val c → ∃ cls w,
        ConditionNode.nodeClasses.filter (fun cls => (cls node.val).toOption.isSome) = [cls] ∧
          cls node.val = ok w ∧ w.val = c := by
  obtain ⟨x, hx⟩ := doc
  refine ⟨⟨?_, ?_⟩, fun rule hrule => ?_, fun node c hc => ?_⟩
  · rintro ⟨rule, hrule⟩
    obtain ⟨d, hd, hdoc⟩ := (DetectionRule.modelValidate_iff hx).mp hrule
    exact ⟨d, _, hd, hdoc⟩
  · rintro ⟨d, f, rfl, hdoc⟩
    exact ⟨⟨f, ((DetectionRule.ruleDocument_iff hx).mp hdoc).2.1⟩,
      (DetectionRule.modelValidate_iff hx).mpr ⟨d, rfl, hdoc⟩⟩
  · obtain ⟨d, rfl, hdoc⟩ := (DetectionRule.modelValidate_iff hx).mp hrule
    exact ⟨⟨d, rfl, hdoc⟩, RuleFields.eq_dumpByAlias hx hdoc⟩
  · obtain ⟨cls, hcls, hok⟩ := ConditionNode.exists_nodeClass
      (ConditionNode.modelValidate_of_nodeDocument node.property hc
        (ConditionNode.wellFormed_of_nodeDocument hc))
    exact ⟨cls, _, hcls, hok, rfl⟩

/-- A rule document with its items in another order than the fields, nested and with retained text. -/
example : (DetectionRule.modelValidate (.dict
    [("condition", .dict [("all", .list [.dict [("op", .str "exists"), ("field", .str "context.user")],
        .dict [("not", .dict [("field", .str "source_data.Image"), ("op", .str "in"),
          ("value", .list [.str "a", .str "b"])])]])]),
      ("id", .str "example-rule"), ("version", .int 1), ("title", .str "t"), ("description", .str "d"),
      ("categories", .list [.str "process"]), ("sources", .list [.str "sysmon"])])).toOption.isSome = true := by
  decide

end SocLab
