import SocLab.Detection.Composition
import SocLab.Detection.LoadCheck
import SocLab.Detection.RuleYaml
import SocLab.Models.RuleDocument

/-!
# SocLab.Detection.RuleFile — the texts that are rule files

From the text of a file to the rule: the guard of the YAML, the grammar of rules and the semantic check together.

* `RuleText`: the texts of rules, stated without the code of the loader.
* `loadFile_iff`: a file gives a rule exactly when its text is one of a rule that evaluates on every event.
* `library_language`: a library loads with these rules exactly when its files are their texts, in order.
-/

namespace Py.Value

mutual

/-- Made of what the standard constructors give for plain scalars: no member of an enumeration, no instance of
a model, and no object that counts as a text or a number. -/
def IsData : Value → Prop
  | .enum _ _ | .model _ _ _ => False
  | .object o => o.Inert
  | .list items => AllData items
  | .dict items => (items.map (·.1)).Nodup ∧ AllItemData items
  | _ => True

def AllData : List Value → Prop
  | [] => True
  | v :: vs => IsData v ∧ AllData vs

def AllItemData : List (String × Value) → Prop
  | [] => True
  | (_, v) :: d => IsData v ∧ AllItemData d

end

theorem isData_list {items : List Value} : IsData (.list items) ↔ ∀ v ∈ items, IsData v := by
  show AllData items ↔ _
  induction items with
  | nil => simp [AllData]
  | cons v vs ih => simp [AllData, ih]

theorem isData_dict {d : Dict} : IsData (.dict d) ↔ (d.map (·.1)).Nodup ∧ ∀ p ∈ d, IsData p.2 := by
  have hitems : AllItemData d ↔ ∀ p ∈ d, IsData p.2 := by
    induction d with
    | nil => simp [AllItemData]
    | cons p d ih =>
      obtain ⟨k, v⟩ := p
      simp [AllItemData, ih]
  show (d.map (·.1)).Nodup ∧ AllItemData d ↔ _
  rw [hitems]

theorem isData_of_lookup {d : Dict} (hd : IsData (.dict d)) {name : String} {v : Value}
    (h : d.lookup name = some v) : IsData v := (isData_dict.mp hd).2 _ (mem_of_lookup h)

/-- A dict with known keys is a document when its items are. -/
theorem isDocument_of_keys {d : Dict} (hd : IsData (.dict d)) {names : List String}
    (hkeys : ∀ k ∈ d.keys, k ∈ names) (h : ∀ k ∈ names, ∀ v, d.lookup k = some v → IsDocument v) :
    IsDocument (.dict d) := by
  have hnodup := (isData_dict.mp hd).1
  refine isDocument_dict.mpr ⟨hnodup, fun p hp => ?_⟩
  exact h p.1 (hkeys p.1 (List.mem_map_of_mem hp)) p.2 (lookup_of_mem hnodup hp)

end Py.Value

namespace SocLab

open Py Py.Validation Py.Yaml Logic

/-! ### What is validated was a document -/

section Documents

variable {x : Value}

theorem isDocument_of_strictStr {s : String} (hx : x.IsData) (h : strictStr x = ok s) : x.IsDocument := by
  cases x with
  | str t => trivial
  | enum cls t => exact hx.elim
  | object o =>
    rw [strictStr, Foreign.Inert.text hx] at h
    cases h
  | _ => cases h

theorem isDocument_of_strictInt {n : Int} (hx : x.IsData) (h : strictInt x = ok n) : x.IsDocument := by
  cases x with
  | int m => trivial
  | object o =>
    rw [strictInt, Foreign.Inert.number hx] at h
    cases h
  | _ => cases h

theorem isDocument_of_enumOf {ε : Type} [StrEnum ε] (hx : x.IsData) {e : ε} (h : enumOf ε false x = ok e) :
    x.IsDocument := by
  cases x with
  | str t => trivial
  | enum cls t => exact hx.elim
  | object o =>
    simp [enumOf, StrEnum.ofMember?, memberText, Foreign.Inert.member hx, error] at h
  | _ => cases h

theorem isDocument_of_memberList {ε : Type} [StrEnum ε] {l : {l : List ε // 1 ≤ l.length}} (hx : x.IsData)
    (h : memberList ε x = ok l) : x.IsDocument := by
  obtain ⟨items, rfl, hitems⟩ := listOf_eq_ok.mp (constrained_eq_ok.mp h)
  refine Value.isDocument_list.mpr fun v hv => ?_
  obtain ⟨e, -, he⟩ := exists_of_forall₂ hitems v hv
  exact isDocument_of_enumOf (Value.isData_list.mp hx v hv) he

theorem isDocument_of_operandShape {op : DetectionOperator} {v : Value} (h : OperandShape op v) :
    v.IsDocument := by
  cases h with
  | text hop => trivial
  | number hop => trivial
  | texts hop hne => simp
  | numbers hop hne => simp

/-- A leaf was read from a document. -/
theorem isDocument_of_leafClass {w : WellFormedNode} (hx : x.IsData) (h : ConditionNode.leafClass x = ok w) :
    x.IsDocument := by
  obtain ⟨l, hl, rfl⟩ := map_eq_ok.mp h
  obtain ⟨⟨field, op, value⟩, hf, hinit⟩ := after_eq_ok.mp hl
  obtain ⟨d, rfl, hfields, hkeys⟩ := modelDict_eq_ok.mp hf
  simp only [LeafCondition.fields, seq_eq_ok, map_eq_ok] at hfields
  obtain ⟨_, _, ⟨_, _, ⟨_, hfield, rfl⟩, hop, rfl⟩, hvalue, heq⟩ := hfields
  obtain ⟨rfl, rfl, rfl⟩ : _ ∧ _ ∧ _ := by simpa using heq
  refine Value.isDocument_of_keys hx hkeys fun k hk v hv => ?_
  have hdata := Value.isData_of_lookup hx hv
  simp only [LeafCondition.fieldNames, List.mem_cons, List.not_mem_nil, or_false] at hk
  rcases hk with rfl | rfl | rfl
  · obtain ⟨y, hy, hread⟩ := requiredField_eq_ok.mp hfield
    obtain rfl := Option.some.inj (hv.symm.trans hy)
    exact isDocument_of_strictStr hdata hread
  · obtain ⟨y, hy, hread⟩ := requiredField_eq_ok.mp hop
    obtain rfl := Option.some.inj (hv.symm.trans hy)
    exact isDocument_of_enumOf hdata hread
  · obtain ⟨a, hset, hread⟩ := (optionalField_eq_ok_of_lookup hv).mp hvalue
    cases hread
    obtain ⟨-, -, hvalue⟩ := LeafCondition.init_eq_ok.mp hinit
    obtain ⟨-, hoperand⟩ := validateLeaf_iff.mp l.valid
    rcases hoperand with ⟨hunset, -⟩ | ⟨v', hset', hshape⟩
    · rw [hunset, hset] at hvalue
      cases hvalue
    · rw [hset', hset] at hvalue
      cases hvalue
      exact isDocument_of_operandShape hshape

/-- A class with one key reads a document when the value of the key is one. -/
theorem isDocument_of_member {key : String} {d : Dict} (hx : (Value.dict d).IsData)
    (hkeys : ∀ k ∈ d.keys, k ∈ [key]) (h : ∀ v, d.lookup key = some v → v.IsDocument) :
    (Value.dict d).IsDocument := by
  refine Value.isDocument_of_keys hx hkeys fun k hk v hv => ?_
  rw [List.mem_singleton.mp hk] at hv
  exact h v hv

/-- The members of a list of nodes are documents when each is. -/
theorem isDocument_of_nodeList {key : String} {d : Dict} {l : NodeList} (hx : (Value.dict d).IsData)
    (hkeys : ∀ k ∈ d.keys, k ∈ [key]) (hl : requiredField key ConditionNode.nodeList d = ok l)
    (h : ∀ x : Value, x.IsData → ∀ w ∈ l.val, ConditionNode.modelValidate x = ok w → x.IsDocument) :
    (Value.dict d).IsDocument := by
  refine isDocument_of_member hx hkeys fun v hv => ?_
  obtain ⟨y, hy, hlist⟩ := requiredField_eq_ok.mp hl
  obtain rfl := Option.some.inj (hv.symm.trans hy)
  obtain ⟨items, rfl, hitems⟩ := listOf_eq_ok.mp (constrained_eq_ok.mp hlist)
  have hdata := Value.isData_list.mp (Value.isData_of_lookup hx hv)
  refine Value.isDocument_list.mpr fun item hitem => ?_
  obtain ⟨w, hw, hread⟩ := exists_of_forall₂ hitems item hitem
  exact h item (hdata item hitem) w hw hread

/-- How a node is read, without what it is read from being a document. -/
theorem classes_of_modelValidate {w : WellFormedNode} (h : ConditionNode.modelValidate x = ok w) :
    ConditionNode.leafClass x = ok w ∨
      (∃ d l, x = .dict d ∧ (∀ k ∈ Dict.keys d, k ∈ ["all"]) ∧
        requiredField "all" ConditionNode.nodeList d = ok l ∧ w.val = .all (NodeList.nodes l)) ∨
      (∃ d l, x = .dict d ∧ (∀ k ∈ Dict.keys d, k ∈ ["any"]) ∧
        requiredField "any" ConditionNode.nodeList d = ok l ∧ w.val = .any (NodeList.nodes l)) ∨
      ∃ d v, x = .dict d ∧ (∀ k ∈ Dict.keys d, k ∈ ["not"]) ∧
        requiredField "not" ConditionNode.modelValidate d = ok v ∧ w.val = .not_ v.val := by
  obtain ⟨cls, hmem, hcls⟩ := ConditionNode.mem_nodeClasses_of_ok h
  simp only [ConditionNode.nodeClasses, List.mem_cons, List.not_mem_nil, or_false] at hmem
  rcases hmem with rfl | rfl | rfl | rfl
  · exact Or.inl hcls
  · obtain ⟨l, hl, rfl⟩ := map_eq_ok.mp hcls
    obtain ⟨d, rfl, hfield, hkeys⟩ := modelDict_eq_ok.mp hl
    exact Or.inr (Or.inl ⟨d, l, rfl, hkeys, hfield, rfl⟩)
  · obtain ⟨l, hl, rfl⟩ := map_eq_ok.mp hcls
    obtain ⟨d, rfl, hfield, hkeys⟩ := modelDict_eq_ok.mp hl
    exact Or.inr (Or.inr (Or.inl ⟨d, l, rfl, hkeys, hfield, rfl⟩))
  · obtain ⟨v, hv, rfl⟩ := map_eq_ok.mp hcls
    obtain ⟨d, rfl, hfield, hkeys⟩ := modelDict_eq_ok.mp hv
    exact Or.inr (Or.inr (Or.inr ⟨d, v, rfl, hkeys, hfield, rfl⟩))

/-- **A condition was read from a document.** -/
theorem isDocument_of_node {w : WellFormedNode} (hx : x.IsData) (h : ConditionNode.modelValidate x = ok w) :
    x.IsDocument := by
  obtain ⟨c, hc⟩ := w
  induction c generalizing x with
  | leaf l =>
    rcases classes_of_modelValidate h with hleaf | ⟨_, _, _, _, _, hw⟩ | ⟨_, _, _, _, _, hw⟩ | ⟨_, _, _, _, _, hw⟩
    · exact isDocument_of_leafClass hx hleaf
    all_goals cases hw
  | all cs ih =>
    rcases classes_of_modelValidate h with hleaf | ⟨d, l, rfl, hkeys, hfield, hw⟩ | ⟨_, _, _, _, _, hw⟩ |
      ⟨_, _, _, _, _, hw⟩
    · exact isDocument_of_leafClass hx hleaf
    · cases hw
      exact isDocument_of_nodeList hx hkeys hfield fun y hy w hw => ih w.val (List.mem_map_of_mem hw) hy w.property
    all_goals cases hw
  | any cs ih =>
    rcases classes_of_modelValidate h with hleaf | ⟨_, _, _, _, _, hw⟩ | ⟨d, l, rfl, hkeys, hfield, hw⟩ |
      ⟨_, _, _, _, _, hw⟩
    · exact isDocument_of_leafClass hx hleaf
    · cases hw
    · cases hw
      exact isDocument_of_nodeList hx hkeys hfield fun y hy w hw => ih w.val (List.mem_map_of_mem hw) hy w.property
    · cases hw
  | not_ c ih =>
    rcases classes_of_modelValidate h with hleaf | ⟨_, _, _, _, _, hw⟩ | ⟨_, _, _, _, _, hw⟩ |
      ⟨d, v, rfl, hkeys, hfield, hw⟩
    · exact isDocument_of_leafClass hx hleaf
    · cases hw
    · cases hw
    · cases hw
      refine isDocument_of_member hx hkeys fun y hy => ?_
      obtain ⟨y', hy', hread⟩ := requiredField_eq_ok.mp hfield
      obtain rfl := Option.some.inj (hy.symm.trans hy')
      exact ih (Value.isData_of_lookup hx hy) v.property hread

/-- The value of a required field is a document when its type reads only documents. -/
theorem isDocument_of_requiredField {α : Type} {name : String} {v : Validator α} {d : Dict} {a : α} {y : Value}
    (hx : (Value.dict d).IsData) (h : requiredField name v d = ok a) (hy : d.lookup name = some y)
    (hv : y.IsData → v y = ok a → y.IsDocument) : y.IsDocument := by
  obtain ⟨y', hy', hread⟩ := requiredField_eq_ok.mp h
  obtain rfl := Option.some.inj (hy.symm.trans hy')
  exact hv (Value.isData_of_lookup hx hy) hread

/-- **A rule was read from a document.** -/
theorem isDocument_of_rule {rule : DetectionRule} (hx : x.IsData)
    (h : DetectionRule.modelValidate x = ok rule) : x.IsDocument := by
  obtain ⟨d, rfl, hfields, hkeys⟩ := DetectionRule.modelValidate_eq_ok.mp h
  obtain ⟨hid, hversion, htitle, hdescription, hcategories, hsources, hcondition⟩ :=
    DetectionRule.fields_eq_ok.mp hfields
  refine Value.isDocument_of_keys hx hkeys fun k hk y hy => ?_
  simp only [DetectionRule.fieldNames, List.mem_cons, List.not_mem_nil, or_false] at hk
  rcases hk with rfl | rfl | rfl | rfl | rfl | rfl | rfl
  · exact isDocument_of_requiredField hx hid hy isDocument_of_strictStr
  · exact isDocument_of_requiredField hx hversion hy fun hdata hread =>
      isDocument_of_strictInt hdata (constrained_eq_ok.mp hread)
  · exact isDocument_of_requiredField hx htitle hy isDocument_of_strictStr
  · exact isDocument_of_requiredField hx hdescription hy isDocument_of_strictStr
  · exact isDocument_of_requiredField hx hcategories hy isDocument_of_memberList
  · obtain ⟨o, -, hread⟩ := (optionalField_eq_ok_of_lookup hy).mp hsources
    by_cases hnone : y = .none
    · rw [hnone]
      trivial
    · cases o with
      | none => exact absurd (nullable_eq_none.mp hread) hnone
      | some l => exact isDocument_of_memberList (Value.isData_of_lookup hx hy) ((nullable_eq_some hnone).mp hread)
  · exact isDocument_of_requiredField hx hcondition hy isDocument_of_node

end Documents

/-! ### The document of a text -/

section Construct

variable {scalar : String → String → Except Exc Value}

/-- With good keys at every depth one value is constructed. -/
theorem constructs_unique (hstr : ∀ value, scalar strTag value = .ok (.str value)) {node : Node} {v v' : Value}
    (hgood : ∀ tag pairs, .mapping tag pairs ∈ node.nodes → GoodKeys pairs) (h : Constructs scalar node v)
    (h' : Constructs scalar node v') : v = v' := by
  induction node generalizing v v' with
  | scalar tag value => exact Except.ok.inj (h.symm.trans h')
  | sequence tag items ih =>
    obtain ⟨vs, rfl, hvs⟩ := h
    obtain ⟨vs', rfl, hvs'⟩ := h'
    refine congrArg Value.list (eq_of_forall₂ (fun n hn w w' => ?_) ((constructsList_iff scalar).mp hvs)
      ((constructsList_iff scalar).mp hvs'))
    refine ih n hn fun tag' pairs hmem => hgood tag' pairs ?_
    exact List.mem_cons_of_mem _ (Node.mem_nodesList.mpr ⟨n, hn, hmem⟩)
  | mapping tag pairs ih =>
    obtain ⟨entries, hentries, hdict⟩ := h
    obtain ⟨entries', hentries', hdict'⟩ := h'
    obtain ⟨keys, hkeys, -, -⟩ := hgood tag pairs (Node.mem_nodes_self _)
    have hpairs := (constructsPairs_iff scalar).mp hentries
    obtain rfl : entries = entries' := by
      refine eq_of_forall₂ (fun p hp e e' he he' => ?_) hpairs ((constructsPairs_iff scalar).mp hentries')
      have hbelow {n : Node} (hn : n ∈ p.1.nodes ∨ n ∈ p.2.nodes) : n ∈ (Node.mapping tag pairs).nodes :=
        List.mem_cons_of_mem _ (Node.mem_nodesPairs.mpr ⟨p, hp, hn⟩)
      have hkey := (ih p hp).1 (fun tag' ps hmem => hgood tag' ps (hbelow (Or.inl hmem))) he.1 he'.1
      have hvalue := (ih p hp).2 (fun tag' ps hmem => hgood tag' ps (hbelow (Or.inr hmem))) he.2 he'.2
      exact Prod.ext hkey hvalue
    obtain ⟨items, hitems, -, -⟩ := exists_items hstr hkeys hpairs
    rw [hdict items hitems, hdict' items hitems]

/-- What is constructed of data is data. -/
theorem isData_of_constructs (hstr : ∀ value, scalar strTag value = .ok (.str value))
    {node : Node} {v : Value}
    (hdata : ∀ tag value, .scalar tag value ∈ node.nodes → ∀ w, scalar tag value = .ok w → w.IsData)
    (hgood : ∀ tag pairs, .mapping tag pairs ∈ node.nodes → GoodKeys pairs) (h : Constructs scalar node v) :
    v.IsData := by
  induction node generalizing v with
  | scalar tag value => exact hdata tag value (Node.mem_nodes_self _) v h
  | sequence tag items ih =>
    obtain ⟨vs, rfl, hvs⟩ := h
    refine Value.isData_list.mpr fun w hw => ?_
    obtain ⟨n, hn, hconstructs⟩ := exists_of_forall₂ ((constructsList_iff scalar).mp hvs).flip w hw
    have hbelow {m : Node} (hm : m ∈ n.nodes) : m ∈ (Node.sequence tag items).nodes :=
      List.mem_cons_of_mem _ (Node.mem_nodesList.mpr ⟨n, hn, hm⟩)
    exact ih n hn (fun tag' value hmem => hdata tag' value (hbelow hmem))
      (fun tag' pairs hmem => hgood tag' pairs (hbelow hmem)) hconstructs
  | mapping tag pairs ih =>
    obtain ⟨entries, hentries, hdict⟩ := h
    obtain ⟨keys, hkeys, -, hnodup⟩ := hgood tag pairs (Node.mem_nodes_self _)
    obtain ⟨items, rfl, hitems, hpairs⟩ := exists_items hstr hkeys ((constructsPairs_iff scalar).mp hentries)
    have hitemsNodup : (items.map (·.1)).Nodup := by rwa [hitems]
    rw [hdict items rfl, assigned_of_nodup hitemsNodup]
    refine Value.isData_dict.mpr ⟨hitemsNodup, fun q hq => ?_⟩
    obtain ⟨p, hp, -, hvalue⟩ := exists_of_forall₂ hpairs.flip q hq
    have hbelow {m : Node} (hm : m ∈ p.2.nodes) : m ∈ (Node.mapping tag pairs).nodes :=
      List.mem_cons_of_mem _ (Node.mem_nodesPairs.mpr ⟨p, hp, Or.inr hm⟩)
    exact (ih p hp).2 (fun tag' value hmem => hdata tag' value (hbelow hmem))
      (fun tag' ps hmem => hgood tag' ps (hbelow hmem)) hvalue

end Construct

/-! ### The texts of rules -/

/-- The scalars of a text without aliases, anchors and tags are constructed as data.  The standard resolvers give
such scalars no tag but those of null, Booleans, numbers, strings and timestamps, and the constructors of these give
`None`, Booleans, integers, floats, texts, dates and datetimes. -/
def PlainScalars (lib : SafeLoader) : Prop :=
  ∀ content root, (∀ event ∈ (lib.parse content).1, ¬ Forbidden event) → lib.compose content = .ok (some root) →
    ∀ tag value, .scalar tag value ∈ root.nodes → ∀ v, lib.scalar tag value = .ok v → v.IsData

/-- The text is one of the rule: no alias, anchor or tag, keys that are different texts at every depth, and a
document of the grammar. -/
structure RuleText (lib : SafeLoader) (content : String) (rule : DetectionRule) : Prop where
  events : ∀ event ∈ (lib.parse content).1, ¬ Forbidden event
  document : ∃ root d, lib.compose content = .ok (some root) ∧ (∀ node ∈ root.nodes, Passes lib node) ∧
    Constructs lib.scalar root (.dict d) ∧ (Value.dict d).IsDocument ∧ RuleDocument d rule.toRuleFields

section Text

variable {lib : SafeLoader} {content : String} {root : Node} {rule : DetectionRule}

theorem goodKeys_of_passes (h : ∀ node ∈ root.nodes, Passes lib node) :
    ∀ tag pairs, .mapping tag pairs ∈ root.nodes → GoodKeys pairs := fun _ _ hmem => h _ hmem

/-- The document of a graph whose nodes all pass. -/
theorem construct_eq_ok {v : Value} (hpasses : ∀ node ∈ root.nodes, Passes lib node) :
    lib.construct (checkKeys []) root = .ok v ↔ Constructs lib.scalar root v := by
  constructor
  · exact lib.construct_ok _ root v
  · intro h
    cases hc : lib.construct (checkKeys []) root with
    | ok v' =>
      have hv' := lib.construct_ok _ root v' hc
      rw [constructs_unique lib.scalar_str (goodKeys_of_passes hpasses) hv' h]
    | error e =>
      obtain ⟨node, hnode, herror⟩ := exists_of_mapM_error ((lib.construct_error _ root e).mp hc)
      have hpass := visit_eq_ok.mpr (hpasses node ((lib.mem_order root node).mp hnode))
      cases hpass.symm.trans herror

/-- A text is read to a dict when its events pass, its nodes do, and the dict is constructed. -/
theorem readDocument_eq_dict {d : Dict} : readDocument lib content = .ok (.dict d) ↔
    (∀ event ∈ (lib.parse content).1, ¬ Forbidden event) ∧ ∃ root, lib.compose content = .ok (some root) ∧
      (∀ node ∈ root.nodes, Passes lib node) ∧ Constructs lib.scalar root (.dict d) := by
  constructor
  · intro h
    rcases checkEvents_eq (lib.parse content).1 with ⟨hok, hevents⟩ | ⟨herror, -⟩
    · refine ⟨hevents, ?_⟩
      rw [readDocument, hok, ok_bind] at h
      split at h
      · cases h
      · obtain ⟨o, hcompose, h⟩ := bind_eq_ok.mp h
        cases o with
        | none => cases h
        | some root =>
          have hpasses := passes_of_construct h
          exact ⟨root, hcompose, hpasses, (construct_eq_ok hpasses).mp h⟩
    · rw [readDocument, herror] at h
      cases h
  · intro h
    obtain ⟨hevents, root, hcompose, hpasses, hconstructs⟩ := h
    rw [readDocument_eq hevents hcompose]
    exact (construct_eq_ok hpasses).mpr hconstructs

theorem RuleDocument.ne_nil {d : Dict} {f : RuleFields} (h : RuleDocument d f) : d ≠ [] := by
  intro hnil
  have hid := h.id.1
  rw [hnil] at hid
  cases hid

/-- **What is read of a text is the rule that it is one of.** -/
theorem readRule_iff (hdata : PlainScalars lib) :
    readRule lib content = .ok rule ↔ RuleText lib content rule := by
  constructor
  · intro h
    unfold readRule at h
    split at h
    · split_ifs at h
    · next item items hdocument =>
      split at h
      · next rule' hread =>
        cases h
        obtain ⟨hevents, root, hcompose, hpasses, hconstructs⟩ := readDocument_eq_dict.mp hdocument
        have hvalue := isData_of_constructs lib.scalar_str (hdata content root hevents hcompose)
          (goodKeys_of_passes hpasses) hconstructs
        have hdoc := isDocument_of_rule hvalue hread
        obtain ⟨d, hd, hrule⟩ := (DetectionRule.modelValidate_iff hdoc).mp hread
        cases hd
        exact ⟨hevents, root, _, hcompose, hpasses, hconstructs, hdoc, hrule⟩
      · cases h
      · cases h
    · cases h
  · intro h
    obtain ⟨root, d, hcompose, hpasses, hconstructs, hdoc, hrule⟩ := h.document
    have hdocument := readDocument_eq_dict.mpr ⟨h.events, root, hcompose, hpasses, hconstructs⟩
    have hread := (DetectionRule.modelValidate_iff hdoc).mpr ⟨d, rfl, hrule⟩
    obtain ⟨item, items, rfl⟩ := List.exists_cons_of_ne_nil hrule.ne_nil
    rw [readRule, hdocument]
    dsimp only
    rw [hread]

/-- **A file gives a rule** when it is a regular file with the text of one that evaluates on every event. -/
theorem loadFile_iff (hdata : PlainScalars lib) {fs : FileSystem}
    {base path : Path} : loadFile fs (readRule lib) base path = .ok rule ↔
      ∃ content, HasText fs base path content ∧ RuleText lib content rule ∧ rule.Total := by
  constructor
  · intro h
    -- the semantic check passes exactly when the rule evaluates on every event
    have htotal := validateDetectionRuleSemantics_iff.mp (semantics_of_loadFile h)
    unfold loadFile at h
    obtain ⟨location, hchecked, h⟩ := bind_eq_ok.mp h
    split at h
    · cases h
    · next metadata hmetadata =>
      split_ifs at h with hregular
      split at h
      · cases h
      · next content hcontent =>
        refine ⟨content, ⟨location, metadata, hchecked, hmetadata, not_not.mp hregular, hcontent⟩, ?_⟩
        split at h
        · cases h
        · cases h
        · next rule' hread =>
          split at h
          · cases h
            exact ⟨(readRule_iff hdata).mp hread, htotal⟩
          · cases h
          · cases h
  · intro h
    obtain ⟨content, ⟨location, metadata, hchecked, hmetadata, hregular, hcontent⟩, htext, htotal⟩ := h
    rw [loadFile, hchecked, ok_bind, hmetadata]
    dsimp only
    rw [if_neg (not_not_intro hregular), hcontent]
    dsimp only
    rw [(readRule_iff hdata).mpr htext]
    dsimp only
    rw [validateDetectionRuleSemantics_iff.mpr htotal]

end Text

/-! ### The language of libraries -/

section Language

variable {ruleRoot root : Path} {lib : SafeLoader} {rules : List DetectionRule}

/-- **The language of rule libraries.**  A library loads with these rules exactly when its rule files, in the order
of their paths, are texts of them, each rule evaluates on every event that it is about, and no id is there twice. -/
theorem library_language (habsolute : ruleRoot.isAbsolute = true) (L : Library ruleRoot root)
    (hdata : PlainScalars lib) : L.Loads (readRule lib) rules ↔
      List.Forall₂ (fun path rule => ∃ content, L.fs.readText path = .ok content ∧ RuleText lib content rule ∧
        rule.Total) L.files rules ∧ (rules.map (·.id)).Nodup := by
  have hfile (path : Path) (hpath : path ∈ L.files) (rule : DetectionRule) :
      loadFile L.fs (readRule lib) root path = .ok rule ↔
        ∃ content, L.fs.readText path = .ok content ∧ RuleText lib content rule ∧ rule.Total := by
    obtain ⟨hchecked, hlstat⟩ := Library.checkedPath_of_has (L.mem_files.mp hpath)
    rw [loadFile_iff hdata]
    refine exists_congr fun content => and_congr_left fun _ => ?_
    constructor
    · intro h
      obtain ⟨location, metadata, hlocation, -, -, hcontent⟩ := h
      cases hchecked.symm.trans hlocation
      exact hcontent
    · exact fun hcontent => ⟨path, _, hchecked, hlstat, rfl, hcontent⟩
  rw [L.loads_iff habsolute]
  constructor
  · intro h
    exact ⟨forall₂_imp_of_mem h.each fun path hpath rule => (hfile path hpath rule).mp, h.distinct⟩
  · intro h
    exact ⟨forall₂_imp_of_mem h.1 fun path hpath rule => (hfile path hpath rule).mpr, h.2⟩

end Language

/-! ### A library of one text -/

namespace AliceRule

def text : String :=
  "id: alice-logon\nversion: 1\ntitle: Logon of alice\ndescription: The user alice logged on.\n" ++
  "categories: [authentication]\ncondition: {field: context.user, op: equals, value: alice}\n"

def plain (value : String) : Node := .scalar strTag value

def mapping (pairs : List (String × Node)) : Node :=
  .mapping "tag:yaml.org,2002:map" (pairs.map fun p => (plain p.1, p.2))

/-- The graph of the text. -/
def root : Node :=
  mapping [("id", plain "alice-logon"), ("version", .scalar "tag:yaml.org,2002:int" "1"),
    ("title", plain "Logon of alice"), ("description", plain "The user alice logged on."),
    ("categories", .sequence "tag:yaml.org,2002:seq" [plain "authentication"]),
    ("condition", mapping [("field", plain "context.user"), ("op", plain "equals"), ("value", plain "alice")])]

/-- The starts of collections and the scalars are plain. -/
def events : List Event :=
  [.other, .other, .collectionStart none none] ++ List.replicate 9 (.scalar none none) ++
    [.collectionStart none none, .scalar none none, .other, .scalar none none, .collectionStart none none] ++
    List.replicate 6 (.scalar none none) ++ [.other, .other, .other, .other]

def scalar (tag value : String) : Except Exc Value :=
  if tag = strTag then .ok (.str value)
  else if tag = "tag:yaml.org,2002:int" then (int value 10).map .int
  else .error yamlError

def parse (content : String) : List Event × Option Exc :=
  if content = text then (events, none) else ([], some yamlError)

def compose (content : String) : Except Exc (Option Node) :=
  if content = text then .ok (some root) else .error yamlError

theorem compose_parses (content : String) (r : Option Node) (h : compose content = .ok r) :
    (parse content).2 = none := by
  rw [compose] at h
  rw [parse]
  split_ifs at h ⊢
  rfl

/-- The library on that text. -/
def loader : SafeLoader := .preorder scalar parse compose compose_parses fun _ => if_pos rfl

theorem plainScalars : PlainScalars loader := by
  intro _ _ _ _ tag value _ v h
  change scalar tag value = .ok v at h
  unfold scalar at h
  split_ifs at h
  · cases h
    trivial
  · obtain ⟨n, -, rfl⟩ := exists_of_map_ok h
    trivial

theorem exists_rule : ∃ rule, readRule loader text = .ok rule ∧ rule.Total ∧ rule.id = "alice-logon" := by
  have hread : (readRule loader text).map (fun rule =>
      (rule.id, decide (validateDetectionRuleSemantics rule = .ok ()))) = .ok ("alice-logon", true) := by
    decide +kernel
  obtain ⟨rule, hrule, heq⟩ := exists_of_map_ok hread
  obtain ⟨hid, hsemantics⟩ := Prod.mk.inj heq
  exact ⟨rule, hrule, validateDetectionRuleSemantics_iff.mp (of_decide_eq_true hsemantics), hid⟩

/-- A directory with that text in a file below it. -/
def library : Library ⟨true, ["srv"]⟩ ⟨true, ["srv"]⟩ :=
  .ofTree (.ofEntries [("auth", .ofEntries [("logon.yaml", .file text)])] (by decide)) _ rfl rfl
    (by decide) (by decide) (by decide)

end AliceRule

open AliceRule in
theorem library_language_example : ∃ rules, library.Loads (readRule loader) rules ∧
    rules.map (·.id) = ["alice-logon"] := by
  obtain ⟨rule, hrule, htotal, hid⟩ := exists_rule
  have hfiles : library.files = [⟨true, ["srv", "auth", "logon.yaml"]⟩] := by decide
  have htext : RuleText loader text rule := (readRule_iff plainScalars).mp hrule
  have hloads := @library_language _ _ loader [rule] rfl library plainScalars
  refine ⟨[rule], hloads.mpr ⟨?_, List.nodup_singleton _⟩, by rw [List.map_singleton, hid]⟩
  rw [hfiles]
  exact .cons ⟨text, rfl, htext, htotal⟩ .nil

end SocLab
