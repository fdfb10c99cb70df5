import SocLab.Models.NormalizedEvent
import SocLab.Py.Regex

/-!
# SocLab.Models.Detection — operators, conditions and rules

What a rule may say, from `models/detection.py`.

* `validPath`, `validOperand` and `safeActual` are the syntactic checks that conditions and traces
  share.
* A `LeafCondition` carries its validation, and a `DetectionRule` the checks of `validate_rule`;
  `ConditionNode.WellFormed` says that `all` and `any` have a child at every depth.
* `ConditionNode.induction` is the induction principle over condition trees.
-/

namespace SocLab

open Py Py.Validation

/-! ### Operators, outcomes and paths -/

/-- The complete initial set of declarative comparison operators. -/
inductive DetectionOperator where
  | equals
  | notEquals
  | contains
  | containsAny
  | startsWith
  | endsWith
  | in_
  | notIn
  | exists_
  | notExists
  | greaterThan
  | greaterOrEqual
  | lessThan
  | lessOrEqual
  | ipInCidr
  deriving DecidableEq

instance : StrEnum DetectionOperator where
  name := "DetectionOperator"
  members := [.equals, .notEquals, .contains, .containsAny, .startsWith, .endsWith, .in_, .notIn,
    .exists_, .notExists, .greaterThan, .greaterOrEqual, .lessThan, .lessOrEqual, .ipInCidr]
  value
    | .equals => "equals"
    | .notEquals => "not_equals"
    | .contains => "contains"
    | .containsAny => "contains_any"
    | .startsWith => "starts_with"
    | .endsWith => "ends_with"
    | .in_ => "in"
    | .notIn => "not_in"
    | .exists_ => "exists"
    | .notExists => "not_exists"
    | .greaterThan => "greater_than"
    | .greaterOrEqual => "greater_or_equal"
    | .lessThan => "less_than"
    | .lessOrEqual => "less_or_equal"
    | .ipInCidr => "ip_in_cidr"
  mem_members e := by cases e <;> simp
  value_injective e e' := by cases e <;> cases e' <;> simp

/-- Three-valued outcome of a condition, without evaluation semantics. -/
inductive ConditionOutcome where
  | true
  | false
  | unknown
  deriving DecidableEq

instance : StrEnum ConditionOutcome where
  name := "ConditionOutcome"
  members := [.true, .false, .unknown]
  value
    | .true => "true"
    | .false => "false"
    | .unknown => "unknown"
  mem_members e := by cases e <;> simp
  value_injective e e' := by cases e <;> cases e' <;> simp

/-- `COMMON_FIELDS`: the paths of one part. -/
def commonFields : List String :=
  ["source", "provider", "event_id", "channel", "timestamp", "computer", "record_id", "category"]

/-- `[A-Za-z]`. -/
def isAsciiLetter (c : Char) : Bool := ('A' ≤ c && c ≤ 'Z') || ('a' ≤ c && c ≤ 'z')

/-- `[a-z0-9]`. -/
def isSlugChar (c : Char) : Bool := ('a' ≤ c && c ≤ 'z') || isAsciiDigit c

/-- `[A-Za-z][A-Za-z0-9_]*`. -/
def segment : Regex Char :=
  .cat (.cls isAsciiLetter) (.star (.cls fun c => isAsciiLetter c || isAsciiDigit c || c == '_'))

/-- `[a-z0-9]+(?:-[a-z0-9]+)*`. -/
def slug : Regex Char :=
  .cat (.plus (.cls isSlugChar)) (.star (.cat (.lit ['-']) (.plus (.cls isSlugChar))))

/-- The operators that take a text. -/
def stringOperators : List DetectionOperator := [.contains, .startsWith, .endsWith, .ipInCidr]

/-- The operators that take an integer. -/
def integerOperators : List DetectionOperator :=
  [.greaterThan, .greaterOrEqual, .lessThan, .lessOrEqual]

/-- The operators that take a list. -/
def listOperators : List DetectionOperator := [.containsAny, .in_, .notIn]

/-- The operators that take no operand. -/
def existenceOperators : List DetectionOperator := [.exists_, .notExists]

/-- `valid_path`: a common field, or `context.` or `source_data.` and one segment. -/
def validPath (path : String) : Bool :=
  if path ∈ commonFields then true
  else match split path '.' with
    | [first, second] =>
      (first == "context" || first == "source_data") && segment.fullmatch second.toList
    | _ => false

/-- `valid_operand`: what the operator can take, by the exact type of the literal. -/
def validOperand (op : DetectionOperator) (value : Value) : Bool :=
  if op ∈ listOperators then
    match value with
    | .list (first :: rest) =>
      if op = .containsAny then (first :: rest).all fun item => item.type = .str
      -- the exact type: a Boolean is not an integer here
      else ((first :: rest).all fun item => item.type = first.type) &&
        (first.type = .str || first.type = .int)
    | _ => false
  else if op ∈ integerOperators then value.type = .int
  else if op ∈ stringOperators then value.type = .str
  else value.type = .str || value.type = .int

/-- Keep explanation values within the normalized event's scalar domain. -/
def safeActual (value : Value) : Except Exc Bool :=
  match value with
  | .str _ | .int _ | .bool _ | .ip _ | .enum _ _ => .ok true
  | .datetime d => d.utcoffset.map Option.isSome
  | _ => .ok false

/-- An operand is a text or an integer, or a list of these. -/
theorem operand_of_validOperand {op : DetectionOperator} {v : Value} (h : validOperand op v = true) :
    (v.type = .str ∨ v.type = .int) ∨
      ∃ items, v = .list items ∧ ∀ item ∈ items, item.type = .str ∨ item.type = .int := by
  unfold validOperand at h
  by_cases hlist : op ∈ listOperators
  · rw [if_pos hlist] at h
    split at h
    · next first rest =>
      refine Or.inr ⟨_, rfl, fun item hitem => ?_⟩
      by_cases hany : op = .containsAny
      · rw [if_pos hany] at h
        exact Or.inl (by simpa using List.all_eq_true.mp h item hitem)
      · rw [if_neg hany, Bool.and_eq_true, Bool.or_eq_true, decide_eq_true_iff, decide_eq_true_iff] at h
        have hitem : item.type = first.type := by simpa using List.all_eq_true.mp h.1 item hitem
        rw [hitem]
        exact h.2
    · cases h
  · rw [if_neg hlist] at h
    refine Or.inl ?_
    split_ifs at h with hint hstr
    · exact Or.inr (by simpa using h)
    · exact Or.inl (by simpa using h)
    · simpa using h

theorem plain_of_validOperand {op : DetectionOperator} {v : Value} (h : validOperand op v = true) :
    v.Plain := by
  rcases operand_of_validOperand h with htype | ⟨items, rfl, hitems⟩
  · exact Value.plain_of_type htype
  · exact Value.Plain.list fun item hitem => Value.plain_of_type (hitems item hitem)

theorem plain_of_safeActual {v : Value} (h : safeActual v = .ok true) : v.Plain := by
  unfold safeActual at h
  split at h
  all_goals first | exact ⟨rfl, by simp [Value.eq]⟩ | cases h

/-! ### Conditions -/

/-- `LeafCondition.validate_leaf`, its checks in order with their messages. -/
def validateLeaf (field : String) (op : DetectionOperator) (value : ModelField Value) :
    Validation Unit :=
  raiseFirst
    [(!validPath field, "invalid detection field path"),
      (op ∈ existenceOperators && value.isSet, "existence operators must omit value"),
      (op ∉ existenceOperators && (!value.isSet || !validOperand op (value.get .none)),
        "invalid or missing operand for detection operator")]

/-- One syntactically valid field comparison; type compatibility is later work. -/
structure LeafCondition where
  field : String
  op : DetectionOperator
  value : ModelField Value
  valid : validateLeaf field op value = ok ()

namespace LeafCondition

variable (leaf : LeafCondition)

theorem valid_field : validPath leaf.field = true := by
  have h := raiseFirst_eq_ok.mp leaf.valid _ (List.mem_cons_self ..)
  simpa using h

theorem value_of_existence (h : leaf.op ∈ existenceOperators) : leaf.value = .unset := by
  have hv := raiseFirst_eq_ok.mp leaf.valid _ (List.mem_cons_of_mem _ (List.mem_cons_self ..))
  cases hval : leaf.value with
  | unset => rfl
  | set v => simp [h, hval] at hv

theorem value_of_comparison (h : leaf.op ∉ existenceOperators) :
    ∃ v, leaf.value = .set v ∧ validOperand leaf.op v = true := by
  have hv := raiseFirst_eq_ok.mp leaf.valid _
    (List.mem_cons_of_mem _ (List.mem_cons_of_mem _ (List.mem_cons_self ..)))
  cases hval : leaf.value with
  | unset => simp [h, hval] at hv
  | set v =>
    refine ⟨v, rfl, ?_⟩
    simpa [h, hval] using hv

end LeafCondition

/-- `ConditionNode`: the four node classes as one tree. -/
inductive ConditionNode where
  | leaf (l : LeafCondition)
  | all (children : List ConditionNode)
  | any (children : List ConditionNode)
  | not_ (child : ConditionNode)

namespace ConditionNode

/-- Induction over condition trees: the connectives over all of their children at once. -/
@[elab_as_elim, induction_eliminator]
theorem induction {P : ConditionNode → Prop} (leaf : ∀ l, P (leaf l))
    (all : ∀ children, (∀ c ∈ children, P c) → P (all children))
    (any : ∀ children, (∀ c ∈ children, P c) → P (any children))
    (not_ : ∀ child, P child → P (not_ child)) : ∀ n, P n :=
  @ConditionNode.rec P (fun cs => ∀ c ∈ cs, P c) leaf all any not_ (fun _ h => absurd h (by simp))
    fun c cs hc hcs d hd => by
      rcases List.mem_cons.mp hd with rfl | hd
      · exact hc
      · exact hcs d hd

mutual

/-- The connectives `all` and `any` have a child at every depth. -/
def WellFormed : ConditionNode → Prop
  | leaf _ => True
  | all children => children ≠ [] ∧ AllWellFormed children
  | any children => children ≠ [] ∧ AllWellFormed children
  | not_ child => WellFormed child

/-- Every child is. -/
def AllWellFormed : List ConditionNode → Prop
  | [] => True
  | c :: cs => WellFormed c ∧ AllWellFormed cs

end

theorem allWellFormed_iff {cs : List ConditionNode} :
    AllWellFormed cs ↔ ∀ c ∈ cs, WellFormed c := by
  induction cs with
  | nil => simp [AllWellFormed]
  | cons c cs ih => simp [AllWellFormed, ih]

mutual

/-- Depth and leaf count of a condition tree. -/
def measure : ConditionNode → Nat × Nat
  | leaf _ => (1, 1)
  | all children | any children =>
    let sizes := measureList children
    (1 + (sizes.map (·.1)).foldl max 0, (sizes.map (·.2)).sum)
  | not_ child =>
    let sizes := [measure child]
    (1 + (sizes.map (·.1)).foldl max 0, (sizes.map (·.2)).sum)

/-- The depths and leaf counts of the children. -/
def measureList : List ConditionNode → List (Nat × Nat)
  | [] => []
  | c :: cs => measure c :: measureList cs

end

mutual

/-- `_uses_source_data`: some leaf reads retained data. -/
def usesSourceData : ConditionNode → Bool
  | leaf l => Py.startsWith l.field "source_data."
  | all children | any children => anyUsesSourceData children
  | not_ child => usesSourceData child

/-- One of the children does. -/
def anyUsesSourceData : List ConditionNode → Bool
  | [] => false
  | c :: cs => usesSourceData c || anyUsesSourceData cs

end

mutual

/-- The leaves, from left to right. -/
def leaves : ConditionNode → List LeafCondition
  | leaf l => [l]
  | all children | any children => leavesAll children
  | not_ child => leaves child

/-- The leaves of the children, in order. -/
def leavesAll : List ConditionNode → List LeafCondition
  | [] => []
  | c :: cs => leaves c ++ leavesAll cs

end

theorem leavesAll_eq (cs : List ConditionNode) : leavesAll cs = cs.flatMap leaves := by
  induction cs with
  | nil => rfl
  | cons c cs ih => rw [leavesAll, ih]; rfl

section Visit

variable {ε : Type} (f : LeafCondition → Except ε Unit)

mutual

/-- A traversal that visits the leaves in order, up to the first error. -/
def visit : ConditionNode → Except ε Unit
  | leaf l => f l
  | all children | any children => visitList children
  | not_ child => visit child

/-- The children in order, up to the first error. -/
def visitList : List ConditionNode → Except ε Unit
  | [] => .ok ()
  | c :: cs => do
    visit c
    visitList cs

end

variable {f} {g : LeafCondition → Except ε Unit}

theorem visitList_eq_ok {cs : List ConditionNode} :
    visitList f cs = .ok () ↔ ∀ c ∈ cs, visit f c = .ok () := by
  induction cs with
  | nil => simp [visitList]
  | cons c cs ih =>
    rw [visitList, List.forall_mem_cons, ← ih]
    cases h : visit f c with
    | ok u => exact (and_iff_right rfl).symm
    | error e => exact iff_of_false (by rintro ⟨⟩) (by rintro ⟨⟨⟩, -⟩)

theorem visit_mono (h : ∀ l, f l = .ok () → g l = .ok ()) {c : ConditionNode}
    (hc : visit f c = .ok ()) : visit g c = .ok () := by
  induction c with
  | leaf l => exact h l hc
  | all cs ih =>
    rw [visit, visitList_eq_ok] at hc ⊢
    exact fun c hmem => ih c hmem (hc c hmem)
  | any cs ih =>
    rw [visit, visitList_eq_ok] at hc ⊢
    exact fun c hmem => ih c hmem (hc c hmem)
  | not_ c ih => exact ih hc

/-- The traversal passes when it passes at every leaf. -/
theorem visit_eq_ok {c : ConditionNode} : visit f c = .ok () ↔ ∀ l ∈ c.leaves, f l = .ok () := by
  have hlist {cs : List ConditionNode}
      (ih : ∀ c ∈ cs, visit f c = .ok () ↔ ∀ l ∈ c.leaves, f l = .ok ()) :
      visitList f cs = .ok () ↔ ∀ l ∈ leavesAll cs, f l = .ok () := by
    rw [visitList_eq_ok, leavesAll_eq]
    simp only [List.mem_flatMap]
    constructor
    · rintro h l ⟨c, hc, hl⟩
      exact (ih c hc).mp (h c hc) l hl
    · exact fun h c hc => (ih c hc).mpr fun l hl => h l ⟨c, hc, hl⟩
  induction c with
  | leaf l => simp [visit, leaves]
  | all cs ih => exact hlist ih
  | any cs ih => exact hlist ih
  | not_ c ih => exact ih

/-- An error of the traversal is an error of a leaf. -/
theorem visit_error {P : ε → Prop} (h : ∀ l e, f l = .error e → P e) {c : ConditionNode} {e : ε}
    (hc : visit f c = .error e) : P e := by
  have hlist : ∀ cs : List ConditionNode, (∀ c ∈ cs, visit f c = .error e → P e) →
      visitList f cs = .error e → P e := by
    intro cs
    induction cs with
    | nil => rintro - ⟨⟩
    | cons c cs ih =>
      intro hcs hvisit
      rw [visitList] at hvisit
      cases hc : visit f c with
      | error e' =>
        rw [hc] at hvisit
        cases hvisit
        exact hcs c (by simp) hc
      | ok u =>
        rw [hc] at hvisit
        exact ih (fun d hd => hcs d (by simp [hd])) hvisit
  induction c with
  | leaf l => exact h l e hc
  | all cs ih => exact hlist cs ih hc
  | any cs ih => exact hlist cs ih hc
  | not_ c ih => exact ih hc

end Visit

end ConditionNode

/-! ### Rules -/

/-- The declared fields of a rule. -/
structure RuleFields where
  id : String
  version : PositiveInteger
  title : String
  description : String
  categories : {l : List EventCategory // 1 ≤ l.length}
  sources : ModelField (Option {l : List EventSource // 1 ≤ l.length})
  condition : {c : ConditionNode // c.WellFormed}

namespace RuleFields

/-- `self.sources`, as a list. -/
def sourceList (f : RuleFields) : Option (List EventSource) := (f.sources.get none).map (·.val)

end RuleFields

/-- `DetectionRule.validate_rule`, its checks in order with their messages. -/
def validateRule (f : RuleFields) : Validation Unit :=
  raiseFirst
    [(!slug.fullmatch f.id.toList, "rule id must be a lowercase slug"),
      (strip f.title == "" || strip f.description == "",
        "rule title and description must be non-empty"),
      (f.categories.val.dedup.length != f.categories.val.length, "rule categories must be unique"),
      -- `sources: null` is not the same as no `sources`
      (f.sources.isSet && (f.sources.get none).isNone, "sources must be omitted or non-empty"),
      (match f.sourceList with
        | some sources => sources.dedup.length != sources.length
        | none => false, "rule sources must be unique"),
      (8 < f.condition.val.measure.1 || 64 < f.condition.val.measure.2,
        "condition exceeds maximum depth or leaf count"),
      (f.condition.val.usesSourceData && f.sourceList.isNone,
        "source_data conditions require sources")]

/-- A bounded declarative rule independent of loading and evaluation. -/
structure DetectionRule extends RuleFields where
  valid : validateRule toRuleFields = ok ()

namespace DetectionRule

variable (rule : DetectionRule)

theorem id_slug : slug.fullmatch rule.id.toList = true := by
  simpa using raiseFirst_eq_ok.mp rule.valid _ (List.mem_cons_self ..)

theorem title_nonblank : strip rule.title ≠ "" := by
  have h := raiseFirst_eq_ok.mp rule.valid _ (List.mem_cons_of_mem _ (List.mem_cons_self ..))
  simp only [Bool.or_eq_false_iff, beq_eq_false_iff_ne] at h
  exact h.1

/-- A rule for logons of `alice`. -/
def exampleRule : DetectionRule where
  id := "alice-logon"
  version := ⟨1, by decide⟩
  title := "Logon of alice"
  description := "The user alice logged on."
  categories := ⟨[.authentication], by decide⟩
  sources := .set (some ⟨[.windowsSecurity], by decide⟩)
  condition := ⟨.all [.leaf ⟨"context.user", .equals, .set (.str "alice"), by decide⟩], by
    simp [ConditionNode.WellFormed, ConditionNode.AllWellFormed]⟩
  valid := by decide

/-- A rule for logons on the computer `host`. -/
def exampleHostRule : DetectionRule where
  id := "host-logon"
  version := ⟨2, by decide⟩
  title := "Logon on the host"
  description := "A user logged on."
  categories := ⟨[.authentication], by decide⟩
  sources := .unset
  condition := ⟨.leaf ⟨"computer", .equals, .set (.str "host"), by decide⟩, trivial⟩
  valid := by decide

end DetectionRule

end SocLab
