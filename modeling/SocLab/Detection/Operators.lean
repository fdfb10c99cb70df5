import SocLab.Detection.Success

/-!
# SocLab.Detection.Operators — negative, list and range operators against their plain counterparts

* `Counterpart`: the pairs of conditions.  A negated operator is the negation of the plain one, a list
  operator the disjunction over its operands, and `greater_or_equal` a disjunction of two operators.
* `interchangeable_of_counterpart`: the two sides of a pair have the same outcome, whether the field is
  present or not, and pass the check for a category together.
* `operators_counterparts`: so do trees that differ by exchanging the sides of such pairs.
-/

namespace SocLab

open Py Kleene Logic

/-! ### The pairs -/

/-- A negated operator and the one it negates. -/
def complements : List (DetectionOperator × DetectionOperator) :=
  [(.notEquals, .equals), (.notIn, .in_), (.greaterThan, .lessOrEqual), (.greaterOrEqual, .lessThan),
    (.notExists, .exists_)]

/-- A list operator and the operator for one of its operands. -/
def memberships : List (DetectionOperator × DetectionOperator) :=
  [(.in_, .equals), (.containsAny, .contains)]

theorem complements_existence {op op' : DetectionOperator} (hop : (op, op') ∈ complements)
    (hexist : op ∈ existenceOperators) : op = .notExists ∧ op' = .exists_ := by
  have h : ∀ p ∈ complements, p.1 ∈ existenceOperators → p.1 = .notExists ∧ p.2 = .exists_ := by decide
  exact h _ hop hexist

/-- The leaf `l'` compares the field of `l` by `op` with the operand `value`. -/
def LeafCondition.Compares (l l' : LeafCondition) (op : DetectionOperator) (value : ModelField Value) :
    Prop :=
  l'.field = l.field ∧ l'.op = op ∧ l'.value = value

inductive Counterpart : ConditionNode → ConditionNode → Prop
  /-- `not_equals v` and not `equals v`, and so on. -/
  | complement {l l' op} : (l.op, op) ∈ complements → l.Compares l' op l.value →
    Counterpart (.leaf l) (.not_ (.leaf l'))
  /-- `in [v₁, …, vₙ]` and any of `equals v₁`, …, `equals vₙ`, and the same for `contains_any`. -/
  | membership {l op vs ls} : (l.op, op) ∈ memberships → l.value = .set (.list vs) →
    List.Forall₂ (fun l' v => l.Compares l' op (.set v)) ls vs →
    Counterpart (.leaf l) (.any (ls.map .leaf))
  /-- `greater_or_equal n` and any of `greater_than n`, `equals n`. -/
  | range {l l₁ l₂} : l.op = .greaterOrEqual → l.Compares l₁ .greaterThan l.value →
    l.Compares l₂ .equals l.value → Counterpart (.leaf l) (.any [.leaf l₁, .leaf l₂])

/-- One side of a pair is replaced by the other, at one place of a tree. -/
inductive Replacement : ConditionNode → ConditionNode → Prop
  | counterpart {a b} : Counterpart a b → Replacement a b
  | inAll {a b cs ds} : Replacement a b → Replacement (.all (cs ++ a :: ds)) (.all (cs ++ b :: ds))
  | inAny {a b cs ds} : Replacement a b → Replacement (.any (cs ++ a :: ds)) (.any (cs ++ b :: ds))
  | inNot {a b} : Replacement a b → Replacement (.not_ a) (.not_ b)

section Exists

variable {l : LeafCondition} {op : DetectionOperator}

theorem exists_compares {value : Value} (hexist : op ∉ existenceOperators)
    (hvalue : validOperand op value = true) : ∃ l', l.Compares l' op (.set value) := by
  have hvalid : validateLeaf l.field op (.set value) = Py.Validation.ok () := by
    simp [validateLeaf, Py.Validation.raiseFirst_eq_ok, l.valid_field, hexist, hvalue]
  exact ⟨⟨l.field, op, .set value, hvalid⟩, rfl, rfl, rfl⟩

/-- The two operators of a pair take the same operands. -/
theorem validOperand_complement {op' : DetectionOperator} (hop : (op, op') ∈ complements)
    (hexist : op ∉ existenceOperators) {v : Value} (h : validOperand op v = true) :
    op' ∉ existenceOperators ∧ validOperand op' v = true := by
  simp only [complements, List.mem_cons, Prod.mk.injEq, List.not_mem_nil, or_false] at hop
  rcases hop with ⟨rfl, rfl⟩ | ⟨rfl, rfl⟩ | ⟨rfl, rfl⟩ | ⟨rfl, rfl⟩ | ⟨rfl, rfl⟩
  case inr.inr.inr.inr => exact absurd (by decide) hexist
  all_goals exact ⟨by decide, h⟩

theorem exists_complement (hop : (l.op, op) ∈ complements) : ∃ l', l.Compares l' op l.value := by
  by_cases hexist : l.op ∈ existenceOperators
  · have hunset : l.value = .unset := l.value_of_existence hexist
    have hvalid : validateLeaf l.field .exists_ .unset = Py.Validation.ok () := by
      simp [validateLeaf, Py.Validation.raiseFirst_eq_ok, l.valid_field, existenceOperators]
    rw [hunset, (complements_existence hop hexist).2]
    exact ⟨⟨l.field, .exists_, .unset, hvalid⟩, rfl, rfl, rfl⟩
  · obtain ⟨v, hv, hvalid⟩ := l.value_of_comparison hexist
    obtain ⟨hexist', hvalid'⟩ := validOperand_complement hop hexist hvalid
    rw [hv]
    exact exists_compares hexist' hvalid'

/-- The operand of a list operator is a list of operands of the plain one. -/
theorem validOperand_members {op' : DetectionOperator} (hop : (op, op') ∈ memberships) {v : Value}
    (h : validOperand op v = true) : ∃ vs, v = .list vs ∧ ∀ v ∈ vs, validOperand op' v = true := by
  have hlist : ∀ p ∈ memberships, p.1 ∈ listOperators := by decide
  unfold validOperand at h
  rw [if_pos (hlist _ hop)] at h
  split at h
  · next first rest =>
    refine ⟨first :: rest, rfl, fun item hitem => ?_⟩
    simp only [memberships, List.mem_cons, Prod.mk.injEq, List.not_mem_nil, or_false] at hop
    rcases hop with ⟨rfl, rfl⟩ | ⟨rfl, rfl⟩
    · rw [if_neg (by decide), Bool.and_eq_true, List.all_eq_true] at h
      have hitem : item.type = first.type := by simpa using h.1 item hitem
      rw [← hitem] at h
      exact h.2
    · rw [if_pos rfl, List.all_eq_true] at h
      exact h item hitem
  · cases h

theorem exists_members (hop : (l.op, op) ∈ memberships) : ∃ vs ls, l.value = .set (.list vs) ∧
    List.Forall₂ (fun l' v => l.Compares l' op (.set v)) ls vs := by
  have hrequire : ∀ p ∈ memberships, p.1 ∉ existenceOperators ∧ p.2 ∉ existenceOperators := by decide
  obtain ⟨hexist, hexist'⟩ := hrequire _ hop
  obtain ⟨v, hv, hvalid⟩ := l.value_of_comparison hexist
  obtain ⟨vs, rfl, hvs⟩ := validOperand_members hop hvalid
  have hls : ∀ v ∈ vs, ∃ l', l.Compares l' op (.set v) := fun v hv => exists_compares hexist' (hvs v hv)
  obtain ⟨ls, hls⟩ := exists_forall₂ hls
  exact ⟨vs, ls, hv, hls.flip⟩

/-- A bound is an operand of a comparison and of an equality. -/
theorem exists_range (hop : l.op = .greaterOrEqual) : ∃ l₁ l₂, l.Compares l₁ .greaterThan l.value ∧
    l.Compares l₂ .equals l.value := by
  obtain ⟨v, hv, hvalid⟩ := l.value_of_comparison (by rw [hop]; decide)
  rw [hop] at hvalid
  have hgreater : validOperand .greaterThan v = true := hvalid
  have hint : v.type = .int := of_decide_eq_true hvalid
  have hequals : validOperand .equals v = true := by
    show (decide (v.type = .str) || decide (v.type = .int)) = true
    rw [hint]
    rfl
  rw [hv]
  obtain ⟨l₁, h₁⟩ := @exists_compares l _ _ (by decide) hgreater
  obtain ⟨l₂, h₂⟩ := @exists_compares l _ _ (by decide) hequals
  exact ⟨l₁, l₂, h₁, h₂⟩

/-- **Every leaf with an operator of a pair has the other side of the pair.** -/
theorem exists_counterpart (l : LeafCondition) :
    (∀ op, (l.op, op) ∈ complements → ∃ l', Counterpart (.leaf l) (.not_ (.leaf l'))) ∧
    (∀ op, (l.op, op) ∈ memberships → ∃ ls : List LeafCondition, Counterpart (.leaf l) (.any (ls.map .leaf))) ∧
    (l.op = .greaterOrEqual → ∃ l₁ l₂, Counterpart (.leaf l) (.any [.leaf l₁, .leaf l₂])) := by
  refine ⟨fun op hop => ?_, fun op hop => ?_, fun hop => ?_⟩
  · obtain ⟨l', hl'⟩ := exists_complement hop
    exact ⟨l', .complement hop hl'⟩
  · obtain ⟨vs, ls, hvalue, hls⟩ := exists_members hop
    exact ⟨ls, .membership hop hvalue hls⟩
  · obtain ⟨l₁, l₂, h₁, h₂⟩ := exists_range hop
    exact ⟨l₁, l₂, .range hop h₁ h₂⟩

end Exists

/-! ### Operands -/

section Operands

variable {field : String} {kind : FieldType} {op : DetectionOperator} {l l' : LeafCondition}
  {operands : List Operand}

/-- A literal is read in the same way for every operator. -/
theorem literal_congr {v : Value} {s : Scalar} (h : literal field kind op v = .ok s) (field' : String)
    (op' : DetectionOperator) : literal field' kind op' v = .ok s :=
  literal_eq_ok.mpr (literal_eq_ok.mp h)

theorem literal_congr_iff (field field' : String) (op op' : DetectionOperator) {v : Value} {s : Scalar} :
    literal field kind op v = .ok s ↔ literal field' kind op' v = .ok s :=
  ⟨fun h => literal_congr h _ _, fun h => literal_congr h _ _⟩

/-- What an operator requires of the type of its field. -/
def OperatorFits (op : DetectionOperator) (kind : FieldType) : Prop :=
  (op ∈ Semantics.string → kind = .string) ∧ (op ∈ Semantics.integer → kind = .integer)

theorem not_incompatible_iff (hcidr : op ≠ .ipInCidr) :
    ¬ ((op ∈ Semantics.string ∧ kind ≠ .string) ∨ (op ∈ Semantics.integer ∧ kind ≠ .integer) ∨
      (op = .ipInCidr ∧ kind ≠ .ip)) ↔ OperatorFits op kind := by
  simp [OperatorFits, hcidr]

theorem validatedOperands_scalar_iff (hexist : l.op ∉ existenceOperators) (hcidr : l.op ≠ .ipInCidr)
    (hlist : l.op ∉ Semantics.list) : validatedOperands kind l = .ok operands ↔
      OperatorFits l.op kind ∧
        ∃ s, literal l.field kind l.op (l.value.get .none) = .ok s ∧ operands = [.scalar s] := by
  unfold validatedOperands
  dsimp only
  rw [if_neg hexist, ← not_incompatible_iff hcidr]
  split_ifs with hincompatible
  · simp [hincompatible]
  · rw [bind_eq_ok, and_iff_right hincompatible]
    simp only [Except.ok.injEq, eq_comm]

theorem validatedOperands_list_iff (hlist : l.op ∈ Semantics.list) :
    validatedOperands kind l = .ok operands ↔ OperatorFits l.op kind ∧
      ∃ v vs scalars, l.value.get .none = .list (v :: vs) ∧
        List.Forall₂ (fun v s => literal l.field kind l.op v = .ok s) (v :: vs) scalars ∧
        operands = scalars.map .scalar := by
  have hexist : l.op ∉ existenceOperators := by
    intro h
    cases hop : l.op <;> simp [hop, Semantics.list, existenceOperators] at hlist h
  have hcidr : l.op ≠ .ipInCidr := by
    intro h
    simp [h, Semantics.list] at hlist
  unfold validatedOperands
  dsimp only
  rw [if_neg hexist, ← not_incompatible_iff hcidr]
  split_ifs with hincompatible
  · simp [hincompatible]
  · simp only [hincompatible, not_false_eq_true, true_and]
    split
    · next v vs hv =>
      simp only [bind_eq_ok, mapM_eq_ok, hv, Value.list.injEq, List.cons.injEq]
      constructor
      · rintro ⟨scalars, hscalars, h⟩
        cases h
        exact ⟨v, vs, scalars, ⟨rfl, rfl⟩, hscalars, rfl⟩
      · rintro ⟨_, _, scalars, ⟨rfl, rfl⟩, hscalars, rfl⟩
        exact ⟨scalars, hscalars, rfl⟩
    · next hv =>
      refine iff_of_false (by simp) ?_
      rintro ⟨v, vs, scalars, hlist, -⟩
      exact hv v vs hlist

end Operands

/-! ### What a leaf reads -/

/-- The field and the operands that the evaluation of a leaf compares. -/
structure Reading (event : NormalizedEvent) (l : LeafCondition) (field : ResolvedField)
    (operands : List Operand) : Prop where
  resolved : resolveEventField event l.field = .ok field
  typed : field.WellTyped l.field field.fieldType
  operands : validatedOperands field.fieldType l = .ok operands

section Reading

variable {event : NormalizedEvent} {l : LeafCondition} {field : ResolvedField} {operands : List Operand}

/-- A field that resolves is declared and has a value of its type. -/
theorem wellTyped_of_resolve (hutc : event.UtcRepresentable) {path : String}
    (h : resolveEventField event path = .ok field) :
    fieldType path event.category = .ok field.fieldType ∧ field.WellTyped path field.fieldType := by
  cases hkind : fieldType path event.category with
  | error e =>
    rw [resolveEventField_error hkind] at h
    cases h
  | ok kind =>
    obtain ⟨field', hfield', htyped⟩ := resolveEventField_typed hutc hkind
    rw [hfield'] at h
    cases h
    rw [htyped.type_eq]
    exact ⟨rfl, htyped⟩

theorem leafEvaluates_iff (hutc : event.UtcRepresentable) :
    LeafEvaluates event l ↔ ∃ field operands, Reading event l field operands := by
  constructor
  · rintro ⟨t, h⟩
    rw [evaluateCondition_eq_ok] at h
    obtain ⟨field, operands, o, hfield, hoperands, -, -, -⟩ := evaluateLeaf_eq_ok.mp h
    exact ⟨field, operands, hfield, (wellTyped_of_resolve hutc hfield).2, hoperands⟩
  · rintro ⟨field, operands, h⟩
    have hcheck : checkLeaf event.category l = .ok () := by
      rw [checkLeaf, (wellTyped_of_resolve hutc h.resolved).1, ok_bind, h.operands, ok_bind]
    exact (evaluateCondition_follows hutc (c := .leaf l) trivial).isOk_iff.mpr hcheck

/-- The outcome of a leaf that reads its field and its operands. -/
theorem Reading.exists_outcome (h : Reading event l field operands) :
    ∃ o, leafOutcome field l.op operands = .ok o ∧ leafTruth event l = o.truth := by
  obtain ⟨o, ho⟩ := leafOutcome_ok h.typed h.operands
  exact ⟨o, ho, by simp [leafTruth, h.resolved, h.operands, ho]⟩

end Reading

/-! ### The comparisons of a pair -/

section Compare

variable {field : ResolvedField} {actual : Scalar} {op op' : DetectionOperator} {operands : List Operand}

theorem truth_outcome (b : Bool) : (outcome b).truth = .ofPolarity b := by cases b <;> rfl

theorem compare_complement (hop : (op, op') ∈ complements) (hexist : op ∉ existenceOperators)
    {b b' : Bool} (h : compare actual op operands = .ok b) (h' : compare actual op' operands = .ok b') :
    b = !b' := by
  unfold compare at h h'
  obtain ⟨a, ha, h⟩ := bind_eq_ok.mp h
  rw [ha, ok_bind] at h'
  cases operands with
  | nil => cases h
  | cons expected rest =>
    simp only [complements, List.mem_cons, Prod.mk.injEq, List.not_mem_nil, or_false] at hop
    rcases hop with ⟨rfl, rfl⟩ | ⟨rfl, rfl⟩ | ⟨rfl, rfl⟩ | ⟨rfl, rfl⟩ | ⟨rfl, rfl⟩
    · cases h
      cases h'
      rfl
    · cases h
      cases h'
      rfl
    · obtain ⟨m, hm, h⟩ := bind_eq_ok.mp h
      obtain ⟨n, hn, h⟩ := bind_eq_ok.mp h
      dsimp only at h'
      rw [hm, ok_bind, hn, ok_bind] at h'
      cases h
      cases h'
      rw [← decide_not]
      exact decide_eq_decide.mpr Int.not_le.symm
    · obtain ⟨m, hm, h⟩ := bind_eq_ok.mp h
      obtain ⟨n, hn, h⟩ := bind_eq_ok.mp h
      dsimp only at h'
      rw [hm, ok_bind, hn, ok_bind] at h'
      cases h
      cases h'
      rw [← decide_not]
      exact decide_eq_decide.mpr Int.not_lt.symm
    · exact absurd (by decide) hexist

theorem containsAny_eq {t : String} {ss : List Scalar} {bs : List Bool} {b : Bool}
    (h : containsAny t (ss.map .scalar) = .ok b)
    (hs : List.Forall₂ (fun s b => (s.text >>= fun u => .ok (contains t u)) = .ok b) ss bs) :
    b = bs.any id := by
  induction hs generalizing b with
  | nil =>
    cases h
    rfl
  | cons hs _ ih =>
    obtain ⟨u, hu, hs⟩ := bind_eq_ok.mp hs
    rw [List.map_cons, containsAny, Operand.text, hu, ok_bind, Except.ok.inj hs] at h
    rw [List.any_cons, id]
    split_ifs at h with hb
    · cases h
      rw [hb, Bool.true_or]
    · rw [← ih h, Bool.eq_false_iff.mpr hb, Bool.false_or]

/-- A list operator holds when the plain one does for some operand. -/
theorem compare_membership (hop : (op, op') ∈ memberships) {ss : List Scalar} {bs : List Bool} {b : Bool}
    (h : compare actual op (ss.map .scalar) = .ok b)
    (hs : List.Forall₂ (fun s b => compare actual op' [.scalar s] = .ok b) ss bs) : b = bs.any id := by
  unfold compare at h
  obtain ⟨a, ha, h⟩ := bind_eq_ok.mp h
  cases ss with
  | nil => cases h
  | cons s ss =>
    simp only [memberships, List.mem_cons, Prod.mk.injEq, List.not_mem_nil, or_false] at hop
    simp only [compare, ha, ok_bind] at hs
    rcases hop with ⟨rfl, rfl⟩ | ⟨rfl, rfl⟩
    · cases h
      generalize s :: ss = ss at hs
      induction hs with
      | nil => rfl
      | cons hs _ ih => rw [List.map_cons, List.any_cons, List.any_cons, ih, Except.ok.inj hs, id]
    · obtain ⟨t, ht, h⟩ := bind_eq_ok.mp h
      simp only [ht, ok_bind] at hs
      exact containsAny_eq h hs

theorem compare_range {b b₁ b₂ : Bool} (h : compare actual .greaterOrEqual operands = .ok b)
    (h₁ : compare actual .greaterThan operands = .ok b₁) (h₂ : compare actual .equals operands = .ok b₂) :
    b = (b₁ || b₂) := by
  unfold compare at h h₁ h₂
  obtain ⟨a, ha, h⟩ := bind_eq_ok.mp h
  rw [ha, ok_bind] at h₁ h₂
  cases operands with
  | nil => cases h
  | cons expected rest =>
    obtain ⟨m, hm, h⟩ := bind_eq_ok.mp h
    obtain ⟨n, hn, h⟩ := bind_eq_ok.mp h
    dsimp only at h₁
    rw [hm, ok_bind, hn, ok_bind] at h₁
    cases h
    cases h₁
    cases h₂
    cases a with
    | int k =>
      cases hm
      cases expected with
      | network _ => cases hn
      | scalar s =>
        cases s with
        | int k' =>
          cases hn
          have hle : m ≥ n ↔ m > n ∨ m = n := by omega
          rw [Scalar.eqOperand, Scalar.eq, beq_eq_decide, ← Bool.decide_or]
          exact decide_eq_decide.mpr hle
        | _ => cases hn
    | _ => cases hm

end Compare

/-! ### The operands of a pair -/

section Pairs

variable {event : NormalizedEvent} {l l' : LeafCondition} {op op' : DetectionOperator}
  {kind : FieldType} {operands : List Operand} {field : ResolvedField}

theorem operatorFits_congr (hstring : op ∈ Semantics.string ↔ op' ∈ Semantics.string)
    (hinteger : op ∈ Semantics.integer ↔ op' ∈ Semantics.integer) :
    OperatorFits op kind ↔ OperatorFits op' kind := by
  rw [OperatorFits, OperatorFits, hstring, hinteger]

theorem complements_require : ∀ p ∈ complements, p.1 ∉ existenceOperators →
    p.2 ∉ existenceOperators ∧ p.1 ≠ .ipInCidr ∧ p.2 ≠ .ipInCidr ∧
    (p.1 ∈ Semantics.string ↔ p.2 ∈ Semantics.string) ∧
    (p.1 ∈ Semantics.integer ↔ p.2 ∈ Semantics.integer) ∧
    (p.1 ∈ Semantics.list ↔ p.2 ∈ Semantics.list) := by decide

/-- The two operators of a pair read the same operands. -/
theorem validatedOperands_complement (hop : (l.op, op) ∈ complements) (hl' : l.Compares l' op l.value) :
    validatedOperands kind l = .ok operands ↔ validatedOperands kind l' = .ok operands := by
  obtain ⟨-, rfl, hvalue⟩ := hl'
  by_cases hexist : l.op ∈ existenceOperators
  · obtain ⟨hnot, hexists⟩ := complements_existence hop hexist
    rw [validatedOperands, validatedOperands, hnot, hexists, hvalue]
    cases l.value <;> simp [existenceOperators, ModelField.isSet]
  · obtain ⟨hexist', hcidr, hcidr', hstring, hinteger, hlist⟩ := complements_require _ hop hexist
    by_cases hl : l.op ∈ Semantics.list
    · rw [validatedOperands_list_iff hl, validatedOperands_list_iff (hlist.mp hl),
        operatorFits_congr hstring hinteger, hvalue]
      simp only [literal_congr_iff l.field l'.field l.op l'.op]
    · rw [validatedOperands_scalar_iff hexist hcidr hl,
        validatedOperands_scalar_iff hexist' hcidr' fun h => hl (hlist.mpr h),
        operatorFits_congr hstring hinteger, hvalue]
      simp only [literal_congr_iff l.field l'.field l.op l'.op]

theorem memberships_require : ∀ p ∈ memberships, p.1 ∈ Semantics.list ∧
    p.1 ∉ existenceOperators ∧ p.2 ∉ existenceOperators ∧ p.2 ≠ .ipInCidr ∧ p.2 ∉ Semantics.list ∧
    (p.1 ∈ Semantics.string ↔ p.2 ∈ Semantics.string) ∧
    (p.1 ∈ Semantics.integer ↔ p.2 ∈ Semantics.integer) := by decide

/-- The operands of the members of a list operator. -/
theorem operands_of_members (hop : (l.op, op) ∈ memberships) {vs : List Value} {ls : List LeafCondition}
    (hls : List.Forall₂ (fun l' v => l.Compares l' op (.set v)) ls vs) {ss : List Scalar} :
    List.Forall₂ (fun l' s => validatedOperands kind l' = .ok [.scalar s]) ls ss ↔
      (ls ≠ [] → OperatorFits op kind) ∧
        List.Forall₂ (fun v s => literal l.field kind l.op v = .ok s) vs ss := by
  obtain ⟨-, -, hexist, hcidr, hlist, -, -⟩ := memberships_require _ hop
  induction hls generalizing ss with
  | nil => cases ss <;> simp
  | @cons l' v ls vs hl' _ ih =>
    obtain ⟨-, rfl, hvalue⟩ := hl'
    cases ss with
    | nil => simp
    | cons s ss =>
      rw [List.forall₂_cons, List.forall₂_cons, ih,
        validatedOperands_scalar_iff hexist hcidr hlist, hvalue,
        literal_congr_iff l.field l'.field l.op l'.op]
      simp
      tauto

/-- A list operator reads the operands that its members read. -/
theorem validatedOperands_membership (hop : (l.op, op) ∈ memberships) {vs : List Value}
    (hvalue : l.value = .set (.list vs)) {ls : List LeafCondition}
    (hls : List.Forall₂ (fun l' v => l.Compares l' op (.set v)) ls vs) {ss : List Scalar} :
    validatedOperands kind l = .ok (ss.map .scalar) ↔
      ls ≠ [] ∧ List.Forall₂ (fun l' s => validatedOperands kind l' = .ok [.scalar s]) ls ss := by
  obtain ⟨hlist, -, -, -, -, hstring, hinteger⟩ := memberships_require _ hop
  rw [operands_of_members hop hls, validatedOperands_list_iff hlist, hvalue,
    operatorFits_congr hstring hinteger]
  have hne : ls ≠ [] ↔ vs ≠ [] := by
    rw [← List.length_pos_iff, ← List.length_pos_iff, hls.length_eq]
  constructor
  · rintro ⟨hfits, v, vs', scalars, hlist, hliterals, hss⟩
    obtain rfl : vs = v :: vs' := by simpa using hlist
    rw [List.map_inj_right fun _ _ => Operand.scalar.inj] at hss
    subst hss
    exact ⟨hne.mpr (by simp), fun _ => hfits, hliterals⟩
  · rintro ⟨hls', hfits, hliterals⟩
    obtain ⟨v, vs', rfl⟩ := List.exists_cons_of_ne_nil (hne.mp hls')
    exact ⟨hfits hls', v, vs', ss, rfl, hliterals, rfl⟩

/-! ### The two sides of a pair -/

/-- The conditions evaluate together, and then to the same outcome. -/
structure Interchangeable (event : NormalizedEvent) (a b : ConditionNode) : Prop where
  evaluates : Evaluates event a ↔ Evaluates event b
  meaning : Evaluates event a → meaning event a = meaning event b

/-- A present value is compared. -/
theorem Reading.present (h : Reading event l field operands) (hexist : l.op ∉ existenceOperators)
    {s : Scalar} (hpresent : field.presence = .present) (hs : field.value = some s) :
    ∃ b, compare s l.op operands = .ok b ∧ leafTruth event l = .ofPolarity b := by
  obtain ⟨o, ho, htruth⟩ := h.exists_outcome
  rw [leafOutcome, if_neg hexist, hpresent, hs] at ho
  obtain ⟨b, hb, ho⟩ := bind_eq_ok.mp ho
  cases ho
  exact ⟨b, hb, by rw [htruth, truth_outcome]⟩

/-- A comparison with a value that is not there is unknown. -/
theorem Reading.absent (h : Reading event l field operands) (hexist : l.op ∉ existenceOperators)
    (hs : field.value = none) : leafTruth event l = .unknown := by
  obtain ⟨o, ho, htruth⟩ := h.exists_outcome
  rw [leafOutcome, if_neg hexist, hs] at ho
  rw [htruth]
  cases hp : field.presence <;>
  · rw [hp] at ho
    cases ho
    rfl

theorem reading_complement (hop : (l.op, op) ∈ complements) (hl' : l.Compares l' op l.value) :
    Reading event l field operands ↔ Reading event l' field operands := by
  have hoperands : validatedOperands field.fieldType l = .ok operands ↔
      validatedOperands field.fieldType l' = .ok operands := validatedOperands_complement hop hl'
  constructor
  · intro h
    exact ⟨hl'.1 ▸ h.resolved, hl'.1 ▸ h.typed, hoperands.mp h.operands⟩
  · intro h
    exact ⟨hl'.1 ▸ h.resolved, hl'.1 ▸ h.typed, hoperands.mpr h.operands⟩

theorem leafTruth_complement (hop : (l.op, op) ∈ complements) (hl' : l.Compares l' op l.value)
    (h : Reading event l field operands) : leafTruth event l = .neg (leafTruth event l') := by
  have h' := (reading_complement hop hl').mp h
  have hop' := hl'.2.1
  by_cases hexist : l.op ∈ existenceOperators
  · obtain ⟨hnot, hexists⟩ := complements_existence hop hexist
    obtain ⟨o, ho, htruth⟩ := h.exists_outcome
    obtain ⟨o', ho', htruth'⟩ := h'.exists_outcome
    rw [htruth, htruth']
    rw [leafOutcome, hop', hexists] at ho'
    rw [leafOutcome, hnot] at ho
    cases ho
    cases ho'
    cases field.presence <;> rfl
  · have hexist' : l'.op ∉ existenceOperators := hop' ▸ (complements_require _ hop hexist).1
    rcases h.typed.value with ⟨hpresent, s, hs, -⟩ | ⟨-, hs⟩
    · obtain ⟨b, hb, htruth⟩ := h.present hexist hpresent hs
      obtain ⟨b', hb', htruth'⟩ := h'.present hexist' hpresent hs
      rw [htruth, htruth', compare_complement hop hexist hb (hop' ▸ hb')]
      cases b' <;> rfl
    · rw [h.absent hexist hs, h'.absent hexist' hs]
      rfl

/-- The members of a list operator are about its field. -/
theorem field_of_members {vs : List Value} {ls : List LeafCondition}
    (hls : List.Forall₂ (fun l' v => l.Compares l' op (.set v)) ls vs) : ∀ l' ∈ ls, l'.field = l.field :=
  fun l' hl' => by
    obtain ⟨v, -, h, -, -⟩ := exists_of_forall₂ hls l' hl'
    exact h

/-- What the members of a list operator read. -/
theorem reading_members (hop : (l.op, op) ∈ memberships) {vs : List Value}
    (hvalue : l.value = .set (.list vs)) {ls : List LeafCondition}
    (hls : List.Forall₂ (fun l' v => l.Compares l' op (.set v)) ls vs) {ss : List Scalar} :
    Reading event l field (ss.map .scalar) ↔
      ls ≠ [] ∧ List.Forall₂ (fun l' s => Reading event l' field [.scalar s]) ls ss := by
  have hoperands : validatedOperands field.fieldType l = .ok (ss.map .scalar) ↔
      ls ≠ [] ∧ List.Forall₂ (fun l' s => validatedOperands field.fieldType l' = .ok [.scalar s]) ls ss :=
    validatedOperands_membership hop hvalue hls
  have hfield := field_of_members hls
  constructor
  · intro h
    obtain ⟨hne, hreads⟩ := hoperands.mp h.operands
    refine ⟨hne, forall₂_imp_of_mem hreads fun l' hl' s hs => ?_⟩
    exact ⟨hfield l' hl' ▸ h.resolved, hfield l' hl' ▸ h.typed, hs⟩
  · rintro ⟨hne, hreads⟩
    obtain ⟨l', hl'⟩ := List.exists_mem_of_ne_nil _ hne
    obtain ⟨s, -, h⟩ := exists_of_forall₂ hreads l' hl'
    refine ⟨hfield l' hl' ▸ h.resolved, hfield l' hl' ▸ h.typed, hoperands.mpr ⟨hne, ?_⟩⟩
    exact forall₂_imp_of_mem hreads fun l' _ s hs => hs.operands

theorem leafTruth_membership (hop : (l.op, op) ∈ memberships) {vs : List Value}
    (hvalue : l.value = .set (.list vs)) {ls : List LeafCondition}
    (hls : List.Forall₂ (fun l' v => l.Compares l' op (.set v)) ls vs) {ss : List Scalar}
    (h : Reading event l field (ss.map .scalar)) :
    leafTruth event l = .disj (ls.map (leafTruth event)) := by
  obtain ⟨hne, hreads⟩ := (reading_members hop hvalue hls).mp h
  obtain ⟨-, hexist, hexist', -⟩ := memberships_require _ hop
  have hop' : ∀ l' ∈ ls, l'.op = op := fun l' hl' => by
    obtain ⟨v, -, -, h, -⟩ := exists_of_forall₂ hls l' hl'
    exact h
  rcases h.typed.value with ⟨hpresent, s₀, hs₀, -⟩ | ⟨-, hs₀⟩
  · obtain ⟨b, hb, htruth⟩ := h.present hexist hpresent hs₀
    have hmembers : ∃ bs, List.Forall₂ (fun s b => compare s₀ op [.scalar s] = .ok b) ss bs ∧
        ls.map (leafTruth event) = bs.map .ofPolarity := by
      clear h hb htruth hls hvalue hne
      induction hreads with
      | nil => exact ⟨[], .nil, rfl⟩
      | @cons l' s ls ss hl' _ ih =>
        obtain ⟨bs, hbs, hmap⟩ := ih fun d hd => hop' d (by simp [hd])
        have hl'op := hop' l' (by simp)
        obtain ⟨b, hb, htruth⟩ := hl'.present (hl'op ▸ hexist') hpresent hs₀
        exact ⟨b :: bs, .cons (hl'op ▸ hb) hbs, by rw [List.map_cons, htruth, hmap, List.map_cons]⟩
    obtain ⟨bs, hbs, hmap⟩ := hmembers
    rw [htruth, hmap, Truth.disj_map_ofPolarity, compare_membership hop hb hbs]
  · rw [h.absent hexist hs₀, Truth.disj_unknown (by simpa using hne)]
    intro v hv
    obtain ⟨l', hl', rfl⟩ := List.mem_map.mp hv
    obtain ⟨s, -, hread⟩ := exists_of_forall₂ hreads l' hl'
    exact hread.absent (hop' l' hl' ▸ hexist') hs₀

section Range

variable {l₁ l₂ : LeafCondition}

theorem reading_range (hop : l.op = .greaterOrEqual) (h₁ : l.Compares l₁ .greaterThan l.value) :
    Reading event l field operands ↔ Reading event l₁ field operands := by
  obtain ⟨hfield₁, hop₁, hvalue₁⟩ := h₁
  have hoperands : validatedOperands field.fieldType l = .ok operands ↔
      validatedOperands field.fieldType l₁ = .ok operands := by
    rw [validatedOperands_scalar_iff (by rw [hop]; decide) (by rw [hop]; decide) (by rw [hop]; decide),
      validatedOperands_scalar_iff (by rw [hop₁]; decide) (by rw [hop₁]; decide) (by rw [hop₁]; decide),
      @operatorFits_congr l.op l₁.op _ (by rw [hop, hop₁]; decide)
        (by rw [hop, hop₁]; decide), hvalue₁]
    simp only [literal_congr_iff l.field l₁.field l.op l₁.op]
  constructor
  · intro h
    exact ⟨hfield₁ ▸ h.resolved, hfield₁ ▸ h.typed, hoperands.mp h.operands⟩
  · intro h
    exact ⟨hfield₁ ▸ h.resolved, hfield₁ ▸ h.typed, hoperands.mpr h.operands⟩

/-- Equality asks for less than an order. -/
theorem reading_equals (hop : l.op = .greaterOrEqual) (h₂ : l.Compares l₂ .equals l.value)
    (h : Reading event l field operands) : Reading event l₂ field operands := by
  obtain ⟨hfield₂, hop₂, hvalue₂⟩ := h₂
  refine ⟨hfield₂ ▸ h.resolved, hfield₂ ▸ h.typed, ?_⟩
  have hoperands := h.operands
  rw [validatedOperands_scalar_iff (by rw [hop]; decide) (by rw [hop]; decide) (by rw [hop]; decide)]
    at hoperands
  rw [validatedOperands_scalar_iff (by rw [hop₂]; decide) (by rw [hop₂]; decide) (by rw [hop₂]; decide),
    hop₂, hvalue₂]
  obtain ⟨-, s, hs, hoperands⟩ := hoperands
  exact ⟨⟨nofun, nofun⟩, s, literal_congr hs _ _, hoperands⟩

theorem leafTruth_range (hop : l.op = .greaterOrEqual) (h₁ : l.Compares l₁ .greaterThan l.value)
    (h₂ : l.Compares l₂ .equals l.value) (h : Reading event l field operands) :
    leafTruth event l = .disj [leafTruth event l₁, leafTruth event l₂] := by
  have hread₁ := (reading_range hop h₁).mp h
  have hread₂ := reading_equals hop h₂ h
  have hexist : l.op ∉ existenceOperators := by rw [hop]; decide
  have hexist₁ : l₁.op ∉ existenceOperators := by rw [h₁.2.1]; decide
  have hexist₂ : l₂.op ∉ existenceOperators := by rw [h₂.2.1]; decide
  rcases h.typed.value with ⟨hpresent, s, hs, -⟩ | ⟨-, hs⟩
  · obtain ⟨b, hb, htruth⟩ := h.present hexist hpresent hs
    obtain ⟨b₁, hb₁, htruth₁⟩ := hread₁.present hexist₁ hpresent hs
    obtain ⟨b₂, hb₂, htruth₂⟩ := hread₂.present hexist₂ hpresent hs
    rw [hop] at hb
    rw [h₁.2.1] at hb₁
    rw [h₂.2.1] at hb₂
    rw [htruth, htruth₁, htruth₂, compare_range hb hb₁ hb₂]
    cases b₁ <;> cases b₂ <;> rfl
  · rw [h.absent hexist hs, hread₁.absent hexist₁ hs, hread₂.absent hexist₂ hs]
    rfl

end Range

/-- A field is resolved in one way. -/
theorem Reading.field_eq {l₁ l₂ : LeafCondition} {field₁ field₂ : ResolvedField}
    {operands₁ operands₂ : List Operand} (h₁ : Reading event l₁ field₁ operands₁)
    (h₂ : Reading event l₂ field₂ operands₂) (hfield : l₁.field = l₂.field) : field₁ = field₂ := by
  have h := h₁.resolved
  rw [hfield, h₂.resolved] at h
  exact (Except.ok.inj h).symm

theorem Reading.scalars (hop : (l.op, op) ∈ memberships) (h : Reading event l field operands) :
    ∃ ss : List Scalar, operands = ss.map .scalar := by
  have hoperands := (validatedOperands_list_iff (memberships_require _ hop).1).mp h.operands
  obtain ⟨-, -, -, ss, -, -, hss⟩ := hoperands
  exact ⟨ss, hss⟩

/-- A list operator evaluates when its members do. -/
theorem leafEvaluates_membership (hutc : event.UtcRepresentable) (hop : (l.op, op) ∈ memberships)
    {vs : List Value} (hvalue : l.value = .set (.list vs)) {ls : List LeafCondition}
    (hls : List.Forall₂ (fun l' v => l.Compares l' op (.set v)) ls vs) :
    LeafEvaluates event l ↔ ls ≠ [] ∧ ∀ l' ∈ ls, LeafEvaluates event l' := by
  constructor
  · intro h
    obtain ⟨field, operands, hread⟩ := (leafEvaluates_iff hutc).mp h
    obtain ⟨ss, rfl⟩ := hread.scalars hop
    obtain ⟨hne, hreads⟩ := (reading_members hop hvalue hls).mp hread
    refine ⟨hne, fun l' hl' => ?_⟩
    obtain ⟨s, -, hs⟩ := exists_of_forall₂ hreads l' hl'
    exact (leafEvaluates_iff hutc).mpr ⟨field, _, hs⟩
  · rintro ⟨hne, h⟩
    obtain ⟨l₀, hl₀⟩ := List.exists_mem_of_ne_nil _ hne
    obtain ⟨field, _, hread₀⟩ := (leafEvaluates_iff hutc).mp (h l₀ hl₀)
    have hfield := field_of_members hls
    obtain ⟨-, -, hexist, hcidr, hlist, -⟩ := memberships_require _ hop
    have hreads : ∀ l' ∈ ls, ∃ s, Reading event l' field [.scalar s] := fun l' hl' => by
      obtain ⟨field', operands', hread'⟩ := (leafEvaluates_iff hutc).mp (h l' hl')
      obtain rfl := hread'.field_eq hread₀ ((hfield l' hl').trans (hfield l₀ hl₀).symm)
      obtain ⟨v, -, -, rfl, -⟩ := exists_of_forall₂ hls l' hl'
      obtain ⟨-, s, -, rfl⟩ := (validatedOperands_scalar_iff hexist hcidr hlist).mp hread'.operands
      exact ⟨s, hread'⟩
    obtain ⟨ss, hss⟩ := exists_forall₂ hreads
    exact (leafEvaluates_iff hutc).mpr ⟨field, _, (reading_members hop hvalue hls).mpr ⟨hne, hss⟩⟩

/-- **The two sides of a pair are interchangeable.** -/
theorem interchangeable_of_counterpart (hutc : event.UtcRepresentable) {a b : ConditionNode}
    (h : Counterpart a b) : Interchangeable event a b := by
  -- both evaluate on the same events, and then mean the same
  cases h with
  | @complement l l' op hop hl' =>
    constructor
    · show LeafEvaluates event l ↔ LeafEvaluates event l'
      simp only [leafEvaluates_iff hutc, reading_complement hop hl']
    · intro h
      obtain ⟨field, operands, hread⟩ := (leafEvaluates_iff hutc).mp h
      exact leafTruth_complement hop hl' hread
  | @membership l op vs ls hop hvalue hls =>
    constructor
    · rw [evaluates_any, List.forall_mem_map, ne_eq, List.map_eq_nil_iff]
      exact leafEvaluates_membership hutc hop hvalue hls
    · intro h
      obtain ⟨field, operands, hread⟩ := (leafEvaluates_iff hutc).mp h
      obtain ⟨ss, rfl⟩ := hread.scalars hop
      rw [meaning_any, List.map_map]
      exact leafTruth_membership hop hvalue hls hread
  | @range l l₁ l₂ hop h₁ h₂ =>
    constructor
    · have h₁₂ : LeafEvaluates event l ↔ LeafEvaluates event l₁ := by
        simp only [leafEvaluates_iff hutc, reading_range hop h₁]
      have hall : Evaluates event (.any [.leaf l₁, .leaf l₂]) ↔
          LeafEvaluates event l₁ ∧ LeafEvaluates event l₂ := by
        rw [evaluates_any]
        simp [Evaluates, ConditionNode.toFormula]
      rw [hall, ← h₁₂]
      refine ⟨fun h => ⟨h, ?_⟩, fun h => h.1⟩
      obtain ⟨field, operands, hread⟩ := (leafEvaluates_iff hutc).mp h
      exact (leafEvaluates_iff hutc).mpr ⟨field, operands, reading_equals hop h₂ hread⟩
    · intro h
      obtain ⟨field, operands, hread⟩ := (leafEvaluates_iff hutc).mp h
      rw [meaning_any]
      exact leafTruth_range hop h₁ h₂ hread

end Pairs

/-! ### Replacement -/

namespace Interchangeable

variable {event : NormalizedEvent} {a b c : ConditionNode}

theorem refl (event : NormalizedEvent) (a : ConditionNode) : Interchangeable event a a :=
  ⟨Iff.rfl, fun _ => rfl⟩

theorem symm (h : Interchangeable event a b) : Interchangeable event b a :=
  ⟨h.evaluates.symm, fun hb => (h.meaning (h.evaluates.mpr hb)).symm⟩

theorem trans (h : Interchangeable event a b) (h' : Interchangeable event b c) :
    Interchangeable event a c :=
  ⟨h.evaluates.trans h'.evaluates, fun ha => (h.meaning ha).trans (h'.meaning (h.evaluates.mp ha))⟩

theorem inAll (h : Interchangeable event a b) (cs ds : List ConditionNode) :
    Interchangeable event (.all (cs ++ a :: ds)) (.all (cs ++ b :: ds)) where
  evaluates := by simp [evaluates_all, or_imp, forall_and, h.evaluates]
  meaning ha := by
    rw [meaning_all, meaning_all, List.map_append, List.map_append, List.map_cons, List.map_cons,
      h.meaning ((evaluates_all.mp ha).2 a (by simp))]

theorem inAny (h : Interchangeable event a b) (cs ds : List ConditionNode) :
    Interchangeable event (.any (cs ++ a :: ds)) (.any (cs ++ b :: ds)) where
  evaluates := by simp [evaluates_any, or_imp, forall_and, h.evaluates]
  meaning ha := by
    rw [meaning_any, meaning_any, List.map_append, List.map_append, List.map_cons, List.map_cons,
      h.meaning ((evaluates_any.mp ha).2 a (by simp))]

theorem inNot (h : Interchangeable event a b) : Interchangeable event (.not_ a) (.not_ b) where
  evaluates := h.evaluates
  meaning ha := congrArg Truth.neg (h.meaning ha)

end Interchangeable

section Replacement

variable {event : NormalizedEvent} {c c' : ConditionNode}

theorem interchangeable_of_replacement (hutc : event.UtcRepresentable) (h : Replacement c c') :
    Interchangeable event c c' := by
  induction h with
  | counterpart h => exact interchangeable_of_counterpart hutc h
  | inAll _ ih => exact ih.inAll _ _
  | inAny _ ih => exact ih.inAny _ _
  | inNot _ ih => exact ih.inNot

/-- Any number of replacements, in both directions. -/
theorem interchangeable_of_replacements (hutc : event.UtcRepresentable)
    (h : Relation.EqvGen Replacement c c') : Interchangeable event c c' := by
  induction h with
  | rel _ _ h => exact interchangeable_of_replacement hutc h
  | refl c => exact .refl event c
  | symm _ _ _ ih => exact ih.symm
  | trans _ _ _ _ _ ih ih' => exact ih.trans ih'

/-- What interchangeable conditions evaluate to. -/
theorem Interchangeable.outcome (h : Interchangeable event c c') {t t' : ConditionTrace}
    (ht : evaluateCondition event c = .ok t) (ht' : evaluateCondition event c' = .ok t') :
    t.outcome = t'.outcome := by
  refine ConditionOutcome.truth_injective ?_
  rw [truth_of_evaluateCondition ht, truth_of_evaluateCondition ht',
    h.meaning (evaluateCondition_isOk_iff.mp ⟨t, ht⟩)]

/-- **Negative, list and range operators are their plain counterparts**: on a leaf that passes the check for
the category of the event both sides of a pair evaluate to the same outcome, and exchanging the sides of
such pairs anywhere in a tree changes neither whether it evaluates nor its outcome.  Every leaf with an operator
of a pair has the other side. -/
theorem operators_counterparts (hutc : event.UtcRepresentable) :
    (∀ a b, Counterpart a b → checkCondition event.category a = .ok () →
      ∃ t t', evaluateCondition event a = .ok t ∧ evaluateCondition event b = .ok t' ∧
        t.outcome = t'.outcome) ∧
    (∀ c c', Relation.EqvGen Replacement c c' →
      ((∃ t, evaluateCondition event c = .ok t) ↔ ∃ t', evaluateCondition event c' = .ok t') ∧
      ∀ t t', evaluateCondition event c = .ok t → evaluateCondition event c' = .ok t' →
        t.outcome = t'.outcome) ∧
    ∀ l : LeafCondition,
      (∀ op, (l.op, op) ∈ complements → ∃ l', Counterpart (.leaf l) (.not_ (.leaf l'))) ∧
      (∀ op, (l.op, op) ∈ memberships → ∃ ls : List LeafCondition, Counterpart (.leaf l) (.any (ls.map .leaf))) ∧
      (l.op = .greaterOrEqual → ∃ l₁ l₂, Counterpart (.leaf l) (.any [.leaf l₁, .leaf l₂])) := by
  refine ⟨?_, ?_, exists_counterpart⟩
  · intro a b h hcheck
    have hsame := interchangeable_of_counterpart hutc h
    have hwell : a.WellFormed := by cases h <;> trivial
    obtain ⟨t, ht⟩ := (evaluateCondition_follows hutc hwell).isOk_iff.mpr hcheck
    obtain ⟨t', ht'⟩ := evaluateCondition_isOk_iff.mpr
      (hsame.evaluates.mp (evaluateCondition_isOk_iff.mp ⟨t, ht⟩))
    exact ⟨t, t', ht, ht', hsame.outcome ht ht'⟩
  · intro c c' h
    have hsame := interchangeable_of_replacements hutc h
    refine ⟨?_, fun t t' ht ht' => hsame.outcome ht ht'⟩
    rw [evaluateCondition_isOk_iff, evaluateCondition_isOk_iff, hsame.evaluates]

/-- The logon is one of `alice` or `bob`. -/
theorem operators_counterparts_example : ∃ t t',
    evaluateCondition .exampleLogon
      (.leaf ⟨"context.user", .in_, .set (.list [.str "alice", .str "bob"]), by decide⟩) = .ok t ∧
    evaluateCondition .exampleLogon
      (.any [.leaf ⟨"context.user", .equals, .set (.str "alice"), by decide⟩,
        .leaf ⟨"context.user", .equals, .set (.str "bob"), by decide⟩]) = .ok t' ∧
    t.outcome = t'.outcome :=
  (operators_counterparts ⟨_, rfl⟩).1 _ _
    (@Counterpart.membership
      ⟨"context.user", .in_, .set (.list [.str "alice", .str "bob"]), by decide⟩ .equals _
      [⟨"context.user", .equals, .set (.str "alice"), by decide⟩,
        ⟨"context.user", .equals, .set (.str "bob"), by decide⟩]
      (by decide) rfl (.cons ⟨rfl, rfl, rfl⟩ (.cons ⟨rfl, rfl, rfl⟩ .nil))) (by decide)

end Replacement

end SocLab
