import SocLab.Detection.Cidr
import SocLab.Detection.Evidence
import SocLab.Detection.Operators

/-!
# SocLab.Detection.Reference — what a rule means, without the code

A reference semantics of the rule language.  A `Datum` is what a field or an operand stands for; `Relates` says
what an operator asks of a datum and an operand, in terms of texts, numbers, instants and addresses; `Holds`
what a leaf asks of the datum of its field.  `Row.truth` is the truth value of a leaf for a raw event, and with
the connectives of Kleene logic `Row.verdict` that of a condition.

* `compare_iff`: the comparison of the evaluator is the one of the reference.
* `meaning_eq_verdict`: on the event that a normalizer makes of a raw event a condition means what it means
  there.
-/

namespace SocLab

open Py Kleene Logic

inductive Datum where
  | text (s : String)
  | number (n : Int)
  | instant (i : Instant)
  | address (a : IPAddress)
  deriving DecidableEq

/-- What the value of a field stands for: a date and time for its instant. -/
def Scalar.datum : Scalar → Option Datum
  | .str s => some (.text s)
  | .int n => some (.number n)
  | .datetime d => d.astimezone.toOption.map .instant
  | .ip a => some (.address a)

/-- What an operand stands for that is compared with a field of the type. -/
def operandDatum : FieldType → Value → Option Datum
  | .string, .str s => some (.text s)
  | .integer, .int n => some (.number n)
  | .ip, .str s => (ipAddress s).toOption.map .address
  | .timestamp, .str s =>
    match fromisoformat s with
    | .ok d => if d.Aware then d.astimezone.toOption.map .instant else none
    | .error _ => none
  | _, _ => none

/-- What an operator asks of a datum and one operand. -/
def DetectionOperator.Relates : DetectionOperator → Datum → Datum → Prop
  | .equals, x, y | .in_, x, y => x = y
  | .contains, .text s, .text t | .containsAny, .text s, .text t => t.toList <:+: s.toList
  | .startsWith, .text s, .text t => t.toList <+: s.toList
  | .endsWith, .text s, .text t => t.toList <:+ s.toList
  | .greaterThan, .number m, .number n => n < m
  | .greaterOrEqual, .number m, .number n => n ≤ m
  | .lessThan, .number m, .number n => m < n
  | .lessOrEqual, .number m, .number n => m ≤ n
  | _, _, _ => False

namespace LeafCondition

/-- The operands of a leaf. -/
def operandValues (l : LeafCondition) : List Value :=
  match l.value.get .none with
  | .list vs => vs
  | v => [v]

/-- What the leaf asks of the datum of its field. -/
def Holds (l : LeafCondition) (kind : FieldType) (x : Datum) : Prop :=
  match l.op with
  | .notEquals | .notIn => ∀ v ∈ l.operandValues, operandDatum kind v ≠ some x
  | .ipInCidr => ∃ a net, x = .address a ∧ networkOf l = some net ∧ a.inNetwork net = true
  | op => ∃ v ∈ l.operandValues, ∃ y, operandDatum kind v = some y ∧ op.Relates x y

end LeafCondition

open Classical in
/-- The truth value of a leaf, given what its path stands for. -/
noncomputable def LeafCondition.truth (category : EventCategory) (l : LeafCondition) (x : Option Datum) : Truth :=
  match l.op with
  | .exists_ => .ofPolarity x.isSome
  | .notExists => .ofPolarity x.isNone
  | _ =>
    match x with
    | none => .unknown
    | some x => .ofPolarity (decide (∃ kind, FieldPath category l.field kind ∧ l.Holds kind x))

/-- The truth value of a condition for a raw event. -/
noncomputable def Row.verdict (row : Row) (raw : RawWindowsEvent) (c : ConditionNode) : Truth :=
  c.toFormula.eval fun l => l.truth row.category ((row.evidence raw l.field).bind Scalar.datum)

/-! ### Values that are compared -/

namespace Datum

/-- The value with which the evaluator compares. -/
def scalar : Datum → Scalar
  | text s => .str s
  | number n => .int n
  | instant i => .datetime i.toDateTime
  | address a => .ip a

theorem eq_scalar (x y : Datum) : x.scalar.eq y.scalar = decide (x = y) := by
  cases x with
  | text s => cases y <;> simp [scalar, Scalar.eq, beq_eq_decide]
  | number n => cases y <;> simp [scalar, Scalar.eq, beq_eq_decide]
  | address a => cases y <;> simp [scalar, Scalar.eq]
  | instant i =>
    cases y with
    | instant j =>
      have hwall : i = j ↔ i.wall = j.wall := by
        cases i
        cases j
        simp
      simp [scalar, Scalar.eq, DateTime.eq, beq_eq_decide, hwall]
    | _ => simp [scalar, Scalar.eq]

theorem text_scalar {x : Datum} {t : String} : x.scalar.text = .ok t ↔ x = .text t := by
  cases x <;> simp [scalar, Scalar.text]

theorem number_scalar {x : Datum} {n : Int} : x.scalar.number = .ok n ↔ x = .number n := by
  cases x <;> simp [scalar, Scalar.number]

end Datum

section Values

variable {kind : FieldType} {op : DetectionOperator} {l : LeafCondition} {operands : List Operand} {x y : Datum}

theorem comparedValue_eq {s : Scalar} (h : s.datum = some x) : comparedValue s = .ok x.scalar := by
  cases s with
  | datetime d =>
    obtain ⟨i, hi, rfl⟩ := Option.map_eq_some_iff.mp h
    cases hutc : d.astimezone with
    | ok j =>
      rw [hutc] at hi
      cases hi
      rw [comparedValue, hutc]
      rfl
    | error e =>
      rw [hutc] at hi
      cases hi
  | str s => cases h; rfl
  | int n => cases h; rfl
  | ip a => cases h; rfl

/-- A value of a field type stands for something. -/
theorem exists_datum {s : Scalar} (h : s.HasType kind) : ∃ x, s.datum = some x := by
  cases s with
  | datetime d =>
    cases kind with
    | timestamp =>
      obtain ⟨-, i, hi⟩ := h
      exact ⟨.instant i, by rw [Scalar.datum, hi]; rfl⟩
    | _ => cases h
  | str s => exact ⟨_, rfl⟩
  | int n => exact ⟨_, rfl⟩
  | ip a => exact ⟨_, rfl⟩

theorem operandDatum_of_literal {field : String} {v : Value} {s : Scalar}
    (h : literal field kind op v = .ok s) : ∃ y, operandDatum kind v = some y ∧ s = y.scalar := by
  cases literal_eq_ok.mp h with
  | number n => exact ⟨.number n, rfl, rfl⟩
  | text t => exact ⟨.text t, rfl, rfl⟩
  | @address _ a ha => exact ⟨.address a, by rw [operandDatum, ha]; rfl, rfl⟩
  | @instant _ d o i hd ho hi =>
    exact ⟨.instant i, by rw [operandDatum, hd]; simp [DateTime.Aware, ho, hi, Except.toOption], rfl⟩

theorem data_of_literals {field : String} {vs : List Value} {scalars : List Scalar}
    (h : List.Forall₂ (fun v s => literal field kind op v = .ok s) vs scalars) :
    ∃ ys : List Datum, scalars = ys.map Datum.scalar ∧
      List.Forall₂ (fun v y => operandDatum kind v = some y) vs ys := by
  induction h with
  | nil => exact ⟨[], rfl, .nil⟩
  | cons hs _ ih =>
    obtain ⟨y, hy, rfl⟩ := operandDatum_of_literal hs
    obtain ⟨ys, rfl, hys⟩ := ih
    exact ⟨y :: ys, rfl, .cons hy hys⟩

/-- The operands that are compared stand for the operands of the leaf. -/
theorem exists_data (hexist : l.op ∉ existenceOperators) (hcidr : l.op ≠ .ipInCidr)
    (h : validatedOperands kind l = .ok operands) :
    ∃ ys : List Datum, operands = ys.map (fun y => .scalar y.scalar) ∧
      List.Forall₂ (fun v y => operandDatum kind v = some y) l.operandValues ys ∧
      (l.op ∉ Semantics.list → ∃ y, ys = [y]) := by
  by_cases hlist : l.op ∈ Semantics.list
  · obtain ⟨-, v, vs, scalars, hvalue, hscalars, rfl⟩ := (validatedOperands_list_iff hlist).mp h
    have hvalues : l.operandValues = v :: vs := by rw [LeafCondition.operandValues, hvalue]
    obtain ⟨ys, rfl, hys⟩ := data_of_literals hscalars
    rw [hvalues]
    exact ⟨ys, by rw [List.map_map]; rfl, hys, fun hnot => absurd hlist hnot⟩
  · obtain ⟨-, s, hs, rfl⟩ := (validatedOperands_scalar_iff hexist hcidr hlist).mp h
    obtain ⟨y, hy, rfl⟩ := operandDatum_of_literal hs
    have hvalues : l.operandValues = [l.value.get .none] := by
      rw [LeafCondition.operandValues]
      split
      · next vs hvs =>
        rw [hvs] at hs
        cases kind <;> cases hs
      · rfl
    rw [hvalues]
    exact ⟨[y], rfl, .cons hy .nil, fun _ => ⟨y, rfl⟩⟩

/-- What an operator asks of a datum and all of its operands. -/
def DetectionOperator.RelatesAll (op : DetectionOperator) (x : Datum) (ys : List Datum) : Prop :=
  if op = .notEquals ∨ op = .notIn then ∀ y ∈ ys, x ≠ y else ∃ y ∈ ys, op.Relates x y

theorem eqOperand_scalar : x.scalar.eqOperand (.scalar y.scalar) = decide (x = y) := Datum.eq_scalar x y

theorem any_eqOperand {ys : List Datum} :
    (ys.map fun y => Operand.scalar y.scalar).any x.scalar.eqOperand = true ↔ ∃ y ∈ ys, x = y := by
  rw [List.any_map, List.any_eq_true]
  simp [eqOperand_scalar]

theorem containsAny_data {t : String} {ys : List Datum} {b : Bool}
    (h : containsAny t (ys.map fun y => .scalar y.scalar) = .ok b) :
    b = true ↔ ∃ y ∈ ys, DetectionOperator.containsAny.Relates (.text t) y := by
  induction ys with
  | nil =>
    cases h
    simp
  | cons y ys ih =>
    obtain ⟨u, hu, hrest⟩ := bind_eq_ok.mp h
    obtain rfl := Datum.text_scalar.mp hu
    simp only [List.mem_cons, exists_eq_or_imp]
    split_ifs at hrest with hcontains
    · cases hrest
      refine iff_of_true rfl (Or.inl ?_)
      have hinfix : u.toList <:+: t.toList := of_decide_eq_true hcontains
      exact hinfix
    · rw [ih hrest]
      refine (or_iff_right fun hrelates => hcontains ?_).symm
      have hinfix : u.toList <:+: t.toList := hrelates
      exact decide_eq_true hinfix

/-- A comparison with what the operands stand for. -/
theorem compare_data {s : Scalar} (hs : s.datum = some x) (hexist : op ∉ existenceOperators)
    (hcidr : op ≠ .ipInCidr) {ys : List Datum} (hsingle : op ∉ Semantics.list → ∃ y, ys = [y]) {b : Bool}
    (h : compare s op (ys.map fun y => .scalar y.scalar) = .ok b) : b = true ↔ op.RelatesAll x ys := by
  rw [compare, comparedValue_eq hs, ok_bind] at h
  cases op with
  | equals =>
    obtain ⟨y, rfl⟩ := hsingle (by decide)
    cases h
    simp [DetectionOperator.RelatesAll, DetectionOperator.Relates, eqOperand_scalar]
  | notEquals =>
    obtain ⟨y, rfl⟩ := hsingle (by decide)
    cases h
    simp [DetectionOperator.RelatesAll, eqOperand_scalar]
  | in_ =>
    cases ys with
    | nil => cases h
    | cons y ys =>
      cases h
      rw [any_eqOperand]
      simp [DetectionOperator.RelatesAll, DetectionOperator.Relates]
  | notIn =>
    cases ys with
    | nil => cases h
    | cons y ys =>
      cases h
      rw [Bool.not_eq_true', ← Bool.not_eq_true, any_eqOperand, DetectionOperator.RelatesAll, if_pos (Or.inr rfl)]
      simp only [not_exists, not_and, ne_eq]
  | containsAny =>
    cases ys with
    | nil => cases h
    | cons y ys =>
      obtain ⟨t, ht, h⟩ := bind_eq_ok.mp h
      obtain rfl := Datum.text_scalar.mp ht
      rw [containsAny_data h]
      simp [DetectionOperator.RelatesAll]
  | contains | startsWith | endsWith =>
    obtain ⟨y, rfl⟩ := hsingle (by decide)
    obtain ⟨t, ht, h⟩ := bind_eq_ok.mp h
    obtain ⟨u, hu, h⟩ := bind_eq_ok.mp h
    obtain rfl := Datum.text_scalar.mp ht
    obtain rfl := Datum.text_scalar.mp hu
    cases h
    simp [DetectionOperator.RelatesAll, DetectionOperator.Relates, contains, startsWith, endsWith]
  | greaterThan | greaterOrEqual | lessThan | lessOrEqual =>
    obtain ⟨y, rfl⟩ := hsingle (by decide)
    obtain ⟨m, hm, h⟩ := bind_eq_ok.mp h
    obtain ⟨n, hn, h⟩ := bind_eq_ok.mp h
    obtain rfl := Datum.number_scalar.mp hm
    obtain rfl := Datum.number_scalar.mp hn
    cases h
    simp [DetectionOperator.RelatesAll, DetectionOperator.Relates]
  | ipInCidr => exact absurd rfl hcidr
  | exists_ => exact absurd (by decide) hexist
  | notExists => exact absurd (by decide) hexist

/-- What a leaf asks of a datum, by what its operands stand for. -/
theorem holds_iff (hcidr : l.op ≠ .ipInCidr) {ys : List Datum}
    (hys : List.Forall₂ (fun v y => operandDatum kind v = some y) l.operandValues ys) :
    l.Holds kind x ↔ l.op.RelatesAll x ys := by
  have hmem {p : Datum → Prop} :
      (∃ v ∈ l.operandValues, ∃ y, operandDatum kind v = some y ∧ p y) ↔ ∃ y ∈ ys, p y := by
    constructor
    · rintro ⟨v, hv, y, hvy, hp⟩
      obtain ⟨y', hy', hvy'⟩ := exists_of_forall₂ hys v hv
      obtain rfl : y = y' := Option.some.inj (hvy.symm.trans hvy')
      exact ⟨y, hy', hp⟩
    · rintro ⟨y, hy, hp⟩
      obtain ⟨v, hv, hvy⟩ := exists_of_forall₂ hys.flip y hy
      exact ⟨v, hv, y, hvy, hp⟩
  have hnone : (∀ v ∈ l.operandValues, operandDatum kind v ≠ some x) ↔ ∀ y ∈ ys, x ≠ y := by
    rw [← not_iff_not]
    push Not
    rw [← hmem]
    exact ⟨fun ⟨v, hv, h⟩ => ⟨v, hv, x, h, rfl⟩, fun ⟨v, hv, y, h, hxy⟩ => ⟨v, hv, hxy ▸ h⟩⟩
  unfold LeafCondition.Holds DetectionOperator.RelatesAll
  split
  · next hop => rw [if_pos (Or.inl hop), hnone]
  · next hop => rw [if_pos (Or.inr hop), hnone]
  · next hop => exact absurd hop hcidr
  · next hne hni _ => rw [if_neg (not_or.mpr ⟨hne, hni⟩), hmem]

theorem compare_cidr {s : Scalar} (hs : s.datum = some x) {net : IPNetwork} {b : Bool}
    (h : compare s .ipInCidr [.network net] = .ok b) :
    b = true ↔ ∃ a, x = .address a ∧ a.inNetwork net = true := by
  rw [compare, comparedValue_eq hs, ok_bind] at h
  cases x with
  | address a =>
    cases h
    simp
  | _ => cases h

/-- **The evaluator compares as the reference says.** -/
theorem compare_iff (hexist : l.op ∉ existenceOperators) (hoperands : validatedOperands kind l = .ok operands)
    {s : Scalar} (hs : s.datum = some x) {b : Bool} (h : compare s l.op operands = .ok b) :
    b = true ↔ l.Holds kind x := by
  by_cases hcidr : l.op = .ipInCidr
  · obtain ⟨net, hnet, rfl⟩ := operands_of_cidr hcidr hoperands
    rw [hcidr] at h
    rw [compare_cidr hs h, LeafCondition.Holds, hcidr]
    simp [hnet]
  · obtain ⟨ys, rfl, hys, hsingle⟩ := exists_data hexist hcidr hoperands
    rw [compare_data hs hexist hcidr hsingle h, holds_iff hcidr hys]

end Values

/-! ### Conditions -/

section Verdict

variable {event : NormalizedEvent} {l : LeafCondition} {field : ResolvedField} {operands : List Operand}
  {category : EventCategory}

/-- A path has one type for a category. -/
theorem FieldPath.unique {path : String} {kind kind' : FieldType} (h : FieldPath category path kind)
    (h' : FieldPath category path kind') : kind = kind' :=
  Except.ok.inj ((fieldType_of_fieldPath h).symm.trans (fieldType_of_fieldPath h'))

theorem LeafCondition.truth_none (hexist : l.op ∉ existenceOperators) : l.truth category none = .unknown := by
  unfold LeafCondition.truth
  split
  · next hop => exact absurd (hop ▸ by decide) hexist
  · next hop => exact absurd (hop ▸ by decide) hexist
  · rfl

open Classical in
theorem LeafCondition.truth_some (hexist : l.op ∉ existenceOperators) {kind : FieldType}
    (hpath : FieldPath category l.field kind) {x : Datum} {b : Bool} (hb : b = true ↔ l.Holds kind x) :
    l.truth category (some x) = .ofPolarity b := by
  have hholds : (∃ kind, FieldPath category l.field kind ∧ l.Holds kind x) ↔ b = true := by
    rw [hb]
    constructor
    · rintro ⟨kind', hpath', h⟩
      exact hpath'.unique hpath ▸ h
    · exact fun h => ⟨kind, hpath, h⟩
  unfold LeafCondition.truth
  split
  · next hop => exact absurd (hop ▸ by decide) hexist
  · next hop => exact absurd (hop ▸ by decide) hexist
  · exact congrArg Truth.ofPolarity (Bool.eq_iff_iff.mpr (decide_eq_true_iff.trans hholds))

/-- A leaf whose operands are valid has the truth value of the reference. -/
theorem Reading.truth_eq (hutc : event.UtcRepresentable) (h : Reading event l field operands) :
    leafTruth event l = l.truth event.category (field.value.bind Scalar.datum) := by
  have hpath : FieldPath event.category l.field field.fieldType :=
    fieldPath_of_fieldType (wellTyped_of_resolve hutc h.resolved).1
  by_cases hexist : l.op ∈ existenceOperators
  · obtain ⟨o, ho, htruth⟩ := h.exists_outcome
    rw [leafOutcome, if_pos hexist] at ho
    cases ho
    have hsome : (field.value.bind Scalar.datum).isSome = decide (field.presence = .present) := by
      rcases h.typed.value with ⟨hpresent, s, hs, htype⟩ | ⟨hpresent, hs⟩
      · obtain ⟨x, hx⟩ := exists_datum htype
        rw [hs, Option.bind_some, hx, hpresent]
        rfl
      · rw [hs, decide_eq_false hpresent]
        rfl
    rw [htruth, truth_outcome]
    simp only [existenceOperators, List.mem_cons, List.not_mem_nil, or_false] at hexist
    rcases hexist with hop | hop
    · unfold LeafCondition.truth
      rw [hop]
      dsimp only
      rw [if_pos rfl, hsome]
    · unfold LeafCondition.truth
      rw [hop]
      dsimp only
      rw [if_neg (by decide), ← Option.not_isSome, hsome, ← decide_not]
  · rcases h.typed.value with ⟨hpresent, s, hs, htype⟩ | ⟨-, hs⟩
    · obtain ⟨x, hx⟩ := exists_datum htype
      obtain ⟨b, hb, htruth⟩ := h.present hexist hpresent hs
      rw [htruth, hs, Option.bind_some, hx, LeafCondition.truth_some hexist hpath]
      exact compare_iff hexist h.operands hx hb
    · rw [h.absent hexist hs, hs, Option.bind_none, LeafCondition.truth_none hexist]

/-- **A condition means what it means for the raw event.**  The normalizer and the evaluator together agree with
the reference, on every condition that evaluates. -/
theorem meaning_eq_verdict {row : Row} {raw : RawWindowsEvent} {context : EventContext} (hwell : row.WellFormed)
    (hdescribes : row.Describes raw.eventDataDict context)
    (hutc : (EventData.normalized row.source raw context row.consumed).UtcRepresentable) {c : ConditionNode}
    {t : ConditionTrace}
    (h : evaluateCondition (EventData.normalized row.source raw context row.consumed) c = .ok t) :
    meaning (EventData.normalized row.source raw context row.consumed) c = row.verdict raw c := by
  have htotal := evaluateCondition_isOk_iff.mp ⟨t, h⟩
  refine Formula.Total.eval_congr (fun l hl => ?_) htotal
  obtain ⟨field, operands, hread⟩ := (leafEvaluates_iff hutc).mp hl
  rw [hread.truth_eq hutc, value_of_resolveEventField hwell hdescribes hread.resolved]
  exact congrArg (fun category => l.truth category _) hdescribes.category

end Verdict

/-! ### When a condition is true of a raw event -/

section True

variable {row : Row} {raw : RawWindowsEvent} {l : LeafCondition} {cs : List ConditionNode} {kind : FieldType}
  {data : StrDict} {c : Column} {path key : String}

theorem Row.verdict_all : row.verdict raw (.all cs) = .true ↔ ∀ c ∈ cs, row.verdict raw c = .true := by
  rw [Row.verdict, ConditionNode.toFormula, ConditionNode.toFormulas_eq_map, Formula.eval_all, Truth.conj_eq_true]
  simp [Row.verdict]

theorem Row.verdict_any : row.verdict raw (.any cs) = .true ↔ ∃ c ∈ cs, row.verdict raw c = .true := by
  rw [Row.verdict, ConditionNode.toFormula, ConditionNode.toFormulas_eq_map, Formula.eval_any, Truth.disj_eq_true]
  simp [Row.verdict]

theorem Row.verdict_leaf (hexist : l.op ∉ existenceOperators) (hpath : FieldPath row.category l.field kind) :
    row.verdict raw (.leaf l) = .true ↔
      ∃ x, (row.evidence raw l.field).bind Scalar.datum = some x ∧ l.Holds kind x := by
  rw [Row.verdict, ConditionNode.toFormula, Formula.eval_atom]
  cases (row.evidence raw l.field).bind Scalar.datum with
  | none => simp [LeafCondition.truth_none hexist]
  | some x =>
    by_cases hx : l.Holds kind x
    · rw [LeafCondition.truth_some hexist hpath (iff_of_true rfl hx)]
      exact iff_of_true rfl ⟨x, rfl, hx⟩
    · rw [LeafCondition.truth_some hexist hpath (iff_of_false Bool.false_ne_true hx)]
      refine iff_of_false (by decide) ?_
      rintro ⟨y, hy, hholds⟩
      cases hy
      exact hx hholds

/-- What the value of a column stands for. -/
def Column.datum (c : Column) (data : StrDict) : Option Datum :=
  ((c.value data).bind Scalar.ofValue).bind Scalar.datum

/-- A path of the context stands for the value of its column. -/
theorem Row.evidence_column (hsplit : split path '.' = ["context", key]) (hkey : key ≠ "outcome")
    (hc : row.columns.find? (·.key == key) = some c) :
    (row.evidence raw path).bind Scalar.datum = c.datum raw.eventDataDict := by
  rw [evidence_context hsplit, Row.contextValue, if_neg hkey, hc]
  rfl

theorem Column.datum_text (hkind : c.kind = .text) :
    c.datum data = (EventData.optionalText (data.get c.name)).map .text := by
  rw [Column.datum, Column.value]
  cases EventData.optionalText (data.get c.name) with
  | none => cases c.required <;> rfl
  | some text =>
    rw [hkind]
    rfl

theorem Column.datum_number (hkind : c.kind = .number false) :
    c.datum data = ((EventData.optionalText (data.get c.name)).bind (natural 10)).map .number := by
  rw [Column.datum, Column.value]
  cases EventData.optionalText (data.get c.name) with
  | none => cases c.required <;> rfl
  | some text =>
    rw [hkind, Option.bind_some]
    show (((natural 10 text).map Value.int).bind Scalar.ofValue).bind Scalar.datum = _
    cases natural 10 text <;> rfl

/-- A leaf that compares a text of the event log with one of some texts. -/
theorem Row.verdict_text {texts : List String} (hpath : FieldPath row.category l.field kind)
    (hsplit : split l.field '.' = ["context", key]) (hkey : key ≠ "outcome")
    (hc : row.columns.find? (·.key == key) = some c) (hstring : kind = .string) (hkind : c.kind = .text)
    (hop : l.op ∈ [.equals, .in_, .contains, .containsAny, .startsWith, .endsWith])
    (hvalues : l.operandValues = texts.map .str) :
    row.verdict raw (.leaf l) = .true ↔
      ∃ text, EventData.optionalText (raw.eventDataDict.get c.name) = some text ∧
        ∃ t ∈ texts, l.op.Relates (.text text) (.text t) := by
  have hexist : l.op ∉ existenceOperators := fun h => by
    revert hop h
    cases l.op <;> decide
  have hholds (text : String) : l.Holds kind (.text text) ↔ ∃ t ∈ texts, l.op.Relates (.text text) (.text t) := by
    subst hstring
    unfold LeafCondition.Holds
    rw [hvalues]
    split
    · next h => rw [h] at hop; exact absurd hop (by decide)
    · next h => rw [h] at hop; exact absurd hop (by decide)
    · next h => rw [h] at hop; exact absurd hop (by decide)
    · simp [operandDatum]
  rw [Row.verdict_leaf hexist hpath, Row.evidence_column hsplit hkey hc, Column.datum_text hkind]
  constructor
  · rintro ⟨x, hx, h⟩
    obtain ⟨text, htext, rfl⟩ := Option.map_eq_some_iff.mp hx
    exact ⟨text, htext, (hholds text).mp h⟩
  · rintro ⟨text, htext, h⟩
    exact ⟨.text text, by rw [htext]; rfl, (hholds text).mpr h⟩

end True

end SocLab
