import SocLab.Detection.Evaluator

/-!
# SocLab.Detection.Soundness — what passes the check evaluates

Type soundness of conditions.  The table of field types agrees with what an event holds
(`dumpField_common`, `dumpField_context`), so that a declared field resolves to a value of its type
(`resolveEventField_typed`); a comparison of a value with operands of its type cannot fail
(`compare_ok`); and the validator of traces accepts what the evaluator builds.  Together:
`evaluate_follows`, the evaluation of a well-formed tree fails exactly as the check for the category of
the event does.  `truth_of_evaluate`: where it succeeds, the outcome is the value of the tree in Kleene
logic.
-/

namespace SocLab

open Py Py.Validation Logic

/-! ### Values of a field type -/

namespace Scalar

def HasType : Scalar → FieldType → Prop
  | str _, .string => True
  | int _, .integer => True
  | ip _, .ip => True
  | datetime d, .timestamp => d.Aware ∧ ∃ i, d.astimezone = .ok i
  | _, _ => False

end Scalar

/-- What the fields of an event of a declared type hold. -/
inductive Fits : FieldType → Value → Prop
  | none (kind : FieldType) : Fits kind .none
  | str (s : String) : Fits .string (.str s)
  | source (e : EventSource) : Fits .string (StrEnum.toValue e)
  | category (e : EventCategory) : Fits .string (StrEnum.toValue e)
  | outcome (e : AuthenticationOutcome) : Fits .string (StrEnum.toValue e)
  | int (n : Int) : Fits .integer (.int n)
  | ip (a : IPAddress) : Fits .ip (.ip a)
  | datetime {d : DateTime} (haware : d.Aware) (hutc : ∃ i, d.astimezone = .ok i) :
    Fits .timestamp (.datetime d)

/-- A resolved field has a value of its type exactly when it is present. -/
structure ResolvedField.WellTyped (field : ResolvedField) (path : String) (kind : FieldType) : Prop where
  path_eq : field.path = path
  type_eq : field.fieldType = kind
  value : (field.presence = .present ∧ ∃ s, field.value = some s ∧ s.HasType kind) ∨
    (field.presence ≠ .present ∧ field.value = none)

theorem resolved_of_fits {path : String} {kind : FieldType} {v : Value} (h : Fits kind v) :
    ∃ field, resolved path kind v = .ok field ∧ field.WellTyped path kind := by
  cases h with
  | none => exact ⟨_, rfl, rfl, rfl, Or.inr ⟨by simp, rfl⟩⟩
  | str s => exact ⟨_, rfl, rfl, rfl, Or.inl ⟨rfl, _, rfl, trivial⟩⟩
  | source e => exact ⟨_, rfl, rfl, rfl, Or.inl ⟨rfl, _, rfl, trivial⟩⟩
  | category e => exact ⟨_, rfl, rfl, rfl, Or.inl ⟨rfl, _, rfl, trivial⟩⟩
  | outcome e => exact ⟨_, rfl, rfl, rfl, Or.inl ⟨rfl, _, rfl, trivial⟩⟩
  | int n => exact ⟨_, rfl, rfl, rfl, Or.inl ⟨rfl, _, rfl, trivial⟩⟩
  | ip a => exact ⟨_, rfl, rfl, rfl, Or.inl ⟨rfl, _, rfl, trivial⟩⟩
  | @datetime d haware hutc =>
    refine ⟨⟨path, .timestamp, .present, some (.datetime d)⟩, ?_, rfl, rfl,
      Or.inl ⟨rfl, _, rfl, haware, hutc⟩⟩
    obtain ⟨o, ho⟩ := haware
    simp [resolved, enumText, ho]

/-! ### The tables of field types -/

theorem fits_optionalStr (f : ModelField (Option String)) :
    Fits .string (optionalStr.enc (f.get none)).dump := by
  cases f.get none with
  | none => exact .none _
  | some s => exact .str s

theorem fits_optionalNonNegativeInteger (f : ModelField (Option NonNegativeInteger)) :
    Fits .integer (optionalNonNegativeInteger.enc (f.get none)).dump := by
  cases f.get none with
  | none => exact .none _
  | some n => exact .int n.val

theorem fits_optionalPort (f : ModelField (Option Port)) :
    Fits .integer (optionalPort.enc (f.get none)).dump := by
  cases f.get none with
  | none => exact .none _
  | some n => exact .int n.val

theorem fits_optionalIp (f : ModelField (Option IPAddress)) :
    Fits .ip (optionalIp.enc (f.get none)).dump := by
  cases f.get none with
  | none => exact .none _
  | some a => exact .ip a

theorem dumpField_common {event : NormalizedEvent} (hutc : event.UtcRepresentable) {name : String}
    {kind : FieldType} (h : commonFieldTypes.lookup name = some kind) :
    ∃ v, dumpField event.slots name = .ok v ∧ Fits kind v := by
  have hmem := mem_of_lookup h
  simp only [commonFieldTypes, List.mem_cons, Prod.mk.injEq, List.not_mem_nil, or_false] at hmem
  rcases hmem with ⟨rfl, rfl⟩ | ⟨rfl, rfl⟩ | ⟨rfl, rfl⟩ | ⟨rfl, rfl⟩ | ⟨rfl, rfl⟩ | ⟨rfl, rfl⟩ |
    ⟨rfl, rfl⟩ | ⟨rfl, rfl⟩
  · exact ⟨_, rfl, .source event.source⟩
  · exact ⟨_, rfl, .str event.provider.val⟩
  · exact ⟨_, rfl, .int event.eventId.val⟩
  · exact ⟨_, rfl, .str event.channel.val⟩
  · exact ⟨_, rfl, .datetime event.timestamp.property hutc⟩
  · exact ⟨_, rfl, .str event.computer.val⟩
  · exact ⟨_, rfl, fits_optionalNonNegativeInteger event.recordId⟩
  · exact ⟨_, rfl, .category event.category⟩

theorem dumpField_context {context : EventContext} {name : String} {kind : FieldType}
    (h : (contextFieldTypes context.category).lookup name = some kind) :
    ∃ v, dumpField context.slots name = .ok v ∧ Fits kind v := by
  have hmem := mem_of_lookup h
  cases context with
  | authentication c =>
    simp only [EventContext.category, contextFieldTypes, List.mem_cons, Prod.mk.injEq,
      List.not_mem_nil, or_false] at hmem
    rcases hmem with ⟨rfl, rfl⟩ | ⟨rfl, rfl⟩ | ⟨rfl, rfl⟩ | ⟨rfl, rfl⟩ | ⟨rfl, rfl⟩ | ⟨rfl, rfl⟩ |
      ⟨rfl, rfl⟩
    · exact ⟨_, rfl, .outcome c.outcome⟩
    · exact ⟨_, rfl, fits_optionalStr c.user⟩
    · exact ⟨_, rfl, fits_optionalStr c.domain⟩
    · exact ⟨_, rfl, fits_optionalNonNegativeInteger c.logonType⟩
    · exact ⟨_, rfl, fits_optionalIp c.sourceIp⟩
    · exact ⟨_, rfl, fits_optionalPort c.sourcePort⟩
    · exact ⟨_, rfl, fits_optionalStr c.workstation⟩
  | process c =>
    simp only [EventContext.category, contextFieldTypes, List.mem_cons, Prod.mk.injEq,
      List.not_mem_nil, or_false] at hmem
    rcases hmem with ⟨rfl, rfl⟩ | ⟨rfl, rfl⟩ | ⟨rfl, rfl⟩ | ⟨rfl, rfl⟩ | ⟨rfl, rfl⟩ | ⟨rfl, rfl⟩
    · exact ⟨_, rfl, .str c.image.val⟩
    · exact ⟨_, rfl, fits_optionalNonNegativeInteger c.processId⟩
    · exact ⟨_, rfl, fits_optionalStr c.commandLine⟩
    · exact ⟨_, rfl, fits_optionalNonNegativeInteger c.parentProcessId⟩
    · exact ⟨_, rfl, fits_optionalStr c.parentImage⟩
    · exact ⟨_, rfl, fits_optionalStr c.user⟩
  | network c =>
    simp only [EventContext.category, contextFieldTypes, List.mem_cons, Prod.mk.injEq,
      List.not_mem_nil, or_false] at hmem
    rcases hmem with ⟨rfl, rfl⟩ | ⟨rfl, rfl⟩ | ⟨rfl, rfl⟩ | ⟨rfl, rfl⟩ | ⟨rfl, rfl⟩ | ⟨rfl, rfl⟩ |
      ⟨rfl, rfl⟩
    · exact ⟨_, rfl, .ip c.sourceIp⟩
    · exact ⟨_, rfl, .int c.sourcePort.val⟩
    · exact ⟨_, rfl, .ip c.destinationIp⟩
    · exact ⟨_, rfl, .int c.destinationPort.val⟩
    · exact ⟨_, rfl, fits_optionalStr c.protocol⟩
    · exact ⟨_, rfl, fits_optionalNonNegativeInteger c.processId⟩
    · exact ⟨_, rfl, fits_optionalStr c.processImage⟩
  | file c =>
    simp only [EventContext.category, contextFieldTypes, List.mem_cons, Prod.mk.injEq,
      List.not_mem_nil, or_false] at hmem
    rcases hmem with ⟨rfl, rfl⟩ | ⟨rfl, rfl⟩ | ⟨rfl, rfl⟩
    · exact ⟨_, rfl, .str c.targetPath.val⟩
    · exact ⟨_, rfl, fits_optionalNonNegativeInteger c.processId⟩
    · exact ⟨_, rfl, fits_optionalStr c.processImage⟩
  | dns c =>
    simp only [EventContext.category, contextFieldTypes, List.mem_cons, Prod.mk.injEq,
      List.not_mem_nil, or_false] at hmem
    rcases hmem with ⟨rfl, rfl⟩ | ⟨rfl, rfl⟩ | ⟨rfl, rfl⟩ | ⟨rfl, rfl⟩ | ⟨rfl, rfl⟩
    · exact ⟨_, rfl, .str c.queryName.val⟩
    · exact ⟨_, rfl, fits_optionalStr c.queryStatus⟩
    · exact ⟨_, rfl, fits_optionalStr c.queryResults⟩
    · exact ⟨_, rfl, fits_optionalNonNegativeInteger c.processId⟩
    · exact ⟨_, rfl, fits_optionalStr c.processImage⟩

/-! ### Resolving a declared field -/

section Resolve

variable {event : NormalizedEvent} {path name : String} {kind : FieldType}

/-- A common field has no prefix. -/
theorem not_startsWith_of_common (h : commonFieldTypes.lookup path = some kind) :
    startsWith path "source_data." = false ∧ startsWith path "context." = false := by
  have hmem := mem_of_lookup h
  simp only [commonFieldTypes, List.mem_cons, Prod.mk.injEq, List.not_mem_nil, or_false] at hmem
  rcases hmem with ⟨rfl, -⟩ | ⟨rfl, -⟩ | ⟨rfl, -⟩ | ⟨rfl, -⟩ | ⟨rfl, -⟩ | ⟨rfl, -⟩ | ⟨rfl, -⟩ |
    ⟨rfl, -⟩ <;> decide

theorem startsWith_of_context (h : split path '.' = ["context", name]) :
    startsWith path "source_data." = false ∧ startsWith path "context." = true := by
  unfold startsWith
  rw [toList_of_split h]
  exact ⟨rfl, rfl⟩

theorem startsWith_of_sourceData (h : split path '.' = ["source_data", name]) :
    startsWith path "source_data." = true := by
  unfold startsWith
  rw [toList_of_split h]
  rfl

theorem fieldName_of_split {first : String} (h : split path '.' = [first, name]) :
    fieldName path = name := by
  rw [fieldName, h]
  rfl

/-- What a path that resolves reads from the event, by the kind of path. -/
theorem resolveEventField_common (hkind : fieldType path event.category = .ok kind)
    (h : commonFieldTypes.lookup path = some kind) :
    resolveEventField event path = dumpField event.slots path >>= resolved path kind := by
  obtain ⟨hsource, hcontext⟩ := not_startsWith_of_common h
  rw [resolveEventField, hkind, ok_bind, hsource, hcontext]
  rfl

theorem resolveEventField_context (hkind : fieldType path event.category = .ok kind)
    (h : split path '.' = ["context", name]) :
    resolveEventField event path = dumpField event.context.slots name >>= resolved path kind := by
  obtain ⟨hsource, hcontext⟩ := startsWith_of_context h
  rw [resolveEventField, hkind, ok_bind, hsource, hcontext, fieldName_of_split h]
  simp [event.context_matches]

theorem resolveEventField_sourceData (hkind : fieldType path event.category = .ok kind)
    (h : split path '.' = ["source_data", name]) :
    resolveEventField event path = match event.sourceDataDict.get name with
      | none => .ok ⟨path, kind, .missing, none⟩
      | some text => resolved path kind (.str text) := by
  rw [resolveEventField, hkind, ok_bind, startsWith_of_sourceData h, fieldName_of_split h]
  rfl

/-- **A declared field resolves to a value of its type.** -/
theorem resolveEventField_typed (hutc : event.UtcRepresentable)
    (h : fieldType path event.category = .ok kind) :
    ∃ field, resolveEventField event path = .ok field ∧ field.WellTyped path kind := by
  cases fieldPath_of_fieldType h with
  | common hlookup =>
    obtain ⟨v, hv, hfits⟩ := dumpField_common hutc hlookup
    rw [resolveEventField_common h hlookup, hv]
    exact resolved_of_fits hfits
  | context hsplit hlookup =>
    rw [← event.context_matches] at hlookup
    obtain ⟨v, hv, hfits⟩ := dumpField_context hlookup
    rw [resolveEventField_context h hsplit, hv]
    exact resolved_of_fits hfits
  | sourceData hsplit hname =>
    rw [resolveEventField_sourceData h hsplit]
    split
    · exact ⟨_, rfl, rfl, rfl, Or.inr ⟨by simp, rfl⟩⟩
    · exact resolved_of_fits (.str _)

theorem resolveEventField_error {e : Raised} (h : fieldType path event.category = .error e) :
    resolveEventField event path = .error e := by
  rw [resolveEventField, h, error_bind]

end Resolve

/-! ### Comparing with operands of the type -/

section Compare

variable {field : String} {kind : FieldType} {op : DetectionOperator} {leaf : LeafCondition}
  {operands : List Operand}

theorem literal_typed {v : Value} {s : Scalar} (h : literal field kind op v = .ok s) :
    s.HasType kind := by
  cases literal_eq_ok.mp h with
  | number | text | address => trivial
  | @instant _ _ _ i => exact ⟨DateTime.aware_toDateTime i, i, rfl⟩

/-- The operands of an operator other than the existence operators. -/
inductive OperandsFit : DetectionOperator → FieldType → List Operand → Prop
  | network (n : IPNetwork) : OperandsFit .ipInCidr .ip [.network n]
  | scalars {op kind s ss} (hcidr : op ≠ .ipInCidr) (hstring : op ∈ Semantics.string → kind = .string)
    (hinteger : op ∈ Semantics.integer → kind = .integer)
    (htyped : ∀ x ∈ s :: ss, Scalar.HasType x kind) :
    OperandsFit op kind ((s :: ss).map .scalar)

theorem validatedOperands_fit (hop : leaf.op ∉ existenceOperators)
    (h : validatedOperands kind leaf = .ok operands) : OperandsFit leaf.op kind operands := by
  unfold validatedOperands at h
  dsimp only at h
  rw [if_neg hop] at h
  -- the branches in the order of the source; an error gives no operands
  by_cases hincompatible : (leaf.op ∈ Semantics.string ∧ kind ≠ .string) ∨
      (leaf.op ∈ Semantics.integer ∧ kind ≠ .integer) ∨ (leaf.op = .ipInCidr ∧ kind ≠ .ip)
  · rw [if_pos hincompatible] at h
    cases h
  rw [if_neg hincompatible] at h
  simp only [not_or, not_and, not_not] at hincompatible
  obtain ⟨hstring, hinteger, hip⟩ := hincompatible
  by_cases hcidr : leaf.op = .ipInCidr
  · rw [if_pos hcidr] at h
    rw [hcidr, hip hcidr]
    split at h
    · split at h
      · cases h; exact .network _
      · cases h
      · cases h
    · cases h
  rw [if_neg hcidr] at h
  by_cases hlist : leaf.op ∈ Semantics.list
  · rw [if_pos hlist] at h
    split at h
    · next item items _ =>
      cases hscalars : (item :: items).mapM (literal leaf.field kind leaf.op) with
      | error e => rw [hscalars] at h; cases h
      | ok scalars =>
        rw [hscalars] at h
        cases h
        have hliterals : List.Forall₂ (fun s v => literal leaf.field kind leaf.op v = .ok s) scalars
            (item :: items) := (forall₂_of_mapM_ok hscalars).flip
        have htyped : ∀ s ∈ scalars, s.HasType kind := fun s hs => by
          obtain ⟨v, -, hv⟩ := exists_of_forall₂ hliterals s hs
          exact literal_typed hv
        cases hliterals with
        | cons _ _ => exact .scalars hcidr hstring hinteger htyped
    · cases h
  · rw [if_neg hlist] at h
    cases hliteral : literal leaf.field kind leaf.op (leaf.value.get .none) with
    | error e => rw [hliteral] at h; cases h
    | ok s =>
      rw [hliteral] at h
      cases h
      have htyped : ∀ x ∈ [s], Scalar.HasType x kind := fun x hx => by
        rw [List.mem_singleton.mp hx]
        exact literal_typed hliteral
      exact .scalars hcidr hstring hinteger htyped

theorem comparedValue_ok {actual : Scalar} (h : actual.HasType kind) :
    ∃ a, comparedValue actual = .ok a ∧ a.HasType kind := by
  cases actual with
  | datetime d =>
    cases kind with
    | timestamp =>
      obtain ⟨-, i, hi⟩ := h
      exact ⟨.datetime i.toDateTime, by rw [comparedValue, hi], DateTime.aware_toDateTime i, i, rfl⟩
    | _ => cases h
  | str s => exact ⟨_, rfl, h⟩
  | int n => exact ⟨_, rfl, h⟩
  | ip a => exact ⟨_, rfl, h⟩

theorem text_ok {s : Scalar} (h : s.HasType .string) : ∃ t, s.text = .ok t := by
  cases s with
  | str t => exact ⟨t, rfl⟩
  | _ => cases h

theorem number_ok {s : Scalar} (h : s.HasType .integer) : ∃ n, s.number = .ok n := by
  cases s with
  | int n => exact ⟨n, rfl⟩
  | _ => cases h

theorem containsAny_ok {t : String} {ss : List Scalar} (h : ∀ s ∈ ss, Scalar.HasType s .string) :
    ∃ b, containsAny t (ss.map .scalar) = .ok b := by
  induction ss with
  | nil => exact ⟨false, rfl⟩
  | cons s ss ih =>
    obtain ⟨u, hu⟩ := text_ok (h s (List.mem_cons_self ..))
    obtain ⟨b, hb⟩ := ih fun x hx => h x (List.mem_cons_of_mem _ hx)
    rw [List.map_cons, containsAny, Operand.text, hu, ok_bind, hb]
    split_ifs
    · exact ⟨true, rfl⟩
    · exact ⟨b, rfl⟩

/-- **A comparison with operands of the type of the field cannot fail.** -/
theorem compare_ok {actual : Scalar} (hactual : actual.HasType kind)
    (hop : op ∉ existenceOperators) (hoperands : OperandsFit op kind operands) :
    ∃ b, compare actual op operands = .ok b := by
  obtain ⟨a, ha, htype⟩ := comparedValue_ok hactual
  rw [compare, ha, ok_bind]
  cases hoperands with
  | network n =>
    cases a with
    | ip a => exact ⟨_, rfl⟩
    | _ => cases htype
  | @scalars _ _ s ss hcidr hstring hinteger htyped =>
    have hs := htyped s (List.mem_cons_self ..)
    -- the families of operators by what they need of both sides
    have htexts (h : op ∈ Semantics.string) : ∃ t u, a.text = .ok t ∧ s.text = .ok u := by
      rw [hstring h] at htype hs
      obtain ⟨t, ht⟩ := text_ok htype
      obtain ⟨u, hu⟩ := text_ok hs
      exact ⟨t, u, ht, hu⟩
    have hnumbers (h : op ∈ Semantics.integer) : ∃ m n, a.number = .ok m ∧ s.number = .ok n := by
      rw [hinteger h] at htype hs
      obtain ⟨m, hm⟩ := number_ok htype
      obtain ⟨n, hn⟩ := number_ok hs
      exact ⟨m, n, hm, hn⟩
    cases op with
    | equals | notEquals | in_ | notIn => exact ⟨_, rfl⟩
    | contains | startsWith | endsWith =>
      obtain ⟨t, u, ht, hu⟩ := htexts (by decide)
      simp [ht, hu, Operand.text]
    | containsAny =>
      obtain ⟨t, u, ht, hu⟩ := htexts (by decide)
      obtain ⟨b, hb⟩ : ∃ b, containsAny t ((s :: ss).map .scalar) = .ok b :=
        containsAny_ok fun x hx => hstring (by decide) ▸ htyped x hx
      rw [List.map_cons] at hb
      simp [ht, hb]
    | greaterThan | greaterOrEqual | lessThan | lessOrEqual =>
      obtain ⟨m, n, hm, hn⟩ := hnumbers (by decide)
      simp [hm, hn, Operand.number]
    | ipInCidr => exact absurd rfl hcidr
    | exists_ | notExists => exact absurd (by decide) hop

end Compare

/-! ### The meaning of a condition -/

namespace ConditionOutcome

open Kleene

def truth : ConditionOutcome → Truth
  | .true => .true
  | .false => .false
  | .unknown => .unknown

theorem truth_injective {a b : ConditionOutcome} (h : a.truth = b.truth) : a = b := by
  cases a <;> cases b <;> first | rfl | cases h

theorem truth_negation (a : ConditionOutcome) : (negation a).truth = .neg a.truth := by cases a <;> rfl

theorem mem_map_truth {a : ConditionOutcome} {l : List ConditionOutcome} :
    a.truth ∈ l.map truth ↔ a ∈ l := List.mem_map_of_injective fun _ _ => truth_injective

theorem truth_connective (conjunction : Bool) (l : List ConditionOutcome) :
    (connective conjunction l).truth =
      if conjunction then .conj (l.map truth) else .disj (l.map truth) := by
  have hf := mem_map_truth (a := .false) (l := l)
  have ht := mem_map_truth (a := .true) (l := l)
  have hu := mem_map_truth (a := .unknown) (l := l)
  simp only [truth] at hf ht hu
  cases conjunction
  · simp only [connective, Truth.disj, ht, hu]
    split_ifs <;> simp_all [truth]
  · simp only [connective, Truth.conj, hf, hu]
    split_ifs <;> simp_all [truth]

end ConditionOutcome

namespace ConditionNode

open Kleene

mutual

/-- The condition as a formula over its leaves. -/
def toFormula : ConditionNode → Formula LeafCondition
  | leaf l => .atom l
  | all children => .all (toFormulas children)
  | any children => .any (toFormulas children)
  | not_ child => .not (toFormula child)

def toFormulas : List ConditionNode → List (Formula LeafCondition)
  | [] => []
  | c :: cs => toFormula c :: toFormulas cs

end

theorem toFormulas_eq_map (cs : List ConditionNode) : toFormulas cs = cs.map toFormula := by
  induction cs with
  | nil => rfl
  | cons c cs ih => rw [toFormulas, ih]; rfl

end ConditionNode

/-- The truth value of a leaf for an event. -/
def leafTruth (event : NormalizedEvent) (leaf : LeafCondition) : Kleene.Truth :=
  let outcome : Except Raised ConditionOutcome := do
    let field ← resolveEventField event leaf.field
    let operands ← validatedOperands field.fieldType leaf
    leafOutcome field leaf.op operands
  match outcome with
  | .ok o => o.truth
  | .error _ => .unknown

/-- The truth value of a condition for an event, in strong Kleene logic. -/
def meaning (event : NormalizedEvent) (c : ConditionNode) : Kleene.Truth :=
  c.toFormula.eval (leafTruth event)

theorem meaning_all (event : NormalizedEvent) (cs : List ConditionNode) :
    meaning event (.all cs) = .conj (cs.map (meaning event)) := by
  rw [meaning, ConditionNode.toFormula, ConditionNode.toFormulas_eq_map, Kleene.Formula.eval_all,
    List.map_map]
  rfl

theorem meaning_any (event : NormalizedEvent) (cs : List ConditionNode) :
    meaning event (.any cs) = .disj (cs.map (meaning event)) := by
  rw [meaning, ConditionNode.toFormula, ConditionNode.toFormulas_eq_map, Kleene.Formula.eval_any,
    List.map_map]
  rfl

/-! ### The evaluation of a leaf -/

section Leaf

variable {event : NormalizedEvent} {leaf : LeafCondition} {kind : FieldType} {field : ResolvedField}
  {operands : List Operand} {location : String}

theorem leafOutcome_ok (hfield : field.WellTyped leaf.field kind)
    (hoperands : validatedOperands kind leaf = .ok operands) :
    ∃ o, leafOutcome field leaf.op operands = .ok o := by
  unfold leafOutcome
  by_cases hop : leaf.op ∈ existenceOperators
  · rw [if_pos hop]
    exact ⟨_, rfl⟩
  · rw [if_neg hop]
    rcases hfield.value with ⟨hpresent, s, hs, htype⟩ | ⟨habsent, hnone⟩
    · obtain ⟨b, hb⟩ := compare_ok htype hop (validatedOperands_fit hop hoperands)
      rw [hpresent, hs]
      exact ⟨outcome b, by simp [hb]⟩
    · rw [hnone]
      cases h : field.presence <;> exact ⟨.unknown, rfl⟩

theorem safeActual_toValue {s : Scalar} (h : s.HasType kind) : safeActual s.toValue = .ok true := by
  cases s with
  | datetime d =>
    cases kind with
    | timestamp =>
      obtain ⟨o, ho⟩ := h.1
      simp [Scalar.toValue, safeActual, ho, Except.map]
    | _ => cases h
  | _ => rfl

/-- The validator accepts the trace of a leaf. -/
theorem leafEvidence_shape (hfield : field.WellTyped leaf.field kind)
    (hlocation : traceLocation.fullmatch location.toList = true) (o : ConditionOutcome) :
    TraceShape (leafEvidence field leaf location o) [] where
  location := hlocation
  leaf _ := by
    refine ⟨rfl, leaf.field, leaf.op, rfl, rfl, leaf.valid_field, fun hop => ?_, fun hop => ?_⟩
    · simp [leafEvidence, hop]
    · obtain ⟨v, hv, hvalid⟩ := leaf.value_of_comparison hop
      exact ⟨v, by simp [leafEvidence, hop, hv], hvalid⟩
  logical h := absurd rfl h
  not_ h := by cases h
  list h := by rcases h with h | h <;> cases h
  redacted := rfl
  marker := by simp [leafEvidence]
  actual v hv := by
    rcases hfield.value with ⟨hpresent, s, hs, htype⟩ | ⟨habsent, -⟩
    · have hv' : v = s.toValue := by simpa [leafEvidence, hpresent, hs] using hv.symm
      rw [hv']
      exact ⟨safeActual_toValue htype, rfl, by simp [leafEvidence, hpresent]⟩
    · cases h : field.presence with
      | present => exact absurd h habsent
      | missing => simp [leafEvidence, h] at hv
      | absent => simp [leafEvidence, h] at hv
  evidence _ := by
    cases h : field.presence <;> simp [leafEvidence, h]

/-- A leaf evaluates as it is checked for the category of the event. -/
theorem evaluateLeaf_follows (hutc : event.UtcRepresentable)
    (hlocation : traceLocation.fullmatch location.toList = true) :
    Follows (checkLeaf event.category leaf) (evaluateLeaf event leaf location)
      fun t => t.location = location := by
  cases hkind : fieldType leaf.field event.category with
  | error e =>
    rw [checkLeaf, hkind, error_bind, evaluateLeaf, resolveEventField_error hkind, error_bind]
    exact .error e
  | ok kind =>
    obtain ⟨field, hfield, htyped⟩ := resolveEventField_typed hutc hkind
    rw [checkLeaf, hkind, ok_bind, evaluateLeaf, hfield, ok_bind, htyped.type_eq]
    cases hoperands : validatedOperands kind leaf with
    | error e => exact .error e
    | ok operands =>
      obtain ⟨o, ho⟩ := leafOutcome_ok htyped hoperands
      obtain ⟨t, ht, hnode⟩ :=
        ConditionTrace.init_ok .unset (leafEvidence_shape htyped hlocation o)
      rw [ok_bind, ok_bind, ho, ok_bind, ht]
      refine .pure ?_
      rw [ConditionTrace.location, hnode]
      rfl

end Leaf

/-! ### The evaluation of a tree -/

section Tree

variable {event : NormalizedEvent} {location : String}

/-- The validator accepts the trace of `all` or `any` over traces at the places of its children. -/
theorem list_shape (hlocation : traceLocation.fullmatch location.toList = true) {kind : TraceKind}
    (hkind : kind = .all ∨ kind = .any) {n : Nat} (hn : n ≠ 0) (o : ConditionOutcome) :
    TraceShape { location, kind, outcome := o } ((List.range' 0 n).map (childLocation location kind)) where
  location := hlocation
  leaf h := by rcases hkind with rfl | rfl <;> cases h
  logical _ := ⟨rfl, rfl, rfl, rfl, rfl, rfl⟩
  not_ h := by rcases hkind with rfl | rfl <;> cases h
  list _ := by
    refine ⟨by simpa using hn, fun p hp => ?_⟩
    obtain ⟨hi, hp⟩ := List.getElem?_eq_some_iff.mp (List.mem_zipIdx_iff_getElem?.mp hp)
    rw [← hp, List.getElem_map, List.getElem_range']
    simp
  redacted := rfl
  marker := by simp
  actual v hv := by cases hv
  evidence h := by rcases hkind with rfl | rfl <;> cases h

theorem not_shape (hlocation : traceLocation.fullmatch location.toList = true) (o : ConditionOutcome) :
    TraceShape { location, kind := .not_, outcome := o } [notLocation location] where
  location := hlocation
  leaf h := by cases h
  logical _ := ⟨rfl, rfl, rfl, rfl, rfl, rfl⟩
  not_ _ := rfl
  list h := by rcases h with h | h <;> cases h
  redacted := rfl
  marker := by simp
  actual v hv := by cases hv
  evidence h := by cases h

theorem connectiveTrace_ok {kind : TraceKind} {o : ConditionOutcome} {children : List ConditionTrace}
    (h : TraceShape { location, kind, outcome := o } (children.map (·.location))) :
    ∃ t, connectiveTrace location kind o children = .ok t ∧ t.location = location := by
  obtain ⟨t, ht, hnode⟩ := ConditionTrace.init_ok (.set children) h
  refine ⟨t, ?_, ?_⟩
  · rw [connectiveTrace, ht]
    rfl
  · rw [ConditionTrace.location, hnode]
    rfl

/-- The traces of the children are at their places. -/
theorem evaluateFrom_follows {kind : TraceKind} (hkind : kind = .all ∨ kind = .any)
    (hlocation : traceLocation.fullmatch location.toList = true) {cs : List ConditionNode}
    (h : ∀ c ∈ cs, ∀ location, traceLocation.fullmatch location.toList = true →
      Follows (checkCondition event.category c) (evaluate event location c)
        fun t => t.location = location) (i : Nat) :
    Follows (ConditionNode.visitList (checkLeaf event.category) cs)
      (evaluateFrom event location kind i cs)
      fun ts => ts.map (·.location) = (List.range' i cs.length).map (childLocation location kind) := by
  induction cs generalizing i with
  | nil => exact .pure rfl
  | cons c cs ih =>
    rw [ConditionNode.visitList, evaluateFrom]
    refine (h c (by simp) _ (traceLocation_child hlocation hkind i)).bind fun t ht => ?_
    refine (ih (fun d hd => h d (by simp [hd])) (i + 1)).bind_ok fun ts hts => ?_
    refine ⟨t :: ts, rfl, ?_⟩
    rw [List.map_cons, ht, hts, List.length_cons, List.range'_succ, List.map_cons]

/-- `all` and `any` over children whose evaluation follows their check. -/
theorem connective_follows {conjunction : Bool} {kind : TraceKind} {cs : List ConditionNode}
    (hkind : kind = .all ∨ kind = .any) (hne : cs ≠ [])
    (hlocation : traceLocation.fullmatch location.toList = true)
    (h : ∀ c ∈ cs, ∀ location, traceLocation.fullmatch location.toList = true →
      Follows (checkCondition event.category c) (evaluate event location c)
        fun t => t.location = location) :
    Follows (ConditionNode.visitList (checkLeaf event.category) cs)
      (do
        let children ← evaluateFrom event location kind 0 cs
        connectiveTrace location kind (connective conjunction (children.map (·.outcome))) children)
      fun t => t.location = location := by
  refine (evaluateFrom_follows hkind hlocation h 0).bind_ok fun ts hts => ?_
  exact connectiveTrace_ok (hts ▸ list_shape hlocation hkind (by simpa using hne) _)

/-- **Evaluation fails exactly as the check for the category of the event.** -/
theorem evaluate_follows (hutc : event.UtcRepresentable) {c : ConditionNode} (hc : c.WellFormed)
    (hlocation : traceLocation.fullmatch location.toList = true) :
    Follows (checkCondition event.category c) (evaluate event location c)
      fun t => t.location = location := by
  induction c generalizing location with
  | leaf l => exact evaluateLeaf_follows hutc hlocation
  | all cs ih =>
    rw [ConditionNode.WellFormed, ConditionNode.allWellFormed_iff] at hc
    rw [checkCondition, ConditionNode.visit, evaluate]
    exact connective_follows (Or.inl rfl) hc.1 hlocation fun c hmem _ => ih c hmem (hc.2 c hmem)
  | any cs ih =>
    rw [ConditionNode.WellFormed, ConditionNode.allWellFormed_iff] at hc
    rw [checkCondition, ConditionNode.visit, evaluate]
    exact connective_follows (Or.inr rfl) hc.1 hlocation fun c hmem _ => ih c hmem (hc.2 c hmem)
  | not_ c ih =>
    rw [evaluate]
    refine (ih hc (traceLocation_not hlocation)).bind_ok fun t ht => ?_
    refine connectiveTrace_ok ?_
    rw [List.map_singleton, ht]
    exact not_shape hlocation _

/-! ### The value of a tree -/

theorem outcome_of_connectiveTrace {kind : TraceKind} {o : ConditionOutcome}
    {children : List ConditionTrace} {t : ConditionTrace}
    (h : connectiveTrace location kind o children = .ok t) : t.outcome = o := by
  rw [ConditionTrace.outcome, ConditionTrace.node_of_init (ofValidation_eq_ok.mp h)]
  rfl

theorem truth_of_evaluateLeaf {leaf : LeafCondition} {t : ConditionTrace}
    (h : evaluateLeaf event leaf location = .ok t) : t.outcome.truth = leafTruth event leaf := by
  obtain ⟨field, hfield, h⟩ := bind_eq_ok.mp h
  obtain ⟨operands, hoperands, h⟩ := bind_eq_ok.mp h
  obtain ⟨o, ho, h⟩ := bind_eq_ok.mp h
  have htruth : leafTruth event leaf = o.truth := by
    simp [leafTruth, hfield, hoperands, ho]
  rw [htruth, ConditionTrace.outcome, ConditionTrace.node_of_init (ofValidation_eq_ok.mp h)]
  rfl

theorem truths_of_evaluateFrom {kind : TraceKind} {cs : List ConditionNode} {ts : List ConditionTrace}
    {i : Nat} (ih : ∀ c ∈ cs, ∀ {location t}, evaluate event location c = .ok t →
      t.outcome.truth = meaning event c)
    (h : evaluateFrom event location kind i cs = .ok ts) :
    (ts.map (·.outcome)).map ConditionOutcome.truth = cs.map (meaning event) := by
  induction cs generalizing i ts with
  | nil =>
    cases h
    rfl
  | cons c cs ihcs =>
    rw [evaluateFrom] at h
    obtain ⟨t, ht, h⟩ := bind_eq_ok.mp h
    obtain ⟨ts', hts', h⟩ := bind_eq_ok.mp h
    cases h
    rw [List.map_cons, List.map_cons, ih c (by simp) ht, ihcs (fun d hd => ih d (by simp [hd])) hts',
      List.map_cons]

/-- Whatever the event, an evaluation that succeeds gives the value of the tree in Kleene logic. -/
theorem truth_of_evaluate {c : ConditionNode} {t : ConditionTrace}
    (h : evaluate event location c = .ok t) : t.outcome.truth = meaning event c := by
  induction c generalizing location t with
  | leaf l => exact truth_of_evaluateLeaf h
  | all cs ih =>
    rw [evaluate] at h
    obtain ⟨ts, hts, h⟩ := bind_eq_ok.mp h
    rw [outcome_of_connectiveTrace h, ConditionOutcome.truth_connective, meaning_all,
      truths_of_evaluateFrom ih hts]
    rfl
  | any cs ih =>
    rw [evaluate] at h
    obtain ⟨ts, hts, h⟩ := bind_eq_ok.mp h
    rw [outcome_of_connectiveTrace h, ConditionOutcome.truth_connective, meaning_any,
      truths_of_evaluateFrom ih hts]
    rfl
  | not_ c ih =>
    rw [evaluate] at h
    obtain ⟨t', ht', h⟩ := bind_eq_ok.mp h
    rw [outcome_of_connectiveTrace h, ConditionOutcome.truth_negation, ih ht']
    rfl

theorem truth_of_evaluateCondition {c : ConditionNode} {t : ConditionTrace}
    (h : evaluateCondition event c = .ok t) : t.outcome.truth = meaning event c :=
  truth_of_evaluate (evaluateCondition_eq_ok.mp h)

/-- Evaluation from the root: no error is turned into another one. -/
theorem evaluateCondition_follows (hutc : event.UtcRepresentable) {c : ConditionNode}
    (hc : c.WellFormed) :
    Follows (checkCondition event.category c) (evaluateCondition event c)
      fun t => t.location = "$" := by
  have h : Follows (checkCondition event.category c) (evaluate event "$" c) (fun t => t.location = "$") :=
    evaluate_follows hutc hc (by decide)
  cases hcheck : checkCondition event.category c with
  | ok u =>
    rw [hcheck] at h
    obtain ⟨t, ht, hp⟩ := h
    refine ⟨t, ?_, hp⟩
    rw [evaluateCondition, ht]
  | error e =>
    obtain ⟨d, rfl⟩ := checkCondition_error hcheck
    have ht := (h.error_iff _).mpr hcheck
    rw [evaluateCondition, ht]
    exact .error _

/-- **Run-time errors depend only on the category and the condition, and are those of load time.** -/
theorem evaluateCondition_error_static {c : ConditionNode} (hc : c.WellFormed)
    {category : EventCategory} {e₁ e₂ : NormalizedEvent} (h₁ : e₁.category = category)
    (h₂ : e₂.category = category) (hutc₁ : e₁.UtcRepresentable) (hutc₂ : e₂.UtcRepresentable) :
    (evaluateCondition e₁ c).map (fun _ => ()) = (evaluateCondition e₂ c).map (fun _ => ()) ∧
      ∀ rule : DetectionRule, rule.condition.val = c → rule.categories.val = [category] →
        rule.sourceList.getD [] ≠ [] →
        (evaluateCondition e₁ c).map (fun _ => ()) = validateDetectionRuleSemantics rule := by
  have hrun (e : NormalizedEvent) (he : e.category = category) (hutc : e.UtcRepresentable) :
      (evaluateCondition e c).map (fun _ => ()) = checkCondition category c := by
    subst he
    have h := evaluateCondition_follows hutc hc
    cases hcheck : checkCondition e.category c with
    | ok u =>
      rw [hcheck] at h
      obtain ⟨t, ht, -⟩ := h
      rw [ht]
      rfl
    | error r =>
      rw [(h.error_iff r).mpr hcheck]
      rfl
  refine ⟨by rw [hrun e₁ h₁ hutc₁, hrun e₂ h₂ hutc₂], fun rule hrule hcategories hsources => ?_⟩
  rw [hrun e₁ h₁ hutc₁, validateDetectionRuleSemantics, hrule,
    validateNode_singleton hcategories hsources]

theorem evaluateCondition_error_static_example :
    (evaluateCondition .exampleLogon DetectionRule.exampleRule.condition.val).map (fun _ => ()) =
      validateDetectionRuleSemantics .exampleRule :=
  have hcategory : NormalizedEvent.exampleLogon.category = .authentication := rfl
  (evaluateCondition_error_static DetectionRule.exampleRule.condition.property hcategory hcategory
    ⟨_, rfl⟩ ⟨_, rfl⟩).2 .exampleRule rfl rfl (by decide)

end Tree

end SocLab
