import SocLab.Detection.Success
import SocLab.Models.RuleParsing

/-!
# SocLab.Detection.Explanation — a trace explains its outcome

* `readLocation` reads a location back as the steps from the root, and `ConditionNode.follow` walks them.
* `TraceNode.recompute` computes the outcome of a node from the trace alone.
* `trace_explains`: a trace has the shape of the condition; every node stands for the sub-condition at its
  location, which evaluates on its own to the same outcome and evidence; and every outcome is the one that
  is recomputed.
-/

namespace SocLab

open Py Logic

/-! ### Locations -/

/-- One step of a location. -/
inductive LocationStep where
  | child (kind : TraceKind) (index : Nat)
  | not_
  deriving DecidableEq

/-- The index before a closing bracket. -/
def readIndex (cs : List Char) : Option Nat :=
  match cs.reverse with
  | ']' :: ds => if ds ≠ [] ∧ ds.all isAsciiDigit then some (Nat.ofDigitChars 10 ds.reverse 0) else none
  | _ => none

/-- `all[i]`, `any[i]` or `not`. -/
def readStep (segment : String) : Option LocationStep :=
  match segment.toList with
  | 'a' :: 'l' :: 'l' :: '[' :: cs => (readIndex cs).map (.child .all)
  | 'a' :: 'n' :: 'y' :: '[' :: cs => (readIndex cs).map (.child .any)
  | ['n', 'o', 't'] => some .not_
  | _ => none

/-- The steps behind the root `$`. -/
def readLocation (location : String) : Option (List LocationStep) :=
  match split location '.' with
  | "$" :: segments => segments.mapM readStep
  | _ => none

/-- The node that the steps lead to. -/
def ConditionNode.follow : ConditionNode → List LocationStep → Option ConditionNode
  | c, [] => some c
  | .not_ c, .not_ :: steps => c.follow steps
  | .all cs, .child .all i :: steps =>
    match cs[i]? with
    | some c => c.follow steps
    | none => none
  | .any cs, .child .any i :: steps =>
    match cs[i]? with
    | some c => c.follow steps
    | none => none
  | _, _ => none

section Locations

variable {location : String} {steps : List LocationStep}

theorem isAsciiDigit_of_mem_toDigits {n : Nat} {c : Char} (h : c ∈ Nat.toDigits 10 n) :
    isAsciiDigit c = true := by
  have hdigit := Nat.isDigit_of_mem_toDigits (by decide) (by decide) h
  simpa [isAsciiDigit, Char.isDigit, Char.le_def] using hdigit

theorem readIndex_toDigits (i : Nat) : readIndex (Nat.toDigits 10 i ++ [']']) = some i := by
  rw [readIndex, List.reverse_append]
  simpa [Nat.toDigits_ne_nil] using fun c => isAsciiDigit_of_mem_toDigits (n := i) (c := c)

/-- One segment more is one step more. -/
theorem readLocation_append {segment : String} {step : LocationStep} (hdot : '.' ∉ segment.toList)
    (hstep : readStep segment = some step) (h : readLocation location = some steps) :
    readLocation (location ++ "." ++ segment) = some (steps ++ [step]) := by
  have hsplit : split (location ++ "." ++ segment) '.' = split location '.' ++ [segment] := by
    rw [split, split, String.toList_append, String.toList_append, List.append_assoc]
    rw [show ".".toList ++ segment.toList = '.' :: segment.toList from rfl,
      List.splitOn_append_cons_self, List.splitOn_eq_singleton hdot]
    simp
  unfold readLocation at h ⊢
  rw [hsplit]
  split at h
  · next segments hsegments =>
    rw [hsegments, List.cons_append]
    simp [List.mapM_append, h, hstep]
  · cases h

theorem readLocation_not (h : readLocation location = some steps) :
    readLocation (notLocation location) = some (steps ++ [.not_]) := by
  have hnot : notLocation location = location ++ "." ++ "not" := by
    rw [notLocation, String.append_assoc]
    rfl
  rw [hnot]
  exact readLocation_append (by decide) rfl h

theorem readLocation_child {kind : TraceKind} (hkind : kind = .all ∨ kind = .any) (i : Nat)
    (h : readLocation location = some steps) :
    readLocation (childLocation location kind i) = some (steps ++ [.child kind i]) := by
  have hchild : childLocation location kind i =
      location ++ "." ++ (StrEnum.value kind ++ "[" ++ toString i ++ "]") := by
    simp only [childLocation, String.append_assoc]
  have hdot : '.' ∉ Nat.toDigits 10 i := fun hmem => absurd (isAsciiDigit_of_mem_toDigits hmem) (by decide)
  rw [hchild]
  rcases hkind with rfl | rfl
  · refine readLocation_append ?_ ?_ h
    · simp [StrEnum.value, hdot]
    · simp [readStep, StrEnum.value, readIndex_toDigits]
  · refine readLocation_append ?_ ?_ h
    · simp [StrEnum.value, hdot]
    · simp [readStep, StrEnum.value, readIndex_toDigits]

example : readLocation "$.all[0].not.any[12]" =
    some [.child .all 0, .not_, .child .any 12] := by decide

end Locations

/-! ### Traces -/

namespace TraceNode

def outcome (n : TraceNode) : ConditionOutcome := n.evidence.outcome

mutual

/-- The trace without its locations. -/
def erase : TraceNode → TraceNode
  | mk e .unset => mk { e with location := "" } .unset
  | mk e (.set cs) => mk { e with location := "" } (.set (eraseAll cs))

def eraseAll : List TraceNode → List TraceNode
  | [] => []
  | c :: cs => erase c :: eraseAll cs

end

theorem eraseAll_eq_map (cs : List TraceNode) : eraseAll cs = cs.map erase := by
  induction cs with
  | nil => rfl
  | cons c cs ih => rw [eraseAll, ih]; rfl

@[simp] theorem outcome_erase (n : TraceNode) : n.erase.outcome = n.outcome := by
  obtain ⟨e, cs⟩ := n
  cases cs <;> rfl

end TraceNode

@[simp] theorem ConditionTrace.outcome_node (t : ConditionTrace) : t.node.outcome = t.outcome := rfl

/-- The trace has the shape of the condition: the same kinds, and the same children in the same order. -/
inductive Isomorphic : ConditionNode → TraceNode → Prop
  | leaf {l e} : e.kind = .leaf → Isomorphic (.leaf l) (.mk e .unset)
  | all {cs e ns} : e.kind = .all → List.Forall₂ Isomorphic cs ns → Isomorphic (.all cs) (.mk e (.set ns))
  | any {cs e ns} : e.kind = .any → List.Forall₂ Isomorphic cs ns → Isomorphic (.any cs) (.mk e (.set ns))
  | not_ {c e n} : e.kind = .not_ → Isomorphic c n → Isomorphic (.not_ c) (.mk e (.set [n]))

section Shape

variable {event : NormalizedEvent} {location location' : String} {kind : TraceKind}
  {cs : List ConditionNode} {ts ts' : List ConditionTrace} {c : ConditionNode} {t t' : ConditionTrace}

/-- The children of a trace, one for each child of the condition. -/
theorem forall₂_of_evaluateFrom {i : Nat} (h : evaluateFrom event location kind i cs = .ok ts) :
    List.Forall₂ (fun c t => ∃ location, evaluate event location c = .ok t) cs ts := by
  rw [← List.zipIdx_map_fst i cs, List.forall₂_map_left_iff]
  exact (evaluateFrom_eq_ok.mp h).imp fun p t ht => ⟨_, ht⟩

/-- The place of a child. -/
theorem exists_child (h : evaluateFrom event location kind 0 cs = .ok ts) (ht : t ∈ ts) :
    ∃ i c, cs[i]? = some c ∧ evaluate event (childLocation location kind i) c = .ok t := by
  obtain ⟨p, hp, heval⟩ := exists_of_forall₂ (evaluateFrom_eq_ok.mp h).flip t ht
  exact ⟨p.2, p.1, List.mem_zipIdx_iff_getElem?.mp hp, heval⟩

theorem isomorphic_of_evaluate (h : evaluate event location c = .ok t) : Isomorphic c t.node := by
  have hnodes {location kind} {cs : List ConditionNode} {ts : List ConditionTrace}
      (ih : ∀ c ∈ cs, ∀ {location t}, evaluate event location c = .ok t → Isomorphic c t.node)
      (h : evaluateFrom event location kind 0 cs = .ok ts) :
      List.Forall₂ Isomorphic cs (ts.map (·.node)) := by
    rw [List.forall₂_map_right_iff]
    exact forall₂_imp_of_mem (forall₂_of_evaluateFrom h) fun c hc t ⟨_, ht⟩ => ih c hc ht
  induction c generalizing location t with
  | leaf l =>
    obtain ⟨field, operands, o, -, -, -, -, hnode⟩ := evaluateLeaf_eq_ok.mp h
    rw [hnode]
    exact .leaf rfl
  | all cs ih =>
    obtain ⟨ts, hts, hnode⟩ := node_of_evaluate_all h
    rw [hnode]
    exact .all rfl (hnodes ih hts)
  | any cs ih =>
    obtain ⟨ts, hts, hnode⟩ := node_of_evaluate_any h
    rw [hnode]
    exact .any rfl (hnodes ih hts)
  | not_ c ih =>
    obtain ⟨t', ht', hnode⟩ := node_of_evaluate_not h
    rw [hnode]
    exact .not_ rfl (ih ht')

theorem erases_of_evaluateFrom {i i' : Nat}
    (ih : ∀ c ∈ cs, ∀ {location location' t t'}, evaluate event location c = .ok t →
      evaluate event location' c = .ok t' → t.node.erase = t'.node.erase)
    (h : evaluateFrom event location kind i cs = .ok ts)
    (h' : evaluateFrom event location' kind i' cs = .ok ts') :
    ts.map (fun t => t.node.erase) = ts'.map (fun t => t.node.erase) := by
  induction cs generalizing i i' ts ts' with
  | nil =>
    cases h
    cases h'
    rfl
  | cons c cs ihcs =>
    simp only [evaluateFrom, bind_eq_ok] at h h'
    obtain ⟨t, ht, us, hus, h⟩ := h
    obtain ⟨t', ht', us', hus', h'⟩ := h'
    cases h
    cases h'
    rw [List.map_cons, List.map_cons, ih c (by simp) ht ht',
      ihcs (fun d hd => ih d (by simp [hd])) hus hus']

theorem outcomes_of_erases (h : ts.map (fun t => t.node.erase) = ts'.map (fun t => t.node.erase)) :
    ts.map (·.outcome) = ts'.map (·.outcome) := by
  have houtcomes := congrArg (List.map TraceNode.outcome) h
  rw [List.map_map, List.map_map] at houtcomes
  simpa [Function.comp_def] using houtcomes

/-- **The evidence of a tree does not depend on its place.** -/
theorem erase_eq_of_evaluate (h : evaluate event location c = .ok t)
    (h' : evaluate event location' c = .ok t') : t.node.erase = t'.node.erase := by
  -- over the condition: what an erased trace keeps does not depend on the location
  induction c generalizing location location' t t' with
  | leaf l =>
    obtain ⟨field, operands, o, hfield, hoperands, ho, -, hnode⟩ := evaluateLeaf_eq_ok.mp h
    obtain ⟨field', operands', o', hfield', hoperands', ho', -, hnode'⟩ := evaluateLeaf_eq_ok.mp h'
    rw [hfield] at hfield'
    cases hfield'
    rw [hoperands] at hoperands'
    cases hoperands'
    rw [ho] at ho'
    cases ho'
    rw [hnode, hnode']
    rfl
  | all cs ih =>
    obtain ⟨ts, hts, hnode⟩ := node_of_evaluate_all h
    obtain ⟨ts', hts', hnode'⟩ := node_of_evaluate_all h'
    have herases := erases_of_evaluateFrom ih hts hts'
    rw [hnode, hnode', outcomes_of_erases herases]
    simp [TraceNode.erase, TraceNode.eraseAll_eq_map]
    exact herases
  | any cs ih =>
    obtain ⟨ts, hts, hnode⟩ := node_of_evaluate_any h
    obtain ⟨ts', hts', hnode'⟩ := node_of_evaluate_any h'
    have herases := erases_of_evaluateFrom ih hts hts'
    rw [hnode, hnode', outcomes_of_erases herases]
    simp [TraceNode.erase, TraceNode.eraseAll_eq_map]
    exact herases
  | not_ c ih =>
    obtain ⟨u, hu, hnode⟩ := node_of_evaluate_not h
    obtain ⟨u', hu', hnode'⟩ := node_of_evaluate_not h'
    have herase := ih hu hu'
    have houtcome : u.outcome = u'.outcome := by
      simpa using congrArg TraceNode.outcome herase
    rw [hnode, hnode', houtcome]
    simp [TraceNode.erase, TraceNode.eraseAll_eq_map, herase]

end Shape

/-! ### The node at a location -/

section Nodes

variable {event : NormalizedEvent} {location : String} {c : ConditionNode} {t : ConditionTrace}

theorem mem_nodes_connective {e : TraceEvidence} {ts : List ConditionTrace} {n : TraceNode} :
    n ∈ (TraceNode.mk e (.set (ts.map (·.node)))).nodes ↔
      n = .mk e (.set (ts.map (·.node))) ∨ ∃ t ∈ ts, n ∈ t.node.nodes := by
  rw [TraceNode.mem_nodes_mk]
  simp

/-- The location of the node is that of `c` and some steps more, and the node is the trace, at its location,
of the sub-condition to which the steps lead. -/
def Traced (event : NormalizedEvent) (location : String) (c : ConditionNode) (n : TraceNode) : Prop :=
  ∃ steps c' t', (∀ pre, readLocation location = some pre → readLocation n.location = some (pre ++ steps)) ∧
    c.follow steps = some c' ∧ evaluate event n.location c' = .ok t' ∧ t'.node = n

theorem traced_self (h : evaluate event location c = .ok t) : Traced event location c t.node := by
  have hlocation : t.node.location = location := location_of_evaluate h
  refine ⟨[], c, t, fun pre hpre => ?_, ?_, ?_, rfl⟩
  · rw [hlocation, hpre, List.append_nil]
  · cases c <;> rfl
  · rw [hlocation, h]

/-- What is traced below a child of `all` or `any` is traced below the connective. -/
theorem Traced.child {kind : TraceKind} {i : Nat} {parent : ConditionNode} {n : TraceNode}
    (h : Traced event (childLocation location kind i) c n) (hkind : kind = .all ∨ kind = .any)
    (hfollow : ∀ steps, parent.follow (.child kind i :: steps) = c.follow steps) :
    Traced event location parent n := by
  obtain ⟨steps, c', t', hread, hc', heval, hn⟩ := h
  refine ⟨.child kind i :: steps, c', t', fun pre hpre => ?_, ?_, heval, hn⟩
  · have hchild : readLocation n.location = some (pre ++ [.child kind i] ++ steps) :=
      hread _ (readLocation_child hkind i hpre)
    rw [hchild, List.append_assoc, List.singleton_append]
  · rw [hfollow, hc']

/-- What is traced below the child of `not` is traced below `not`. -/
theorem Traced.not_ {n : TraceNode} (h : Traced event (location ++ ".not") c n) :
    Traced event location (.not_ c) n := by
  obtain ⟨steps, c', t', hread, hc', heval, hn⟩ := h
  refine ⟨.not_ :: steps, c', t', fun pre hpre => ?_, hc', heval, hn⟩
  have hchild : readLocation n.location = some (pre ++ [.not_] ++ steps) := hread _ (readLocation_not hpre)
  rw [hchild, List.append_assoc, List.singleton_append]

/-- **Every node of a trace is the trace of the sub-condition at its location.** -/
theorem traced_of_evaluate (h : evaluate event location c = .ok t) :
    ∀ n ∈ t.node.nodes, Traced event location c n := by
  -- over the condition; the location grows on the way down
  induction c generalizing location t with
  | leaf l =>
    intro n hn
    have hleaf : evaluateLeaf event l location = .ok t := h
    obtain ⟨field, operands, o, -, -, -, -, hnode⟩ := evaluateLeaf_eq_ok.mp hleaf
    rw [hnode, TraceNode.nodes, List.mem_singleton, ← hnode] at hn
    rw [hn]
    exact traced_self h
  | all cs ih =>
    intro n hn
    obtain ⟨ts, hts, hnode⟩ := node_of_evaluate_all h
    rw [hnode, mem_nodes_connective, ← hnode] at hn
    rcases hn with rfl | ⟨u, hu, hn⟩
    · exact traced_self h
    · obtain ⟨i, c, hc, heval⟩ := exists_child hts hu
      have hbelow := ih c (List.mem_of_getElem? hc) heval n hn
      exact hbelow.child (Or.inl rfl) fun steps => by rw [ConditionNode.follow, hc]
  | any cs ih =>
    intro n hn
    obtain ⟨ts, hts, hnode⟩ := node_of_evaluate_any h
    rw [hnode, mem_nodes_connective, ← hnode] at hn
    rcases hn with rfl | ⟨u, hu, hn⟩
    · exact traced_self h
    · obtain ⟨i, c, hc, heval⟩ := exists_child hts hu
      have hbelow := ih c (List.mem_of_getElem? hc) heval n hn
      exact hbelow.child (Or.inr rfl) fun steps => by rw [ConditionNode.follow, hc]
  | not_ c ih =>
    intro n hn
    obtain ⟨u, hu, hnode⟩ := node_of_evaluate_not h
    rw [hnode, ← List.map_singleton, mem_nodes_connective, List.map_singleton, ← hnode] at hn
    rcases hn with rfl | ⟨u', hu', hn⟩
    · exact traced_self h
    · rw [List.mem_singleton.mp hu'] at hn
      exact (ih hu n hn).not_

/-- The sub-condition at a node, evaluated on its own, has the evidence of the node. -/
theorem exists_evaluateCondition {n : TraceNode} {t : ConditionTrace}
    (h : evaluate event n.location c = .ok t) (hn : t.node = n) :
    ∃ t', evaluateCondition event c = .ok t' ∧ t'.node.erase = n.erase := by
  have hlocation : traceLocation.fullmatch n.location.toList = true := by
    rw [← hn]
    obtain ⟨⟨e, cs⟩, hvalid⟩ := t
    exact (validateTrace_eq_ok.mp (TraceNode.valid_mk.mp hvalid).1).location
  obtain ⟨t', ht'⟩ := evaluateCondition_isOk_iff.mpr ((evaluate_isOk_iff hlocation).mp ⟨t, h⟩)
  refine ⟨t', ht', ?_⟩
  rw [← hn]
  exact erase_eq_of_evaluate (evaluateCondition_eq_ok.mp ht') h

end Nodes

/-! ### Recomputing the outcomes -/

namespace Scalar

/-- The type of a value. -/
def kind : Scalar → FieldType
  | str _ => .string
  | int _ => .integer
  | datetime _ => .timestamp
  | ip _ => .ip

def ofValue : Value → Option Scalar
  | .str s => some (.str s)
  | .int n => some (.int n)
  | .datetime d => some (.datetime d)
  | .ip a => some (.ip a)
  | _ => none

@[simp] theorem ofValue_toValue (s : Scalar) : ofValue s.toValue = some s := by cases s <;> rfl

end Scalar

/-- The leaf that a trace reports, from its field, its operator and the operand it expects. -/
def TraceEvidence.leaf (e : TraceEvidence) : Option LeafCondition :=
  match e.field.get none, e.op.get none with
  | some field, some op =>
    match LeafCondition.init field op e.expected with
    | .ok l => some l
    | _ => none
  | _, _ => none

/-- The outcome of a leaf, from what its trace reports: an actual value or the reason of its absence. -/
def recomputeLeaf (e : TraceEvidence) : Option ConditionOutcome :=
  match e.leaf with
  | none => none
  | some leaf =>
    match e.actual, e.absence.get none with
    | .set v, none =>
      if leaf.op ∈ existenceOperators then some (outcome (leaf.op = .exists_))
      else
        match Scalar.ofValue v with
        | none => none
        | some actual =>
          match validatedOperands actual.kind leaf >>= compare actual leaf.op with
          | .ok b => some (outcome b)
          | .error _ => none
    | .unset, some _ =>
      if leaf.op ∈ existenceOperators then some (outcome (leaf.op = .notExists)) else some .unknown
    | _, _ => none

/-- The outcome of a connective, from the outcomes of its children. -/
def recomputeConnective : TraceKind → List ConditionOutcome → Option ConditionOutcome
  | .all, os => some (connective true os)
  | .any, os => some (connective false os)
  | .not_, [o] => some (negation o)
  | _, _ => none

namespace TraceNode

mutual

/-- The outcome of a node, from the trace alone. -/
def recompute : TraceNode → Option ConditionOutcome
  | mk e .unset => if e.kind = .leaf then recomputeLeaf e else none
  | mk e (.set cs) =>
    match recomputeAll cs with
    | some os => recomputeConnective e.kind os
    | none => none

def recomputeAll : List TraceNode → Option (List ConditionOutcome)
  | [] => some []
  | c :: cs =>
    match recompute c, recomputeAll cs with
    | some o, some os => some (o :: os)
    | _, _ => none

end

end TraceNode

section Recompute

variable {event : NormalizedEvent} {location path : String} {kind : TraceKind} {field : ResolvedField}
  {leaf : LeafCondition} {operands : List Operand} {o : ConditionOutcome}

/-- What a value resolves to: absence, or a scalar of the declared type. -/
theorem resolved_cases {ft : FieldType} {v : Value} (h : resolved path ft v = .ok field) :
    v = .none ∧ field = ⟨path, ft, .absent, none⟩ ∨
      ∃ s, Scalar.ofValue (enumText v) = some s ∧ s.kind = ft ∧ field = ⟨path, ft, .present, some s⟩ := by
  unfold resolved at h
  dsimp only at h
  split at h
  · cases h
    exact Or.inl ⟨rfl, rfl⟩
  · refine Or.inr ?_
    split at h
    · next htext => cases h; exact ⟨_, by rw [htext]; rfl, rfl, rfl⟩
    · next htext => cases h; exact ⟨_, by rw [htext]; rfl, rfl, rfl⟩
    · next htext => cases h; exact ⟨_, by rw [htext]; rfl, rfl, rfl⟩
    · next htext =>
      split at h
      · cases h; exact ⟨_, by rw [htext]; rfl, rfl, rfl⟩
      · cases h
      · cases h
    · cases h

theorem value_of_resolved {ft : FieldType} {v : Value} (h : resolved path ft v = .ok field) :
    field.value = Scalar.ofValue (enumText v) := by
  rcases resolved_cases h with ⟨rfl, rfl⟩ | ⟨s, hs, -, rfl⟩
  · rfl
  · exact hs.symm

/-- A field that resolves is present with a value of its type, or there is none. -/
theorem presence_of_resolved {ft : FieldType} {v : Value} (h : resolved path ft v = .ok field) :
    field.fieldType = ft ∧
      ((field.presence = .present ∧ ∃ s, field.value = some s ∧ s.kind = ft) ∨
        (field.presence ≠ .present ∧ field.value = none)) := by
  rcases resolved_cases h with ⟨-, rfl⟩ | ⟨s, -, hkind, rfl⟩
  · exact ⟨rfl, Or.inr ⟨by simp, rfl⟩⟩
  · exact ⟨rfl, Or.inl ⟨rfl, s, rfl, hkind⟩⟩

theorem presence_of_resolveEventField (h : resolveEventField event path = .ok field) :
    (field.presence = .present ∧ ∃ s, field.value = some s ∧ s.kind = field.fieldType) ∨
      (field.presence ≠ .present ∧ field.value = none) := by
  rw [resolveEventField] at h
  obtain ⟨ft, -, h⟩ := bind_eq_ok.mp h
  have hresolved {v : Value} (h : resolved path ft v = .ok field) :
      (field.presence = .present ∧ ∃ s, field.value = some s ∧ s.kind = field.fieldType) ∨
        (field.presence ≠ .present ∧ field.value = none) := by
    obtain ⟨hft, hpresence⟩ := presence_of_resolved h
    rw [hft]
    exact hpresence
  split_ifs at h with hsource hcontext hcategory
  · split at h
    · cases h
      exact Or.inr ⟨by simp, rfl⟩
    · exact hresolved h
  · obtain ⟨v, -, h⟩ := bind_eq_ok.mp h
    exact hresolved h
  · obtain ⟨v, -, h⟩ := bind_eq_ok.mp h
    exact hresolved h

/-- The trace expects the operand as the leaf gives it. -/
theorem expected_leafEvidence : (leafEvidence field leaf location o).expected = leaf.value := by
  by_cases hop : leaf.op ∈ existenceOperators
  · rw [leaf.value_of_existence hop]
    exact if_pos hop
  · obtain ⟨v, hv, -⟩ := leaf.value_of_comparison hop
    rw [hv]
    refine (if_neg hop).trans ?_
    rw [hv]
    rfl

theorem leaf_leafEvidence : (leafEvidence field leaf location o).leaf = some leaf := by
  have hinit : LeafCondition.init leaf.field leaf.op leaf.value = Py.Validation.ok leaf :=
    LeafCondition.init_eq_ok.mpr ⟨rfl, rfl, rfl⟩
  show (match LeafCondition.init leaf.field leaf.op (leafEvidence field leaf location o).expected with
    | .ok l => some l
    | _ => none) = some leaf
  rw [expected_leafEvidence, hinit]

/-- The trace of a present field has its value, and with it the comparison is made again. -/
theorem recomputeLeaf_of_present {s : Scalar} (hpresent : field.presence = .present)
    (hs : field.value = some s) (hkind : s.kind = field.fieldType)
    (hoperands : validatedOperands field.fieldType leaf = .ok operands)
    (ho : leafOutcome field leaf.op operands = .ok o) :
    recomputeLeaf (leafEvidence field leaf location o) = some o := by
  have hactual : (leafEvidence field leaf location o).actual = .set s.toValue := by
    simp [leafEvidence, hpresent, hs]
  have habsence : (leafEvidence field leaf location o).absence.get none = none := by
    simp [leafEvidence, hpresent]
  rw [recomputeLeaf, leaf_leafEvidence, hactual, habsence]
  dsimp only
  rw [leafOutcome, hpresent, hs] at ho
  by_cases hop : leaf.op ∈ existenceOperators
  · rw [if_pos hop] at ho ⊢
    cases ho
    by_cases hexists : leaf.op = .exists_ <;> simp [hexists]
  · rw [if_neg hop] at ho ⊢
    obtain ⟨b, hb, ho⟩ := bind_eq_ok.mp ho
    cases ho
    rw [Scalar.ofValue_toValue]
    dsimp only
    rw [hkind, hoperands, ok_bind, hb]

/-- The trace of an absent field has the reason, and no comparison is made. -/
theorem recomputeLeaf_of_absent (hpresent : field.presence ≠ .present) (hs : field.value = none)
    (ho : leafOutcome field leaf.op operands = .ok o) :
    recomputeLeaf (leafEvidence field leaf location o) = some o := by
  have hactual : (leafEvidence field leaf location o).actual = .unset := by
    cases hp : field.presence <;> simp [leafEvidence, hp] at hpresent ⊢
  obtain ⟨absence, habsence⟩ : ∃ a, (leafEvidence field leaf location o).absence.get none = some a := by
    cases hp : field.presence <;> simp [leafEvidence, hp] at hpresent ⊢
  rw [recomputeLeaf, leaf_leafEvidence, hactual, habsence]
  dsimp only
  rw [leafOutcome, hs] at ho
  by_cases hop : leaf.op ∈ existenceOperators
  · have hexistence : leaf.op = .exists_ ∨ leaf.op = .notExists := by
      simpa [existenceOperators] using hop
    rw [if_pos hop] at ho ⊢
    cases ho
    rcases hexistence with h | h <;> simp [h, hpresent]
  · rw [if_neg hop] at ho ⊢
    cases hp : field.presence <;>
    · rw [hp] at ho
      cases ho
      rfl

/-- **The outcome of a leaf is recomputed from its trace.** -/
theorem recomputeLeaf_leafEvidence (hfield : resolveEventField event leaf.field = .ok field)
    (hoperands : validatedOperands field.fieldType leaf = .ok operands)
    (ho : leafOutcome field leaf.op operands = .ok o) :
    recomputeLeaf (leafEvidence field leaf location o) = some o := by
  rcases presence_of_resolveEventField hfield with ⟨hpresent, s, hs, hkind⟩ | ⟨hpresent, hs⟩
  · exact recomputeLeaf_of_present hpresent hs hkind hoperands ho
  · exact recomputeLeaf_of_absent hpresent hs ho

theorem recomputeAll_eq {cs : List TraceNode} (h : ∀ c ∈ cs, c.recompute = some c.outcome) :
    TraceNode.recomputeAll cs = some (cs.map (·.outcome)) := by
  induction cs with
  | nil => rfl
  | cons c cs ih =>
    rw [TraceNode.recomputeAll, h c (by simp), ih fun d hd => h d (by simp [hd])]
    rfl

/-- **The outcome of a trace is recomputed from the trace.** -/
theorem recompute_of_evaluate {c : ConditionNode} {t : ConditionTrace}
    (h : evaluate event location c = .ok t) : t.node.recompute = some t.outcome := by
  have hall {location kind} {cs : List ConditionNode} {ts : List ConditionTrace}
      (ih : ∀ c ∈ cs, ∀ {location t}, evaluate event location c = .ok t →
        t.node.recompute = some t.outcome)
      (h : evaluateFrom event location kind 0 cs = .ok ts) :
      TraceNode.recomputeAll (ts.map (·.node)) = some (ts.map (·.outcome)) := by
    rw [recomputeAll_eq, List.map_map]
    · rfl
    · intro n hn
      obtain ⟨t, ht, rfl⟩ := List.mem_map.mp hn
      obtain ⟨c, hc, _, heval⟩ := exists_of_forall₂ (forall₂_of_evaluateFrom h).flip t ht
      exact ih c hc heval
  rw [← ConditionTrace.outcome_node]
  -- over the condition; the children of `all` and `any` are recomputed in order
  induction c generalizing location t with
  | leaf l =>
    obtain ⟨field, operands, o, hfield, hoperands, ho, -, hnode⟩ := evaluateLeaf_eq_ok.mp h
    rw [hnode]
    exact recomputeLeaf_leafEvidence hfield hoperands ho
  | all cs ih =>
    obtain ⟨ts, hts, hnode⟩ := node_of_evaluate_all h
    rw [hnode, TraceNode.recompute, hall ih hts]
    rfl
  | any cs ih =>
    obtain ⟨ts, hts, hnode⟩ := node_of_evaluate_any h
    rw [hnode, TraceNode.recompute, hall ih hts]
    rfl
  | not_ c ih =>
    obtain ⟨u, hu, hnode⟩ := node_of_evaluate_not h
    rw [hnode, TraceNode.recompute, TraceNode.recomputeAll, ih hu]
    rfl

end Recompute

/-! ### The explanation -/

/-- The evidence of a leaf: its field, its operator and its operand, and either the value of the resolved
field or the reason why there is none. -/
structure LeafExplained (resolved : ResolvedField) (l : LeafCondition) (e : TraceEvidence) : Prop where
  field : e.field = .set (some l.field)
  op : e.op = .set (some l.op)
  expected : e.expected = l.value
  actual : (∃ s, resolved.presence = .present ∧ resolved.value = some s ∧ e.actual = .set s.toValue ∧
      e.absence = .unset) ∨
    (resolved.presence = .missing ∧ e.actual = .unset ∧ e.absence = .set (some .missing)) ∨
    (resolved.presence = .absent ∧ e.actual = .unset ∧ e.absence = .set (some .absent))

/-- A node explains the condition: the condition evaluates on its own to the outcome and the evidence of
the node, a leaf has the evidence of its field, and the outcome is the one that the trace gives. -/
structure TraceNode.Explains (event : NormalizedEvent) (n : TraceNode) (c : ConditionNode) : Prop where
  alone : ∃ t, evaluateCondition event c = .ok t ∧ t.outcome = n.outcome ∧ t.node.erase = n.erase
  leaf : ∀ l, c = .leaf l → ∃ field, resolveEventField event l.field = .ok field ∧
    LeafExplained field l n.evidence
  recomputed : n.recompute = some n.outcome

section Explains

variable {event : NormalizedEvent} {location : String} {c : ConditionNode} {t : ConditionTrace}

theorem leafExplained {l : LeafCondition} (h : evaluateLeaf event l location = .ok t) :
    ∃ field, resolveEventField event l.field = .ok field ∧ LeafExplained field l t.node.evidence := by
  obtain ⟨field, operands, o, hfield, -, -, -, hnode⟩ := evaluateLeaf_eq_ok.mp h
  refine ⟨field, hfield, ?_⟩
  rw [hnode]
  refine ⟨rfl, rfl, expected_leafEvidence, ?_⟩
  rcases presence_of_resolveEventField hfield with ⟨hpresent, s, hs, -⟩ | ⟨hpresent, -⟩
  · exact Or.inl ⟨s, hpresent, hs, by simp [leafEvidence, TraceNode.evidence, hpresent, hs],
      by simp [leafEvidence, TraceNode.evidence, hpresent]⟩
  · cases hp : field.presence with
    | present => exact absurd hp hpresent
    | missing => exact Or.inr (Or.inl ⟨rfl, by simp [leafEvidence, TraceNode.evidence, hp]⟩)
    | absent => exact Or.inr (Or.inr ⟨rfl, by simp [leafEvidence, TraceNode.evidence, hp]⟩)

theorem explains_of_evaluate {n : TraceNode} (h : evaluate event n.location c = .ok t)
    (hn : t.node = n) : n.Explains event c := by
  obtain ⟨t', ht', herase⟩ := exists_evaluateCondition h hn
  refine ⟨⟨t', ht', ?_, herase⟩, fun l hl => ?_, ?_⟩
  · simpa using congrArg TraceNode.outcome herase
  · rw [hl] at h
    rw [← hn]
    exact leafExplained h
  · rw [← hn]
    exact recompute_of_evaluate h

/-- **A trace explains its outcome**: it has the shape of the condition, and every node explains the
sub-condition that its location leads to. -/
theorem trace_explains (h : evaluateCondition event c = .ok t) :
    Isomorphic c t.node ∧ ∀ n ∈ t.node.nodes, ∃ steps c', readLocation n.location = some steps ∧
      c.follow steps = some c' ∧ n.Explains event c' := by
  rw [evaluateCondition_eq_ok] at h
  refine ⟨isomorphic_of_evaluate h, fun n hn => ?_⟩
  obtain ⟨steps, c', t', hread, hfollow, heval, ht'⟩ := traced_of_evaluate h n hn
  exact ⟨steps, c', hread [] (by decide), hfollow, explains_of_evaluate heval ht'⟩

end Explains

/-- The trace of the example rule on the example logon. -/
theorem trace_explains_example : ∃ t, evaluateCondition .exampleLogon
    DetectionRule.exampleRule.condition.val = .ok t ∧ t.node.recompute = some .true := by
  obtain ⟨t, ht, houtcome⟩ := exists_of_map_ok (show (evaluateCondition .exampleLogon
    DetectionRule.exampleRule.condition.val).map (·.outcome) = .ok .true by decide)
  have hroot : t.node ∈ t.node.nodes := by
    obtain ⟨⟨e, cs⟩, hvalid⟩ := t
    cases cs <;> simp [TraceNode.nodes]
  obtain ⟨steps, c', -, -, hexplains⟩ := (trace_explains ht).2 t.node hroot
  refine ⟨t, ht, ?_⟩
  rw [hexplains.recomputed, ConditionTrace.outcome_node, houtcome]

end SocLab
