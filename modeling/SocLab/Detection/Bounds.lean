import Mathlib.Algebra.BigOperators.Ring.Finset
import SocLab.Detection.Locations
import SocLab.Models.Copies
import SocLab.Models.RuleDocument

/-!
# SocLab.Detection.Bounds — the size of an explanation

* `measure_exact`: `_measure` is the depth and the number of leaves, counted by addresses.
* `encard_addresses_le`: how many nodes a condition of that depth and with that many leaves may have.
* `explanations_bounded`: an accepted rule explains itself in at most 449 nodes.
* `explanation_copies`: such an explanation can be copied.
-/

namespace SocLab

open Py Logic

namespace ConditionNode

/-- The children that `_measure` looks at. -/
def children : ConditionNode → List ConditionNode
  | leaf _ => []
  | all children | any children => children
  | not_ child => [child]

/-- `isinstance(node, LeafCondition)`. -/
def IsLeaf : ConditionNode → Prop
  | leaf _ => True
  | _ => False

/-! ### The measure -/

theorem isGreatest_depth (c : ConditionNode) : IsGreatest (levels children c) c.depth := by
  induction c with
  | leaf l =>
    have hnone : ∀ d ∈ (leaf l).children, IsGreatest (levels children d) d.depth := by simp [children]
    exact isGreatest_levels hnone
  | all cs ih =>
    rw [depth, depthAll_eq]
    exact isGreatest_levels ih
  | any cs ih =>
    rw [depth, depthAll_eq]
    exact isGreatest_levels ih
  | not_ c ih =>
    have hchild : ∀ d ∈ (not_ c).children, IsGreatest (levels children d) d.depth := by
      intro d hd
      rw [List.mem_singleton.mp hd]
      exact ih
    simpa [children, depth] using isGreatest_levels hchild

theorem encard_leaves (c : ConditionNode) : (addresses children IsLeaf c).encard = c.leaves.length := by
  have hlist {cs : List ConditionNode}
      (ih : ∀ c ∈ cs, (addresses children IsLeaf c).encard = c.leaves.length) :
      (cs.map fun c => (addresses children IsLeaf c).encard).sum = (leavesAll cs).length := by
    rw [List.map_congr_left ih, leavesAll_eq, List.length_flatMap, Nat.cast_list_sum, List.map_map]
    rfl
  classical
  induction c with
  | leaf l =>
    rw [encard_addresses]
    simp [IsLeaf, children, leaves]
  | all cs ih =>
    rw [encard_addresses, if_neg (show ¬ IsLeaf (all cs) from id), zero_add, leaves]
    exact hlist ih
  | any cs ih =>
    rw [encard_addresses, if_neg (show ¬ IsLeaf (any cs) from id), zero_add, leaves]
    exact hlist ih
  | not_ c ih =>
    rw [encard_addresses, if_neg (show ¬ IsLeaf (not_ c) from id), zero_add, leaves, ← ih]
    simp [children]

/-- **`_measure` is exact**: the deepest level that has a node, and the number of the addresses of leaves. -/
theorem measure_exact (c : ConditionNode) :
    IsGreatest (levels children c) c.measure.1 ∧ (addresses children IsLeaf c).encard = c.measure.2 := by
  rw [measure_eq]
  exact ⟨c.isGreatest_depth, c.encard_leaves⟩

/-! ### The number of nodes -/

theorem wellFormed_children {c : ConditionNode} (h : c.WellFormed) : ∀ d ∈ c.children, d.WellFormed := by
  cases c with
  | leaf l => exact fun d hd => absurd hd (by simp [children])
  | all cs => exact allWellFormed_iff.mp h.2
  | any cs => exact allWellFormed_iff.mp h.2
  | not_ c =>
    intro d hd
    rw [List.mem_singleton.mp hd]
    exact h

/-- Every well-formed condition has a leaf. -/
theorem exists_leaf (c : ConditionNode) (h : c.WellFormed) : ∃ p, p ∈ addresses children IsLeaf c := by
  have hfirst {parent c : ConditionNode} {cs : List ConditionNode} (hcs : parent.children = c :: cs)
      (hc : ∃ p, p ∈ addresses children IsLeaf c) : ∃ p, p ∈ addresses children IsLeaf parent := by
    obtain ⟨p, b, hb, hleaf⟩ := hc
    exact ⟨0 :: p, b, descend_cons_eq_some.mpr ⟨c, by rw [hcs]; rfl, hb⟩, hleaf⟩
  induction c with
  | leaf l => exact ⟨[], .leaf l, rfl, trivial⟩
  | all cs ih =>
    obtain ⟨c, cs, rfl⟩ := List.exists_cons_of_ne_nil h.1
    exact hfirst rfl (ih c (by simp) (allWellFormed_iff.mp h.2 c (by simp)))
  | any cs ih =>
    obtain ⟨c, cs, rfl⟩ := List.exists_cons_of_ne_nil h.1
    exact hfirst rfl (ih c (by simp) (allWellFormed_iff.mp h.2 c (by simp)))
  | not_ c ih => exact hfirst rfl (ih h)

/-- **The nodes of a condition**, one-child lists and chains of `not` included. -/
theorem encard_addresses_le {c : ConditionNode} {d n : Nat} (h : c.WellFormed) (hdepth : c.measure.1 ≤ d)
    (hleaves : c.measure.2 ≤ n) :
    (addresses children (fun _ => True) c).encard ≤ (1 + n * (d - 1) : Nat) := by
  obtain ⟨hgreatest, hencard⟩ := c.measure_exact
  refine encard_le_of_depth (L := addresses children IsLeaf c) ?_ ?_ ?_
  · rw [hencard]
    exact Nat.cast_le.mpr hleaves
  · rintro p ⟨b, hb, -⟩
    exact (hgreatest.2 ⟨p, ⟨b, hb, trivial⟩, rfl⟩).trans hdepth
  · rintro p ⟨b, hb, -⟩
    have hwf : b.WellFormed := descend_induction (fun a ha => wellFormed_children ha) h hb
    obtain ⟨q, l, hl, hleaf⟩ := exists_leaf b hwf
    exact ⟨q, l, by rw [descend_append hb, hl], hleaf⟩

end ConditionNode

/-! ### The explanation of a condition -/

section Explanation

variable {c : ConditionNode} {n : TraceNode}

theorem isomorphic_children (h : Isomorphic c n) : List.Forall₂ Isomorphic c.children n.childList := by
  cases h with
  | leaf => exact .nil
  | all _ hcs => exact hcs
  | any _ hcs => exact hcs
  | not_ _ hc => exact .cons hc .nil

theorem isLeaf_iff_kind (h : Isomorphic c n) : c.IsLeaf ↔ n.kind = .leaf := by
  cases h with
  | leaf hkind => exact iff_of_true trivial hkind
  | all hkind => exact iff_of_false id fun hleaf => absurd (hkind.symm.trans hleaf) (by decide)
  | any hkind => exact iff_of_false id fun hleaf => absurd (hkind.symm.trans hleaf) (by decide)
  | not_ hkind => exact iff_of_false id fun hleaf => absurd (hkind.symm.trans hleaf) (by decide)

/-- The list of the nodes counts the addresses. -/
theorem encard_addresses_nodes (P : TraceNode → Bool) (n : TraceNode) :
    (addresses TraceNode.childList (fun n => P n = true) n).encard = n.nodes.countP P := by
  have hall (cs : List TraceNode) :
      (TraceNode.nodesAll cs).countP P = (cs.map fun c => c.nodes.countP P).sum := by
    induction cs with
    | nil => rfl
    | cons c cs ih => rw [TraceNode.nodesAll, List.countP_append, ih]; rfl
  induction n with
  | mk e cs ih =>
    have hchildren : (TraceNode.mk e cs).childList = cs.get [] := rfl
    rw [encard_addresses, hchildren, List.map_congr_left ih, TraceNode.nodes_mk, List.countP_cons, hall, Nat.cast_add,
      Nat.cast_list_sum, List.map_map, add_comm]
    congr 1
    split_ifs <;> rfl

/-- The trace of a condition has its depth, its leaves and its nodes. -/
theorem trace_counts (h : Isomorphic c n) :
    IsGreatest (levels TraceNode.childList n) c.measure.1 ∧
      n.nodes.countP (fun n => n.kind = .leaf) = c.measure.2 ∧
      (n.nodes.length : ℕ∞) = (addresses ConditionNode.children (fun _ => True) c).encard := by
  have hstep := fun (c : ConditionNode) (n : TraceNode) (h : Isomorphic c n) => isomorphic_children h
  obtain ⟨hdepth, hleaves⟩ := c.measure_exact
  have hall : addresses ConditionNode.children (fun _ => True) c =
      addresses TraceNode.childList (fun _ => True) n :=
    addresses_eq_of_simulates hstep (fun _ _ _ => Iff.rfl) h
  refine ⟨?_, ?_, ?_⟩
  · rw [levels, ← hall]
    exact hdepth
  · have heq := addresses_eq_of_simulates hstep (fun _ _ h => isLeaf_iff_kind h) h
    have hcount := encard_addresses_nodes (fun n => n.kind = .leaf) n
    simp only [decide_eq_true_eq] at hcount
    rw [← heq, hleaves] at hcount
    exact (Nat.cast_inj.mp hcount).symm
  · have hcount := encard_addresses_nodes (fun _ => true) n
    rw [hall]
    simpa using hcount.symm

/-- **Explanations are bounded**: `_measure` is exact, and the trace of an accepted rule has at most 64 leaves,
8 levels and 449 nodes. -/
theorem explanations_bounded :
    (∀ c : ConditionNode, IsGreatest (levels ConditionNode.children c) c.measure.1 ∧
      (addresses ConditionNode.children ConditionNode.IsLeaf c).encard = c.measure.2) ∧
    ∀ (rule : DetectionRule) (event : NormalizedEvent) (t : ConditionTrace),
      evaluateCondition event rule.condition.val = .ok t →
        t.node.nodes.countP (fun n => n.kind = .leaf) ≤ 64 ∧
          (∀ p n, descend TraceNode.childList t.node p = some n → p.length + 1 ≤ 8) ∧
          t.node.nodes.length ≤ 1 + 64 * 7 := by
  refine ⟨ConditionNode.measure_exact, fun rule event t ht => ?_⟩
  have hbounds : rule.condition.val.measure.1 ≤ 8 ∧ rule.condition.val.measure.2 ≤ 64 := by
    rw [ConditionNode.measure_eq]
    exact (validateRule_iff.mp rule.valid).2.2.2.2.2.1
  obtain ⟨hdepth, hleaves, hlength⟩ := trace_counts (isomorphic_of_evaluate (evaluateCondition_eq_ok.mp ht))
  refine ⟨hleaves ▸ hbounds.2, fun p n hn => ?_, ?_⟩
  · exact (hdepth.2 ⟨p, ⟨n, hn, trivial⟩, rfl⟩).trans hbounds.1
  · have hnodes := ConditionNode.encard_addresses_le rule.condition.property hbounds.1 hbounds.2
    rw [← hlength] at hnodes
    exact Nat.cast_le.mp hnodes

end Explanation

/-! ### The copy of an explanation -/

section Copy

variable {event : NormalizedEvent} {c : ConditionNode} {n : TraceNode}

/-- The trace is as high as the condition is deep. -/
theorem height_of_isomorphic (h : Isomorphic c n) : n.height = c.depth := by
  have hall {cs : List ConditionNode} {ns : List TraceNode} (hcs : List.Forall₂ Isomorphic cs ns)
      (ih : ∀ c ∈ cs, ∀ {n}, Isomorphic c n → n.height = c.depth) :
      TraceNode.heightAll ns = ConditionNode.depthAll cs := by
    induction hcs with
    | nil => rfl
    | cons hc _ ihs =>
      rw [TraceNode.heightAll, ConditionNode.depthAll, ih _ List.mem_cons_self hc,
        ihs fun c hmem => ih c (List.mem_cons_of_mem _ hmem)]
  induction c generalizing n with
  | leaf l =>
    cases h
    rfl
  | all cs ih =>
    cases h with
    | all _ hcs => rw [TraceNode.height_mk, ModelField.get_set, hall hcs ih, ConditionNode.depth, add_comm]
  | any cs ih =>
    cases h with
    | any _ hcs => rw [TraceNode.height_mk, ModelField.get_set, hall hcs ih, ConditionNode.depth, add_comm]
  | not_ c ih =>
    cases h with
    | not_ _ hc => simp [TraceNode.height_mk, TraceNode.heightAll, ih hc, ConditionNode.depth, add_comm]

/-- A datetime that a path resolves to is the timestamp of the event. -/
theorem eq_timestamp_of_resolve {path : String} {field : ResolvedField} {d : DateTime}
    (h : resolveEventField event path = .ok field) (hd : field.value = some (.datetime d)) :
    d = event.timestamp.val := by
  have hresolved {kind : FieldType} {v : Value} (h : resolved path kind v = .ok field) : v = .datetime d := by
    rw [value_of_resolved h] at hd
    cases v with
    | datetime d' =>
      cases hd
      rfl
    | enum cls text =>
      unfold enumText at hd
      dsimp only at hd
      split_ifs at hd <;> cases hd
    | _ => cases hd
  have hdump {slots : List Slot} {name : String} {kind : FieldType}
      (h : dumpField slots name >>= resolved path kind = .ok field) : ∃ s ∈ slots, s.value.dump = .datetime d := by
    obtain ⟨v, hv, h⟩ := bind_eq_ok.mp h
    unfold dumpField at hv
    split at hv
    · next s hs =>
      cases hv
      exact ⟨s, List.mem_of_find?_eq_some hs, hresolved h⟩
    · cases hv
  have hplain {s : Slot} (hs : s.Plain) : s.value.dump ≠ .datetime d := by
    rw [Value.dump_scalar hs.atomic.scalar]
    exact hs.atomic.ne_datetime d
  unfold resolveEventField at h
  obtain ⟨kind, -, h⟩ := bind_eq_ok.mp h
  split_ifs at h
  · split at h
    · cases h
      cases hd
    · cases hresolved h
  · obtain ⟨s, hs, hdatetime⟩ := hdump h
    exact absurd hdatetime (hplain (event.context.plain_slots s hs))
  · obtain ⟨s, hs, hdatetime⟩ := hdump h
    -- of the slots of an event only the timestamp holds a datetime
    rcases event.slots_cases hs with hs | rfl | rfl | rfl
    · exact absurd hdatetime (hplain hs)
    · cases hdatetime
      rfl
    · obtain ⟨cls, hvalue, hnodup⟩ := event.context.exists_modelOf
      have hcontext : event.context.toValue.dump = .datetime d := hdatetime
      rw [hvalue, dump_modelOf hnodup] at hcontext
      cases hcontext
    · cases hdatetime

/-- The datetimes that a trace shows are the timestamp of the event. -/
theorem clocksCopy_of_evaluateCondition {t : ConditionTrace} (h : evaluateCondition event c = .ok t)
    (htimestamp : event.timestamp.val.copyFailure = none) : t.node.ClocksCopy := by
  intro n hn d hd
  obtain ⟨steps, c', t', -, -, heval, rfl⟩ := traced_of_evaluate (evaluateCondition_eq_ok.mp h) n hn
  cases c' with
  | leaf l =>
    obtain ⟨field, hfield, hleaf⟩ := leafExplained heval
    rcases hleaf.actual with ⟨s, -, hs, hactual, -⟩ | ⟨-, hactual, -⟩ | ⟨-, hactual, -⟩
    · rw [hd] at hactual
      cases s with
      | datetime d' =>
        cases hactual
        rw [eq_timestamp_of_resolve hfield hs]
        exact htimestamp
      | _ => cases hactual
    · cases hd.symm.trans hactual
    · cases hd.symm.trans hactual
  -- a connective shows no actual value
  | all cs =>
    obtain ⟨ts, -, hnode⟩ := node_of_evaluate_all heval
    rw [hnode] at hd
    cases hd
  | any cs =>
    obtain ⟨ts, -, hnode⟩ := node_of_evaluate_any heval
    rw [hnode] at hd
    cases hd
  | not_ c =>
    obtain ⟨t, -, hnode⟩ := node_of_evaluate_not heval
    rw [hnode] at hd
    cases hd

/-- **Explanations can be copied**: that of an accepted rule has eight levels at most, and shows no time zone but
that of the event. -/
theorem explanation_copies {rule : DetectionRule} {t : ConditionTrace}
    (h : evaluateCondition event rule.condition.val = .ok t) (htimestamp : event.timestamp.val.copyFailure = none) :
    t.node.height ≤ 8 ∧ t.node.ClocksCopy := by
  have hdepth : rule.condition.val.depth ≤ 8 := (validateRule_iff.mp rule.valid).2.2.2.2.2.1.1
  rw [height_of_isomorphic (trace_explains h).1]
  exact ⟨hdepth, clocksCopy_of_evaluateCondition h htimestamp⟩

end Copy

end SocLab
