import SocLab.Detection.Success

/-!
# SocLab.Detection.Connectives — the connectives are strong Kleene logic at every depth

`outcome_eq_interpret`: the root outcome is the value of the tree in the order of truth, with `all` as
minimum, `any` as maximum and `not` as reversal, over the outcomes that its leaves have on their own.
`rewriting_preserves`: conditions that differ by the laws of that interpretation raise together and have
the same outcome.
-/

namespace SocLab

open Kleene Logic

variable {event : NormalizedEvent} {c c' : ConditionNode}

/-- The leaves of a tree that evaluates evaluate on their own. -/
theorem leafEvaluates_of_mem (h : Evaluates event c) : ∀ l ∈ c.leaves, LeafEvaluates event l := by
  have hlist {cs : List ConditionNode}
      (ih : ∀ c ∈ cs, Evaluates event c → ∀ l ∈ c.leaves, LeafEvaluates event l)
      (h : ∀ c ∈ cs, Evaluates event c) : ∀ l ∈ ConditionNode.leavesAll cs, LeafEvaluates event l := by
    intro l hl
    rw [ConditionNode.leavesAll_eq] at hl
    obtain ⟨c, hc, hl⟩ := List.mem_flatMap.mp hl
    exact ih c hc (h c hc) l hl
  induction c with
  | leaf l =>
    intro l' hl'
    rw [List.mem_singleton.mp hl']
    exact h
  | all cs ih => exact hlist ih (evaluates_all.mp h).2
  | any cs ih => exact hlist ih (evaluates_any.mp h).2
  | not_ c ih => exact ih h

/-- The value of a condition in the order of truth. -/
theorem meaning_eq_interpret (event : NormalizedEvent) (c : ConditionNode) :
    meaning event c = c.toFormula.interpret Truth.reversal (leafTruth event) :=
  Formula.eval_eq_interpret _ _

theorem truth_of_leaf {l : LeafCondition} {t : ConditionTrace}
    (h : evaluateCondition event (.leaf l) = .ok t) : leafTruth event l = t.outcome.truth :=
  (truth_of_evaluateCondition h).symm

/-- **The root outcome is the value of the tree over the outcomes of its leaves.** -/
theorem outcome_eq_interpret {t : ConditionTrace} (h : evaluateCondition event c = .ok t) :
    ∃ v : LeafCondition → Truth,
      (∀ l ∈ c.leaves, ∃ t', evaluateCondition event (.leaf l) = .ok t' ∧ v l = t'.outcome.truth) ∧
      t.outcome.truth = c.toFormula.interpret Truth.reversal v := by
  refine ⟨leafTruth event, fun l hl => ?_, ?_⟩
  · obtain ⟨t', ht'⟩ := leafEvaluates_of_mem (evaluateCondition_isOk_iff.mp ⟨t, h⟩) l hl
    exact ⟨t', ht', truth_of_leaf ht'⟩
  · rw [truth_of_evaluateCondition h, meaning_eq_interpret]

/-- The trees differ by permuting or duplicating children, flattening, unwrapping, removing double
negations and the laws of De Morgan, anywhere and any number of times. -/
def ConditionNode.Rewrites (c c' : ConditionNode) : Prop := c.toFormula.Rewrites c'.toFormula

/-- **Rewriting keeps whether a tree evaluates.** -/
theorem evaluates_of_rewrites (h : c.Rewrites c') : Evaluates event c ↔ Evaluates event c' :=
  Formula.total_iff_of_rewrites h

/-- **Rewriting keeps the outcome.** -/
theorem outcome_of_rewrites (h : c.Rewrites c') {t t' : ConditionTrace}
    (ht : evaluateCondition event c = .ok t) (ht' : evaluateCondition event c' = .ok t') :
    t.outcome = t'.outcome := by
  refine ConditionOutcome.truth_injective ?_
  rw [truth_of_evaluateCondition ht, truth_of_evaluateCondition ht', meaning_eq_interpret,
    meaning_eq_interpret, Formula.interpret_eq_of_rewrites h]

/-- An evaluation raises when it does not succeed. -/
theorem raises_iff : (∃ e, evaluateCondition event c = .error e) ↔ ¬ Evaluates event c := by
  rw [← evaluateCondition_isOk_iff]
  cases evaluateCondition event c <;> simp

/-- **The connectives are strong Kleene logic at every depth**: the root outcome is the value in the order
of truth, and rewriting by its laws keeps whether evaluation raises and the root outcome. -/
theorem kleene_connectives (event : NormalizedEvent) :
    (∀ c t, evaluateCondition event c = .ok t → ∃ v : LeafCondition → Truth,
      (∀ l ∈ c.leaves, ∃ t', evaluateCondition event (.leaf l) = .ok t' ∧ v l = t'.outcome.truth) ∧
      t.outcome.truth = c.toFormula.interpret Truth.reversal v) ∧
    ∀ c c' : ConditionNode, c.Rewrites c' →
      ((∃ e, evaluateCondition event c = .error e) ↔ ∃ e, evaluateCondition event c' = .error e) ∧
      ∀ t t', evaluateCondition event c = .ok t → evaluateCondition event c' = .ok t' →
        t.outcome = t'.outcome := by
  refine ⟨fun c t h => outcome_eq_interpret h, fun c c' h => ⟨?_, fun t t' ht ht' => ?_⟩⟩
  · rw [raises_iff, raises_iff, evaluates_of_rewrites h]
  · exact outcome_of_rewrites h ht ht'

end SocLab
