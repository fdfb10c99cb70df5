import SocLab.Detection.Evaluator
import SocLab.Py.Sorted
import Mathlib.Data.String.Basic

/-!
# SocLab.Detection.Engine — stateless orchestration of rules for one event

`detection/engine.py`.  The loop takes the evaluator of conditions as an argument (`evaluateEventWith`),
so that a statement can say that it was not used; `evaluateEvent` is the function of the source.
-/

namespace SocLab

open Py Py.Validation Logic

def engineError (reason : String) (ruleId : Option String := none) : Raised :=
  .detection (.engine reason ruleId)

/-- The loop over the ordered rules that looks for an id seen before. -/
def checkDuplicates (seen : List String) : List DetectionRule → Except Raised Unit
  | [] => .ok ()
  | rule :: rules =>
    if rule.id ∈ seen then .error (engineError "duplicate_rule_id" rule.id)
    else checkDuplicates (rule.id :: seen) rules

/-- `sorted(rules, key=lambda rule: rule.id)`. -/
def byId (rules : List DetectionRule) : List DetectionRule := sorted (fun rule => rule.id) rules

/-- Check the whole collection before evaluating any rule; never coerce items.  `none` stands for a
value that is no collection, and an item `none` for one that is no rule. -/
def orderedRules (rules : Option (List (Option DetectionRule))) : Except Raised (List DetectionRule) :=
  match rules with
  | none => .error (engineError "invalid_rule_collection")
  | some items =>
    if items.any Option.isNone then .error (engineError "invalid_rule_item")
    else do
      -- in the order of the ids: the repeated id that is reported is the least one
      checkDuplicates [] (byId (items.filterMap id))
      .ok (byId (items.filterMap id))

/-- Category and source targeting. -/
def applicable (event : NormalizedEvent) (rule : DetectionRule) : Bool :=
  event.category ∈ rule.categories.val &&
    match rule.sourceList with
    | none => true
    | some sources => event.source ∈ sources

/-- The fields of the match of a rule whose condition is true. -/
def matchFields (event : NormalizedEvent) (rule : DetectionRule) (trace : ConditionTrace) :
    MatchFields where
  ruleId := rule.id
  ruleVersion := rule.version
  ruleTitle := rule.title
  event := event
  rootOutcome := .true
  trace := trace

/-- `DetectionMatch(...)` within the engine. -/
def engineMatch (event : NormalizedEvent) (rule : DetectionRule) (trace : ConditionTrace) :
    Except Raised DetectionMatch :=
  match DetectionMatch.init (matchFields event rule trace) with
  | ok m => .ok m
  | invalid _ => .error (engineError "invalid_match" rule.id)
  | exception e => .error (.python e)

/-- The loop over the ordered rules; `acc` are the matches found so far. -/
def evaluateRules (evaluator : NormalizedEvent → ConditionNode → Except Raised ConditionTrace)
    (event : NormalizedEvent) (acc : List DetectionMatch) :
    List DetectionRule → Except Raised (List DetectionMatch)
  | [] => .ok acc
  | rule :: rules =>
    if ¬ applicable event rule then evaluateRules evaluator event acc rules
    else do
      -- what the evaluator raises ends the whole event, with the matches so far lost
      let trace ← evaluator event rule.condition.val
      if trace.outcome ≠ .true then evaluateRules evaluator event acc rules
      else do
        let m ← engineMatch event rule trace
        evaluateRules evaluator event (acc ++ [m]) rules

/-- `evaluate_event` with a given evaluator; an event `none` is a value that is no event. -/
def evaluateEventWith (evaluator : NormalizedEvent → ConditionNode → Except Raised ConditionTrace)
    (event : Option NormalizedEvent) (rules : Option (List (Option DetectionRule))) :
    Except Raised (List DetectionMatch) :=
  match event with
  | none => .error (engineError "invalid_event")
  | some event => do
    let ordered ← orderedRules rules
    evaluateRules evaluator event [] ordered

/-- Return TRUE-only matches in ascending rule-ID order, or fail as a whole. -/
def evaluateEvent (event : Option NormalizedEvent) (rules : Option (List (Option DetectionRule))) :
    Except Raised (List DetectionMatch) :=
  evaluateEventWith evaluateCondition event rules

/-! ### The loops -/

theorem checkDuplicates_eq (seen : List String) (rules : List DetectionRule) :
    checkDuplicates seen rules =
      match firstRepeat seen (rules.map (·.id)) with
      | none => .ok ()
      | some id => .error (engineError "duplicate_rule_id" id) := by
  induction rules generalizing seen with
  | nil => rfl
  | cons rule rules ih =>
    rw [checkDuplicates, List.map_cons, firstRepeat]
    by_cases h : rule.id ∈ seen
    · rw [if_pos h, if_pos h]
    · rw [if_neg h, if_neg h, ih]

theorem orderedRules_eq (rules : List DetectionRule) :
    orderedRules (some (rules.map some)) =
      match firstRepeat [] ((byId rules).map (·.id)) with
      | none => .ok (byId rules)
      | some id => .error (engineError "duplicate_rule_id" id) := by
  have hany : (rules.map some).any Option.isNone = false := by simp
  have hitems : (rules.map some).filterMap id = rules := by simp
  rw [orderedRules, if_neg (by simp), hitems, checkDuplicates_eq]
  cases firstRepeat [] ((byId rules).map (·.id)) <;> rfl

/-- What one rule contributes. -/
def verdict (evaluator : NormalizedEvent → ConditionNode → Except Raised ConditionTrace)
    (event : NormalizedEvent) (rule : DetectionRule) : Except Raised (Option DetectionMatch) :=
  if ¬ applicable event rule then .ok none
  else do
    let trace ← evaluator event rule.condition.val
    if trace.outcome ≠ .true then .ok none
    else do
      let m ← engineMatch event rule trace
      .ok (some m)

theorem evaluateRules_eq (evaluator : NormalizedEvent → ConditionNode → Except Raised ConditionTrace)
    (event : NormalizedEvent) (acc : List DetectionMatch) (rules : List DetectionRule) :
    evaluateRules evaluator event acc rules =
      (rules.mapM (verdict evaluator event) >>= fun ms => .ok (acc ++ ms.filterMap id)) := by
  induction rules generalizing acc with
  | nil => simp [evaluateRules, pure, Except.pure]
  | cons rule rules ih =>
    have hcons : (rule :: rules).mapM (verdict evaluator event) = (verdict evaluator event rule >>=
        fun m => rules.mapM (verdict evaluator event) >>= fun ms => .ok (m :: ms)) := List.mapM_cons ..
    rw [evaluateRules, hcons, verdict]
    by_cases happlicable : applicable event rule
    · rw [if_neg (not_not.mpr happlicable), if_neg (not_not.mpr happlicable)]
      cases evaluator event rule.condition.val with
      | error e => rfl
      | ok trace =>
        rw [ok_bind, ok_bind]
        by_cases hout : trace.outcome = .true
        · rw [if_neg (not_not.mpr hout), if_neg (not_not.mpr hout)]
          cases engineMatch event rule trace with
          | error e => rfl
          | ok m =>
            rw [ok_bind, ok_bind, ok_bind, ih]
            cases rules.mapM (verdict evaluator event) <;> simp
        · rw [if_pos hout, if_pos hout, ih]
          cases rules.mapM (verdict evaluator event) <;> simp
    · rw [if_pos happlicable, if_pos happlicable, ih]
      cases rules.mapM (verdict evaluator event) <;> simp

/-! ### The verdict on a rule -/

section Verdict

variable {event : NormalizedEvent} {rule : DetectionRule} {t : ConditionTrace} {e : Raised}

/-- The rule is applicable and its condition raises. -/
def Fails (event : NormalizedEvent) (rule : DetectionRule) (e : Raised) : Prop :=
  applicable event rule = true ∧ evaluateCondition event rule.condition.val = .error e

/-- The rule is applicable and its condition is true, with this trace. -/
def Fires (event : NormalizedEvent) (rule : DetectionRule) (t : ConditionTrace) : Prop :=
  applicable event rule = true ∧ evaluateCondition event rule.condition.val = .ok t ∧ t.outcome = .true

/-- The validator of matches accepts what the engine builds. -/
theorem engineMatch_ok (hloc : t.location = "$") (hout : t.outcome = .true) :
    ∃ m, engineMatch event rule t = .ok m ∧ m.toMatchFields = matchFields event rule t := by
  have hvalid : validateMatch (matchFields event rule t) = ok () :=
    validateMatch_eq_ok.mpr ⟨rule.id_slug, rule.title_nonblank, rfl, hout, hloc⟩
  exact ⟨⟨_, hvalid⟩, by rw [engineMatch, DetectionMatch.init_eq_ok hvalid], rfl⟩

theorem verdict_of_fires (h : Fires event rule t) :
    ∃ m, verdict evaluateCondition event rule = .ok (some m) ∧
      m.toMatchFields = matchFields event rule t := by
  obtain ⟨happlicable, heval, hout⟩ := h
  obtain ⟨m, hm, hfields⟩ : ∃ m, engineMatch event rule t = .ok m ∧
      m.toMatchFields = matchFields event rule t :=
    engineMatch_ok (location_of_evaluateCondition heval) hout
  refine ⟨m, ?_, hfields⟩
  rw [verdict, if_neg (not_not.mpr happlicable), heval, ok_bind, if_neg (not_not.mpr hout), hm, ok_bind]

theorem verdict_of_fails (h : Fails event rule e) :
    verdict evaluateCondition event rule = .error e := by
  rw [verdict, if_neg (not_not.mpr h.1), h.2, error_bind]

theorem verdict_of_not_applicable (h : ¬ applicable event rule = true) :
    verdict evaluateCondition event rule = .ok none := by
  rw [verdict, if_pos h]

/-- The three cases of a rule. -/
theorem verdict_cases (event : NormalizedEvent) (rule : DetectionRule) :
    (∃ e, Fails event rule e) ∨ (∃ t, Fires event rule t) ∨
      ((∀ e, ¬ Fails event rule e) ∧ (∀ t, ¬ Fires event rule t) ∧
        verdict evaluateCondition event rule = .ok none) := by
  by_cases happlicable : applicable event rule = true
  · cases heval : evaluateCondition event rule.condition.val with
    | error e => exact Or.inl ⟨e, happlicable, heval⟩
    | ok t =>
      by_cases hout : t.outcome = .true
      · exact Or.inr (Or.inl ⟨t, happlicable, heval, hout⟩)
      · refine Or.inr (Or.inr ⟨fun e h => ?_, fun t' h => ?_, ?_⟩)
        · rw [h.2] at heval
          cases heval
        · rw [h.2.1] at heval
          cases heval
          exact hout h.2.2
        · rw [verdict, if_neg (not_not.mpr happlicable), heval, ok_bind, if_pos hout]
  · exact Or.inr (Or.inr ⟨fun e h => happlicable h.1, fun t h => happlicable h.1,
      verdict_of_not_applicable happlicable⟩)

/-- The match that a rule contributes, if any. -/
def matchOf (event : NormalizedEvent) (rule : DetectionRule) : Option DetectionMatch :=
  match verdict evaluateCondition event rule with
  | .ok m => m
  | .error _ => none

theorem verdict_eq_matchOf (h : ∀ e, ¬ Fails event rule e) :
    verdict evaluateCondition event rule = .ok (matchOf event rule) := by
  rw [matchOf]
  rcases verdict_cases event rule with ⟨e, he⟩ | ⟨t, ht⟩ | ⟨-, -, hnone⟩
  · exact absurd he (h e)
  · obtain ⟨m, hm, -⟩ := verdict_of_fires ht
    rw [hm]
  · rw [hnone]

theorem matchOf_eq_some {m : DetectionMatch} :
    matchOf event rule = some m ↔
      ∃ t, Fires event rule t ∧ m.toMatchFields = matchFields event rule t := by
  rcases verdict_cases event rule with ⟨e, he⟩ | ⟨t, ht⟩ | ⟨-, hfires, hnone⟩
  · rw [matchOf, verdict_of_fails he]
    refine iff_of_false (by simp) ?_
    rintro ⟨t, ht, -⟩
    have := he.2.symm.trans ht.2.1
    cases this
  · obtain ⟨m', hm', hfields⟩ := verdict_of_fires ht
    rw [matchOf, hm']
    constructor
    · rintro ⟨⟩
      exact ⟨t, ht, hfields⟩
    · rintro ⟨t', ht', hfields'⟩
      have htt' : t = t' := by simpa using ht.2.1.symm.trans ht'.2.1
      subst htt'
      have : m' = m := by
        cases m'
        cases m
        simp_all
      rw [this]
  · rw [matchOf, hnone]
    refine iff_of_false (by simp) ?_
    rintro ⟨t, ht, -⟩
    exact hfires t ht

end Verdict

/-! ### The result for a whole collection -/

section Collection

variable {event : NormalizedEvent} {rules rules' : List DetectionRule}

theorem evaluateEventWith_eq
    (evaluator : NormalizedEvent → ConditionNode → Except Raised ConditionTrace) :
    evaluateEventWith evaluator (some event) (some (rules.map some)) =
      match firstRepeat [] ((byId rules).map (·.id)) with
      | none => evaluateRules evaluator event [] (byId rules)
      | some id => .error (engineError "duplicate_rule_id" id) := by
  rw [evaluateEventWith, orderedRules_eq]
  cases firstRepeat [] ((byId rules).map (·.id)) <;> rfl

theorem map_id_byId_perm : ((byId rules).map (·.id)).Perm (rules.map (·.id)) :=
  (sorted_perm _ rules).map _

/-- **A repeated id is an error before any condition is evaluated**, and it names the least one. -/
theorem evaluateEvent_duplicate (event : NormalizedEvent) (h : ¬ (rules.map (·.id)).Nodup) :
    ∃ id, (1 < (rules.map (·.id)).count id ∧ ∀ id', 1 < (rules.map (·.id)).count id' → id ≤ id') ∧
      ∀ evaluator, evaluateEventWith evaluator (some event) (some (rules.map some)) =
        .error (engineError "duplicate_rule_id" id) := by
  have hsorted : ((byId rules).map (·.id)).Pairwise (· ≤ ·) :=
    List.pairwise_map.mpr (pairwise_sorted _ rules)
  cases hrepeat : firstRepeat [] ((byId rules).map (·.id)) with
  | none => exact absurd (map_id_byId_perm.nodup_iff.mp (firstRepeat_eq_none.mp hrepeat).1) h
  | some id =>
    obtain ⟨htwice, hleast⟩ := firstRepeat_sorted hsorted hrepeat
    rw [map_id_byId_perm.count_eq] at htwice
    refine ⟨id, ⟨htwice, fun id' hid' => hleast id' ?_⟩, fun evaluator => ?_⟩
    · rw [map_id_byId_perm.count_eq]
      exact hid'
    · rw [evaluateEventWith_eq, hrepeat]

theorem evaluateEvent_of_nodup (h : (rules.map (·.id)).Nodup) :
    evaluateEvent (some event) (some (rules.map some)) =
      evaluateRules evaluateCondition event [] (byId rules) := by
  have hnone : firstRepeat [] ((byId rules).map (·.id)) = none :=
    firstRepeat_eq_none.mpr ⟨map_id_byId_perm.nodup_iff.mpr h, by simp⟩
  rw [evaluateEvent, evaluateEventWith_eq, hnone]

/-- The error is that of the failing rule with the least id. -/
theorem evaluateEvent_error (h : (rules.map (·.id)).Nodup) {rule : DetectionRule} {e : Raised}
    (hmem : rule ∈ rules) (hfails : Fails event rule e)
    (hleast : ∀ r ∈ rules, (∃ e', Fails event r e') → rule.id ≤ r.id) :
    evaluateEvent (some event) (some (rules.map some)) = .error e := by
  have herror : (byId rules).mapM (verdict evaluateCondition event) = .error e := by
    refine mapM_least_error (fun r : DetectionRule => r.id) (pairwise_lt_sorted _ h)
      ((mem_sorted _).mpr hmem) (verdict_of_fails hfails) ?_
    rintro r hr ⟨e', he'⟩
    refine hleast r ((mem_sorted _).mp hr) ?_
    rcases verdict_cases event r with hf | ⟨t, ht⟩ | ⟨-, -, hnone⟩
    · exact hf
    · obtain ⟨m, hm, -⟩ := verdict_of_fires ht
      rw [hm] at he'
      cases he'
    · rw [hnone] at he'
      cases he'
  rw [evaluateEvent_of_nodup h, evaluateRules_eq, herror, error_bind]

/-- Without failing rules the result are the matches of the rules that fire, by rule id. -/
theorem evaluateEvent_ok (h : (rules.map (·.id)).Nodup)
    (hok : ∀ r ∈ rules, ∀ e, ¬ Fails event r e) :
    evaluateEvent (some event) (some (rules.map some)) = .ok ((byId rules).filterMap (matchOf event)) := by
  have hmapM : (byId rules).mapM (verdict evaluateCondition event) =
      .ok ((byId rules).map (matchOf event)) :=
    mapM_of_ok fun r hr => verdict_eq_matchOf (hok r ((mem_sorted _).mp hr))
  rw [evaluateEvent_of_nodup h, evaluateRules_eq, hmapM, ok_bind, List.nil_append, List.filterMap_map]
  rfl

/-- One match for each rule that fires, in strictly ascending order of the rule ids. -/
theorem matches_spec (event : NormalizedEvent) (h : (rules.map (·.id)).Nodup) :
    ((byId rules).filterMap (matchOf event)).Pairwise (fun a b => a.ruleId < b.ruleId) ∧
      ∀ m, m ∈ (byId rules).filterMap (matchOf event) ↔
        ∃ r ∈ rules, ∃ t, Fires event r t ∧ m.toMatchFields = matchFields event r t := by
  constructor
  · refine List.pairwise_filterMap.mpr ((pairwise_lt_sorted _ h).imp fun {a b} hab m hm m' hm' => ?_)
    obtain ⟨t, -, hfields⟩ := matchOf_eq_some.mp hm
    obtain ⟨t', -, hfields'⟩ := matchOf_eq_some.mp hm'
    rw [hfields, hfields']
    exact hab
  · intro m
    rw [List.mem_filterMap]
    constructor
    · rintro ⟨r, hr, hm⟩
      exact ⟨r, (mem_sorted _).mp hr, matchOf_eq_some.mp hm⟩
    · rintro ⟨r, hr, hm⟩
      exact ⟨r, (mem_sorted _).mpr hr, matchOf_eq_some.mpr hm⟩

/-- Failing or not, the result does not depend on the order of the collection. -/
theorem evaluateEvent_perm (h : rules.Perm rules') :
    evaluateEvent (some event) (some (rules.map some)) =
      evaluateEvent (some event) (some (rules'.map some)) := by
  have hids : (byId rules).map (·.id) = (byId rules').map (·.id) :=
    map_sorted_eq_of_perm _ (h.map _)
  rw [evaluateEvent, evaluateEvent, evaluateEventWith_eq, evaluateEventWith_eq, hids]
  cases hrepeat : firstRepeat [] ((byId rules').map (·.id)) with
  | some id => rfl
  | none =>
    have hnodup : (rules.map (·.id)).Nodup := by
      rw [(h.map _).nodup_iff]
      exact map_id_byId_perm.nodup_iff.mp (firstRepeat_eq_none.mp hrepeat).1
    have hsorted : byId rules = byId rules' := sorted_eq_of_perm _ hnodup h
    rw [hsorted]

/-- Rules that are not applicable contribute nothing to the loop. -/
theorem evaluateRules_filter (evaluator : NormalizedEvent → ConditionNode → Except Raised ConditionTrace)
    (acc : List DetectionMatch) (rules : List DetectionRule) :
    evaluateRules evaluator event acc (rules.filter (applicable event)) =
      evaluateRules evaluator event acc rules := by
  induction rules generalizing acc with
  | nil => rfl
  | cons rule rules ih =>
    by_cases h : applicable event rule = true
    · rw [List.filter_cons_of_pos h, evaluateRules, evaluateRules]
      simp only [ih]
    · rw [List.filter_cons_of_neg h, evaluateRules, if_pos h, ih]

/-- Inapplicable rules with fresh ids do not influence the result. -/
theorem evaluateEvent_append_inapplicable {extra : List DetectionRule}
    (hextra : ∀ r ∈ extra, ¬ applicable event r = true) (hnodup : (extra.map (·.id)).Nodup)
    (hfresh : ∀ r ∈ extra, r.id ∉ rules.map (·.id)) :
    evaluateEvent (some event) (some ((rules ++ extra).map some)) =
      evaluateEvent (some event) (some (rules.map some)) := by
  -- without repeated ids the inapplicable rules are filtered out; with one, the least repeated id is the same
  by_cases h : (rules.map (·.id)).Nodup
  · have happend : ((rules ++ extra).map (·.id)).Nodup := by
      rw [List.map_append]
      refine List.nodup_append'.mpr ⟨h, hnodup, fun id hid hid' => ?_⟩
      obtain ⟨r, hr, rfl⟩ := List.mem_map.mp hid'
      exact hfresh r hr hid
    have hfilter : (rules ++ extra).filter (applicable event) = rules.filter (applicable event) := by
      rw [List.filter_append, List.filter_eq_nil_iff.mpr hextra, List.append_nil]
    rw [evaluateEvent_of_nodup h, evaluateEvent_of_nodup happend, ← evaluateRules_filter,
      ← evaluateRules_filter _ _ (byId rules), byId, byId, ← sorted_filter _ _ happend, hfilter,
      sorted_filter _ _ h]
  · have happend : ¬ ((rules ++ extra).map (·.id)).Nodup := by
      rw [List.map_append]
      exact fun hn => h (List.nodup_append'.mp hn).1
    obtain ⟨id, ⟨htwice, hleast⟩, heval⟩ := evaluateEvent_duplicate event h
    obtain ⟨id', ⟨htwice', hleast'⟩, heval'⟩ := evaluateEvent_duplicate event happend
    have hcount (k : String) : ((rules ++ extra).map (·.id)).count k =
        (rules.map (·.id)).count k + (extra.map (·.id)).count k := by
      rw [List.map_append, List.count_append]
    have hle : id ≤ id' := by
      refine hleast id' ?_
      by_cases hmem : id' ∈ extra.map (·.id)
      · obtain ⟨r, hr, rfl⟩ := List.mem_map.mp hmem
        have hzero := List.count_eq_zero_of_not_mem (hfresh r hr)
        have hone := List.nodup_iff_count_le_one.mp hnodup r.id
        have := hcount r.id
        omega
      · have := hcount id'
        rw [List.count_eq_zero_of_not_mem hmem] at this
        omega
    have hge : id' ≤ id := hleast' id (by rw [hcount]; omega)
    rw [evaluateEvent, evaluateEvent, heval, heval', le_antisymm hle hge]

theorem nodup_of_ok {ms : List DetectionMatch}
    (h : evaluateEvent (some event) (some (rules.map some)) = .ok ms) : (rules.map (·.id)).Nodup := by
  by_contra hnodup
  obtain ⟨id, -, heval⟩ := evaluateEvent_duplicate event hnodup
  rw [evaluateEvent, heval] at h
  cases h

theorem not_fails_of_ok {ms : List DetectionMatch} (h : (rules.map (·.id)).Nodup)
    (hok : evaluateEvent (some event) (some (rules.map some)) = .ok ms) :
    ∀ r ∈ rules, ∀ e, ¬ Fails event r e := by
  rw [evaluateEvent_of_nodup h, evaluateRules_eq] at hok
  obtain ⟨verdicts, hverdicts, -⟩ := bind_eq_ok.mp hok
  intro r hr e hfails
  obtain ⟨m, -, hm⟩ := exists_of_forall₂ (forall₂_of_mapM_ok hverdicts) r ((mem_sorted _).mpr hr)
  rw [verdict_of_fails hfails] at hm
  cases hm

/-- The matches for the union of two collections are the merge of their matches. -/
theorem evaluateEvent_append {ms ms' : List DetectionMatch}
    (hnodup : ((rules ++ rules').map (·.id)).Nodup)
    (h : evaluateEvent (some event) (some (rules.map some)) = .ok ms)
    (h' : evaluateEvent (some event) (some (rules'.map some)) = .ok ms') :
    evaluateEvent (some event) (some ((rules ++ rules').map some)) =
      .ok (sorted (fun m => m.ruleId) (ms ++ ms')) := by
  have hboth := hnodup
  rw [List.map_append] at hboth
  obtain ⟨hn, hn', -⟩ := List.nodup_append'.mp hboth
  have hfails := not_fails_of_ok hn h
  have hfails' := not_fails_of_ok hn' h'
  rw [evaluateEvent_ok hn hfails] at h
  rw [evaluateEvent_ok hn' hfails'] at h'
  cases h
  cases h'
  have hfails'' : ∀ r ∈ rules ++ rules', ∀ e, ¬ Fails event r e := fun r hr =>
    (List.mem_append.mp hr).elim (hfails r) (hfails' r)
  have hperm : ((byId rules).filterMap (matchOf event) ++ (byId rules').filterMap (matchOf event)).Perm
      ((byId (rules ++ rules')).filterMap (matchOf event)) := by
    rw [← List.filterMap_append]
    refine List.Perm.filterMap _ ?_
    exact ((sorted_perm _ rules).append (sorted_perm _ rules')).trans (sorted_perm _ _).symm
  have hlt := (matches_spec event hnodup).1
  have hkeys : (((byId (rules ++ rules')).filterMap (matchOf event)).map fun m => m.ruleId).Nodup :=
    List.pairwise_map.mpr (hlt.imp ne_of_lt)
  rw [evaluateEvent_ok hnodup hfails'',
    sorted_eq_of_perm (fun m : DetectionMatch => m.ruleId) ((hperm.map _).nodup_iff.mpr hkeys) hperm,
    sorted_of_pairwise _ (hlt.imp le_of_lt)]

/-- A failing rule with the least id. -/
theorem exists_least_fails (h : (rules.map (·.id)).Nodup) (hfails : ∃ r ∈ rules, ∃ e, Fails event r e) :
    ∃ r ∈ rules, ∃ e, Fails event r e ∧ ∀ r' ∈ rules, (∃ e', Fails event r' e') → r.id ≤ r'.id := by
  obtain ⟨r, hr, e, hre⟩ := hfails
  -- the rules are tried in the order of their ids, so the first that fails has the least id
  rcases exists_first_error (verdict evaluateCondition event) (byId rules) with
    hall | ⟨l₁, x, l₂, e', hsplit, hbefore, hx⟩
  · obtain ⟨m, hm⟩ := hall r ((mem_sorted _).mpr hr)
    rw [verdict_of_fails hre] at hm
    cases hm
  · have hsorted := pairwise_lt_sorted (fun r : DetectionRule => r.id) h
    rw [show sorted (fun r : DetectionRule => r.id) rules = l₁ ++ x :: l₂ from hsplit] at hsorted
    have hmem : x ∈ rules := (mem_sorted fun r : DetectionRule => r.id).mp (by
      rw [show sorted (fun r : DetectionRule => r.id) rules = l₁ ++ x :: l₂ from hsplit]
      simp)
    refine ⟨x, hmem, e', ?_, fun r' hr' => ?_⟩
    · rcases verdict_cases event x with ⟨e'', hf⟩ | ⟨t, ht⟩ | ⟨-, -, hnone⟩
      · rw [verdict_of_fails hf] at hx
        cases hx
        exact hf
      · obtain ⟨m, hm, -⟩ := verdict_of_fires ht
        rw [hm] at hx
        cases hx
      · rw [hnone] at hx
        cases hx
    · rintro ⟨e'', hf⟩
      have hr'mem : r' ∈ l₁ ++ x :: l₂ := hsplit ▸ (mem_sorted _).mpr hr'
      rcases List.mem_append.mp hr'mem with hl | hl
      · obtain ⟨m, hm⟩ := hbefore r' hl
        rw [verdict_of_fails hf] at hm
        cases hm
      · rcases List.mem_cons.mp hl with rfl | hl
        · exact le_rfl
        · exact le_of_lt ((List.pairwise_cons.mp (List.pairwise_append.mp hsorted).2.1).1 r' hl)

/-- **Exact, order-independent result of the engine**: a repeated id, else the error of the failing rule
with the least id, else the matches of the rules that fire. -/
theorem evaluateEvent_exact (event : NormalizedEvent) (rules : List DetectionRule) :
    (¬ (rules.map (·.id)).Nodup →
      ∃ id, (1 < (rules.map (·.id)).count id ∧ ∀ id', 1 < (rules.map (·.id)).count id' → id ≤ id') ∧
        ∀ evaluator, evaluateEventWith evaluator (some event) (some (rules.map some)) =
          .error (engineError "duplicate_rule_id" id)) ∧
    ((rules.map (·.id)).Nodup → (∃ r ∈ rules, ∃ e, Fails event r e) →
      ∃ r ∈ rules, ∃ e, Fails event r e ∧ (∀ r' ∈ rules, (∃ e', Fails event r' e') → r.id ≤ r'.id) ∧
        evaluateEvent (some event) (some (rules.map some)) = .error e) ∧
    ((rules.map (·.id)).Nodup → (¬ ∃ r ∈ rules, ∃ e, Fails event r e) →
      ∃ ms, evaluateEvent (some event) (some (rules.map some)) = .ok ms ∧
        ms.Pairwise (fun a b => a.ruleId < b.ruleId) ∧
        ∀ m, m ∈ ms ↔ ∃ r ∈ rules, ∃ t, Fires event r t ∧ m.toMatchFields = matchFields event r t) ∧
    (∀ rules', rules.Perm rules' → evaluateEvent (some event) (some (rules'.map some)) =
      evaluateEvent (some event) (some (rules.map some))) ∧
    (∀ extra : List DetectionRule, (∀ r ∈ extra, ¬ applicable event r = true) →
      (extra.map (·.id)).Nodup → (∀ r ∈ extra, r.id ∉ rules.map (·.id)) →
      evaluateEvent (some event) (some ((rules ++ extra).map some)) =
        evaluateEvent (some event) (some (rules.map some))) ∧
    ∀ rules' ms ms', ((rules ++ rules').map (·.id)).Nodup →
      evaluateEvent (some event) (some (rules.map some)) = .ok ms →
      evaluateEvent (some event) (some (rules'.map some)) = .ok ms' →
      evaluateEvent (some event) (some ((rules ++ rules').map some)) =
        .ok (sorted (fun m => m.ruleId) (ms ++ ms')) := by
  refine ⟨evaluateEvent_duplicate event, ?_, ?_, ?_, ?_, ?_⟩
  · intro hnodup hfails
    obtain ⟨r, hr, e, hfails, hleast⟩ := exists_least_fails hnodup hfails
    exact ⟨r, hr, e, hfails, hleast, evaluateEvent_error hnodup hr hfails hleast⟩
  · intro hnodup hok
    have hok' : ∀ r ∈ rules, ∀ e, ¬ Fails event r e := fun r hr e hf => hok ⟨r, hr, e, hf⟩
    exact ⟨_, evaluateEvent_ok hnodup hok', matches_spec event hnodup⟩
  · intro rules' hperm
    exact (evaluateEvent_perm hperm).symm
  · intro extra hextra hnodup hfresh
    exact evaluateEvent_append_inapplicable hextra hnodup hfresh
  · intro rules' ms ms' hnodup h h'
    exact evaluateEvent_append hnodup h h'

end Collection

end SocLab
