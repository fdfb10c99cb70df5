import SocLab.Detection.Safety

/-!
# SocLab.Detection.Frame — what a detection reads of an event

Beside the category, a condition reads the fields that its leaves name, and a rule the source when it lists
sources.  Events that agree there are not told apart: neither by the result, nor by the evidence, nor by the
error.
-/

namespace SocLab

open Py Logic

/-- The paths that the leaves of a condition name. -/
def ConditionNode.paths (c : ConditionNode) : List String := c.leaves.map (·.field)

theorem ConditionNode.paths_subset {c : ConditionNode} {cs : List ConditionNode} (hc : c ∈ cs) :
    c.paths ⊆ (leavesAll cs).map (·.field) := by
  intro path hpath
  obtain ⟨l, hl, rfl⟩ := List.mem_map.mp hpath
  rw [leavesAll_eq]
  exact List.mem_map_of_mem (List.mem_flatMap.mpr ⟨c, hc, hl⟩)

/-- The events have the same category and say the same in the fields that are named. -/
structure AgreeOn (paths : List String) (e e' : NormalizedEvent) : Prop where
  category : e'.category = e.category
  common : ∀ name ∈ commonFields, name ∈ paths → getField e'.slots name = getField e.slots name
  context : ∀ name, "context." ++ name ∈ paths →
    getField e'.context.slots name = getField e.context.slots name
  sourceData : ∀ name, "source_data." ++ name ∈ paths →
    e'.sourceDataDict.get name = e.sourceDataDict.get name

theorem AgreeOn.mono {paths paths' : List String} {e e' : NormalizedEvent} (h : AgreeOn paths e e')
    (hsub : paths' ⊆ paths) : AgreeOn paths' e e' where
  category := h.category
  common name hname hmem := h.common name hname (hsub hmem)
  context name hmem := h.context name (hsub hmem)
  sourceData name hmem := h.sourceData name (hsub hmem)

section Condition

variable {paths : List String} {e e' : NormalizedEvent} {path : String}

theorem dumpField_congr {slots slots' : List Slot} {name : String}
    (h : getField slots' name = getField slots name) : dumpField slots' name = dumpField slots name := by
  unfold getField at h
  unfold dumpField
  cases hs : slots.find? (·.name == name) with
  | none =>
    rw [hs, Option.map_none, Option.map_eq_none_iff] at h
    rw [h]
  | some s =>
    rw [hs] at h
    obtain ⟨s', hs', hvalue⟩ := Option.map_eq_some_iff.mp h
    rw [hs']
    dsimp only
    rw [hvalue]

/-- The dot of a path stands between its two parts. -/
theorem mem_of_split {first name : String} (h : split path '.' = [first, name]) (hpath : path ∈ paths) :
    first ++ "." ++ name ∈ paths := by
  have heq : path = first ++ "." ++ name := by
    refine String.toList_injective ?_
    rw [toList_of_split h]
    simp
  rwa [← heq]

/-- A path that is named resolves alike. -/
theorem resolveEventField_agree (h : AgreeOn paths e e') (hpath : path ∈ paths) :
    resolveEventField e' path = resolveEventField e path := by
  cases hkind : fieldType path e.category with
  | error r =>
    have hkind' : fieldType path e'.category = .error r := by rw [h.category, hkind]
    rw [resolveEventField_error hkind, resolveEventField_error hkind']
  | ok kind =>
    have hkind' : fieldType path e'.category = .ok kind := by rw [h.category, hkind]
    cases fieldPath_of_fieldType hkind with
    | common hlookup =>
      rw [resolveEventField_common hkind hlookup, resolveEventField_common hkind' hlookup,
        dumpField_congr (h.common path (mem_commonFields hlookup) hpath)]
    | context hsplit hlookup =>
      rw [resolveEventField_context hkind hsplit, resolveEventField_context hkind' hsplit,
        dumpField_congr (h.context _ (mem_of_split hsplit hpath))]
    | sourceData hsplit hname =>
      rw [resolveEventField_sourceData hkind hsplit, resolveEventField_sourceData hkind' hsplit,
        h.sourceData _ (mem_of_split hsplit hpath)]

theorem evaluateFrom_congr {cs : List ConditionNode} {kind : TraceKind} {location : String}
    (h : ∀ c ∈ cs, ∀ location, evaluate e' location c = evaluate e location c) (i : Nat) :
    evaluateFrom e' location kind i cs = evaluateFrom e location kind i cs := by
  induction cs generalizing i with
  | nil => rfl
  | cons c cs ih =>
    rw [evaluateFrom, evaluateFrom, h c (by simp), ih fun d hd => h d (by simp [hd])]

/-- A condition evaluates alike, at every place. -/
theorem evaluate_agree {c : ConditionNode} (h : AgreeOn c.paths e e') (location : String) :
    evaluate e' location c = evaluate e location c := by
  induction c generalizing location with
  | leaf l =>
    have hfield : l.field ∈ (ConditionNode.leaf l).paths := List.mem_singleton.mpr rfl
    rw [evaluate, evaluate, evaluateLeaf, evaluateLeaf, resolveEventField_agree h hfield]
  | all cs ih =>
    have hcs : ∀ c ∈ cs, ∀ location, evaluate e' location c = evaluate e location c :=
      fun c hc location => ih c hc (h.mono (ConditionNode.paths_subset hc)) location
    rw [evaluate, evaluate, evaluateFrom_congr hcs]
  | any cs ih =>
    have hcs : ∀ c ∈ cs, ∀ location, evaluate e' location c = evaluate e location c :=
      fun c hc location => ih c hc (h.mono (ConditionNode.paths_subset hc)) location
    rw [evaluate, evaluate, evaluateFrom_congr hcs]
  | not_ c ih => rw [evaluate, evaluate, ih h]

theorem evaluateCondition_agree {c : ConditionNode} (h : AgreeOn c.paths e e') :
    evaluateCondition e' c = evaluateCondition e c := by
  rw [evaluateCondition, evaluateCondition, evaluate_agree h]

end Condition

/-! ### Rules -/

/-- The events agree in what the rules read: the source where some rule lists sources, and the fields of the
rules that are applicable. -/
structure ReadAlike (rules : List DetectionRule) (e e' : NormalizedEvent) : Prop where
  category : e'.category = e.category
  source : (∃ r ∈ rules, r.sourceList ≠ none) → e'.source = e.source
  fields : ∀ r ∈ rules, applicable e r = true → AgreeOn r.condition.val.paths e e'

section Rules

variable {rules : List DetectionRule} {r : DetectionRule} {e e' : NormalizedEvent}

theorem ReadAlike.applicable (h : ReadAlike rules e e') (hr : r ∈ rules) :
    applicable e' r = applicable e r := by
  rw [SocLab.applicable, SocLab.applicable, h.category]
  cases hsources : r.sourceList with
  | none => rfl
  | some sources => rw [h.source ⟨r, hr, by simp [hsources]⟩]

/-- The evaluation of an applicable rule. -/
theorem ReadAlike.evaluateCondition (h : ReadAlike rules e e') (hr : r ∈ rules)
    (happlicable : SocLab.applicable e r = true) :
    evaluateCondition e' r.condition.val = evaluateCondition e r.condition.val :=
  evaluateCondition_agree (h.fields r hr happlicable)

/-- The verdicts differ in the event that a match carries, and in nothing else. -/
theorem ReadAlike.verdict (h : ReadAlike rules e e') (hr : r ∈ rules) :
    (verdict SocLab.evaluateCondition e' r).map (Option.map (·.toMatchFields)) =
      (verdict SocLab.evaluateCondition e r).map
        (Option.map fun m => { m.toMatchFields with event := e' }) := by
  by_cases happlicable : SocLab.applicable e r = true
  · have happlicable' : SocLab.applicable e' r = true := by rw [h.applicable hr, happlicable]
    have heval := h.evaluateCondition hr happlicable
    rcases verdict_cases e r with ⟨err, hfails⟩ | ⟨t, hfires⟩ | ⟨hfails, hfires, hnone⟩
    · have hfails' : Fails e' r err := ⟨happlicable', heval.trans hfails.2⟩
      rw [verdict_of_fails hfails, verdict_of_fails hfails']
      rfl
    · have hfires' : Fires e' r t := ⟨happlicable', heval.trans hfires.2.1, hfires.2.2⟩
      obtain ⟨m, hm, hfields⟩ := verdict_of_fires hfires
      obtain ⟨m', hm', hfields'⟩ := verdict_of_fires hfires'
      rw [hm, hm']
      show Except.ok (some m'.toMatchFields) = Except.ok (some { m.toMatchFields with event := e' })
      rw [hfields, hfields']
      rfl
    · rcases verdict_cases e' r with ⟨err, hfails'⟩ | ⟨t, hfires'⟩ | ⟨-, -, hnone'⟩
      · exact absurd ⟨happlicable, heval.symm.trans hfails'.2⟩ (hfails err)
      · exact absurd ⟨happlicable, heval.symm.trans hfires'.2.1, hfires'.2.2⟩ (hfires t)
      · rw [hnone, hnone']
        rfl
  · have happlicable' : ¬ SocLab.applicable e' r = true := by rwa [h.applicable hr]
    rw [verdict_of_not_applicable happlicable, verdict_of_not_applicable happlicable']
    rfl

/-- What is seen of the matches is what is seen of the verdicts. -/
theorem map_filterMap_verdicts (g : DetectionMatch → MatchFields)
    (x : Except Raised (List (Option DetectionMatch))) :
    (x >>= fun ms => .ok ([] ++ ms.filterMap id)).map (List.map g) =
      (x.map (List.map (Option.map g))).map (List.filterMap id) := by
  cases x with
  | error err => rfl
  | ok ms =>
    show Except.ok _ = Except.ok _
    rw [List.nil_append, List.map_filterMap, List.filterMap_map]
    rfl

/-- The matches differ in the event that they carry, and in nothing else. -/
theorem ReadAlike.evaluateEvent (h : ReadAlike rules e e') :
    (evaluateEvent (some e') (some (rules.map some))).map (List.map (·.toMatchFields)) =
      (evaluateEvent (some e) (some (rules.map some))).map
        (List.map fun m => { m.toMatchFields with event := e' }) := by
  rw [SocLab.evaluateEvent, SocLab.evaluateEvent, evaluateEventWith_eq, evaluateEventWith_eq]
  cases firstRepeat [] ((byId rules).map (·.id)) with
  | some id => rfl
  | none =>
    have hverdicts := map_mapM_congr (byId rules) fun r hr =>
      h.verdict ((mem_sorted fun rule : DetectionRule => rule.id).mp hr)
    dsimp only
    rw [evaluateRules_eq, evaluateRules_eq, map_filterMap_verdicts, map_filterMap_verdicts, hverdicts]

end Rules

/-- **A detection depends on what it names, and on nothing else**: a condition gives the same trace, or the
same error, on events that agree in its fields, and a collection of rules the same error or the same matches,
each with the event that it is about. -/
theorem detection_frame (e e' : NormalizedEvent) :
    (∀ c, AgreeOn c.paths e e' → evaluateCondition e' c = evaluateCondition e c) ∧
      ∀ rules, ReadAlike rules e e' →
        (evaluateEvent (some e') (some (rules.map some))).map (List.map (·.toMatchFields)) =
          (evaluateEvent (some e) (some (rules.map some))).map
            (List.map fun m => { m.toMatchFields with event := e' }) :=
  ⟨fun _ => evaluateCondition_agree, fun _ h => h.evaluateEvent⟩

/-- The number of a record does not matter to a rule that does not ask for it. -/
theorem detection_frame_example :
    evaluateCondition .exampleRecord DetectionRule.exampleRule.condition.val =
        evaluateCondition .exampleLogon DetectionRule.exampleRule.condition.val ∧
      ∃ ms, evaluateEvent (some .exampleRecord) (some [some .exampleRule]) = .ok ms ∧
        ms.map (·.ruleId) = ["alice-logon"] := by
  have hagree : AgreeOn DetectionRule.exampleRule.condition.val.paths .exampleLogon .exampleRecord := by
    refine ⟨rfl, fun name hname hmem => ?_, fun _ _ => rfl, fun _ _ => rfl⟩
    have hpath : name = "context.user" := List.mem_singleton.mp hmem
    subst hpath
    exact absurd hname (by decide)
  obtain ⟨hconditions, hrules⟩ := detection_frame .exampleLogon .exampleRecord
  have halike : ReadAlike [.exampleRule] .exampleLogon .exampleRecord :=
    ⟨rfl, fun _ => rfl, fun r hr _ => by rwa [List.mem_singleton.mp hr]⟩
  obtain ⟨ms, hms, hids⟩ := exists_of_map_ok (show (evaluateEvent (some .exampleLogon)
    (some ([DetectionRule.exampleRule].map some))).map (·.map (·.ruleId)) = .ok ["alice-logon"] by decide +kernel)
  have hsame := hrules _ halike
  rw [hms] at hsame
  obtain ⟨ms', hms', hfields⟩ := exists_of_map_ok hsame
  refine ⟨hconditions _ hagree, ms', hms', ?_⟩
  have hmap := congrArg (List.map MatchFields.ruleId) hfields
  rw [List.map_map, List.map_map] at hmap
  exact hmap.trans hids

end SocLab
