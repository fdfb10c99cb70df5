import SocLab.Alerts.Session
import SocLab.Alerts.Snapshot
import SocLab.Py.Object

/-!
# SocLab.Alerts.Isolation — alerts own their evidence

The match in an alert is made of mutable objects, so the alert is only as immutable as these objects are out of
reach.  `World` is the memory with the objects that the callers of the alert functions got hold of and the
alerts that were returned.  Between calls the callers change any object they can follow a reference to, and read
the fields of alerts, of which `source_match` is copied.

* `OwnsMatch`, `ConstructsAlert`, `ReadsAlert` and `Performs` are the alert functions on objects.  What pydantic builds
  may share objects with what it is built from; the copies are `copy.deepcopy`.
* `AlertCall.result` is the value of a call on values, `issued` the alerts of a list of calls.
* `Isolated` is the invariant: the memory is what alerts own and what callers have, two regions that do not refer
  to each other.  `Isolated.step` keeps it, and `run_isolated` follows by induction.
* `evidence_isolated`: whatever callers do to the objects they hold, the alerts are those of the same calls on
  immutable values, and stay so.
* `evidence_given`: their evidence is what a caller gave with one of the calls, as it was then, and a call on an
  alert keeps the evidence of this alert.
-/

namespace SocLab

open Py Logic

/-! ### Reading an alert -/

/-- The value of a field as an alert hands it out. -/
def expose (h : Memory) (name : String) (value : Ref Value) : Memory × Ref Value :=
  if name = "source_match" then h.deepcopy value else (h, value)

/-- `Alert.__getattribute__`, for a field or the dict of the fields.  An instance and its `__dict__` are one object
of the memory, and it is handed out as it is. -/
def getattribute (h : Memory) (alert : Ref Value) (name : String) : Option (Memory × Ref Value) :=
  if name = "__dict__" then some (h, alert) else ((h.attributes alert).lookup name).map (expose h name)

def exposeItems (h : Memory) : List (String × Ref Value) → Memory × List (String × Ref Value)
  | [] => (h, [])
  | (name, value) :: items =>
    let (h₁, value) := expose h name value
    let (h₂, items) := exposeItems h₁ items
    (h₂, (name, value) :: items)

/-- `Alert.__iter__`, as `dict(alert)` reads it. -/
def iter (h : Memory) (alert : Ref Value) : Memory × List (String × Ref Value) :=
  exposeItems h (h.attributes alert)

/-! ### Making an alert -/

/-- The instance of an alert, with its evidence at a place; the other fields are immutable. -/
def Alert.cell (a : Alert) (evidence : Ref Value) : Cell Value Object :=
  ⟨.model "Alert" (a.items.map (·.1)) AlertFields.fieldNames,
    a.items.map fun item => if item.1 = "source_match" then evidence else .atom item.2⟩

section Functions

variable [Runtime]

/-- `own_validated_match`.  The dump and the validated match may share objects with what they are built from, but
the validation is given a copy. -/
inductive OwnsMatch (h : Memory) (value : Ref Value) : Memory → Ref Value → DetectionMatch → Prop
  | mk {v : Value} {m : DetectionMatch} {h₁ h₂ : Memory} {data snapshot : Ref Value} : h.Is value v →
      ownValidatedMatch v = .ok m → h.Derived value h₁ data → h₁.Is data v.dump →
      (h₁.deepcopy data).1.Derived (h₁.deepcopy data).2 h₂ snapshot → h₂.Is snapshot m.toValue →
      OwnsMatch h value h₂ snapshot m

/-- `Alert(...)` and `Alert.model_validate`: an instance with the evidence that the validator of the field returns. -/
inductive ConstructsAlert (h : Memory) (source : Ref Value) : Memory → Ref Value → Alert → Prop
  | mk {a : Alert} {h' : Memory} {evidence : Ref Value} : OwnsMatch h source h' evidence a.sourceMatch →
      ConstructsAlert h source (h'.alloc (a.cell evidence)) (.cell h'.size) a

/-- `read_alert_snapshot`: the evidence of `dict(alert)`, and the instance that is validated with it. -/
inductive ReadsAlert (h : Memory) (alert : Ref Value) : Memory → Ref Value → Ref Value → Alert → Prop
  | mk {v : Value} {a : Alert} {d : Dict} {h' : Memory} {source current : Ref Value} : h.Is alert v →
      readAlertSnapshot v = some (a, d) → (iter h alert).2.lookup "source_match" = some source →
      ConstructsAlert (iter h alert).1 source h' current a → ReadsAlert h alert h' source current a

/-- A request made on any value. -/
def Request.on (v : Value) : Request → Except (AlertTransitionError ⊕ AlertPolicyError) Alert
  | .acknowledge at_ => (acknowledgeAlert v at_).mapError .inl
  | .close at_ => (closeAlert v at_).mapError .inl
  | .setSeverity value changedAt => (SocLab.setSeverity v value changedAt).mapError .inr
  | .setPriority value changedAt => (SocLab.setPriority v value changedAt).mapError .inr

theorem Request.on_toValue (a : Alert) (r : Request) : r.on a.toValue = perform a r := by
  cases r <;> rfl

/-- The four operations: they return the instance that was read, or one that is validated with the same evidence. -/
inductive Performs (h : Memory) (alert : Ref Value) (r : Request) : Memory → Ref Value → Alert → Prop
  | same {v : Value} {a : Alert} {h' : Memory} {source current : Ref Value} : h.Is alert v → r.on v = .ok a →
      ReadsAlert h alert h' source current a → Performs h alert r h' current a
  | updated {v : Value} {a b : Alert} {h₁ h₂ : Memory} {source current result : Ref Value} : h.Is alert v →
      r.on v = .ok b → ReadsAlert h alert h₁ source current a → ConstructsAlert h₁ source h₂ result b →
      Performs h alert r h₂ result b

/-- The loop of `list_alerts` over its entries. -/
inductive ReadsAlerts : Memory → List (Ref Value) → Memory → List (Ref Value × Alert) → Prop
  | nil {h : Memory} : ReadsAlerts h [] h []
  | cons {h h₁ h₂ : Memory} {alert source current : Ref Value} {a : Alert} {alerts : List (Ref Value)}
      {read : List (Ref Value × Alert)} : ReadsAlert h alert h₁ source current a →
      ReadsAlerts h₁ alerts h₂ read → ReadsAlerts h (alert :: alerts) h₂ ((current, a) :: read)

end Functions

/-! ### Calls -/

/-- A call of one of the alert functions, with its operands in `ω`. -/
inductive AlertCall (ω : Type) where
  | createAlert (source : ω) (alertId createdAt severity priority : Value)
  | request (alert : ω) (r : Request)
  | listAlerts (alerts : List ω) (states severities priorities : FilterArg)

namespace AlertCall

variable {ω ω' : Type}

def map (f : ω → ω') : AlertCall ω → AlertCall ω'
  | .createAlert source alertId createdAt severity priority =>
    .createAlert (f source) alertId createdAt severity priority
  | .request alert r => .request (f alert) r
  | .listAlerts alerts states severities priorities =>
    .listAlerts (alerts.map f) states severities priorities

/-- The operands of a call. -/
def operands : AlertCall ω → List ω
  | .createAlert source _ _ _ _ => [source]
  | .request alert _ => [alert]
  | .listAlerts alerts _ _ _ => alerts

/-- The alerts that a call returns; a call that raises returns none. -/
def result [Runtime] : AlertCall Value → List Alert
  | .createAlert source alertId createdAt severity priority =>
    (SocLab.createAlert source alertId createdAt severity priority).toOption.toList
  | .request alert r => (r.on alert).toOption.toList
  | .listAlerts alerts states severities priorities =>
    (SocLab.listAlerts (.of alerts) states severities priorities).toOption.getD []

theorem map_congr {f g : ω → ω'} {c : AlertCall ω} (h : ∀ o ∈ c.operands, f o = g o) : c.map f = c.map g := by
  cases c with
  | createAlert source alertId createdAt severity priority => rw [map, map, h source (List.mem_cons_self ..)]
  | request alert r => rw [map, map, h alert (List.mem_cons_self ..)]
  | listAlerts alerts states severities priorities =>
    have hmap : alerts.map f = alerts.map g := List.map_congr_left h
    rw [map, map, hmap]

end AlertCall

/-- What a call is made on: an alert that was returned, by its place among them, or what a caller has. -/
inductive CallTarget where
  | alert (i : Nat)
  | value (v : Value)

/-- The operand as a value; there is no call on an alert that was not returned. -/
def CallTarget.resolve (as : List Alert) : CallTarget → Value
  | .alert i =>
    match as[i]? with
    | some a => a.toValue
    | none => .none
  | .value v => v

section Issued

variable [Runtime]

/-- **The alerts that calls on immutable values return**, after the alerts `as`. -/
def issued (as : List Alert) (cs : List (AlertCall CallTarget)) : List Alert :=
  cs.foldl (fun as c => as ++ (c.map (CallTarget.resolve as)).result) as

theorem issued_append (as : List Alert) (cs cs' : List (AlertCall CallTarget)) :
    issued as (cs ++ cs') = issued (issued as cs) cs' := List.foldl_append

/-- Alerts that were returned are not taken back. -/
theorem prefix_issued (as : List Alert) (cs : List (AlertCall CallTarget)) : as <+: issued as cs := by
  induction cs generalizing as with
  | nil => exact List.prefix_refl _
  | cons c cs ih => exact (List.prefix_append _ _).trans (ih _)

end Issued

/-! ### Objects -/

/-- The memory, what callers hold, and the instances of `Alert` that were returned. -/
structure World where
  heap : Memory
  held : List (Ref Value)
  alerts : List (Ref Value)

namespace World

def empty : World := ⟨⟨[]⟩, [], []⟩

/-- Values are at hand, and objects when they are held. -/
def Has (w : World) : Ref Value → Prop
  | .atom _ => True
  | .cell n => .cell n ∈ w.held

/-- The callers get hold of more places. -/
def hand (w : World) (h : Memory) (rs : List (Ref Value)) : World := ⟨h, rs ++ w.held, w.alerts⟩

theorem has_hand {w : World} {h : Memory} {rs : List (Ref Value)} {r : Ref Value} (hr : r ∈ rs) :
    (w.hand h rs).Has r := by
  cases r with
  | atom v => trivial
  | cell n => exact List.mem_append_left _ hr

/-- The place of an operand, and what a call reads there. -/
def Operand (w : World) : CallTarget → Ref Value → Value → Prop
  | .alert i, r, v => w.alerts[i]? = some r ∧ w.heap.Is r v
  | .value u, r, v => u = v ∧ w.Has r ∧ w.heap.Is r v

variable [Runtime]

/-- A call, with the memory and the instances that it leaves. -/
inductive Calls (w : World) : AlertCall CallTarget → Memory → List (Ref Value × Alert) → Prop
  | createAlert {source : CallTarget} {r result : Ref Value} {v alertId createdAt severity priority : Value}
      {a : Alert} {h : Memory} : w.Operand source r v →
      SocLab.createAlert v alertId createdAt severity priority = .ok a → ConstructsAlert w.heap r h result a →
      Calls w (.createAlert source alertId createdAt severity priority) h [(result, a)]
  | request {alert : CallTarget} {r result : Ref Value} {v : Value} {request : Request} {a : Alert} {h : Memory} :
      w.Operand alert r v → Performs w.heap r request h result a → Calls w (.request alert request) h [(result, a)]
  | listAlerts {alerts : List CallTarget} {entries : List (Ref Value × Value)}
      {states severities priorities : FilterArg} {as : List Alert} {h : Memory} {read : List (Ref Value × Alert)} :
      List.Forall₂ (fun o p => w.Operand o p.1 p.2) alerts entries →
      SocLab.listAlerts (.of (entries.map (·.2))) states severities priorities = .ok as →
      ReadsAlerts w.heap (entries.map (·.1)) h read →
      Calls w (.listAlerts alerts states severities priorities) h
        (sorted (fun p => queueKey p.2) (read.filter fun p => passes states severities priorities p.2))
  /-- A call that raises leaves nothing but garbage, and an empty queue returns nothing. -/
  | nothing {c : AlertCall CallTarget} {value : CallTarget → Value} :
      (∀ o ∈ c.operands, ∃ r, w.Operand o r (value o)) → (c.map value).result = [] → Calls w c w.heap []

/-- One step of the callers, with the call that it makes. -/
inductive Step : World → List (AlertCall CallTarget) → World → Prop
  /-- New objects, such as the result of an evaluation or a dump of an alert. -/
  | build {w : World} (v : Value) :
      Step w [] (w.hand (w.heap.store v.shape).1 [(w.heap.store v.shape).2])
  /-- Any reference in an object that is held can be followed. -/
  | follow {w : World} {n : Nat} {c : Cell Value Object} {r : Ref Value} : .cell n ∈ w.held →
      w.heap.cells[n]? = some c → r ∈ c.fields → Step w [] (w.hand w.heap [r])
  /-- Any object that is held can be changed. -/
  | write {w : World} {n : Nat} {c : Cell Value Object} : .cell n ∈ w.held → (∀ r ∈ c.fields, w.Has r) →
      Step w [] ⟨w.heap.write n c, w.held, w.alerts⟩
  /-- The fields of an alert are read, but not its `__dict__`. -/
  | getattribute {w : World} {r : Ref Value} {name : String} {p : Memory × Ref Value} : r ∈ w.alerts →
      name ≠ "__dict__" → SocLab.getattribute w.heap r name = some p → Step w [] (w.hand p.1 [p.2])
  | iter {w : World} {r : Ref Value} : r ∈ w.alerts →
      Step w [] (w.hand (SocLab.iter w.heap r).1 ((SocLab.iter w.heap r).2.map (·.2)))
  | call {w : World} {c : AlertCall CallTarget} {h : Memory} {new : List (Ref Value × Alert)} : w.Calls c h new →
      Step w [c] ⟨h, w.held, w.alerts ++ new.map (·.1)⟩

inductive Run : World → List (AlertCall CallTarget) → World → Prop
  | refl (w : World) : Run w [] w
  | step {w w' w'' : World} {cs cs' : List (AlertCall CallTarget)} : Run w cs w' → Step w' cs' w'' →
      Run w (cs ++ cs') w''

end World

/-! ### What is handed out is new -/

/-- Only the evidence of an alert is mutable. -/
theorem Alert.shape_items (a : Alert) : ∀ q ∈ a.items, q.1 ≠ "source_match" → q.2.shape = .leaf q.2 := by
  simp only [AlertFields.items, List.forall_mem_cons]
  refine ⟨fun _ => rfl, fun h => absurd rfl h, fun _ => rfl, fun _ => rfl, fun _ => rfl, fun _ => rfl,
    fun _ => rfl, fun _ => rfl, by simp⟩

section Expose

variable {h : Memory} {owned outside : Set Nat} {r : Ref Value} {name : String} {v : Value}

theorem expose_spec (hd : h.Divided owned outside) (hr : r.In owned) (hv : h.Is r v)
    (hname : name ≠ "source_match" → v.shape = .leaf v) :
    h.Grows (expose h name r).1 ∧ h.Built (expose h name r).1 (expose h name r).2 v.shape := by
  have hall : r.In h.all := hr.mono hd.subset_all
  unfold expose
  by_cases hsource : name = "source_match"
  · rw [if_pos hsource]
    exact ⟨Heap.deepcopy_grows hd.closed_all r, Heap.deepcopy_added hall,
      Heap.holds_deepcopy hd.closed_all hall hv⟩
  · rw [if_neg hsource]
    have hatom : r = .atom v := Memory.eq_atom_of_is (hname hsource) hv
    subst hatom
    exact ⟨.refl h, trivial, hv⟩

/-- Items whose objects are owned are handed out as new objects of the same values. -/
theorem exposeItems_spec (hd : h.Divided owned outside) {items : List (String × Ref Value)} {fields : Dict}
    (hitems : List.Forall₂ (fun p q => p.1 = q.1 ∧ p.2.In owned ∧ h.Is p.2 q.2) items fields)
    (hnames : ∀ q ∈ fields, q.1 ≠ "source_match" → q.2.shape = .leaf q.2) :
    h.Grows (exposeItems h items).1 ∧
      List.Forall₂ (fun p q => p.1 = q.1 ∧ h.Built (exposeItems h items).1 p.2 q.2.shape)
        (exposeItems h items).2 fields := by
  induction items generalizing h outside fields with
  | nil =>
    cases hitems
    exact ⟨.refl h, .nil⟩
  | cons p items ih =>
    obtain ⟨name, r⟩ := p
    cases hitems with
    | @cons _ q _ fields hp hrest =>
      obtain ⟨key, v⟩ := q
      obtain ⟨rfl, hr, hv⟩ := hp
      obtain ⟨hg, hb⟩ := expose_spec hd hr hv (hnames (name, v) (by simp))
      have hwiden := (hd.symm.grow hg).symm
      -- the other items are owned, and hence as they were
      have hrest' : List.Forall₂ (fun p q => p.1 = q.1 ∧ p.2.In owned ∧ (expose h name r).1.Is p.2 q.2)
          items fields := by
        refine hrest.imp fun p q hpq => ?_
        exact ⟨hpq.1, hpq.2.1, hwiden.holds hd (hpq.2.1.mono hd.subset_all) hpq.2.2⟩
      obtain ⟨hg', hb'⟩ := ih hwiden.divided hrest' fun q hq => hnames q (by simp [hq])
      exact ⟨hg.trans hg', .cons ⟨rfl, hb.grows hg hg'⟩ (hb'.imp fun p q hpq => ⟨hpq.1, hpq.2.of_grows hg⟩)⟩

/-- Of any instance the evidence is handed out as a new object. -/
theorem exposeItems_grows (hall : h.Closed h.all) {items : List (String × Ref Value)}
    (hitems : ∀ p ∈ items, p.2.In h.all) :
    h.Grows (exposeItems h items).1 ∧
      ∀ p ∈ (exposeItems h items).2, p.1 = "source_match" → p.2.In (h.added (exposeItems h items).1) := by
  induction items generalizing h with
  | nil => exact ⟨.refl h, by simp [exposeItems]⟩
  | cons p items ih =>
    obtain ⟨name, r⟩ := p
    have hexpose : h.Grows (expose h name r).1 ∧
        (name = "source_match" → (expose h name r).2.In (h.added (expose h name r).1)) := by
      unfold expose
      split_ifs with hname
      · exact ⟨Heap.deepcopy_grows hall r, fun _ => Heap.deepcopy_added (hitems (name, r) (by simp))⟩
      · exact ⟨.refl h, fun hname' => absurd hname' hname⟩
    obtain ⟨hg, hnew⟩ := hexpose
    have hrest : ∀ p ∈ items, p.2.In (expose h name r).1.all := by
      intro p hp
      refine (hitems p (by simp [hp])).mono ?_
      rw [← Heap.all_union_added hg.before]
      exact Set.subset_union_left
    obtain ⟨hg', hnew'⟩ := ih (hg.closed_all hall) hrest
    refine ⟨hg.trans hg', fun p hp hname => ?_⟩
    rcases List.mem_cons.mp hp with rfl | hp
    · exact (hnew hname).mono (Heap.added_subset (Nat.le_refl _) hg'.size_le)
    · exact (hnew' p hp hname).mono (Heap.added_subset hg.size_le (Nat.le_refl _))

end Expose

/-! ### What an alert is made of is new -/

section Made

variable [Runtime] {h h' : Memory} {owned outside : Set Nat} {value source current alert : Ref Value}

/-- **The evidence that is taken lies in the region of the alerts**: the dump may share objects with the match that
was given, but its copy does not. -/
theorem OwnsMatch.widens {m : DetectionMatch} (howns : OwnsMatch h value h' source m) (hd : h.Divided owned outside)
    (hvalue : value.In h.all) : ∃ owned' outside', h.Widens owned outside h' owned' outside' ∧ source.In owned' ∧
      h'.Is source m.toValue := by
  cases howns with
  | @mk v m h₁ h₂ data snapshot hv hown hdump hdata hvalidate hsnapshot =>
    obtain ⟨owned₁, outside₁, hwiden₁, hdata₁⟩ : ∃ owned₁ outside₁,
        h.Widens owned outside h₁ owned₁ outside₁ ∧ data.In h₁.all := by
      rcases hd.in_or hvalue with hvalue | hvalue
      · obtain ⟨hwiden, hin⟩ := hd.derive hvalue hdump
        exact ⟨_, _, hwiden, hin.mono hwiden.divided.subset_all⟩
      · obtain ⟨hwiden, hin⟩ := hd.symm.derive hvalue hdump
        exact ⟨_, _, hwiden.symm, hin.mono hwiden.divided.subset_all⟩
    have hwiden₂ := hwiden₁.divided.grow (Heap.deepcopy_grows hwiden₁.divided.closed_all data)
    have hcopy := (Heap.deepcopy_added hdata₁).mono (Set.subset_union_right (s := owned₁))
    obtain ⟨hwiden₃, hin⟩ := hwiden₂.divided.derive hcopy hvalidate
    exact ⟨_, _, (hwiden₁.trans hwiden₂).trans hwiden₃, hin, hsnapshot⟩

omit [Runtime] in
/-- The instance holds the alert. -/
theorem holds_alloc_cell {a : Alert} {evidence : Ref Value} (hd : h.Divided owned outside) (hin : evidence.In owned)
    (hevidence : h.Is evidence a.sourceMatch.toValue) :
    ∃ owned', h.Widens owned outside (h.alloc (a.cell evidence)) owned' outside ∧
      Ref.In (α := Value) owned' (.cell h.size) ∧
      Heap.Holds (h.alloc (a.cell evidence)) (.cell h.size) a.toValue.shape := by
  have hfields : ∀ r ∈ (a.cell evidence).fields, r.In owned := by
    intro r hr
    obtain ⟨item, -, rfl⟩ := List.mem_map.mp hr
    split_ifs
    · exact hin
    · trivial
  obtain ⟨hwiden, hcell⟩ := hd.alloc hfields
  have hheld := hwiden.holds hd (hin.mono hd.subset_all) hevidence
  refine ⟨_, hwiden, hcell, Heap.holds_node.mpr ⟨_, List.getElem?_concat_length, rfl, ?_⟩⟩
  exact .cons (.leaf _) (.cons hheld (.cons (.leaf _) (.cons (.leaf _) (.cons (.leaf _) (.cons (.leaf _)
    (.cons (.leaf _) (.cons (.leaf _) .nil)))))))

theorem ConstructsAlert.widens {a : Alert} (hmade : ConstructsAlert h source h' current a) (hd : h.Divided owned outside)
    (hsource : source.In h.all) : ∃ owned' outside', h.Widens owned outside h' owned' outside' ∧ current.In owned' ∧
      h'.Is current a.toValue := by
  cases hmade with
  | mk howns =>
    obtain ⟨owned₁, outside₁, hwiden, hin, hevidence⟩ := howns.widens hd hsource
    obtain ⟨owned₂, hwiden', hcell, his⟩ := holds_alloc_cell hwiden.divided hin hevidence
    exact ⟨owned₂, outside₁, hwiden.trans hwiden', hcell, his⟩

omit [Runtime] in
/-- The evidence in `dict(alert)` is a copy. -/
theorem iter_widens (hd : h.Divided owned outside) (halert : alert.In h.all) :
    ∃ owned', h.Widens owned outside (iter h alert).1 owned' outside ∧
      ∀ p ∈ (iter h alert).2, p.1 = "source_match" → p.2.In owned' := by
  obtain ⟨hg, hnew⟩ := exposeItems_grows hd.closed_all (Memory.attributes_in hd.closed_all halert)
  exact ⟨_, hd.grow hg, fun p hp hname => (hnew p hp hname).mono Set.subset_union_right⟩

theorem ReadsAlert.widens {a : Alert} (hread : ReadsAlert h alert h' source current a) (hd : h.Divided owned outside)
    (halert : alert.In h.all) : ∃ owned' outside', h.Widens owned outside h' owned' outside' ∧ source.In h'.all ∧
      current.In owned' ∧ h'.Is current a.toValue := by
  cases hread with
  | mk hv hsnapshot hlookup hmade =>
    obtain ⟨owned₁, hwiden, hnew⟩ := iter_widens hd halert
    have hin := (hnew _ (mem_of_lookup hlookup) rfl).mono hwiden.divided.subset_all
    obtain ⟨owned', outside', hwiden', hcurrent, his⟩ := hmade.widens hwiden.divided hin
    exact ⟨owned', outside', hwiden.trans hwiden', hin.mono hwiden'.subset_all, hcurrent, his⟩

theorem Performs.widens {a : Alert} {r : Request} (hperform : Performs h alert r h' current a)
    (hd : h.Divided owned outside) (halert : alert.In h.all) : ∃ owned' outside',
      h.Widens owned outside h' owned' outside' ∧ current.In owned' ∧ h'.Is current a.toValue := by
  cases hperform with
  | same hv hon hread =>
    obtain ⟨owned', outside', hwiden, -, hcurrent, his⟩ := hread.widens hd halert
    exact ⟨owned', outside', hwiden, hcurrent, his⟩
  | updated hv hon hread hmade =>
    obtain ⟨owned₁, outside₁, hwiden, hsource, -, -⟩ := hread.widens hd halert
    obtain ⟨owned₂, outside₂, hwiden', hcurrent, his⟩ := hmade.widens hwiden.divided hsource
    exact ⟨owned₂, outside₂, hwiden.trans hwiden', hcurrent, his⟩

/-- The loop of the queue: one instance for each entry, with the snapshot of the entry. -/
theorem ReadsAlerts.widens {entries : List (Ref Value × Value)} {read : List (Ref Value × Alert)}
    (hreads : ReadsAlerts h (entries.map (·.1)) h' read) (hd : h.Divided owned outside)
    (hentries : ∀ p ∈ entries, p.1.In h.all ∧ h.Is p.1 p.2) : ∃ owned' outside',
      h.Widens owned outside h' owned' outside' ∧ (∀ q ∈ read, q.1.In owned' ∧ h'.Is q.1 q.2.toValue) ∧
        read.map (·.2) = snapshots (entries.map (·.2)) := by
  induction entries generalizing h read owned outside with
  | nil =>
    cases hreads
    exact ⟨owned, outside, ⟨List.prefix_refl _, hd, Set.Subset.rfl, Set.Subset.rfl⟩, by simp, rfl⟩
  | cons entry entries ih =>
    cases hreads with
    | @cons _ h₁ _ _ source current a _ read hread hreads =>
      rw [List.forall_mem_cons] at hentries
      obtain ⟨⟨hin, his⟩, hrest⟩ := hentries
      obtain ⟨owned₁, outside₁, hwiden, -, hcurrent, hiscurrent⟩ := hread.widens hd hin
      -- the other entries are as they were
      have hrest' : ∀ p ∈ entries, p.1.In h₁.all ∧ h₁.Is p.1 p.2 := by
        intro p hp
        obtain ⟨hin', his'⟩ := hrest p hp
        exact ⟨hin'.mono hwiden.subset_all, hwiden.holds hd hin' his'⟩
      obtain ⟨owned₂, outside₂, hwiden', hnew, hread'⟩ := ih hreads hwiden.divided hrest'
      refine ⟨owned₂, outside₂, hwiden.trans hwiden', ?_, ?_⟩
      · rw [List.forall_mem_cons]
        have hall := hcurrent.mono hwiden.divided.subset_all
        exact ⟨⟨hcurrent.mono hwiden'.left, hwiden'.holds hwiden.divided hall hiscurrent⟩, hnew⟩
      · cases hread with
        | mk hv hsnapshot =>
          obtain rfl := Memory.Is.unique hv his
          rw [List.map_cons, List.map_cons, snapshots_cons hsnapshot, hread']

end Made

/-! ### The invariant -/

/-- The memory is what the alerts own and what callers can get hold of, and the alerts are those values. -/
structure World.Isolated (w : World) (owned outside : Set Nat) (as : List Alert) : Prop where
  divided : w.heap.Divided owned outside
  held : ∀ r ∈ w.held, r.In outside
  alerts : List.Forall₂ (fun r a => r.In owned ∧ w.heap.Is r a.toValue) w.alerts as

namespace World.Isolated

variable {w w' : World} {owned outside : Set Nat} {as : List Alert} {cs : List (AlertCall CallTarget)}

theorem start : World.empty.Isolated ∅ ∅ [] where
  divided := {
    all := by
      ext n
      simp [World.empty, Heap.size]
    disjoint := fun n hn => absurd hn (Set.notMem_empty n)
    left := fun n hn => absurd hn (Set.notMem_empty n)
    right := fun n hn => absurd hn (Set.notMem_empty n) }
  held r hr := by cases hr
  alerts := .nil

/-- What callers have at hand lies outside. -/
theorem in_of_has (hw : w.Isolated owned outside as) {r : Ref Value} (hr : w.Has r) : r.In outside := by
  cases r with
  | atom a => trivial
  | cell n => exact hw.held _ hr

/-- The alerts are as they were, while the memory grows. -/
theorem widen (hw : w.Isolated owned outside as) {h : Memory} {owned' outside' : Set Nat}
    (hwiden : w.heap.Widens owned outside h owned' outside') :
    World.Isolated ⟨h, w.held, w.alerts⟩ owned' outside' as where
  divided := hwiden.divided
  held r hr := (hw.held r hr).mono hwiden.right
  alerts := hw.alerts.imp fun _ _ hra =>
    ⟨hra.1.mono hwiden.left, hwiden.holds hw.divided (hra.1.mono hw.divided.subset_all) hra.2⟩

/-- **New objects are handed out.** -/
theorem hand (hw : w.Isolated owned outside as) {h : Memory} (hg : w.heap.Grows h) {rs : List (Ref Value)}
    (hrs : ∀ r ∈ rs, r.In (w.heap.added h)) :
    (w.hand h rs).Isolated owned (outside ∪ w.heap.added h) as := by
  have hwiden := hw.widen (hw.divided.symm.grow hg).symm
  refine ⟨hwiden.divided, fun r hr => ?_, hwiden.alerts⟩
  rcases List.mem_append.mp hr with hr | hr
  · exact (hrs r hr).mono Set.subset_union_right
  · exact hwiden.held r hr

/-- **A reference in an object that callers have is followed.** -/
theorem follow (hw : w.Isolated owned outside as) {n : Nat} {c : Cell Value Object} {r : Ref Value}
    (hn : .cell n ∈ w.held) (hc : w.heap.cells[n]? = some c) (hr : r ∈ c.fields) :
    (w.hand w.heap [r]).Isolated owned outside as where
  divided := hw.divided
  held := by
    intro r' hr'
    rcases List.mem_append.mp hr' with hr' | hr'
    · obtain rfl := List.mem_singleton.mp hr'
      exact hw.divided.right n (hw.held _ hn) c hc _ hr
    · exact hw.held r' hr'
  alerts := hw.alerts

/-- **A write to an object that callers have does not reach the alerts.** -/
theorem write (hw : w.Isolated owned outside as) {n : Nat} {c : Cell Value Object} (hn : .cell n ∈ w.held)
    (hc : ∀ r ∈ c.fields, w.Has r) :
    World.Isolated ⟨w.heap.write n c, w.held, w.alerts⟩ owned outside as where
  divided := hw.divided.write (hw.held _ hn) fun r hr => hw.in_of_has (hc r hr)
  held := hw.held
  alerts := by
    have hnot : n ∉ owned := fun hn' => hw.divided.disjoint n hn' (hw.held _ hn)
    refine hw.alerts.imp fun r a hra => ?_
    exact ⟨hra.1, hra.2.congr hw.divided.left (Heap.getElem?_write hnot c) hra.1⟩

/-- An operand is the value that it is resolved to. -/
theorem operand (hw : w.Isolated owned outside as) {o : CallTarget} {r : Ref Value} {v : Value} (h : w.Operand o r v) :
    r.In w.heap.all ∧ w.heap.Is r v ∧ o.resolve as = v := by
  cases o with
  | value u => exact ⟨(hw.in_of_has h.2.1).mono hw.divided.symm.subset_all, h.2.2, h.1⟩
  | alert i =>
    obtain ⟨a, ha, hra⟩ := getElem?_of_forall₂ hw.alerts h.1
    refine ⟨hra.1.mono hw.divided.subset_all, h.2, ?_⟩
    rw [CallTarget.resolve, ha]
    exact Memory.Is.unique hra.2 h.2

variable [Runtime]

/-- **What a call returns**: instances of the alerts that it returns on values, which own what they are made of. -/
theorem calls (hw : w.Isolated owned outside as) {c : AlertCall CallTarget} {h : Memory}
    {new : List (Ref Value × Alert)} (hcalls : w.Calls c h new) : ∃ owned' outside',
      w.heap.Widens owned outside h owned' outside' ∧ (∀ p ∈ new, p.1.In owned' ∧ h.Is p.1 p.2.toValue) ∧
        (c.map (CallTarget.resolve as)).result = new.map (·.2) := by
  cases hcalls with
  | createAlert ho hcreate hmade =>
    obtain ⟨hin, -, hresolve⟩ := hw.operand ho
    obtain ⟨owned', outside', hwiden, hresult, his⟩ := hmade.widens hw.divided hin
    refine ⟨owned', outside', hwiden, by simpa using ⟨hresult, his⟩, ?_⟩
    rw [AlertCall.map, hresolve, AlertCall.result, hcreate]
    rfl
  | request ho hperform =>
    obtain ⟨hin, hv, hresolve⟩ := hw.operand ho
    obtain ⟨owned', outside', hwiden, hresult, his⟩ := hperform.widens hw.divided hin
    refine ⟨owned', outside', hwiden, by simpa using ⟨hresult, his⟩, ?_⟩
    rw [AlertCall.map, hresolve, AlertCall.result]
    cases hperform with
    | same hv' hon | updated hv' hon =>
      obtain rfl := Memory.Is.unique hv hv'
      rw [hon]
      rfl
  | @listAlerts alerts entries states severities priorities as' h read hoperands hlist hreads =>
    have hentries : ∀ p ∈ entries, p.1.In w.heap.all ∧ w.heap.Is p.1 p.2 := by
      intro p hp
      obtain ⟨o, -, ho⟩ := exists_of_forall₂ hoperands.flip p hp
      exact ⟨(hw.operand ho).1, (hw.operand ho).2.1⟩
    obtain ⟨owned', outside', hwiden, hnew, hread⟩ := hreads.widens hw.divided hentries
    -- the queue is a part of what was read, sorted
    refine ⟨owned', outside', hwiden, fun p hp => ?_, ?_⟩
    · rw [mem_sorted, List.mem_filter] at hp
      exact hnew p hp.1
    · have hresolve : List.Forall₂ (· = ·) (alerts.map (CallTarget.resolve as)) (entries.map (·.2)) := by
        rw [List.forall₂_map_left_iff, List.forall₂_map_right_iff]
        exact hoperands.imp fun o p ho => (hw.operand ho).2.2
      rw [List.forall₂_eq_eq_eq] at hresolve
      obtain ⟨-, -, hsorted⟩ := listAlerts_eq_ok.mp hlist
      rw [AlertCall.map, hresolve, AlertCall.result, hlist, map_sorted queueKey Prod.snd]
      show as' = _
      rw [hsorted, ← hread, List.filter_map]
      rfl
  | nothing hoperands hnone =>
    refine ⟨owned, outside, ⟨List.prefix_refl _, hw.divided, Set.Subset.rfl, Set.Subset.rfl⟩, by simp, ?_⟩
    rw [AlertCall.map_congr fun o ho => ?_, hnone]
    · rfl
    · obtain ⟨r, hr⟩ := hoperands o ho
      exact (hw.operand hr).2.2

omit [Runtime] in
/-- What an alert hands out of its fields. -/
theorem attributes (hw : w.Isolated owned outside as) {r : Ref Value} {a : Alert} (hr : r.In owned)
    (hra : w.heap.Is r a.toValue) :
    List.Forall₂ (fun p q => p.1 = q.1 ∧ p.2.In owned ∧ w.heap.Is p.2 q.2) (w.heap.attributes r) a.items := by
  have hfields := Memory.forall₂_attributes hra
  refine forall₂_imp_of_mem hfields fun p hp q hpq => ?_
  exact ⟨hpq.1, Memory.attributes_in hw.divided.left hr p hp, hpq.2⟩

omit [Runtime] in
theorem owned_of_alert (hw : w.Isolated owned outside as) {i : Nat} {r : Ref Value} {a : Alert}
    (hr : w.alerts[i]? = some r) (ha : as[i]? = some a) : r.In owned ∧ w.heap.Is r a.toValue := by
  obtain ⟨a', ha', hra⟩ := getElem?_of_forall₂ hw.alerts hr
  obtain rfl : a = a' := Option.some.inj (ha.symm.trans ha')
  exact hra

omit [Runtime] in
/-- The evidence of an alert, which the instance refers to. -/
theorem exists_evidence (hw : w.Isolated owned outside as) {r : Ref Value} {a : Alert} (hr : r.In owned)
    (hra : w.heap.Is r a.toValue) :
    ∃ evidence, w.heap.Points r evidence ∧ w.heap.Is evidence a.sourceMatch.toValue := by
  have hlookup : a.items.lookup "source_match" = some a.sourceMatch.toValue := rfl
  obtain ⟨evidence, hevidence, -, his⟩ := Memory.lookup_of_forall₂
    (R := fun u v => u.In owned ∧ w.heap.Is u v) (hw.attributes hr hra) hlookup
  exact ⟨evidence, Memory.points_of_mem_attributes (mem_of_lookup hevidence), his⟩

omit [Runtime] in
/-- The evidence that is handed out is a copy of new objects. -/
theorem source_match (hw : w.Isolated owned outside as) {r : Ref Value} {a : Alert} (hr : r.In owned)
    (hra : w.heap.Is r a.toValue) :
    ∃ p, getattribute w.heap r "source_match" = some p ∧ p.1.Is p.2 a.sourceMatch.toValue ∧
      ∀ n, p.1.Reach p.2 (.cell n) → w.heap.size ≤ n := by
  have hlookup : a.items.lookup "source_match" = some a.sourceMatch.toValue := rfl
  obtain ⟨value, hvalue, hin, his⟩ := Memory.lookup_of_forall₂
    (R := fun u v => u.In owned ∧ w.heap.Is u v) (hw.attributes hr hra) hlookup
  obtain ⟨hg, hb⟩ := expose_spec hw.divided hin his fun hne => absurd rfl hne
  have hget : getattribute w.heap r "source_match" = some (expose w.heap "source_match" value) := by
    rw [getattribute, if_neg (by decide), hvalue]
    rfl
  exact ⟨_, hget, hb.holds, fun n hn => (hg.closed.reach hb.added hn).1⟩

omit [Runtime] in
/-- The items that are handed out are the values of the alert, in new objects. -/
theorem iter (hw : w.Isolated owned outside as) {r : Ref Value} {a : Alert} (hr : r.In owned)
    (hra : w.heap.Is r a.toValue) :
    List.Forall₂ (fun p q => p.1 = q.1 ∧ (SocLab.iter w.heap r).1.Is p.2 q.2 ∧
      ∀ n, (SocLab.iter w.heap r).1.Reach p.2 (.cell n) → w.heap.size ≤ n) (SocLab.iter w.heap r).2 a.items := by
  obtain ⟨hg, hitems⟩ := exposeItems_spec hw.divided (hw.attributes hr hra) a.shape_items
  refine hitems.imp fun p q hpq => ?_
  exact ⟨hpq.1, hpq.2.holds, fun n hn => (hg.closed.reach hpq.2.added hn).1⟩

/-- **What one step of the callers keeps.** -/
theorem step (hw : w.Isolated owned outside as) (h : w.Step cs w') :
    w.alerts <+: w'.alerts ∧ ∃ owned' outside', w'.Isolated owned' outside' (issued as cs) := by
  cases h with
  | build v =>
    obtain ⟨hg, hb⟩ := Heap.store_spec w.heap v.shape
    refine ⟨List.prefix_refl _, owned, _, hw.hand hg fun r hr => ?_⟩
    obtain rfl := List.mem_singleton.mp hr
    exact hb.added
  | follow hn hc hr => exact ⟨List.prefix_refl _, owned, outside, hw.follow hn hc hr⟩
  | write hn hc => exact ⟨List.prefix_refl _, owned, outside, hw.write hn hc⟩
  -- a caller gets new cells with the value of the field
  | @getattribute r name p hr hname hp =>
    obtain ⟨a, -, hra⟩ := exists_of_forall₂ hw.alerts r hr
    rw [SocLab.getattribute, if_neg hname] at hp
    have hfields := hw.attributes hra.1 hra.2
    obtain ⟨value, hvalue, rfl⟩ := Option.map_eq_some_iff.mp hp
    obtain ⟨q, hq, hname, hin, his⟩ := exists_of_forall₂ hfields _ (mem_of_lookup hvalue)
    obtain ⟨hg, hb⟩ := expose_spec hw.divided hin his fun hne =>
      a.shape_items q hq (hname ▸ hne)
    refine ⟨List.prefix_refl _, owned, _, hw.hand hg fun r' hr' => ?_⟩
    obtain rfl := List.mem_singleton.mp hr'
    exact hb.added
  | @iter r hr =>
    obtain ⟨a, -, hra⟩ := exists_of_forall₂ hw.alerts r hr
    obtain ⟨hg, hitems⟩ := exposeItems_spec hw.divided (hw.attributes hra.1 hra.2) a.shape_items
    refine ⟨List.prefix_refl _, owned, _, hw.hand hg fun r' hr' => ?_⟩
    obtain ⟨p, hp, rfl⟩ := List.mem_map.mp hr'
    obtain ⟨q, -, hpq⟩ := exists_of_forall₂ hitems p hp
    exact hpq.2.added
  | @call c h new hcalls =>
    obtain ⟨owned', outside', hwiden, hnew, hresult⟩ := hw.calls hcalls
    have hwidened := hw.widen hwiden
    have hissued : issued as [c] = as ++ new.map (·.2) := by
      rw [issued, List.foldl_cons, List.foldl_nil, hresult]
    rw [hissued]
    refine ⟨List.prefix_append _ _, owned', outside', hwidened.divided, hwidened.held,
      List.rel_append hwidened.alerts ?_⟩
    rw [List.forall₂_map_left_iff, List.forall₂_map_right_iff]
    exact List.forall₂_same.mpr hnew

end World.Isolated

/-- **What a run keeps.** -/
theorem World.run_isolated [Runtime] {w w' : World} {cs : List (AlertCall CallTarget)} (h : w.Run cs w')
    {as : List Alert}
    (hw : ∃ owned outside, w.Isolated owned outside as) :
    w.alerts <+: w'.alerts ∧ ∃ owned outside, w'.Isolated owned outside (issued as cs) := by
  induction h with
  | refl => exact ⟨List.prefix_refl _, hw⟩
  | step _ hstep ih =>
    obtain ⟨hkept, owned, outside, hw₁⟩ := ih
    obtain ⟨hkept', hw₂⟩ := hw₁.step hstep
    rw [issued_append]
    exact ⟨hkept.trans hkept', hw₂⟩

theorem getElem?_of_prefix {α : Type} {xs ys : List α} (h : xs <+: ys) {i : Nat} {x : α} (hx : xs[i]? = some x) :
    ys[i]? = some x := by
  obtain ⟨rest, rfl⟩ := h
  obtain ⟨hi, -⟩ := List.getElem?_eq_some_iff.mp hx
  rw [List.getElem?_append_left hi]
  exact hx

section Isolation

variable [Runtime]

/-- **Alerts own their evidence.**  Whatever callers build, follow, change and read between their calls, the
alerts are those that the same calls return on immutable values, and each of them stays that value; nothing that
an alert is made of is reached from what callers hold; `source_match` and `dict(alert)` hand out the values
of the alert in objects that did not exist before; and the dict of the fields, which is not read here, is what would
hand out the evidence itself. -/
theorem evidence_isolated {w w' : World} {cs cs' : List (AlertCall CallTarget)} (h : World.empty.Run cs w)
    (h' : w.Run cs' w') :
    List.Forall₂ (fun r (a : Alert) => w.heap.Is r a.toValue) w.alerts (issued [] cs) ∧
    (∀ (i : Nat) r (a : Alert), w.alerts[i]? = some r → (issued [] cs)[i]? = some a →
      w'.alerts[i]? = some r ∧ w'.heap.Is r a.toValue) ∧
    (∀ r ∈ w.alerts, ∀ r' ∈ w.held, ∀ n, w.heap.Reach r (.cell n) → ¬ w.heap.Reach r' (.cell n)) ∧
    ∀ (i : Nat) r (a : Alert), w.alerts[i]? = some r → (issued [] cs)[i]? = some a →
      (∃ p, getattribute w.heap r "source_match" = some p ∧ p.1.Is p.2 a.sourceMatch.toValue ∧
        ∀ n, p.1.Reach p.2 (.cell n) → w.heap.size ≤ n) ∧
      List.Forall₂ (fun p q => p.1 = q.1 ∧ (iter w.heap r).1.Is p.2 q.2 ∧
        ∀ n, (iter w.heap r).1.Reach p.2 (.cell n) → w.heap.size ≤ n) (iter w.heap r).2 a.items ∧
      ∃ evidence, w.heap.Is evidence a.sourceMatch.toValue ∧ w.heap.Reach r evidence ∧
        ∃ p, getattribute w.heap r "__dict__" = some p ∧ p.1.Reach p.2 evidence := by
  obtain ⟨-, owned, outside, hw⟩ := World.run_isolated h ⟨_, _, World.Isolated.start⟩
  obtain ⟨hkept, owned', outside', hw'⟩ := World.run_isolated h' ⟨_, _, hw⟩
  refine ⟨hw.alerts.imp fun r a hra => hra.2, fun i r a hr ha => ?_, fun r hr r' hr' n => ?_,
    fun i r a hr ha => ⟨?_, ?_, ?_⟩⟩
  · have hr' : w'.alerts[i]? = some r := getElem?_of_prefix hkept hr
    have ha' : (issued (issued [] cs) cs')[i]? = some a := getElem?_of_prefix (prefix_issued _ cs') ha
    obtain ⟨a', ha'', hra⟩ := getElem?_of_forall₂ hw'.alerts hr'
    obtain rfl : a = a' := Option.some.inj (ha'.symm.trans ha'')
    exact ⟨hr', hra.2⟩
  · obtain ⟨a, -, hra⟩ := exists_of_forall₂ hw.alerts r hr
    exact hw.divided.not_reach hra.1 (hw.held r' hr')
  · exact hw.source_match (hw.owned_of_alert hr ha).1 (hw.owned_of_alert hr ha).2
  · exact hw.iter (hw.owned_of_alert hr ha).1 (hw.owned_of_alert hr ha).2
  · obtain ⟨evidence, hpoints, his⟩ := hw.exists_evidence (hw.owned_of_alert hr ha).1 (hw.owned_of_alert hr ha).2
    exact ⟨evidence, his, .single hpoints, (w.heap, r), rfl, .single hpoints⟩

end Isolation

/-! ### Runs that there are -/

section Runs

variable [Runtime] {w : World} {owned outside : Set Nat} {as : List Alert}

/-- pydantic may build everything anew. -/
theorem exists_constructs {h : Memory} {source : Ref Value} {v : Value} {a : Alert} (hv : h.Is source v)
    (hown : ownValidatedMatch v = .ok a.sourceMatch) : ∃ h' r, ConstructsAlert h source h' r a := by
  obtain ⟨hdump, hdata⟩ := Heap.store_spec h v.dump.shape
  obtain ⟨hvalidate, hmatch⟩ := Heap.store_spec ((h.store v.dump.shape).1.deepcopy (h.store v.dump.shape).2).1
    a.sourceMatch.toValue.shape
  exact ⟨_, _, .mk (.mk hv hown (hdump.derived hdata.added source) hdata.holds (hvalidate.derived hmatch.added _)
    hmatch.holds)⟩

/-- A match is built, and an alert is created for it. -/
theorem exists_run_of_created {source alertId createdAt severity priority : Value} {a : Alert}
    (h : createAlert source alertId createdAt severity priority = .ok a) :
    ∃ w r, World.empty.Run [.createAlert (.value source) alertId createdAt severity priority] w ∧ w.alerts = [r] := by
  obtain ⟨-, hsource⟩ := Heap.store_spec World.empty.heap source.shape
  have hbuild : World.empty.Step [] _ := .build source
  obtain ⟨h', r, hmade⟩ := exists_constructs hsource.holds (createAlert_eq_ok h).1
  have hhas := World.has_hand (w := World.empty) (h := (World.empty.heap.store source.shape).1)
    (List.mem_singleton_self (World.empty.heap.store source.shape).2)
  exact ⟨_, r, .step (.step (.refl World.empty) hbuild) (.call (.createAlert ⟨rfl, hhas, hsource.holds⟩ h hmade)), rfl⟩

/-- An operation on an alert that was returned. -/
theorem exists_calls_of_perform (hw : w.Isolated owned outside as) {i : Nat} {r : Ref Value} {a b : Alert}
    {request : Request} (hr : w.alerts[i]? = some r) (ha : as[i]? = some a) (h : perform a request = .ok b) :
    ∃ h' result, w.Calls (.request (.alert i) request) h' [(result, b)] := by
  obtain ⟨hin, hra⟩ := hw.owned_of_alert hr ha
  have hread := readable_of_perform h
  have hown : ownValidatedMatch a.sourceMatch.toValue = .ok a.sourceMatch := ownValidatedMatch_toValue hread.dumps
  -- `dict(alert)` gives a copy of the evidence
  have hlookup : a.items.lookup "source_match" = some a.sourceMatch.toValue := rfl
  obtain ⟨source, hsource, his, -⟩ := Memory.lookup_of_forall₂ (R := fun u v => (iter w.heap r).1.Is u v ∧
    ∀ n, (iter w.heap r).1.Reach u (.cell n) → w.heap.size ≤ n) (hw.iter hin hra) hlookup
  obtain ⟨h₁, current, hmade⟩ := exists_constructs (a := a) his hown
  have hreads : ReadsAlert w.heap r h₁ source current a := .mk hra (readAlertSnapshot_toValue hread) hsource hmade
  -- the copy is still there when the result is validated
  obtain ⟨owned₁, hwiden, hnew⟩ := iter_widens hw.divided (hin.mono hw.divided.subset_all)
  have hall := (hnew _ (mem_of_lookup hsource) rfl).mono hwiden.divided.subset_all
  obtain ⟨owned₂, outside₂, hwiden', -, -⟩ := hmade.widens hwiden.divided hall
  have hown' : ownValidatedMatch a.sourceMatch.toValue = .ok b.sourceMatch := by
    rw [hown, (identity_of_perform h).2.1]
  obtain ⟨h₂, result, hmade'⟩ := exists_constructs (a := b) (hwiden'.holds hwiden.divided hall his) hown'
  exact ⟨h₂, result, .request ⟨hr, hra⟩ (.updated hra (by rw [Request.on_toValue, h]) hreads hmade')⟩

theorem issued_of_created {source alertId createdAt severity priority : Value} {a : Alert}
    (h : createAlert source alertId createdAt severity priority = .ok a) :
    issued [] [.createAlert (.value source) alertId createdAt severity priority] = [a] := by
  show (AlertCall.createAlert source alertId createdAt severity priority).result = [a]
  rw [AlertCall.result, h]
  rfl

theorem result_of_perform {request : Request} {a b : Alert} (h : perform a request = .ok b) :
    ((AlertCall.request (.alert 0) request).map (CallTarget.resolve [a])).result = [b] := by
  show (AlertCall.request a.toValue request).result = [b]
  rw [AlertCall.result, Request.on_toValue, h]
  rfl

/-- An alert is created, and an operation on it returns another one. -/
theorem exists_run_of_perform {source alertId createdAt severity priority : Value} {request : Request} {a b : Alert}
    (hcreate : createAlert source alertId createdAt severity priority = .ok a) (hperform : perform a request = .ok b) :
    ∃ w r s, World.empty.Run [.createAlert (.value source) alertId createdAt severity priority,
        .request (.alert 0) request] w ∧ w.alerts = [r, s] ∧
      issued [] [.createAlert (.value source) alertId createdAt severity priority, .request (.alert 0) request] =
        [a, b] := by
  obtain ⟨w, r, hrun, hw⟩ := exists_run_of_created hcreate
  have hcreated := issued_of_created hcreate
  obtain ⟨-, owned, outside, hisolated⟩ := World.run_isolated hrun ⟨_, _, World.Isolated.start⟩
  rw [hcreated] at hisolated
  have hr : w.alerts[0]? = some r := by rw [hw]; rfl
  obtain ⟨h', s, hcalls⟩ := exists_calls_of_perform hisolated hr rfl hperform
  refine ⟨_, r, s, .step hrun (.call hcalls), by rw [hw]; rfl, ?_⟩
  have hissued := issued_append [] [.createAlert (.value source) alertId createdAt severity priority]
    [.request (.alert 0) request]
  rw [hcreated] at hissued
  refine hissued.trans ?_
  show [a] ++ ((AlertCall.request (.alert 0) request).map (CallTarget.resolve [a])).result = [a, b]
  rw [result_of_perform hperform]
  rfl

end Runs

/-- An alert is created and acknowledged; the evidence that is then read of the first one is overwritten. -/
theorem evidence_isolated_example : ∃ (_ : Runtime) (w w' : World) (r : Ref Value) (h : Memory) (n : Nat),
    w.alerts.length = 2 ∧ getattribute w.heap r "source_match" = some (h, .cell n) ∧
      w'.heap = h.write n ⟨.list, []⟩ ∧ w'.alerts[0]? = some r ∧
      w'.heap.Is r (exampleAlert ⟨"alice-1", by decide⟩ .normal).toValue := by
  let runtime := Runtime.ordinary
  have hlater : exampleInstant 0 ≤ exampleInstant 1 := by decide
  obtain ⟨w, r, s, hrun, hw, hissued⟩ := exists_run_of_perform
    (createAlert_exampleAlert ⟨"alice-1", by decide⟩ .normal)
    (perform_of_effect (r := .acknowledge (exampleTime 1)) (readable_exampleAlert ⟨"alice-1", by decide⟩ .normal) hlater
      rfl (.acknowledge rfl))
  have hr : w.alerts[0]? = some r := by rw [hw]; rfl
  have ha := congrArg (·[0]?) hissued
  obtain ⟨-, -, -, hread⟩ := evidence_isolated hrun (.refl w)
  obtain ⟨⟨⟨h, copy⟩, hp, his, -⟩, -⟩ := hread 0 r _ hr ha
  have hget : w.Step [] (w.hand h [copy]) := .getattribute (List.mem_of_getElem? hr) (by decide) hp
  cases copy with
  | atom v => cases his
  | cell n =>
    have hwrite : (w.hand h [.cell n]).Step [] ⟨h.write n ⟨.list, []⟩, .cell n :: w.held, w.alerts⟩ :=
      .write (List.mem_cons_self ..) (by simp)
    obtain ⟨-, hstays, -⟩ := evidence_isolated hrun (.step (.step (.refl w) hget) hwrite)
    obtain ⟨hr', hra⟩ := hstays 0 r _ hr ha
    exact ⟨runtime, w, _, r, h, n, by rw [hw]; rfl, hp, rfl, hr', hra⟩

/-! ### Where the evidence comes from -/

/-- Where the evidence of an alert that a call returns comes from: from the match of a creation, from the alert that
a request is made on or that is listed, or from the match in an object that is none of the alerts that were
returned. -/
inductive EvidenceFrom (as : List Alert) : AlertCall CallTarget → Alert → Prop
  | created {x alertId createdAt severity priority : Value} {a : Alert} : a.sourceMatch.toValue.IsSnapshot x →
      EvidenceFrom as (.createAlert (.value x) alertId createdAt severity priority) a
  | requested {i : Nat} {r : Request} {a b : Alert} : as[i]? = some b →
      a.sourceMatch = b.sourceMatch ∧ a.alertId = b.alertId → EvidenceFrom as (.request (.alert i) r) a
  | requestedOf {attributes : Dict} {fieldsSet : List String} {x : Value} {r : Request} {a : Alert} :
      attributes.lookup "source_match" = some x → a.sourceMatch.toValue.IsSnapshot x →
      EvidenceFrom as (.request (.value (.model "Alert" attributes fieldsSet)) r) a
  | listed {alerts : List CallTarget} {states severities priorities : FilterArg} {i : Nat} {a : Alert} :
      .alert i ∈ alerts → as[i]? = some a → EvidenceFrom as (.listAlerts alerts states severities priorities) a
  | listedOf {alerts : List CallTarget} {states severities priorities : FilterArg} {attributes : Dict}
      {fieldsSet : List String} {x : Value} {a : Alert} : .value (.model "Alert" attributes fieldsSet) ∈ alerts →
      attributes.lookup "source_match" = some x → a.sourceMatch.toValue.IsSnapshot x →
      EvidenceFrom as (.listAlerts alerts states severities priorities) a

/-- The evidence that a caller gives with a call: the match of a creation, or the one in an object that is none of
the alerts that were returned. -/
inductive Given : AlertCall CallTarget → Value → Prop
  | source {x alertId createdAt severity priority : Value} :
      Given (.createAlert (.value x) alertId createdAt severity priority) x
  | request {attributes : Dict} {fieldsSet : List String} {x : Value} {r : Request} :
      attributes.lookup "source_match" = some x → Given (.request (.value (.model "Alert" attributes fieldsSet)) r) x
  | listed {alerts : List CallTarget} {attributes : Dict} {fieldsSet : List String} {x : Value}
      {states severities priorities : FilterArg} : .value (.model "Alert" attributes fieldsSet) ∈ alerts →
      attributes.lookup "source_match" = some x → Given (.listAlerts alerts states severities priorities) x

section Evidence

variable [Runtime] {v : Value} {a a' : Alert} {as : List Alert}

theorem evidence_of_returnedFor {names : List String} (h : ReturnedFor names v a) (hname : "source_match" ∉ names) :
    ∃ attributes fieldsSet x, v = .model "Alert" attributes fieldsSet ∧
      attributes.lookup "source_match" = some x ∧ a.sourceMatch.toValue.IsSnapshot x := by
  obtain ⟨attributes, fieldsSet, hv, -, -, hagree⟩ := h
  have hitem : ("source_match", a.sourceMatch.toValue) ∈ a.items := by simp [AlertFields.items]
  obtain ⟨x, hx, -, hsnapshot⟩ := hagree _ hitem hname
  exact ⟨attributes, fieldsSet, x, hv, hx, hsnapshot⟩

theorem returnedFor_on {r : Request} (h : r.on v = .ok a) :
    ∃ names, ReturnedFor names v a ∧ "source_match" ∉ names := by
  cases r with
  | acknowledge at_ => exact ⟨_, returnedFor_transition (ok_of_mapError h), by decide⟩
  | close at_ => exact ⟨_, returnedFor_transition (ok_of_mapError h), by decide⟩
  | setSeverity value changedAt => exact ⟨_, returnedFor_setPolicy (ok_of_mapError h), by decide⟩
  | setPriority value changedAt => exact ⟨_, returnedFor_setPolicy (ok_of_mapError h), by decide⟩

omit [Runtime] in
theorem resolve_alert (as : List Alert) (i : Nat) :
    (∃ a, as[i]? = some a ∧ (CallTarget.alert i).resolve as = a.toValue) ∨ (CallTarget.alert i).resolve as = .none := by
  rw [CallTarget.resolve]
  cases ha : as[i]? with
  | some a => exact Or.inl ⟨a, rfl, rfl⟩
  | none => exact Or.inr rfl

omit [Runtime] in
theorem ok_of_mem_toList {ε α : Type} {x : Except ε α} {b : α} (h : b ∈ x.toOption.toList) : x = .ok b := by
  cases x with
  | ok c =>
    obtain rfl : b = c := by simpa [Except.toOption] using h
    rfl
  | error e => simp [Except.toOption] at h

/-- **What one call returns keeps its evidence.** -/
theorem evidenceFrom_of_result {c : AlertCall CallTarget} (h : a' ∈ (c.map (CallTarget.resolve as)).result) :
    EvidenceFrom as c a' := by
  cases c with
  | createAlert source alertId createdAt severity priority =>
    have hsnapshot := isSnapshot_of_ownValidatedMatch (createAlert_eq_ok (ok_of_mem_toList h)).1
    cases source with
    | value v => exact .created hsnapshot
    | alert i =>
      -- no alert is a match
      obtain ⟨fields, given, hv, -⟩ := hsnapshot
      obtain ⟨a, -, ha⟩ | hnone := resolve_alert as i
      · have hcls : "Alert" = "DetectionMatch" := (Value.model.inj (ha.symm.trans hv)).1
        exact absurd hcls (by decide)
      · cases hnone.symm.trans hv
  | request target r =>
    have hon := ok_of_mem_toList h
    obtain ⟨names, hreturned, hname⟩ := returnedFor_on hon
    obtain ⟨attributes, fieldsSet, x, hv, hx, hsnapshot⟩ := evidence_of_returnedFor hreturned hname
    cases target with
    | value v =>
      obtain rfl : v = .model "Alert" attributes fieldsSet := hv
      exact .requestedOf hx hsnapshot
    | alert i =>
      obtain ⟨a, ha, hresolve⟩ | hnone := resolve_alert as i
      · rw [hresolve, Request.on_toValue] at hon
        obtain ⟨hid, hmatch, -⟩ := identity_of_perform hon
        exact .requested ha ⟨hmatch, hid⟩
      · cases hnone.symm.trans hv
  | listAlerts alerts states severities priorities =>
    obtain ⟨q, hq, hmem⟩ : ∃ q, listAlerts (.of (alerts.map (CallTarget.resolve as))) states severities priorities =
        .ok q ∧ a' ∈ q := by
      rw [AlertCall.map, AlertCall.result] at h
      cases hq : listAlerts (.of (alerts.map (CallTarget.resolve as))) states severities priorities with
      | ok q =>
        rw [hq] at h
        exact ⟨q, rfl, h⟩
      | error e =>
        rw [hq] at h
        cases h
    obtain ⟨entry, hentry, d, hread⟩ := mem_snapshots.mp ((mem_of_listAlerts hq a').mp hmem).1
    obtain ⟨target, htarget, rfl⟩ := List.mem_map.mp hentry
    obtain ⟨attributes, fieldsSet, x, hv, hx, hsnapshot⟩ := evidence_of_returnedFor (returnedFor_read hread) (by simp)
    cases target with
    | value v =>
      obtain rfl : v = .model "Alert" attributes fieldsSet := hv
      exact .listedOf htarget hx hsnapshot
    | alert i =>
      obtain ⟨a, ha, hresolve⟩ | hnone := resolve_alert as i
      · rw [hresolve] at hread
        by_cases hreadable : a.Readable
        · rw [readAlertSnapshot_toValue hreadable] at hread
          obtain rfl : a = a' := congrArg Prod.fst (Option.some.inj hread)
          exact .listed htarget ha
        · rw [readAlertSnapshot_of_not_readable hreadable] at hread
          cases hread
      · cases hnone.symm.trans hv

/-- The evidence of every alert was given with one of the calls. -/
theorem evidence_of_issued (cs : List (AlertCall CallTarget)) :
    ∀ a ∈ issued [] cs, ∃ c ∈ cs, ∃ x, Given c x ∧ a.sourceMatch.toValue.IsSnapshot x := by
  induction cs using List.reverseRecOn with
  | nil =>
    intro a ha
    cases ha
  | append_singleton cs c ih =>
    intro a' ha'
    rw [issued_append] at ha'
    have hkept {b : Alert} {i : Nat} (hb : (issued [] cs)[i]? = some b) (hsame : a'.sourceMatch = b.sourceMatch) :
        ∃ c' ∈ cs ++ [c], ∃ x, Given c' x ∧ a'.sourceMatch.toValue.IsSnapshot x := by
      obtain ⟨c', hc', x, hgiven, hsnapshot⟩ := ih b (List.mem_of_getElem? hb)
      exact ⟨c', List.mem_append_left _ hc', x, hgiven, hsame ▸ hsnapshot⟩
    rcases List.mem_append.mp ha' with ha' | ha'
    · obtain ⟨i, hi⟩ := List.mem_iff_getElem?.mp ha'
      exact hkept hi rfl
    · cases evidenceFrom_of_result ha' with
      | created hsnapshot => exact ⟨_, List.mem_append_right _ (List.mem_singleton_self _), _, .source, hsnapshot⟩
      | requested hb hsame => exact hkept hb hsame.1
      | requestedOf hx hsnapshot =>
        exact ⟨_, List.mem_append_right _ (List.mem_singleton_self _), _, .request hx, hsnapshot⟩
      | listed _ hb => exact hkept hb rfl
      | listedOf htarget hx hsnapshot =>
        exact ⟨_, List.mem_append_right _ (List.mem_singleton_self _), _, .listed htarget hx, hsnapshot⟩

/-- **No evidence is made up, mixed or repaired.**  In every run the evidence of each alert is a snapshot of what
a caller gave with one call, as it was at that call: the match of a creation, or the match in an object that was
passed for an alert.  Every call on alerts that were returned keeps the evidence of the very alert that it is made
on. -/
theorem evidence_given {w : World} {cs : List (AlertCall CallTarget)} (h : World.empty.Run cs w) :
    (∀ r ∈ w.alerts, ∃ a : Alert, w.heap.Is r a.toValue ∧
      ∃ c ∈ cs, ∃ x, Given c x ∧ a.sourceMatch.toValue.IsSnapshot x) ∧
    ∀ cs₁ c cs₂, cs = cs₁ ++ c :: cs₂ → ∃ before new after, w.alerts = before ++ (new ++ after) ∧
      List.Forall₂ (fun r (a : Alert) => w.heap.Is r a.toValue) before (issued [] cs₁) ∧
      List.Forall₂ (fun r (a : Alert) => w.heap.Is r a.toValue) new
        (c.map (CallTarget.resolve (issued [] cs₁))).result ∧
      ∀ r ∈ new, ∃ a : Alert, w.heap.Is r a.toValue ∧ EvidenceFrom (issued [] cs₁) c a := by
  obtain ⟨-, owned, outside, hw⟩ := World.run_isolated h ⟨_, _, World.Isolated.start⟩
  refine ⟨fun r hr => ?_, ?_⟩
  · obtain ⟨a, ha, hra⟩ := exists_of_forall₂ hw.alerts r hr
    exact ⟨a, hra.2, evidence_of_issued cs a ha⟩
  · rintro cs₁ c cs₂ rfl
    obtain ⟨rest, hrest⟩ := prefix_issued (issued [] cs₁ ++ (c.map (CallTarget.resolve (issued [] cs₁))).result) cs₂
    have hissued : issued [] (cs₁ ++ c :: cs₂) =
        issued [] cs₁ ++ ((c.map (CallTarget.resolve (issued [] cs₁))).result ++ rest) := by
      rw [issued_append, ← List.append_assoc, hrest]
      rfl
    have halerts := hw.alerts
    rw [hissued] at halerts
    obtain ⟨before, others, hsplit, hbefore, hothers⟩ := exists_append_of_forall₂ halerts
    obtain ⟨new, after, rfl, hnew, -⟩ := exists_append_of_forall₂ hothers
    refine ⟨before, new, after, hsplit, hbefore.imp fun r a hra => hra.2, hnew.imp fun r a hra => hra.2, fun r hr => ?_⟩
    obtain ⟨a, ha, hra⟩ := exists_of_forall₂ hnew r hr
    exact ⟨a, hra.2, evidenceFrom_of_result ha⟩

end Evidence

/-- The alert that is returned for an acknowledgement has the evidence of the new alert. -/
theorem evidence_given_example : ∃ (_ : Runtime) (w : World) (s : Ref Value) (b : Alert),
    w.alerts[1]? = some s ∧ w.heap.Is s b.toValue ∧ b.sourceMatch = exampleMatch := by
  let runtime := Runtime.ordinary
  have hlater : exampleInstant 0 ≤ exampleInstant 1 := by decide
  have hcreate := createAlert_exampleAlert ⟨"alice-1", by decide⟩ .normal
  have hperform := perform_of_effect (r := .acknowledge (exampleTime 1))
    (readable_exampleAlert ⟨"alice-1", by decide⟩ .normal) hlater rfl (.acknowledge rfl)
  obtain ⟨w, r, s, hrun, hw, -⟩ := exists_run_of_perform hcreate hperform
  obtain ⟨-, hkept⟩ := evidence_given hrun
  obtain ⟨before, new, after, hsplit, hbefore, hnew, hfrom⟩ := hkept [_] _ [] rfl
  rw [issued_of_created hcreate] at hbefore hnew hfrom
  rw [result_of_perform hperform] at hnew
  -- the first alert was returned by the creation, and the second one by the request
  cases hbefore with
  | cons _ hnone =>
    cases hnone
    cases hnew with
    | cons _ hnone =>
      cases hnone
      rw [hw] at hsplit
      obtain ⟨-, rfl, -⟩ : _ ∧ s = _ ∧ _ := by simpa using hsplit
      obtain ⟨b, his, hevidence⟩ := hfrom s (List.mem_singleton_self s)
      cases hevidence with
      | requested ha hsame =>
        obtain rfl := Option.some.inj ha
        exact ⟨runtime, w, s, b, by rw [hw]; rfl, his, hsame.1⟩

end SocLab
