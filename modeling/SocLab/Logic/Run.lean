import Mathlib.Data.List.Destutter

/-!
# SocLab.Logic.Run — runs of a machine whose requests may fail

A machine has a partial step `step : σ → ρ → Except ε σ`; a request that fails leaves the state as it
was.  `run` performs a list of requests and `calls` records them, each with the state before and after.

* `run_invariant`: what every successful step preserves holds at the end of a run.
* `lastCall_rule`: a relation between a state and the last call of some kind, from one step to runs.
* `foldlM_perm`: requests that succeed and commute two by two, under an invariant, give the same state in
  any order.
* `path_destutter_prefix`: if every step stays or moves on along a list without repetition, then the
  distinct states of a run are a prefix of that list.
-/

namespace Logic

variable {σ ρ ε : Type} (step : σ → ρ → Except ε σ)

/-- The state after one request. -/
def next (s : σ) (r : ρ) : σ :=
  match step s r with
  | .ok s' => s'
  | .error _ => s

/-- The state after the requests. -/
def run (s : σ) (rs : List ρ) : σ := rs.foldl (next step) s

/-- One request of a run, with the states around it. -/
structure Call (σ ρ : Type) where
  before : σ
  request : ρ
  after : σ

/-- The call of a request in a state. -/
def callOf (s : σ) (r : ρ) : Call σ ρ := ⟨s, r, next step s r⟩

/-- The calls of a run, in order. -/
def calls (s : σ) : List ρ → List (Call σ ρ)
  | [] => []
  | r :: rs => callOf step s r :: calls (next step s r) rs

/-- The states of a run, the first one included. -/
def path (s : σ) (rs : List ρ) : List σ := s :: (calls step s rs).map (·.after)

/-- The last call with the property `p`. -/
def lastCall (p : Call σ ρ → Bool) (s : σ) (rs : List ρ) : Option (Call σ ρ) :=
  ((calls step s rs).filter p).getLast?

variable {step}

theorem next_of_ok {s s' : σ} {r : ρ} (h : step s r = .ok s') : next step s r = s' := by
  rw [next, h]

theorem next_of_error {s : σ} {r : ρ} {e : ε} (h : step s r = .error e) : next step s r = s := by
  rw [next, h]

theorem run_append (s : σ) (rs rs' : List ρ) : run step s (rs ++ rs') = run step (run step s rs) rs' :=
  List.foldl_append

theorem run_concat (s : σ) (rs : List ρ) (r : ρ) :
    run step s (rs ++ [r]) = next step (run step s rs) r := run_append s rs [r]

theorem calls_concat (s : σ) (rs : List ρ) (r : ρ) :
    calls step s (rs ++ [r]) = calls step s rs ++ [callOf step (run step s rs) r] := by
  induction rs generalizing s with
  | nil => rfl
  | cons r' rs ih =>
    rw [List.cons_append, calls, ih, calls, List.cons_append]
    rfl

/-- **What every successful step preserves holds at the end of a run.** -/
theorem run_invariant {P : σ → Prop} {s : σ} (h : P s)
    (hstep : ∀ s r s', step s r = .ok s' → P s → P s') (rs : List ρ) : P (run step s rs) := by
  induction rs using List.reverseRecOn with
  | nil => exact h
  | append_singleton rs r ih =>
    rw [run_concat]
    cases hs : step (run step s rs) r with
    | ok s' =>
      rw [next_of_ok hs]
      exact hstep _ r s' hs ih
    | error e =>
      rw [next_of_error hs]
      exact ih

/-- A state that no step leaves stays. -/
theorem run_of_stuck {s : σ} (h : ∀ r s', step s r = .ok s' → s' = s) (rs : List ρ) :
    run step s rs = s :=
  run_invariant (P := (· = s)) rfl (fun _ r s' hs h₁ => h r s' (h₁ ▸ hs)) rs

theorem lastCall_concat (p : Call σ ρ → Bool) (s : σ) (rs : List ρ) (r : ρ) :
    lastCall step p s (rs ++ [r]) =
      if p (callOf step (run step s rs) r) then some (callOf step (run step s rs) r)
      else lastCall step p s rs := by
  rw [lastCall, calls_concat, List.filter_append, List.getLast?_append]
  cases hp : p (callOf step (run step s rs) r) <;> simp [hp, lastCall]

/-- **The rule for the last call of some kind**: such a call establishes the relation, and every other
call keeps it. -/
theorem lastCall_rule {R : Option (Call σ ρ) → σ → Prop} {p : Call σ ρ → Bool} {s : σ} (h : R none s)
    (hlast : ∀ s r, p (callOf step s r) = true → R (some (callOf step s r)) (next step s r))
    (hother : ∀ o s r, p (callOf step s r) = false → R o s → R o (next step s r)) (rs : List ρ) :
    R (lastCall step p s rs) (run step s rs) := by
  induction rs using List.reverseRecOn with
  | nil => exact h
  | append_singleton rs r ih =>
    rw [lastCall_concat, run_concat]
    split_ifs with hp
    · exact hlast _ r hp
    · exact hother _ _ r (by simpa using hp) ih

/-! ### Distinct states -/

section Distinct

variable {κ : Type} [DecidableEq κ]

theorem destutter_concat (l : List κ) (x : κ) :
    (l ++ [x]).destutter (· ≠ ·) =
      if l.getLast? = some x then l.destutter (· ≠ ·) else l.destutter (· ≠ ·) ++ [x] := by
  cases l with
  | nil => rfl
  | cons a l =>
    rw [List.cons_append, List.destutter, List.destutter]
    induction l generalizing a with
    | nil => by_cases hax : a = x <;> simp [List.destutter', hax]
    | cons b l ih =>
      rw [List.cons_append, List.destutter', List.destutter']
      split_ifs with hab hlast hlast <;> simp_all

theorem getLast?_destutter (l : List κ) : (l.destutter (· ≠ ·)).getLast? = l.getLast? := by
  induction l using List.reverseRecOn with
  | nil => rfl
  | append_singleton l x ih =>
    rw [destutter_concat]
    split_ifs with hlast
    · rw [ih, hlast, List.getLast?_append]
      rfl
    · simp

theorem path_concat (s : σ) (rs : List ρ) (r : ρ) :
    path step s (rs ++ [r]) = path step s rs ++ [run step s (rs ++ [r])] := by
  rw [path, calls_concat, List.map_append, run_concat]
  rfl

theorem getLast?_path (s : σ) (rs : List ρ) : (path step s rs).getLast? = some (run step s rs) := by
  induction rs using List.reverseRecOn with
  | nil => rfl
  | append_singleton rs r _ => rw [path_concat, List.getLast?_append]; rfl

/-- **The distinct states of a run are a prefix of a list along which every step stays or moves on.** -/
theorem path_destutter_prefix {f : σ → κ} {order : List κ} (hnodup : order.Nodup) {s : σ}
    (h : [f s] <+: order)
    (hstep : ∀ s r s', step s r = .ok s' → f s' = f s ∨ ∃ l t, order = l ++ f s :: f s' :: t)
    (rs : List ρ) : ((path step s rs).map f).destutter (· ≠ ·) <+: order := by
  -- from the end: one more request appends at most one state
  induction rs using List.reverseRecOn with
  | nil => exact h
  | append_singleton rs r ih =>
    have hlast : ((path step s rs).map f).getLast? = some (f (run step s rs)) := by
      rw [List.getLast?_map, getLast?_path]
      rfl
    rw [path_concat, List.map_append, List.map_singleton, destutter_concat, hlast, run_concat]
    split_ifs with hstay
    · exact ih
    · cases hs : step (run step s rs) r with
      | error e => exact absurd (by rw [next_of_error hs]) hstay
      | ok s' =>
        rw [next_of_ok hs] at hstay ⊢
        rcases hstep _ r s' hs with heq | ⟨l, t, horder⟩
        · exact absurd (by rw [heq]) hstay
        · -- the distinct states end with the current one, which stands in the list once
          rw [← getLast?_destutter] at hlast
          obtain ⟨l', hl'⟩ := List.getLast?_eq_some_iff.mp hlast
          obtain ⟨t', ht'⟩ := ih
          rw [hl', List.append_assoc, List.singleton_append, horder] at ht'
          rw [horder, List.nodup_append, List.nodup_cons] at hnodup
          obtain ⟨-, ⟨htail, -⟩, hdisjoint⟩ := hnodup
          have hhead : f (run step s rs) ∉ l := fun hmem => hdisjoint _ hmem _ (by simp) rfl
          obtain ⟨rfl, -, -⟩ := (List.append_cons_inj_of_notMem hhead htail).mp ht'.symm
          rw [hl', horder]
          exact ⟨t, by simp⟩

end Distinct

/-! ### The order of requests -/

section Commute

variable {P : σ → Prop} {rs rs' : List ρ}

/-- **Requests that commute two by two give the same state in any order.** -/
theorem foldlM_perm (hperm : rs.Perm rs')
    (hstep : ∀ r ∈ rs, ∀ s, P s → ∃ s', step s r = .ok s' ∧ P s')
    (hcomm : ∀ r ∈ rs, ∀ r' ∈ rs, ∀ s, P s →
      (step s r >>= fun s₁ => step s₁ r') = (step s r' >>= fun s₁ => step s₁ r)) {s : σ} (hs : P s) :
    rs.foldlM step s = rs'.foldlM step s := by
  induction hperm generalizing s with
  | nil => rfl
  | cons r _ ih =>
    obtain ⟨s₁, h₁, hs₁⟩ := hstep r (by simp) s hs
    rw [List.foldlM_cons, List.foldlM_cons, h₁]
    exact ih (fun r' hr' => hstep r' (by simp [hr']))
      (fun r' hr' r'' hr'' => hcomm r' (by simp [hr']) r'' (by simp [hr''])) hs₁
  | swap r r' l =>
    have h := hcomm r' (by simp) r (by simp) s hs
    simp only [List.foldlM_cons, ← bind_assoc]
    rw [h]
  | trans hperm _ ih ih' =>
    rw [ih hstep hcomm hs]
    exact ih' (fun r hr => hstep r (hperm.mem_iff.mpr hr))
      (fun r hr r' hr' => hcomm r (hperm.mem_iff.mpr hr) r' (hperm.mem_iff.mpr hr')) hs

end Commute

end Logic
