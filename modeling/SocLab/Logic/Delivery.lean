import SocLab.Logic.Run

/-!
# SocLab.Logic.Delivery — requests that arrive more than once

A machine whose state carries the time of its last change, and whose requests carry a time: `Clocked`.  When
the requests have increasing times, one that is delivered again, at any later point, changes nothing
(`next_of_mem`), so that delivery at least once amounts to delivery once (`run_of_delivered`).
-/

namespace Logic

variable {σ ρ ε τ : Type}

/-- Each of the requests `rs` arrives, for the first time in their order, and any number of times later. -/
inductive Delivered : List ρ → List ρ → Prop
  | nil : Delivered [] []
  | first {rs ds : List ρ} (r : ρ) : Delivered rs ds → Delivered (rs ++ [r]) (ds ++ [r])
  | again {rs ds : List ρ} {r : ρ} : r ∈ rs → Delivered rs ds → Delivered rs (ds ++ [r])

/-- The times of two requests, as far as they have one. -/
def Earlier [LT τ] (stamp : ρ → Option τ) (r r' : ρ) : Prop :=
  ∀ t t', stamp r = some t → stamp r' = some t' → t < t'

/-- A change sets the clock of the machine to the time of the request; a request without a time, or one from
before the last change, changes nothing; and the machine answers a request that it has just performed by
staying as it is. -/
structure Clocked [LT τ] (step : σ → ρ → Except ε σ) (clock : σ → τ) (stamp : ρ → Option τ) : Prop where
  repeated : ∀ {s s' r}, step s r = .ok s' → next step s' r = s'
  ticks : ∀ {s s' r}, step s r = .ok s' → s' ≠ s → stamp r = some (clock s')
  stamped : ∀ {s r}, stamp r = none → next step s r = s
  late : ∀ {s r t}, stamp r = some t → t < clock s → next step s r = s

variable {step : σ → ρ → Except ε σ} {clock : σ → τ} {stamp : ρ → Option τ} {rs ds : List ρ} {r : ρ}

/-- A change is a step that succeeds. -/
theorem exists_of_next_ne {s : σ} (h : next step s r ≠ s) : step s r = .ok (next step s r) := by
  cases hstep : step s r with
  | ok s' => rw [next_of_ok hstep]
  | error e => exact absurd (next_of_error hstep) h

namespace Clocked

variable [LT τ]

theorem next_next (h : Clocked step clock stamp) (s : σ) (r : ρ) :
    next step (next step s r) r = next step s r := by
  by_cases hchange : next step s r = s
  · rw [hchange, hchange]
  · exact h.repeated (exists_of_next_ne hchange)

/-- **A request that arrives again changes nothing**: either nothing has changed since, or it is late. -/
theorem next_of_mem (h : Clocked step clock stamp) (htimes : rs.Pairwise (Earlier stamp)) (s : σ)
    (hr : r ∈ rs) : next step (run step s rs) r = run step s rs := by
  induction rs using List.reverseRecOn with
  | nil => cases hr
  | append_singleton rs q ih =>
    rw [run_concat]
    obtain ⟨hrs, -, hq⟩ := List.pairwise_append.mp htimes
    rcases List.mem_append.mp hr with hmem | hmem
    · by_cases hchange : next step (run step s rs) q = run step s rs
      · rw [hchange]
        exact ih hrs hmem
      · have hclock : stamp q = some (clock (next step (run step s rs) q)) :=
          h.ticks (exists_of_next_ne hchange) hchange
        cases hstamp : stamp r with
        | none => exact h.stamped hstamp
        | some t => exact h.late hstamp (hq r hmem q (List.mem_singleton_self q) t _ hstamp hclock)
    · rw [List.mem_singleton.mp hmem]
      exact h.next_next (run step s rs) q

/-- **Delivery at least once is delivery once.** -/
theorem run_of_delivered (h : Clocked step clock stamp) (htimes : rs.Pairwise (Earlier stamp))
    (hdelivered : Delivered rs ds) (s : σ) : run step s ds = run step s rs := by
  induction hdelivered with
  | nil => rfl
  | first r _ ih => rw [run_concat, run_concat, ih (List.pairwise_append.mp htimes).1]
  | again hr _ ih =>
    rw [run_concat, ih htimes]
    exact h.next_of_mem htimes s hr

end Clocked

end Logic
