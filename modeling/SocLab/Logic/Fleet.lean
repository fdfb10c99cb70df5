import SocLab.Logic.Run

/-!
# SocLab.Logic.Fleet — many machines, each under its own key

The states of many machines, told apart by a key that no step changes.  An addressed request is performed
by the machine with that key.

* `serve_eq_map`: what becomes of a machine depends on the requests for its key alone.
* `serve_interleaving`: so the order in which requests for different machines arrive does not matter.
-/

namespace Logic

variable {σ ρ ε κ : Type}

section Key

variable {step : σ → ρ → Except ε σ} {key : σ → κ}

/-- A step that keeps the key keeps it when it fails, too. -/
theorem key_next (hkey : ∀ s r s', step s r = .ok s' → key s' = key s) (s : σ) (r : ρ) :
    key (next step s r) = key s := by
  cases h : step s r with
  | ok s' =>
    rw [next_of_ok h]
    exact hkey s r s' h
  | error e => rw [next_of_error h]

theorem key_run (hkey : ∀ s r s', step s r = .ok s' → key s' = key s) (s : σ) (rs : List ρ) :
    key (run step s rs) = key s :=
  run_invariant (P := fun s' => key s' = key s) rfl
    (fun _ r s' hstep h => (hkey _ r s' hstep).trans h) rs

end Key

variable [DecidableEq κ] (step : σ → ρ → Except ε σ) (key : σ → κ)

/-- The requests for one key, in the order in which they arrive. -/
def requestsFor (k : κ) (rs : List (κ × ρ)) : List ρ := (rs.filter (·.1 = k)).map (·.2)

/-- The machine with the key of the request performs it. -/
def deliver (ss : List σ) (r : κ × ρ) : List σ :=
  ss.map fun s => if key s = r.1 then next step s r.2 else s

/-- The machines after all of the requests. -/
def serve (ss : List σ) (rs : List (κ × ρ)) : List σ := rs.foldl (deliver step key) ss

section Requests

variable {k : κ} {rs rs' : List (κ × ρ)} {r : κ × ρ}

theorem requestsFor_cons_of_eq (h : r.1 = k) : requestsFor k (r :: rs) = r.2 :: requestsFor k rs := by
  rw [requestsFor, List.filter_cons_of_pos (by simpa using h)]
  rfl

theorem requestsFor_cons_of_ne (h : r.1 ≠ k) : requestsFor k (r :: rs) = requestsFor k rs := by
  rw [requestsFor, List.filter_cons_of_neg (by simpa using h)]
  rfl

end Requests

section Serve

variable {step key} {ss ss' : List σ} {rs rs' : List (κ × ρ)}

/-- **Every machine performs the requests for its own key, and no others.** -/
theorem serve_eq_map (hkey : ∀ s r s', step s r = .ok s' → key s' = key s) (ss : List σ)
    (rs : List (κ × ρ)) : serve step key ss rs = ss.map fun s => run step s (requestsFor (key s) rs) := by
  induction rs generalizing ss with
  | nil => exact (List.map_id ss).symm
  | cons r rs ih =>
    have hserve : serve step key ss (r :: rs) = serve step key (deliver step key ss r) rs := rfl
    rw [hserve, ih, deliver, List.map_map]
    refine List.map_congr_left fun s _ => ?_
    rw [Function.comp_apply]
    by_cases h : key s = r.1
    · rw [if_pos h, key_next hkey, requestsFor_cons_of_eq h.symm]
      rfl
    · rw [if_neg h, requestsFor_cons_of_ne (Ne.symm h)]

/-- No machine is lost, and none changes its key. -/
theorem map_key_serve (hkey : ∀ s r s', step s r = .ok s' → key s' = key s) (ss : List σ)
    (rs : List (κ × ρ)) : (serve step key ss rs).map key = ss.map key := by
  rw [serve_eq_map hkey, List.map_map]
  exact List.map_congr_left fun s _ => key_run hkey s _

theorem serve_append (ss : List σ) (rs rs' : List (κ × ρ)) :
    serve step key ss (rs ++ rs') = serve step key (serve step key ss rs) rs' := List.foldl_append

/-- **Every interleaving of the same requests gives the same machines**, however they are enumerated. -/
theorem serve_interleaving (hkey : ∀ s r s', step s r = .ok s' → key s' = key s) (hperm : ss.Perm ss')
    (h : ∀ k, requestsFor k rs = requestsFor k rs') :
    (serve step key ss rs).Perm (serve step key ss' rs') := by
  have hsame : (fun s => run step s (requestsFor (key s) rs)) =
      fun s => run step s (requestsFor (key s) rs') := by
    funext s
    rw [h]
  rw [serve_eq_map hkey, serve_eq_map hkey, hsame]
  exact hperm.map _

end Serve

end Logic
