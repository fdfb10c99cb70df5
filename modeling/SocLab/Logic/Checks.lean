/-!
# SocLab.Logic.Checks — computations guarded by an ordered list of conditions

`Guarded conditions x`: the computation `x` succeeds exactly when all of the conditions hold, and
otherwise its error is the one of the first condition that fails.  The rules follow the cascade of tests
of a program.
-/

namespace Logic

variable {ε α : Type}

/-- `e` is the error of the first condition that does not hold. -/
def FirstViolated : List (Prop × ε) → ε → Prop
  | [], _ => False
  | (p, e) :: conditions, e' => ¬ p ∧ e' = e ∨ p ∧ FirstViolated conditions e'

/-- `x` succeeds when all conditions hold, and fails with the error of the first that does not. -/
structure Guarded (conditions : List (Prop × ε)) (x : Except ε α) : Prop where
  ok_iff : (∃ a, x = .ok a) ↔ ∀ c ∈ conditions, c.1
  error_iff : ∀ e, x = .error e ↔ FirstViolated conditions e

namespace Guarded

variable {conditions : List (Prop × ε)} {x : Except ε α} {p : Prop} {e : ε}

theorem ok (a : α) : Guarded ([] : List (Prop × ε)) (.ok a) where
  ok_iff := by simp
  error_iff e := by simp [FirstViolated]

/-- The first condition holds. -/
theorem pass (hp : p) (h : Guarded conditions x) : Guarded ((p, e) :: conditions) x where
  ok_iff := by simp [h.ok_iff, hp]
  error_iff e' := by simp [h.error_iff, FirstViolated, hp]

/-- The first condition fails. -/
theorem fail (hp : ¬ p) : Guarded ((p, e) :: conditions) (.error e : Except ε α) where
  ok_iff := by simp [hp]
  error_iff e' := by simp [FirstViolated, hp, eq_comm]

/-- A first condition that holds is passed. -/
theorem of_pass (hp : p) (h : Guarded ((p, e) :: conditions) x) : Guarded conditions x where
  ok_iff := by simp [h.ok_iff, hp]
  error_iff e' := by simp [h.error_iff, FirstViolated, hp]

/-- Only errors of the conditions are raised. -/
theorem ne_error (h : Guarded conditions x) (he : e ∉ conditions.map (·.2)) : x ≠ .error e := by
  intro hx
  refine he ?_
  have hfirst := (h.error_iff e).mp hx
  clear h hx he
  induction conditions with
  | nil => exact hfirst.elim
  | cons c conditions ih =>
    rcases hfirst with ⟨-, rfl⟩ | ⟨-, hfirst⟩
    · simp
    · exact List.mem_cons_of_mem _ (ih hfirst)

end Guarded

end Logic
