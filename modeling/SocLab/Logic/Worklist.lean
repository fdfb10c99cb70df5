import Mathlib.Algebra.GroupWithZero.Nat
import Mathlib.Algebra.Order.Group.Nat
import Mathlib.Algebra.BigOperators.Group.List.Basic

/-!
# SocLab.Logic.Worklist — a loop over a stack of pending work

`worklist visit n found pending` takes items from the stack `pending` until it is empty; a visit gives
further items, which go on top of the stack, and results, which are collected.  `n` bounds the number of
visits, and `none` says that it did not suffice.

* `worklist_terminates`: with a weight that the visit of an item spreads over fewer points, as many visits
  as the pending weight suffice.
* `worklist_mono`: more visits change nothing.
* `worklist_induction`: what a visit carries back from the loop after it holds of the whole loop.
* `worklist_perm` and `worklist_isOk_iff`: what the loop collects, and when it succeeds.
-/

namespace Logic

variable {α β ε : Type}

/-- Visits what is pending, last in first out, and collects what the visits find; none when the bound is used up. -/
def worklist (visit : α → Except ε (List α × List β)) :
    Nat → List β → List α → Option (Except ε (List β))
  | _, found, [] => some (.ok found)
  | 0, _, _ :: _ => none
  | n + 1, found, a :: pending =>
    match visit a with
    | .error e => some (.error e)
    | .ok (items, results) => worklist visit n (found ++ results) (items ++ pending)

section Worklist

variable {visit : α → Except ε (List α × List β)} {P : α → Prop} {n : Nat} {found : List β}
  {pending : List α}

@[simp] theorem worklist_nil : worklist visit n found [] = some (.ok found) := by
  cases n <;> rfl

theorem worklist_error {a : α} {e : ε} (h : visit a = .error e) :
    worklist visit (n + 1) found (a :: pending) = some (.error e) := by
  rw [worklist, h]

theorem worklist_ok {a : α} {items : List α} {results : List β} (h : visit a = .ok (items, results)) :
    worklist visit (n + 1) found (a :: pending) =
      worklist visit n (found ++ results) (items ++ pending) := by
  rw [worklist, h]

/-- **As many visits as the pending weight suffice.** -/
theorem worklist_terminates (weight : α → Nat)
    (hvisit : ∀ a items results, P a → visit a = .ok (items, results) →
      (∀ b ∈ items, P b) ∧ (items.map weight).sum < weight a)
    (hpositive : ∀ a, P a → 0 < weight a) (hpending : ∀ a ∈ pending, P a)
    (hn : (pending.map weight).sum ≤ n) : ∃ r, worklist visit n found pending = some r := by
  -- what is pending weighs less after every visit
  induction n generalizing found pending with
  | zero =>
    cases pending with
    | nil => exact ⟨_, rfl⟩
    | cons a pending =>
      have := hpositive a (hpending a (by simp))
      rw [List.map_cons, List.sum_cons] at hn
      omega
  | succ n ih =>
    cases pending with
    | nil => exact ⟨_, rfl⟩
    | cons a pending =>
      have hrest : ∀ b ∈ pending, P b := fun b hb => hpending b (by simp [hb])
      cases h : visit a with
      | error e => exact ⟨_, worklist_error h⟩
      | ok visited =>
        obtain ⟨items, results⟩ := visited
        obtain ⟨hitems, hweight⟩ := hvisit a items results (hpending a (by simp)) h
        rw [worklist_ok h]
        refine ih (fun b hb => ?_) ?_
        · rcases List.mem_append.mp hb with hb | hb
          · exact hitems b hb
          · exact hrest b hb
        · rw [List.map_cons, List.sum_cons] at hn
          rw [List.map_append, List.sum_append]
          omega

/-- **More visits change nothing.** -/
theorem worklist_mono {m : Nat} {r : Except ε (List β)} (h : worklist visit n found pending = some r)
    (hnm : n ≤ m) : worklist visit m found pending = some r := by
  induction n generalizing m found pending with
  | zero =>
    cases pending with
    | nil => rwa [worklist_nil] at h ⊢
    | cons a pending => cases h
  | succ n ih =>
    cases pending with
    | nil => rwa [worklist_nil] at h ⊢
    | cons a pending =>
      obtain ⟨m, rfl⟩ : ∃ k, m = k + 1 := ⟨m - 1, by omega⟩
      cases hvisit : visit a with
      | error e => rwa [worklist_error hvisit] at h ⊢
      | ok visited =>
        obtain ⟨items, results⟩ := visited
        rw [worklist_ok hvisit] at h ⊢
        exact ih h (by omega)

/-- What holds of an empty stack and of a failing visit, and is carried back over a visit, holds of the loop. -/
theorem worklist_induction {motive : List β → List α → Except ε (List β) → Prop} {r : Except ε (List β)}
    (hitems : ∀ a items results, P a → visit a = .ok (items, results) → ∀ b ∈ items, P b)
    (hnil : ∀ found, motive found [] (.ok found))
    (herror : ∀ found a pending e, P a → visit a = .error e → motive found (a :: pending) (.error e))
    (hok : ∀ found a pending items results r, P a → visit a = .ok (items, results) →
      motive (found ++ results) (items ++ pending) r → motive found (a :: pending) r)
    (hpending : ∀ a ∈ pending, P a) (h : worklist visit n found pending = some r) :
    motive found pending r := by
  -- one visit for each unit of the bound
  induction n generalizing found pending with
  | zero =>
    cases pending with
    | nil =>
      cases h
      exact hnil found
    | cons a pending => cases h
  | succ n ih =>
    cases pending with
    | nil =>
      cases h
      exact hnil found
    | cons a pending =>
      obtain ⟨ha, hrest⟩ := List.forall_mem_cons.mp hpending
      cases hvisit : visit a with
      | error e =>
        rw [worklist_error hvisit] at h
        cases h
        exact herror found a pending e ha hvisit
      | ok visited =>
        obtain ⟨items, results⟩ := visited
        rw [worklist_ok hvisit] at h
        have hboth : ∀ b ∈ items ++ pending, P b :=
          List.forall_mem_append.mpr ⟨hitems a items results ha hvisit, hrest⟩
        exact hok found a pending items results r ha hvisit (ih hboth h)

/-- **Nothing is lost and nothing is found twice.**  If what `all` finds from an item is what its visit gives
and what is found from the further items, the loop collects what is found from the pending ones. -/
theorem worklist_perm {all : α → List β} {r : List β}
    (hitems : ∀ a items results, P a → visit a = .ok (items, results) → ∀ b ∈ items, P b)
    (hall : ∀ a items results, P a → visit a = .ok (items, results) →
      (all a).Perm (results ++ items.flatMap all))
    (hpending : ∀ a ∈ pending, P a) (h : worklist visit n found pending = some (.ok r)) :
    r.Perm (found ++ pending.flatMap all) := by
  have hloop : ∀ r', Except.ok r = Except.ok (ε := ε) r' → r'.Perm (found ++ pending.flatMap all) := by
    refine worklist_induction (motive := fun found pending r =>
      ∀ r', r = .ok r' → r'.Perm (found ++ pending.flatMap all)) hitems ?_ ?_ ?_ hpending h
    · rintro found r' hr
      cases hr
      simp
    · rintro found a pending e - - r' hr
      cases hr
    · intro found a pending items results r ha hvisit ih r' hr
      have hperm := ih r' hr
      rw [List.flatMap_append] at hperm
      rw [List.flatMap_cons]
      calc r'.Perm (found ++ results ++ (items.flatMap all ++ pending.flatMap all)) := hperm
        _ = found ++ (results ++ items.flatMap all ++ pending.flatMap all) := by simp
        List.Perm _ (found ++ (all a ++ pending.flatMap all)) :=
          (((hall a items results ha hvisit).symm.append_right _).append_left _)
  exact hloop r rfl

/-- **The loop succeeds when every visit that it comes to does.**  `Good` says that of an item and of all items
that its visits lead to. -/
theorem worklist_isOk_iff {Good : α → Prop} {r : Except ε (List β)}
    (hitems : ∀ a items results, P a → visit a = .ok (items, results) → ∀ b ∈ items, P b)
    (hgood : ∀ a, P a → (Good a ↔ ∃ items results, visit a = .ok (items, results) ∧ ∀ b ∈ items, Good b))
    (hpending : ∀ a ∈ pending, P a) (h : worklist visit n found pending = some r) :
    (∃ results, r = .ok results) ↔ ∀ a ∈ pending, Good a := by
  refine worklist_induction (motive := fun _ pending r => (∃ results, r = .ok results) ↔ ∀ a ∈ pending, Good a)
    hitems ?_ ?_ ?_ hpending h
  · intro found
    simp
  · intro found a pending e ha hvisit
    refine iff_of_false (by rintro ⟨results, ⟨⟩⟩) fun hall => ?_
    obtain ⟨items, results, hok, -⟩ := (hgood a ha).mp (hall a (by simp))
    rw [hvisit] at hok
    cases hok
  · intro found a pending items results r ha hvisit ih
    have hfirst : Good a ↔ ∀ b ∈ items, Good b := by
      rw [hgood a ha, hvisit]
      constructor
      · rintro ⟨items', results', hok, hgood'⟩
        cases hok
        exact hgood'
      · exact fun hgood' => ⟨items, results, rfl, hgood'⟩
    rw [ih, List.forall_mem_append, List.forall_mem_cons, hfirst]

end Worklist

end Logic
