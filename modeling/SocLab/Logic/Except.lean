import Mathlib.Data.List.Forall2
import Mathlib.Order.Lattice

/-!
# SocLab.Logic.Except — computations that may fail

* `Follows check run P`: where `check` raises, `run` raises the same error, and where `check` passes,
  `run` returns a value with the property `P`.  The rules compose along `bind`, so that a traversal that
  computes can be compared with a traversal that only checks.
* `RaisesOnly P run`: the errors of `run` are in the class `P`; `raisesOnly_bind` follows a sequence.
* `forall₂_of_mapM_ok` and `exists_of_mapM_error` are about a list of computations; in a strictly sorted
  list the error is that of the least element that fails (`mapM_least_error`).
-/

namespace Logic

variable {ε α β : Type}

@[simp] theorem ok_bind (a : α) (f : α → Except ε β) : (Except.ok a >>= f) = f a := rfl

@[simp] theorem error_bind (e : ε) (f : α → Except ε β) : (Except.error e >>= f) = .error e := rfl

theorem bind_eq_ok {x : Except ε α} {f : α → Except ε β} {b : β} :
    (x >>= f) = .ok b ↔ ∃ a, x = .ok a ∧ f a = .ok b := by
  cases x <;> simp

theorem bind_eq_error {x : Except ε α} {f : α → Except ε β} {e : ε} :
    x >>= f = .error e ↔ x = .error e ∨ ∃ a, x = .ok a ∧ f a = .error e := by
  cases x with
  | ok a => simp [ok_bind]
  | error e' => simp [error_bind]

theorem exists_of_map_ok {x : Except ε α} {f : α → β} {b : β} (h : x.map f = .ok b) :
    ∃ a, x = .ok a ∧ f a = b := by
  cases x with
  | ok a => exact ⟨a, rfl, Except.ok.inj h⟩
  | error e => cases h

theorem error_of_map_error {x : Except ε α} {f : α → β} {e : ε} (h : x.map f = .error e) :
    x = .error e := by
  cases x with
  | ok a => cases h
  | error e' => exact congrArg Except.error (Except.error.inj h)

/-- The run succeeds with `P` where the check passes, and fails with the error of the check. -/
def Follows (check : Except ε Unit) (run : Except ε α) (P : α → Prop) : Prop :=
  match check with
  | .ok () => ∃ a, run = .ok a ∧ P a
  | .error e => run = .error e

namespace Follows

variable {check check' : Except ε Unit} {run : Except ε α} {P : α → Prop} {Q : β → Prop}

theorem pure {a : α} (h : P a) : Follows (.ok () : Except ε Unit) (.ok a) P := ⟨a, rfl, h⟩

theorem error (e : ε) : Follows (.error e) (.error e : Except ε α) P := rfl

theorem mono {P' : α → Prop} (h : Follows check run P) (hP : ∀ a, P a → P' a) :
    Follows check run P' := by
  cases check with
  | ok u =>
    obtain ⟨a, ha, hp⟩ := h
    exact ⟨a, ha, hP a hp⟩
  | error e => exact h

theorem bind {f : α → Except ε β} (h : Follows check run P)
    (hf : ∀ a, P a → Follows check' (f a) Q) :
    Follows (check >>= fun _ => check') (run >>= f) Q := by
  cases check with
  | ok u =>
    obtain ⟨a, rfl, hp⟩ := h
    exact hf a hp
  | error e =>
    rw [show run = .error e from h]
    rfl

/-- A continuation that cannot fail. -/
theorem bind_ok {f : α → Except ε β} (h : Follows check run P)
    (hf : ∀ a, P a → ∃ b, f a = .ok b ∧ Q b) : Follows check (run >>= f) Q := by
  cases check with
  | ok u =>
    obtain ⟨a, rfl, hp⟩ := h
    exact hf a hp
  | error e =>
    rw [show run = .error e from h]
    rfl

/-- The run succeeds exactly when the check passes. -/
theorem isOk_iff (h : Follows check run P) : (∃ a, run = .ok a) ↔ check = .ok () := by
  cases check with
  | ok u =>
    obtain ⟨a, ha, -⟩ := h
    exact iff_of_true ⟨a, ha⟩ rfl
  | error e =>
    rw [show run = .error e from h]
    simp

theorem error_iff (h : Follows check run P) (e : ε) : run = .error e ↔ check = .error e := by
  cases check with
  | ok u =>
    obtain ⟨a, rfl, -⟩ := h
    simp
  | error e' =>
    rw [show run = .error e' from h]
    simp

end Follows

/-- Every error of the computation is in the class `P`. -/
def RaisesOnly (P : ε → Prop) (x : Except ε α) : Prop := ∀ e, x = .error e → P e

section RaisesOnly

variable {P : ε → Prop} {x : Except ε α} {f : α → Except ε β}

@[simp] theorem raisesOnly_ok (a : α) : RaisesOnly P (.ok a : Except ε α) := fun _ h => by cases h

@[simp] theorem raisesOnly_error {e : ε} : RaisesOnly P (.error e : Except ε α) ↔ P e := by
  simp [RaisesOnly]

theorem raisesOnly_bind :
    RaisesOnly P (x >>= f) ↔ RaisesOnly P x ∧ ∀ a, x = .ok a → RaisesOnly P (f a) := by
  cases x <;> simp

/-- A sequence whose first part raises only errors of the class. -/
theorem RaisesOnly.bind_iff (hx : RaisesOnly P x) :
    RaisesOnly P (x >>= f) ↔ ∀ a, x = .ok a → RaisesOnly P (f a) :=
  raisesOnly_bind.trans (and_iff_right hx)

theorem RaisesOnly.bind (hx : RaisesOnly P x) (hf : ∀ a, x = .ok a → RaisesOnly P (f a)) :
    RaisesOnly P (x >>= f) := raisesOnly_bind.mpr ⟨hx, hf⟩

theorem RaisesOnly.map (hx : RaisesOnly P x) (g : α → β) : RaisesOnly P (g <$> x) := by
  cases x with
  | ok a => exact raisesOnly_ok _
  | error e => exact raisesOnly_error.mpr (raisesOnly_error.mp hx)

theorem RaisesOnly.mono {P' : ε → Prop} (hx : RaisesOnly P x) (h : ∀ e, P e → P' e) : RaisesOnly P' x :=
  fun e he => h e (hx e he)

end RaisesOnly

/-- A list of computations that all succeed, with the list of their results. -/
theorem forall₂_of_mapM_ok {f : α → Except ε β} {xs : List α} {ys : List β}
    (h : xs.mapM f = .ok ys) : List.Forall₂ (fun x y => f x = .ok y) xs ys := by
  induction xs generalizing ys with
  | nil => cases h; exact .nil
  | cons x xs ih =>
    rw [List.mapM_cons] at h
    cases hx : f x with
    | error e => rw [hx] at h; cases h
    | ok y =>
      rw [hx] at h
      cases hxs : xs.mapM f with
      | error e => rw [hxs] at h; cases h
      | ok ys' =>
        rw [hxs] at h
        cases h
        exact .cons hx (ih hxs)

theorem mapM_eq_ok {f : α → Except ε β} {xs : List α} {ys : List β} :
    xs.mapM f = .ok ys ↔ List.Forall₂ (fun x y => f x = .ok y) xs ys := by
  refine ⟨forall₂_of_mapM_ok, fun h => ?_⟩
  induction h with
  | nil => rfl
  | cons hx _ ih => rw [List.mapM_cons, hx, ok_bind, ih]; rfl

/-- The error of a list of computations is that of one of them. -/
theorem exists_of_mapM_error {f : α → Except ε β} {xs : List α} {e : ε} (h : xs.mapM f = .error e) :
    ∃ x ∈ xs, f x = .error e := by
  induction xs with
  | nil => cases h
  | cons x xs ih =>
    rw [List.mapM_cons] at h
    cases hx : f x with
    | error e' =>
      rw [hx] at h
      cases h
      exact ⟨x, List.mem_cons_self .., hx⟩
    | ok y =>
      rw [hx] at h
      cases hxs : xs.mapM f with
      | ok ys => rw [hxs] at h; cases h
      | error e' =>
        rw [hxs] at h
        cases h
        obtain ⟨z, hz, hf⟩ := ih hxs
        exact ⟨z, List.mem_cons_of_mem _ hz, hf⟩

theorem mapM_of_ok {f : α → Except ε β} {g : α → β} {xs : List α} (h : ∀ x ∈ xs, f x = .ok (g x)) :
    xs.mapM f = .ok (xs.map g) := by
  induction xs with
  | nil => rfl
  | cons x xs ih =>
    rw [List.mapM_cons, h x (by simp), ok_bind, ih fun y hy => h y (by simp [hy]), ok_bind]
    rfl

/-- Computations that agree, element by element, up to a view of their results agree up to it as a list. -/
theorem map_mapM_congr {γ : Type} {f f' : α → Except ε β} {g g' : β → γ} (xs : List α)
    (h : ∀ x ∈ xs, (f x).map g = (f' x).map g') :
    (xs.mapM f).map (List.map g) = (xs.mapM f').map (List.map g') := by
  induction xs with
  | nil => rfl
  | cons x xs ih =>
    have hx := h x (by simp)
    have hxs := ih fun y hy => h y (by simp [hy])
    rw [List.mapM_cons, List.mapM_cons]
    cases hf : f x with
    | error e =>
      rw [hf] at hx
      rw [error_of_map_error hx.symm]
      rfl
    | ok b =>
      rw [hf] at hx
      obtain ⟨b', hb', hg⟩ := exists_of_map_ok hx.symm
      rw [hb', ok_bind, ok_bind]
      cases hm : xs.mapM f with
      | error e =>
        rw [hm] at hxs
        rw [error_of_map_error hxs.symm]
        rfl
      | ok bs =>
        rw [hm] at hxs
        obtain ⟨bs', hbs', hgs⟩ := exists_of_map_ok hxs.symm
        rw [hbs']
        exact congrArg Except.ok (congrArg₂ List.cons hg.symm hgs.symm)

theorem mapM_of_error {f : α → Except ε β} {l₁ l₂ : List α} {x : α} {e : ε}
    (h₁ : ∀ y ∈ l₁, ∃ b, f y = .ok b) (hx : f x = .error e) :
    (l₁ ++ x :: l₂).mapM f = .error e := by
  induction l₁ with
  | nil => rw [List.nil_append, List.mapM_cons, hx, error_bind]
  | cons y l₁ ih =>
    obtain ⟨b, hb⟩ := h₁ y (by simp)
    rw [List.cons_append, List.mapM_cons, hb, ok_bind, ih fun z hz => h₁ z (by simp [hz]), error_bind]

/-- The elements of a list before the first one that fails. -/
theorem exists_first_error (f : α → Except ε β) (xs : List α) :
    (∀ x ∈ xs, ∃ b, f x = .ok b) ∨
      ∃ l₁ x l₂ e, xs = l₁ ++ x :: l₂ ∧ (∀ y ∈ l₁, ∃ b, f y = .ok b) ∧ f x = .error e := by
  induction xs with
  | nil => exact Or.inl (by simp)
  | cons x xs ih =>
    cases hx : f x with
    | error e => exact Or.inr ⟨[], x, xs, e, rfl, by simp, hx⟩
    | ok b =>
      rcases ih with h | ⟨l₁, y, l₂, e, rfl, h₁, hy⟩
      · exact Or.inl (List.forall_mem_cons.mpr ⟨⟨b, hx⟩, h⟩)
      · exact Or.inr ⟨x :: l₁, y, l₂, e, rfl, List.forall_mem_cons.mpr ⟨⟨b, hx⟩, h₁⟩, hy⟩

/-- **In a strictly sorted list the error is that of the least element that fails.** -/
theorem mapM_least_error {κ : Type} [LinearOrder κ] (key : α → κ) {f : α → Except ε β} {xs : List α}
    (hsorted : xs.Pairwise fun a b => key a < key b) {x : α} {e : ε} (hx : x ∈ xs) (he : f x = .error e)
    (hleast : ∀ y ∈ xs, (∃ e', f y = .error e') → key x ≤ key y) : xs.mapM f = .error e := by
  obtain ⟨l₁, l₂, rfl⟩ := List.append_of_mem hx
  refine mapM_of_error (fun y hy => ?_) he
  cases hfy : f y with
  | ok b => exact ⟨b, rfl⟩
  | error e' =>
    have hlt : key y < key x := (List.pairwise_append.mp hsorted).2.2 y hy x (by simp)
    exact absurd (hleast y (by simp [hy]) ⟨e', hfy⟩) (not_le.mpr hlt)

theorem exists_of_forall₂ {R : α → β → Prop} {xs : List α} {ys : List β} (h : List.Forall₂ R xs ys) :
    ∀ x ∈ xs, ∃ y ∈ ys, R x y := by
  induction h with
  | nil => simp
  | cons hxy _ ih =>
    rintro x hx
    rcases List.mem_cons.mp hx with rfl | hx
    · exact ⟨_, List.mem_cons_self .., hxy⟩
    · obtain ⟨y, hy, hr⟩ := ih x hx
      exact ⟨y, List.mem_cons_of_mem _ hy, hr⟩

/-- What holds of any two partners of the second list, in their order, holds of the first list. -/
theorem pairwise_of_forall₂ {R : α → β → Prop} {S : β → β → Prop} {T : α → α → Prop} {xs : List α} {ys : List β}
    (h : List.Forall₂ R xs ys) (hp : ys.Pairwise S)
    (himp : ∀ {x x' y y'}, R x y → R x' y' → S y y' → T x x') : xs.Pairwise T := by
  induction h with
  | nil => exact .nil
  | cons hxy htail ih =>
    obtain ⟨hhead, hrest⟩ := List.pairwise_cons.mp hp
    refine .cons (fun x' hx' => ?_) (ih hrest)
    obtain ⟨y', hy', hxy'⟩ := exists_of_forall₂ htail x' hx'
    exact himp hxy hxy' (hhead y' hy')

theorem getElem?_of_forall₂ {R : α → β → Prop} {xs : List α} {ys : List β} (h : List.Forall₂ R xs ys) {i : Nat}
    {x : α} (hx : xs[i]? = some x) : ∃ y, ys[i]? = some y ∧ R x y := by
  obtain ⟨hi, rfl⟩ := List.getElem?_eq_some_iff.mp hx
  obtain ⟨hlength, hget⟩ := List.forall₂_iff_get.mp h
  have hi' : i < ys.length := by omega
  exact ⟨ys[i], List.getElem?_eq_getElem hi', hget i hi hi'⟩

theorem exists_append_of_forall₂ {R : α → β → Prop} {xs : List α} {ys zs : List β}
    (h : List.Forall₂ R xs (ys ++ zs)) : ∃ as bs, xs = as ++ bs ∧ List.Forall₂ R as ys ∧ List.Forall₂ R bs zs :=
  ⟨_, _, (List.take_append_drop ys.length xs).symm, List.forall₂_take_append xs ys zs h,
    List.forall₂_drop_append xs ys zs h⟩

theorem forall₂_imp_of_mem {R S : α → β → Prop} {xs : List α} {ys : List β} (h : List.Forall₂ R xs ys)
    (hRS : ∀ x ∈ xs, ∀ y, R x y → S x y) : List.Forall₂ S xs ys := by
  induction h with
  | nil => exact .nil
  | cons hxy _ ih =>
    exact .cons (hRS _ (by simp) _ hxy) (ih fun x hx => hRS x (by simp [hx]))

/-- Lists that are related element by element to one list are equal where the relation is functional on it. -/
theorem eq_of_forall₂ {R : α → β → Prop} {xs : List α} {ys zs : List β}
    (hR : ∀ x ∈ xs, ∀ y z, R x y → R x z → y = z) (h : List.Forall₂ R xs ys) (h' : List.Forall₂ R xs zs) :
    ys = zs := by
  induction h generalizing zs with
  | nil =>
    cases h'
    rfl
  | @cons x y xs ys hxy _ ih =>
    cases h' with
    | cons hxz hrest =>
      obtain rfl := hR x (by simp) _ _ hxy hxz
      rw [ih (fun a ha => hR a (by simp [ha])) hrest]

theorem exists_forall₂ {R : α → β → Prop} {xs : List α} (h : ∀ x ∈ xs, ∃ y, R x y) :
    ∃ ys, List.Forall₂ R xs ys := by
  induction xs with
  | nil => exact ⟨[], .nil⟩
  | cons x xs ih =>
    obtain ⟨y, hy⟩ := h x (by simp)
    obtain ⟨ys, hys⟩ := ih fun z hz => h z (by simp [hz])
    exact ⟨y :: ys, .cons hy hys⟩

end Logic
