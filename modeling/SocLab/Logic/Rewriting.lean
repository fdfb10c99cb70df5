import Mathlib.Logic.Relation
import SocLab.Logic.Kleene

/-!
# SocLab.Logic.Rewriting — formulas up to the laws of De Morgan lattices

* `Formula.interpret r v` reads a formula in a bounded lattice: conjunctions as meets, disjunctions as
  joins, negation as the order reversal `r`.  In the order of `Truth` this is the strong Kleene value
  (`eval_eq_interpret`).
* `Formula.Step` is one use of a law at any depth of a formula, and `Formula.Rewrites` the equivalence
  that it generates.  `interpret_eq_of_rewrites`: the interpretation does not change, in any such lattice.
* `Formula.Total P`: every connective has a member, and `P` holds of every atom.
-/

namespace Kleene

/-- An order reversal that is its own inverse. -/
structure Reversal (L : Type) [LE L] where
  toFun : L → L
  le_iff : ∀ {a b}, toFun a ≤ toFun b ↔ b ≤ a
  involutive : Function.Involutive toFun

namespace Reversal

variable {L : Type} [Lattice L] (r : Reversal L)

theorem le_comm {a b : L} : r.toFun a ≤ b ↔ r.toFun b ≤ a := by
  rw [← r.le_iff, r.involutive]

theorem comm_le {a b : L} : a ≤ r.toFun b ↔ b ≤ r.toFun a := by
  rw [← r.le_iff, r.involutive]

variable [BoundedOrder L]

theorem map_inf (s : Multiset L) : r.toFun s.inf = (s.map r.toFun).sup := by
  refine eq_of_forall_ge_iff fun a => ?_
  rw [r.le_comm, Multiset.le_inf, Multiset.sup_le]
  simp [r.le_comm]

theorem map_sup (s : Multiset L) : r.toFun s.sup = (s.map r.toFun).inf := by
  refine eq_of_forall_le_iff fun a => ?_
  rw [r.comm_le, Multiset.sup_le, Multiset.le_inf]
  simp [r.comm_le]

end Reversal

/-- Negation reverses the order of truth. -/
def Truth.reversal : Reversal Truth where
  toFun := Truth.neg
  le_iff := Truth.neg_le_neg_iff
  involutive := Truth.neg_neg

namespace Formula

variable {α : Type}

/-! ### The interpretation in a lattice -/

section Interpret

variable {L : Type} [Lattice L] [BoundedOrder L] (r : Reversal L) (v : α → L)

mutual

/-- `all` as the minimum, `any` as the maximum, `not` as order reversal. -/
def interpret : Formula α → L
  | atom a => v a
  | all fs => (interpretAll fs : Multiset L).inf
  | any fs => (interpretAll fs : Multiset L).sup
  | not f => r.toFun (interpret f)

/-- What the members stand for. -/
def interpretAll : List (Formula α) → List L
  | [] => []
  | f :: fs => interpret f :: interpretAll fs

end

theorem interpretAll_eq_map (fs : List (Formula α)) : interpretAll r v fs = fs.map (interpret r v) := by
  induction fs with
  | nil => rfl
  | cons f fs ih => rw [interpretAll, ih]; rfl

@[simp] theorem interpret_atom (a : α) : interpret r v (atom a) = v a := rfl

@[simp] theorem interpret_all (fs : List (Formula α)) :
    interpret r v (all fs) = (fs.map (interpret r v) : Multiset L).inf := by
  rw [interpret, interpretAll_eq_map]

@[simp] theorem interpret_any (fs : List (Formula α)) :
    interpret r v (any fs) = (fs.map (interpret r v) : Multiset L).sup := by
  rw [interpret, interpretAll_eq_map]

@[simp] theorem interpret_not (f : Formula α) : interpret r v (not f) = r.toFun (interpret r v f) := rfl

end Interpret

/-- The strong Kleene value is the interpretation in the order of truth. -/
theorem eval_eq_interpret (v : α → Truth) (f : Formula α) :
    eval v f = interpret Truth.reversal v f := by
  induction f with
  | atom a => rfl
  | all fs ih => rw [eval_all, interpret_all, Truth.conj_eq_inf, List.map_congr_left ih]
  | any fs ih => rw [eval_any, interpret_any, Truth.disj_eq_sup, List.map_congr_left ih]
  | not f ih => rw [eval_not, interpret_not, ih]; rfl

/-! ### Rewriting -/

/-- One use of a law, at any depth. -/
inductive Step : Formula α → Formula α → Prop
  | permuteAll {fs gs} : fs.Perm gs → Step (all fs) (all gs)
  | permuteAny {fs gs} : fs.Perm gs → Step (any fs) (any gs)
  | duplicateAll {f fs} : f ∈ fs → Step (all fs) (all (f :: fs))
  | duplicateAny {f fs} : f ∈ fs → Step (any fs) (any (f :: fs))
  | flattenAll {fs gs hs} : gs ≠ [] → Step (all (fs ++ all gs :: hs)) (all (fs ++ gs ++ hs))
  | flattenAny {fs gs hs} : gs ≠ [] → Step (any (fs ++ any gs :: hs)) (any (fs ++ gs ++ hs))
  | unwrapAll {f} : Step (all [f]) f
  | unwrapAny {f} : Step (any [f]) f
  | doubleNot {f} : Step (not (not f)) f
  | deMorganAll {fs} : Step (not (all fs)) (any (fs.map not))
  | deMorganAny {fs} : Step (not (any fs)) (all (fs.map not))
  | inAll {f g fs hs} : Step f g → Step (all (fs ++ f :: hs)) (all (fs ++ g :: hs))
  | inAny {f g fs hs} : Step f g → Step (any (fs ++ f :: hs)) (any (fs ++ g :: hs))
  | inNot {f g} : Step f g → Step (not f) (not g)

/-- Equal up to any number of uses of the laws, in both directions. -/
def Rewrites : Formula α → Formula α → Prop := Relation.EqvGen Step

/-- What one step keeps is kept by rewriting. -/
theorem eq_of_rewrites {β : Type} {F : Formula α → β} (hstep : ∀ f g, Step f g → F f = F g)
    {f g : Formula α} (h : Rewrites f g) : F f = F g := by
  induction h with
  | rel f g h => exact hstep f g h
  | refl f => rfl
  | symm f g _ ih => exact ih.symm
  | trans f g k _ _ ih ih' => exact ih.trans ih'

section Interpret

variable {L : Type} [Lattice L] [BoundedOrder L] {r : Reversal L} {v : α → L} {f g : Formula α}

theorem interpret_step (h : Step f g) : interpret r v f = interpret r v g := by
  induction h with
  | permuteAll h => rw [interpret_all, interpret_all, Multiset.coe_eq_coe.mpr (h.map _)]
  | permuteAny h => rw [interpret_any, interpret_any, Multiset.coe_eq_coe.mpr (h.map _)]
  | duplicateAll h =>
    rw [interpret_all, interpret_all, List.map_cons, ← Multiset.cons_coe, Multiset.inf_cons]
    exact (inf_eq_right.mpr (Multiset.inf_le (List.mem_map_of_mem h))).symm
  | duplicateAny h =>
    rw [interpret_any, interpret_any, List.map_cons, ← Multiset.cons_coe, Multiset.sup_cons]
    exact (sup_eq_right.mpr (Multiset.le_sup (List.mem_map_of_mem h))).symm
  | flattenAll _ => simp [← Multiset.coe_add, ← Multiset.cons_coe, inf_left_comm]
  | flattenAny _ => simp [← Multiset.coe_add, ← Multiset.cons_coe, sup_left_comm]
  | unwrapAll => simp
  | unwrapAny => simp
  | doubleNot => exact r.involutive _
  | @deMorganAll fs =>
    rw [interpret_not, interpret_all, interpret_any, r.map_inf, Multiset.map_coe, List.map_map,
      List.map_map]
    rfl
  | @deMorganAny fs =>
    rw [interpret_not, interpret_any, interpret_all, r.map_sup, Multiset.map_coe, List.map_map,
      List.map_map]
    rfl
  | inAll _ ih => simp [ih]
  | inAny _ ih => simp [ih]
  | inNot _ ih => rw [interpret_not, interpret_not, ih]

/-- **Rewriting keeps the interpretation.** -/
theorem interpret_eq_of_rewrites (h : Rewrites f g) : interpret r v f = interpret r v g :=
  eq_of_rewrites (fun _ _ => interpret_step) h

end Interpret

/-! ### Total formulas -/

section Total

variable (P : α → Prop)

mutual

/-- Every connective has a member, and every atom satisfies `P`. -/
def Total : Formula α → Prop
  | atom a => P a
  | all fs => fs ≠ [] ∧ AllTotal fs
  | any fs => fs ≠ [] ∧ AllTotal fs
  | not f => Total f

/-- Every member does. -/
def AllTotal : List (Formula α) → Prop
  | [] => True
  | f :: fs => Total f ∧ AllTotal fs

end

theorem allTotal_iff {fs : List (Formula α)} : AllTotal P fs ↔ ∀ f ∈ fs, Total P f := by
  induction fs with
  | nil => simp [AllTotal]
  | cons f fs ih => rw [AllTotal, ih, List.forall_mem_cons]

@[simp] theorem total_atom {a : α} : Total P (atom a) ↔ P a := Iff.rfl

@[simp] theorem total_all {fs : List (Formula α)} :
    Total P (all fs) ↔ fs ≠ [] ∧ ∀ f ∈ fs, Total P f := by rw [Total, allTotal_iff]

@[simp] theorem total_any {fs : List (Formula α)} :
    Total P (any fs) ↔ fs ≠ [] ∧ ∀ f ∈ fs, Total P f := by rw [Total, allTotal_iff]

@[simp] theorem total_not {f : Formula α} : Total P (not f) ↔ Total P f := Iff.rfl

variable {P} {f g : Formula α}

/-- The value of a total formula depends on the atoms with the property only. -/
theorem Total.eval_congr {v w : α → Truth} (hvw : ∀ a, P a → v a = w a) (h : Total P f) :
    eval v f = eval w f := by
  induction f with
  | atom a => exact hvw a h
  | all fs ih =>
    rw [eval_all, eval_all, List.map_congr_left fun f hf => ih f hf ((total_all P).mp h |>.2 f hf)]
  | any fs ih =>
    rw [eval_any, eval_any, List.map_congr_left fun f hf => ih f hf ((total_any P).mp h |>.2 f hf)]
  | not f ih => rw [eval_not, eval_not, ih h]

theorem total_step (h : Step f g) : Total P f ↔ Total P g := by
  induction h with
  | permuteAll h =>
    rw [total_all, total_all, ← List.length_pos_iff, ← List.length_pos_iff, h.length_eq]
    simp [h.mem_iff]
  | permuteAny h =>
    rw [total_any, total_any, ← List.length_pos_iff, ← List.length_pos_iff, h.length_eq]
    simp [h.mem_iff]
  | duplicateAll h =>
    rw [total_all, total_all, List.forall_mem_cons]
    exact ⟨fun ⟨_, hfs⟩ => ⟨by simp, hfs _ h, hfs⟩, fun ⟨_, _, hfs⟩ => ⟨List.ne_nil_of_mem h, hfs⟩⟩
  | duplicateAny h =>
    rw [total_any, total_any, List.forall_mem_cons]
    exact ⟨fun ⟨_, hfs⟩ => ⟨by simp, hfs _ h, hfs⟩, fun ⟨_, _, hfs⟩ => ⟨List.ne_nil_of_mem h, hfs⟩⟩
  | flattenAll hne => simp [or_imp, forall_and, hne]
  | flattenAny hne => simp [or_imp, forall_and, hne]
  | unwrapAll => simp
  | unwrapAny => simp
  | doubleNot => simp
  | deMorganAll => simp
  | deMorganAny => simp
  | inAll _ ih => simp [or_imp, forall_and, ih]
  | inAny _ ih => simp [or_imp, forall_and, ih]
  | inNot _ ih => simpa using ih

/-- **Rewriting keeps a formula total.** -/
theorem total_iff_of_rewrites (h : Rewrites f g) : Total P f ↔ Total P g :=
  iff_of_eq (eq_of_rewrites (fun _ _ hs => propext (total_step hs)) h)

end Total

end Formula

end Kleene
