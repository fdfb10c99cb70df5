import Mathlib.Data.Multiset.Lattice
import Mathlib.Order.BoundedOrder.Basic
import Mathlib.Tactic.TypeStar

/-!
# SocLab.Logic.Kleene — formulas of strong Kleene logic with finitary connectives

* `Truth` has the three values; `conj` and `disj` interpret a list of values, `neg` a single one.  In the
  order `false < unknown < true` they are the minimum (`conj_eq_inf`), the maximum (`disj_eq_sup`) and the
  reversal of the order (`neg_le_neg_iff`, `neg_neg`).
* `Formula α` is built from atoms by conjunction and disjunction of any number of formulas and by
  negation; `Formula.eval` interprets it under a valuation of its atoms.
* `Formula.OccursAt p a f`: the atom `a` stands in `f` below an even (`p = true`) or an odd number of
  negations.  `Formula.eval_true_mono` is preservation of truth: a valuation that keeps the truth of the
  positive atoms and the falsity of the negative ones keeps the truth of the formula.
-/

namespace Kleene

/-- The values of Kleene's strong logic. -/
inductive Truth where
  | true
  | false
  | unknown
  deriving DecidableEq

namespace Truth

/-- The conjunction: false decides, then unknown. -/
def conj (vs : List Truth) : Truth :=
  if false ∈ vs then false else if unknown ∈ vs then unknown else true

/-- The disjunction: true decides, then unknown. -/
def disj (vs : List Truth) : Truth :=
  if true ∈ vs then true else if unknown ∈ vs then unknown else false

/-- Negation leaves the unknown unknown. -/
def neg : Truth → Truth
  | true => false
  | false => true
  | unknown => unknown

theorem conj_eq_false {vs : List Truth} : conj vs = false ↔ false ∈ vs := by
  unfold conj
  split_ifs with h h' <;> simp [h]

theorem conj_eq_true {vs : List Truth} : conj vs = true ↔ ∀ v ∈ vs, v = true := by
  unfold conj
  constructor
  · split_ifs with h h'
    · intro he; cases he
    · intro he; cases he
    · intro _ v hv
      cases v with
      | true => rfl
      | false => exact absurd hv h
      | unknown => exact absurd hv h'
  · intro h
    rw [if_neg (fun hf => by cases h _ hf), if_neg (fun hu => by cases h _ hu)]

theorem disj_eq_true {vs : List Truth} : disj vs = true ↔ true ∈ vs := by
  unfold disj
  split_ifs with h h' <;> simp [h]

theorem disj_eq_false {vs : List Truth} : disj vs = false ↔ ∀ v ∈ vs, v = false := by
  unfold disj
  constructor
  · split_ifs with h h'
    · intro he; cases he
    · intro he; cases he
    · intro _ v hv
      cases v with
      | true => exact absurd hv h
      | false => rfl
      | unknown => exact absurd hv h'
  · intro h
    rw [if_neg (fun hf => by cases h _ hf), if_neg (fun hu => by cases h _ hu)]

theorem neg_eq_true {v : Truth} : neg v = true ↔ v = false := by cases v <;> simp [neg]

theorem neg_eq_false {v : Truth} : neg v = false ↔ v = true := by cases v <;> simp [neg]

/-! The order `false < unknown < true`. -/

/-- The place in the order of truth. -/
def rank : Truth → Nat
  | false => 0
  | unknown => 1
  | true => 2

theorem rank_injective {v w : Truth} (h : rank v = rank w) : v = w := by
  cases v <;> cases w <;> first | rfl | cases h

instance : LinearOrder Truth where
  le v w := rank v ≤ rank w
  le_refl v := Nat.le_refl _
  le_trans _ _ _ := Nat.le_trans
  le_antisymm _ _ h h' := rank_injective (Nat.le_antisymm h h')
  le_total v w := Nat.le_total _ _
  toDecidableLE v w := inferInstanceAs (Decidable (rank v ≤ rank w))
  toDecidableEq := inferInstance

instance : BoundedOrder Truth where
  top := true
  le_top v := by cases v <;> decide
  bot := false
  bot_le v := by cases v <;> decide

theorem le_conj_iff {v : Truth} {vs : List Truth} : v ≤ conj vs ↔ ∀ w ∈ vs, v ≤ w := by
  unfold conj
  constructor
  · split_ifs with h h'
    · intro hv w _
      exact le_trans hv bot_le
    · intro hv w hw
      cases w with
      | false => exact absurd hw h
      | unknown => exact hv
      | true => exact le_top
    · intro _ w hw
      cases w with
      | false => exact absurd hw h
      | unknown => exact absurd hw h'
      | true => exact le_top
  · intro hv
    split_ifs with h h'
    · exact hv _ h
    · exact hv _ h'
    · exact le_top

theorem disj_le_iff {v : Truth} {vs : List Truth} : disj vs ≤ v ↔ ∀ w ∈ vs, w ≤ v := by
  unfold disj
  constructor
  · split_ifs with h h'
    · intro hv w _
      exact le_trans le_top hv
    · intro hv w hw
      cases w with
      | true => exact absurd hw h
      | unknown => exact hv
      | false => exact bot_le
    · intro _ w hw
      cases w with
      | true => exact absurd hw h
      | unknown => exact absurd hw h'
      | false => exact bot_le
  · intro hv
    split_ifs with h h'
    · exact hv _ h
    · exact hv _ h'
    · exact bot_le

/-- The conjunction is the minimum. -/
theorem conj_eq_inf (vs : List Truth) : conj vs = (vs : Multiset Truth).inf :=
  eq_of_forall_le_iff fun v => by rw [le_conj_iff, Multiset.le_inf]; simp

/-- The disjunction is the maximum. -/
theorem disj_eq_sup (vs : List Truth) : disj vs = (vs : Multiset Truth).sup :=
  eq_of_forall_ge_iff fun v => by rw [disj_le_iff, Multiset.sup_le]; simp

theorem neg_le_neg_iff {v w : Truth} : neg v ≤ neg w ↔ w ≤ v := by
  cases v <;> cases w <;> decide

theorem neg_neg (v : Truth) : neg (neg v) = v := by cases v <;> rfl

/-- The value that counts at a polarity: truth at the positive one, falsity at the negative one. -/
def ofPolarity : Bool → Truth
  | .true => true
  | .false => false

/-- A disjunction of known values is known. -/
theorem disj_map_ofPolarity (bs : List Bool) : disj (bs.map ofPolarity) = ofPolarity (bs.any id) := by
  cases h : bs.any id with
  | true =>
    obtain ⟨b, hb, rfl⟩ := List.any_eq_true.mp h
    exact disj_eq_true.mpr (List.mem_map_of_mem hb)
  | false =>
    refine disj_eq_false.mpr fun v hv => ?_
    obtain ⟨b, hb, rfl⟩ := List.mem_map.mp hv
    have hfalse : b = .false := by simpa using List.any_eq_false.mp h b hb
    rw [hfalse, ofPolarity]

theorem disj_unknown {vs : List Truth} (hne : vs ≠ []) (h : ∀ v ∈ vs, v = unknown) :
    disj vs = unknown := by
  obtain ⟨v, vs, rfl⟩ := List.exists_cons_of_ne_nil hne
  have hmem : unknown ∈ v :: vs := h v (by simp) ▸ List.mem_cons_self ..
  rw [disj, if_neg (fun ht => by cases h _ ht), if_pos hmem]

end Truth

/-- Formulas over atoms. -/
inductive Formula (α : Type) where
  | atom (a : α)
  | all (fs : List (Formula α))
  | any (fs : List (Formula α))
  | not (f : Formula α)

namespace Formula

variable {α : Type}

/-- Induction over formulas: the connectives over all of their members at once. -/
@[elab_as_elim, induction_eliminator]
theorem induction {P : Formula α → Prop} (atom : ∀ a, P (atom a))
    (all : ∀ fs, (∀ f ∈ fs, P f) → P (all fs)) (any : ∀ fs, (∀ f ∈ fs, P f) → P (any fs))
    (not : ∀ f, P f → P (not f)) : ∀ f, P f :=
  @Formula.rec α P (fun fs => ∀ f ∈ fs, P f) atom all any not (fun _ h => absurd h (by simp))
    fun f fs hf hfs g hg => by
      rcases List.mem_cons.mp hg with rfl | hg
      · exact hf
      · exact hfs g hg

mutual

/-- The value of a formula, given those of its atoms. -/
def eval (v : α → Truth) : Formula α → Truth
  | atom a => v a
  | all fs => .conj (evalList v fs)
  | any fs => .disj (evalList v fs)
  | not f => .neg (eval v f)

/-- The values of the members. -/
def evalList (v : α → Truth) : List (Formula α) → List Truth
  | [] => []
  | f :: fs => eval v f :: evalList v fs

end

theorem evalList_eq_map (v : α → Truth) (fs : List (Formula α)) : evalList v fs = fs.map (eval v) := by
  induction fs with
  | nil => rfl
  | cons f fs ih => rw [evalList, ih]; rfl

@[simp] theorem eval_atom (v : α → Truth) (a : α) : eval v (atom a) = v a := rfl

@[simp] theorem eval_all (v : α → Truth) (fs : List (Formula α)) :
    eval v (all fs) = .conj (fs.map (eval v)) := by
  rw [eval, evalList_eq_map]

@[simp] theorem eval_any (v : α → Truth) (fs : List (Formula α)) :
    eval v (any fs) = .disj (fs.map (eval v)) := by
  rw [eval, evalList_eq_map]

@[simp] theorem eval_not (v : α → Truth) (f : Formula α) : eval v (not f) = .neg (eval v f) := rfl

/-- The atom `a` stands in the formula at polarity `p`. -/
inductive OccursAt (a : α) : Bool → Formula α → Prop
  | atom : OccursAt a true (atom a)
  | all {p fs f} : f ∈ fs → OccursAt a p f → OccursAt a p (all fs)
  | any {p fs f} : f ∈ fs → OccursAt a p f → OccursAt a p (any fs)
  | not {p f} : OccursAt a p f → OccursAt a (!p) (not f)

/-- Both polarities at once: negation exchanges them. -/
theorem eval_mono {v w : α → Truth} (p : Bool) (f : Formula α)
    (h : ∀ q a, OccursAt a q f → v a = .ofPolarity (q == p) → w a = .ofPolarity (q == p)) :
    eval v f = .ofPolarity p → eval w f = .ofPolarity p := by
  -- the polarity turns at every negation, so it is generalized
  induction f generalizing p with
  | atom a => simpa using h true a .atom
  | all fs ih =>
    have ih' : ∀ f ∈ fs, eval v f = .ofPolarity p → eval w f = .ofPolarity p := fun f hf =>
      ih f hf p fun q a ha => h q a (.all hf ha)
    rw [eval_all, eval_all]
    cases p with
    | true =>
      intro hv
      refine Truth.conj_eq_true.mpr fun x hx => ?_
      obtain ⟨f, hf, rfl⟩ := List.mem_map.mp hx
      exact ih' f hf (Truth.conj_eq_true.mp hv _ (List.mem_map_of_mem hf))
    | false =>
      intro hv
      obtain ⟨f, hf, hvf⟩ := List.mem_map.mp (Truth.conj_eq_false.mp hv)
      exact Truth.conj_eq_false.mpr (List.mem_map.mpr ⟨f, hf, ih' f hf hvf⟩)
  | any fs ih =>
    have ih' : ∀ f ∈ fs, eval v f = .ofPolarity p → eval w f = .ofPolarity p := fun f hf =>
      ih f hf p fun q a ha => h q a (.any hf ha)
    rw [eval_any, eval_any]
    cases p with
    | true =>
      intro hv
      obtain ⟨f, hf, hvf⟩ := List.mem_map.mp (Truth.disj_eq_true.mp hv)
      exact Truth.disj_eq_true.mpr (List.mem_map.mpr ⟨f, hf, ih' f hf hvf⟩)
    | false =>
      intro hv
      refine Truth.disj_eq_false.mpr fun x hx => ?_
      obtain ⟨f, hf, rfl⟩ := List.mem_map.mp hx
      exact ih' f hf (Truth.disj_eq_false.mp hv _ (List.mem_map_of_mem hf))
  | not f ih =>
    have hflip : ∀ q a, OccursAt a q f → v a = .ofPolarity (q == !p) → w a = .ofPolarity (q == !p) := by
      intro q a ha
      have hq : (q == !p) = ((!q) == p) := by cases p <;> cases q <;> rfl
      rw [hq]
      exact h (!q) a (.not ha)
    have ih' := ih (!p) hflip
    rw [eval_not, eval_not]
    cases p with
    | true => exact fun hv => Truth.neg_eq_true.mpr (ih' (Truth.neg_eq_true.mp hv))
    | false => exact fun hv => Truth.neg_eq_false.mpr (ih' (Truth.neg_eq_false.mp hv))

/-- **Preservation of truth.** -/
theorem eval_true_mono {v w : α → Truth} {f : Formula α}
    (hpos : ∀ a, OccursAt a true f → v a = .true → w a = .true)
    (hneg : ∀ a, OccursAt a false f → v a = .false → w a = .false) (h : eval v f = .true) :
    eval w f = .true := by
  refine eval_mono true f (fun q a ha => ?_) h
  cases q with
  | true => exact hpos a ha
  | false => exact hneg a ha

end Formula

end Kleene
