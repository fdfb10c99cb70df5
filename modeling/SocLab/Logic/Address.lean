import Mathlib.Data.Set.Card
import Mathlib.Order.Interval.Finset.Nat

/-!
# SocLab.Logic.Address — the addresses of the nodes of a tree

A tree is a type with `children : α → List α`; an address is the list of the indices from the root down.

* `descend children a p` is the node at the address `p`; `addresses children P a` are the addresses of the
  nodes with the property `P`.
* `encard_addresses` counts them from the children, and `isGreatest_levels` does the same for the depth.
* `addresses_eq_of_simulates`: trees related level by level have the same addresses.
* `encard_le_of_depth`: a tree whose branches all end in one of `n` addresses has at most `1 + n * (d - 1)`
  nodes, where `d` is the depth.
-/

namespace Logic

universe u v

variable {α : Type u} {β : Type v} (children : α → List α)

/-- The node that an address leads to. -/
def descend : α → List Nat → Option α
  | a, [] => some a
  | a, i :: p =>
    match (children a)[i]? with
    | some c => descend c p
    | none => none

/-- The addresses of the nodes with the property `P`. -/
def addresses (P : α → Prop) (a : α) : Set (List Nat) := {p | ∃ b, descend children a p = some b ∧ P b}

/-- The levels on which the tree has nodes; the root is on level 1. -/
def levels (a : α) : Set Nat := {n | ∃ p ∈ addresses children (fun _ => True) a, n = p.length + 1}

/-- What `S` says of the members of a list, each behind its index. -/
def branches (S : α → Set (List Nat)) (cs : List α) : Set (List Nat) :=
  {q | ∃ i p c, q = i :: p ∧ cs[i]? = some c ∧ p ∈ S c}

variable {children} {P : α → Prop} {a b : α}

/-! ### Walking down -/

@[simp] theorem descend_nil : descend children a [] = some a := rfl

theorem descend_cons_eq_some {i : Nat} {p : List Nat} :
    descend children a (i :: p) = some b ↔ ∃ c, (children a)[i]? = some c ∧ descend children c p = some b := by
  rw [descend]
  cases (children a)[i]? with
  | none => simp
  | some c => simp

theorem descend_append {p q : List Nat} (h : descend children a p = some b) :
    descend children a (p ++ q) = descend children b q := by
  induction p generalizing a with
  | nil =>
    cases h
    rfl
  | cons i p ih =>
    obtain ⟨c, hc, hb⟩ := descend_cons_eq_some.mp h
    rw [List.cons_append, descend, hc]
    exact ih hb

/-- A property that passes from a node to its children holds below. -/
theorem descend_induction {Q : α → Prop} (hstep : ∀ a, Q a → ∀ c ∈ children a, Q c) {p : List Nat}
    (ha : Q a) (h : descend children a p = some b) : Q b := by
  induction p generalizing a with
  | nil =>
    cases h
    exact ha
  | cons i p ih =>
    obtain ⟨c, hc, hb⟩ := descend_cons_eq_some.mp h
    exact ih (hstep a ha c (List.mem_of_getElem? hc)) hb

/-! ### Counting -/

theorem branches_nil {S : α → Set (List Nat)} : branches S [] = ∅ := by
  ext q
  simp [branches]

/-- The next index for every address. -/
def shift : List Nat → List Nat
  | [] => []
  | i :: p => (i + 1) :: p

theorem shift_injective : Function.Injective shift := by
  intro p q h
  cases p with
  | nil =>
    cases q with
    | nil => rfl
    | cons j q => cases h
  | cons i p =>
    cases q with
    | nil => cases h
    | cons j q =>
      obtain ⟨hij, rfl⟩ := List.cons.inj h
      rw [Nat.succ.inj hij]

theorem branches_cons {S : α → Set (List Nat)} {c : α} {cs : List α} :
    branches S (c :: cs) = (List.cons 0) '' S c ∪ shift '' branches S cs := by
  ext q
  constructor
  · rintro ⟨i, p, d, rfl, hd, hp⟩
    cases i with
    | zero =>
      cases hd
      exact Or.inl ⟨p, hp, rfl⟩
    | succ i => exact Or.inr ⟨i :: p, ⟨i, p, d, rfl, hd, hp⟩, rfl⟩
  · rintro (⟨p, hp, rfl⟩ | ⟨q, ⟨i, p, d, rfl, hd, hp⟩, rfl⟩)
    · exact ⟨0, p, c, rfl, rfl, hp⟩
    · exact ⟨i + 1, p, d, rfl, hd, hp⟩

theorem encard_branches (S : α → Set (List Nat)) (cs : List α) :
    (branches S cs).encard = (cs.map fun c => (S c).encard).sum := by
  induction cs with
  | nil => rw [branches_nil, Set.encard_empty]; rfl
  | cons c cs ih =>
    have hdisjoint : Disjoint (List.cons 0 '' S c) (shift '' branches S cs) := by
      rw [Set.disjoint_left]
      rintro _ ⟨p, -, rfl⟩ ⟨q, ⟨i, p', d, rfl, -, -⟩, hq⟩
      cases hq
    rw [branches_cons, Set.encard_union_eq hdisjoint, List.cons_injective.encard_image,
      shift_injective.encard_image, ih]
    rfl

/-- The addresses in a tree are the root and those behind the index of a child. -/
theorem addresses_eq :
    addresses children P a = {p | p = [] ∧ P a} ∪ branches (addresses children P) (children a) := by
  ext p
  cases p with
  | nil => simp [addresses, branches]
  | cons i p =>
    simp only [addresses, branches, Set.mem_ofPred_eq, Set.mem_union, descend_cons_eq_some]
    constructor
    · rintro ⟨b, ⟨c, hc, hb⟩, hP⟩
      exact Or.inr ⟨i, p, c, rfl, hc, b, hb, hP⟩
    · rintro (⟨⟨⟩, -⟩ | ⟨j, q, c, hcons, hc, b, hb, hP⟩)
      obtain ⟨rfl, rfl⟩ := List.cons.inj hcons
      exact ⟨b, ⟨c, hc, hb⟩, hP⟩

/-- **The nodes of a tree are its root and the nodes of its children.** -/
theorem encard_addresses [Decidable (P a)] : (addresses children P a).encard =
    (if P a then 1 else 0) + ((children a).map fun c => (addresses children P c).encard).sum := by
  have hdisjoint : Disjoint {p | p = [] ∧ P a} (branches (addresses children P) (children a)) := by
    rw [Set.disjoint_left]
    rintro _ ⟨rfl, -⟩ ⟨i, p, c, hcons, -⟩
    cases hcons
  have hroot : Set.encard {p : List Nat | p = [] ∧ P a} = if P a then 1 else 0 := by
    by_cases hP : P a
    · simp [hP]
    · simp [hP]
  rw [addresses_eq, Set.encard_union_eq hdisjoint, encard_branches, hroot]

/-! ### Depth -/

theorem le_foldr_max {l : List Nat} {n : Nat} (h : n ∈ l) : n ≤ l.foldr max 0 := by
  induction l with
  | nil => cases h
  | cons m l ih =>
    rw [List.foldr_cons]
    rcases List.mem_cons.mp h with rfl | h
    · exact le_max_left ..
    · exact (ih h).trans (le_max_right ..)

theorem foldr_max_mem {l : List Nat} (h : l ≠ []) : l.foldr max 0 ∈ l := by
  induction l with
  | nil => exact absurd rfl h
  | cons m l ih =>
    rw [List.foldr_cons]
    rcases eq_or_ne l [] with rfl | hl
    · simp
    · rcases max_cases m (l.foldr max 0) with ⟨hmax, -⟩ | ⟨hmax, -⟩
      · rw [hmax]
        exact List.mem_cons_self ..
      · rw [hmax]
        exact List.mem_cons_of_mem _ (ih hl)

/-- **The depth of a tree is one more than that of its deepest child.** -/
theorem isGreatest_levels {depth : α → Nat} (h : ∀ c ∈ children a, IsGreatest (levels children c) (depth c)) :
    IsGreatest (levels children a) (1 + ((children a).map depth).foldr max 0) := by
  constructor
  · rcases eq_or_ne (children a) [] with hnil | hne
    · exact ⟨[], ⟨a, rfl, trivial⟩, by simp [hnil]⟩
    · have hne : (children a).map depth ≠ [] := by simpa using hne
      obtain ⟨c, hc, hmax⟩ := List.mem_map.mp (foldr_max_mem hne)
      obtain ⟨i, hi⟩ := List.mem_iff_getElem?.mp hc
      obtain ⟨p, ⟨b, hb, -⟩, hlength⟩ := (h c hc).1
      refine ⟨i :: p, ⟨b, descend_cons_eq_some.mpr ⟨c, hi, hb⟩, trivial⟩, ?_⟩
      rw [← hmax, hlength, List.length_cons]
      omega
  · rintro n ⟨p, ⟨b, hb, -⟩, rfl⟩
    cases p with
    | nil =>
      rw [List.length_nil]
      omega
    | cons i p =>
      obtain ⟨c, hc, hb⟩ := descend_cons_eq_some.mp hb
      have hmem : c ∈ children a := List.mem_of_getElem? hc
      have hdepth : p.length + 1 ≤ depth c := (h c hmem).2 ⟨p, ⟨b, hb, trivial⟩, rfl⟩
      have hmax : depth c ≤ ((children a).map depth).foldr max 0 := le_foldr_max (List.mem_map_of_mem hmem)
      rw [List.length_cons]
      omega

/-! ### Trees of the same shape -/

/-- Trees that are related level by level have related nodes at the same addresses. -/
theorem descend_of_simulates {children' : β → List β} {R : α → β → Prop}
    (hstep : ∀ a b, R a b → List.Forall₂ R (children a) (children' b)) {p : List Nat} {b : β} {c : α}
    (hab : R a b) (h : descend children a p = some c) : ∃ d, descend children' b p = some d ∧ R c d := by
  induction p generalizing a b with
  | nil =>
    cases h
    exact ⟨b, rfl, hab⟩
  | cons i p ih =>
    obtain ⟨a', ha', hc⟩ := descend_cons_eq_some.mp h
    have hrel := (hstep a b hab).flip
    obtain ⟨hlt, rfl⟩ := List.getElem?_eq_some_iff.mp ha'
    have hlt' : i < (children' b).length := by rwa [hrel.length_eq]
    obtain ⟨d, hd, hcd⟩ := ih (List.forall₂_iff_get.mp (hstep a b hab) |>.2 i hlt hlt') hc
    exact ⟨d, descend_cons_eq_some.mpr ⟨_, List.getElem?_eq_getElem hlt', hd⟩, hcd⟩

/-- **Trees of one shape have the same addresses**, of the nodes that the relation tells apart too. -/
theorem addresses_eq_of_simulates {children' : β → List β} {R : α → β → Prop} {Q : β → Prop}
    (hstep : ∀ a b, R a b → List.Forall₂ R (children a) (children' b)) (hPQ : ∀ a b, R a b → (P a ↔ Q b))
    {b : β} (hab : R a b) : addresses children P a = addresses children' Q b := by
  ext p
  constructor
  · rintro ⟨c, hc, hP⟩
    obtain ⟨d, hd, hcd⟩ := descend_of_simulates hstep hab hc
    exact ⟨d, hd, (hPQ c d hcd).mp hP⟩
  · rintro ⟨d, hd, hQ⟩
    obtain ⟨c, hc, hcd⟩ := descend_of_simulates (R := flip R) (fun b a h => (hstep a b h).flip) hab hd
    exact ⟨c, hc, (hPQ c d hcd).mpr hQ⟩

/-! ### The number of nodes -/

/-- **A tree has at most `1 + n * (d - 1)` nodes** when every node lies above one of `n` leaves, each at most
`d` deep: a node but the root is a leaf's address and how much of it is walked. -/
theorem encard_le_of_depth {A L : Set (List Nat)} {d n : Nat} (hL : L.encard ≤ n)
    (hdepth : ∀ p ∈ L, p.length + 1 ≤ d) (hbelow : ∀ p ∈ A, ∃ q, p ++ q ∈ L) :
    A.encard ≤ (1 + n * (d - 1) : Nat) := by
  have hcover : A ⊆ {[]} ∪
      (fun x : List Nat × Nat => x.1.take x.2) '' (L ×ˢ (Finset.Icc 1 (d - 1) : Set Nat)) := by
    intro p hp
    rcases eq_or_ne p [] with rfl | hne
    · exact Or.inl rfl
    · obtain ⟨q, hq⟩ := hbelow p hp
      have hlength := hdepth _ hq
      have hpos : 1 ≤ p.length := List.length_pos_iff.mpr hne
      rw [List.length_append] at hlength
      refine Or.inr ⟨(p ++ q, p.length), ⟨hq, ?_⟩, List.take_left ..⟩
      rw [Finset.mem_coe, Finset.mem_Icc]
      exact ⟨hpos, by omega⟩
  calc A.encard ≤ ({[]} ∪ _ : Set (List Nat)).encard := Set.encard_le_encard hcover
    _ ≤ ({[]} : Set (List Nat)).encard + _ := Set.encard_union_le ..
    _ ≤ 1 + L.encard * (d - 1 : Nat) := by
      rw [Set.encard_singleton]
      refine add_le_add_right ((Set.encard_image_le ..).trans ?_) 1
      rw [Set.encard_prod, Set.encard_coe_eq_coe_finsetCard, Nat.card_Icc, Nat.add_sub_cancel]
    _ ≤ (1 + n * (d - 1) : Nat) := by
      rw [Nat.cast_add, Nat.cast_mul, Nat.cast_one]
      gcongr

end Logic
