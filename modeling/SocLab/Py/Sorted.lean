import Mathlib.Data.List.Sort
import Mathlib.Order.Lattice

/-!
# SocLab.Py.Sorted — `sorted(xs, key=...)` and the detection of duplicates

* `sorted` is the stable sort by a key.  With pairwise distinct keys the result is strictly increasing,
  and it is the only strictly increasing list with the same elements: this gives independence of the
  enumeration order (`sorted_eq_of_perm`), idempotence and commutation with a filter.
* `sorted_cons`: where one element more goes; `filter_lt_prefix`: how its place depends on its key.
* `firstRepeat` is the loop over keys with a set of the keys seen.  It finds nothing exactly when the
  keys are distinct (`firstRepeat_eq_none`), and in a sorted list the least key that occurs twice
  (`firstRepeat_sorted`).
-/

namespace Py

variable {α κ : Type} [LinearOrder κ] (key : α → κ)

/-- `sorted(xs, key=key)`. -/
def sorted (xs : List α) : List α := xs.insertionSort (fun a b => key a ≤ key b)

theorem sorted_perm (xs : List α) : (sorted key xs).Perm xs := List.perm_insertionSort _ xs

@[simp] theorem mem_sorted {xs : List α} {a : α} : a ∈ sorted key xs ↔ a ∈ xs :=
  (sorted_perm key xs).mem_iff

theorem pairwise_sorted (xs : List α) : (sorted key xs).Pairwise (fun a b => key a ≤ key b) :=
  have : IsTrans α (fun a b => key a ≤ key b) := ⟨fun _ _ _ => le_trans⟩
  have : Std.Total (fun a b : α => key a ≤ key b) := ⟨fun a b => le_total (key a) (key b)⟩
  List.pairwise_insertionSort _ xs

/-- A list that is in order already is left alone. -/
theorem sorted_of_pairwise {xs : List α} (h : xs.Pairwise (fun a b => key a ≤ key b)) :
    sorted key xs = xs := h.insertionSort_eq

/-- What is sorted by the key of an image. -/
theorem map_sorted {β : Type} (f : β → α) (xs : List β) :
    (sorted (fun b => key (f b)) xs).map f = sorted key (xs.map f) :=
  List.map_insertionSort _ _ f xs fun _ _ _ _ => Iff.rfl

/-- Distinct keys make the order strict. -/
theorem pairwise_lt_sorted {xs : List α} (h : (xs.map key).Nodup) :
    (sorted key xs).Pairwise (fun a b => key a < key b) := by
  have hnodup : ((sorted key xs).map key).Nodup := ((sorted_perm key xs).map key).nodup_iff.mpr h
  have hne : (sorted key xs).Pairwise (fun a b => key a ≠ key b) := List.pairwise_map.mp hnodup
  exact ((pairwise_sorted key xs).and hne).imp fun h => lt_of_le_of_ne h.1 h.2

/-- Two strictly increasing lists with the same elements are equal. -/
theorem eq_of_pairwise_lt {xs ys : List α} (hx : xs.Pairwise (fun a b => key a < key b))
    (hy : ys.Pairwise (fun a b => key a < key b)) (h : ∀ a, a ∈ xs ↔ a ∈ ys) : xs = ys := by
  have : Std.Irrefl (fun a b : α => key a < key b) := ⟨fun a => lt_irrefl (key a)⟩
  have : Std.Antisymm (fun a b : α => key a < key b) := ⟨fun a b h h' => absurd h' (lt_asymm h)⟩
  exact hx.eq_of_mem_iff hy h

/-- **The sort of a collection with distinct keys does not depend on its enumeration.** -/
theorem sorted_eq_of_perm {xs ys : List α} (hnodup : (xs.map key).Nodup) (h : xs.Perm ys) :
    sorted key xs = sorted key ys := by
  have hnodup' : (ys.map key).Nodup := (h.map key).nodup_iff.mp hnodup
  refine eq_of_pairwise_lt key (pairwise_lt_sorted key hnodup) (pairwise_lt_sorted key hnodup') ?_
  intro a
  rw [mem_sorted, mem_sorted, h.mem_iff]

theorem sorted_filter {xs : List α} (p : α → Bool) (hnodup : (xs.map key).Nodup) :
    sorted key (xs.filter p) = (sorted key xs).filter p := by
  have hnodup' : ((xs.filter p).map key).Nodup :=
    hnodup.sublist (List.filter_sublist.map key)
  refine eq_of_pairwise_lt key (pairwise_lt_sorted key hnodup')
    ((pairwise_lt_sorted key hnodup).filter p) ?_
  intro a
  rw [mem_sorted, List.mem_filter, List.mem_filter, mem_sorted]

/-- Only the keys matter for their order: the sorted keys depend on the multiset of keys alone. -/
theorem map_sorted_eq_of_perm {xs ys : List α} (h : (xs.map key).Perm (ys.map key)) :
    (sorted key xs).map key = (sorted key ys).map key := by
  have hx : ((sorted key xs).map key).Pairwise (· ≤ ·) := List.pairwise_map.mpr (pairwise_sorted key xs)
  have hy : ((sorted key ys).map key).Pairwise (· ≤ ·) := List.pairwise_map.mpr (pairwise_sorted key ys)
  refine List.Perm.eq_of_pairwise' hx hy ?_
  exact ((sorted_perm key xs).map key).trans (h.trans ((sorted_perm key ys).map key).symm)

/-- Elements with distinct keys or not: where the key tells elements apart, their order is determined. -/
theorem sorted_eq_of_perm_of_inj {xs ys : List α}
    (hinj : ∀ a ∈ xs, ∀ b ∈ xs, key a = key b → a = b) (h : xs.Perm ys) : sorted key xs = sorted key ys := by
  have hperm : (sorted key xs).Perm (sorted key ys) :=
    (sorted_perm key xs).trans (h.trans (sorted_perm key ys).symm)
  refine hperm.eq_of_pairwise (fun a b ha hb hab hba => ?_) (pairwise_sorted key xs) (pairwise_sorted key ys)
  exact hinj a ((mem_sorted key).mp ha) b (h.mem_iff.mpr ((mem_sorted key).mp hb)) (le_antisymm hab hba)

/-! ### One element more -/

section Insert

variable {key} {x : α} {xs : List α}

/-- What lies below a bound, in a list in order, is a prefix of what lies below a larger bound. -/
theorem filter_lt_prefix (hxs : xs.Pairwise (fun a b => key a < key b)) {k k' : κ} (hk : k ≤ k') :
    xs.filter (key · < k) <+: xs.filter (key · < k') := by
  induction xs with
  | nil => exact List.prefix_rfl
  | cons x xs ih =>
    obtain ⟨hx, hxs⟩ := List.pairwise_cons.mp hxs
    by_cases h : key x < k
    · rw [List.filter_cons_of_pos (by simpa using h),
        List.filter_cons_of_pos (by simpa using lt_of_lt_of_le h hk)]
      exact List.cons_prefix_cons.mpr ⟨rfl, ih hxs⟩
    · have hnil : xs.filter (key · < k) = [] := by
        refine List.filter_eq_nil_iff.mpr fun a ha => ?_
        have hlt : k < key a := lt_of_le_of_lt (not_lt.mp h) (hx a ha)
        simpa using hlt.le
      rw [List.filter_cons_of_neg (by simpa using h), hnil]
      exact List.nil_prefix

/-- An element with a key of its own stands below or above every other one. -/
theorem lt_or_gt_of_nodup (hnodup : ((x :: xs).map key).Nodup) {a : α} (ha : a ∈ xs) :
    key a < key x ∨ key x < key a := by
  rw [List.map_cons, List.nodup_cons] at hnodup
  refine lt_or_gt_of_ne fun heq => hnodup.1 ?_
  rw [← heq]
  exact List.mem_map_of_mem ha

/-- The two sides of an element make up the rest. -/
theorem filter_lt_append_filter_gt (hnodup : ((x :: xs).map key).Nodup) :
    (sorted key xs).filter (key · < key x) ++ (sorted key xs).filter (key x < key ·) = sorted key xs := by
  have hlt := pairwise_lt_sorted key (List.nodup_cons.mp hnodup).2
  refine eq_of_pairwise_lt key ?_ hlt fun a => ?_
  · refine List.pairwise_append.mpr ⟨hlt.filter _, hlt.filter _, fun a ha b hb => ?_⟩
    have hax : key a < key x := by simpa using (List.mem_filter.mp ha).2
    have hxb : key x < key b := by simpa using (List.mem_filter.mp hb).2
    exact hax.trans hxb
  · simp only [List.mem_append, List.mem_filter, mem_sorted, decide_eq_true_eq, ← and_or_left]
    exact and_iff_left_of_imp (lt_or_gt_of_nodup hnodup)

/-- **An element with a key of its own is inserted between the elements of smaller and of larger key.** -/
theorem sorted_cons (hnodup : ((x :: xs).map key).Nodup) : sorted key (x :: xs) =
    (sorted key xs).filter (key · < key x) ++ x :: (sorted key xs).filter (key x < key ·) := by
  have hlt := pairwise_lt_sorted key (List.nodup_cons.mp hnodup).2
  refine eq_of_pairwise_lt key (pairwise_lt_sorted key hnodup) ?_ fun a => ?_
  · have hbelow : ∀ a ∈ (sorted key xs).filter (key · < key x), key a < key x := by
      intro a ha
      simpa using (List.mem_filter.mp ha).2
    have habove : ∀ a ∈ (sorted key xs).filter (key x < key ·), key x < key a := by
      intro a ha
      simpa using (List.mem_filter.mp ha).2
    refine List.pairwise_append.mpr ⟨hlt.filter _, List.pairwise_cons.mpr ⟨habove, hlt.filter _⟩, ?_⟩
    intro a ha b hb
    rcases List.mem_cons.mp hb with rfl | hb
    · exact hbelow a ha
    · exact lt_trans (hbelow a ha) (habove b hb)
  · rw [mem_sorted, List.mem_append, List.mem_cons, List.mem_cons, or_left_comm, ← List.mem_append,
      filter_lt_append_filter_gt hnodup, mem_sorted]

end Insert

/-! ### Duplicates -/

section Repeat

/-- The first key that was seen before. -/
def firstRepeat {κ : Type} [DecidableEq κ] (seen : List κ) : List κ → Option κ
  | [] => none
  | k :: ks => if k ∈ seen then some k else firstRepeat (k :: seen) ks

theorem firstRepeat_eq_none {κ : Type} [DecidableEq κ] {seen ks : List κ} :
    firstRepeat seen ks = none ↔ ks.Nodup ∧ ∀ k ∈ ks, k ∉ seen := by
  induction ks generalizing seen with
  | nil => simp [firstRepeat]
  | cons k ks ih =>
    rw [firstRepeat]
    split_ifs with hk
    · simp [hk]
    · rw [ih, List.nodup_cons]
      constructor
      · rintro ⟨hnodup, hseen⟩
        refine ⟨⟨fun hmem => hseen k hmem (by simp), hnodup⟩, ?_⟩
        exact List.forall_mem_cons.mpr ⟨hk, fun k' hk' hs => hseen k' hk' (by simp [hs])⟩
      · rintro ⟨⟨hkks, hnodup⟩, hseen⟩
        refine ⟨hnodup, fun k' hk' hmem => ?_⟩
        rcases List.mem_cons.mp hmem with rfl | hs
        · exact hkks hk'
        · exact hseen k' (by simp [hk']) hs

/-- Where the first repetition stands: the keys before it are distinct and new. -/
theorem firstRepeat_eq_some {κ : Type} [DecidableEq κ] {seen ks : List κ} {k : κ}
    (h : firstRepeat seen ks = some k) :
    ∃ l₁ l₂, ks = l₁ ++ k :: l₂ ∧ k ∈ seen ++ l₁ ∧ l₁.Nodup ∧ ∀ x ∈ l₁, x ∉ seen := by
  induction ks generalizing seen with
  | nil => cases h
  | cons k' ks ih =>
    rw [firstRepeat] at h
    split_ifs at h with hk
    · cases h
      exact ⟨[], ks, rfl, by simpa using hk, List.nodup_nil, by simp⟩
    · obtain ⟨l₁, l₂, rfl, hmem, hnodup, hnew⟩ := ih h
      refine ⟨k' :: l₁, l₂, rfl, by simpa [or_left_comm] using hmem, ?_, ?_⟩
      · exact List.nodup_cons.mpr ⟨fun hk' => hnew k' hk' (by simp), hnodup⟩
      · exact List.forall_mem_cons.mpr ⟨hk, fun x hx hs => hnew x hx (by simp [hs])⟩

/-- **In a sorted list the first repetition is the least key that occurs twice.** -/
theorem firstRepeat_sorted {ks : List κ} (hsorted : ks.Pairwise (· ≤ ·)) {k : κ}
    (h : firstRepeat [] ks = some k) : 1 < ks.count k ∧ ∀ k', 1 < ks.count k' → k ≤ k' := by
  obtain ⟨l₁, l₂, rfl, hmem, hnodup, -⟩ := firstRepeat_eq_some h
  rw [List.nil_append] at hmem
  constructor
  · have := List.count_pos_iff.mpr hmem
    rw [List.count_append, List.count_cons_self]
    omega
  · intro k' hk'
    by_contra hlt
    have hnot : k' ∉ k :: l₂ := by
      intro hmem'
      rcases List.mem_cons.mp hmem' with rfl | hl₂
      · exact hlt le_rfl
      · exact hlt ((List.pairwise_cons.mp (List.pairwise_append.mp hsorted).2.1).1 k' hl₂)
    rw [List.count_append, List.count_eq_zero_of_not_mem hnot] at hk'
    have := List.nodup_iff_count_le_one.mp hnodup k'
    omega

end Repeat

end Py
