import Mathlib.Data.Nat.Bitwise
import Mathlib.Data.Set.Lattice

/-!
# SocLab.Logic.Block — aligned blocks of numbers

The block of size `2 ^ k` with the start `n` holds the numbers that agree with `n` above their last `k` bits.
Blocks are intervals, and two of them lie within one another or apart.  Masking with leading ones is how
programs ask for membership (`and_leading_eq`).
-/

namespace Logic

/-- The numbers that agree with `n` above the last `k` bits. -/
def block (n k : Nat) : Set Nat := {x | x / 2 ^ k = n / 2 ^ k}

variable {n m k j x w : Nat}

/-- A block whose start is aligned is an interval. -/
theorem mem_block_iff (h : 2 ^ k ∣ n) : x ∈ block n k ↔ n ≤ x ∧ x < n + 2 ^ k := by
  have hpos : 0 < 2 ^ k := Nat.two_pow_pos k
  obtain ⟨q, rfl⟩ := h
  show x / 2 ^ k = 2 ^ k * q / 2 ^ k ↔ _
  rw [Nat.mul_div_cancel_left q hpos, Nat.div_eq_iff hpos, mul_comm]
  omega

/-- A larger block around a number of a block holds all of it. -/
theorem block_subset (hkj : k ≤ j) (hx : x ∈ block n k) (hx' : x ∈ block m j) : block n k ⊆ block m j := by
  intro y hy
  have hcoarse (a : Nat) : a / 2 ^ j = a / 2 ^ k / 2 ^ (j - k) := by
    rw [Nat.div_div_eq_div_mul, ← pow_add, Nat.add_sub_cancel' hkj]
  have hxy : y / 2 ^ k = x / 2 ^ k := (show y / 2 ^ k = n / 2 ^ k from hy).trans (Eq.symm hx)
  calc y / 2 ^ j = x / 2 ^ j := by rw [hcoarse, hcoarse x, hxy]
    _ = m / 2 ^ j := hx'

/-- **Two blocks lie within one another or apart.** -/
theorem block_nested_or_disjoint (n m k j : Nat) :
    block n k ⊆ block m j ∨ block m j ⊆ block n k ∨ ∀ x ∈ block n k, x ∉ block m j := by
  by_cases h : ∃ x, x ∈ block n k ∧ x ∈ block m j
  · obtain ⟨x, hx, hx'⟩ := h
    rcases le_total k j with hkj | hjk
    · exact Or.inl (block_subset hkj hx hx')
    · exact Or.inr (Or.inl (block_subset hjk hx' hx))
  · exact Or.inr (Or.inr fun x hx hx' => h ⟨x, hx, hx'⟩)

/-- Masking with the ones above the last `k` of `w` bits clears these. -/
theorem and_leading (hx : x < 2 ^ w) (hk : k ≤ w) : x &&& (2 ^ w - 2 ^ k) = x / 2 ^ k * 2 ^ k := by
  have hmask : 2 ^ w - 2 ^ k = (2 ^ (w - k) - 1) <<< k := by
    rw [Nat.shiftLeft_eq, Nat.sub_mul, one_mul, ← pow_add, Nat.sub_add_cancel hk]
  rw [hmask, ← Nat.shiftRight_eq_div_pow, ← Nat.shiftLeft_eq]
  refine Nat.eq_of_testBit_eq fun i => ?_
  rw [Nat.testBit_and, Nat.testBit_shiftLeft, Nat.testBit_shiftLeft, Nat.testBit_two_pow_sub_one,
    Nat.testBit_shiftRight]
  by_cases hki : k ≤ i
  · by_cases hiw : i < w
    · simp [hki, show i - k < w - k by omega]
    · have hzero : x.testBit i = false :=
        Nat.testBit_lt_two_pow (hx.trans_le (Nat.pow_le_pow_right (by decide) (not_lt.mp hiw)))
      simp [hki, hzero]
  · simp [hki]

/-- **Membership in a block is a comparison under a mask.** -/
theorem and_leading_eq (hx : x < 2 ^ w) (hk : k ≤ w) (hn : 2 ^ k ∣ n) :
    x &&& (2 ^ w - 2 ^ k) = n ↔ x ∈ block n k := by
  have hpos : 0 < 2 ^ k := Nat.two_pow_pos k
  obtain ⟨q, rfl⟩ := hn
  rw [and_leading hx hk]
  show _ ↔ x / 2 ^ k = 2 ^ k * q / 2 ^ k
  rw [Nat.mul_div_cancel_left q hpos, mul_comm, Nat.mul_right_inj hpos.ne']

end Logic
