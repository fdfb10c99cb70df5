import Mathlib.Computability.Language

/-!
# SocLab.Py.Regex — regular expressions over a class-based alphabet, with `fullmatch`

`fullmatch r l` decides by Brzozowski derivatives whether the whole list `l` matches `r`; `lang r` is
the language of `r`, and `fullmatch_iff` says that the two agree.  Letters are matched by classes (a
decidable predicate), so `[a-z0-9]` and `\d` are one node each.
-/

open scoped Computability

namespace Py

/-- Regular expressions over classes of characters. -/
inductive Regex (α : Type) where
  | empty
  | eps
  | cls (p : α → Bool)
  | cat (r s : Regex α)
  | alt (r s : Regex α)
  | star (r : Regex α)

namespace Regex

variable {α : Type}

/-- `r+`. -/
def plus (r : Regex α) : Regex α := cat r (star r)

/-- A literal text. -/
def lit [DecidableEq α] : List α → Regex α
  | [] => eps
  | a :: l => cat (cls (fun b => decide (b = a))) (lit l)

/-- The empty text matches. -/
def nullable : Regex α → Bool
  | empty => false
  | eps => true
  | cls _ => false
  | cat r s => r.nullable && s.nullable
  | alt r s => r.nullable || s.nullable
  | star _ => true

/-- The derivative of `r` by the letter `a`: what may follow `a`. -/
def deriv (a : α) : Regex α → Regex α
  | empty => empty
  | eps => empty
  | cls p => if p a then eps else empty
  | cat r s => if r.nullable then alt (cat (deriv a r) s) (deriv a s) else cat (deriv a r) s
  | alt r s => alt (deriv a r) (deriv a s)
  | star r => cat (deriv a r) (star r)

/-- The whole of `l` matches `r`. -/
def fullmatch (r : Regex α) : List α → Bool
  | [] => r.nullable
  | a :: l => (r.deriv a).fullmatch l

/-- The texts that match. -/
def lang : Regex α → Language α
  | empty => 0
  | eps => 1
  | cls p => {l | ∃ a, p a = true ∧ l = [a]}
  | cat r s => r.lang * s.lang
  | alt r s => r.lang + s.lang
  | star r => r.lang∗

/-! ### `fullmatch` decides the language -/

theorem mem_empty {l : List α} : l ∉ (empty : Regex α).lang := Language.notMem_zero l

theorem mem_eps {l : List α} : l ∈ (eps : Regex α).lang ↔ l = [] := Language.mem_one l

theorem mem_cls {p : α → Bool} {l : List α} : l ∈ (cls p).lang ↔ ∃ a, p a = true ∧ l = [a] := Iff.rfl

theorem mem_cat {r s : Regex α} {l : List α} :
    l ∈ (cat r s).lang ↔ ∃ u ∈ r.lang, ∃ v ∈ s.lang, u ++ v = l := Language.mem_mul

theorem mem_alt {r s : Regex α} {l : List α} : l ∈ (alt r s).lang ↔ l ∈ r.lang ∨ l ∈ s.lang :=
  Language.mem_add _ _ l

theorem nullable_iff (r : Regex α) : r.nullable = true ↔ [] ∈ r.lang := by
  induction r with
  | empty => simp [nullable, mem_empty]
  | eps => simp [nullable, mem_eps]
  | cls p => simp [nullable, mem_cls]
  | cat r s ihr ihs => simp [nullable, mem_cat, ihr, ihs]
  | alt r s ihr ihs => simp [nullable, mem_alt, ihr, ihs]
  | star r _ => exact iff_of_true rfl (Language.nil_mem_kstar _)

/-- A word `a :: l` of a product: the letter `a` comes from the first factor, or the first is empty. -/
theorem cons_mem_mul {L M : Language α} {a : α} {l : List α} :
    a :: l ∈ L * M ↔ (∃ u v, l = u ++ v ∧ a :: u ∈ L ∧ v ∈ M) ∨ ([] ∈ L ∧ a :: l ∈ M) := by
  rw [Language.mem_mul]
  constructor
  · rintro ⟨w, hw, v, hv, h⟩
    cases w with
    | nil => exact Or.inr ⟨hw, by rw [List.nil_append] at h; exact h ▸ hv⟩
    | cons b u =>
      rw [List.cons_append, List.cons.injEq] at h
      obtain ⟨rfl, rfl⟩ := h
      exact Or.inl ⟨u, v, rfl, hw, hv⟩
  · rintro (⟨u, v, rfl, hu, hv⟩ | ⟨h0, h⟩)
    · exact ⟨a :: u, hu, v, hv, rfl⟩
    · exact ⟨[], h0, a :: l, h, rfl⟩

/-- A word `a :: l` of a star starts with a word of the base that starts with `a`. -/
theorem cons_mem_kstar {L : Language α} {a : α} {l : List α} :
    a :: l ∈ L∗ ↔ ∃ u v, l = u ++ v ∧ a :: u ∈ L ∧ v ∈ L∗ := by
  constructor
  · intro h
    rw [Language.mem_kstar_iff_exists_nonempty] at h
    obtain ⟨S, hS, hne⟩ := h
    cases S with
    | nil => simp at hS
    | cons w S =>
      obtain ⟨hw, hw0⟩ := hne w (by simp)
      cases w with
      | nil => exact absurd rfl hw0
      | cons b u =>
        rw [List.flatten_cons, List.cons_append, List.cons.injEq] at hS
        obtain ⟨rfl, rfl⟩ := hS
        exact ⟨u, S.flatten, rfl, hw, Language.join_mem_kstar fun y hy => (hne y (by simp [hy])).1⟩
  · rintro ⟨u, v, rfl, hu, hv⟩
    obtain ⟨S, rfl, hS⟩ := Language.mem_kstar.mp hv
    have hcons : ∀ y ∈ (a :: u) :: S, y ∈ L := by
      intro y hy
      rcases List.mem_cons.mp hy with rfl | hy
      · exact hu
      · exact hS y hy
    exact Language.join_mem_kstar hcons

theorem mem_deriv (a : α) (r : Regex α) (l : List α) : l ∈ (r.deriv a).lang ↔ a :: l ∈ r.lang := by
  induction r generalizing l with
  | empty => simp [deriv, mem_empty]
  | eps => simp [deriv, mem_empty, mem_eps]
  | cls p =>
    by_cases hp : p a = true
    · simp [deriv, hp, mem_cls, mem_eps]
    · simp [deriv, hp, mem_cls, mem_empty]
  | cat r s ihr ihs =>
    have hcat : l ∈ (cat (r.deriv a) s).lang ↔ ∃ u v, l = u ++ v ∧ a :: u ∈ r.lang ∧ v ∈ s.lang := by
      simp only [mem_cat, ihr]
      constructor
      · rintro ⟨u, hu, v, hv, rfl⟩; exact ⟨u, v, rfl, hu, hv⟩
      · rintro ⟨u, v, rfl, hu, hv⟩; exact ⟨u, hu, v, hv, rfl⟩
    have hmul : a :: l ∈ (cat r s).lang ↔ _ := cons_mem_mul (L := r.lang) (M := s.lang)
    rw [hmul, ← nullable_iff]
    by_cases hn : r.nullable = true
    · rw [deriv, if_pos hn, mem_alt, hcat, ihs]
      simp [hn]
    · rw [deriv, if_neg hn, hcat]
      simp [hn]
  | alt r s ihr ihs => simp [deriv, mem_alt, ihr, ihs]
  | star r ih =>
    show l ∈ (cat (r.deriv a) (star r)).lang ↔ a :: l ∈ r.lang∗
    -- the first factor that is not empty takes the character
    rw [cons_mem_kstar, mem_cat]
    constructor
    · rintro ⟨u, hu, v, hv, rfl⟩; exact ⟨u, v, rfl, (ih u).mp hu, hv⟩
    · rintro ⟨u, v, rfl, hu, hv⟩; exact ⟨u, (ih u).mpr hu, v, hv, rfl⟩

/-- **Correctness of the matcher.** -/
theorem fullmatch_iff (r : Regex α) (l : List α) : r.fullmatch l = true ↔ l ∈ r.lang := by
  induction l generalizing r with
  | nil => exact nullable_iff r
  | cons a l ih => rw [fullmatch, ih, mem_deriv]

/-! ### Building words of a language -/

theorem lit_mem_lang [DecidableEq α] (l : List α) : l ∈ (lit l).lang := by
  induction l with
  | nil => exact Language.nil_mem_one
  | cons a l ih =>
    exact Language.append_mem_mul (a := [a]) (mem_cls.mpr ⟨a, by simp, rfl⟩) ih

theorem append_mem_star {r : Regex α} {u v : List α} (hu : u ∈ (star r).lang) (hv : v ∈ r.lang) :
    u ++ v ∈ (star r).lang := by
  obtain ⟨S, rfl, hS⟩ := Language.mem_kstar.mp hu
  refine Language.mem_kstar.mpr ⟨S ++ [v], by simp, fun y hy => ?_⟩
  rcases List.mem_append.mp hy with hy | hy
  · exact hS y hy
  · rw [List.mem_singleton.mp hy]; exact hv

/-- The words of a class repeated are the lists of its letters. -/
theorem mem_star_cls {p : α → Bool} {l : List α} : l ∈ (star (cls p)).lang ↔ ∀ a ∈ l, p a = true := by
  constructor
  · intro h
    obtain ⟨S, rfl, hS⟩ := Language.mem_kstar.mp h
    intro a ha
    obtain ⟨w, hw, haw⟩ := List.mem_flatten.mp ha
    obtain ⟨b, hb, rfl⟩ := mem_cls.mp (hS w hw)
    rwa [List.mem_singleton.mp haw]
  · induction l using List.reverseRecOn with
    | nil => exact fun _ => Language.nil_mem_kstar _
    | append_singleton l b ih =>
      intro h
      exact append_mem_star (ih fun c hc => h c (by simp [hc])) (mem_cls.mpr ⟨b, h b (by simp), rfl⟩)

/-- A non-empty list of letters of one class matches the class repeated. -/
theorem mem_plus_cls {p : α → Bool} {l : List α} (hne : l ≠ []) (hl : ∀ a ∈ l, p a = true) :
    l ∈ (plus (cls p)).lang := by
  obtain ⟨a, l, rfl⟩ := List.exists_cons_of_ne_nil hne
  exact Language.append_mem_mul (a := [a]) (mem_cls.mpr ⟨a, hl a (by simp), rfl⟩)
    (mem_star_cls.mpr fun b hb => hl b (by simp [hb]))

end Regex

end Py
