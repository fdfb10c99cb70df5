import SocLab.Logic.Except
import SocLab.Models.NormalizedEvent

/-!
# SocLab.Models.ContextUnion — the untagged union of the contexts is unambiguous

`EventContext` is a union of five classes without a discriminator, and an event is read back from dicts.
Each class requires a field that the classes after it do not have, and none allows further keys, so that no
value is read by two of them.  An instance is taken by its class whatever was assigned to its fields.
-/

namespace SocLab

open Py Py.Validation

namespace EventContext

/-- The member types of the union. -/
def members (strict : Bool) : List (Validator EventContext) :=
  [AuthenticationContext.modelClass.member authentication strict,
    ProcessContext.modelClass.member process strict,
    NetworkContext.modelClass.member network strict,
    FileContext.modelClass.member file strict,
    DnsContext.modelClass.member dns strict]

/-- Which classes take the value, in the same order. -/
def takers (strict : Bool) (x : Value) : List Prop :=
  [AuthenticationContext.modelClass.Takes strict x,
    ProcessContext.modelClass.Takes strict x,
    NetworkContext.modelClass.Takes strict x,
    FileContext.modelClass.Takes strict x,
    DnsContext.modelClass.Takes strict x]

/-- A class takes what it accepts as a member of the union. -/
theorem takes_of_members (strict : Bool) (x : Value) :
    List.Forall₂ (fun v p => ∀ c, v x = ok c → p) (members strict) (takers strict x) :=
  .cons (fun _ => ModelClass.takes_of_member _) (.cons (fun _ => ModelClass.takes_of_member _)
    (.cons (fun _ => ModelClass.takes_of_member _) (.cons (fun _ => ModelClass.takes_of_member _)
      (.cons (fun _ => ModelClass.takes_of_member _) .nil))))

/-- **No value is taken by two of the context classes.** -/
theorem exclusive_takers (strict : Bool) (x : Value) : (takers strict x).Pairwise fun p q => p → ¬ q := by
  unfold takers
  -- each class against those after it, by a field that it requires and they do not have
  refine .cons ?_ (.cons ?_ (.cons ?_ (.cons ?_ (.cons (by simp) .nil))))
  · intro q hq h
    simp only [List.mem_cons, List.not_mem_nil, or_false] at hq
    rcases hq with rfl | rfl | rfl | rfl
    all_goals
      exact ModelClass.takes_exclusive _ _ (by decide) (fun _ => AuthenticationContext.lookup_of_fields)
        (by decide) h
  · intro q hq h
    simp only [List.mem_cons, List.not_mem_nil, or_false] at hq
    rcases hq with rfl | rfl | rfl
    all_goals
      exact ModelClass.takes_exclusive _ _ (by decide) (fun _ => ProcessContext.lookup_of_fields) (by decide) h
  · intro q hq h
    simp only [List.mem_cons, List.not_mem_nil, or_false] at hq
    rcases hq with rfl | rfl
    all_goals
      exact ModelClass.takes_exclusive _ _ (by decide) (fun _ => NetworkContext.lookup_of_fields) (by decide) h
  · intro q hq h
    obtain rfl := List.mem_singleton.mp hq
    exact ModelClass.takes_exclusive _ _ (by decide) (fun _ => FileContext.lookup_of_fields) (by decide) h

theorem exclusive_members (strict : Bool) (x : Value) : Exclusive (members strict) x :=
  Logic.pairwise_of_forall₂ (takes_of_members strict x) (exclusive_takers strict x)
    fun htakes htakes' hnot a b ha hb => hnot (htakes a ha) (htakes' b hb)

/-- **The untagged union is unambiguous**: whatever value is read, at most one class takes it, the result is
what that class makes of it, and it is the same in every order of the classes. -/
theorem contextUnion_unambiguous (strict : Bool) (x : Value) :
    ((takers strict x).Pairwise (fun p q => p → ¬ q) ∧
      List.Forall₂ (fun v p => ∀ c, v x = ok c → p) (members strict) (takers strict x)) ∧
    (∀ c, modelValidate strict x = ok c ↔ ∃ v ∈ members strict, v x = ok c) ∧
      (∀ v ∈ members strict, ∀ w ∈ members strict, ∀ c c', v x = ok c → w x = ok c' → c = c') ∧
      ∀ vs, vs.Perm (members strict) → ∀ c, union vs x = ok c ↔ modelValidate strict x = ok c := by
  have hclean : ∀ v ∈ members strict, Clean (v x) := clean_classes strict x
  have hexclusive := exclusive_members strict x
  refine ⟨⟨exclusive_takers strict x, takes_of_members strict x⟩, fun c => union_eq_ok hclean hexclusive,
    fun v hv w hw c c' hc hc' => ?_, fun vs hperm c => ?_⟩
  · have hunion := (union_eq_ok hclean hexclusive).mpr ⟨v, hv, hc⟩
    rw [(union_eq_ok hclean hexclusive).mpr ⟨w, hw, hc'⟩] at hunion
    exact (ok.inj hunion).symm
  · exact union_perm hclean hexclusive hperm.symm

end EventContext

end SocLab
