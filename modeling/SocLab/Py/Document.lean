import SocLab.Py.Model
import SocLab.Logic.Except
import Mathlib.Data.List.Perm.Basic

/-!
# SocLab.Py.Document — data documents, and what the declared types read in them

A data document is a tree of maps with distinct string keys, lists, texts, numbers, Booleans and null: what
YAML and JSON give.  On documents the declared types are read exactly: `strictStr` accepts a text and nothing
else, an enumeration the texts of its members, a list a list.
-/

namespace Py

open Validation

namespace Value

mutual

/-- A data document. -/
def IsDocument : Value → Prop
  | .none | .bool _ | .int _ | .float _ | .str _ => True
  | .list items => AllDocuments items
  | .dict items => (items.map (·.1)).Nodup ∧ AllItemDocuments items
  | .enum _ _ | .datetime _ | .ip _ | .model _ _ _ | .object _ => False

/-- Every element is. -/
def AllDocuments : List Value → Prop
  | [] => True
  | v :: vs => IsDocument v ∧ AllDocuments vs

/-- Every entry is. -/
def AllItemDocuments : List (String × Value) → Prop
  | [] => True
  | (_, v) :: d => IsDocument v ∧ AllItemDocuments d

end

@[simp] theorem isDocument_str (s : String) : IsDocument (.str s) := trivial

@[simp] theorem isDocument_int (n : Int) : IsDocument (.int n) := trivial

@[simp] theorem isDocument_list {items : List Value} :
    IsDocument (.list items) ↔ ∀ v ∈ items, IsDocument v := by
  show AllDocuments items ↔ _
  induction items with
  | nil => simp [AllDocuments]
  | cons v vs ih => simp [AllDocuments, ih]

@[simp] theorem isDocument_dict {d : List (String × Value)} :
    IsDocument (.dict d) ↔ (d.map (·.1)).Nodup ∧ ∀ p ∈ d, IsDocument p.2 := by
  have hitems : AllItemDocuments d ↔ ∀ p ∈ d, IsDocument p.2 := by
    induction d with
    | nil => simp [AllItemDocuments]
    | cons p d ih =>
      obtain ⟨k, v⟩ := p
      simp [AllItemDocuments, ih]
  show (d.map (·.1)).Nodup ∧ AllItemDocuments d ↔ _
  rw [hitems]

theorem isDocument_singleton {k : String} {v : Value} : IsDocument (.dict [(k, v)]) ↔ IsDocument v := by
  simp

/-! ### Maps with distinct keys -/

section Dict

variable {d e : List (String × Value)}

theorem isDocument_of_lookup (hd : IsDocument (.dict d)) {name : String} {v : Value}
    (h : d.lookup name = some v) : IsDocument v := (isDocument_dict.mp hd).2 _ (mem_of_lookup h)

/-- A map is known up to the order of its items by what it has under its keys. -/
theorem perm_of_lookup (hd : (d.map (·.1)).Nodup) (he : (e.map (·.1)).Nodup)
    (hlookup : ∀ p ∈ e, d.lookup p.1 = some p.2) (hkeys : ∀ k ∈ d.map (·.1), k ∈ e.map (·.1)) :
    d.Perm e := by
  rw [List.perm_ext_iff_of_nodup hd.of_map he.of_map]
  intro p
  constructor
  · intro hp
    obtain ⟨q, hq, hname⟩ := List.mem_map.mp (hkeys p.1 (List.mem_map_of_mem hp))
    have hsame : some q.2 = some p.2 := by rw [← hlookup q hq, hname, lookup_of_mem hd hp]
    rwa [← Prod.ext hname (Option.some.inj hsame)]
  · exact fun hp => mem_of_lookup (hlookup p hp)

theorem lookup_of_perm (hd : (d.map (·.1)).Nodup) (h : d.Perm e) {p : String × Value} (hp : p ∈ e) :
    d.lookup p.1 = some p.2 := lookup_of_mem hd (h.mem_iff.mpr hp)

theorem lookup_eq_none_of_perm (h : d.Perm e) {name : String} (hname : name ∉ e.map (·.1)) :
    d.lookup name = Option.none := by
  rw [List.lookup_eq_none_iff]
  intro p hp
  rw [bne_iff_ne]
  rintro rfl
  exact hname (List.mem_map_of_mem (h.mem_iff.mp hp))

theorem eqItems_of_lookup (h : ∀ p ∈ d, ∃ v, e.lookup p.1 = some v ∧ p.2.eq v = true) :
    eqItems d e = true := by
  induction d with
  | nil => rfl
  | cons p d ih =>
    obtain ⟨k, a⟩ := p
    obtain ⟨v, hv, heq⟩ := h (k, a) (by simp)
    rw [eqItems, hv, ih fun q hq => h q (by simp [hq]), Bool.and_true]
    exact heq

theorem eqList_of_forall₂ {as bs : List Value} (h : List.Forall₂ (fun a b => a.eq b = true) as bs) :
    eqList as bs = true := by
  induction h with
  | nil => rfl
  | cons hab _ ih => rw [eqList, hab, ih]; rfl

/-- Two maps are equal when they are, up to the order of their items, lists with equal values. -/
theorem eq_dict_of_perm {e' : List (String × Value)} (hd : (d.map (·.1)).Nodup) (h : d.Perm e)
    (heq : List.Forall₂ (fun p q : String × Value => p.1 = q.1 ∧ p.2.eq q.2 = true) e' e) :
    Value.eq (.dict e') (.dict d) = true := by
  rw [eq, Bool.and_eq_true, beq_iff_eq]
  refine ⟨by rw [heq.length_eq, h.length_eq], eqItems_of_lookup fun p hp => ?_⟩
  obtain ⟨q, hq, hname, hvalue⟩ := Logic.exists_of_forall₂ heq p hp
  exact ⟨q.2, by rw [hname]; exact lookup_of_perm hd h hq, hvalue⟩

end Dict

end Value

/-! ### Reading documents -/

section Read

variable {α : Type} {x : Value}

theorem strictStr_eq_ok (hx : x.IsDocument) {s : String} : strictStr x = ok s ↔ x = .str s := by
  cases x with
  | str t => simp [strictStr]
  | enum cls t => exact hx.elim
  | object o => exact hx.elim
  | _ => simp [strictStr, error]

theorem strictInt_eq_ok (hx : x.IsDocument) {n : Int} : strictInt x = ok n ↔ x = .int n := by
  cases x with
  | object o => exact hx.elim
  | _ => simp [strictInt, error]

theorem enumOf_eq_ok {ε : Type} [StrEnum ε] (hx : x.IsDocument) {e : ε} :
    enumOf ε false x = ok e ↔ x = .str (StrEnum.value e) := by
  cases x with
  | str s =>
    have hmember : StrEnum.ofMember? (ε := ε) (.str s) = none := rfl
    unfold enumOf
    rw [hmember, Value.str.injEq]
    simp only [memberText, Option.bind_some, Bool.false_eq_true, if_false]
    cases h : StrEnum.ofValue? (ε := ε) s with
    | none =>
      refine iff_of_false (by simp [error]) ?_
      rintro rfl
      rw [StrEnum.ofValue?_value] at h
      cases h
    | some e' =>
      rw [← StrEnum.value_of_ofValue? h, ok.injEq]
      exact ⟨fun he => he ▸ rfl, StrEnum.value_injective _ _⟩
  | enum cls t => exact hx.elim
  | object o => exact hx.elim
  | _ => simp [enumOf, StrEnum.ofMember?, memberText, error]

theorem traverseFrom_eq_ok {v : Value → Validation α} {i : Nat} {items : List Value} {as : List α} :
    traverseFrom v i items = ok as ↔ List.Forall₂ (fun x a => v x = ok a) items as := by
  induction items generalizing i as with
  | nil =>
    cases as with
    | nil => exact iff_of_true rfl .nil
    | cons a as => exact iff_of_false (by simp [traverseFrom]) (by simp)
  | cons x items ih =>
    rw [traverseFrom, seq_eq_ok]
    simp only [map_eq_ok, within_eq_ok]
    constructor
    · rintro ⟨_, as', ⟨a, ha, rfl⟩, has, rfl⟩
      exact .cons ha (ih.mp has)
    · intro h
      cases h with
      | cons ha has => exact ⟨_, _, ⟨_, ha, rfl⟩, ih.mpr has, rfl⟩

theorem listOf_eq_ok {v : Validator α} {as : List α} :
    listOf v x = ok as ↔ ∃ items, x = .list items ∧ List.Forall₂ (fun x a => v x = ok a) items as := by
  cases x with
  | list items => simp [listOf, traverseFrom_eq_ok]
  | _ => simp [listOf, error]

theorem nullable_eq_none {v : Validator α} : nullable v x = ok none ↔ x = .none := by
  cases x <;> simp [nullable]

theorem nullable_eq_some {v : Validator α} {a : α} (hx : x ≠ .none) :
    nullable v x = ok (some a) ↔ v x = ok a := by
  cases x with
  | none => exact absurd rfl hx
  | _ => simp [nullable]

theorem optionalField_eq_ok {name : String} {v : Validator α} {d : Dict} {f : ModelField α} :
    optionalField name v d = ok f ↔
      d.lookup name = none ∧ f = .unset ∨ ∃ x a, d.lookup name = some x ∧ v x = ok a ∧ f = .set a := by
  unfold optionalField
  split
  · next x hx =>
    simp only [hx, map_eq_ok, within_eq_ok, reduceCtorEq, false_and, false_or, Option.some.injEq]
    constructor
    · rintro ⟨a, ha, rfl⟩
      exact ⟨x, a, rfl, ha, rfl⟩
    · rintro ⟨_, a, rfl, ha, rfl⟩
      exact ⟨a, ha, rfl⟩
  · next hx => simp [hx, eq_comm]

end Read

end Py
