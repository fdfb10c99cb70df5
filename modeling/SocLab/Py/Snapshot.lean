import SocLab.Py.Document

/-!
# SocLab.Py.Snapshot — values that a validation takes as they are

A value is dumped, validated in strict mode, and the instance that comes out compared with the value.

* `Value.IsSnapshot x y`: at every depth `x` has what `y` has, where a text may stand for the member of a string
  enumeration, a text, a number or an address for an object that equals it, and a field that was not given need
  only be equal.
* `Codec.Exact`: whatever value passes both the validation of its dump and the comparison, the instance is a
  snapshot of it.  The declared types are exact, and the lemmas `slotRead_given`, `slotRead_field` and
  `isSnapshot_modelOf` lift this from the fields of a class to its instances.
-/

namespace Py

open Validation

namespace Value

mutual

/-- `x` repairs nothing in `y`. -/
def IsSnapshot : Value → Value → Prop
  | .str s, y => y = .str s ∨ (∃ cls, y = .enum cls s) ∨ ∃ o, y = .object o ∧ o.equals (.str s) = true
  | .int n, y => y = .int n ∨ ∃ o, y = .object o ∧ o.equals (.int n) = true
  | .ip a, y => y = .ip a ∨ ∃ o, y = .object o ∧ o.equals (.ip a) = true
  | .list xs, y => ∃ ys, y = .list ys ∧ IsSnapshotList xs ys
  | .dict xs, y => ∃ ys, y = .dict ys ∧ IsSnapshotItems xs ys
  | .model cls fields given, y => ∃ fields' given', y = .model cls fields' given' ∧
    fields'.length = fields.length ∧ IsSnapshotFields fields given fields' given'
  | x, y => y = x
  termination_by structural x => x

/-- The elements, one by one. -/
def IsSnapshotList : List Value → List Value → Prop
  | [], ys => ys = []
  | x :: xs, ys => ∃ z zs, ys = z :: zs ∧ IsSnapshot x z ∧ IsSnapshotList xs zs

/-- The entries, one by one. -/
def IsSnapshotItems : List (String × Value) → List (String × Value) → Prop
  | [], ys => ys = []
  | (k, x) :: xs, ys => ∃ z zs, ys = (k, z) :: zs ∧ IsSnapshot x z ∧ IsSnapshotItems xs zs

/-- The fields, one by one; one that was not given is only compared. -/
def IsSnapshotFields : List (String × Value) → List String → List (String × Value) → List String → Prop
  | [], _, _, _ => True
  | (k, x) :: xs, given, fields', given' =>
    (∃ y, fields'.lookup k = some y ∧ x.eq y = true ∧ (k ∈ given' ↔ k ∈ given) ∧ (k ∈ given → IsSnapshot x y)) ∧
      IsSnapshotFields xs given fields' given'

end

theorem isSnapshotList_iff {xs ys : List Value} : IsSnapshotList xs ys ↔ List.Forall₂ IsSnapshot xs ys := by
  induction xs generalizing ys with
  | nil => rw [IsSnapshotList, List.forall₂_nil_left_iff]
  | cons x xs ih => simp only [IsSnapshotList, List.forall₂_cons_left_iff, ih, and_comm, and_assoc, and_left_comm]

theorem isSnapshotItems_iff {xs ys : List (String × Value)} :
    IsSnapshotItems xs ys ↔ List.Forall₂ (fun p q => q.1 = p.1 ∧ IsSnapshot p.2 q.2) xs ys := by
  induction xs generalizing ys with
  | nil => rw [IsSnapshotItems, List.forall₂_nil_left_iff]
  | cons p xs ih =>
    obtain ⟨k, x⟩ := p
    rw [IsSnapshotItems, List.forall₂_cons_left_iff]
    constructor
    · rintro ⟨z, zs, rfl, hz, hzs⟩
      exact ⟨(k, z), zs, ⟨rfl, hz⟩, ih.mp hzs, rfl⟩
    · rintro ⟨⟨k', z⟩, zs, ⟨rfl, hz⟩, hzs, rfl⟩
      exact ⟨z, zs, rfl, hz, ih.mpr hzs⟩

theorem isSnapshotFields_iff {xs fields' : List (String × Value)} {given given' : List String} :
    IsSnapshotFields xs given fields' given' ↔
      ∀ p ∈ xs, ∃ y, fields'.lookup p.1 = some y ∧ p.2.eq y = true ∧ (p.1 ∈ given' ↔ p.1 ∈ given) ∧
        (p.1 ∈ given → IsSnapshot p.2 y) := by
  induction xs with
  | nil => simp [IsSnapshotFields]
  | cons p xs ih =>
    obtain ⟨k, x⟩ := p
    rw [IsSnapshotFields, ih, List.forall_mem_cons]

/-! ### What is dumped -/

theorem scalar_of_type {v : Value} (h : v.type = .str ∨ v.type = .int) : v.Scalar := by
  rcases h with h | h
  · obtain ⟨s, rfl⟩ := type_eq_str.mp h
    trivial
  · obtain ⟨n, rfl⟩ := type_eq_int.mp h
    trivial

theorem eq_of_dump {x y : Value} (hx : x.Scalar) (h : y.dump = x) : y = x := by
  cases y with
  | list items =>
    rw [dump_list] at h
    exact absurd hx (h ▸ id)
  | dict items =>
    rw [dump_dict] at h
    exact absurd hx (h ▸ id)
  | model cls fields given =>
    rw [dump] at h
    exact absurd hx (h ▸ id)
  | _ => exact h

/-- A scalar is a snapshot of what it was dumped from. -/
theorem isSnapshot_of_dump {x y : Value} (hx : x.Scalar) (h : y.dump = x) : x.IsSnapshot y := by
  rw [eq_of_dump hx h]
  cases x with
  | str s => exact Or.inl rfl
  | int n => exact Or.inl rfl
  | ip a => exact Or.inl rfl
  | list items => exact hx.elim
  | dict items => exact hx.elim
  | model cls fields given => exact hx.elim
  | _ => rfl

theorem eq_list_of_dump {y : Value} {items : List Value} (h : y.dump = .list items) :
    ∃ ys, y = .list ys ∧ items = ys.map dump := by
  cases y with
  | list ys => exact ⟨ys, rfl, by simpa [eq_comm] using h⟩
  | dict ys => simp at h
  | model cls fields given => simp [dump] at h
  | _ => cases h

theorem lookup_map_dump (d : List (String × Value)) (k : String) :
    (d.map fun p => (p.1, p.2.dump)).lookup k = (d.lookup k).map dump := by
  induction d with
  | nil => rfl
  | cons p d ih =>
    obtain ⟨k', x⟩ := p
    rw [List.map_cons, List.lookup_cons, List.lookup_cons, ih]
    cases k == k' <;> rfl

theorem lookup_filter_mem {d : List (String × Value)} {names : List String} {k : String} (h : k ∈ names) :
    (d.filter (·.1 ∈ names)).lookup k = d.lookup k := by
  induction d with
  | nil => rfl
  | cons p d ih =>
    obtain ⟨k', x⟩ := p
    by_cases hk : k = k'
    · subst hk
      rw [List.filter_cons_of_pos (by simpa using h), List.lookup_cons_self, List.lookup_cons_self]
    · have hne : (k == k') = false := by simpa using hk
      rw [List.lookup_cons, hne, ← ih, List.filter_cons]
      split_ifs
      · rw [List.lookup_cons, hne]
      · rfl

theorem lookup_filter_notMem {d : List (String × Value)} {names : List String} {k : String} (h : k ∉ names) :
    (d.filter (·.1 ∈ names)).lookup k = Option.none := by
  rw [List.lookup_eq_none_iff]
  intro p hp
  rw [bne_iff_ne]
  rintro rfl
  exact h (by simpa using (List.mem_filter.mp hp).2)

/-- The dump of an instance has the fields that were given. -/
theorem dump_model_eq (cls : String) (fields : List (String × Value)) (given : List String) :
    ∃ d, (Value.model cls fields given).dump = .dict d ∧
      (∀ k ∈ given, d.lookup k = (fields.lookup k).map dump) ∧ ∀ k ∉ given, d.lookup k = Option.none := by
  refine ⟨_, by rw [dump], fun k hk => ?_, fun k hk => lookup_filter_notMem hk⟩
  rw [lookup_filter_mem hk, dumpItems_eq_map, lookup_map_dump]

theorem lookup_of_eqItems {xs ys : List (String × Value)} (h : eqItems xs ys = true) :
    ∀ p ∈ xs, ∃ y, ys.lookup p.1 = some y ∧ p.2.eq y = true := by
  induction xs with
  | nil => simp
  | cons p xs ih =>
    obtain ⟨k, x⟩ := p
    rw [eqItems, Bool.and_eq_true] at h
    refine List.forall_mem_cons.mpr ⟨?_, ih h.2⟩
    cases hk : ys.lookup k with
    | none => simp [hk] at h
    | some y => exact ⟨y, rfl, by simpa [hk] using h.1⟩

theorem forall₂_of_eqList {xs ys : List Value} (h : eqList xs ys = true) :
    List.Forall₂ (fun x y => x.eq y = true) xs ys := by
  induction xs generalizing ys with
  | nil =>
    cases ys with
    | nil => exact .nil
    | cons y ys => cases h
  | cons x xs ih =>
    cases ys with
    | nil => cases h
    | cons y ys =>
      rw [eqList, Bool.and_eq_true] at h
      exact .cons h.1 (ih h.2)

end Value

/-! ### Exact types -/

section Scalars

variable {x y : Value}

/-- An object that equals a scalar, and is dumped as it is. -/
theorem eq_object_of_dump {o : Foreign} (h : y.dump = .object o) (heq : x.eq y = true) (hx : ∀ p, x ≠ .object p) :
    y = .object o ∧ o.equals x = true := by
  obtain rfl : y = .object o := Value.eq_of_dump trivial h
  refine ⟨rfl, ?_⟩
  cases x with
  | object p => exact absurd rfl (hx p)
  | _ => simpa [Value.eq] using heq

/-- A text is a snapshot of what it was read from. -/
theorem isSnapshot_of_text {s : String} (h : strictStr x = ok s) : (Value.str s).IsSnapshot x := by
  rcases strictStr_iff.mp h with hstr | henum | ⟨o, hobject, htext⟩
  · exact Or.inl hstr
  · exact Or.inr (Or.inl henum)
  · exact Or.inr (Or.inr ⟨o, hobject, by simp [Foreign.equals, htext]⟩)

theorem isSnapshot_of_strictStr {s : String} (h : strictStr y.dump = ok s) : (Value.str s).IsSnapshot y := by
  have hdump : y.dump = y := by
    rcases strictStr_iff.mp h with hx | ⟨cls, hx⟩ | ⟨o, hx, -⟩
    · have hy : y = .str s := Value.eq_of_dump trivial hx
      rw [hx, hy]
    · have hy : y = .enum cls s := Value.eq_of_dump trivial hx
      rw [hx, hy]
    · have hy : y = .object o := Value.eq_of_dump trivial hx
      rw [hx, hy]
  rw [hdump] at h
  exact isSnapshot_of_text h

theorem strictInt_cases {n : Int} (h : strictInt x = ok n) :
    x = .int n ∨ ∃ o, x = .object o ∧ o.number = some n := by
  unfold strictInt at h
  split at h
  · cases h
    exact Or.inl rfl
  · next o =>
    split at h
    · next m hm =>
      cases h
      exact Or.inr ⟨o, rfl, hm⟩
    · cases h
  · cases h

/-- What a `Literal` takes for a text is that text, a member with it, or an object. -/
theorem literalOf_cases {ε : Type} [StrEnum ε] {e : ε} (h : literalOf ε x = ok e) :
    x = .str (StrEnum.value e) ∨ (∃ cls, x = .enum cls (StrEnum.value e)) ∨ ∃ o, x = .object o := by
  unfold literalOf at h
  split at h
  · next e' he =>
    cases h
    obtain ⟨s, hs, hvalue⟩ := Option.bind_eq_some_iff.mp he
    rw [StrEnum.value_of_ofValue? hvalue]
    unfold literalText at hs
    split at hs
    · cases hs
      exact Or.inl rfl
    · next cls t =>
      cases hs
      exact Or.inr (Or.inl ⟨cls, rfl⟩)
    · next o => exact Or.inr (Or.inr ⟨o, rfl⟩)
    · cases hs
  · cases h

theorem strItems_eq_ok {d : List (String × Value)} {items : List (String × String)} :
    strItems d = ok items ↔ List.Forall₂ (fun p q => p.1 = q.1 ∧ strictStr p.2 = ok q.2) d items := by
  induction d generalizing items with
  | nil =>
    rw [strItems, Validation.ok.injEq, List.forall₂_nil_left_iff, eq_comm]
  | cons p d ih =>
    obtain ⟨k, v⟩ := p
    rw [strItems, seq_eq_ok, List.forall₂_cons_left_iff]
    simp only [map_eq_ok, within_eq_ok, ih]
    constructor
    · rintro ⟨_, rest, ⟨s, hs, rfl⟩, hrest, rfl⟩
      exact ⟨(k, s), rest, ⟨rfl, hs⟩, hrest, rfl⟩
    · rintro ⟨⟨k', s⟩, rest, ⟨rfl, hs⟩, hrest, rfl⟩
      exact ⟨_, rest, ⟨s, hs, rfl⟩, hrest, rfl⟩

end Scalars

/-- A value that validates once it is dumped, and equals the instance, has the instance as its snapshot. -/
def Codec.Exact {α : Type} (ty : Codec α) : Prop :=
  ∀ a y, ty.validate true y.dump = ok a → (ty.enc a).eq y = true → (ty.enc a).IsSnapshot y

namespace Codec

variable {α : Type}

theorem exact_str : Codec.str.Exact := fun _ _ h _ => isSnapshot_of_strictStr h

theorem exact_int : Codec.int.Exact := by
  intro n y h heq
  rcases strictInt_cases h with hint | ⟨o, hobject, -⟩
  · exact Value.isSnapshot_of_dump trivial hint
  · exact Or.inr ⟨o, eq_object_of_dump hobject heq (by simp)⟩

theorem exact_bool : Codec.bool.Exact := by
  intro b y h _
  have hdump : y.dump = .bool b := by
    have hb : strictBool y.dump = ok b := h
    cases hy : y.dump with
    | bool b' =>
      rw [hy] at hb
      cases hb
      rfl
    | _ =>
      rw [hy] at hb
      cases hb
  exact Value.isSnapshot_of_dump trivial hdump

theorem exact_enum (ε : Type) [StrEnum ε] : (Codec.enum ε).Exact := by
  intro e y h _
  exact Value.isSnapshot_of_dump trivial (eq_of_enumOf h)

theorem exact_literal (ε : Type) [StrEnum ε] : (Codec.literal ε).Exact := by
  intro e y h heq
  rcases literalOf_cases h with hstr | ⟨cls, henum⟩ | ⟨o, hobject⟩
  · exact Value.isSnapshot_of_dump trivial hstr
  · exact Or.inr (Or.inl ⟨cls, Value.eq_of_dump trivial henum⟩)
  · exact Or.inr (Or.inr ⟨o, eq_object_of_dump hobject heq (by simp)⟩)

/-- The dump of another type may be read as an address, but only an address or an object equals it. -/
theorem exact_ip : Codec.ip.Exact := by
  intro a y _ heq
  cases y with
  | ip b =>
    have hab : a = b := by simpa [Codec.ip, Value.eq] using heq
    exact Or.inl (congrArg Value.ip hab.symm)
  | object o => exact Or.inr ⟨o, eq_object_of_dump rfl heq (by simp)⟩
  | _ => simp [Codec.ip, Value.eq] at heq

theorem exact_datetime : Codec.datetime.Exact := by
  intro d y h _
  have hdump : y.dump = .datetime d.val := by
    have hd : awareDatetime y.dump = ok d := h
    cases hy : y.dump with
    | datetime d' =>
      rw [hy] at hd
      rw [awareDatetime_eq_ok.mp hd]
    | _ =>
      rw [hy] at hd
      cases hd
  exact Value.isSnapshot_of_dump trivial hdump

theorem exact_strDict : Codec.strDict.Exact := by
  rintro ⟨d, hd⟩ y h heq
  cases y with
  | dict items =>
    have hread : Py.strDict (.dict (items.map fun p => (p.1, p.2.dump))) = ok ⟨d, hd⟩ := by
      rw [← Value.dump_dict]
      exact h
    obtain ⟨texts, htexts, hdict⟩ := after_eq_ok.mp hread
    obtain rfl : texts = d := by
      split_ifs at hdict
      · cases hdict
        rfl
      · cases hdict
    rw [strItems_eq_ok, List.forall₂_map_left_iff] at htexts
    refine ⟨items, rfl, Value.isSnapshotItems_iff.mpr ?_⟩
    rw [List.forall₂_map_left_iff]
    exact htexts.flip.imp fun _ _ hpq => ⟨hpq.1, isSnapshot_of_strictStr hpq.2⟩
  | object o => cases h
  | _ => simp [Codec.strDict, StrDict.toValue, Value.eq] at heq

theorem Exact.constrained {ty : Codec α} (h : ty.Exact) (p : α → Prop) [DecidablePred p] (type : String) :
    (ty.constrained p type).Exact := fun a y hread heq => h a.val y (constrained_eq_ok.mp hread) heq

theorem Exact.nullable {ty : Codec α} (h : ty.Exact) (hnone : ∀ a, (ty.enc a).dump ≠ .none) :
    (ty.nullable hnone).Exact := by
  intro o y hread heq
  have hread' : Py.nullable (ty.validate true) y.dump = ok o := hread
  by_cases hy : y.dump = .none
  · rw [hy] at hread'
    cases hread'
    exact Value.isSnapshot_of_dump trivial hy
  · cases o with
    | none => exact absurd (nullable_eq_none.mp hread') hy
    | some a => exact h a y ((nullable_eq_some hy).mp hread') heq

/-- A validator that gives back the fields it was given. -/
theorem Exact.after {β : Type} {ty : Codec α} (h : ty.Exact) {check : α → Validation β} {proj : β → α}
    {hcheck : ∀ b, check (proj b) = ok b} (hproj : ∀ a b, check a = ok b → proj b = a) :
    (ty.after check proj hcheck).Exact := by
  intro b y hread heq
  obtain ⟨a, ha, hb⟩ := after_eq_ok.mp hread
  obtain rfl := hproj a b hb
  exact h _ y ha heq

end Codec

/-- A value that a union accepts is accepted by one of its members. -/
theorem exists_of_union_eq_ok {α : Type} {vs : List (Validator α)} {x : Value} {a : α}
    (h : union vs x = ok a) : ∃ v ∈ vs, v x = ok a := by
  induction vs with
  | nil => cases h
  | cons v vs ih =>
    rw [union] at h
    cases hv : v x with
    | ok b =>
      rw [hv] at h
      exact ⟨v, by simp, by rw [hv]; exact h⟩
    | invalid es =>
      rw [hv] at h
      cases hvs : union vs x with
      | ok b =>
        rw [hvs] at h
        obtain ⟨w, hw, hb⟩ := ih (hvs.trans h)
        exact ⟨w, by simp [hw], hb⟩
      | invalid es' =>
        rw [hvs] at h
        cases h
      | exception e =>
        rw [hvs] at h
        cases h
    | exception e =>
      rw [hv] at h
      cases h

/-! ### Instances -/

/-- The dict has the field when it was given, with a value of which the slot holds a snapshot. -/
def SlotRead (d : Dict) (s : Slot) : Prop :=
  if s.isSet then
    ∃ x, d.lookup s.name = some x ∧ ∀ y : Value, y.dump = x → s.value.eq y = true → s.value.IsSnapshot y
  else d.lookup s.name = none

section Slots

variable {α : Type} {d : Dict} {name : String} {ty : Codec α}

theorem slotRead_given (hty : ty.Exact) {a : α} (h : requiredField name (ty.validate true) d = ok a) :
    SlotRead d (.given name ty a) := by
  obtain ⟨x, hx, ha⟩ := requiredField_eq_ok.mp h
  exact ⟨x, hx, fun y hy heq => hty a y (by rw [hy]; exact ha) heq⟩

theorem slotRead_field (hty : ty.Exact) {default : α} {f : ModelField α}
    (h : optionalField name (ty.validate true) d = ok f) : SlotRead d (.field name ty default f) := by
  rcases optionalField_eq_ok.mp h with ⟨hnone, rfl⟩ | ⟨x, a, hx, ha, rfl⟩
  · exact hnone
  · exact ⟨x, hx, fun y hy heq => hty a y (by rw [hy]; exact ha) heq⟩

/-- **An instance is a snapshot of what it was read from, when each of its fields is.** -/
theorem isSnapshot_modelOf {cls : String} {slots : List Slot} (hn : (slots.map (·.name)).Nodup) {y : Value}
    (hdump : y.dump = .dict d) (hread : ∀ s ∈ slots, SlotRead d s) (heq : (modelOf cls slots).eq y = true) :
    (modelOf cls slots).IsSnapshot y := by
  cases y with
  | model cls' fields given =>
    rw [modelOf, Value.eq, Bool.and_eq_true, Bool.and_eq_true, beq_iff_eq, beq_iff_eq] at heq
    obtain ⟨⟨rfl, hlength⟩, hitems⟩ := heq
    obtain ⟨d', hd', hgiven, hnot⟩ := Value.dump_model_eq cls fields given
    obtain rfl : d' = d := Value.dict.inj (hd'.symm.trans hdump)
    refine ⟨fields, given, rfl, hlength.symm, Value.isSnapshotFields_iff.mpr fun p hp => ?_⟩
    obtain ⟨y, hy, hyeq⟩ := Value.lookup_of_eqItems hitems p hp
    obtain ⟨s, hs, rfl⟩ := List.mem_map.mp hp
    have hslot := hread s hs
    rw [mem_names_of_nodup hn hs]
    unfold SlotRead at hslot
    refine ⟨y, hy, hyeq, ?_⟩
    -- a set field was read from the dump, an unset one was compared with its default
    split_ifs at hslot with hset
    · obtain ⟨x, hx, hsnapshot⟩ := hslot
      have hmem : s.name ∈ given := by
        by_contra hmem
        rw [hnot _ hmem] at hx
        cases hx
      have hyx : y.dump = x := by
        rw [hgiven _ hmem, hy] at hx
        exact Option.some.inj hx
      exact ⟨iff_of_true hmem hset, fun _ => hsnapshot y hyx hyeq⟩
    · have hmem : s.name ∉ given := by
        intro hmem
        rw [hgiven _ hmem, hy] at hslot
        cases hslot
      exact ⟨iff_of_false hmem hset, fun h => absurd h hset⟩
  | object o => cases hdump
  | _ => simp [modelOf, Value.eq] at heq

/-- A class is exact when each of its fields is. -/
theorem ModelClass.exact {cls : ModelClass α}
    (h : ∀ d a, cls.fields true d = ok a → ∀ s ∈ cls.slots a, SlotRead d s) : cls.codec.Exact := by
  intro a y hread heq
  obtain ⟨d, hd, hfields, -⟩ := modelDict_eq_ok.mp hread
  exact isSnapshot_modelOf (cls.nodup_slots a) hd (h d a hfields) heq

end Slots

end Py
