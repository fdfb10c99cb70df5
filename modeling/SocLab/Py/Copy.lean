import SocLab.Logic.Except
import SocLab.Py.Snapshot

/-!
# SocLab.Py.Copy — deep copies and dumps, and when they fail

`copy.deepcopy` recurses in Python, and what it descends into takes frames of the stack: two for a list or a dict,
four for a model instance, whose `__deepcopy__` copies its `__dict__`.  A copy that runs out of them raises
`RecursionError`.  `model_dump` recurses outside of Python, with a bound of its own on how deep instances are nested.
A copy that succeeds is the value itself, as values have no identity.

* `Runtime` is what the interpreter leaves to an operation; `copyFailure` is the first exception of a copy.
* `Copies n v`: a copy of `v` succeeds with `n` frames; `copies_list`, `copies_dict` and `copies_model` reduce it to
  the parts.
* `Copies.dump`: what can be copied can be copied when it is dumped.
* `Copies.of_isSnapshot` and `nesting_le_of_isSnapshot`: a snapshot of what can be copied and dumped can be, too.
-/

namespace Py

open Logic

/-- What the interpreter leaves to an operation: the frames of the stack for the lists, dicts and instances of a copy,
those for the scalar at its bottom set aside, and how deep model instances may be nested in one that is dumped.
There is room for instances of ordinary size. -/
class Runtime where
  frames : Nat
  nesting : Nat
  frames_ge : 64 ≤ frames
  nesting_ge : 16 ≤ nesting

/-- CPython's recursion limit, and the limit of nested instances in pydantic. -/
@[reducible] def Runtime.ordinary : Runtime where
  frames := 1000
  nesting := 255
  frames_ge := by decide
  nesting_ge := by decide

/-- What a deep copy of the datetime raises: that of its time zone. -/
def DateTime.copyFailure (d : DateTime) : Option Exc :=
  match d.tzinfo with
  | some (.custom _ _ copy) => copy
  | _ => none

namespace Value

mutual

/-- The exception that a deep copy raises first when `n` frames are left. -/
def copyFailure (n : Nat) : Value → Option Exc
  | .list items => if n < 2 then some .recursionError else copyFailureList (n - 2) items
  | .dict items => if n < 2 then some .recursionError else copyFailureItems (n - 2) items
  | .model _ fields _ => if n < 4 then some .recursionError else copyFailureItems (n - 4) fields
  | .object o => if n < 2 then some .recursionError else o.copy
  | .datetime d => d.copyFailure
  -- the other scalars are copied without an error, in the frames that are set aside
  | _ => Option.none

/-- The elements in order. -/
def copyFailureList (n : Nat) : List Value → Option Exc
  | [] => Option.none
  | v :: vs => (copyFailure n v).or (copyFailureList n vs)

/-- The entries in order. -/
def copyFailureItems (n : Nat) : List (String × Value) → Option Exc
  | [] => Option.none
  | (_, v) :: d => (copyFailure n v).or (copyFailureItems n d)

end

mutual

/-- How many model instances stand below each other in what is dumped. -/
def nesting : Value → Nat
  | .list items => nestingList items
  | .dict items => nestingItems items
  | .model _ fields given => nestingFields given fields + 1
  | _ => 0

/-- The greatest nesting among the elements. -/
def nestingList : List Value → Nat
  | [] => 0
  | v :: vs => max (nesting v) (nestingList vs)

/-- The greatest nesting among the entries. -/
def nestingItems : List (String × Value) → Nat
  | [] => 0
  | (_, v) :: d => max (nesting v) (nestingItems d)

/-- The greatest nesting among the fields that were given. -/
def nestingFields (given : List String) : List (String × Value) → Nat
  | [] => 0
  | (k, v) :: d => max (if k ∈ given then nesting v else 0) (nestingFields given d)

end

section Operations

variable [Runtime]

/-- `copy.deepcopy(v)`. -/
def deepcopy (v : Value) : Except Exc Value :=
  match v.copyFailure Runtime.frames with
  | Option.none => .ok v
  | some e => .error e

/-- `v.model_dump(mode="python", exclude_unset=True, warnings="error")` of an instance. -/
def modelDump (v : Value) : Except Exc Value :=
  if v.nesting ≤ Runtime.nesting then .ok v.dump else .error .valueError

end Operations

/-! ### What can be copied -/

/-- A deep copy succeeds with `n` frames. -/
def Copies (n : Nat) (v : Value) : Prop := v.copyFailure n = Option.none

section Copies

variable {n : Nat} {v x y : Value}

theorem deepcopy_eq_ok [Runtime] {w : Value} : v.deepcopy = .ok w ↔ v.Copies Runtime.frames ∧ w = v := by
  unfold deepcopy Copies
  cases v.copyFailure Runtime.frames <;> simp [eq_comm]

theorem modelDump_eq_ok [Runtime] {w : Value} :
    v.modelDump = .ok w ↔ v.nesting ≤ Runtime.nesting ∧ w = v.dump := by
  unfold modelDump
  split_ifs with h <;> simp [h, eq_comm]

@[simp] theorem copies_list {items : List Value} :
    Copies n (.list items) ↔ 2 ≤ n ∧ ∀ v ∈ items, Copies (n - 2) v := by
  have hitems (m : Nat) : copyFailureList m items = Option.none ↔ ∀ v ∈ items, Copies m v := by
    induction items with
    | nil => simp [copyFailureList]
    | cons v vs ih => simp [copyFailureList, Option.or_eq_none_iff, ih, Copies]
  rw [← hitems, Copies, copyFailure]
  split_ifs with h
  · simp
    omega
  · exact (and_iff_right (not_lt.mp h)).symm

theorem copyFailureItems_eq_none {d : List (String × Value)} :
    copyFailureItems n d = Option.none ↔ ∀ p ∈ d, Copies n p.2 := by
  induction d with
  | nil => simp [copyFailureItems]
  | cons p d ih =>
    obtain ⟨k, v⟩ := p
    simp [copyFailureItems, Option.or_eq_none_iff, ih, Copies]

@[simp] theorem copies_dict {d : List (String × Value)} :
    Copies n (.dict d) ↔ 2 ≤ n ∧ ∀ p ∈ d, Copies (n - 2) p.2 := by
  rw [← copyFailureItems_eq_none, Copies, copyFailure]
  split_ifs with h
  · simp
    omega
  · exact (and_iff_right (not_lt.mp h)).symm

@[simp] theorem copies_model {cls : String} {fields : List (String × Value)} {given : List String} :
    Copies n (.model cls fields given) ↔ 4 ≤ n ∧ ∀ p ∈ fields, Copies (n - 4) p.2 := by
  rw [← copyFailureItems_eq_none, Copies, copyFailure]
  split_ifs with h
  · simp
    omega
  · exact (and_iff_right (not_lt.mp h)).symm

@[simp] theorem copies_datetime {d : DateTime} : Copies n (.datetime d) ↔ d.copyFailure = Option.none := Iff.rfl

@[simp] theorem copies_object {o : Foreign} : Copies n (.object o) ↔ 2 ≤ n ∧ o.copy = Option.none := by
  rw [Copies, copyFailure]
  split_ifs with h
  · simp
    omega
  · exact (and_iff_right (not_lt.mp h)).symm

/-- More frames are as good. -/
theorem Copies.mono {m : Nat} (hnm : n ≤ m) (h : Copies n v) : Copies m v := by
  induction v generalizing n m with
  | scalar v hv =>
    cases v with
    | object o =>
      rw [copies_object] at h ⊢
      exact ⟨h.1.trans hnm, h.2⟩
    | list items => exact hv.elim
    | dict items => exact hv.elim
    | model cls fields given => exact hv.elim
    | _ => exact h
  | list items ih =>
    rw [copies_list] at h ⊢
    exact ⟨h.1.trans hnm, fun v hv => ih v hv (by omega) (h.2 v hv)⟩
  | dict items ih =>
    rw [copies_dict] at h ⊢
    exact ⟨h.1.trans hnm, fun p hp => ih p hp (by omega) (h.2 p hp)⟩
  | model cls fields given ih =>
    rw [copies_model] at h ⊢
    exact ⟨h.1.trans hnm, fun p hp => ih p hp (by omega) (h.2 p hp)⟩

/-- **What can be copied can be copied when it is dumped**: a dump takes no more frames, and has no other parts. -/
theorem Copies.dump (h : Copies n v) : Copies n v.dump := by
  induction v generalizing n with
  | scalar v hv =>
    rw [dump_scalar hv]
    exact h
  | list items ih =>
    rw [dump_list, copies_list]
    rw [copies_list] at h
    exact ⟨h.1, List.forall_mem_map.mpr fun v hv => ih v hv (h.2 v hv)⟩
  | dict items ih =>
    rw [dump_dict, copies_dict]
    rw [copies_dict] at h
    exact ⟨h.1, List.forall_mem_map.mpr fun p hp => ih p hp (h.2 p hp)⟩
  | model cls fields given ih =>
    rw [dump_model, copies_dict]
    rw [copies_model] at h
    refine ⟨by omega, fun q hq => ?_⟩
    obtain ⟨p, hp, rfl⟩ := List.mem_map.mp (List.mem_filter.mp hq).1
    exact (ih p hp (h.2 p hp)).mono (by omega)

/-! ### How deep instances are nested -/

variable {m : Nat}

@[simp] theorem nesting_list_le {items : List Value} : nesting (.list items) ≤ m ↔ ∀ v ∈ items, nesting v ≤ m := by
  rw [nesting]
  induction items with
  | nil => simp [nestingList]
  | cons v vs ih => simp [nestingList, ih]

@[simp] theorem nesting_dict_le {d : List (String × Value)} :
    nesting (.dict d) ≤ m ↔ ∀ p ∈ d, nesting p.2 ≤ m := by
  rw [nesting]
  induction d with
  | nil => simp [nestingItems]
  | cons p d ih =>
    obtain ⟨k, v⟩ := p
    simp [nestingItems, ih]

@[simp] theorem nesting_model_le {cls : String} {fields : List (String × Value)} {given : List String} :
    nesting (.model cls fields given) ≤ m ↔ 1 ≤ m ∧ ∀ p ∈ fields, p.1 ∈ given → nesting p.2 ≤ m - 1 := by
  have hfields (k : Nat) : nestingFields given fields ≤ k ↔ ∀ p ∈ fields, p.1 ∈ given → nesting p.2 ≤ k := by
    induction fields with
    | nil => simp [nestingFields]
    | cons p fields ih =>
      obtain ⟨name, v⟩ := p
      rw [nestingFields, Nat.max_le, ih, List.forall_mem_cons]
      refine and_congr_left fun _ => ?_
      split_ifs with hname
      · simp [hname]
      · simp [hname]
  rw [← hfields, nesting]
  omega

theorem nesting_scalar (hv : v.Scalar) : v.nesting = 0 := by
  cases v with
  | list items => exact hv.elim
  | dict items => exact hv.elim
  | model cls fields given => exact hv.elim
  | _ => rfl

/-! ### Snapshots -/

/-- What a declared type has as its default. -/
def IsDefault (v : Value) : Prop := v = .none ∨ (∃ b, v = .bool b) ∨ v = .list [] ∨ v = .dict []

mutual

/-- Fields that were not given hold defaults, at every depth. -/
def Sparse : Value → Prop
  | .list items => SparseList items
  | .dict items => SparseItems items
  | .model _ fields given => SparseFields given fields
  | _ => True

/-- Every element is. -/
def SparseList : List Value → Prop
  | [] => True
  | v :: vs => Sparse v ∧ SparseList vs

/-- Every entry is. -/
def SparseItems : List (String × Value) → Prop
  | [] => True
  | (_, v) :: d => Sparse v ∧ SparseItems d

/-- Every field that was given is, and the others have their defaults. -/
def SparseFields (given : List String) : List (String × Value) → Prop
  | [] => True
  | (k, v) :: d => (if k ∈ given then Sparse v else IsDefault v) ∧ SparseFields given d

end

@[simp] theorem sparse_list {items : List Value} : Sparse (.list items) ↔ ∀ v ∈ items, Sparse v := by
  rw [Sparse]
  induction items with
  | nil => simp [SparseList]
  | cons v vs ih => simp [SparseList, ih]

@[simp] theorem sparse_dict {d : List (String × Value)} : Sparse (.dict d) ↔ ∀ p ∈ d, Sparse p.2 := by
  rw [Sparse]
  induction d with
  | nil => simp [SparseItems]
  | cons p d ih =>
    obtain ⟨k, v⟩ := p
    simp [SparseItems, ih]

@[simp] theorem sparse_model {cls : String} {fields : List (String × Value)} {given : List String} :
    Sparse (.model cls fields given) ↔ ∀ p ∈ fields, if p.1 ∈ given then Sparse p.2 else IsDefault p.2 := by
  rw [Sparse]
  induction fields with
  | nil => simp [SparseFields]
  | cons p fields ih =>
    obtain ⟨k, v⟩ := p
    rw [SparseFields, ih, List.forall_mem_cons]

theorem sparse_scalar (hv : v.Scalar) : v.Sparse := by
  cases v with
  | list items => exact hv.elim
  | dict items => exact hv.elim
  | model cls fields given => exact hv.elim
  | _ => trivial

/-- A default is copied when a value that equals it is: both are empty containers, or the value is an object. -/
theorem Copies.of_isDefault (hx : x.IsDefault) (heq : x.eq y = true) (h : Copies n y) : Copies n x := by
  rcases hx with rfl | ⟨b, rfl⟩ | rfl | rfl
  · rfl
  · rfl
  · cases y with
    | list ys => exact copies_list.mpr ⟨(copies_list.mp h).1, by simp⟩
    | object o => exact copies_list.mpr ⟨(copies_object.mp h).1, by simp⟩
    | _ => simp [eq] at heq
  · cases y with
    | dict ys => exact copies_dict.mpr ⟨(copies_dict.mp h).1, by simp⟩
    | object o => exact copies_dict.mpr ⟨(copies_object.mp h).1, by simp⟩
    | _ => simp [eq] at heq

/-- **A snapshot of what can be copied can be copied.** -/
theorem Copies.of_isSnapshot (hx : x.Sparse) (hxy : x.IsSnapshot y) (h : Copies n y) : Copies n x := by
  induction x generalizing y n with
  | scalar x hscalar =>
    cases x with
    | datetime d =>
      obtain rfl : y = .datetime d := hxy
      exact h
    | object o =>
      obtain rfl : y = .object o := hxy
      exact h
    | list items => exact hscalar.elim
    | dict items => exact hscalar.elim
    | model cls fields given => exact hscalar.elim
    | _ => rfl
  | list items ih =>
    obtain ⟨ys, rfl, hys⟩ := hxy
    rw [copies_list] at h ⊢
    refine ⟨h.1, fun x hmem => ?_⟩
    obtain ⟨z, hz, hxz⟩ := exists_of_forall₂ (isSnapshotList_iff.mp hys) x hmem
    exact ih x hmem (sparse_list.mp hx x hmem) hxz (h.2 z hz)
  | dict items ih =>
    obtain ⟨ys, rfl, hys⟩ := hxy
    rw [copies_dict] at h ⊢
    refine ⟨h.1, fun p hmem => ?_⟩
    obtain ⟨q, hq, -, hpq⟩ := exists_of_forall₂ (isSnapshotItems_iff.mp hys) p hmem
    exact ih p hmem (sparse_dict.mp hx p hmem) hpq (h.2 q hq)
  | model cls fields given ih =>
    obtain ⟨fields', given', rfl, -, hfields⟩ := hxy
    rw [copies_model] at h ⊢
    refine ⟨h.1, fun p hmem => ?_⟩
    obtain ⟨z, hz, heq, -, hgiven⟩ := isSnapshotFields_iff.mp hfields p hmem
    have hcopies : Copies (n - 4) z := h.2 _ (mem_of_lookup hz)
    have hsparse := sparse_model.mp hx p hmem
    -- an unset field holds its default, which is atomic
    split_ifs at hsparse with hset
    · exact ih p hmem hsparse (hgiven hset) hcopies
    · exact .of_isDefault hsparse heq hcopies

/-- **A snapshot of what can be dumped can be dumped.** -/
theorem nesting_le_of_isSnapshot (hxy : x.IsSnapshot y) (h : y.nesting ≤ m) : x.nesting ≤ m := by
  induction x generalizing y m with
  | scalar x hscalar =>
    rw [nesting_scalar hscalar]
    exact Nat.zero_le m
  | list items ih =>
    obtain ⟨ys, rfl, hys⟩ := hxy
    rw [nesting_list_le] at h ⊢
    intro x hmem
    obtain ⟨z, hz, hxz⟩ := exists_of_forall₂ (isSnapshotList_iff.mp hys) x hmem
    exact ih x hmem hxz (h z hz)
  | dict items ih =>
    obtain ⟨ys, rfl, hys⟩ := hxy
    rw [nesting_dict_le] at h ⊢
    intro p hmem
    obtain ⟨q, hq, -, hpq⟩ := exists_of_forall₂ (isSnapshotItems_iff.mp hys) p hmem
    exact ih p hmem hpq (h q hq)
  | model cls fields given ih =>
    obtain ⟨fields', given', rfl, -, hfields⟩ := hxy
    rw [nesting_model_le] at h ⊢
    refine ⟨h.1, fun p hmem hset => ?_⟩
    obtain ⟨z, hz, -, hsame, hgiven⟩ := isSnapshotFields_iff.mp hfields p hmem
    exact ih p hmem (hgiven hset) (h.2 _ (mem_of_lookup hz) (hsame.mpr hset))

end Copies

/-- A scalar that a copy returns without looking at it. -/
def Atomic : Value → Prop
  | .list _ | .dict _ | .model _ _ _ | .datetime _ | .object _ => False
  | _ => True

section Atomic

variable {v : Value}

theorem Atomic.scalar (h : v.Atomic) : v.Scalar := by
  cases v with
  | list items => exact h.elim
  | dict items => exact h.elim
  | model cls fields given => exact h.elim
  | _ => trivial

theorem Atomic.copies (h : v.Atomic) (n : Nat) : v.Copies n := by
  cases v with
  | list items => exact h.elim
  | dict items => exact h.elim
  | model cls fields given => exact h.elim
  | datetime d => exact h.elim
  | object o => exact h.elim
  | _ => rfl

theorem Atomic.ne_datetime (h : v.Atomic) (d : DateTime) : v ≠ .datetime d := by
  rintro rfl
  exact h

end Atomic

end Value

/-! ### Instances -/

section Slots

variable {cls : String} {slots : List Slot} {n : Nat}

theorem copies_modelOf : (modelOf cls slots).Copies n ↔ 4 ≤ n ∧ ∀ s ∈ slots, s.value.Copies (n - 4) := by
  rw [modelOf, Value.copies_model, Slot.items, List.forall_mem_map]

/-- The dump of an instance is a dict of the fields that were given. -/
theorem copies_dump_modelOf (hnodup : (slots.map (·.name)).Nodup) (hn : 2 ≤ n)
    (h : ∀ s ∈ slots, s.value.dump.Copies (n - 2)) : (modelOf cls slots).dump.Copies n := by
  rw [dump_modelOf hnodup, Value.copies_dict]
  refine ⟨hn, fun p hp => ?_⟩
  obtain ⟨s, hs, rfl⟩ := List.mem_map.mp hp
  exact h s (List.mem_filter.mp hs).1

theorem nesting_modelOf_le (hn : (slots.map (·.name)).Nodup) :
    (modelOf cls slots).nesting ≤ n ↔ 1 ≤ n ∧ ∀ s ∈ slots, s.isSet = true → s.value.nesting ≤ n - 1 := by
  rw [modelOf, Value.nesting_model_le, Slot.items, List.forall_mem_map]
  refine and_congr_right fun _ => forall₂_congr fun s hs => ?_
  rw [mem_names_of_nodup hn hs]

theorem sparse_modelOf (hn : (slots.map (·.name)).Nodup) :
    (modelOf cls slots).Sparse ↔ ∀ s ∈ slots, if s.isSet then s.value.Sparse else s.value.IsDefault := by
  rw [modelOf, Value.sparse_model, Slot.items, List.forall_mem_map]
  refine forall₂_congr fun s hs => ?_
  simp only [mem_names_of_nodup hn hs]

/-- An atomic value, and a default when it was not given. -/
structure Slot.Plain (s : Slot) : Prop where
  atomic : s.value.Atomic
  default : s.isSet = false → s.value.IsDefault

theorem Slot.Plain.sparse {s : Slot} (h : s.Plain) : if s.isSet then s.value.Sparse else s.value.IsDefault := by
  split_ifs with hset
  · exact Value.sparse_scalar h.atomic.scalar
  · exact h.default (by simpa using hset)

variable {α : Type}

/-- A type whose values stand as atomic ones. -/
def Codec.Atomic (ty : Codec α) : Prop := ∀ a, (ty.enc a).Atomic

namespace Codec

theorem atomic_str : Codec.str.Atomic := fun _ => trivial

theorem atomic_int : Codec.int.Atomic := fun _ => trivial

theorem atomic_bool : Codec.bool.Atomic := fun _ => trivial

theorem atomic_ip : Codec.ip.Atomic := fun _ => trivial

theorem atomic_enum (ε : Type) [StrEnum ε] : (Codec.enum ε).Atomic := fun _ => trivial

theorem atomic_literal (ε : Type) [StrEnum ε] : (Codec.literal ε).Atomic := fun _ => trivial

theorem Atomic.constrained {ty : Codec α} (h : ty.Atomic) (p : α → Prop) [DecidablePred p] (type : String) :
    (ty.constrained p type).Atomic := fun a => h a.val

theorem Atomic.nullable {ty : Codec α} (h : ty.Atomic) (hnone : ∀ a, (ty.enc a).dump ≠ .none) :
    (ty.nullable hnone).Atomic := by
  intro o
  cases o with
  | none => trivial
  | some a => exact h a

end Codec

theorem plain_given {ty : Codec α} (h : ty.Atomic) {name : String} {a : α} : (Slot.given name ty a).Plain :=
  ⟨h a, fun hset => absurd hset (by simp [Slot.given])⟩

theorem plain_field {ty : Codec α} (h : ty.Atomic) {name : String} {default : α} {f : ModelField α}
    (hdefault : (ty.enc default).IsDefault) : (Slot.field name ty default f).Plain := by
  refine ⟨h _, fun hset => ?_⟩
  obtain rfl := ModelField.isSet_eq_false.mp hset
  exact hdefault

end Slots

end Py
