import SocLab.Py.DateTime
import SocLab.Py.IPAddress
import Mathlib.Data.List.Nodup

/-!
# SocLab.Py.Value — Python values as data

The values that model instances are made of: scalars, members of string enumerations, lists, dicts
with string keys, instances of model classes and objects of any other class (`Foreign`).  Values have no
identity, so an object that stands in two places is one value in each of them.

* `Value.eq` is Python's `==`.
* `Value.dump` is `model_dump(mode="python", exclude_unset=True)`: every model instance in the value
  becomes the dict of the fields that were set.
* `modelOf` builds an instance from its declared fields; `dump_modelOf` and `eq_modelOf` reduce the
  two operations to the fields.
-/

namespace Py

/-- An object of a class of its own, by what it answers to those who look at it.  Each answer is that of
one object in one place, so nothing relates them.

* `text` and `number`: the string or the integer that it is, when its class derives from `str` or `int`; it
  compares as such.
* `literal`: the one of these texts under which a dict finds it; `member`: the one that pydantic or the class
  of a string enumeration with these values takes it for, outside strict mode.
* `address`: the address that `IPv4Address` or, when that refuses, `IPv6Address` makes of it.
* `equalsText`, `equalsNumber`, `equalsAddress`: whether it equals that string, number or address when it is
  none itself, and `equalsOther`: whether it equals the value of another kind that it is compared with.
* `copy`: what a deep copy of it raises, if it does. -/
structure Foreign where
  type : String
  text : Option String := none
  number : Option Int := none
  literal : List String → Option String := fun _ => none
  member : List String → Option String := fun _ => none
  address : Option IPAddress := none
  equalsText : String → Bool := fun _ => false
  equalsNumber : Int → Bool := fun _ => false
  equalsAddress : IPAddress → Bool := fun _ => false
  equalsOther : Bool := false
  copy : Option Exc := none

/-- An object that no declared type takes for a text or a number, as `datetime.date`. -/
structure Foreign.Inert (o : Foreign) : Prop where
  text : o.text = none
  number : o.number = none
  literal : ∀ texts, o.literal texts = none
  member : ∀ texts, o.member texts = none

/-- `enum cls v` is the member with value `v` of the string enumeration `cls`; `float` carries its
`repr`.  A datetime, a list or a dict may be of a subclass, which no function of the source tells apart. -/
inductive Value where
  | none
  | bool (b : Bool)
  | int (n : Int)
  | float (text : String)
  | str (s : String)
  | enum (cls value : String)
  | datetime (d : DateTime)
  | ip (a : IPAddress)
  | list (items : List Value)
  | dict (items : List (String × Value))
  | model (cls : String) (fields : List (String × Value)) (fieldsSet : List String)
  | object (o : Foreign)

/-- `o == v`, which is also asked when `v` stands on the left. -/
def Foreign.equals (o : Foreign) : Value → Bool
  | .str s | .enum _ s => o.text.elim (o.equalsText s) (· == s)
  | .int n => o.number.elim (o.equalsNumber n) (· == n)
  | .bool b => o.number.elim (o.equalsNumber b.toInt) (· == b.toInt)
  | .ip a => o.equalsAddress a
  | _ => o.equalsOther

/-- A dict with string keys, in insertion order. -/
abbrev Dict := List (String × Value)

theorem mem_of_lookup {κ α : Type} [BEq κ] [LawfulBEq κ] {d : List (κ × α)} {k : κ} {v : α}
    (h : d.lookup k = some v) : (k, v) ∈ d := by
  obtain ⟨l₁, l₂, rfl, -⟩ := List.lookup_eq_some_iff.mp h
  simp

namespace Dict

/-- The keys in order. -/
def keys (d : Dict) : List String := d.map (·.1)

/-- `d.keys() == names`, as sets. -/
def sameKeys (d : Dict) (names : List String) : Bool :=
  d.keys.all (· ∈ names) && names.all (· ∈ d.keys)

/-- `d[name] = v`: an existing key keeps its place. -/
def set : Dict → String → Value → Dict
  | [], name, v => [(name, v)]
  | (k, w) :: d, name, v => if k = name then (k, v) :: d else (k, w) :: set d name v

/-- A new key comes last. -/
theorem set_of_notMem {d : Dict} {name : String} {v : Value} (h : name ∉ d.map (·.1)) :
    d.set name v = d ++ [(name, v)] := by
  induction d with
  | nil => rfl
  | cons p d ih =>
    obtain ⟨k, w⟩ := p
    rw [List.map_cons, List.mem_cons, not_or] at h
    rw [set, if_neg (Ne.symm h.1), ih h.2]
    rfl

theorem lookup_set_of_ne {d : Dict} {name key : String} (h : name ≠ key) (v : Value) :
    (d.set key v).lookup name = d.lookup name := by
  have hne : (name == key) = false := by simpa using h
  induction d with
  | nil => rw [set, List.lookup_cons, hne]
  | cons p d ih =>
    obtain ⟨k, w⟩ := p
    rw [set]
    split_ifs with hk
    · rw [List.lookup_cons, List.lookup_cons, hk, hne]
    · rw [List.lookup_cons, List.lookup_cons, ih]

end Dict

namespace Value

/-! ### Types -/

/-- The class of a value. -/
inductive Class where
  | noneType
  | bool
  | int
  | float
  | str
  | enum (name : String)
  | datetime
  | ipv4Address
  | ipv6Address
  | list
  | dict
  | model (name : String)
  | object (name : String)
  deriving DecidableEq

/-- `type(v)`. -/
def type : Value → Class
  | .none => .noneType
  | .bool _ => .bool
  | .int _ => .int
  | .float _ => .float
  | .str _ => .str
  | .enum cls _ => .enum cls
  | .datetime _ => .datetime
  | .ip (.v4 _) => .ipv4Address
  | .ip (.v6 _ _) => .ipv6Address
  | .list _ => .list
  | .dict _ => .dict
  | .model cls _ _ => .model cls
  | .object o => .object o.type

theorem type_eq_str {v : Value} : v.type = .str ↔ ∃ s, v = .str s := by
  cases v <;> simp [type]
  case ip a => cases a <;> simp

theorem type_eq_int {v : Value} : v.type = .int ↔ ∃ n, v = .int n := by
  cases v <;> simp [type]
  case ip a => cases a <;> simp

/-! ### Induction -/

/-- Values without parts, which a dump leaves alone. -/
def Scalar : Value → Prop
  | .list _ | .dict _ | .model _ _ _ => False
  | _ => True

/-- Induction over values: a container over all of its parts at once. -/
@[elab_as_elim, induction_eliminator]
theorem induction {P : Value → Prop} (scalar : ∀ v, Scalar v → P v)
    (list : ∀ items, (∀ v ∈ items, P v) → P (.list items))
    (dict : ∀ items : Dict, (∀ p ∈ items, P p.2) → P (.dict items))
    (model : ∀ cls fields given, (∀ p ∈ (fields : Dict), P p.2) → P (.model cls fields given)) : ∀ v, P v :=
  @Value.rec P (fun items => ∀ v ∈ items, P v) (fun items => ∀ p ∈ items, P p.2) (fun p => P p.2)
    (scalar _ trivial) (fun _ => scalar _ trivial) (fun _ => scalar _ trivial) (fun _ => scalar _ trivial)
    (fun _ => scalar _ trivial) (fun _ _ => scalar _ trivial) (fun _ => scalar _ trivial)
    (fun _ => scalar _ trivial) list dict model (fun _ => scalar _ trivial)
    (fun _ h => absurd h (by simp)) (fun _ _ hv hvs => List.forall_mem_cons.mpr ⟨hv, hvs⟩)
    (fun _ h => absurd h (by simp)) (fun _ _ hp hd => List.forall_mem_cons.mpr ⟨hp, hd⟩)
    fun _ _ hv => hv

/-! ### Equality -/

/-- `n == x` for a float `x` with that `repr`, up to the integers from `10 ** 16` on. -/
def eqFloat (n : Int) (text : String) : Bool := text == toString n ++ ".0" || n == 0 && text == "-0.0"

mutual

/-- `a == b`. -/
def eq : Value → Value → Bool
  | .none, .none => true
  | .bool a, .bool b => a == b
  | .bool a, .int b => a.toInt == b
  | .int a, .bool b => a == b.toInt
  | .int a, .int b => a == b
  | .bool a, .float b => eqFloat a.toInt b
  | .float a, .bool b => eqFloat b.toInt a
  | .int a, .float b => eqFloat a b
  | .float a, .int b => eqFloat b a
  | .float a, .float b => a == b
  | .str a, .str b => a == b
  | .str a, .enum _ b => a == b
  | .enum _ a, .str b => a == b
  | .enum _ a, .enum _ b => a == b
  | .datetime a, .datetime b => a.eq b
  | .ip a, .ip b => decide (a = b)
  | .list a, .list b => eqList a b
  | .dict a, .dict b => a.length == b.length && eqItems a b
  | .model c a _, .model c' b _ => c == c' && a.length == b.length && eqItems a b
  | .object o, v => o.equals v
  | v, .object o => o.equals v
  | _, _ => false

/-- The elements are equal in order. -/
def eqList : List Value → List Value → Bool
  | [], [] => true
  | a :: as, b :: bs => eq a b && eqList as bs
  | _, _ => false

/-- Every item of the first dict stands in the second with an equal value. -/
def eqItems : List (String × Value) → List (String × Value) → Bool
  | [], _ => true
  | (k, a) :: as, bs =>
    (match bs.lookup k with
      | some b => eq a b
      | Option.none => false) && eqItems as bs

end

theorem eqList_self {xs : List Value} (h : ∀ x ∈ xs, eq x x = true) : eqList xs xs = true := by
  induction xs with
  | nil => rfl
  | cons x xs ih =>
    rw [eqList, h x (by simp), ih fun y hy => h y (by simp [hy])]
    rfl

theorem lookup_of_mem {β : Type} {d : List (String × β)} (hd : (d.map (·.1)).Nodup) {p : String × β}
    (hp : p ∈ d) : d.lookup p.1 = some p.2 := by
  induction d with
  | nil => simp at hp
  | cons q d ih =>
    rw [List.map_cons, List.nodup_cons] at hd
    rcases List.mem_cons.mp hp with rfl | hp
    · exact List.lookup_cons_self
    · have hne : p.1 ≠ q.1 := by
        rintro he
        exact hd.1 (he ▸ List.mem_map_of_mem hp)
      rw [List.lookup_cons, show (p.1 == q.1) = false by simpa using hne]
      exact ih hd.2 hp

theorem eqItems_self {d : List (String × Value)} (hd : (d.map (·.1)).Nodup)
    (h : ∀ p ∈ d, eq p.2 p.2 = true) : eqItems d d = true := by
  have key : ∀ sub : List (String × Value), sub ⊆ d → eqItems sub d = true := by
    intro sub
    induction sub with
    | nil => exact fun _ => rfl
    | cons p sub ih =>
      intro hsub
      have hp : p ∈ d := hsub (by simp)
      obtain ⟨k, a⟩ := p
      have hlook : d.lookup k = some a := lookup_of_mem hd hp
      rw [eqItems, hlook, ih fun q hq => hsub (by simp [hq])]
      simp [h (k, a) hp]
  exact key d fun _ hp => hp

theorem eq_dict_self {d : List (String × Value)} (hd : (d.map (·.1)).Nodup)
    (h : ∀ p ∈ d, eq p.2 p.2 = true) : eq (.dict d) (.dict d) = true := by
  rw [eq, eqItems_self hd h]
  simp

/-! ### Dumping -/

mutual

/-- `v.model_dump(mode="python", exclude_unset=True)`, and the same below lists and dicts. -/
def dump : Value → Value
  | .list items => .list (dumpList items)
  | .dict items => .dict (dumpItems items)
  | .model _ fields fieldsSet => .dict ((dumpItems fields).filter (·.1 ∈ fieldsSet))
  | v => v

/-- The elements, dumped. -/
def dumpList : List Value → List Value
  | [] => []
  | v :: vs => dump v :: dumpList vs

/-- The entries, dumped. -/
def dumpItems : List (String × Value) → List (String × Value)
  | [] => []
  | (k, v) :: d => (k, dump v) :: dumpItems d

end

theorem dumpList_eq_map (vs : List Value) : dumpList vs = vs.map dump := by
  induction vs with
  | nil => rfl
  | cons v vs ih => rw [dumpList, ih]; rfl

theorem dumpItems_eq_map (d : List (String × Value)) :
    dumpItems d = d.map fun p => (p.1, dump p.2) := by
  induction d with
  | nil => rfl
  | cons p d ih => rw [dumpItems, ih]; rfl

@[simp] theorem dump_list (vs : List Value) : dump (.list vs) = .list (vs.map dump) := by
  rw [dump, dumpList_eq_map]

@[simp] theorem dump_dict (d : List (String × Value)) :
    dump (.dict d) = .dict (d.map fun p => (p.1, dump p.2)) := by
  rw [dump, dumpItems_eq_map]

theorem dump_model (cls : String) (fields : List (String × Value)) (given : List String) :
    dump (.model cls fields given) = .dict ((fields.map fun p => (p.1, dump p.2)).filter (·.1 ∈ given)) := by
  rw [dump, dumpItems_eq_map]

theorem dump_scalar {v : Value} (hv : v.Scalar) : v.dump = v := by
  cases v with
  | list items => exact hv.elim
  | dict items => exact hv.elim
  | model cls fields given => exact hv.elim
  | _ => rfl

/-- A value without model instances, which a dump leaves alone, and which equals itself. -/
def Plain (v : Value) : Prop := v.dump = v ∧ v.eq v = true

theorem Plain.list {items : List Value} (h : ∀ v ∈ items, Plain v) : Plain (.list items) := by
  constructor
  · rw [dump_list, List.map_congr_left fun v hv => (h v hv).1, List.map_id']
  · rw [eq]
    exact eqList_self fun v hv => (h v hv).2

theorem plain_of_type {v : Value} (h : v.type = .str ∨ v.type = .int) : Plain v := by
  rcases h with h | h
  · obtain ⟨s, rfl⟩ := type_eq_str.mp h
    exact ⟨rfl, by simp [eq]⟩
  · obtain ⟨n, rfl⟩ := type_eq_int.mp h
    exact ⟨rfl, by simp [eq]⟩

end Value

/-! ### Model instances from their declared fields -/

/-- A declared field of an instance: its name, its value and whether it was given. -/
structure Slot where
  name : String
  value : Value
  isSet : Bool

namespace Slot

/-- The fields as `__dict__` holds them. -/
def items (slots : List Slot) : Dict := slots.map fun s => (s.name, s.value)

/-- The dump of the fields that were given. -/
def setItems (slots : List Slot) : Dict :=
  (slots.filter (·.isSet)).map fun s => (s.name, s.value.dump)

end Slot

/-- The instance of `cls` with the given fields. -/
def modelOf (cls : String) (slots : List Slot) : Value :=
  .model cls (Slot.items slots) ((slots.filter (·.isSet)).map (·.name))

theorem eq_modelOf {cls : String} {slots : List Slot} (hn : (slots.map (·.name)).Nodup)
    (h : ∀ s ∈ slots, s.value.eq s.value = true) :
    (modelOf cls slots).eq (modelOf cls slots) = true := by
  have hd : ((Slot.items slots).map (·.1)).Nodup := by
    rw [Slot.items, List.map_map]; exact hn
  have hitems : Value.eqItems (Slot.items slots) (Slot.items slots) = true := by
    refine Value.eqItems_self hd fun p hp => ?_
    obtain ⟨s, hs, rfl⟩ := List.mem_map.mp hp
    exact h s hs
  rw [modelOf, Value.eq, hitems]
  simp

/-- A slot is among the given ones exactly when its name is. -/
theorem mem_names_of_nodup {slots : List Slot} (hn : (slots.map (·.name)).Nodup) {s : Slot}
    (hs : s ∈ slots) : s.name ∈ (slots.filter (·.isSet)).map (·.name) ↔ s.isSet = true := by
  constructor
  · intro h
    obtain ⟨t, ht, hname⟩ := List.mem_map.mp h
    obtain ⟨ht, hset⟩ := List.mem_filter.mp ht
    rw [← List.inj_on_of_nodup_map hn ht hs hname]
    exact hset
  · intro h
    exact List.mem_map_of_mem (List.mem_filter.mpr ⟨hs, h⟩)

theorem dump_modelOf {cls : String} {slots : List Slot} (hn : (slots.map (·.name)).Nodup) :
    (modelOf cls slots).dump = .dict (Slot.setItems slots) := by
  have hfilter : slots.filter (fun s => decide (s.name ∈ (slots.filter (·.isSet)).map (·.name))) =
      slots.filter (·.isSet) := by
    refine List.filter_congr fun s hs => ?_
    rw [Bool.eq_iff_iff, decide_eq_true_iff]
    exact mem_names_of_nodup hn hs
  rw [modelOf, Value.dump, Value.dumpItems_eq_map, Slot.items, Slot.setItems, List.map_map,
    List.filter_map]
  exact congrArg (fun l => Value.dict (l.map fun s => (s.name, s.value.dump))) hfilter

/-- The dumped value of a field, by its slot. -/
theorem lookup_setItems {slots : List Slot} (hn : (slots.map (·.name)).Nodup) (name : String) :
    (Slot.setItems slots).lookup name =
      (slots.find? (·.name == name)).bind fun s => if s.isSet then some s.value.dump else none := by
  induction slots with
  | nil => rfl
  | cons s slots ih =>
    rw [List.map_cons, List.nodup_cons] at hn
    have ih := ih hn.2
    by_cases hname : s.name = name
    · subst hname
      have hnone : (Slot.setItems slots).lookup s.name = none := by
        have hfind : slots.find? (·.name == s.name) = none := by
          rw [List.find?_eq_none]
          intro t ht he
          exact hn.1 (List.mem_map.mpr ⟨t, ht, by simpa using he⟩)
        rw [ih, hfind]
        rfl
      cases hset : s.isSet
      · rw [Slot.setItems, List.filter_cons_of_neg (by simp [hset])]
        refine hnone.trans ?_
        simp [hset]
      · rw [Slot.setItems, List.filter_cons_of_pos (by simp [hset])]
        simp [hset]
    · have hb : (s.name == name) = false := by simpa using hname
      have hb' : (name == s.name) = false := by simpa using fun e : name = s.name => hname e.symm
      cases hset : s.isSet
      · rw [Slot.setItems, List.filter_cons_of_neg (by simp [hset]), List.find?_cons, hb]
        exact ih
      · rw [Slot.setItems, List.filter_cons_of_pos (by simp [hset]), List.map_cons, List.lookup_cons, hb',
          List.find?_cons, hb]
        exact ih

theorem setItems_keys_subset (slots : List Slot) {k : String}
    (hk : k ∈ (Slot.setItems slots).keys) : k ∈ slots.map (·.name) := by
  rw [Dict.keys, Slot.setItems, List.map_map] at hk
  obtain ⟨s, hs, rfl⟩ := List.mem_map.mp hk
  exact List.mem_map_of_mem (List.mem_filter.mp hs).1

end Py
