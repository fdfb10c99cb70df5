import SocLab.Py.Value
import Mathlib.Algebra.Group.Int.Defs
import Mathlib.Tactic.TypeStar

/-!
# SocLab.Py.Model — declared field types and their validation

The validation of a model class: a validator turns a value into a typed one or raises.  Field errors
accumulate in the order of the fields (`ValidationError.errors()`); an exception that is neither a
`ValueError` nor an `AssertionError` passes through at once.

* `Validation` is the applicative of validation results.
* `strictStr`, `strictInt`, `enumOf`, `listOf`, ... are the declared types; `strict` is the mode in
  which a string is no member of an enumeration.
* `requiredField`, `optionalField` and `modelDict` read the fields of a model from a dict, extra keys
  forbidden.
* `Reads v enc`: the validator `v` reads back the dump of what `enc` writes.  The lemmas
  `required_setItems` and `optional_setItems` lift it from the fields to a dumped instance.
-/

namespace Py

/-- One step of the location of an error. -/
inductive LocItem where
  | name (s : String)
  | index (i : Nat)
  deriving DecidableEq

/-- One entry of `ValidationError.errors()`: where and what. -/
structure LineError where
  loc : List LocItem
  type : String
  deriving DecidableEq

/-- The result of a validation: a value, a `ValidationError` with its entries, or another exception
that passed through. -/
inductive Validation (α : Type) where
  | ok (a : α)
  | invalid (errors : List LineError)
  | exception (e : Exc)
  deriving DecidableEq

namespace Validation

variable {α β : Type}

/-- One error at the place that is being validated. -/
def error (type : String) : Validation α := invalid [⟨[], type⟩]

/-- Both sides are validated and their errors collected, unless an exception passes through. -/
def seq (f : Validation (α → β)) (x : Unit → Validation α) : Validation β :=
  match f with
  | ok g =>
    match x () with
    | ok a => ok (g a)
    | invalid es => invalid es
    | exception e => exception e
  | invalid es =>
    match x () with
    | ok _ => invalid es
    | invalid es' => invalid (es ++ es')
    | exception e => exception e
  | exception e => exception e

instance : Applicative Validation where
  pure := ok
  seq := seq

@[simp] theorem map_ok (f : α → β) (a : α) : f <$> ok a = ok (f a) := rfl

@[simp] theorem ok_seq_ok (f : α → β) (a : α) : ok f <*> ok a = ok (f a) := rfl

theorem seq_eq_ok {f : Validation (α → β)} {x : Validation α} {b : β} :
    f <*> x = ok b ↔ ∃ g a, f = ok g ∧ x = ok a ∧ g a = b := by
  constructor
  · intro h
    cases f with
    | ok g =>
      cases x with
      | ok a => exact ⟨g, a, rfl, rfl, Validation.ok.inj h⟩
      | invalid es => cases h
      | exception e => cases h
    | invalid es => cases x <;> cases h
    | exception e => cases h
  · rintro ⟨g, a, rfl, rfl, rfl⟩
    rfl

@[simp] theorem map_eq_ok {f : α → β} {x : Validation α} {b : β} :
    f <$> x = ok b ↔ ∃ a, x = ok a ∧ f a = b := by
  show pure f <*> x = ok b ↔ _
  rw [seq_eq_ok]
  constructor
  · rintro ⟨g, a, hg, hx, rfl⟩
    exact ⟨a, hx, by rw [Validation.ok.inj hg]⟩
  · rintro ⟨a, hx, rfl⟩
    exact ⟨f, a, rfl, hx, rfl⟩

/-- The fields of a class with seven of them. -/
theorem map₇_eq_ok {α₁ α₂ α₃ α₄ α₅ α₆ α₇ : Type} {mk : α₁ → α₂ → α₃ → α₄ → α₅ → α₆ → α₇ → β}
    {x₁ : Validation α₁} {x₂ : Validation α₂} {x₃ : Validation α₃} {x₄ : Validation α₄} {x₅ : Validation α₅}
    {x₆ : Validation α₆} {x₇ : Validation α₇} {b : β} :
    mk <$> x₁ <*> x₂ <*> x₃ <*> x₄ <*> x₅ <*> x₆ <*> x₇ = ok b ↔
      ∃ a₁ a₂ a₃ a₄ a₅ a₆ a₇, x₁ = ok a₁ ∧ x₂ = ok a₂ ∧ x₃ = ok a₃ ∧ x₄ = ok a₄ ∧ x₅ = ok a₅ ∧
        x₆ = ok a₆ ∧ x₇ = ok a₇ ∧ mk a₁ a₂ a₃ a₄ a₅ a₆ a₇ = b := by
  simp only [seq_eq_ok, map_eq_ok]
  constructor
  · rintro ⟨_, _, ⟨_, _, ⟨_, _, ⟨_, _, ⟨_, _, ⟨_, _, ⟨_, h₁, rfl⟩, h₂, rfl⟩, h₃, rfl⟩, h₄, rfl⟩, h₅, rfl⟩,
      h₆, rfl⟩, h₇, rfl⟩
    exact ⟨_, _, _, _, _, _, _, h₁, h₂, h₃, h₄, h₅, h₆, h₇, rfl⟩
  · rintro ⟨_, _, _, _, _, _, _, h₁, h₂, h₃, h₄, h₅, h₆, h₇, rfl⟩
    exact ⟨_, _, ⟨_, _, ⟨_, _, ⟨_, _, ⟨_, _, ⟨_, _, ⟨_, h₁, rfl⟩, h₂, rfl⟩, h₃, rfl⟩, h₄, rfl⟩, h₅, rfl⟩,
      h₆, rfl⟩, h₇, rfl⟩

/-- The validation gives a value. -/
def IsOk (x : Validation α) : Prop := ∃ a, x = ok a

theorem isOk_seq {f : Validation (α → β)} {x : Validation α} : IsOk (f <*> x) ↔ IsOk f ∧ IsOk x := by
  constructor
  · rintro ⟨b, h⟩
    obtain ⟨g, a, hg, ha, -⟩ := seq_eq_ok.mp h
    exact ⟨⟨g, hg⟩, ⟨a, ha⟩⟩
  · rintro ⟨⟨g, rfl⟩, ⟨a, rfl⟩⟩
    exact ⟨g a, rfl⟩

theorem isOk_map {f : α → β} {x : Validation α} : IsOk (f <$> x) ↔ IsOk x := by
  constructor
  · rintro ⟨b, h⟩
    obtain ⟨a, ha, -⟩ := map_eq_ok.mp h
    exact ⟨a, ha⟩
  · rintro ⟨a, rfl⟩
    exact ⟨f a, rfl⟩

/-- The value, when nothing was raised. -/
def toOption : Validation α → Option α
  | ok a => some a
  | _ => none

@[simp] theorem toOption_ok (a : α) : toOption (ok a) = some a := rfl

@[simp] theorem toOption_eq_some {x : Validation α} {a : α} : x.toOption = some a ↔ x = ok a := by
  cases x <;> simp [toOption]

/-- The errors of a field carry its location. -/
def within (item : LocItem) : Validation α → Validation α
  | ok a => ok a
  | invalid es => invalid (es.map fun e => { e with loc := item :: e.loc })
  | exception e => exception e

@[simp] theorem within_ok (item : LocItem) (a : α) : within item (ok a) = ok a := rfl

@[simp] theorem within_eq_ok {item : LocItem} {x : Validation α} {a : α} :
    within item x = ok a ↔ x = ok a := by
  cases x <;> simp [within]

/-- A `mode="after"` validator: it runs when the fields are valid. -/
def after (x : Validation α) (check : α → Validation β) : Validation β :=
  match x with
  | ok a => check a
  | invalid es => invalid es
  | exception e => exception e

@[simp] theorem after_ok (a : α) (check : α → Validation β) : after (ok a) check = check a := rfl

theorem after_eq_ok {x : Validation α} {check : α → Validation β} {b : β} :
    after x check = ok b ↔ ∃ a, x = ok a ∧ check a = ok b := by
  cases x <;> simp [after]

/-- An exception that a validator function raises: pydantic collects a `ValueError` or an
`AssertionError` as an error of the value. -/
def raised (e : Exc) : Validation α :=
  match e with
  | .valueError => error "value_error"
  | .assertionError => error "assertion_error"
  | e => exception e

/-- A sequence of `if condition: raise ValueError(message)`. -/
def raiseFirst : List (Bool × String) → Validation Unit
  | [] => ok ()
  | (condition, message) :: rest => if condition then error message else raiseFirst rest

theorem raiseFirst_eq_ok {checks : List (Bool × String)} :
    raiseFirst checks = ok () ↔ ∀ c ∈ checks, c.1 = false := by
  induction checks with
  | nil => simp [raiseFirst]
  | cons c checks ih =>
    obtain ⟨condition, message⟩ := c
    cases condition with
    | false => simp [raiseFirst, ih]
    | true => simp [raiseFirst, error]

/-- A check together with the fact that it passed. -/
def certify : (x : Validation Unit) → Validation (PLift (x = ok ()))
  | ok () => ok ⟨rfl⟩
  | invalid es => invalid es
  | exception e => exception e

theorem certify_ok {x : Validation Unit} (h : x = ok ()) : certify x = ok ⟨h⟩ := by
  subst h
  rfl

/-- The elements of a list, each at its index. -/
def traverseFrom (v : α → Validation β) : Nat → List α → Validation (List β)
  | _, [] => ok []
  | i, a :: as => List.cons <$> within (.index i) (v a) <*> traverseFrom v (i + 1) as

theorem traverseFrom_map {γ : Type} {v : β → Validation γ} {enc : γ → β} {cs : List γ}
    (h : ∀ c ∈ cs, v (enc c) = ok c) (i : Nat) : traverseFrom v i (cs.map enc) = ok cs := by
  induction cs generalizing i with
  | nil => rfl
  | cons c cs ih =>
    rw [List.map_cons, traverseFrom, h c (by simp), ih fun d hd => h d (by simp [hd])]
    rfl

end Validation

open Validation

/-- How a field type reads a value. -/
abbrev Validator (α : Type) : Type := Value → Validation α

/-! ### Declared types -/

/-- `StrictStr`; a member of a string enumeration is a string, as is an object of a subclass. -/
def strictStr : Validator String
  | .str s => ok s
  | .enum _ s => ok s
  | .object o =>
    match o.text with
    | some s => ok s
    | none => error "string_type"
  | _ => error "string_type"

/-- The value is the text: of `str` itself, of a string enumeration or of another subclass. -/
def Value.IsText (v : Value) (s : String) : Prop :=
  v = .str s ∨ (∃ cls, v = .enum cls s) ∨ ∃ o, v = .object o ∧ o.text = some s

theorem strictStr_iff {x : Value} {s : String} : strictStr x = ok s ↔ x.IsText s := by
  constructor
  · intro h
    unfold strictStr at h
    split at h
    · cases h
      exact Or.inl rfl
    · next cls t =>
      cases h
      exact Or.inr (Or.inl ⟨cls, rfl⟩)
    · next o =>
      split at h
      · next t ht =>
        cases h
        exact Or.inr (Or.inr ⟨o, rfl, ht⟩)
      · cases h
    · cases h
  · rintro (rfl | ⟨cls, rfl⟩ | ⟨o, rfl, htext⟩)
    · rfl
    · rfl
    · rw [strictStr, htext]

/-- `StrictInt`: no Boolean, but an object of another subclass. -/
def strictInt : Validator Int
  | .int n => ok n
  | .object o =>
    match o.number with
    | some n => ok n
    | none => error "int_type"
  | _ => error "int_type"

/-- `StrictBool`. -/
def strictBool : Validator Bool
  | .bool b => ok b
  | _ => error "bool_type"

/-- `Any`. -/
def anyValue : Validator Value := ok

/-- `None` or an encoded value. -/
def Value.ofOption {α : Type} (enc : α → Value) : Option α → Value
  | Option.none => .none
  | some a => enc a

/-- `T | None`. -/
def nullable {α : Type} (v : Validator α) : Validator (Option α)
  | .none => ok none
  | x => some <$> v x

theorem nullable_ofOption_eq_ok {α β : Type} {v : Validator α} {enc : β → Value}
    (henc : ∀ b, enc b ≠ .none) {o : Option β} {r : Option α} :
    nullable v (Value.ofOption enc o) = ok r ↔
      o = none ∧ r = none ∨ ∃ b a, o = some b ∧ r = some a ∧ v (enc b) = ok a := by
  cases o with
  | none =>
    show ok none = ok r ↔ _
    simp [eq_comm]
  | some b =>
    have hb := henc b
    have hnullable : nullable v (enc b) = some <$> v (enc b) := by
      generalize enc b = x at hb
      cases x with
      | none => exact absurd rfl hb
      | _ => rfl
    show nullable v (enc b) = ok r ↔ _
    rw [hnullable, map_eq_ok]
    simp [eq_comm, and_comm]

/-- A value of the base type that satisfies a constraint (`min_length`, `ge`, `gt`, `le`). -/
def constrained {α : Type} (v : Validator α) (p : α → Prop) [DecidablePred p] (type : String) :
    Validator {a : α // p a} := fun x =>
  after (v x) fun a => if h : p a then ok ⟨a, h⟩ else error type

/-- `AwareDatetime` of datetime objects: a naive value is refused.  Outside strict mode pydantic also reads texts and
numbers; no caller in the repository passes one, and they are refused here. -/
def awareDatetime : Validator {d : DateTime // d.Aware}
  | .datetime d =>
    if h : d.Aware then ok ⟨d, h⟩
    else match d.utcoffset with
      | .ok _ => error "timezone_aware"
      | .error e => exception e
  | _ => error "datetime_type"

/-- `IPvAnyAddress`: `IPv4Address(value)`, else `IPv6Address(value)`; an address reads back as itself,
and an integer is the number of an address.  What has no text of an address by its kind is refused. -/
def ipvAnyAddress : Validator IPAddress
  | .ip a => ok a
  | .str s | .enum _ s =>
    match ipAddress s with
    | .ok a => ok a
    | .error _ => error "ip_any_address"
  | .int n =>
    if h : 0 ≤ n ∧ n < 2 ^ 32 then ok (.v4 ⟨n.toNat, by omega⟩)
    -- what is too great for the fourth version
    else if h : 0 ≤ n ∧ n < 2 ^ 128 then ok (.v6 ⟨n.toNat, by omega⟩ none)
    else error "ip_any_address"
  | .bool b => ok (.v4 (if b then 1 else 0))
  | .object o =>
    match o.address with
    | some a => ok a
    | none => error "ip_any_address"
  | _ => error "ip_any_address"

/-- `list[T]`, strict. -/
def listOf {α : Type} (v : Validator α) : Validator (List α)
  | .list items => traverseFrom v 0 items
  | _ => error "list_type"

/-- `dict[StrictStr, StrictStr]`; no dict has two items with one key. -/
abbrev StrDict : Type := {d : List (String × String) // (d.map (·.1)).Nodup}

namespace StrDict

/-- The dict as a value. -/
def toValue (d : StrDict) : Value := .dict (d.val.map fun p => (p.1, .str p.2))

/-- The empty dict. -/
def empty : StrDict := ⟨[], List.nodup_nil⟩

/-- `d.get(name)`. -/
def get (d : StrDict) (name : String) : Option String := d.val.lookup name

theorem get_eq_some {d : StrDict} {name text : String} :
    d.get name = some text ↔ (name, text) ∈ d.val :=
  ⟨mem_of_lookup, fun h => Value.lookup_of_mem d.property h⟩

end StrDict

/-- The string values of a dict, each at its key. -/
def strItems : List (String × Value) → Validation (List (String × String))
  | [] => ok []
  | (k, v) :: d =>
    (fun s rest => (k, s) :: rest) <$> within (.name k) (strictStr v) <*> strItems d

/-- `dict[str, str]`. -/
def strDict : Validator StrDict
  | .dict d => after (strItems d) fun items =>
    if h : (items.map (·.1)).Nodup then ok ⟨items, h⟩ else error "dict_type"
  | _ => error "dict_type"

/-- What a validator function returns or raises. -/
def ofFunction {α : Type} (f : Value → Except Exc α) : Validator α := fun x =>
  match f x with
  | .ok a => ok a
  | .error e => raised e

theorem ofFunction_eq_ok {α : Type} {f : Value → Except Exc α} {x : Value} {a : α} :
    ofFunction f x = ok a ↔ f x = .ok a := by
  unfold ofFunction
  split
  · next b hb => simp [hb]
  · next e he => cases e <;> simp [he, raised, error]

/-- An untagged union: the first member type that accepts.  Where two member types accept one value,
pydantic prefers the closer one; the member types of the unions in use exclude each other. -/
def union {α : Type} : List (Validator α) → Validator α
  | [], _ => invalid []
  | v :: vs, x =>
    match v x with
    | ok a => ok a
    | invalid es =>
      -- the errors of all members are reported, in their order
      match union vs x with
      | ok a => ok a
      | invalid es' => invalid (es ++ es')
      | exception e => exception e
    | exception e => exception e

/-- A string enumeration: a class name and the values of its members.  The texts of a `Literal` are
given in the same way. -/
class StrEnum (ε : Type) where
  name : String
  members : List ε
  value : ε → String
  mem_members : ∀ e, e ∈ members
  value_injective : ∀ e e', value e = value e' → e = e'

namespace StrEnum

variable {ε : Type} [StrEnum ε]

/-- The member as a value. -/
def toValue (e : ε) : Value := .enum (name ε) (value e)

variable (ε) in
/-- The values of the members. -/
def texts : List String := members.map (value (ε := ε))

/-- The member with a given value. -/
def ofValue? (s : String) : Option ε := (members (ε := ε)).find? fun e => value e == s

@[simp] theorem ofValue?_value (e : ε) : ofValue? (value e) = some e := by
  unfold ofValue?
  cases h : (members (ε := ε)).find? fun e' => value e' == value e with
  | none => simpa using List.find?_eq_none.mp h e (mem_members e)
  | some e' =>
    have he : value e' = value e := by simpa using List.find?_some h
    rw [value_injective e' e he]

theorem value_of_ofValue? {s : String} {e : ε} (h : ofValue? s = some e) : value e = s := by
  simpa using List.find?_some h

/-- The member that a value is, of exactly this class. -/
def ofMember? : Value → Option ε
  | .enum cls s => if cls = name ε then ofValue? s else none
  | _ => none

@[simp] theorem ofMember?_toValue (e : ε) : ofMember? (toValue e) = some e := by
  simp [ofMember?, toValue]

theorem toValue_injective {e e' : ε} (h : toValue e = toValue e') : e = e' := by
  injection h with _ hvalue
  exact value_injective e e' hvalue

theorem toValue_of_ofMember? {v : Value} {e : ε} (h : ofMember? v = some e) : v = toValue e := by
  unfold ofMember? at h
  split at h
  · split_ifs at h with hc
    rw [toValue, hc, value_of_ofValue? h]
  · cases h

end StrEnum

/-- The text that stands for a member, outside strict mode: a string, a member of another string
enumeration, or an object that is taken for one of the texts. -/
def memberText (texts : List String) : Value → Option String
  | .str s | .enum _ s => some s
  | .object o => o.member texts
  | _ => none

/-- An enumeration type; outside strict mode what has the text of a member is accepted too. -/
def enumOf (ε : Type) [StrEnum ε] (strict : Bool) : Validator ε := fun x =>
  match StrEnum.ofMember? x with
  | some e => ok e
  | none =>
    if strict then error "enum"
    else
      match (memberText (StrEnum.texts ε) x).bind StrEnum.ofValue? with
      | some e => ok e
      | none => error "enum"

@[simp] theorem enumOf_toValue {ε : Type} [StrEnum ε] (strict : Bool) (e : ε) :
    enumOf ε strict (StrEnum.toValue e) = ok e := by
  simp [enumOf]

/-- In strict mode only a member is accepted. -/
theorem eq_of_enumOf {ε : Type} [StrEnum ε] {x : Value} {e : ε} (h : enumOf ε true x = ok e) :
    x = StrEnum.toValue e := by
  unfold enumOf at h
  split at h
  · next e' he =>
    cases h
    exact StrEnum.toValue_of_ofMember? he
  · cases h

/-- The text under which a `Literal` of texts finds a value, in either mode. -/
def literalText (texts : List String) : Value → Option String
  | .str s | .enum _ s => some s
  | .object o => o.literal texts
  | _ => none

/-- A `Literal` of texts; the result is the text itself. -/
def literalOf (ε : Type) [StrEnum ε] : Validator ε := fun x =>
  match (literalText (StrEnum.texts ε) x).bind StrEnum.ofValue? with
  | some e => ok e
  | none => error "literal_error"

/-! ### Fields of a model -/

/-- A field with a default: left out, or given. -/
inductive ModelField (α : Type) where
  | unset
  | set (a : α)
  deriving DecidableEq

namespace ModelField

variable {α : Type}

/-- The value, with the default for a field that was not given. -/
def get (d : α) : ModelField α → α
  | unset => d
  | set a => a

/-- The field is in `model_fields_set`. -/
def isSet : ModelField α → Bool
  | unset => false
  | set _ => true

/-- A given value is mapped. -/
def map {β : Type} (f : α → β) : ModelField α → ModelField β
  | unset => unset
  | set a => set (f a)

@[simp] theorem get_set (d a : α) : (set a).get d = a := rfl

@[simp] theorem get_unset (d : α) : (unset : ModelField α).get d = d := rfl

@[simp] theorem isSet_set (a : α) : (set a).isSet = true := rfl

@[simp] theorem isSet_unset : (unset : ModelField α).isSet = false := rfl

@[simp] theorem isSet_eq_false {x : ModelField α} : x.isSet = false ↔ x = unset := by
  cases x <;> simp

theorem isSet_eq_true {x : ModelField α} : x.isSet = true ↔ ∃ a, x = set a := by
  cases x <;> simp

@[simp] theorem isSet_map {β : Type} (f : α → β) (x : ModelField α) : (x.map f).isSet = x.isSet := by
  cases x <;> rfl

end ModelField

section Fields

variable {α : Type}

/-- A field without a default. -/
def requiredField (name : String) (v : Validator α) (d : Dict) : Validation α :=
  match d.lookup name with
  | some x => within (.name name) (v x)
  | none => within (.name name) (error "missing")

/-- A field with a default. -/
def optionalField (name : String) (v : Validator α) (d : Dict) : Validation (ModelField α) :=
  match d.lookup name with
  | some x => ModelField.set <$> within (.name name) (v x)
  | none => ok .unset

theorem requiredField_eq_ok {name : String} {v : Validator α} {d : Dict} {a : α} :
    requiredField name v d = ok a ↔ ∃ x, d.lookup name = some x ∧ v x = ok a := by
  unfold requiredField
  split
  · next x hx => simp [hx]
  · next hx => simp [hx, error, within]

/-- A required item of a dict that is known. -/
theorem requiredField_of_lookup {name : String} {v : Validator α} {d : Dict} {x : Value} {a : α}
    (hx : d.lookup name = some x) : requiredField name v d = ok a ↔ v x = ok a := by
  rw [requiredField, hx]
  exact within_eq_ok

/-- An item with a default that is given. -/
theorem optionalField_of_lookup {name : String} {v : Validator α} {d : Dict} {x : Value} {a default : α}
    (hx : d.lookup name = some x) :
    ModelField.get default <$> optionalField name v d = ok a ↔ v x = ok a := by
  rw [optionalField, hx]
  cases h : v x <;> simp [h, within]

theorem optionalField_set_of_lookup {name : String} {v : Validator α} {d : Dict} {x : Value} {a : α}
    (hx : d.lookup name = some x) : optionalField name v d = ok (.set a) ↔ v x = ok a := by
  rw [optionalField, hx]
  simp

theorem optionalField_eq_ok_of_lookup {name : String} {v : Validator α} {d : Dict} {x : Value}
    {f : ModelField α} (hx : d.lookup name = some x) :
    optionalField name v d = ok f ↔ ∃ a, f = .set a ∧ v x = ok a := by
  rw [optionalField, hx]
  dsimp only
  rw [map_eq_ok]
  refine exists_congr fun a => ?_
  rw [within_eq_ok, and_comm, eq_comm]

/-- `extra="forbid"`. -/
def forbidExtra (names : List String) (d : Dict) : Validation Unit :=
  match (Dict.keys d).filter (· ∉ names) with
  | [] => ok ()
  | extra => invalid (extra.map fun k => ⟨[.name k], "extra_forbidden"⟩)

/-- The validated fields of a dict that has no key beside the given names. -/
def modelItems (names : List String) (fields : Validation α) (d : Dict) : Validation α :=
  (fun a _ => a) <$> fields <*> forbidExtra names d

/-- The fields of a model with the given names, from a dict. -/
def modelDict (names : List String) (fields : Dict → Validation α) : Validator α
  | .dict d => modelItems names (fields d) d
  | _ => error "model_type"

theorem forbidExtra_eq_ok {names : List String} {d : Dict} :
    forbidExtra names d = ok () ↔ ∀ k ∈ Dict.keys d, k ∈ names := by
  have hnil : (Dict.keys d).filter (· ∉ names) = [] ↔ ∀ k ∈ Dict.keys d, k ∈ names := by
    simp [List.filter_eq_nil_iff]
  rw [← hnil]
  unfold forbidExtra
  cases (Dict.keys d).filter (· ∉ names) with
  | nil => simp
  | cons k extra => simp

theorem modelDict_dict {names : List String} {fields : Dict → Validation α} {d : Dict} {a : α}
    (hf : fields d = ok a) (hk : ∀ k ∈ Dict.keys d, k ∈ names) :
    modelDict names fields (.dict d) = ok a := by
  rw [modelDict, modelItems, hf, forbidExtra_eq_ok.mpr hk]
  rfl

theorem modelDict_eq_ok {names : List String} {fields : Dict → Validation α} {x : Value} {a : α} :
    modelDict names fields x = ok a ↔
      ∃ d, x = .dict d ∧ fields d = ok a ∧ ∀ k ∈ Dict.keys d, k ∈ names := by
  constructor
  · intro h
    cases x with
    | dict d =>
      obtain ⟨g, u, hg, hu, ha⟩ := seq_eq_ok.mp h
      obtain ⟨a', ha', rfl⟩ := map_eq_ok.mp hg
      subst ha
      exact ⟨d, rfl, ha', forbidExtra_eq_ok.mp hu⟩
    | _ => cases h
  · rintro ⟨d, rfl, hf, hk⟩
    exact modelDict_dict hf hk

end Fields

/-- A dict with declared keys only is valid when its fields are. -/
theorem modelDict_iff {α : Type} {names : List String} {fields : Dict → Validation α} {d : Dict} {a : α}
    (hk : ∀ k ∈ Dict.keys d, k ∈ names) : modelDict names fields (.dict d) = ok a ↔ fields d = ok a := by
  rw [modelDict_eq_ok]
  constructor
  · rintro ⟨d', hd, hf, -⟩
    cases hd
    exact hf
  · exact fun hf => ⟨d, rfl, hf, hk⟩

/-! ### Validations that raise nothing but validation errors -/

namespace Validation

variable {α β : Type}

/-- No exception passes through. -/
def Clean (x : Validation α) : Prop := ∀ e, x ≠ exception e

@[simp] theorem clean_ok (a : α) : Clean (ok a) := fun _ h => by cases h

@[simp] theorem clean_invalid (es : List LineError) : Clean (invalid es : Validation α) :=
  fun _ h => by cases h

@[simp] theorem clean_error (type : String) : Clean (error type : Validation α) :=
  fun _ h => by cases h

@[simp] theorem clean_seq {f : Validation (α → β)} {x : Validation α} :
    Clean (f <*> x) ↔ Clean f ∧ Clean x := by
  constructor
  · intro h
    constructor
    · rintro e rfl
      exact h e rfl
    · rintro e rfl
      cases f with
      | ok g => exact h e rfl
      | invalid es => exact h e rfl
      | exception e' => exact h e' rfl
  · rintro ⟨hf, hx⟩ e h
    cases f with
    | ok g =>
      cases x with
      | ok a => cases h
      | invalid es => cases h
      | exception e' => exact hx e' rfl
    | invalid es =>
      cases x with
      | ok a => cases h
      | invalid es' => cases h
      | exception e' => exact hx e' rfl
    | exception e' => exact hf e' rfl

@[simp] theorem clean_map {f : α → β} {x : Validation α} : Clean (f <$> x) ↔ Clean x := by
  show Clean (pure f <*> x) ↔ _
  exact clean_seq.trans (and_iff_right (clean_ok f))

theorem Clean.within {x : Validation α} (item : LocItem) (hx : Clean x) : Clean (within item x) := by
  intro e h
  cases x with
  | ok a => cases h
  | invalid es => cases h
  | exception e' => exact hx e' rfl

theorem Clean.after {x : Validation α} {check : α → Validation β} (hx : Clean x)
    (hc : ∀ a, Clean (check a)) : Clean (after x check) := by
  cases x with
  | ok a => exact hc a
  | invalid es => exact clean_invalid es
  | exception e => exact absurd rfl (hx e)

@[simp] theorem clean_raiseFirst (checks : List (Bool × String)) : Clean (raiseFirst checks) := by
  induction checks with
  | nil => exact clean_ok ()
  | cons c checks ih =>
    rw [raiseFirst]
    split_ifs
    · exact clean_error _
    · exact ih

theorem clean_certify {x : Validation Unit} (hx : Clean x) : Clean (certify x) := by
  cases x with
  | ok u => exact clean_ok _
  | invalid es => exact clean_invalid es
  | exception e => exact absurd rfl (hx e)

theorem clean_required {name : String} {v : Validator α} {d : Dict} (hv : ∀ x, Clean (v x)) :
    Clean (requiredField name v d) := by
  unfold requiredField
  split
  · exact (hv _).within _
  · exact (clean_error _).within _

theorem clean_optional {name : String} {v : Validator α} {d : Dict} (hv : ∀ x, Clean (v x)) :
    Clean (optionalField name v d) := by
  unfold optionalField
  split
  · exact clean_map.mpr ((hv _).within _)
  · exact clean_ok _

theorem clean_modelItems {names : List String} {fields : Validation α} {d : Dict} (hf : Clean fields) :
    Clean (modelItems names fields d) := by
  have hx : Clean (forbidExtra names d) := by
    unfold forbidExtra
    split <;> simp
  exact clean_seq.mpr ⟨clean_map.mpr hf, hx⟩

theorem clean_modelDict {names : List String} {fields : Dict → Validation α}
    (hf : ∀ d, Clean (fields d)) (x : Value) : Clean (modelDict names fields x) := by
  cases x with
  | dict d => exact clean_modelItems (hf d)
  | _ => exact clean_error _

@[simp] theorem clean_strictStr (x : Value) : Clean (strictStr x) := by
  unfold strictStr
  split
  · exact clean_ok _
  · exact clean_ok _
  · split <;> simp
  · exact clean_error _

@[simp] theorem clean_strictInt (x : Value) : Clean (strictInt x) := by
  unfold strictInt
  split
  · exact clean_ok _
  · split <;> simp
  · exact clean_error _

theorem clean_nullable {v : Validator α} (hv : ∀ x, Clean (v x)) (x : Value) :
    Clean (nullable v x) := by
  cases x with
  | none => exact clean_ok _
  | _ => exact clean_map.mpr (hv _)

theorem clean_constrained {v : Validator α} (hv : ∀ x, Clean (v x)) (p : α → Prop) [DecidablePred p]
    (type : String) (x : Value) : Clean (constrained v p type x) := by
  refine (hv x).after fun a => ?_
  split_ifs <;> simp

theorem clean_strItems (d : List (String × Value)) : Clean (strItems d) := by
  induction d with
  | nil => exact clean_ok _
  | cons p d ih => exact clean_seq.mpr ⟨clean_map.mpr ((clean_strictStr _).within _), ih⟩

@[simp] theorem clean_strDict (x : Value) : Clean (strDict x) := by
  cases x with
  | dict d =>
    refine (clean_strItems d).after fun items => ?_
    split_ifs <;> simp
  | _ => exact clean_error _

theorem awareDatetime_ok {d : DateTime} (h : d.Aware) : awareDatetime (.datetime d) = ok ⟨d, h⟩ :=
  dif_pos h

theorem awareDatetime_eq_ok {d : DateTime} {d' : {d : DateTime // d.Aware}} :
    awareDatetime (.datetime d) = ok d' ↔ d'.val = d := by
  constructor
  · intro h
    unfold awareDatetime at h
    dsimp only at h
    split_ifs at h with haware
    · cases h
      rfl
    · split at h
      · cases h
      · cases h
  · rintro rfl
    exact awareDatetime_ok d'.property

/-- An item with an aware value. -/
theorem clean_required_datetime {name : String} {d : Dict} {t : DateTime}
    (hlookup : d.lookup name = some (.datetime t)) (ht : t.Aware) :
    Clean (requiredField name awareDatetime d) := by
  rw [(requiredField_of_lookup hlookup).mpr (awareDatetime_ok ht)]
  exact clean_ok _

@[simp] theorem clean_ipvAnyAddress (x : Value) : Clean (ipvAnyAddress x) := by
  unfold ipvAnyAddress
  split
  · exact clean_ok _
  · split <;> simp
  · split <;> simp
  · split_ifs <;> simp
  · exact clean_ok _
  · split <;> simp
  · exact clean_error _

@[simp] theorem clean_enumOf (ε : Type) [StrEnum ε] (strict : Bool) (x : Value) :
    Clean (enumOf ε strict x) := by
  unfold enumOf
  split
  · exact clean_ok _
  · split_ifs
    · exact clean_error _
    · split <;> simp

/-- The exception that passes through, if one does. -/
def passed : Validation α → Option Exc
  | exception e => some e
  | _ => none

/-- A missing required field makes a clean validation invalid. -/
theorem exists_invalid {x : Validation α} (hc : Clean x) (h : ∀ a, x ≠ ok a) :
    ∃ es, x = invalid es := by
  cases x with
  | ok a => exact absurd rfl (h a)
  | invalid es => exact ⟨es, rfl⟩
  | exception e => exact absurd rfl (hc e)

end Validation

section Union

variable {α : Type} {x : Value} {a : α}

theorem union_head {v : Validator α} {vs : List (Validator α)} (h : v x = ok a) :
    union (v :: vs) x = ok a := by
  rw [union, h]

theorem clean_union {vs : List (Validator α)} (h : ∀ v ∈ vs, Clean (v x)) : Clean (union vs x) := by
  induction vs with
  | nil => exact clean_invalid _
  | cons v vs ih =>
    have hv : Clean (v x) := h v (by simp)
    have hvs : Clean (union vs x) := ih fun w hw => h w (by simp [hw])
    rw [union]
    split
    · exact clean_ok _
    · split
      · exact clean_ok _
      · exact clean_invalid _
      · next e he => exact absurd he (hvs e)
    · next e he => exact absurd he (hv e)

theorem union_tail {v : Validator α} {vs : List (Validator α)} (hc : Clean (v x))
    (hv : ∀ b, v x ≠ ok b) (h : union vs x = ok a) : union (v :: vs) x = ok a := by
  obtain ⟨es, hes⟩ := exists_invalid hc hv
  rw [union, hes, h]

/-- At most one of the member types accepts the value. -/
def Exclusive (vs : List (Validator α)) (x : Value) : Prop :=
  vs.Pairwise fun v w => ∀ a b, v x = ok a → w x ≠ ok b

/-- **A union of exclusive member types returns what the one that accepts returns.** -/
theorem union_eq_ok {vs : List (Validator α)} (hclean : ∀ v ∈ vs, Clean (v x)) (hexclusive : Exclusive vs x) :
    union vs x = ok a ↔ ∃ v ∈ vs, v x = ok a := by
  induction vs with
  | nil => simp [union]
  | cons v vs ih =>
    obtain ⟨hv, hvs⟩ := List.pairwise_cons.mp hexclusive
    have htail := ih (fun w hw => hclean w (by simp [hw])) hvs
    by_cases h : ∃ b, v x = ok b
    · obtain ⟨b, hb⟩ := h
      rw [union_head hb]
      constructor
      · rintro ⟨⟩
        exact ⟨v, by simp, hb⟩
      · rintro ⟨w, hw, ha⟩
        rcases List.mem_cons.mp hw with rfl | hw
        · rw [← ha, hb]
        · exact absurd ha (hv w hw b a hb)
    · have hnone : ∀ b, v x ≠ ok b := fun b hb => h ⟨b, hb⟩
      obtain ⟨es, hes⟩ := exists_invalid (hclean v (by simp)) hnone
      have hrest : union (v :: vs) x = ok a ↔ union vs x = ok a := by
        rw [union, hes]
        cases union vs x <;> simp
      rw [hrest, htail]
      constructor
      · rintro ⟨w, hw, ha⟩
        exact ⟨w, by simp [hw], ha⟩
      · rintro ⟨w, hw, ha⟩
        rcases List.mem_cons.mp hw with rfl | hw
        · exact absurd ha (hnone a)
        · exact ⟨w, hw, ha⟩

/-- Exclusion does not depend on the order. -/
theorem Exclusive.perm {vs ws : List (Validator α)} (h : Exclusive vs x) (hperm : vs.Perm ws) :
    Exclusive ws x :=
  (hperm.pairwise_iff fun hvw b a hb ha => hvw a b ha hb).mp h

/-- **The order of exclusive member types does not matter.** -/
theorem union_perm {vs ws : List (Validator α)} (hclean : ∀ v ∈ vs, Clean (v x))
    (hexclusive : Exclusive vs x) (hperm : vs.Perm ws) : union ws x = ok a ↔ union vs x = ok a := by
  have hclean' : ∀ w ∈ ws, Clean (w x) := fun w hw => hclean w (hperm.mem_iff.mpr hw)
  rw [union_eq_ok hclean' (hexclusive.perm hperm), union_eq_ok hclean hexclusive]
  exact exists_congr fun v => and_congr_left fun _ => hperm.mem_iff.symm

end Union

/-! ### Reading back what was dumped -/

section RoundTrip

variable {α : Type} {slots : List Slot}

/-- The validator reads back the dump of every encoded value. -/
def Reads (v : Validator α) (enc : α → Value) : Prop := ∀ a, v (enc a).dump = ok a

theorem Reads.nullable {v : Validator α} {enc : α → Value} (h : Reads v enc)
    (hn : ∀ a, (enc a).dump ≠ .none) : Reads (nullable v) (Value.ofOption enc) := by
  intro o
  cases o with
  | none => rfl
  | some a =>
    show Py.nullable v (enc a).dump = ok (some a)
    have hv := h a
    generalize hx : (enc a).dump = x at hv
    cases x with
    | none => exact absurd hx (hn a)
    | _ => exact map_eq_ok.mpr ⟨a, hv, rfl⟩

theorem Reads.listOf {v : Validator α} {enc : α → Value} (h : Reads v enc) :
    Reads (listOf v) fun as => .list (as.map enc) := by
  intro as
  rw [Value.dump_list, List.map_map]
  exact traverseFrom_map (fun a _ => h a) 0

theorem reads_enumOf (ε : Type) [StrEnum ε] (strict : Bool) :
    Reads (enumOf ε strict) StrEnum.toValue := fun e => enumOf_toValue strict e

theorem reads_strictStr : Reads strictStr Value.str := fun _ => rfl

theorem reads_strictInt : Reads strictInt Value.int := fun _ => rfl

theorem reads_strictBool : Reads strictBool Value.bool := fun _ => rfl

theorem reads_ipvAnyAddress : Reads ipvAnyAddress Value.ip := fun _ => rfl

theorem reads_awareDatetime :
    Reads awareDatetime fun d : {d : DateTime // d.Aware} => .datetime d.val := by
  rintro ⟨d, hd⟩
  exact awareDatetime_ok hd

theorem Reads.constrained {v : Validator α} {enc : α → Value} (h : Reads v enc) (p : α → Prop)
    [DecidablePred p] (type : String) :
    Reads (constrained v p type) fun a : {a : α // p a} => enc a.val := by
  rintro ⟨a, ha⟩
  exact after_eq_ok.mpr ⟨a, h a, by rw [dif_pos ha]⟩

theorem strItems_map (d : List (String × String)) :
    strItems (d.map fun p => (p.1, .str p.2)) = ok d := by
  induction d with
  | nil => rfl
  | cons p d ih => rw [List.map_cons, strItems, ih]; rfl

/-- A dict of texts is taken as it is. -/
theorem strDict_toValue (d : StrDict) : strDict d.toValue = ok d :=
  after_eq_ok.mpr ⟨d.val, strItems_map d.val, by rw [dif_pos d.property]⟩

theorem strDict_eq_ok {items : List (String × String)} {d : StrDict} :
    strDict (.dict (items.map fun p => (p.1, .str p.2))) = ok d ↔ d.val = items := by
  rw [strDict, after_eq_ok]
  constructor
  · rintro ⟨items', hitems, hd⟩
    rw [strItems_map] at hitems
    cases hitems
    split_ifs at hd
    · cases hd
      rfl
    · cases hd
  · rintro rfl
    exact after_eq_ok.mp (strDict_toValue d)

theorem reads_strDict : Reads strDict StrDict.toValue := by
  rintro ⟨d, hd⟩
  have hdump : (d.map fun p => (p.1, Value.str p.2)).map (fun p => (p.1, p.2.dump)) =
      d.map fun p => (p.1, Value.str p.2) := by
    rw [List.map_map]; rfl
  rw [StrDict.toValue, Value.dump_dict, hdump]
  exact strDict_toValue ⟨d, hd⟩

theorem constrained_ok {v : Validator α} {p : α → Prop} [DecidablePred p] {type : String} {x : Value}
    {a : α} (hv : v x = ok a) (hp : p a) : constrained v p type x = ok ⟨a, hp⟩ :=
  after_eq_ok.mpr ⟨a, hv, by rw [dif_pos hp]⟩

theorem constrained_eq_ok {v : Validator α} {p : α → Prop} [DecidablePred p] {type : String} {x : Value}
    {a : {a : α // p a}} : constrained v p type x = ok a ↔ v x = ok a.val := by
  constructor
  · intro h
    obtain ⟨b, hb, ha⟩ := after_eq_ok.mp h
    split_ifs at ha
    · rw [hb, ← Validation.ok.inj ha]
    · cases ha
  · exact fun h => constrained_ok h a.property

/-- A given field of a dumped instance. -/
theorem required_setItems (hn : (slots.map (·.name)).Nodup) {name : String} {v : Validator α}
    {enc : α → Value} {a : α} (h : v (enc a).dump = ok a)
    (hs : slots.find? (·.name == name) = some ⟨name, enc a, true⟩) :
    requiredField name v (Slot.setItems slots) = ok a := by
  unfold requiredField
  rw [lookup_setItems hn, hs]
  show within _ (v (enc a).dump) = ok a
  rw [h]
  rfl

/-- A field of a dumped instance that may have been left out. -/
theorem optional_setItems (enc : α → Value) (d : α) (hn : (slots.map (·.name)).Nodup) {name : String}
    {v : Validator α} {f : ModelField α} (h : ∀ a, f = .set a → v (enc a).dump = ok a)
    (hs : slots.find? (·.name == name) = some ⟨name, enc (f.get d), f.isSet⟩) :
    optionalField name v (Slot.setItems slots) = ok f := by
  unfold optionalField
  rw [lookup_setItems hn, hs]
  cases f with
  | unset => rfl
  | set a =>
    show ModelField.set <$> within _ (v (enc a).dump) = ok (.set a)
    rw [h a rfl]
    rfl

/-- A dumped instance is read back when its fields are. -/
theorem modelDict_modelOf {cls : String} {fields : Dict → Validation α} {a : α}
    (hn : (slots.map (·.name)).Nodup) (hf : fields (Slot.setItems slots) = ok a) :
    modelDict (slots.map (·.name)) fields (modelOf cls slots).dump = ok a := by
  rw [dump_modelOf hn]
  exact modelDict_dict hf fun k hk => setItems_keys_subset slots hk

end RoundTrip

/-! ### Declared types with their encoding -/

/-- A declared type: its validator, in strict mode or not, and how its values stand in an instance.
What is dumped reads back as the same value, and a value equals itself. -/
structure Codec (α : Type) where
  validate : Bool → Validator α
  enc : α → Value
  reads : ∀ strict, Reads (validate strict) enc
  eq_self : ∀ a, (enc a).eq (enc a) = true

attribute [simp] Codec.eq_self

namespace Codec

variable {α : Type}

theorem enc_injective (ty : Codec α) {a b : α} (h : ty.enc a = ty.enc b) : a = b := by
  have hread := ty.reads true a
  rw [h, ty.reads true b] at hread
  exact (ok.inj hread).symm

/-- Texts. -/
def str : Codec String where
  validate _ := strictStr
  enc := .str
  reads _ := reads_strictStr
  eq_self a := by simp [Value.eq]

/-- Integers. -/
def int : Codec Int where
  validate _ := strictInt
  enc := .int
  reads _ := reads_strictInt
  eq_self a := by simp [Value.eq]

/-- Booleans. -/
def bool : Codec Bool where
  validate _ := strictBool
  enc := .bool
  reads _ := reads_strictBool
  eq_self a := by simp [Value.eq]

/-- Members of an enumeration. -/
def enum (ε : Type) [StrEnum ε] : Codec ε where
  validate := enumOf ε
  enc := StrEnum.toValue
  reads := reads_enumOf ε
  eq_self a := by simp [StrEnum.toValue, Value.eq]

/-- A `Literal`, whose values are plain strings. -/
def literal (ε : Type) [StrEnum ε] : Codec ε where
  validate _ := literalOf ε
  enc e := .str (StrEnum.value e)
  reads _ e := by
    show literalOf ε (.str (StrEnum.value e)) = ok e
    simp [literalOf, literalText]
  eq_self a := by simp [Value.eq]

/-- IP addresses. -/
def ip : Codec IPAddress where
  validate _ := ipvAnyAddress
  enc := .ip
  reads _ := reads_ipvAnyAddress
  eq_self a := by simp [Value.eq]

/-- Aware datetimes. -/
def datetime : Codec {d : DateTime // d.Aware} where
  validate _ := awareDatetime
  enc d := .datetime d.val
  reads _ := reads_awareDatetime
  eq_self a := by simp [Value.eq]

/-- Dicts of texts. -/
def strDict : Codec StrDict where
  validate _ := Py.strDict
  enc := StrDict.toValue
  reads _ := reads_strDict
  eq_self := by
    rintro ⟨d, hd⟩
    refine Value.eq_dict_self (by rw [List.map_map]; exact hd) fun p hp => ?_
    obtain ⟨q, -, rfl⟩ := List.mem_map.mp hp
    simp [Value.eq]

/-- A type with a constraint. -/
def constrained (ty : Codec α) (p : α → Prop) [DecidablePred p] (type : String) :
    Codec {a : α // p a} where
  validate strict := Py.constrained (ty.validate strict) p type
  enc a := ty.enc a.val
  reads strict := (ty.reads strict).constrained p type
  eq_self a := ty.eq_self a.val

/-- `T | None`, for a type whose values do not dump to `None`. -/
def nullable (ty : Codec α) (h : ∀ a, (ty.enc a).dump ≠ .none) : Codec (Option α) where
  validate strict := Py.nullable (ty.validate strict)
  enc := Value.ofOption ty.enc
  reads strict := (ty.reads strict).nullable h
  eq_self a := by
    cases a with
    | none => simp [Value.ofOption, Value.eq]
    | some a => exact ty.eq_self a

/-- A class with a `mode="after"` validator: `check` accepts the fields of every instance. -/
def after {β : Type} (ty : Codec α) (check : α → Validation β) (proj : β → α)
    (h : ∀ b, check (proj b) = ok b) : Codec β where
  validate strict x := Validation.after (ty.validate strict x) check
  enc b := ty.enc (proj b)
  reads strict b := after_eq_ok.mpr ⟨proj b, ty.reads strict (proj b), h b⟩
  eq_self b := ty.eq_self (proj b)

end Codec

theorem Codec.validate_datetime (strict : Bool) (d : {d : DateTime // d.Aware}) :
    Codec.datetime.validate strict (.datetime d.val) = ok d := awareDatetime_ok d.property

theorem Codec.validate_strDict (strict : Bool) (d : StrDict) :
    Codec.strDict.validate strict d.toValue = ok d := strDict_toValue d

/-! ### Instances of models -/

namespace Slot

variable {α : Type}

/-- A required field. -/
def given (name : String) (ty : Codec α) (a : α) : Slot := ⟨name, ty.enc a, true⟩

/-- A field with the default `d`. -/
def field (name : String) (ty : Codec α) (d : α) (f : ModelField α) : Slot :=
  ⟨name, ty.enc (f.get d), f.isSet⟩

end Slot

section Instances

variable {α : Type} {slots : List Slot} {strict : Bool}

theorem required_given (hn : (slots.map (·.name)).Nodup) {name : String} {ty : Codec α} {a : α}
    (hs : slots.find? (·.name == name) = some (.given name ty a)) :
    requiredField name (ty.validate strict) (Slot.setItems slots) = ok a :=
  required_setItems hn (ty.reads strict a) hs

theorem optional_field (hn : (slots.map (·.name)).Nodup) {name : String} {ty : Codec α} {d : α}
    {f : ModelField α} (hs : slots.find? (·.name == name) = some (.field name ty d f)) :
    optionalField name (ty.validate strict) (Slot.setItems slots) = ok f :=
  optional_setItems ty.enc d hn (fun a _ => ty.reads strict a) hs

end Instances

/-- A model class: its name, its fields as instances hold them, and how they are read from a dict. -/
structure ModelClass (α : Type) where
  name : String
  fieldNames : List String
  slots : α → List Slot
  fields : Bool → Dict → Validation α
  nodup : fieldNames.Nodup
  names_slots : ∀ a, (slots a).map (·.name) = fieldNames
  fields_setItems : ∀ strict a, fields strict (Slot.setItems (slots a)) = ok a
  eq_slots : ∀ a, ∀ s ∈ slots a, s.value.eq s.value = true

namespace ModelClass

variable {α : Type} (cls : ModelClass α)

/-- The instance as a value. -/
def toValue (a : α) : Value := modelOf cls.name (cls.slots a)

/-- `cls.model_validate(value, strict=strict)` for a dict. -/
def modelValidate (strict : Bool) : Validator α := modelDict cls.fieldNames (cls.fields strict)

theorem nodup_slots (a : α) : ((cls.slots a).map (·.name)).Nodup := by
  rw [cls.names_slots]
  exact cls.nodup

theorem dump_toValue (a : α) : (cls.toValue a).dump = .dict (Slot.setItems (cls.slots a)) :=
  dump_modelOf (cls.nodup_slots a)

/-- **The dump of an instance validates to that instance.** -/
theorem reads (strict : Bool) : Reads (cls.modelValidate strict) cls.toValue := by
  intro a
  rw [modelValidate, ← cls.names_slots a]
  exact modelDict_modelOf (cls.nodup_slots a) (cls.fields_setItems strict a)

/-- Instances of a model as a field type. -/
def codec : Codec α where
  validate := cls.modelValidate
  enc := cls.toValue
  reads := cls.reads
  eq_self a := eq_modelOf (cls.nodup_slots a) (cls.eq_slots a)

theorem clean_modelValidate {strict : Bool} (h : ∀ d, Clean (cls.fields strict d)) (x : Value) :
    Clean (cls.modelValidate strict x) := clean_modelDict h x

/-- The instance of another class is refused when a field that this class requires is not its own. -/
theorem modelValidate_ne_ok {β : Type} (other : ModelClass β) {strict : Bool} {name : String}
    (hreq : ∀ d, IsOk (cls.fields strict d) → d.lookup name ≠ none) (hname : name ∉ other.fieldNames)
    (b : β) (a : α) : cls.modelValidate strict (other.toValue b).dump ≠ ok a := by
  intro h
  rw [other.dump_toValue] at h
  obtain ⟨d, hd, hf, -⟩ := modelDict_eq_ok.mp h
  cases hd
  refine hreq _ ⟨a, hf⟩ ?_
  rw [List.lookup_eq_none_iff]
  intro p hp
  rw [bne_iff_ne]
  rintro rfl
  exact hname (other.names_slots b ▸ setItems_keys_subset _ (List.mem_map_of_mem hp))

/-- An instance of the class; its fields were valid when it was built, and it is not validated again. -/
def ofInstance? (x : Value) : Option α :=
  match x with
  | .model name _ _ => if name = cls.name then (cls.modelValidate true x.dump).toOption else none
  | _ => none

@[simp] theorem ofInstance?_toValue (a : α) : cls.ofInstance? (cls.toValue a) = some a := by
  have h : cls.ofInstance? (cls.toValue a) = (cls.modelValidate true (cls.toValue a).dump).toOption :=
    if_pos rfl
  rw [h, cls.reads true a, toOption_ok]

@[simp] theorem ofInstance?_dump {β : Type} (other : ModelClass β) (b : β) :
    cls.ofInstance? (other.toValue b).dump = none := by
  rw [other.dump_toValue]
  rfl

/-- The class as a member of a union: an instance of the class, or a dict of its fields. -/
def member {β : Type} (mk : α → β) (strict : Bool) : Validator β := fun x =>
  match cls.ofInstance? x with
  | some a => ok (mk a)
  | none => mk <$> cls.modelValidate strict x

theorem clean_member {β : Type} {mk : α → β} {strict : Bool} (h : ∀ d, Clean (cls.fields strict d))
    (x : Value) : Clean (cls.member mk strict x) := by
  unfold member
  split
  · exact clean_ok _
  · exact clean_map.mpr (cls.clean_modelValidate h x)

theorem union_member {β : Type} (mk : α → β) (strict : Bool) (vs : List (Validator β)) (a : α) :
    union (cls.member mk strict :: vs) (cls.toValue a).dump = ok (mk a) := by
  refine union_head ?_
  rw [member, ofInstance?_dump]
  exact map_eq_ok.mpr ⟨a, cls.reads strict a, rfl⟩

/-- A class whose required field the instance does not have is passed over. -/
theorem union_skip {β γ : Type} (other : ModelClass γ) {mk : α → β} {strict : Bool}
    {vs : List (Validator β)} {name : String} (hclean : ∀ d, Clean (cls.fields strict d))
    (hreq : ∀ d, IsOk (cls.fields strict d) → d.lookup name ≠ none) (hname : name ∉ other.fieldNames)
    (c : γ) {b : β} (h : union vs (other.toValue c).dump = ok b) :
    union (cls.member mk strict :: vs) (other.toValue c).dump = ok b := by
  refine union_tail (cls.clean_member hclean _) ?_ h
  intro b' hb
  rw [member, ofInstance?_dump] at hb
  obtain ⟨a, ha, -⟩ := map_eq_ok.mp hb
  exact cls.modelValidate_ne_ok other hreq hname c a ha

/-- An instance of the class is taken as it is. -/
theorem union_instance {β : Type} (mk : α → β) (strict : Bool) (vs : List (Validator β)) (a : α) :
    union (cls.member mk strict :: vs) (cls.toValue a) = ok (mk a) := by
  refine union_head ?_
  rw [member, ofInstance?_toValue]

/-- A class is passed over for the instance of another class. -/
theorem union_skip_instance {β γ : Type} (other : ModelClass γ) {mk : α → β} {strict : Bool}
    {vs : List (Validator β)} (hname : other.name ≠ cls.name) (c : γ) {b : β}
    (h : union vs (other.toValue c) = ok b) :
    union (cls.member mk strict :: vs) (other.toValue c) = ok b := by
  have hmember : cls.member mk strict (other.toValue c) = mk <$> error "model_type" := by
    rw [member, show cls.ofInstance? (other.toValue c) = none from if_neg hname]
    rfl
  exact union_tail (hmember ▸ clean_map.mpr (clean_error _)) (fun b' hb => by
    rw [hmember] at hb
    cases hb) h

/-- The class takes the value: any instance of it, as its fields are not looked at again, or a dict that it reads. -/
def Takes (strict : Bool) (x : Value) : Prop :=
  (∃ fields given, x = .model cls.name fields given) ∨ IsOk (cls.modelValidate strict x)

theorem takes_of_member {β : Type} {mk : α → β} {strict : Bool} {x : Value} {b : β}
    (h : cls.member mk strict x = ok b) : cls.Takes strict x := by
  unfold member at h
  split at h
  · next a ha =>
    unfold ofInstance? at ha
    split at ha
    · next name fields given =>
      split_ifs at ha with hname
      exact Or.inl ⟨fields, given, by rw [hname]⟩
    · cases ha
  · obtain ⟨a, ha, -⟩ := map_eq_ok.mp h
    exact Or.inr ⟨a, ha⟩

/-- Classes exclude each other when one of them requires a field that the other does not have. -/
theorem takes_exclusive {β : Type} (other : ModelClass β) {strict : Bool} {name : String}
    (hcls : cls.name ≠ other.name) (hreq : ∀ d, IsOk (cls.fields strict d) → d.lookup name ≠ none)
    (hname : name ∉ other.fieldNames) {x : Value} (h : cls.Takes strict x) : ¬ other.Takes strict x := by
  rintro (⟨fields', given', hx⟩ | ⟨b, hb⟩)
  · rcases h with ⟨fields, given, rfl⟩ | ⟨a, ha⟩
    · exact hcls (Value.model.inj hx).1
    · obtain ⟨d, rfl, -⟩ := modelDict_eq_ok.mp ha
      cases hx
  · obtain ⟨d, rfl, -, hkeys⟩ := modelDict_eq_ok.mp hb
    rcases h with ⟨fields, given, hx⟩ | ⟨a, ha⟩
    · cases hx
    · obtain ⟨d', hd, hfields, -⟩ := modelDict_eq_ok.mp ha
      cases hd
      refine hreq d ⟨a, hfields⟩ (List.lookup_eq_none_iff.mpr fun p hp => ?_)
      rw [bne_iff_ne]
      rintro rfl
      exact hname (hkeys p.1 (List.mem_map_of_mem hp))

end ModelClass

theorem lookup_of_required {α : Type} {name : String} {v : Validator α} {d : Dict}
    (h : IsOk (requiredField name v d)) : d.lookup name ≠ none := by
  obtain ⟨a, h⟩ := h
  intro hnone
  rw [requiredField, hnone] at h
  cases h

end Py
