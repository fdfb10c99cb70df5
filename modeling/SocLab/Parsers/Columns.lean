import SocLab.Parsers.EventData

/-!
# SocLab.Parsers.Columns — what a field of a context is read from

A `Column` says which named value of an event becomes which field of its context, and in which form.  It is
stated without the code: `Column.value` is the value that the field has, if the named value can be read.

* `Column.Fills`: a field of a context has the value of its column.
* The lemmas `fills_*` are about the steps of the source: each column is filled exactly when the step that
  reads it returns what the field holds.
-/

namespace SocLab

open Py Py.Validation Logic

/-- The form of a named value: text, a non-negative integer (hexadecimal after `0x`, where that is allowed),
a port or an IP address. -/
inductive Kind where
  | text
  | number (hexadecimal : Bool)
  | port
  | ip
  deriving DecidableEq

/-- The text as a non-negative integer of the base. -/
def natural (base : Nat) (text : String) : Option Int :=
  match int text base with
  | .ok n => if 0 ≤ n then some n else none
  | .error _ => none

/-- The base of a number that may be hexadecimal. -/
def numberBase (hexadecimal : Bool) (text : String) : Nat :=
  if hexadecimal && (startsWith text "0x" || startsWith text "0X") then 16 else 10

/-- The value that a text without surrounding white space stands for. -/
def Kind.read : Kind → String → Option Value
  | .text, s => some (.str s)
  | .number hexadecimal, s => (natural (numberBase hexadecimal s) s).map .int
  | .port, s => ((natural 10 s).filter (· ≤ 65535)).map .int
  | .ip, s => (ipAddress s).toOption.map .ip

/-- A value of the event that fills a field of the context. -/
structure Column where
  name : String
  key : String
  kind : Kind
  required : Bool

namespace Column

/-- The value of the field: `None` where nothing is given and nothing is required. -/
def value (c : Column) (data : StrDict) : Option Value :=
  match EventData.optionalText (data.get c.name) with
  | none => if c.required then none else some .none
  | some text => c.kind.read text

/-- The field is the one of the column, and it was given the value of the column. -/
structure Fills (data : StrDict) (c : Column) (s : Slot) : Prop where
  name : s.name = c.key
  isSet : s.isSet = true
  value : c.value data = some s.value

end Column

section Steps

variable {data : StrDict} {name key : String}

theorem natural_eq_some {base : Nat} {text : String} {n : Int} :
    natural base text = some n ↔ int text base = .ok n ∧ 0 ≤ n := by
  unfold natural
  cases int text base with
  | ok m =>
    dsimp only
    split_ifs with h
    · rw [Option.some.injEq, Except.ok.injEq]
      exact ⟨fun hm => ⟨hm, hm ▸ h⟩, And.left⟩
    · refine iff_of_false (by simp) ?_
      rintro ⟨hm, hn⟩
      cases hm
      exact h hn
  | error e => simp

theorem nonNegativeInteger_eq_ok {expected text field : String} {base : Nat} {n : Int} :
    EventData.nonNegativeInteger expected base text field = .ok n ↔ natural base text = some n := by
  rw [EventData.nonNegativeInteger, bind_eq_ok, natural_eq_some]
  constructor
  · rintro ⟨m, hm, h⟩
    split_ifs at h with hneg
    cases h
    exact ⟨exceptValueError_eq_ok.mp hm, not_lt.mp hneg⟩
  · rintro ⟨hint, hn⟩
    exact ⟨n, exceptValueError_eq_ok.mpr hint, if_neg (not_lt.mpr hn)⟩

theorem requiredText_eq_ok {text : String} :
    EventData.requiredText data name = .ok text ↔ EventData.optionalText (data.get name) = some text := by
  unfold EventData.requiredText
  cases EventData.optionalText (data.get name) <;> simp

theorem optionalInteger_eq_ok {read : String → String → Except IngestionRaised Int} {o : Option Int} :
    EventData.optionalInteger read data name = .ok o ↔
      EventData.optionalText (data.get name) = none ∧ o = none ∨
        ∃ text n, EventData.optionalText (data.get name) = some text ∧ read text name = .ok n ∧
          o = some n := by
  unfold EventData.optionalInteger
  cases EventData.optionalText (data.get name) with
  | none => simp [eq_comm]
  | some text =>
    cases h : read text name with
    | ok n => simp [h, eq_comm]
    | error e => simp [h]

/-- A text that is present is not empty. -/
theorem length_of_optionalText {value : Option String} {text : String}
    (h : EventData.optionalText value = some text) : 1 ≤ text.length := by
  unfold EventData.optionalText at h
  split at h
  · cases h
  · split_ifs at h with hblank
    cases h
    exact one_le_length fun hempty => hblank (Or.inl hempty)

end Steps

/-! ### What fills a column -/

section Fills

variable {data : StrDict} {name key : String} {hexadecimal : Bool}
  {read : String → String → Except IngestionRaised Int}

theorem fills_given {α : Type} {c : Column} {ty : Codec α} {a : α} :
    c.Fills data (.given key ty a) ↔ key = c.key ∧ c.value data = some (ty.enc a) :=
  ⟨fun h => ⟨h.name, h.value⟩, fun h => ⟨h.1, rfl, h.2⟩⟩

theorem fills_field {α : Type} {c : Column} {ty : Codec α} {d : α} {f : ModelField α} :
    c.Fills data (.field key ty d f) ↔ key = c.key ∧ ∃ a, f = .set a ∧ c.value data = some (ty.enc a) := by
  constructor
  · rintro ⟨hname, hset, hvalue⟩
    obtain ⟨a, rfl⟩ := ModelField.isSet_eq_true.mp hset
    exact ⟨hname, a, rfl, hvalue⟩
  · rintro ⟨hname, a, rfl, hvalue⟩
    exact ⟨hname, rfl, hvalue⟩

theorem value_text {a : Option String} :
    (⟨name, key, .text, false⟩ : Column).value data = some (optionalStr.enc a) ↔
      a = EventData.optionalText (data.get name) := by
  unfold Column.value
  cases EventData.optionalText (data.get name) <;> cases a <;>
    simp [Kind.read, optionalStr, Codec.nullable, Codec.str, Value.ofOption, eq_comm]

theorem value_requiredText {a : NonEmptyString} :
    (⟨name, key, .text, true⟩ : Column).value data = some (nonEmptyString.enc a) ↔
      EventData.requiredText data name = .ok a.val := by
  rw [requiredText_eq_ok]
  unfold Column.value
  cases EventData.optionalText (data.get name) <;>
    simp [Kind.read, nonEmptyString, Codec.constrained, Codec.str]

theorem value_number {a : Option NonNegativeInteger}
    (hread : ∀ text n, read text name = .ok n ↔ natural (numberBase hexadecimal text) text = some n) :
    (⟨name, key, .number hexadecimal, false⟩ : Column).value data =
        some (optionalNonNegativeInteger.enc a) ↔
      EventData.optionalInteger read data name = .ok (a.map (·.val)) := by
  rw [optionalInteger_eq_ok]
  unfold Column.value
  cases EventData.optionalText (data.get name) <;> cases a <;>
    simp [Kind.read, optionalNonNegativeInteger, nonNegativeInteger, Codec.nullable, Codec.constrained,
      Codec.int, Value.ofOption, hread]

theorem value_requiredNumber {a : Option NonNegativeInteger}
    (hread : ∀ text n, read text name = .ok n ↔ natural (numberBase hexadecimal text) text = some n) :
    (⟨name, key, .number hexadecimal, true⟩ : Column).value data =
        some (optionalNonNegativeInteger.enc a) ↔
      ∃ text n, EventData.requiredText data name = .ok text ∧ read text name = .ok n ∧
        a.map (·.val) = some n := by
  simp only [requiredText_eq_ok]
  unfold Column.value
  cases EventData.optionalText (data.get name) <;> cases a <;>
    simp [Kind.read, optionalNonNegativeInteger, nonNegativeInteger, Codec.nullable, Codec.constrained,
      Codec.int, Value.ofOption, hread]

theorem value_port {a : Option Port}
    (hread : ∀ text n, read text name = .ok n ↔ natural 10 text = some n) :
    (⟨name, key, .port, false⟩ : Column).value data = some (optionalPort.enc a) ↔
      EventData.optionalInteger read data name = .ok (a.map (·.val)) := by
  rw [optionalInteger_eq_ok]
  unfold Column.value
  cases EventData.optionalText (data.get name) with
  | none =>
    cases a <;> simp [optionalPort, port, Codec.nullable, Codec.constrained, Codec.int, Value.ofOption]
  | some text =>
    cases a with
    | none => simp [Kind.read, optionalPort, Codec.nullable, Value.ofOption]
    | some n =>
      have hn := n.property.2
      simp [Kind.read, optionalPort, port, Codec.nullable, Codec.constrained, Codec.int, Value.ofOption,
        hread, hn]

theorem value_requiredPort {a : Port}
    (hread : ∀ text n, read text name = .ok n ↔ natural 10 text = some n) :
    (⟨name, key, .port, true⟩ : Column).value data = some (port.enc a) ↔
      ∃ text, EventData.requiredText data name = .ok text ∧ read text name = .ok a.val := by
  have ha := a.property.2
  simp only [requiredText_eq_ok]
  unfold Column.value
  cases EventData.optionalText (data.get name) <;>
    simp [Kind.read, port, Codec.constrained, Codec.int, hread, ha]

theorem value_ip {a : Option IPAddress} :
    (⟨name, key, .ip, false⟩ : Column).value data = some (optionalIp.enc a) ↔
      EventData.optionalText (data.get name) = none ∧ a = none ∨
        ∃ text b, EventData.optionalText (data.get name) = some text ∧ a = some b ∧
          ipAddress text = .ok b := by
  unfold Column.value
  cases EventData.optionalText (data.get name) with
  | none => cases a <;> simp [optionalIp, Codec.ip, Codec.nullable, Value.ofOption]
  | some text =>
    cases h : ipAddress text <;> cases a <;>
      simp [Kind.read, optionalIp, Codec.ip, Codec.nullable, Value.ofOption, h, Except.toOption]

theorem value_requiredIp {a : IPAddress} :
    (⟨name, key, .ip, true⟩ : Column).value data = some (Codec.ip.enc a) ↔
      ∃ text, EventData.requiredText data name = .ok text ∧ ipAddress text = .ok a := by
  simp only [requiredText_eq_ok]
  unfold Column.value
  cases EventData.optionalText (data.get name) with
  | none => simp
  | some text => cases h : ipAddress text <;> simp [Kind.read, Codec.ip, h, Except.toOption]

end Fills

/-! ### The type of a column -/

namespace Column

/-- Every value of the column is one of the type. -/
def Typed {α : Type} (c : Column) (ty : Codec α) : Prop :=
  ∀ data v, c.value data = some v → ∃ a, v = ty.enc a

section Typed

variable {name key : String} {hexadecimal : Bool}

theorem value_cases {c : Column} {data : StrDict} {v : Value} (h : c.value data = some v) :
    c.required = false ∧ v = .none ∨
      ∃ text, EventData.optionalText (data.get c.name) = some text ∧ c.kind.read text = some v := by
  unfold value at h
  cases htext : EventData.optionalText (data.get c.name) with
  | none =>
    rw [htext] at h
    dsimp only at h
    split_ifs at h with hrequired
    cases h
    exact Or.inl ⟨by simpa using hrequired, rfl⟩
  | some text =>
    rw [htext] at h
    exact Or.inr ⟨text, rfl, h⟩

theorem typed_text : Typed ⟨name, key, .text, false⟩ optionalStr := by
  intro data v h
  rcases value_cases h with ⟨-, rfl⟩ | ⟨text, -, hread⟩
  · exact ⟨none, rfl⟩
  · cases hread
    exact ⟨some text, rfl⟩

theorem typed_requiredText : Typed ⟨name, key, .text, true⟩ nonEmptyString := by
  intro data v h
  rcases value_cases h with ⟨hrequired, -⟩ | ⟨text, htext, hread⟩
  · cases hrequired
  · cases hread
    exact ⟨⟨text, length_of_optionalText htext⟩, rfl⟩

theorem typed_number {required : Bool} :
    Typed ⟨name, key, .number hexadecimal, required⟩ optionalNonNegativeInteger := by
  intro data v h
  rcases value_cases h with ⟨-, rfl⟩ | ⟨text, -, hread⟩
  · exact ⟨none, rfl⟩
  · obtain ⟨n, hn, rfl⟩ := Option.map_eq_some_iff.mp hread
    exact ⟨some ⟨n, (natural_eq_some.mp hn).2⟩, rfl⟩

theorem read_port {text : String} {v : Value} (h : Kind.port.read text = some v) :
    ∃ n : Port, v = .int n.val := by
  obtain ⟨n, hn, rfl⟩ := Option.map_eq_some_iff.mp h
  obtain ⟨hn, hle⟩ := Option.filter_eq_some_iff.mp hn
  exact ⟨⟨n, (natural_eq_some.mp hn).2, by simpa using hle⟩, rfl⟩

theorem typed_port : Typed ⟨name, key, .port, false⟩ optionalPort := by
  intro data v h
  rcases value_cases h with ⟨-, rfl⟩ | ⟨text, -, hread⟩
  · exact ⟨none, rfl⟩
  · obtain ⟨n, rfl⟩ := read_port hread
    exact ⟨some n, rfl⟩

theorem typed_requiredPort : Typed ⟨name, key, .port, true⟩ port := by
  intro data v h
  rcases value_cases h with ⟨hrequired, -⟩ | ⟨text, -, hread⟩
  · cases hrequired
  · exact read_port hread

theorem typed_ip : Typed ⟨name, key, .ip, false⟩ optionalIp := by
  intro data v h
  rcases value_cases h with ⟨-, rfl⟩ | ⟨text, -, hread⟩
  · exact ⟨none, rfl⟩
  · obtain ⟨a, -, rfl⟩ := Option.map_eq_some_iff.mp hread
    exact ⟨some a, rfl⟩

theorem typed_requiredIp : Typed ⟨name, key, .ip, true⟩ Codec.ip := by
  intro data v h
  rcases value_cases h with ⟨hrequired, -⟩ | ⟨text, -, hread⟩
  · cases hrequired
  · obtain ⟨a, -, rfl⟩ := Option.map_eq_some_iff.mp hread
    exact ⟨a, rfl⟩

/-- A column that has a value fills a required field of its type. -/
theorem Typed.exists_given {α : Type} {c : Column} {ty : Codec α} {data : StrDict} (ht : c.Typed ty)
    (h : ∃ v, c.value data = some v) : ∃ a, c.Fills data (.given c.key ty a) := by
  obtain ⟨v, hv⟩ := h
  obtain ⟨a, rfl⟩ := ht data v hv
  exact ⟨a, fills_given.mpr ⟨rfl, hv⟩⟩

theorem Typed.exists_field {α : Type} {c : Column} {ty : Codec α} {data : StrDict} {d : α} (ht : c.Typed ty)
    (h : ∃ v, c.value data = some v) : ∃ f, c.Fills data (.field c.key ty d f) := by
  obtain ⟨v, hv⟩ := h
  obtain ⟨a, rfl⟩ := ht data v hv
  exact ⟨.set a, fills_field.mpr ⟨rfl, a, rfl, hv⟩⟩

end Typed

end Column

end SocLab
