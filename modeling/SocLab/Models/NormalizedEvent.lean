import SocLab.Py.Model

/-!
# SocLab.Models.NormalizedEvent — the domain contract of normalized security events

Each model class of `models/normalized_event.py` is a structure whose field types carry the declared
constraints; `NormalizedEvent` carries its own validator's condition as a field.  For every class:

* `slots` are its fields as an instance holds them, `toValue` the instance, `modelValidate` the
  validation of a dict of field values;
* `codec` says that the dump of an instance reads back as that instance.

`EventContext` is an untagged union: `EventContext.codec` shows that the five classes are told apart by
their keys.
-/

namespace SocLab

open Py Py.Validation

/-! ### Enumerations and constrained scalars -/

/-- Supported sources of normalized events. -/
inductive EventSource where
  | windowsSecurity
  | sysmon
  deriving DecidableEq

instance : StrEnum EventSource where
  name := "EventSource"
  members := [.windowsSecurity, .sysmon]
  value
    | .windowsSecurity => "windows_security"
    | .sysmon => "sysmon"
  mem_members e := by cases e <;> simp
  value_injective e e' := by cases e <;> cases e' <;> simp

/-- Supported normalized event categories. -/
inductive EventCategory where
  | authentication
  | process
  | network
  | file
  | dns
  deriving DecidableEq

instance : StrEnum EventCategory where
  name := "EventCategory"
  members := [.authentication, .process, .network, .file, .dns]
  value
    | .authentication => "authentication"
    | .process => "process"
    | .network => "network"
    | .file => "file"
    | .dns => "dns"
  mem_members e := by cases e <;> simp
  value_injective e e' := by cases e <;> cases e' <;> simp

/-- Supported authentication outcomes. -/
inductive AuthenticationOutcome where
  | success
  | failure
  deriving DecidableEq

instance : StrEnum AuthenticationOutcome where
  name := "AuthenticationOutcome"
  members := [.success, .failure]
  value
    | .success => "success"
    | .failure => "failure"
  mem_members e := by cases e <;> simp
  value_injective e e' := by cases e <;> cases e' <;> simp

/-- `Annotated[str, Field(min_length=1)]`. -/
abbrev NonEmptyString : Type := {s : String // 1 ≤ s.length}

/-- `Annotated[int, Field(ge=0)]`. -/
abbrev NonNegativeInteger : Type := {n : Int // 0 ≤ n}

/-- `Annotated[int, Field(gt=0)]`. -/
abbrev PositiveInteger : Type := {n : Int // 0 < n}

/-- `Annotated[int, Field(ge=0, le=65535)]`. -/
abbrev Port : Type := {n : Int // 0 ≤ n ∧ n ≤ 65535}

/-- A datetime whose zone tells an offset. -/
abbrev AwareDatetime : Type := {d : DateTime // d.Aware}

/-- The field type of a `NonEmptyString`. -/
def nonEmptyString : Codec NonEmptyString := Codec.str.constrained _ "string_too_short"

/-- The field type of a `NonNegativeInteger`. -/
def nonNegativeInteger : Codec NonNegativeInteger := Codec.int.constrained _ "greater_than_equal"

/-- The field type of a `PositiveInteger`. -/
def positiveInteger : Codec PositiveInteger := Codec.int.constrained _ "greater_than"

/-- The field type of a `Port`. -/
def port : Codec Port := Codec.int.constrained _ "less_than_equal"

/-- `StrictStr | None`. -/
def optionalStr : Codec (Option String) := Codec.str.nullable fun _ h => by cases h

/-- `NonNegativeInteger | None`. -/
def optionalNonNegativeInteger : Codec (Option NonNegativeInteger) :=
  nonNegativeInteger.nullable fun _ h => by cases h

/-- `Port | None`. -/
def optionalPort : Codec (Option Port) := port.nullable fun _ h => by cases h

/-- `IPvAnyAddress | None`. -/
def optionalIp : Codec (Option IPAddress) := Codec.ip.nullable fun _ h => by cases h

theorem validate_optionalNonNegativeInteger (strict : Bool) (n : Option NonNegativeInteger) :
    optionalNonNegativeInteger.validate strict (.ofOption (.int ·.val) n) = ok n := by
  cases n with
  | none => rfl
  | some n =>
    have hn : nonNegativeInteger.validate strict (.int n.val) = ok n := nonNegativeInteger.reads strict n
    exact map_eq_ok.mpr ⟨n, hn, rfl⟩

section Given

variable {strict : Bool}

theorem nonEmptyString_eq_ok {s : String} {a : NonEmptyString} :
    nonEmptyString.validate strict (.str s) = ok a ↔ a.val = s := by
  rw [nonEmptyString, Codec.constrained, constrained_eq_ok]
  exact (Validation.ok.injEq ..).to_iff.trans eq_comm

theorem positiveInteger_eq_ok {n : Int} {a : PositiveInteger} :
    positiveInteger.validate strict (.int n) = ok a ↔ a.val = n := by
  rw [positiveInteger, Codec.constrained, constrained_eq_ok]
  exact (Validation.ok.injEq ..).to_iff.trans eq_comm

theorem port_eq_ok {n : Int} {a : Port} : port.validate strict (.int n) = ok a ↔ a.val = n := by
  rw [port, Codec.constrained, constrained_eq_ok]
  exact (Validation.ok.injEq ..).to_iff.trans eq_comm

theorem ip_eq_ok {s : String} {a : IPAddress} :
    Codec.ip.validate strict (.str s) = ok a ↔ ipAddress s = .ok a := by
  show ipvAnyAddress (.str s) = ok a ↔ _
  unfold ipvAnyAddress
  cases h : ipAddress s <;> simp [h, error]

theorem optionalStr_eq_ok {o a : Option String} :
    optionalStr.validate strict (.ofOption .str o) = ok a ↔ a = o := by
  refine (nullable_ofOption_eq_ok fun _ h => by cases h).trans ?_
  cases o <;> cases a <;> simp [Codec.str, strictStr, eq_comm]

theorem optionalNonNegativeInteger_eq_ok {o : Option Int} {a : Option NonNegativeInteger} :
    optionalNonNegativeInteger.validate strict (.ofOption .int o) = ok a ↔ a.map (·.val) = o := by
  refine (nullable_ofOption_eq_ok fun _ h => by cases h).trans ?_
  simp only [nonNegativeInteger, Codec.constrained, constrained_eq_ok]
  cases o <;> cases a <;> simp [Codec.int, strictInt, eq_comm]

theorem optionalNonNegativeInteger_int {n : Int} {a : Option NonNegativeInteger} :
    optionalNonNegativeInteger.validate strict (.int n) = ok a ↔ a.map (·.val) = some n :=
  @optionalNonNegativeInteger_eq_ok strict (some n) a

theorem optionalPort_eq_ok {o : Option Int} {a : Option Port} :
    optionalPort.validate strict (.ofOption .int o) = ok a ↔ a.map (·.val) = o := by
  refine (nullable_ofOption_eq_ok fun _ h => by cases h).trans ?_
  simp only [port, Codec.constrained, constrained_eq_ok]
  cases o <;> cases a <;> simp [Codec.int, strictInt, eq_comm]

theorem optionalIp_eq_ok {o : Option String} {a : Option IPAddress} :
    optionalIp.validate strict (.ofOption .str o) = ok a ↔
      o = none ∧ a = none ∨ ∃ s b, o = some s ∧ a = some b ∧ ipAddress s = .ok b := by
  refine (nullable_ofOption_eq_ok fun _ h => by cases h).trans ?_
  simp only [ip_eq_ok]

end Given

section Clean

variable (strict : Bool) (x : Value)

@[simp] theorem clean_nonEmptyString : Clean (nonEmptyString.validate strict x) :=
  clean_constrained clean_strictStr _ _ x

@[simp] theorem clean_nonNegativeInteger : Clean (nonNegativeInteger.validate strict x) :=
  clean_constrained clean_strictInt _ _ x

@[simp] theorem clean_positiveInteger : Clean (positiveInteger.validate strict x) :=
  clean_constrained clean_strictInt _ _ x

@[simp] theorem clean_port : Clean (port.validate strict x) := clean_constrained clean_strictInt _ _ x

@[simp] theorem clean_ip : Clean (Codec.ip.validate strict x) := clean_ipvAnyAddress x

@[simp] theorem clean_enum (ε : Type) [StrEnum ε] : Clean ((Codec.enum ε).validate strict x) :=
  clean_enumOf ε strict x

@[simp] theorem clean_optionalStr : Clean (optionalStr.validate strict x) :=
  clean_nullable clean_strictStr x

@[simp] theorem clean_optionalNonNegativeInteger :
    Clean (optionalNonNegativeInteger.validate strict x) :=
  clean_nullable (clean_nonNegativeInteger strict) x

@[simp] theorem clean_optionalPort : Clean (optionalPort.validate strict x) :=
  clean_nullable (clean_port strict) x

@[simp] theorem clean_optionalIp : Clean (optionalIp.validate strict x) :=
  clean_nullable clean_ipvAnyAddress x

end Clean

/-! ### Contexts -/

/-- Normalized context for an authentication event. -/
structure AuthenticationContext where
  outcome : AuthenticationOutcome
  user : ModelField (Option String)
  domain : ModelField (Option String)
  logonType : ModelField (Option NonNegativeInteger)
  sourceIp : ModelField (Option IPAddress)
  sourcePort : ModelField (Option Port)
  workstation : ModelField (Option String)

namespace AuthenticationContext

/-- The fields of the instance in the order of the class. -/
def slots (c : AuthenticationContext) : List Slot :=
  [.given "outcome" (.enum AuthenticationOutcome) c.outcome,
    .field "user" optionalStr none c.user,
    .field "domain" optionalStr none c.domain,
    .field "logon_type" optionalNonNegativeInteger none c.logonType,
    .field "source_ip" optionalIp none c.sourceIp,
    .field "source_port" optionalPort none c.sourcePort,
    .field "workstation" optionalStr none c.workstation]

/-- The fields of a dict, in the order of the class. -/
def fields (strict : Bool) (d : Dict) : Validation AuthenticationContext :=
  AuthenticationContext.mk <$> requiredField "outcome" ((Codec.enum AuthenticationOutcome).validate strict) d
    <*> optionalField "user" (optionalStr.validate strict) d
    <*> optionalField "domain" (optionalStr.validate strict) d
    <*> optionalField "logon_type" (optionalNonNegativeInteger.validate strict) d
    <*> optionalField "source_ip" (optionalIp.validate strict) d
    <*> optionalField "source_port" (optionalPort.validate strict) d
    <*> optionalField "workstation" (optionalStr.validate strict) d

theorem fields_eq_ok {strict : Bool} {d : Dict} {c : AuthenticationContext} :
    fields strict d = ok c ↔
      requiredField "outcome" ((Codec.enum AuthenticationOutcome).validate strict) d = ok c.outcome ∧
      optionalField "user" (optionalStr.validate strict) d = ok c.user ∧
      optionalField "domain" (optionalStr.validate strict) d = ok c.domain ∧
      optionalField "logon_type" (optionalNonNegativeInteger.validate strict) d = ok c.logonType ∧
      optionalField "source_ip" (optionalIp.validate strict) d = ok c.sourceIp ∧
      optionalField "source_port" (optionalPort.validate strict) d = ok c.sourcePort ∧
      optionalField "workstation" (optionalStr.validate strict) d = ok c.workstation := by
  rw [fields, map₇_eq_ok]
  constructor
  · rintro ⟨_, _, _, _, _, _, _, h₁, h₂, h₃, h₄, h₅, h₆, h₇, rfl⟩
    exact ⟨h₁, h₂, h₃, h₄, h₅, h₆, h₇⟩
  · rintro ⟨h₁, h₂, h₃, h₄, h₅, h₆, h₇⟩
    exact ⟨_, _, _, _, _, _, _, h₁, h₂, h₃, h₄, h₅, h₆, h₇, rfl⟩

theorem nodup_slots (c : AuthenticationContext) : (c.slots.map (·.name)).Nodup := by
  simp [slots, Slot.given, Slot.field]

/-- `class AuthenticationContext`. -/
def modelClass : ModelClass AuthenticationContext where
  name := "AuthenticationContext"
  fieldNames := ["outcome", "user", "domain", "logon_type", "source_ip", "source_port", "workstation"]
  slots := slots
  fields := fields
  nodup := by decide
  names_slots _ := rfl
  fields_setItems strict c := by
    have hn := c.nodup_slots
    rw [fields, required_given hn (a := c.outcome) rfl,
      optional_field hn (f := c.user) rfl,
      optional_field hn (f := c.domain) rfl,
      optional_field hn (f := c.logonType) rfl,
      optional_field hn (f := c.sourceIp) rfl,
      optional_field hn (f := c.sourcePort) rfl,
      optional_field hn (f := c.workstation) rfl]
    rfl
  eq_slots c := by simp [slots, Slot.given, Slot.field]

theorem clean_fields (strict : Bool) (d : Dict) : Clean (fields strict d) := by
  simp [fields, clean_required, clean_optional]

theorem lookup_of_fields {strict : Bool} {d : Dict} (h : IsOk (fields strict d)) :
    d.lookup "outcome" ≠ none := by
  simp only [fields, isOk_seq, isOk_map, and_assoc] at h
  exact lookup_of_required h.1

end AuthenticationContext

/-- Normalized context for a process-creation event. -/
structure ProcessContext where
  image : NonEmptyString
  processId : ModelField (Option NonNegativeInteger)
  commandLine : ModelField (Option String)
  parentProcessId : ModelField (Option NonNegativeInteger)
  parentImage : ModelField (Option String)
  user : ModelField (Option String)

namespace ProcessContext

/-- The fields of the instance in the order of the class. -/
def slots (c : ProcessContext) : List Slot :=
  [.given "image" nonEmptyString c.image,
    .field "process_id" optionalNonNegativeInteger none c.processId,
    .field "command_line" optionalStr none c.commandLine,
    .field "parent_process_id" optionalNonNegativeInteger none c.parentProcessId,
    .field "parent_image" optionalStr none c.parentImage,
    .field "user" optionalStr none c.user]

/-- The fields of a dict, in the order of the class. -/
def fields (strict : Bool) (d : Dict) : Validation ProcessContext :=
  ProcessContext.mk <$> requiredField "image" (nonEmptyString.validate strict) d
    <*> optionalField "process_id" (optionalNonNegativeInteger.validate strict) d
    <*> optionalField "command_line" (optionalStr.validate strict) d
    <*> optionalField "parent_process_id" (optionalNonNegativeInteger.validate strict) d
    <*> optionalField "parent_image" (optionalStr.validate strict) d
    <*> optionalField "user" (optionalStr.validate strict) d

theorem fields_eq_ok {strict : Bool} {d : Dict} {c : ProcessContext} :
    fields strict d = ok c ↔
      requiredField "image" (nonEmptyString.validate strict) d = ok c.image ∧
      optionalField "process_id" (optionalNonNegativeInteger.validate strict) d = ok c.processId ∧
      optionalField "command_line" (optionalStr.validate strict) d = ok c.commandLine ∧
      optionalField "parent_process_id" (optionalNonNegativeInteger.validate strict) d = ok c.parentProcessId ∧
      optionalField "parent_image" (optionalStr.validate strict) d = ok c.parentImage ∧
      optionalField "user" (optionalStr.validate strict) d = ok c.user := by
  simp only [fields, seq_eq_ok, map_eq_ok]
  constructor
  · rintro ⟨_, _, ⟨_, _, ⟨_, _, ⟨_, _, ⟨_, _, ⟨_, h₁, rfl⟩, h₂, rfl⟩, h₃, rfl⟩, h₄, rfl⟩, h₅, rfl⟩, h₆, rfl⟩
    exact ⟨h₁, h₂, h₃, h₄, h₅, h₆⟩
  · rintro ⟨h₁, h₂, h₃, h₄, h₅, h₆⟩
    exact ⟨_, _, ⟨_, _, ⟨_, _, ⟨_, _, ⟨_, _, ⟨_, h₁, rfl⟩, h₂, rfl⟩, h₃, rfl⟩, h₄, rfl⟩, h₅, rfl⟩, h₆, rfl⟩

theorem nodup_slots (c : ProcessContext) : (c.slots.map (·.name)).Nodup := by
  simp [slots, Slot.given, Slot.field]

/-- `class ProcessContext`. -/
def modelClass : ModelClass ProcessContext where
  name := "ProcessContext"
  fieldNames := ["image", "process_id", "command_line", "parent_process_id", "parent_image", "user"]
  slots := slots
  fields := fields
  nodup := by decide
  names_slots _ := rfl
  fields_setItems strict c := by
    have hn := c.nodup_slots
    rw [fields, required_given hn (a := c.image) rfl,
      optional_field hn (f := c.processId) rfl,
      optional_field hn (f := c.commandLine) rfl,
      optional_field hn (f := c.parentProcessId) rfl,
      optional_field hn (f := c.parentImage) rfl,
      optional_field hn (f := c.user) rfl]
    rfl
  eq_slots c := by simp [slots, Slot.given, Slot.field]

theorem clean_fields (strict : Bool) (d : Dict) : Clean (fields strict d) := by
  simp [fields, clean_required, clean_optional]

theorem lookup_of_fields {strict : Bool} {d : Dict} (h : IsOk (fields strict d)) :
    d.lookup "image" ≠ none := by
  simp only [fields, isOk_seq, isOk_map, and_assoc] at h
  exact lookup_of_required h.1

end ProcessContext

/-- Normalized context for a network-connection event. -/
structure NetworkContext where
  sourceIp : IPAddress
  sourcePort : Port
  destinationIp : IPAddress
  destinationPort : Port
  protocol : ModelField (Option String)
  processId : ModelField (Option NonNegativeInteger)
  processImage : ModelField (Option String)

namespace NetworkContext

/-- The fields of the instance in the order of the class. -/
def slots (c : NetworkContext) : List Slot :=
  [.given "source_ip" Codec.ip c.sourceIp,
    .given "source_port" port c.sourcePort,
    .given "destination_ip" Codec.ip c.destinationIp,
    .given "destination_port" port c.destinationPort,
    .field "protocol" optionalStr none c.protocol,
    .field "process_id" optionalNonNegativeInteger none c.processId,
    .field "process_image" optionalStr none c.processImage]

/-- The fields of a dict, in the order of the class. -/
def fields (strict : Bool) (d : Dict) : Validation NetworkContext :=
  NetworkContext.mk <$> requiredField "source_ip" (Codec.ip.validate strict) d
    <*> requiredField "source_port" (port.validate strict) d
    <*> requiredField "destination_ip" (Codec.ip.validate strict) d
    <*> requiredField "destination_port" (port.validate strict) d
    <*> optionalField "protocol" (optionalStr.validate strict) d
    <*> optionalField "process_id" (optionalNonNegativeInteger.validate strict) d
    <*> optionalField "process_image" (optionalStr.validate strict) d

theorem fields_eq_ok {strict : Bool} {d : Dict} {c : NetworkContext} :
    fields strict d = ok c ↔
      requiredField "source_ip" (Codec.ip.validate strict) d = ok c.sourceIp ∧
      requiredField "source_port" (port.validate strict) d = ok c.sourcePort ∧
      requiredField "destination_ip" (Codec.ip.validate strict) d = ok c.destinationIp ∧
      requiredField "destination_port" (port.validate strict) d = ok c.destinationPort ∧
      optionalField "protocol" (optionalStr.validate strict) d = ok c.protocol ∧
      optionalField "process_id" (optionalNonNegativeInteger.validate strict) d = ok c.processId ∧
      optionalField "process_image" (optionalStr.validate strict) d = ok c.processImage := by
  rw [fields, map₇_eq_ok]
  constructor
  · rintro ⟨_, _, _, _, _, _, _, h₁, h₂, h₃, h₄, h₅, h₆, h₇, rfl⟩
    exact ⟨h₁, h₂, h₃, h₄, h₅, h₆, h₇⟩
  · rintro ⟨h₁, h₂, h₃, h₄, h₅, h₆, h₇⟩
    exact ⟨_, _, _, _, _, _, _, h₁, h₂, h₃, h₄, h₅, h₆, h₇, rfl⟩

theorem nodup_slots (c : NetworkContext) : (c.slots.map (·.name)).Nodup := by
  simp [slots, Slot.given, Slot.field]

/-- `class NetworkContext`. -/
def modelClass : ModelClass NetworkContext where
  name := "NetworkContext"
  fieldNames := ["source_ip", "source_port", "destination_ip", "destination_port", "protocol", "process_id",
    "process_image"]
  slots := slots
  fields := fields
  nodup := by decide
  names_slots _ := rfl
  fields_setItems strict c := by
    have hn := c.nodup_slots
    rw [fields, required_given hn (a := c.sourceIp) rfl,
      required_given hn (a := c.sourcePort) rfl,
      required_given hn (a := c.destinationIp) rfl,
      required_given hn (a := c.destinationPort) rfl,
      optional_field hn (f := c.protocol) rfl,
      optional_field hn (f := c.processId) rfl,
      optional_field hn (f := c.processImage) rfl]
    rfl
  eq_slots c := by simp [slots, Slot.given, Slot.field]

theorem clean_fields (strict : Bool) (d : Dict) : Clean (fields strict d) := by
  simp [fields, clean_required, clean_optional]

theorem lookup_of_fields {strict : Bool} {d : Dict} (h : IsOk (fields strict d)) :
    d.lookup "source_ip" ≠ none := by
  simp only [fields, isOk_seq, isOk_map, and_assoc] at h
  exact lookup_of_required h.1

end NetworkContext

/-- Normalized context for a file event. -/
structure FileContext where
  targetPath : NonEmptyString
  processId : ModelField (Option NonNegativeInteger)
  processImage : ModelField (Option String)

namespace FileContext

/-- The fields of the instance in the order of the class. -/
def slots (c : FileContext) : List Slot :=
  [.given "target_path" nonEmptyString c.targetPath,
    .field "process_id" optionalNonNegativeInteger none c.processId,
    .field "process_image" optionalStr none c.processImage]

/-- The fields of a dict, in the order of the class. -/
def fields (strict : Bool) (d : Dict) : Validation FileContext :=
  FileContext.mk <$> requiredField "target_path" (nonEmptyString.validate strict) d
    <*> optionalField "process_id" (optionalNonNegativeInteger.validate strict) d
    <*> optionalField "process_image" (optionalStr.validate strict) d

theorem fields_eq_ok {strict : Bool} {d : Dict} {c : FileContext} :
    fields strict d = ok c ↔
      requiredField "target_path" (nonEmptyString.validate strict) d = ok c.targetPath ∧
      optionalField "process_id" (optionalNonNegativeInteger.validate strict) d = ok c.processId ∧
      optionalField "process_image" (optionalStr.validate strict) d = ok c.processImage := by
  simp only [fields, seq_eq_ok, map_eq_ok]
  constructor
  · rintro ⟨_, _, ⟨_, _, ⟨_, h₁, rfl⟩, h₂, rfl⟩, h₃, rfl⟩
    exact ⟨h₁, h₂, h₃⟩
  · rintro ⟨h₁, h₂, h₃⟩
    exact ⟨_, _, ⟨_, _, ⟨_, h₁, rfl⟩, h₂, rfl⟩, h₃, rfl⟩

theorem nodup_slots (c : FileContext) : (c.slots.map (·.name)).Nodup := by
  simp [slots, Slot.given, Slot.field]

/-- `class FileContext`. -/
def modelClass : ModelClass FileContext where
  name := "FileContext"
  fieldNames := ["target_path", "process_id", "process_image"]
  slots := slots
  fields := fields
  nodup := by decide
  names_slots _ := rfl
  fields_setItems strict c := by
    have hn := c.nodup_slots
    rw [fields, required_given hn (a := c.targetPath) rfl,
      optional_field hn (f := c.processId) rfl,
      optional_field hn (f := c.processImage) rfl]
    rfl
  eq_slots c := by simp [slots, Slot.given, Slot.field]

theorem clean_fields (strict : Bool) (d : Dict) : Clean (fields strict d) := by
  simp [fields, clean_required, clean_optional]

theorem lookup_of_fields {strict : Bool} {d : Dict} (h : IsOk (fields strict d)) :
    d.lookup "target_path" ≠ none := by
  simp only [fields, isOk_seq, isOk_map, and_assoc] at h
  exact lookup_of_required h.1

end FileContext

/-- Normalized context for a DNS query event. -/
structure DnsContext where
  queryName : NonEmptyString
  queryStatus : ModelField (Option String)
  queryResults : ModelField (Option String)
  processId : ModelField (Option NonNegativeInteger)
  processImage : ModelField (Option String)

namespace DnsContext

/-- The fields of the instance in the order of the class. -/
def slots (c : DnsContext) : List Slot :=
  [.given "query_name" nonEmptyString c.queryName,
    .field "query_status" optionalStr none c.queryStatus,
    .field "query_results" optionalStr none c.queryResults,
    .field "process_id" optionalNonNegativeInteger none c.processId,
    .field "process_image" optionalStr none c.processImage]

/-- The fields of a dict, in the order of the class. -/
def fields (strict : Bool) (d : Dict) : Validation DnsContext :=
  DnsContext.mk <$> requiredField "query_name" (nonEmptyString.validate strict) d
    <*> optionalField "query_status" (optionalStr.validate strict) d
    <*> optionalField "query_results" (optionalStr.validate strict) d
    <*> optionalField "process_id" (optionalNonNegativeInteger.validate strict) d
    <*> optionalField "process_image" (optionalStr.validate strict) d

theorem fields_eq_ok {strict : Bool} {d : Dict} {c : DnsContext} :
    fields strict d = ok c ↔
      requiredField "query_name" (nonEmptyString.validate strict) d = ok c.queryName ∧
      optionalField "query_status" (optionalStr.validate strict) d = ok c.queryStatus ∧
      optionalField "query_results" (optionalStr.validate strict) d = ok c.queryResults ∧
      optionalField "process_id" (optionalNonNegativeInteger.validate strict) d = ok c.processId ∧
      optionalField "process_image" (optionalStr.validate strict) d = ok c.processImage := by
  simp only [fields, seq_eq_ok, map_eq_ok]
  constructor
  · rintro ⟨_, _, ⟨_, _, ⟨_, _, ⟨_, _, ⟨_, h₁, rfl⟩, h₂, rfl⟩, h₃, rfl⟩, h₄, rfl⟩, h₅, rfl⟩
    exact ⟨h₁, h₂, h₃, h₄, h₅⟩
  · rintro ⟨h₁, h₂, h₃, h₄, h₅⟩
    exact ⟨_, _, ⟨_, _, ⟨_, _, ⟨_, _, ⟨_, h₁, rfl⟩, h₂, rfl⟩, h₃, rfl⟩, h₄, rfl⟩, h₅, rfl⟩

theorem nodup_slots (c : DnsContext) : (c.slots.map (·.name)).Nodup := by
  simp [slots, Slot.given, Slot.field]

/-- `class DnsContext`. -/
def modelClass : ModelClass DnsContext where
  name := "DnsContext"
  fieldNames := ["query_name", "query_status", "query_results", "process_id", "process_image"]
  slots := slots
  fields := fields
  nodup := by decide
  names_slots _ := rfl
  fields_setItems strict c := by
    have hn := c.nodup_slots
    rw [fields, required_given hn (a := c.queryName) rfl,
      optional_field hn (f := c.queryStatus) rfl,
      optional_field hn (f := c.queryResults) rfl,
      optional_field hn (f := c.processId) rfl,
      optional_field hn (f := c.processImage) rfl]
    rfl
  eq_slots c := by simp [slots, Slot.given, Slot.field]

theorem clean_fields (strict : Bool) (d : Dict) : Clean (fields strict d) := by
  simp [fields, clean_required, clean_optional]

end DnsContext

/-! ### The union of the contexts -/

/-- `EventContext`: an untagged union of the five context classes. -/
inductive EventContext where
  | authentication (c : AuthenticationContext)
  | process (c : ProcessContext)
  | network (c : NetworkContext)
  | file (c : FileContext)
  | dns (c : DnsContext)

namespace EventContext

/-- The category whose context type the instance has. -/
def category : EventContext → EventCategory
  | authentication _ => .authentication
  | process _ => .process
  | network _ => .network
  | file _ => .file
  | dns _ => .dns

/-- The name of the context type of a category. -/
def typeName : EventCategory → String
  | .authentication => "AuthenticationContext"
  | .process => "ProcessContext"
  | .network => "NetworkContext"
  | .file => "FileContext"
  | .dns => "DnsContext"

/-- The fields of the context that it is. -/
def slots : EventContext → List Slot
  | authentication c => c.slots
  | process c => c.slots
  | network c => c.slots
  | file c => c.slots
  | dns c => c.slots

/-- The instance of the context that it is. -/
def toValue : EventContext → Value
  | authentication c => AuthenticationContext.modelClass.toValue c
  | process c => ProcessContext.modelClass.toValue c
  | network c => NetworkContext.modelClass.toValue c
  | file c => FileContext.modelClass.toValue c
  | dns c => DnsContext.modelClass.toValue c

/-- The members of the union in the order of the annotation. -/
def modelValidate (strict : Bool) : Validator EventContext :=
  union
    [AuthenticationContext.modelClass.member authentication strict,
      ProcessContext.modelClass.member process strict,
      NetworkContext.modelClass.member network strict,
      FileContext.modelClass.member file strict,
      DnsContext.modelClass.member dns strict]

section Skip

variable {α : Type} {cls : ModelClass α} {strict : Bool} {vs : List (Validator EventContext)}
  {c : α} {b : EventContext}

theorem skip_authentication (hname : "outcome" ∉ cls.fieldNames)
    (h : union vs (cls.toValue c).dump = ok b) :
    union (AuthenticationContext.modelClass.member authentication strict :: vs) (cls.toValue c).dump =
      ok b :=
  ModelClass.union_skip _ cls (AuthenticationContext.clean_fields strict)
    (fun _ => AuthenticationContext.lookup_of_fields) hname c h

theorem skip_process (hname : "image" ∉ cls.fieldNames) (h : union vs (cls.toValue c).dump = ok b) :
    union (ProcessContext.modelClass.member process strict :: vs) (cls.toValue c).dump = ok b :=
  ModelClass.union_skip _ cls (ProcessContext.clean_fields strict)
    (fun _ => ProcessContext.lookup_of_fields) hname c h

theorem skip_network (hname : "source_ip" ∉ cls.fieldNames)
    (h : union vs (cls.toValue c).dump = ok b) :
    union (NetworkContext.modelClass.member network strict :: vs) (cls.toValue c).dump = ok b :=
  ModelClass.union_skip _ cls (NetworkContext.clean_fields strict)
    (fun _ => NetworkContext.lookup_of_fields) hname c h

theorem skip_file (hname : "target_path" ∉ cls.fieldNames)
    (h : union vs (cls.toValue c).dump = ok b) :
    union (FileContext.modelClass.member file strict :: vs) (cls.toValue c).dump = ok b :=
  ModelClass.union_skip _ cls (FileContext.clean_fields strict)
    (fun _ => FileContext.lookup_of_fields) hname c h

end Skip

/-- **An instance of a context class reads back in the same class.** -/
theorem reads_modelValidate (strict : Bool) : Reads (modelValidate strict) toValue := by
  intro c
  cases c with
  | authentication c => exact ModelClass.union_member _ _ strict _ c
  | process c => exact skip_authentication (by decide) (ModelClass.union_member _ _ strict _ c)
  | network c =>
    exact skip_authentication (by decide) (skip_process (by decide)
      (ModelClass.union_member _ _ strict _ c))
  | file c =>
    exact skip_authentication (by decide) (skip_process (by decide) (skip_network (by decide)
      (ModelClass.union_member _ _ strict _ c)))
  | dns c =>
    exact skip_authentication (by decide) (skip_process (by decide) (skip_network (by decide)
      (skip_file (by decide) (ModelClass.union_member _ _ strict _ c))))

/-- **An instance of a context class is taken as it is.** -/
theorem modelValidate_toValue (strict : Bool) (c : EventContext) :
    modelValidate strict c.toValue = ok c := by
  cases c with
  | authentication c => exact ModelClass.union_instance _ _ strict _ c
  | process c =>
    exact ModelClass.union_skip_instance _ _ (by decide) _ (ModelClass.union_instance _ _ strict _ c)
  | network c =>
    exact ModelClass.union_skip_instance _ _ (by decide) _ (ModelClass.union_skip_instance _ _ (by decide) _
      (ModelClass.union_instance _ _ strict _ c))
  | file c =>
    exact ModelClass.union_skip_instance _ _ (by decide) _ (ModelClass.union_skip_instance _ _ (by decide) _
      (ModelClass.union_skip_instance _ _ (by decide) _ (ModelClass.union_instance _ _ strict _ c)))
  | dns c =>
    exact ModelClass.union_skip_instance _ _ (by decide) _ (ModelClass.union_skip_instance _ _ (by decide) _
      (ModelClass.union_skip_instance _ _ (by decide) _ (ModelClass.union_skip_instance _ _ (by decide) _
        (ModelClass.union_instance _ _ strict _ c))))

theorem clean_classes (strict : Bool) (x : Value) :
    ∀ v ∈ [AuthenticationContext.modelClass.member authentication strict,
      ProcessContext.modelClass.member process strict,
      NetworkContext.modelClass.member network strict,
      FileContext.modelClass.member file strict,
      DnsContext.modelClass.member dns strict], Clean (v x) := by
  intro v hv
  simp only [List.mem_cons, List.not_mem_nil, or_false] at hv
  rcases hv with rfl | rfl | rfl | rfl | rfl
  · exact ModelClass.clean_member _ (AuthenticationContext.clean_fields strict) x
  · exact ModelClass.clean_member _ (ProcessContext.clean_fields strict) x
  · exact ModelClass.clean_member _ (NetworkContext.clean_fields strict) x
  · exact ModelClass.clean_member _ (FileContext.clean_fields strict) x
  · exact ModelClass.clean_member _ (DnsContext.clean_fields strict) x

@[simp] theorem clean_modelValidate (strict : Bool) (x : Value) : Clean (modelValidate strict x) :=
  clean_union (clean_classes strict x)

/-- The union as a field type. -/
def codec : Codec EventContext where
  validate := modelValidate
  enc := toValue
  reads := reads_modelValidate
  eq_self c := by cases c <;> exact (ModelClass.codec _).eq_self _

end EventContext

/-! ### The event -/

/-- The declared fields of a normalized event. -/
structure EventFields where
  source : EventSource
  provider : NonEmptyString
  eventId : PositiveInteger
  channel : NonEmptyString
  timestamp : AwareDatetime
  computer : NonEmptyString
  recordId : ModelField (Option NonNegativeInteger)
  category : EventCategory
  context : EventContext
  sourceData : ModelField StrDict

namespace EventFields

/-- The fields of the event in the order of the class. -/
def slots (e : EventFields) : List Slot :=
  [.given "source" (.enum EventSource) e.source,
    .given "provider" nonEmptyString e.provider,
    .given "event_id" positiveInteger e.eventId,
    .given "channel" nonEmptyString e.channel,
    .given "timestamp" .datetime e.timestamp,
    .given "computer" nonEmptyString e.computer,
    .field "record_id" optionalNonNegativeInteger none e.recordId,
    .given "category" (.enum EventCategory) e.category,
    .given "context" EventContext.codec e.context,
    .field "source_data" .strDict .empty e.sourceData]

/-- The fields of a dict as an event, in the order of the class. -/
def fields (strict : Bool) (d : Dict) : Validation EventFields :=
  EventFields.mk <$> requiredField "source" ((Codec.enum EventSource).validate strict) d
    <*> requiredField "provider" (nonEmptyString.validate strict) d
    <*> requiredField "event_id" (positiveInteger.validate strict) d
    <*> requiredField "channel" (nonEmptyString.validate strict) d
    <*> requiredField "timestamp" (Codec.datetime.validate strict) d
    <*> requiredField "computer" (nonEmptyString.validate strict) d
    <*> optionalField "record_id" (optionalNonNegativeInteger.validate strict) d
    <*> requiredField "category" ((Codec.enum EventCategory).validate strict) d
    <*> requiredField "context" (EventContext.codec.validate strict) d
    <*> optionalField "source_data" (Codec.strDict.validate strict) d

theorem nodup_slots (e : EventFields) : (e.slots.map (·.name)).Nodup := by
  simp [slots, Slot.given, Slot.field]

/-- What a valid dict says about the event. -/
theorem fields_eq_ok {strict : Bool} {d : Dict} {e : EventFields} :
    fields strict d = ok e ↔
      requiredField "source" ((Codec.enum EventSource).validate strict) d = ok e.source ∧
      requiredField "provider" (nonEmptyString.validate strict) d = ok e.provider ∧
      requiredField "event_id" (positiveInteger.validate strict) d = ok e.eventId ∧
      requiredField "channel" (nonEmptyString.validate strict) d = ok e.channel ∧
      requiredField "timestamp" (Codec.datetime.validate strict) d = ok e.timestamp ∧
      requiredField "computer" (nonEmptyString.validate strict) d = ok e.computer ∧
      optionalField "record_id" (optionalNonNegativeInteger.validate strict) d = ok e.recordId ∧
      requiredField "category" ((Codec.enum EventCategory).validate strict) d = ok e.category ∧
      requiredField "context" (EventContext.codec.validate strict) d = ok e.context ∧
      optionalField "source_data" (Codec.strDict.validate strict) d = ok e.sourceData := by
  simp only [fields, seq_eq_ok, map_eq_ok]
  constructor
  · rintro ⟨_, _, ⟨_, _, ⟨_, _, ⟨_, _, ⟨_, _, ⟨_, _, ⟨_, _, ⟨_, _, ⟨_, _, ⟨_, h₁, rfl⟩, h₂, rfl⟩, h₃, rfl⟩, h₄,
      rfl⟩, h₅, rfl⟩, h₆, rfl⟩, h₇, rfl⟩, h₈, rfl⟩, h₉, rfl⟩, h₁₀, rfl⟩
    exact ⟨h₁, h₂, h₃, h₄, h₅, h₆, h₇, h₈, h₉, h₁₀⟩
  · rintro ⟨h₁, h₂, h₃, h₄, h₅, h₆, h₇, h₈, h₉, h₁₀⟩
    exact ⟨_, _, ⟨_, _, ⟨_, _, ⟨_, _, ⟨_, _, ⟨_, _, ⟨_, _, ⟨_, _, ⟨_, _, ⟨_, h₁, rfl⟩, h₂, rfl⟩, h₃, rfl⟩, h₄,
      rfl⟩, h₅, rfl⟩, h₆, rfl⟩, h₇, rfl⟩, h₈, rfl⟩, h₉, rfl⟩, h₁₀, rfl⟩

/-- `class NormalizedEvent`, up to its validator. -/
def modelClass : ModelClass EventFields where
  name := "NormalizedEvent"
  fieldNames := ["source", "provider", "event_id", "channel", "timestamp", "computer", "record_id",
    "category", "context", "source_data"]
  slots := slots
  fields := fields
  nodup := by decide
  names_slots _ := rfl
  fields_setItems strict e := by
    have hn := e.nodup_slots
    rw [fields, required_given hn (a := e.source) rfl, required_given hn (a := e.provider) rfl,
      required_given hn (a := e.eventId) rfl, required_given hn (a := e.channel) rfl,
      required_given hn (a := e.timestamp) rfl, required_given hn (a := e.computer) rfl,
      optional_field hn (f := e.recordId) rfl, required_given hn (a := e.category) rfl,
      required_given hn (a := e.context) rfl, optional_field hn (f := e.sourceData) rfl]
    rfl
  eq_slots e := by simp [slots, Slot.given, Slot.field]

end EventFields

/-- A validated, source-independent security event. -/
structure NormalizedEvent extends EventFields where
  context_matches : context.category = category

namespace NormalizedEvent

/-- `validate_context_matches_category`; the fields have their declared types already. -/
def validateContextMatchesCategory (f : EventFields) : Validation NormalizedEvent :=
  if h : f.context.category = f.category then ok ⟨f, h⟩
  else error ("category '" ++ StrEnum.value f.category ++ "' requires " ++
    EventContext.typeName f.category)

theorem validateContextMatchesCategory_self (e : NormalizedEvent) :
    validateContextMatchesCategory e.toEventFields = ok e := by
  rw [validateContextMatchesCategory, dif_pos e.context_matches]

/-- Events as a field type: the fields, then the category against the context. -/
def codec : Codec NormalizedEvent :=
  EventFields.modelClass.codec.after validateContextMatchesCategory toEventFields
    validateContextMatchesCategory_self

/-- The timestamp of the event has an instant in the range of UTC datetimes. -/
def UtcRepresentable (event : NormalizedEvent) : Prop :=
  ∃ i, event.timestamp.val.astimezone = .ok i

/-- The text that the source retains beside the context. -/
def sourceDataDict (e : NormalizedEvent) : StrDict := e.sourceData.get .empty

/-- A logon of `alice`, without any further detail. -/
def exampleLogon : NormalizedEvent where
  source := .windowsSecurity
  provider := ⟨"Microsoft-Windows-Security-Auditing", by decide⟩
  eventId := ⟨4624, by decide⟩
  channel := ⟨"Security", by decide⟩
  timestamp := ⟨⟨⟨63900000000000000, by decide⟩, some .utc⟩, .zero, rfl⟩
  computer := ⟨"host", by decide⟩
  recordId := .unset
  category := .authentication
  context := .authentication
    { outcome := .success, user := .set (some "alice"), domain := .unset, logonType := .unset,
      sourceIp := .unset, sourcePort := .unset, workstation := .unset }
  sourceData := .unset
  context_matches := rfl

end NormalizedEvent

end SocLab
