import SocLab.Parsers.Columns
import SocLab.Parsers.Pipeline

/-!
# SocLab.Parsers.Shapes — the contexts of the supported events, by their columns

The columns of each context are listed here once more, without the code that reads them.  The theorems
`*Context_eq_ok` say that a context is built exactly when its fields are filled from its columns.
-/

namespace SocLab

open Py Py.Validation Logic

/-! ### The fields of a context whose items are known -/

section Items

variable {o₁ o₂ o₃ o₄ o₅ o₆ : Option String} {n₁ n₂ : Option Int}

theorem AuthenticationContext.modelValidate_items {outcome : AuthenticationOutcome}
    {c : AuthenticationContext} :
    modelClass.modelValidate false (.dict
      [("outcome", StrEnum.toValue outcome), ("user", .ofOption .str o₁), ("domain", .ofOption .str o₂),
        ("logon_type", .ofOption .int n₁), ("source_ip", .ofOption .str o₃),
        ("source_port", .ofOption .int n₂), ("workstation", .ofOption .str o₄)]) = ok c ↔
      c.outcome = outcome ∧ c.user = .set o₁ ∧ c.domain = .set o₂ ∧
        (∃ a, c.logonType = .set a ∧ a.map (·.val) = n₁) ∧
        (∃ a, c.sourceIp = .set a ∧
          (o₃ = none ∧ a = none ∨ ∃ s b, o₃ = some s ∧ a = some b ∧ ipAddress s = .ok b)) ∧
        (∃ a, c.sourcePort = .set a ∧ a.map (·.val) = n₂) ∧ c.workstation = .set o₄ := by
  have houtcome : (Codec.enum AuthenticationOutcome).validate false (StrEnum.toValue outcome) =
      ok c.outcome ↔ c.outcome = outcome := by
    show enumOf AuthenticationOutcome false (StrEnum.toValue outcome) = ok c.outcome ↔ _
    rw [enumOf_toValue, Validation.ok.injEq, eq_comm]
  refine (modelDict_iff fun k hk => hk).trans ?_
  show fields false _ = ok c ↔ _
  rw [fields_eq_ok, requiredField_of_lookup rfl, houtcome, optionalField_eq_ok_of_lookup rfl,
    optionalField_eq_ok_of_lookup rfl, optionalField_eq_ok_of_lookup rfl, optionalField_eq_ok_of_lookup rfl,
    optionalField_eq_ok_of_lookup rfl, optionalField_eq_ok_of_lookup rfl]
  simp only [optionalStr_eq_ok, optionalNonNegativeInteger_eq_ok, optionalPort_eq_ok, optionalIp_eq_ok,
    exists_eq_right]

theorem ProcessContext.modelValidate_items {image : String} {processId : Value} {c : ProcessContext} :
    modelClass.modelValidate false (.dict
      [("image", .str image), ("process_id", processId), ("command_line", .ofOption .str o₁),
        ("parent_process_id", .ofOption .int n₁), ("parent_image", .ofOption .str o₂),
        ("user", .ofOption .str o₃)]) = ok c ↔
      c.image.val = image ∧
        (∃ a, c.processId = .set a ∧ optionalNonNegativeInteger.validate false processId = ok a) ∧
        c.commandLine = .set o₁ ∧ (∃ a, c.parentProcessId = .set a ∧ a.map (·.val) = n₁) ∧
        c.parentImage = .set o₂ ∧ c.user = .set o₃ := by
  refine (modelDict_iff fun k hk => hk).trans ?_
  show fields false _ = ok c ↔ _
  rw [fields_eq_ok, requiredField_of_lookup rfl, nonEmptyString_eq_ok, optionalField_eq_ok_of_lookup rfl,
    optionalField_eq_ok_of_lookup rfl, optionalField_eq_ok_of_lookup rfl, optionalField_eq_ok_of_lookup rfl,
    optionalField_eq_ok_of_lookup rfl]
  simp only [optionalStr_eq_ok, optionalNonNegativeInteger_eq_ok, exists_eq_right]

theorem NetworkContext.modelValidate_items {sourceIp destinationIp : String}
    {sourcePort destinationPort : Int} {c : NetworkContext} :
    modelClass.modelValidate false (.dict
      [("source_ip", .str sourceIp), ("source_port", .int sourcePort), ("destination_ip", .str destinationIp),
        ("destination_port", .int destinationPort), ("protocol", .ofOption .str o₁),
        ("process_id", .ofOption .int n₁), ("process_image", .ofOption .str o₂)]) = ok c ↔
      ipAddress sourceIp = .ok c.sourceIp ∧ c.sourcePort.val = sourcePort ∧
        ipAddress destinationIp = .ok c.destinationIp ∧ c.destinationPort.val = destinationPort ∧
        c.protocol = .set o₁ ∧ (∃ a, c.processId = .set a ∧ a.map (·.val) = n₁) ∧
        c.processImage = .set o₂ := by
  refine (modelDict_iff fun k hk => hk).trans ?_
  show fields false _ = ok c ↔ _
  rw [fields_eq_ok, requiredField_of_lookup rfl, requiredField_of_lookup rfl, requiredField_of_lookup rfl,
    requiredField_of_lookup rfl, ip_eq_ok, ip_eq_ok, port_eq_ok, port_eq_ok,
    optionalField_eq_ok_of_lookup rfl, optionalField_eq_ok_of_lookup rfl, optionalField_eq_ok_of_lookup rfl]
  simp only [optionalStr_eq_ok, optionalNonNegativeInteger_eq_ok, exists_eq_right]

theorem FileContext.modelValidate_items {targetPath : String} {c : FileContext} :
    modelClass.modelValidate false (.dict
      [("target_path", .str targetPath), ("process_id", .ofOption .int n₁),
        ("process_image", .ofOption .str o₁)]) = ok c ↔
      c.targetPath.val = targetPath ∧ (∃ a, c.processId = .set a ∧ a.map (·.val) = n₁) ∧
        c.processImage = .set o₁ := by
  refine (modelDict_iff fun k hk => hk).trans ?_
  show fields false _ = ok c ↔ _
  rw [fields_eq_ok, requiredField_of_lookup rfl, nonEmptyString_eq_ok, optionalField_eq_ok_of_lookup rfl,
    optionalField_eq_ok_of_lookup rfl]
  simp only [optionalStr_eq_ok, optionalNonNegativeInteger_eq_ok, exists_eq_right]

theorem DnsContext.modelValidate_items {queryName : String} {c : DnsContext} :
    modelClass.modelValidate false (.dict
      [("query_name", .str queryName), ("query_status", .ofOption .str o₁),
        ("query_results", .ofOption .str o₂), ("process_id", .ofOption .int n₁),
        ("process_image", .ofOption .str o₃)]) = ok c ↔
      c.queryName.val = queryName ∧ c.queryStatus = .set o₁ ∧ c.queryResults = .set o₂ ∧
        (∃ a, c.processId = .set a ∧ a.map (·.val) = n₁) ∧ c.processImage = .set o₃ := by
  refine (modelDict_iff fun k hk => hk).trans ?_
  show fields false _ = ok c ↔ _
  rw [fields_eq_ok, requiredField_of_lookup rfl, nonEmptyString_eq_ok, optionalField_eq_ok_of_lookup rfl,
    optionalField_eq_ok_of_lookup rfl, optionalField_eq_ok_of_lookup rfl, optionalField_eq_ok_of_lookup rfl]
  simp only [optionalStr_eq_ok, optionalNonNegativeInteger_eq_ok, exists_eq_right]

end Items

/-- Values for the columns of a process, which both sources have under their own names. -/
theorem exists_processFills {data : StrDict} {columns : List Column} {n₁ n₂ n₃ n₄ n₅ n₆ : String}
    {hexadecimal : Bool}
    (hcolumns : columns = [⟨n₁, "image", .text, true⟩, ⟨n₂, "process_id", .number hexadecimal, true⟩,
      ⟨n₃, "command_line", .text, false⟩, ⟨n₄, "parent_process_id", .number hexadecimal, false⟩,
      ⟨n₅, "parent_image", .text, false⟩, ⟨n₆, "user", .text, false⟩])
    (h : ∀ c ∈ columns, ∃ v, c.value data = some v) :
    ∃ c : ProcessContext, List.Forall₂ (Column.Fills data) columns c.slots := by
  subst hcolumns
  simp only [List.forall_mem_cons] at h
  obtain ⟨himage, hprocessId, hcommandLine, hparentProcessId, hparentImage, huser, -⟩ := h
  obtain ⟨a₁, h₁⟩ := Column.typed_requiredText.exists_given himage
  obtain ⟨a₂, h₂⟩ := Column.typed_number.exists_field hprocessId
  obtain ⟨a₃, h₃⟩ := Column.typed_text.exists_field hcommandLine
  obtain ⟨a₄, h₄⟩ := Column.typed_number.exists_field hparentProcessId
  obtain ⟨a₅, h₅⟩ := Column.typed_text.exists_field hparentImage
  obtain ⟨a₆, h₆⟩ := Column.typed_text.exists_field huser
  exact ⟨⟨a₁, a₂, a₃, a₄, a₅, a₆⟩, .cons h₁ (.cons h₂ (.cons h₃ (.cons h₄ (.cons h₅ (.cons h₆ .nil)))))⟩

/-! ### Sysmon -/

namespace Sysmon

/-- Where a process event of Sysmon says what. -/
def processColumns : List Column :=
  [⟨"Image", "image", .text, true⟩,
    ⟨"ProcessId", "process_id", .number false, true⟩,
    ⟨"CommandLine", "command_line", .text, false⟩,
    ⟨"ParentProcessId", "parent_process_id", .number false, false⟩,
    ⟨"ParentImage", "parent_image", .text, false⟩,
    ⟨"User", "user", .text, false⟩]

/-- Where a network event says what. -/
def networkColumns : List Column :=
  [⟨"SourceIp", "source_ip", .ip, true⟩,
    ⟨"SourcePort", "source_port", .port, true⟩,
    ⟨"DestinationIp", "destination_ip", .ip, true⟩,
    ⟨"DestinationPort", "destination_port", .port, true⟩,
    ⟨"Protocol", "protocol", .text, false⟩,
    ⟨"ProcessId", "process_id", .number false, false⟩,
    ⟨"Image", "process_image", .text, false⟩]

/-- Where a file event says what. -/
def fileColumns : List Column :=
  [⟨"TargetFilename", "target_path", .text, true⟩,
    ⟨"ProcessId", "process_id", .number false, false⟩,
    ⟨"Image", "process_image", .text, false⟩]

/-- Where a DNS event says what. -/
def dnsColumns : List Column :=
  [⟨"QueryName", "query_name", .text, true⟩,
    ⟨"QueryStatus", "query_status", .text, false⟩,
    ⟨"QueryResults", "query_results", .text, false⟩,
    ⟨"ProcessId", "process_id", .number false, false⟩,
    ⟨"Image", "process_image", .text, false⟩]

section Contexts

variable {data : StrDict} {name key : String}

theorem decimalInteger_eq_ok {name : String} (text : String) (n : Int) :
    decimalInteger text name = .ok n ↔ natural 10 text = some n := nonNegativeInteger_eq_ok

theorem optionalInteger_iff {a : Option NonNegativeInteger} :
    (⟨name, key, .number false, false⟩ : Column).value data = some (optionalNonNegativeInteger.enc a) ↔
      optionalInteger data name = .ok (a.map (·.val)) := value_number decimalInteger_eq_ok

theorem processContext_eq_ok {c : ProcessContext} :
    processContext data = .ok c ↔ List.Forall₂ (Column.Fills data) processColumns c.slots := by
  have hrequired {a : Option NonNegativeInteger} :
      (⟨"ProcessId", "process_id", .number false, true⟩ : Column).value data =
          some (optionalNonNegativeInteger.enc a) ↔
        ∃ n, requiredInteger data "ProcessId" = .ok n ∧ a.map (·.val) = some n := by
    rw [value_requiredNumber decimalInteger_eq_ok]
    simp only [requiredInteger, requiredText, bind_eq_ok]
    tauto
  simp only [processContext, bind_eq_ok, validated_eq_ok, ProcessContext.modelValidate_items,
    optionalNonNegativeInteger_int, ProcessContext.slots, processColumns, List.forall₂_cons, fills_given,
    fills_field, value_text, value_requiredText, optionalInteger_iff, hrequired, true_and, exists_eq_right,
    List.Forall₂.nil, and_true]
  constructor
  · rintro ⟨_, himage, n, hn, _, hparent, rfl, ⟨a, ha, han⟩, hcommandLine, ⟨b, hb, rfl⟩, hparentImage, huser⟩
    exact ⟨himage, ⟨a, ha, n, hn, han⟩, hcommandLine, ⟨b, hb, hparent⟩, hparentImage, huser⟩
  · rintro ⟨himage, ⟨a, ha, n, hn, han⟩, hcommandLine, ⟨b, hb, hparent⟩, hparentImage, huser⟩
    exact ⟨_, himage, n, hn, _, hparent, rfl, ⟨a, ha, han⟩, hcommandLine, ⟨b, hb, rfl⟩, hparentImage, huser⟩

theorem networkContext_eq_ok {c : NetworkContext} :
    networkContext data = .ok c ↔ List.Forall₂ (Column.Fills data) networkColumns c.slots := by
  have hrequired {name key : String} {a : Port} :
      (⟨name, key, .port, true⟩ : Column).value data = some (port.enc a) ↔
        requiredInteger data name = .ok a.val := by
    rw [value_requiredPort decimalInteger_eq_ok, requiredInteger, bind_eq_ok]
    rfl
  simp only [networkContext, bind_eq_ok, validated_eq_ok, NetworkContext.modelValidate_items,
    NetworkContext.slots, networkColumns, List.forall₂_cons, fills_given, fills_field, value_text,
    value_requiredIp, optionalInteger_iff, hrequired, true_and, exists_eq_right, List.Forall₂.nil, and_true]
  constructor
  · rintro ⟨s, hs, _, hsourcePort, t, ht, _, hdestinationPort, _, hprocessId, hsip, rfl, hdip, rfl, hprotocol,
      ⟨a, ha, rfl⟩, himage⟩
    exact ⟨⟨s, hs, hsip⟩, hsourcePort, ⟨t, ht, hdip⟩, hdestinationPort, hprotocol, ⟨a, ha, hprocessId⟩,
      himage⟩
  · rintro ⟨⟨s, hs, hsip⟩, hsourcePort, ⟨t, ht, hdip⟩, hdestinationPort, hprotocol, ⟨a, ha, hprocessId⟩,
      himage⟩
    exact ⟨s, hs, _, hsourcePort, t, ht, _, hdestinationPort, _, hprocessId, hsip, rfl, hdip, rfl, hprotocol,
      ⟨a, ha, rfl⟩, himage⟩

theorem fileContext_eq_ok {c : FileContext} :
    fileContext data = .ok c ↔ List.Forall₂ (Column.Fills data) fileColumns c.slots := by
  simp only [fileContext, bind_eq_ok, validated_eq_ok, FileContext.modelValidate_items, FileContext.slots,
    fileColumns, List.forall₂_cons, fills_given, fills_field, value_text, value_requiredText,
    optionalInteger_iff, true_and, exists_eq_right, List.Forall₂.nil, and_true]
  constructor
  · rintro ⟨_, hpath, _, hprocessId, rfl, ⟨a, ha, rfl⟩, himage⟩
    exact ⟨hpath, ⟨a, ha, hprocessId⟩, himage⟩
  · rintro ⟨hpath, ⟨a, ha, hprocessId⟩, himage⟩
    exact ⟨_, hpath, _, hprocessId, rfl, ⟨a, ha, rfl⟩, himage⟩

theorem dnsContext_eq_ok {c : DnsContext} :
    dnsContext data = .ok c ↔ List.Forall₂ (Column.Fills data) dnsColumns c.slots := by
  simp only [dnsContext, bind_eq_ok, validated_eq_ok, DnsContext.modelValidate_items, DnsContext.slots,
    dnsColumns, List.forall₂_cons, fills_given, fills_field, value_text, value_requiredText,
    optionalInteger_iff, true_and, exists_eq_right, List.Forall₂.nil, and_true]
  constructor
  · rintro ⟨_, hname, _, hprocessId, rfl, hstatus, hresults, ⟨a, ha, rfl⟩, himage⟩
    exact ⟨hname, hstatus, hresults, ⟨a, ha, hprocessId⟩, himage⟩
  · rintro ⟨hname, hstatus, hresults, ⟨a, ha, hprocessId⟩, himage⟩
    exact ⟨_, hname, _, hprocessId, rfl, hstatus, hresults, ⟨a, ha, rfl⟩, himage⟩

/-! When every column has a value, there is a context. -/

theorem exists_processContext (h : ∀ c ∈ processColumns, ∃ v, c.value data = some v) :
    ∃ c, processContext data = .ok c := by
  obtain ⟨c, hc⟩ := exists_processFills rfl h
  exact ⟨c, processContext_eq_ok.mpr hc⟩

theorem exists_networkContext (h : ∀ c ∈ networkColumns, ∃ v, c.value data = some v) :
    ∃ c, networkContext data = .ok c := by
  simp only [networkColumns, List.forall_mem_cons] at h
  obtain ⟨hsourceIp, hsourcePort, hdestinationIp, hdestinationPort, hprotocol, hprocessId, himage, -⟩ := h
  obtain ⟨a₁, h₁⟩ := Column.typed_requiredIp.exists_given hsourceIp
  obtain ⟨a₂, h₂⟩ := Column.typed_requiredPort.exists_given hsourcePort
  obtain ⟨a₃, h₃⟩ := Column.typed_requiredIp.exists_given hdestinationIp
  obtain ⟨a₄, h₄⟩ := Column.typed_requiredPort.exists_given hdestinationPort
  obtain ⟨a₅, h₅⟩ := Column.typed_text.exists_field hprotocol
  obtain ⟨a₆, h₆⟩ := Column.typed_number.exists_field hprocessId
  obtain ⟨a₇, h₇⟩ := Column.typed_text.exists_field himage
  exact ⟨⟨a₁, a₂, a₃, a₄, a₅, a₆, a₇⟩, networkContext_eq_ok.mpr
    (.cons h₁ (.cons h₂ (.cons h₃ (.cons h₄ (.cons h₅ (.cons h₆ (.cons h₇ .nil)))))))⟩

theorem exists_fileContext (h : ∀ c ∈ fileColumns, ∃ v, c.value data = some v) :
    ∃ c, fileContext data = .ok c := by
  simp only [fileColumns, List.forall_mem_cons] at h
  obtain ⟨htargetPath, hprocessId, himage, -⟩ := h
  obtain ⟨a₁, h₁⟩ := Column.typed_requiredText.exists_given htargetPath
  obtain ⟨a₂, h₂⟩ := Column.typed_number.exists_field hprocessId
  obtain ⟨a₃, h₃⟩ := Column.typed_text.exists_field himage
  exact ⟨⟨a₁, a₂, a₃⟩, fileContext_eq_ok.mpr (.cons h₁ (.cons h₂ (.cons h₃ .nil)))⟩

theorem exists_dnsContext (h : ∀ c ∈ dnsColumns, ∃ v, c.value data = some v) :
    ∃ c, dnsContext data = .ok c := by
  simp only [dnsColumns, List.forall_mem_cons] at h
  obtain ⟨hqueryName, hqueryStatus, hqueryResults, hprocessId, himage, -⟩ := h
  obtain ⟨a₁, h₁⟩ := Column.typed_requiredText.exists_given hqueryName
  obtain ⟨a₂, h₂⟩ := Column.typed_text.exists_field hqueryStatus
  obtain ⟨a₃, h₃⟩ := Column.typed_text.exists_field hqueryResults
  obtain ⟨a₄, h₄⟩ := Column.typed_number.exists_field hprocessId
  obtain ⟨a₅, h₅⟩ := Column.typed_text.exists_field himage
  exact ⟨⟨a₁, a₂, a₃, a₄, a₅⟩, dnsContext_eq_ok.mpr
    (.cons h₁ (.cons h₂ (.cons h₃ (.cons h₄ (.cons h₅ .nil)))))⟩

end Contexts

end Sysmon

/-! ### Windows Security -/

namespace WindowsSecurity

/-- Where a logon event says what. -/
def authenticationColumns : List Column :=
  [⟨"TargetUserName", "user", .text, false⟩,
    ⟨"TargetDomainName", "domain", .text, false⟩,
    ⟨"LogonType", "logon_type", .number false, false⟩,
    ⟨"IpAddress", "source_ip", .ip, false⟩,
    ⟨"IpPort", "source_port", .port, false⟩,
    ⟨"WorkstationName", "workstation", .text, false⟩]

/-- Where a process event of the Security log says what. -/
def processColumns : List Column :=
  [⟨"NewProcessName", "image", .text, true⟩,
    ⟨"NewProcessId", "process_id", .number true, true⟩,
    ⟨"CommandLine", "command_line", .text, false⟩,
    ⟨"ProcessId", "parent_process_id", .number true, false⟩,
    ⟨"ParentProcessName", "parent_image", .text, false⟩,
    ⟨"SubjectUserName", "user", .text, false⟩]

section Contexts

variable {data : StrDict}

theorem parseNonNegativeInteger_eq_ok {name : String} (text : String) (n : Int) :
    parseNonNegativeInteger 10 text name = .ok n ↔ natural 10 text = some n := nonNegativeInteger_eq_ok

theorem windowsInteger_eq_ok {name : String} (text : String) (n : Int) :
    windowsInteger text name = .ok n ↔ natural (numberBase true text) text = some n := by
  have hbase : numberBase true text =
      if startsWith text "0x" || startsWith text "0X" then 16 else 10 := by
    rw [numberBase, Bool.true_and]
  rw [hbase]
  exact nonNegativeInteger_eq_ok

/-- The outcome stands before the fields that have a column. -/
theorem authenticationContext_eq_ok {outcome : AuthenticationOutcome} {c : AuthenticationContext} :
    authenticationContext data outcome = .ok c ↔
      c.outcome = outcome ∧ List.Forall₂ (Column.Fills data) authenticationColumns c.slots.tail := by
  have hnumber {name key : String} {a : Option NonNegativeInteger} :
      (⟨name, key, .number false, false⟩ : Column).value data = some (optionalNonNegativeInteger.enc a) ↔
        optionalDecimalInteger data name = .ok (a.map (·.val)) := value_number parseNonNegativeInteger_eq_ok
  have hport {name key : String} {a : Option Port} :
      (⟨name, key, .port, false⟩ : Column).value data = some (optionalPort.enc a) ↔
        optionalDecimalInteger data name = .ok (a.map (·.val)) := value_port parseNonNegativeInteger_eq_ok
  simp only [authenticationContext, bind_eq_ok, validated_eq_ok, AuthenticationContext.modelValidate_items,
    AuthenticationContext.slots, List.tail_cons, authenticationColumns, List.forall₂_cons, fills_field,
    value_text, value_ip, hnumber, hport, true_and, exists_eq_right, List.Forall₂.nil, and_true]
  constructor
  · rintro ⟨_, hlogonType, _, hport, houtcome, huser, hdomain, ⟨a, ha, rfl⟩, hip, ⟨b, hb, rfl⟩, hworkstation⟩
    exact ⟨houtcome, huser, hdomain, ⟨a, ha, hlogonType⟩, hip, ⟨b, hb, hport⟩, hworkstation⟩
  · rintro ⟨houtcome, huser, hdomain, ⟨a, ha, hlogonType⟩, hip, ⟨b, hb, hport⟩, hworkstation⟩
    exact ⟨_, hlogonType, _, hport, houtcome, huser, hdomain, ⟨a, ha, rfl⟩, hip, ⟨b, hb, rfl⟩, hworkstation⟩

theorem processContext_eq_ok {c : ProcessContext} :
    processContext data = .ok c ↔ List.Forall₂ (Column.Fills data) processColumns c.slots := by
  have hnumber {name key : String} {a : Option NonNegativeInteger} :
      (⟨name, key, .number true, false⟩ : Column).value data = some (optionalNonNegativeInteger.enc a) ↔
        optionalWindowsInteger data name = .ok (a.map (·.val)) := value_number windowsInteger_eq_ok
  simp only [processContext, bind_eq_ok, validated_eq_ok, ProcessContext.modelValidate_items,
    optionalNonNegativeInteger_int, ProcessContext.slots, processColumns, List.forall₂_cons, fills_given,
    fills_field, value_text, value_requiredText, value_requiredNumber windowsInteger_eq_ok, hnumber, true_and,
    exists_eq_right, List.Forall₂.nil, and_true]
  constructor
  · rintro ⟨_, himage, text, htext, n, hn, _, hparent, rfl, ⟨a, ha, han⟩, hcommandLine, ⟨b, hb, rfl⟩,
      hparentImage, huser⟩
    exact ⟨himage, ⟨a, ha, text, n, htext, hn, han⟩, hcommandLine, ⟨b, hb, hparent⟩, hparentImage, huser⟩
  · rintro ⟨himage, ⟨a, ha, text, n, htext, hn, han⟩, hcommandLine, ⟨b, hb, hparent⟩, hparentImage, huser⟩
    exact ⟨_, himage, text, htext, n, hn, _, hparent, rfl, ⟨a, ha, han⟩, hcommandLine, ⟨b, hb, rfl⟩,
      hparentImage, huser⟩

theorem exists_authenticationContext (outcome : AuthenticationOutcome)
    (h : ∀ c ∈ authenticationColumns, ∃ v, c.value data = some v) :
    ∃ c, authenticationContext data outcome = .ok c := by
  simp only [authenticationColumns, List.forall_mem_cons] at h
  obtain ⟨huser, hdomain, hlogonType, hsourceIp, hsourcePort, hworkstation, -⟩ := h
  obtain ⟨a₁, h₁⟩ := Column.typed_text.exists_field huser
  obtain ⟨a₂, h₂⟩ := Column.typed_text.exists_field hdomain
  obtain ⟨a₃, h₃⟩ := Column.typed_number.exists_field hlogonType
  obtain ⟨a₄, h₄⟩ := Column.typed_ip.exists_field hsourceIp
  obtain ⟨a₅, h₅⟩ := Column.typed_port.exists_field hsourcePort
  obtain ⟨a₆, h₆⟩ := Column.typed_text.exists_field hworkstation
  exact ⟨⟨outcome, a₁, a₂, a₃, a₄, a₅, a₆⟩, authenticationContext_eq_ok.mpr
    ⟨rfl, .cons h₁ (.cons h₂ (.cons h₃ (.cons h₄ (.cons h₅ (.cons h₆ .nil)))))⟩⟩

theorem exists_processContext (h : ∀ c ∈ processColumns, ∃ v, c.value data = some v) :
    ∃ c, processContext data = .ok c := by
  obtain ⟨c, hc⟩ := exists_processFills rfl h
  exact ⟨c, processContext_eq_ok.mpr hc⟩

end Contexts

end WindowsSecurity

end SocLab
