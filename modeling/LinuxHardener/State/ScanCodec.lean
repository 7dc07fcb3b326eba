import LinuxHardener.Lib.JsonRecord
import LinuxHardener.Core.Exceptions
import LinuxHardener.Compliance.Evidence

/-
  The columns a scan result is spread over, and what is read back from them.

  Correspondence (Rust ↔ Lean):
    `hardener_types::{Finding, ScanResult}` ↔ `Finding`, `ScanResult`, with all their fields
    the derived `Serialize`, `Deserialize`  ↔ `…Json`, `…Of`
    `category_to_str`, `str_to_category`, `severity_to_str`, `str_to_severity` ↔ the same in camel case

  What is proved: every column reads back as what was written to it (`parse_…`), the
  three outcomes of an exception through their two columns (`exceptionOf_columns`) and a
  duration through a signed column (`duration_column`).
-/
namespace LinuxHardener.State.ScanHistory

open LineText (Chars)
open Compliance (PluginId FindingCategory UncheckedBlocker UncheckedCheck SkipReason ComplianceFramework ComplianceMapping)
open Core (Severity FindingPolicyException DeclineReason FindingExceptionDeclined ExceptionOutcome)
open Json (member optMember memberOr strOf boolOf itemsOf writeOptional named items_map JsonReader)

structure Finding where
  findingCategory : FindingCategory
  findingCurrentValue : String
  findingDescription : String
  findingExplanation : String
  findingId : String
  findingImpact : String
  findingRecommendedValue : String
  findingRemediationSteps : List String
  findingSeverity : Severity
  findingTitle : String
  findingCompliance : List ComplianceMapping
  findingException : ExceptionOutcome
  findingExceptionKey : Option String
  deriving DecidableEq, Repr

structure ScanResult where
  scanPluginId : PluginId
  scanSuccess : Bool
  scanFindings : List Finding
  scanUnchecked : List UncheckedCheck
  scanDurationUs : UInt64
  scanError : Option String
  scanSkipped : Option SkipReason
  deriving DecidableEq, Repr

/-! ## Words -/

def categoryToStr : FindingCategory → String
  | .audit => "audit"
  | .authentication => "authentication"
  | .cryptography => "cryptography"
  | .fileSystem => "filesystem"
  | .kernel => "kernel"
  | .mandatoryAccessControl => "mac"
  | .network => "network"
  | .services => "services"

def strToCategory : String → FindingCategory
  | "audit" => .audit
  | "authentication" => .authentication
  | "cryptography" => .cryptography
  | "filesystem" => .fileSystem
  | "kernel" => .kernel
  | "mac" => .mandatoryAccessControl
  | "network" => .network
  | "services" => .services
  | _ => .services

@[simp] theorem strToCategory_categoryToStr (c : FindingCategory) : strToCategory (categoryToStr c) = c := by
  cases c <;> rfl

def severityToStr : Severity → String
  | .info => "info"
  | .low => "low"
  | .medium => "medium"
  | .high => "high"
  | .critical => "critical"

def strToSeverity : String → Severity
  | "info" => .info
  | "low" => .low
  | "medium" => .medium
  | "high" => .high
  | "critical" => .critical
  | _ => .info

@[simp] theorem strToSeverity_severityToStr (s : Severity) : strToSeverity (severityToStr s) = s := by
  cases s <;> rfl

/-- The variant's name, as it is serialised. -/
def categoryName : FindingCategory → String
  | .audit => "Audit"
  | .authentication => "Authentication"
  | .cryptography => "Cryptography"
  | .fileSystem => "FileSystem"
  | .kernel => "Kernel"
  | .mandatoryAccessControl => "MandatoryAccessControl"
  | .network => "Network"
  | .services => "Services"

def frameworkName : ComplianceFramework → String
  | .cis => "CIS"
  | .hipaa => "HIPAA"
  | .iso27001 => "ISO27001"
  | .nist => "NIST"
  | .pcidss => "PCIDSS"
  | .stig => "STIG"
  | .gdpr => "GDPR"
  | .soc2 => "SOC2"
  | .nist800171 => "NIST800171"
  | .fedRAMP => "FedRAMP"

def blockerName : UncheckedBlocker → String
  | .privilege => "Privilege"
  | .environment => "Environment"
  | .unknown => "Unknown"

def skipReasonName : SkipReason → String
  | .disabledByConfig => "DisabledByConfig"

def categoryOf (x : Json) : Option FindingCategory :=
  (strOf x).bind (named [.audit, .authentication, .cryptography, .fileSystem, .kernel, .mandatoryAccessControl, .network,
    .services] categoryName)

def frameworkOf (x : Json) : Option ComplianceFramework := (strOf x).bind (named ComplianceFramework.all frameworkName)

def blockerOf (x : Json) : Option UncheckedBlocker :=
  (strOf x).bind (named [.privilege, .environment, .unknown] blockerName)

def skipReasonOf (x : Json) : Option SkipReason := (strOf x).bind (named [.disabledByConfig] skipReasonName)

@[simp] theorem categoryOf_name (c : FindingCategory) : categoryOf (.str (categoryName c)) = some c := by
  cases c <;> decide

@[simp] theorem frameworkOf_name (f : ComplianceFramework) : frameworkOf (.str (frameworkName f)) = some f := by
  cases f <;> decide

@[simp] theorem blockerOf_name (b : UncheckedBlocker) : blockerOf (.str (blockerName b)) = some b := by
  cases b <;> decide

@[simp] theorem skipReasonOf_name (r : SkipReason) : skipReasonOf (.str (skipReasonName r)) = some r := by
  cases r
  decide

/-! ## Records -/

def charsJson (cs : Chars) : Json := .str (String.ofList cs)

def charsOf (x : Json) : Option Chars := (strOf x).map String.toList

@[simp] theorem charsOf_charsJson (cs : Chars) : charsOf (charsJson cs) = some cs := by
  simp [charsOf, charsJson, strOf]

def mappingJson (m : ComplianceMapping) : Json :=
  .obj [("compliance_framework", .str (frameworkName m.complianceFramework)),
    ("compliance_control_id", .str m.complianceControlId),
    ("compliance_control_title", .str m.complianceControlTitle),
    ("compliance_section", writeOptional .str m.complianceSection)]

def mappingOf : Json → Option ComplianceMapping
  | .obj kvs => do
    let framework ← (member kvs "compliance_framework").bind frameworkOf
    let controlId ← (member kvs "compliance_control_id").bind strOf
    let controlTitle ← (member kvs "compliance_control_title").bind strOf
    let complianceSection ← optMember strOf kvs "compliance_section"
    some ⟨framework, controlId, controlTitle, complianceSection⟩
  | _ => none

@[simp] theorem mappingOf_mappingJson (m : ComplianceMapping) : mappingOf (mappingJson m) = some m := by
  obtain ⟨framework, controlId, controlTitle, complianceSection⟩ := m
  cases complianceSection <;> simp [mappingOf, mappingJson, member, optMember, writeOptional, strOf]

def mappingsJson (ms : List ComplianceMapping) : Json := .arr (ms.map mappingJson)

def mappingsOf : Json → Option (List ComplianceMapping) := itemsOf mappingOf

@[simp] theorem mappingsOf_mappingsJson (ms : List ComplianceMapping) : mappingsOf (mappingsJson ms) = some ms :=
  items_map mappingOf_mappingJson ms

def stepsJson (steps : List String) : Json := .arr (steps.map .str)

def stepsOf : Json → Option (List String) := itemsOf strOf

@[simp] theorem stepsOf_stepsJson (steps : List String) : stepsOf (stepsJson steps) = some steps := by
  have hstr : ∀ s : String, strOf (.str s) = some s := fun _ => rfl
  exact items_map hstr steps

def uncheckedJson (u : UncheckedCheck) : Json :=
  .obj [("unchecked_check_id", .str u.uncheckedCheckId), ("unchecked_title", .str u.uncheckedTitle),
    ("unchecked_category", .str (categoryName u.uncheckedCategory)), ("unchecked_reason", .str u.uncheckedReason),
    ("unchecked_blocker", .str (blockerName u.uncheckedBlocker)),
    ("unchecked_compliance", mappingsJson u.uncheckedCompliance)]

def uncheckedOf : Json → Option UncheckedCheck
  | .obj kvs => do
    let checkId ← (member kvs "unchecked_check_id").bind strOf
    let title ← (member kvs "unchecked_title").bind strOf
    let category ← (member kvs "unchecked_category").bind categoryOf
    let reason ← (member kvs "unchecked_reason").bind strOf
    let blocker ← memberOr .unknown blockerOf kvs "unchecked_blocker"
    let compliance ← (member kvs "unchecked_compliance").bind mappingsOf
    some ⟨checkId, title, category, reason, blocker, compliance⟩
  | _ => none

@[simp] theorem uncheckedOf_uncheckedJson (u : UncheckedCheck) : uncheckedOf (uncheckedJson u) = some u := by
  simp [uncheckedOf, uncheckedJson, member, memberOr, strOf]

def policyExceptionJson (e : FindingPolicyException) : Json :=
  .obj [("exception_allowed_value", charsJson e.allowedValue), ("exception_reason", charsJson e.reason),
    ("exception_approved_by", writeOptional charsJson e.approvedBy),
    ("exception_approved_date", writeOptional charsJson e.approvedDate),
    ("exception_ticket", writeOptional charsJson e.ticket), ("exception_expires", writeOptional charsJson e.expires),
    ("exception_is_expired", .bool e.isExpired)]

def policyExceptionOf : Json → Option FindingPolicyException
  | .obj kvs => do
    let allowedValue ← (member kvs "exception_allowed_value").bind charsOf
    let reason ← (member kvs "exception_reason").bind charsOf
    let approvedBy ← optMember charsOf kvs "exception_approved_by"
    let approvedDate ← optMember charsOf kvs "exception_approved_date"
    let ticket ← optMember charsOf kvs "exception_ticket"
    let expires ← optMember charsOf kvs "exception_expires"
    let isExpired ← (member kvs "exception_is_expired").bind boolOf
    some ⟨allowedValue, reason, approvedBy, approvedDate, ticket, expires, isExpired⟩
  | _ => none

/-- An optional text comes back, also where it is the empty one. -/
theorem optMember_chars (v : Option Chars) (kvs : List (String × Json)) (name : String)
    (h : (kvs.filter fun kv => kv.1 == name) = [(name, writeOptional charsJson v)]) : optMember charsOf kvs name = some v := by
  unfold optMember
  rw [h]
  cases v with
  | none => rfl
  | some cs => simp [writeOptional, charsJson, charsOf, strOf]

@[simp] theorem policyExceptionOf_policyExceptionJson (e : FindingPolicyException) :
    policyExceptionOf (policyExceptionJson e) = some e := by
  obtain ⟨allowedValue, reason, approvedBy, approvedDate, ticket, expires, isExpired⟩ := e
  simp only [policyExceptionOf, policyExceptionJson]
  rw [optMember_chars approvedBy _ _ (by simp), optMember_chars approvedDate _ _ (by simp), optMember_chars ticket _ _ (by simp),
    optMember_chars expires _ _ (by simp)]
  simp [member, boolOf]

def declineReasonJson : DeclineReason → Json
  | .valueMismatch documented observed =>
    .obj [("cause", .str "valuemismatch"), ("documented", charsJson documented), ("observed", charsJson observed)]
  | .expired expiredOn => .obj [("cause", .str "expired"), ("expired_on", charsJson expiredOn)]

def declineReasonOf : Json → Option DeclineReason
  | .obj kvs => do
    let cause ← (member kvs "cause").bind strOf
    if cause = "valuemismatch" then
      let documented ← (member kvs "documented").bind charsOf
      let observed ← (member kvs "observed").bind charsOf
      some (.valueMismatch documented observed)
    else if cause = "expired" then
      let expiredOn ← (member kvs "expired_on").bind charsOf
      some (.expired expiredOn)
    else none
  | _ => none

@[simp] theorem declineReasonOf_declineReasonJson (r : DeclineReason) : declineReasonOf (declineReasonJson r) = some r := by
  cases r <;> simp [declineReasonOf, declineReasonJson, member, strOf]

def declinedJson (d : FindingExceptionDeclined) : Json :=
  .obj [("exception_declined_reason", declineReasonJson d.declinedReason), ("exception_reason", charsJson d.reason)]

def declinedOf : Json → Option FindingExceptionDeclined
  | .obj kvs => do
    let declinedReason ← (member kvs "exception_declined_reason").bind declineReasonOf
    let reason ← (member kvs "exception_reason").bind charsOf
    some ⟨declinedReason, reason⟩
  | _ => none

@[simp] theorem declinedOf_declinedJson (d : FindingExceptionDeclined) : declinedOf (declinedJson d) = some d := by
  simp [declinedOf, declinedJson, member]

/-! ## Columns -/

/-- The two columns of an outcome: what applied, and what was declined. -/
def exceptionColumns : ExceptionOutcome → Option String × Option String
  | .notConfigured => (none, none)
  | .applied e => (some (policyExceptionJson e).text, none)
  | .declined d => (none, some (declinedJson d).text)

/-- A declined exception is read before one that applied. -/
def exceptionOf : Option FindingExceptionDeclined → Option FindingPolicyException → ExceptionOutcome
  | some d, _ => .declined d
  | none, some e => .applied e
  | none, none => .notConfigured

/-- `u64 as i64`, as the signed column holds it. -/
def durationColumn (d : UInt64) : Int := d.toBitVec.toInt

/-- `i64 as u64` -/
def durationOf (x : Int) : UInt64 := .ofBitVec (.ofInt 64 x)

@[simp] theorem durationOf_durationColumn (d : UInt64) : durationOf (durationColumn d) = d := by
  simp [durationOf, durationColumn]

/-- Every duration fits the column. -/
theorem durationColumn_range (d : UInt64) : -2 ^ 63 ≤ durationColumn d ∧ durationColumn d < 2 ^ 63 :=
  ⟨BitVec.le_toInt d.toBitVec, BitVec.toInt_lt⟩

section

variable (reader : JsonReader)

/-- A text column that may be NULL. -/
def parseOptional {α : Type} (of : Json → Option α) : Option String → Except String (Option α)
  | none => .ok none
  | some s => (reader.parse of s).map some

@[simp] theorem parse_steps (steps : List String) : reader.parse stepsOf (stepsJson steps).text = .ok steps :=
  reader.parse_text (stepsOf_stepsJson steps)

@[simp] theorem parse_mappings (ms : List ComplianceMapping) : reader.parse mappingsOf (mappingsJson ms).text = .ok ms :=
  reader.parse_text (mappingsOf_mappingsJson ms)

/-- Each outcome comes back through its two columns. -/
theorem exceptionOf_columns (o : ExceptionOutcome) : ∃ declined applied,
    parseOptional reader declinedOf (exceptionColumns o).2 = .ok declined ∧
      parseOptional reader policyExceptionOf (exceptionColumns o).1 = .ok applied ∧ exceptionOf declined applied = o := by
  cases o with
  | notConfigured => exact ⟨none, none, rfl, rfl, rfl⟩
  | applied e =>
    refine ⟨none, some e, rfl, ?_, rfl⟩
    simp [exceptionColumns, parseOptional, reader.parse_text (policyExceptionOf_policyExceptionJson e), Except.map]
  | declined d =>
    refine ⟨some d, none, ?_, rfl, rfl⟩
    simp [exceptionColumns, parseOptional, reader.parse_text (declinedOf_declinedJson d), Except.map]

end

end LinuxHardener.State.ScanHistory
