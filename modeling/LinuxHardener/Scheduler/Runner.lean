import LinuxHardener.Core.PluginManager
import LinuxHardener.Lib.Dialogue
import LinuxHardener.Scheduler.Db

/-
  The scheduled scan: which plugins it covers, and the session it leaves in the history.

  The run is a program over what it asks of the clock, the plugin manager, the JSON
  store and the database; a statement answered with an error has had no effect.

  Correspondence (Rust ↔ Lean):
    `scannable_plugins`                   ↔ `scannablePlugins`
    `ScanRunner`, `TriggerType`, `JsonExport` ↔ the types of these names
    `ScanRunner::{process_findings, build_summary, build_json_export}` ↔ the same in camel case
    `ScanRunner::run`                     ↔ `ScanRunner.run`, from its session on `recordScan`
    `complete_session`                    ↔ `completeSession`, its loop `insertFindings`
-/
namespace LinuxHardener.Scheduler

open LineText (Chars)
open Compliance (PluginId)
open Core (Severity HardenerConfig PluginManager Petgraph)
open Dialogue

/-! ## Which plugins -/

inductive HardeningError where
  | config (message : Chars)
  | plugin (message : Chars)
  | database (message : Chars)
  deriving DecidableEq, Repr

def HardeningError.message : HardeningError → Chars
  | .config m => "Configuration error: ".toList ++ m
  | .plugin m => "Plugin error: ".toList ++ m
  | .database m => "Database error: ".toList ++ m

def unregistered (unknown : PluginId) (registered : List PluginId) : HardeningError :=
  .config ("Scheduled plugin '".toList ++ unknown.value.toList ++
    "' is not a registered plugin. Registered plugins: ".toList ++
    ", ".toList.intercalate (registered.map fun id => id.value.toList))

/-- The plugins a scan is recorded to cover: those selected that the configuration enables.
An id that no plugin declares is refused. -/
def scannablePlugins (selected : List PluginId) (config : HardenerConfig) (registered : List PluginId) :
    Except HardeningError (List PluginId) :=
  match selected.find? fun id => !registered.any fun known => known == id with
  | some unknown => .error (unregistered unknown registered)
  | none => .ok (selected.filter config.isPluginEnabled)

/-- The plugins of a run: all that are registered, where none is configured. -/
def pluginsToScan (plugins : List PluginId) (config : HardenerConfig) (registered : List PluginId) :
    Except HardeningError (List PluginId) :=
  scannablePlugins (if plugins.isEmpty then registered else plugins) config registered

/-! ## Findings -/

structure Finding extends Compliance.Finding where
  findingSeverity : Severity
  findingTitle : Chars
  findingDescription : Chars
  findingCurrentValue : Chars
  findingRecommendedValue : Chars
  findingCategory : Compliance.FindingCategory
  deriving DecidableEq, Repr

structure ScanResult where
  scanPluginId : PluginId
  scanSuccess : Bool
  scanFindings : List Finding
  scanError : Option Chars
  deriving DecidableEq, Repr

/-- Severities in their order. -/
def rank : Severity → Nat
  | .info => 0
  | .low => 1
  | .medium => 2
  | .high => 3
  | .critical => 4

def severityText : Severity → Chars
  | .info => "INFO"
  | .low => "LOW"
  | .medium => "MEDIUM"
  | .high => "HIGH"
  | .critical => "CRITICAL"

def categoryText : Compliance.FindingCategory → Chars
  | .audit => "Audit"
  | .authentication => "Authentication"
  | .cryptography => "Cryptography"
  | .fileSystem => "File System"
  | .kernel => "Kernel"
  | .mandatoryAccessControl => "MAC"
  | .network => "Network"
  | .services => "Services"

def frameworkText : Compliance.ComplianceFramework → Chars
  | .cis => "CIS"
  | .hipaa => "HIPAA"
  | .iso27001 => "ISO27001"
  | .nist => "NIST"
  | .pcidss => "PCIDSS"
  | .stig => "STIG"
  | .gdpr => "GDPR"
  | .soc2 => "SOC 2"
  | .nist800171 => "NIST 800-171"
  | .fedRAMP => "FedRAMP"

def mappingText (m : Compliance.ComplianceMapping) : Chars :=
  frameworkText m.complianceFramework ++ ":".toList ++ m.complianceControlId.toList

/-- A finding as it is stored. -/
def storedFinding (plugin : PluginId) (finding : Finding) : ScanFinding where
  pluginId := plugin
  findingId := finding.findingId
  severity := severityText finding.findingSeverity
  title := finding.findingTitle
  description := some finding.findingDescription
  currentValue := some finding.findingCurrentValue
  recommendedValue := some finding.findingRecommendedValue
  category := some (categoryText finding.findingCategory)
  complianceMappings :=
    if finding.findingCompliance.isEmpty then none else some (finding.findingCompliance.map mappingText)

/-- The findings of a scan that reach the floor. -/
def processFindings (minSeverity : Severity) (results : List ScanResult) : List ScanFinding :=
  results.flatMap fun result =>
    (result.scanFindings.filter fun f => rank minSeverity ≤ rank f.findingSeverity).map (storedFinding result.scanPluginId)

theorem countedAs_severityText (s : Severity) : countedAs (severityText s) = s := by
  cases s <;> decide

/-! ## The run -/

inductive TriggerType where
  | scheduled
  | manual
  | systemd
  deriving DecidableEq, Repr

def TriggerType.asStr : TriggerType → Chars
  | .scheduled => "scheduled"
  | .manual => "manual"
  | .systemd => "systemd"

structure JsonExport where
  host : Chars
  minSeverity : Chars
  pluginsScanned : List PluginId
  totalFindings : Nat
  findings : List ScanFinding
  pluginErrors : List (PluginId × Chars)
  deriving DecidableEq, Repr

structure ScanSummary where
  sessionId : String
  host : Chars
  pluginsScanned : List PluginId
  counts : SeverityCounts
  jsonPath : Option Chars
  jsonHash : Option Chars
  hadErrors : Bool
  deriving DecidableEq, Repr

/-- What a run asks. -/
inductive Request where
  | now
  | createSession (trigger host : Chars) (plugins : List PluginId) (startedAt : Int)
  | executeScan (selection : List PluginId)
  | failSession (id : String) (error : Chars) (now : Int)
  | writeJson (id : String) (data : JsonExport)
  | completeRow (id : String) (counts : SeverityCounts) (jsonPath hash : Option Chars) (now : Int)
  | insertFinding (id : String) (finding : ScanFinding)
  deriving DecidableEq, Repr

@[reducible] def Request.Answer : Request → Type
  | .now => Int
  | .createSession _ _ _ _ => Except HardeningError String
  | .executeScan _ => Except Chars (List ScanResult)
  | .failSession _ _ _ => Except HardeningError Unit
  | .writeJson _ _ => Except HardeningError (Chars × Chars)
  | .completeRow _ _ _ _ _ => Except HardeningError Unit
  | .insertFinding _ _ => Except HardeningError Unit

abbrev Exchange := Event Request.Answer

abbrev Job (α : Type) := Program Request Request.Answer α

def request (q : Request) : Job q.Answer := Program.query q

theorem run_request {α : Type} {q : Request} {f : q.Answer → Job α} {es : List Exchange} {a : α} :
    Run (request q >>= f) es a ↔ ∃ r es', es = ⟨q, r⟩ :: es' ∧ Run (f r) es' a := run_ask

def insertFindings (id : String) : List ScanFinding → Job (Except HardeningError Unit)
  | [] => return .ok ()
  | finding :: findings => do
    match ← request (.insertFinding id finding) with
    | .error e => return .error e
    | .ok () => insertFindings id findings

def completeSession (id : String) (findings : List ScanFinding) (jsonPath hash : Option Chars) :
    Job (Except HardeningError Unit) := do
  let now ← request .now
  match ← request (.completeRow id (.fromFindings findings) jsonPath hash now) with
  | .error e => return .error e
  | .ok () => insertFindings id findings

def failSession (id : String) (error : Chars) : Job (Except HardeningError Unit) := do
  let now ← request .now
  request (.failSession id error now)

structure ScanRunner where
  minSeverity : Severity
  plugins : List PluginId
  host : Chars

namespace ScanRunner

def buildSummary (runner : ScanRunner) (id : String) (plugins : List PluginId) (findings : List ScanFinding)
    (hadErrors : Bool) : ScanSummary :=
  ⟨id, runner.host, plugins, .fromFindings findings, none, none, hadErrors⟩

def buildJsonExport (runner : ScanRunner) (results : List ScanResult) (findings : List ScanFinding) : JsonExport where
  host := runner.host
  minSeverity := severityText runner.minSeverity
  pluginsScanned := results.map ScanResult.scanPluginId
  totalFindings := findings.length
  findings := findings
  pluginErrors := (results.filter fun r => !r.scanSuccess).map fun r => (r.scanPluginId, r.scanError.getD [])

/-- The run from its session on: the scan, the export, and the session's end. -/
def recordScan (runner : ScanRunner) (plugins : List PluginId) (id : String) : Job (Except HardeningError ScanSummary) := do
  match ← request (.executeScan plugins) with
  | .error e =>
    match ← failSession id e with
    | .error e => return .error e
    | .ok () => return .error (.plugin e)
  | .ok results =>
    let findings := processFindings runner.minSeverity results
    let summary := runner.buildSummary id plugins findings (results.any fun r => !r.scanSuccess)
    match ← request (.writeJson id (runner.buildJsonExport results findings)) with
    | .error e => return .error e
    | .ok (jsonPath, jsonHash) =>
      match ← completeSession id findings (some jsonPath) (some jsonHash) with
      | .error e => return .error e
      | .ok () => return .ok { summary with jsonPath := some jsonPath, jsonHash := some jsonHash }

/-- The run, up to its notifications. -/
def run (runner : ScanRunner) (config : HardenerConfig) (order : Except Chars (List PluginId)) (trigger : TriggerType) :
    Job (Except HardeningError ScanSummary) :=
  match order with
  | .error e => return .error (.plugin e)
  | .ok registered =>
    match pluginsToScan runner.plugins config registered with
    | .error e => return .error e
    | .ok plugins => do
      let now ← request .now
      match ← request (.createSession trigger.asStr runner.host plugins now) with
      | .error e => return .error e
      | .ok id => runner.recordScan plugins id

end ScanRunner

/-- The database after an answer: a statement that succeeded has been carried out. -/
def react (db : Db) (e : Exchange) : Db :=
  match e with
  | ⟨.createSession trigger host plugins startedAt, .ok id⟩ => db.createSession (.opened id trigger host plugins startedAt)
  | ⟨.failSession id error now, .ok ()⟩ => db.failSession id error now
  | ⟨.completeRow id counts jsonPath hash now, .ok ()⟩ => db.completeRow id counts jsonPath hash now
  | ⟨.insertFinding id finding, .ok ()⟩ => db.insertFinding id finding
  | _ => db

end LinuxHardener.Scheduler
