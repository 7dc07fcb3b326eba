import Mathlib.Data.Rat.Lemmas
import Mathlib.Algebra.Order.Ring.Rat
import Mathlib.Order.Monotone.Basic
import LinuxHardener.Compliance.Evidence
import LinuxHardener.Compliance.Scope

/-
  The compliance report: a status for every control of a framework, and a score.

  The clock and the floating-point unit are parameters (`Environment`). Of the rounding of
  binary64 a result uses that it is monotone, keeps zero and makes no count zero.

  Correspondence (Rust ↔ Lean):
    `ReportGenerator::{generate, score, generate_for_framework, covers_this_host}` ↔ the functions of
      these names
    `generator::{related_findings, has_live_finding}` ↔ `relatedFindings`, `hasLiveFinding`
    `assessed`, `unchecked_ids`, `catalogue`, `excluded` ↔ `controlIds` of the coverage and of the checks
      not made, `catalogue`, `ComplianceConfig.excluded`
    the two passes that fill `controls` ↔ `catalogueControls`, `uncataloguedControls`
    `ComplianceSummary::from_controls`, `unchecked_summary` ↔ `ComplianceSummary.fromControls`,
      `uncheckedSummary`
-/
namespace LinuxHardener.Compliance

/-! ## The report's parts -/

inductive ControlStatus where
  | pass | fail | notApplicable | manualReview
  deriving DecidableEq, Repr

structure ControlResult where
  controlId : String
  controlTitle : String
  controlSection : String
  controlStatus : ControlStatus
  controlFindings : List Finding
  deriving DecidableEq, Repr

/-- Rounding to a binary64. -/
structure Binary64 where
  round : ℚ → ℚ
  mono : Monotone round
  zero : round 0 = 0
  pos : ∀ n : Nat, 0 < n → 0 < round n

structure ComplianceSummary where
  summaryTotalControls : Nat
  summaryPassing : Nat
  summaryFailing : Nat
  summaryManualReview : Nat
  summaryNotApplicable : Nat
  summaryScorePercentage : ℚ

def countStatus (controls : List ControlResult) (status : ControlStatus) : Nat :=
  (controls.filter (fun c => c.controlStatus = status)).length

/-- A share as a percentage: two conversions, a division and a multiplication, each rounded. -/
def percentage (fp : Binary64) (passing applicable : Nat) : ℚ :=
  fp.round (fp.round (fp.round passing / fp.round applicable) * 100)

def ComplianceSummary.fromControls (fp : Binary64) (controls : List ControlResult) : ComplianceSummary :=
  let total := controls.length
  let passing := countStatus controls .pass
  let notApplicable := countStatus controls .notApplicable
  let applicable := total - notApplicable
  { summaryTotalControls := total
    summaryPassing := passing
    summaryFailing := countStatus controls .fail
    summaryManualReview := countStatus controls .manualReview
    summaryNotApplicable := notApplicable
    summaryScorePercentage :=
      if applicable > 0 then percentage fp passing applicable else if total > 0 then 0 else 100 }

/-- The one line about what a scan could not verify. -/
def uncheckedSummary (checks : List UncheckedCheck) : Option String :=
  let total := checks.length
  let privileged := (checks.filter (fun u => u.uncheckedBlocker = .privilege)).length
  if total = 0 then none
  else if privileged = 0 then some (toString total ++ " check(s) could not be verified")
  else if privileged = total then
    some (toString total ++ " check(s) require root; run with sudo for a full scan")
  else
    some (toString total ++ " check(s) could not be verified, " ++ toString privileged ++
      " of them for want of root; run with sudo for a fuller scan")

structure ComplianceReport where
  reportFramework : ComplianceFramework
  reportProfile : ComplianceProfile
  reportControls : List ControlResult
  reportSummary : ComplianceSummary
  reportCoverageNote : Option String

/-! ## The generator -/

inductive Scenario where
  | server | workstation | government | healthcare | financial | gdpr | all
  | custom (frameworks : List ComplianceFramework)

def Scenario.frameworks : Scenario → List ComplianceFramework
  | .server => [.cis, .stig]
  | .workstation => [.cis]
  | .government => [.stig, .nist, .nist800171, .fedRAMP]
  | .healthcare => [.hipaa, .nist]
  | .financial => [.pcidss, .cis]
  | .gdpr => [.gdpr]
  | .all => ComplianceFramework.all
  | .custom frameworks => frameworks

structure ReportConfig where
  scenario : Scenario
  profile : ComplianceProfile

structure ReportGenerator where
  config : ReportConfig
  inventory : PluginInventory
  exclusions : ComplianceConfig
  /-- Target, hostname and name; none is the local host. -/
  host : Option (String × String × String)

/-- The clock and the floating-point unit a report is made with. -/
structure Environment where
  calendar : Calendar
  today : calendar.Date
  fp : Binary64

/-- The control ids a list of mappings names in a framework. -/
def controlIds (framework : ComplianceFramework) (mappings : List ComplianceMapping) : List String :=
  (mappings.filter (fun m => m.complianceFramework == framework)).map (·.complianceControlId)

def relatedFindings (findings : List Finding) (framework : ComplianceFramework) (controlId : String) : List Finding :=
  findings.filter (fun f => f.findingCompliance.any
    (fun c => c.complianceFramework == framework && c.complianceControlId == controlId))

/-- Not a documented deviation. -/
def Finding.isLive (f : Finding) : Bool :=
  match f.findingException with
  | .applied _ => false
  | _ => true

def hasLiveFinding (findings : List Finding) : Bool := findings.any Finding.isLive

def ReportGenerator.coversThisHost (g : ReportGenerator) (e : ScopeExclusion) : Bool :=
  match g.host with
  | some (target, hostname, name) => e.coversHost target hostname name
  | none => e.hosts.isEmpty

/-- Whether an exclusion counts today on the host the report is about. -/
def ReportGenerator.inForce (g : ReportGenerator) (env : Environment) (framework : ComplianceFramework)
    (e : ScopeExclusion) : Bool :=
  e.isValidOn env.calendar framework.id env.today && g.coversThisHost e

/-- The curated controls, then the covered ones, each id once. -/
def ReportGenerator.catalogue (g : ReportGenerator) (framework : ComplianceFramework)
    (coverage : List ComplianceMapping) : List ComplianceMapping :=
  firstBy (·.complianceControlId) []
    (translateAll g.config.profile ((curatedControls framework).getD []) ++
      coverage.filter (fun m => m.complianceFramework == framework))

/-- The order of the cases decides: a live finding first, an exclusion last. -/
def ReportGenerator.controlStatus (g : ReportGenerator) (env : Environment) (framework : ComplianceFramework)
    (findings : List Finding) (unchecked : List UncheckedCheck) (coverage : List ComplianceMapping)
    (controlId : String) : ControlStatus :=
  if hasLiveFinding (relatedFindings findings framework controlId) then .fail
  else if controlId ∈ controlIds framework (uncheckedMappings unchecked) then .manualReview
  else if controlId ∈ controlIds framework coverage then .pass
  else
    match g.exclusions.excluded framework controlId with
    | some e => if g.inForce env framework e then .notApplicable else .manualReview
    | none => .manualReview

def ReportGenerator.catalogueControls (g : ReportGenerator) (env : Environment) (framework : ComplianceFramework)
    (findings : List Finding) (unchecked : List UncheckedCheck) (coverage : List ComplianceMapping) :
    List ControlResult :=
  (g.catalogue framework coverage).map (fun m =>
    { controlId := m.complianceControlId
      controlTitle := m.complianceControlTitle
      controlSection := m.complianceSection.getD "General"
      controlStatus := g.controlStatus env framework findings unchecked coverage m.complianceControlId
      controlFindings := relatedFindings findings framework m.complianceControlId })

/-- A live finding whose control is in no catalogue still fails it. -/
def uncataloguedControls (framework : ComplianceFramework) (findings : List Finding) (seen : List String) :
    List ControlResult :=
  ((firstBy (·.complianceControlId) seen
    ((findings.flatMap (·.findingCompliance)).filter (fun m => m.complianceFramework == framework))).filter
      (fun m => hasLiveFinding (relatedFindings findings framework m.complianceControlId))).map (fun m =>
    { controlId := m.complianceControlId
      controlTitle := m.complianceControlTitle
      controlSection := m.complianceSection.getD "General"
      controlStatus := .fail
      controlFindings := relatedFindings findings framework m.complianceControlId })

def ReportGenerator.generateForFramework (g : ReportGenerator) (env : Environment) (findings : List Finding)
    (unchecked : List UncheckedCheck) (coverage : List ComplianceMapping) (framework : ComplianceFramework) :
    ComplianceReport :=
  let controls := g.catalogueControls env framework findings unchecked coverage
  let all := controls ++ uncataloguedControls framework findings (controls.map (·.controlId))
  { reportFramework := framework
    reportProfile := g.config.profile
    reportControls := all
    reportSummary := ComplianceSummary.fromControls env.fp all
    reportCoverageNote := uncheckedSummary unchecked }

/-- A finding under a profile's ids. -/
def Finding.rendered (profile : ComplianceProfile) (f : Finding) : Finding :=
  { f with findingCompliance := translateAll profile f.findingCompliance }

def UncheckedCheck.rendered (profile : ComplianceProfile) (u : UncheckedCheck) : UncheckedCheck :=
  { u with uncheckedCompliance := translateAll profile u.uncheckedCompliance }

def ReportGenerator.score (g : ReportGenerator) (env : Environment) (findings : List Finding)
    (unchecked : List UncheckedCheck) : List ComplianceReport :=
  g.config.scenario.frameworks.map (g.generateForFramework env
    (findings.map (Finding.rendered g.config.profile)) (unchecked.map (UncheckedCheck.rendered g.config.profile))
    (translateAll g.config.profile g.inventory.assessedControls))

def ReportGenerator.generate (g : ReportGenerator) (env : Environment) (results : List ScanResult)
    (skipped : List PluginId) : List ComplianceReport :=
  let flat := flatten g.inventory results skipped
  g.score env flat.1 flat.2

/-! ## An environment -/

/-- A rounding that has nothing to round. -/
def exactRounding : Binary64 where
  round q := q
  mono := monotone_id
  zero := rfl
  pos n hn := by exact_mod_cast hn

def civilEnvironment : Environment where
  calendar := civilCalendar
  today := (⟨2026, 9, 1⟩ : CivilDate)
  fp := exactRounding

end LinuxHardener.Compliance
