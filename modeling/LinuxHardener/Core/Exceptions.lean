import LinuxHardener.Permissions.Apply
import LinuxHardener.Plugins.Strictness

/-
  What a policy exception has to say about a finding (`hardener-core`, `config.rs`).

  A scan asks for an outcome and an apply asks for the exception itself, each in its own
  words. A date is whatever the calendar reads in a text, and the calendar knows the day.

  Correspondence (Rust ↔ Lean):
    `PolicyException`, `FindingPolicyException`, `DeclineReason`, `FindingExceptionDeclined`,
    `ExceptionOutcome`                   ↔ the types of these names
    `PolicyException::{is_expired, is_valid, to_finding_exception}` ↔ the same in camel case
    `PluginConfig::{exception_outcome, exception_outcome_for_presence, exception_outcome_for_mode}`,
    `exception_outcome_with`             ↔ the same in camel case
    `PluginConfig::{has_valid_exception, matching_exception, matching_mode_exception}` ↔ the same in camel case
    `NaiveDate::parse_from_str`, `Local::now` ↔ `Calendar.parse`, `Calendar.today`

  What is proved:
    1. `exceptionOutcome_applied_iff` — a finding is reported as excepted where the
       enforcement finds the exception, for each of the three questions.
    2. `matchingException_onDay` — the configuration a plugin's session works with is this
       one, read on its day.
-/
namespace LinuxHardener.Core

open LineText (Chars)
open Permissions (Mode modeIsDocumentedBy octal)

/-- How dates are read, and which day it is. -/
structure Calendar where
  Date : Type
  before : Date → Date → Bool
  parse : Chars → Option Date
  today : Date

structure PolicyException where
  value : Chars
  allowed : Bool
  reason : Chars
  approvedBy : Option Chars
  approvedDate : Option Chars
  ticket : Option Chars
  expires : Option Chars
  deriving DecidableEq, Repr

structure FindingPolicyException where
  allowedValue : Chars
  reason : Chars
  approvedBy : Option Chars
  approvedDate : Option Chars
  ticket : Option Chars
  expires : Option Chars
  isExpired : Bool
  deriving DecidableEq, Repr

inductive DeclineReason where
  | valueMismatch (documented observed : Chars)
  | expired (expiredOn : Chars)
  deriving DecidableEq, Repr

structure FindingExceptionDeclined where
  declinedReason : DeclineReason
  reason : Chars
  deriving DecidableEq, Repr

inductive ExceptionOutcome where
  | notConfigured
  | applied (exception : FindingPolicyException)
  | declined (declined : FindingExceptionDeclined)
  deriving DecidableEq, Repr

/-- A plugin's section, as far as exceptions go. -/
abbrev Exceptions := Chars → Option PolicyException

section

variable (cal : Calendar)

namespace PolicyException

/-- A date that cannot be read expires nothing. -/
def isExpired (e : PolicyException) : Bool :=
  match e.expires.bind cal.parse with
  | some expiryDate => cal.before expiryDate cal.today
  | none => false

def isValid (e : PolicyException) : Bool := e.allowed && !e.isExpired cal

def toFindingException (e : PolicyException) : FindingPolicyException where
  allowedValue := e.value
  reason := e.reason
  approvedBy := e.approvedBy
  approvedDate := e.approvedDate
  ticket := e.ticket
  expires := e.expires
  isExpired := e.isExpired cal

/-- As the plugins' sessions see it. -/
def onDay (e : PolicyException) : Plugins.PolicyException := ⟨e.value, e.allowed, e.reason, e.isExpired cal⟩

end PolicyException

namespace Exceptions

/-! ## Reporting -/

/-- An exception that is not allowed says nothing; one that is may be expired, and may
document another value than the host's. -/
def exceptionOutcomeWith (exceptions : Exceptions) (key : Chars) (observed : Option Chars)
    (documents : Chars → Chars → Bool) : ExceptionOutcome :=
  match exceptions key with
  | none => .notConfigured
  | some e =>
    if !e.allowed then .notConfigured
    else if e.isExpired cal then .declined ⟨.expired (e.expires.getD []), e.reason⟩
    else
      match observed with
      | none => .applied (e.toFindingException cal)
      | some observed =>
        if !documents e.value observed then .declined ⟨.valueMismatch e.value observed, e.reason⟩
        else .applied (e.toFindingException cal)

def exceptionOutcome (exceptions : Exceptions) (key observed : Chars) : ExceptionOutcome :=
  exceptions.exceptionOutcomeWith cal key (some observed) fun value observed => value == observed

/-- The key alone names what deviates. -/
def exceptionOutcomeForPresence (exceptions : Exceptions) (key : Chars) : ExceptionOutcome :=
  exceptions.exceptionOutcomeWith cal key none fun _ _ => true

def exceptionOutcomeForMode (exceptions : Exceptions) (key : Chars) (observedMode : Mode) : ExceptionOutcome :=
  exceptions.exceptionOutcomeWith cal key (some (octal observedMode)) fun value _ => modeIsDocumentedBy value observedMode

/-! ## Enforcement -/

def hasValidException (exceptions : Exceptions) (key : Chars) : Option PolicyException :=
  (exceptions key).filter (PolicyException.isValid cal)

def matchingException (exceptions : Exceptions) (key actual : Chars) : Option PolicyException :=
  (exceptions.hasValidException cal key).filter fun e => e.value == actual

def matchingModeException (exceptions : Exceptions) (key : Chars) (actualMode : Mode) : Option PolicyException :=
  (exceptions.hasValidException cal key).filter fun e => modeIsDocumentedBy e.value actualMode

/-! ## The two agree -/

variable {cal} {exceptions : Exceptions} {key : Chars}

/-- An outcome applies where a valid exception documents what was observed, if anything was. -/
theorem exceptionOutcomeWith_applied_iff {observed : Option Chars} {documents : Chars → Chars → Bool}
    {f : FindingPolicyException} :
    exceptions.exceptionOutcomeWith cal key observed documents = .applied f ↔
      ∃ e, (exceptions.hasValidException cal key).filter (fun e => observed.all (documents e.value)) = some e ∧
        e.toFindingException cal = f := by
  unfold exceptionOutcomeWith hasValidException
  cases hkey : exceptions key with
  | none => simp
  | some e =>
    rw [Option.filter_filter, Option.filter_some]
    cases hallowed : e.allowed with
    | false => simp [PolicyException.isValid, hallowed]
    | true =>
      cases hexpired : e.isExpired cal with
      | true => simp [PolicyException.isValid, hallowed, hexpired]
      | false =>
        cases observed with
        | none => simp [PolicyException.isValid, hallowed, hexpired]
        | some o =>
          cases hdoc : documents e.value o with
          | true => simp [PolicyException.isValid, hallowed, hexpired, hdoc]
          | false => simp [PolicyException.isValid, hallowed, hexpired, hdoc]

/-- A finding is reported as excepted exactly where enforcement finds an exception, and
carries that exception. -/
theorem exceptionOutcome_applied_iff (cal : Calendar) (exceptions : Exceptions) (key observed : Chars)
    (observedMode : Mode) (f : FindingPolicyException) :
    (exceptions.exceptionOutcome cal key observed = .applied f ↔
        ∃ e, exceptions.matchingException cal key observed = some e ∧ e.toFindingException cal = f) ∧
      (exceptions.exceptionOutcomeForPresence cal key = .applied f ↔
        ∃ e, exceptions.hasValidException cal key = some e ∧ e.toFindingException cal = f) ∧
      (exceptions.exceptionOutcomeForMode cal key observedMode = .applied f ↔
        ∃ e, exceptions.matchingModeException cal key observedMode = some e ∧ e.toFindingException cal = f) := by
  refine ⟨exceptionOutcomeWith_applied_iff, ?_, exceptionOutcomeWith_applied_iff⟩
  have hall : (exceptions.hasValidException cal key).filter (fun _ => true) = exceptions.hasValidException cal key := by
    cases exceptions.hasValidException cal key <;> rfl
  rw [← hall]
  exact exceptionOutcomeWith_applied_iff

/-! ## What a session is given -/

/-- The configuration a plugin's session works with, on the day of the run. -/
def onDay (cal : Calendar) (exceptions : Exceptions) (directives : Chars → Option Chars) : Plugins.PluginConfig where
  directives := directives
  exceptions := fun key => (exceptions key).map (PolicyException.onDay cal)

section

variable (cal) (exceptions) (directives : Chars → Option Chars)

theorem hasValidException_onDay (key : Chars) :
    (exceptions.onDay cal directives).hasValidException key =
      (exceptions.hasValidException cal key).map (PolicyException.onDay cal) := by
  unfold Plugins.PluginConfig.hasValidException hasValidException onDay
  rw [Option.filter_map]
  rfl

theorem matchingException_onDay (key actual : Chars) :
    (exceptions.onDay cal directives).matchingException key actual =
      (exceptions.matchingException cal key actual).map (PolicyException.onDay cal) := by
  unfold Plugins.PluginConfig.matchingException matchingException
  rw [hasValidException_onDay, Option.filter_map]
  rfl

theorem matchingModeException_onDay (key : Chars) (actualMode : Mode) :
    Permissions.matchingModeException (exceptions.onDay cal directives) key actualMode =
      (exceptions.matchingModeException cal key actualMode).map (PolicyException.onDay cal) := by
  unfold Permissions.matchingModeException matchingModeException
  rw [hasValidException_onDay, Option.filter_map]
  rfl

end

end Exceptions

end

end LinuxHardener.Core
