import LinuxHardener.Firewall.Nftables
import LinuxHardener.Firewall.Ufw
import LinuxHardener.Firewall.Firewalld

/-
  The firewall plugin's apply (`FirewallHardeningPlugin::apply`), over its three backends.

  Correspondence (Rust ↔ Lean):
    `backend_activity`, `classify_installed`, `find_winner` ↔ the same in camel case
    `detect_backend`                 ↔ `detectBackend`
    `unit_boot_persistence`          ↔ `unitBootPersistence`
    `ensure_unit_wanted_at_boot`     ↔ `ensureUnitWantedAtBoot`
    `refusal_result`                 ↔ `refusalResult`
    `apply`                          ↔ `applyPlugin`, cut into `enablePhase` and `rulesPhase`
-/
namespace LinuxHardener.Firewall

open LineText Plugins Dialogue

/-- The backends, in the order they are looked for. -/
inductive Backend where
  | firewalld
  | ufw
  | nftables
  deriving DecidableEq, Repr

namespace Backend

def name : Backend → Chars
  | firewalld => "firewalld"
  | ufw => "ufw"
  | nftables => "nftables"

def systemdUnit : Backend → Chars
  | firewalld => "firewalld"
  | ufw => "ufw"
  | nftables => "nftables"

def checkpointPaths : Backend → Session (List Chars)
  | firewalld => return Firewalld.checkpointPaths
  | ufw => return Ufw.checkpointPaths
  | nftables => Nftables.checkpointPaths

/-- The command whose presence says that the backend is installed. -/
def command : Backend → Chars
  | firewalld => "firewall-cmd"
  | ufw => "ufw"
  | nftables => "nft"

def detect (b : Backend) : Session (Except Chars Bool) := do
  match ← commandExists b.command with
  | .ok found => return .ok found
  | .error e => return .error (pluginError e)

def isEnabled : Backend → Session (Except Chars Unit)
  | firewalld => Firewalld.isEnabled
  | ufw => Ufw.isEnabled
  | nftables => Nftables.isEnabled

def enable : Backend → Session (Except Chars Unit)
  | firewalld => Firewalld.enable
  | ufw => Ufw.enable
  | nftables => Nftables.enable

def applyRules : Backend → List Rule → Session (Except RulesError (List Change))
  | firewalld => Firewalld.applyRules
  | ufw => Ufw.applyRules
  | nftables => Nftables.applyRules

/-- Every backend starts from the shared baseline. -/
def getDefaultRules (_ : Backend) : List Rule := baselineRules

end Backend

/-! ## Which backend -/

def messageIndicatesPermissionDenied (message : Chars) : Bool :=
  contains message "Permission denied" || contains message "permission denied" ||
    contains message "Operation not permitted" || contains message "must be root" ||
    contains message "need to be root" || contains message "requires root"

inductive BackendActivity where
  | verified
  | unitActiveUnverified
  | unknown
  | inactive
  deriving DecidableEq, Repr

def systemdUnitActive (unit : Chars) : Session Bool := do
  match ← execute "systemctl" ["is-active", unit] with
  | .ok output => return output.success
  | .error _ => return false

def backendActivity (b : Backend) : Session BackendActivity := do
  match ← b.isEnabled with
  | .ok () => return .verified
  | .error e =>
    if messageIndicatesPermissionDenied e then
      if ← systemdUnitActive b.systemdUnit then return .unitActiveUnverified else return .unknown
    else return .inactive

/-- The installed backends among some, each with its activity. -/
def classify : List Backend → Session (Except Chars (List (Backend × BackendActivity)))
  | [] => return .ok []
  | b :: bs => do
    match ← b.detect with
    | .error e => return .error e
    | .ok false => classify bs
    | .ok true =>
      let activity ← backendActivity b
      match ← classify bs with
      | .error e => return .error e
      | .ok rest => return .ok ((b, activity) :: rest)

def classifyInstalled : Session (Except Chars (List (Backend × BackendActivity))) :=
  classify [.firewalld, .ufw, .nftables]

/-- The first backend whose activity places it in charge. -/
def findWinner (classified : List (Backend × BackendActivity)) : Option Backend :=
  (classified.find? fun entry => entry.2 == .verified || entry.2 == .unitActiveUnverified).map (·.1)

def noBackendError : Chars := pluginError "No supported firewall backend found (checked: firewalld, ufw, nftables)"

def detectBackend : Session (Except Chars Backend) := do
  match ← classifyInstalled with
  | .error e => return .error e
  | .ok [] => return .error noBackendError
  | .ok (first :: rest) => return .ok ((findWinner (first :: rest)).getD first.1)

/-! ## Enablement at boot -/

/-- `NOT_AT_BOOT_STATES` -/
def notAtBootStates : List Chars :=
  ["disabled", "enabled-runtime", "linked", "linked-runtime", "masked", "masked-runtime"]

inductive BootPersistence where
  | atBoot
  | notAtBoot (state : Chars)
  | undeterminable
  deriving DecidableEq, Repr

def unitBootPersistence (unit : Chars) : Session BootPersistence := do
  match ← execute "systemctl" ["is-enabled", unit] with
  | .error _ => return .undeterminable
  | .ok output =>
    let state := LineText.trim output.stdout
    if state = "enabled".toList then return .atBoot
    else if notAtBootStates.contains state then return .notAtBoot state
    else return .undeterminable

def ensureUnitWantedAtBoot (unit : Chars) : Session Change := do
  if (← unitBootPersistence unit) = .atBoot then
    return Change.made .skipped ("The ".toList ++ unit ++ " unit was already enabled to start the firewall at boot".toList)
  else
    let failed (reason : Chars) : Change :=
      Change.failed .service ("Failed to enable the ".toList ++ unit ++ " unit to start the firewall at boot".toList) reason
    match ← execute "systemctl" ["enable", unit] with
    | .ok output =>
      if output.success then
        return Change.made .service ("Enabled the ".toList ++ unit ++ " unit to start the firewall at boot".toList)
      else return failed (LineText.trim output.stderr)
    | .error e => return failed e

/-! ## Apply -/

/-- Why an apply stopped. -/
inductive ApplyError where
  | noBackend (e : Chars)
  | notEnabled (b : Backend) (e : Chars)
  | ruleset (refusal : RulesetRefusal)
  | rules (e : RulesError)
  deriving DecidableEq, Repr

def ApplyError.message : ApplyError → Chars
  | .noBackend e => "No firewall backend: ".toList ++ e
  | .notEnabled b e => "The ".toList ++ b.name ++ " firewall could not be enabled, so no rule was applied: ".toList ++ e
  | .ruleset refusal => refusal.reason
  | .rules e => e.message

structure ApplyResult where
  success : Bool
  changes : List Change
  checkpointId : Option Chars
  error : Option ApplyError
  deriving DecidableEq, Repr

/-- The change an enable is recorded by. -/
def enableChange (b : Backend) (wasAlreadyEnabled : Bool) (enableError : Option Chars) : Change :=
  if wasAlreadyEnabled then Change.made .skipped ("The ".toList ++ b.name ++ " firewall was already enabled".toList)
  else
    match enableError with
    | none => Change.made .service ("Enabled the ".toList ++ b.name ++ " firewall to start at boot".toList)
    | some e => Change.failed .service ("Failed to enable the ".toList ++ b.name ++ " firewall".toList) e

/-- The backend turned on where it is off, with what went wrong. -/
def enableIfOff (b : Backend) (wasAlreadyEnabled : Bool) : Session (Option Chars) :=
  if wasAlreadyEnabled then return none
  else do
    match ← b.enable with
    | .ok () => return none
    | .error e => return some e

/-- The checkpoint and the enablement: what an apply does before it looks at the rules.
An error stands for an apply that stops here. -/
def enablePhase (ctx : Context) (b : Backend) :
    Session (Except Chars (Except ApplyResult (List Change × Option Chars))) := do
  let paths ← b.checkpointPaths
  match ← createCheckpointForApply ctx "firewall-hardening-pre-apply" paths with
  | .error e => return .error e
  | .ok checkpointId =>
    let wasAlreadyEnabled := (← b.isEnabled).isOk
    let enableError ← enableIfOff b wasAlreadyEnabled
    let changes := checkpointChange checkpointId ++ [enableChange b wasAlreadyEnabled enableError]
    match enableError with
    | some e =>
      return .ok (.error ⟨false, changes, checkpointId, some (.notEnabled b e)⟩)
    | none =>
      if wasAlreadyEnabled then
        let bootChange ← ensureUnitWantedAtBoot b.systemdUnit
        return .ok (.ok (changes ++ [bootChange], checkpointId))
      else return .ok (.ok (changes, checkpointId))

/-- The result for a ruleset refused before the backend installed anything. -/
def refusalResult (changes : List Change) (checkpointId : Option Chars) (refusal : RulesetRefusal) : ApplyResult :=
  { success := false
    changes := changes ++
      [Change.failed .firewallRule ("Refused to apply the firewall ruleset: ".toList ++ refusal.reason) refusal.reason]
    checkpointId
    error := some (.ruleset refusal) }

/-- The rules: what an apply does once the firewall is on. -/
def rulesPhase (ctx : Context) (config : PluginConfig) (b : Backend) (changes : List Change)
    (checkpointId : Option Chars) : Session ApplyResult := do
  let (rules, skipped) := buildRules config
  let changes := changes ++ skipped
  match rulesetRefusal rules ctx.isRemote with
  | some refusal => return refusalResult changes checkpointId refusal
  | none =>
    match ← b.applyRules rules with
    | .ok backendChanges =>
      let changes := changes ++ backendChanges
      return ⟨changes.all Change.success, changes, checkpointId, none⟩
    | .error e =>
      let changes := changes ++
        [Change.failed .firewallRule ("Failed to apply ".toList ++ b.name ++ " firewall rules".toList) e.message]
      return ⟨changes.all Change.success, changes, checkpointId, some (.rules e)⟩

/-- An apply through a backend. -/
def applyBackend (ctx : Context) (config : PluginConfig) (b : Backend) : Session (Except Chars ApplyResult) := do
  match ← enablePhase ctx b with
  | .error e => return .error e
  | .ok (.error result) => return .ok result
  | .ok (.ok (changes, checkpointId)) => return .ok (← rulesPhase ctx config b changes checkpointId)

/-- `FirewallHardeningPlugin::apply` -/
def applyPlugin (ctx : Context) (config : PluginConfig) : Session (Except Chars ApplyResult) := do
  match ← detectBackend with
  | .error e => return .ok ⟨false, [], none, some (.noBackend e)⟩
  | .ok b => applyBackend ctx config b

end LinuxHardener.Firewall
