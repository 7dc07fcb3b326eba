import LinuxHardener.Firewall.Rules

/-
  The ufw backend (`firewall/ufw.rs`).

  Correspondence (Rust ↔ Lean):
    `ufw_port_syntax`           ↔ `ufwPortSyntax`
    `build_ufw_rule_args`       ↔ `buildUfwRuleArgs`
    `default_incoming_is_deny`  ↔ `defaultIncomingIsDeny`
    `UfwBackend::{checkpoint_paths, is_enabled, enable, apply_rules}` ↔ the same
-/
namespace LinuxHardener.Firewall

open Text hiding trim
open LineText Plugins Dialogue

/-- `DEFAULT_INBOUND_RULE` -/
def defaultInboundRule : Chars := "Drop all other inbound traffic by default"

/-- `RULE_ALREADY_PRESENT` -/
def ruleAlreadyPresent : Chars := "Skipping adding existing rule"

/-- A range of ports the way ufw spells it; anything else as it is. -/
def ufwPortSyntax (port : Chars) : Chars :=
  match splitOnce '-' port with
  | none => port
  | some (low, high) =>
    match parseUnsigned u16Bound low, parseUnsigned u16Bound high with
    | some low, some high => decimal low ++ ':' :: decimal high
    | _, _ => port

def ufwAction (action : Chars) : Chars :=
  if action = "accept".toList then "allow"
  else if action = "drop".toList then "deny"
  else if action = "reject".toList then "reject"
  else "deny"

/-- What a rule is as arguments of `ufw`. -/
def buildUfwRuleArgs (rule : Rule) : List Chars :=
  if rule.description = defaultInboundRule then ["default", "deny", "incoming"]
  else
    ufwAction rule.action ::
      ((if rule.source ≠ "any".toList then ["from".toList, rule.source] else []) ++
        (if rule.port ≠ "any".toList then
          ["to".toList, "any".toList, "port".toList, ufwPortSyntax rule.port] ++
            (if rule.protocol ≠ "all".toList ∧ rule.protocol ≠ "any".toList then ["proto".toList, rule.protocol] else [])
        else []))

def executeUfw (args : List Chars) : Session (Except Chars Chars) :=
  outputOf "ufw" args (fun e => pluginError ("Failed to execute ufw command: ".toList ++ e))
    (fun stderr => pluginError ("ufw command failed: ".toList ++ stderr))

/-- The pieces between the occurrences of a character. -/
def splitAt (sep : Char) (s : Chars) : List Chars :=
  match s with
  | [] => [[]]
  | c :: cs =>
    match splitAt sep cs with
    | [] => [[]]
    | piece :: pieces => if c = sep then [] :: piece :: pieces else (c :: piece) :: pieces

/-- What `ufw status verbose` says of the incoming policy. -/
def incomingPolicyIsDeny (output : Chars) : Bool :=
  match (lines output).findSome? (fun line => stripStart "Default:" (LineText.trim line)) with
  | none => false
  | some policies =>
    match (splitAt ',' policies).find? (fun policy => contains policy "(incoming)") with
    | none => false
    | some policy => "deny".toList.isPrefixOf (LineText.trim policy)

def defaultIncomingIsDeny : Session Bool := do
  match ← executeUfw ["status", "verbose"] with
  | .ok output => return incomingPolicyIsDeny output
  | .error _ => return false

namespace Ufw

def checkpointPaths : List Chars := ["/etc/ufw"]

def isEnabled : Session (Except Chars Unit) := do
  match ← executeUfw ["status"] with
  | .ok output =>
    if contains output "Status: active" then return .ok () else return .error (pluginError "UFW is not enabled")
  | .error e => return .error (pluginError ("Unable to determine UFW status: ".toList ++ e))

/-- ufw turned on now, and its unit wanted at boot. -/
def enable : Session (Except Chars Unit) := do
  match ← executeUfw ["--force", "enable"] with
  | .error e => return .error e
  | .ok output =>
    if !contains output "Firewall is active" && !contains output "enabled" then
      return .error (pluginError "Failed to enable UFW firewall")
    else systemctlEnable "ufw" "Failed to enable the ufw unit: "

/-- One rule of the list. -/
def applyRule (defaultAlreadyDeny : Bool) (rule : Rule) : Session Change := do
  if rule.description = "Allow established and related connections".toList then
    return Change.made .skipped
      (rule.description ++ ": not applicable to ufw (ufw tracks connection state implicitly)".toList)
  else if rule.description = defaultInboundRule ∧ defaultAlreadyDeny then
    return Change.made .skipped
      (rule.description ++ ": already in force (ufw's default incoming policy is deny)".toList)
  else
    match ← executeUfw (buildUfwRuleArgs rule) with
    | .ok output =>
      if contains output ruleAlreadyPresent then
        return Change.made .skipped ("Firewall rule already present: ".toList ++ rule.description)
      else return Change.made .firewallRule ("Added firewall rule: ".toList ++ rule.description)
    | .error e => return Change.failed .firewallRule ("Failed to add firewall rule: ".toList ++ rule.description) e

def applyRules (rules : List Rule) : Session (Except RulesError (List Change)) := do
  let defaultAlreadyDeny ← defaultIncomingIsDeny
  return .ok (← rules.mapM (applyRule defaultAlreadyDeny))

end Ufw

end LinuxHardener.Firewall
