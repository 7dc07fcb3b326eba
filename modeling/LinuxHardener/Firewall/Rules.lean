import LinuxHardener.Plugins.Session

/-
  The firewall's rule list and how a configuration changes it (`firewall/mod.rs`).

  Correspondence (Rust ↔ Lean):
    `get_baseline_rules`           ↔ `baselineRules`
    `rule_id`                      ↔ `ruleId`
    `action_override_is_allowed`   ↔ `actionOverrideIsAllowed`
    `field_breadth`, `FieldBreadth` ↔ `fieldBreadth`, `FieldBreadth`
    `breadth_order`                ↔ `breadthOrder`
    `field_override_is_allowed`    ↔ `fieldOverrideIsAllowed`
    `canonical_field_value`        ↔ `canonicalFieldValue`
    `apply_rule_directives`        ↔ `applyRuleDirectives`
    `ruleset_refusal`              ↔ `rulesetRefusal`
    the rule loop of `apply`       ↔ `buildRules`

  What is proved:
    1. `actionOverrideIsAllowed_blocking` — a blocking rule stays blocking.
    2. `effectiveRules_eq` — the list a configuration leaves, rule by rule.
-/
namespace LinuxHardener.Firewall

open LineText Plugins

/-- A single firewall rule in a backend-agnostic format. -/
structure Rule where
  description : Chars
  protocol : Chars
  port : Chars
  source : Chars
  action : Chars
  deriving DecidableEq, Repr

def loopbackRule : Rule :=
  { description := "Allow loopback traffic"
    protocol := "all"
    port := "any"
    source := "127.0.0.1/8"
    action := "accept" }

def establishedRule : Rule :=
  { description := "Allow established and related connections"
    protocol := "all"
    port := "any"
    source := "any"
    action := "accept" }

def sshRule : Rule :=
  { description := "Allow SSH to prevent lockout"
    protocol := "tcp"
    port := "22"
    source := "any"
    action := "accept" }

def dropDefaultRule : Rule :=
  { description := "Drop all other inbound traffic by default"
    protocol := "all"
    port := "any"
    source := "any"
    action := "drop" }

/-- `get_baseline_rules` -/
def baselineRules : List Rule := [loopbackRule, establishedRule, sshRule, dropDefaultRule]

/-- The key a rule's directives and exceptions stand under. A description outside the
baseline becomes a slug; all of them are ASCII. -/
def ruleId (rule : Rule) : Chars :=
  if rule.description = "Allow loopback traffic".toList then "loopback"
  else if rule.description = "Allow established and related connections".toList then "established"
  else if rule.description = "Allow SSH to prevent lockout".toList then "ssh"
  else if rule.description = "Drop all other inbound traffic by default".toList then "drop_default"
  else rule.description.map fun c => if c = ' ' then '_' else c.toLower

/-! ## Overrides -/

def isBlocking (action : Chars) : Bool := action == "drop".toList || action == "reject".toList

/-- Whether an `action` override may replace the baseline. -/
def actionOverrideIsAllowed (baseline requested : Chars) : Bool :=
  if isBlocking requested then true
  else if requested = "accept".toList then !isBlocking baseline
  else false

/-- How much traffic one field value matches. -/
inductive FieldBreadth where
  | everything
  | addresses (ipv6 : Bool) (prefixBits : Nat)
  | ports (count : Nat)
  | oneProtocol
  deriving DecidableEq, Repr

/-- The field a directive sets. -/
inductive Field where
  | port
  | source
  | protocol
  deriving DecidableEq, Repr

def Field.name : Field → Chars
  | .port => "port"
  | .source => "source"
  | .protocol => "protocol"

def u8Bound : Nat := 256

def u16Bound : Nat := 65536

def sourceBreadth (value : Chars) : Option FieldBreadth :=
  if value = "any".toList then some .everything
  else do
    let ipv6 := value.contains ':'
    let familyBits := if ipv6 then 128 else 32
    let (address, prefixBits) ← match splitOnce '/' value with
      | some (address, bits) => (parseUnsigned u8Bound bits).map fun bits => (address, bits)
      | none => some (value, familyBits)
    if address = [] ∨ familyBits < prefixBits then none
    else if prefixBits = 0 then some .everything
    else some (.addresses ipv6 prefixBits)

def protocolBreadth (value : Chars) : Option FieldBreadth :=
  if value = "any".toList ∨ value = "all".toList then some .everything
  else if value = "tcp".toList ∨ value = "udp".toList then some .oneProtocol
  else none

/-- A port or a range of ports, by its ends. -/
def parsePorts (value : Chars) : Option (Nat × Nat) :=
  match splitOnce '-' value with
  | some (low, high) => do
    let low ← parseUnsigned u16Bound low
    let high ← parseUnsigned u16Bound high
    some (low, high)
  | none => (parseUnsigned u16Bound value).map fun single => (single, single)

def portBreadth (value : Chars) : Option FieldBreadth :=
  if value = "any".toList then some .everything
  else do
    let (low, high) ← parsePorts value
    if high < low then none else some (.ports (high - low + 1))

/-- A field value as a breadth, or `none` where it cannot be read as one. -/
def fieldBreadth (field : Field) (value : Chars) : Option FieldBreadth :=
  match field with
  | .source => sourceBreadth value
  | .protocol => protocolBreadth value
  | .port => portBreadth value

/-- How `requested` compares in breadth to `baseline`; `none` where the two cannot be compared. -/
def breadthOrder (baseline requested : FieldBreadth) : Option Ordering :=
  match baseline, requested with
  | .everything, .everything => some .eq
  | .everything, _ => some .lt
  | _, .everything => some .gt
  | .addresses baselineIpv6 baselineBits, .addresses requestedIpv6 requestedBits =>
    if baselineIpv6 = requestedIpv6 then some (compare baselineBits requestedBits) else none
  | .ports baselinePorts, .ports requestedPorts => some (compare requestedPorts baselinePorts)
  | .oneProtocol, .oneProtocol => some .eq
  | _, _ => none

/-- Whether a field override may replace the baseline on a rule carrying `action`. -/
def fieldOverrideIsAllowed (action : Chars) (field : Field) (baseline requested : Chars) : Bool :=
  if baseline = requested then true
  else
    match fieldBreadth field baseline, fieldBreadth field requested with
    | some baselineBreadth, some requestedBreadth =>
      match breadthOrder baselineBreadth requestedBreadth with
      | none => false
      | some order =>
        if isBlocking action then order != .lt
        else if action = "accept".toList then order != .gt
        else false
    | _, _ => false

/-- A directive's value as it was read, rather than as it was spelled. -/
def canonicalFieldValue (field : Field) (requested : Chars) : Chars :=
  match field with
  | .port =>
    match splitOnce '-' requested with
    | some (low, high) =>
      match parseUnsigned u16Bound low, parseUnsigned u16Bound high with
      | some low, some high => decimal low ++ '-' :: decimal high
      | _, _ => requested
    | none =>
      match parseUnsigned u16Bound requested with
      | some port => decimal port
      | none => requested
  | _ => requested

/-- A field of a rule after the directives: the override where it may stand. -/
def overrideField (config : PluginConfig) (id action : Chars) (field : Field) (current : Chars) : Chars :=
  match config.directives (id ++ '.' :: field.name) with
  | none => current
  | some requested =>
    if fieldOverrideIsAllowed action field current requested then canonicalFieldValue field requested else current

/-- The action of a rule after the directives. -/
def overrideAction (config : PluginConfig) (id current : Chars) : Chars :=
  match config.directives (id ++ ".action".toList) with
  | none => current
  | some action => if actionOverrideIsAllowed current action then action else current

/-- A rule after the directives. The action comes first: the other fields are judged against it. -/
def applyRuleDirectives (rule : Rule) (id : Chars) (config : PluginConfig) : Rule :=
  let action := overrideAction config id rule.action
  { rule with
    action
    port := overrideField config id action .port rule.port
    source := overrideField config id action .source rule.source
    protocol := overrideField config id action .protocol rule.protocol }

/-! ## The list -/

/-- One rule of the baseline: kept with its directives, or skipped by an exception. -/
def ruleStep (config : PluginConfig) (built : List Rule × List Change) (rule : Rule) : List Rule × List Change :=
  match config.hasValidException (ruleId rule) with
  | some exception =>
    (built.1, built.2 ++
      [Change.made .skipped (rule.description ++ ": skipped (exception: ".toList ++ exception.reason ++ ")".toList)])
  | none => (built.1 ++ [applyRuleDirectives rule (ruleId rule) config], built.2)

/-- The list a configuration makes of the baseline, with the change each exception is recorded by. -/
def buildRules (config : PluginConfig) : List Rule × List Change := baselineRules.foldl (ruleStep config) ([], [])

/-- Why a rule list must not be installed. -/
inductive RulesetRefusal where
  | admitsNothing
  | seversSession
  deriving DecidableEq, Repr

def RulesetRefusal.reason : RulesetRefusal → Chars
  | .admitsNothing =>
    "it admits nothing at all: the input chain is rendered with `policy drop`, so a ruleset carrying no accepting rule drops every inbound packet including loopback. Remove the exception on at least one accepting rule, or disable the firewall plugin if this host is not meant to be filtered by it."
  | .seversSession =>
    "it would sever the connection carrying this apply: the rule named \"Allow SSH to prevent lockout\" is excepted, and the input chain is rendered with `policy drop`, so nothing would admit this session once the ruleset loads. Apply from a console, or remove the exception on the ssh rule."

def rulesetRefusal (rules : List Rule) (sessionIsRemote : Bool) : Option RulesetRefusal :=
  if !rules.any fun rule => rule.action == "accept".toList then some .admitsNothing
  else
    let admitsSsh := rules.any fun rule => ruleId rule == "ssh".toList && rule.action == "accept".toList
    if sessionIsRemote && !admitsSsh then some .seversSession else none

/-! ## Errors -/

/-- An error's text, as `HardeningError::Plugin` displays it. -/
def pluginError (text : Chars) : Chars := "Plugin error: ".toList ++ text

/-- The last step of every backend's `enable`: its unit is wanted at boot. -/
def systemctlEnable (unit failed : Chars) : Session (Except Chars Unit) := do
  match ← execute "systemctl" ["enable", unit] with
  | .error e => return .error (pluginError (failed ++ e))
  | .ok output => if output.success then return .ok () else return .error (pluginError (failed ++ output.stderr))

/-- What is wrong with a rendered ruleset that was put to `nft --check`. -/
inductive CheckProblem where
  | notWritten (e : Chars)
  | notAsked (e : Chars)
  | notParsed (stderr : Chars)
  deriving DecidableEq, Repr

/-- Why a backend did not apply a rule list. -/
inductive RulesError where
  /-- `render_ruleset` rejects a rule's source. -/
  | render (rule : Rule) (source reason : Chars)
  /-- The dry run of the rendered ruleset fails. -/
  | check (problem : CheckProblem)
  /-- Anything later. -/
  | failed (text : Chars)
  deriving DecidableEq, Repr

/-! ## What a configuration leaves -/

/-- What becomes of one rule of the baseline. -/
def effectiveRule (config : PluginConfig) (rule : Rule) : Option Rule :=
  match config.hasValidException (ruleId rule) with
  | some _ => none
  | none => some (applyRuleDirectives rule (ruleId rule) config)

/-- The list a configuration leaves, rule by rule. -/
theorem effectiveRules_eq (config : PluginConfig) : (buildRules config).1 = baselineRules.filterMap (effectiveRule config) := by
  have step : ∀ (rules : List Rule) (built : List Rule × List Change),
      (rules.foldl (ruleStep config) built).1 = built.1 ++ rules.filterMap (effectiveRule config) := by
    intro rules
    induction rules with
    | nil => intro built; simp
    | cons rule rules ih =>
      intro built
      rw [List.foldl_cons, ih, List.filterMap_cons, ruleStep, effectiveRule]
      cases config.hasValidException (ruleId rule) <;> simp
  rw [buildRules, step]
  rfl

/-- A blocking rule stays blocking. -/
theorem actionOverrideIsAllowed_blocking {baseline requested : Chars} (hb : isBlocking baseline = true)
    (h : actionOverrideIsAllowed baseline requested = true) : isBlocking requested = true := by
  unfold actionOverrideIsAllowed at h
  split at h
  · assumption
  · split at h
    · rw [hb] at h
      cases h
    · cases h

end LinuxHardener.Firewall
