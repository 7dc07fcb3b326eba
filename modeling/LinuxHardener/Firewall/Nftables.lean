import LinuxHardener.Firewall.Rules
import LinuxHardener.Lib.IpAddr
import LinuxHardener.Ssh.Include

/-
  The nftables backend (`firewall/nftables.rs`).

  Correspondence (Rust ↔ Lean):
    `boot_ruleset`, `parse_boot_ruleset`, `parse_exec_start` ↔ the same in camel case
    `with_include_line`, `ensure_include_line`               ↔ `withIncludeLine`, `ensureIncludeLine`
    `build_nft_rule_args`                  ↔ `buildNftRuleArgs`
    `parse_source`, `saddr_family`         ↔ `parseSource`, `saddrFamily`
    `render_ruleset`                       ↔ `renderRuleset`
    `refuse_a_ruleset_nft_will_not_parse`  ↔ `refuseARulesetNftWillNotParse`
    `NftablesBackend::{checkpoint_paths, is_enabled, enable, apply_rules}` ↔ the same
-/
namespace LinuxHardener.Firewall

open Text hiding trim
open LineText Plugins Dialogue

/-- `NFTABLES_CHECK_PATH` -/
def nftablesCheckPath : Chars := "/run/linux-hardener-nftables-check.nft"

/-- `NFTABLES_TABLE` -/
def nftablesTable : Chars := "linux_hardener"

/-- `HARDENER_RULESET_DIR` -/
def hardenerRulesetDir : Chars := "/etc/linux-hardener/nftables"

/-- `HARDENER_RULESET_PATH` -/
def hardenerRulesetPath : Chars := "/etc/linux-hardener/nftables/50-linux-hardener.nft"

/-- `HARDENER_INCLUDE_LINE` -/
def hardenerIncludeLine : Chars := "include \"/etc/linux-hardener/nftables/*.nft\""

/-! ## The file the unit loads -/

/-- What systemd said about the unit that loads a ruleset at boot. -/
structure BootRuleset where
  loads : Except Chars Chars
  conditionGuardsIt : Bool

/-- A text as `{:?}` prints it, as far as what a unit file can hold goes. -/
def debugText (s : Chars) : Chars :=
  '"' :: s.flatMap (fun c =>
    if c = '"' then ['\\', '"'] else if c = '\\' then ['\\', '\\'] else if c = '\n' then ['\\', 'n']
    else if c = '\t' then ['\\', 't'] else if c = '\r' then ['\\', 'r'] else [c]) ++ ['"']

/-- The file after the first `-f` or `--file`. -/
def fileArgument (argv : Chars) : List Chars → Option (Except Chars Chars)
  | [] => none
  | token :: tokens =>
    if token = "-f".toList ∨ token = "--file".toList then
      match tokens with
      | path :: _ => some (.ok path)
      | [] => some (.error (token ++ " in the ExecStart names no file: ".toList ++ debugText argv))
    else fileArgument argv tokens

/-- The file an inline program includes. -/
def includedFile (argv : Chars) : Option Chars := do
  let (_, afterInclude) ← splitOnceAt "include \"" argv
  let (path, _) ← splitOnce '"' afterInclude
  if path = [] then none else some path

/-- The ruleset file an `ExecStart` property names. -/
def parseExecStart (execStart : Chars) : Except Chars Chars :=
  let trimmed := LineText.trim execStart
  if trimmed = [] then
    .error "systemctl reported no ExecStart for nftables.service, which is also what it reports for a unit that does not exist, and it exits 0 either way"
  else
    match splitOnceAt "argv[]=" trimmed with
    | none => .error ("the ExecStart property carries no argv[]: ".toList ++ debugText trimmed)
    | some (_, rest) =>
      let argv := match splitOnceAt " ; " rest with
        | some (argv, _) => argv
        | none => rest
      match fileArgument argv (words argv) with
      | some answer => answer
      | none =>
        match includedFile argv with
        | some path => .ok path
        | none => .error ("the ExecStart argv names no ruleset file, by -f and by include: ".toList ++ debugText argv)

def parseBootRuleset (execStart conditionPathExists : Chars) : BootRuleset :=
  let loads := parseExecStart execStart
  { loads
    conditionGuardsIt := match loads with
      | .ok path => (words conditionPathExists).any (· == path)
      | .error _ => false }

/-- One `Name=value` line's value, empty when there is none. -/
def property (shown name : Chars) : Chars :=
  ((lines shown).findSome? (stripStart (name ++ ['=']))).getD []

/-- The unit's own `ExecStart`, asked of systemd. -/
def bootRuleset : Session BootRuleset := do
  match ← execute "systemctl" ["show", "nftables.service", "-p", "ExecStart", "-p", "ConditionPathExists"] with
  | .error e => return ⟨.error ("systemctl could not be run: ".toList ++ e), false⟩
  | .ok output =>
    if output.success then return parseBootRuleset (property output.stdout "ExecStart") (property output.stdout "ConditionPathExists")
    else return ⟨.error ("systemctl could not describe nftables.service: ".toList ++ LineText.trim output.stderr), false⟩

/-! ## The include line -/

/-- The content with the include line in it, appended where there is none. -/
def withIncludeLine (existing includeLine : Chars) : Chars :=
  if (lines existing).any fun line => LineText.trim line == includeLine then existing
  else
    let separator : Chars := if existing = [] ∨ existing.getLast? = some '\n' then [] else ['\n']
    existing ++ separator ++ includeLine ++ ['\n']

/-- A boot file's content; one that is confirmed absent is empty. -/
def readBootFile (bootPath : Chars) : Session (Except Chars Chars) := do
  match ← pathExists bootPath with
  | .ok false => return .ok []
  | _ => readFile bootPath

def ensureIncludeLine (bootPath : Chars) : Session (Except RulesError Unit) := do
  match ← readBootFile bootPath with
  | .error e =>
    return .error (.failed (pluginError ("Refusing to append to ".toList ++ bootPath ++ ", which could not be read: ".toList ++
      e ++ ". Replacing a file whose content is unknown is how an administrator's ruleset gets lost.".toList)))
  | .ok existing =>
    let appended := withIncludeLine existing hardenerIncludeLine
    if appended = existing then return .ok ()
    else
      match ← writeFile bootPath appended with
      | .ok () => return .ok ()
      | .error e => return .error (.failed (pluginError ("Failed to append to ".toList ++ bootPath ++ ": ".toList ++ e)))

/-! ## Statements -/

/-- A rule's source as an address, with an optional prefix length that fits its family. -/
def parseSource (source : Chars) : Except Chars IpAddr :=
  let (address, bits) : Chars × Option Chars := match splitOnce '/' source with
    | some (address, bits) => (address, some bits)
    | none => (source, none)
  match parseIpAddr address with
  | none => .error (debugText address ++ " is not an IPv4 or IPv6 address".toList)
  | some parsed =>
    match bits with
    | none => .ok parsed
    | some bits =>
      match parseUnsigned u8Bound bits with
      | none => .error (debugText bits ++ " is not a prefix length".toList)
      | some n =>
        if IpAddr.familyBits parsed.isIpv6 < n then
          .error ("a /".toList ++ decimal n ++ " prefix does not fit ".toList ++ address ++ ", whose family has ".toList ++
            decimal (IpAddr.familyBits parsed.isIpv6) ++ " bits".toList)
        else .ok parsed

/-- The keyword matching a source of this one's family. -/
def saddrFamily (source : Chars) : Chars :=
  match parseSource source with
  | .ok address => if address.isIpv6 then "ip6" else "ip"
  | .error _ => "ip"

/-- Where a statement is added. -/
def nftRuleAddress : List Chars := ["add", "rule", "inet", nftablesTable, "input"]

/-- What a rule is as an nftables statement. -/
def nftStatement (rule : Rule) : List Chars :=
  if contains rule.description "loopback" then ["iif", "lo", "accept"]
  else if contains rule.description "established and related" then ["ct", "state", "established,related", "accept"]
  else
    (if rule.source ≠ "any".toList then [saddrFamily rule.source, "saddr", rule.source] else []) ++
      (if rule.protocol ≠ "all".toList ∧ rule.protocol ≠ "any".toList then
        rule.protocol :: (if rule.port ≠ "any".toList then ["dport", rule.port] else [])
      else []) ++
      [rule.action]

/-- `build_nft_rule_args` -/
def buildNftRuleArgs (rule : Rule) : List Chars := nftRuleAddress ++ nftStatement rule

/-- The source a statement matches on. -/
def saddrOf (args : List Chars) : Option Chars :=
  match args with
  | [] => none
  | token :: rest => if token = "saddr".toList then some (rest.headD []) else saddrOf rest

/-- A rule's line, or why its source cannot be matched on. -/
def renderRule (rule : Rule) : Except RulesError Chars :=
  let args := buildNftRuleArgs rule
  let line : Chars := "        ".toList ++ [' '].intercalate (args.drop 5)
  match saddrOf args with
  | none => .ok line
  | some source =>
    match parseSource source with
    | .ok _ => .ok line
    | .error reason => .error (.render rule source reason)

/-- The complete nftables script for a rule list. -/
def renderRuleset (rules : List Rule) : Except RulesError Chars := do
  let statements ← rules.mapM renderRule
  return "table inet linux_hardener\ndelete table inet linux_hardener\ntable inet linux_hardener \x7b\n    chain input \x7b\n        type filter hook input priority 0; policy drop;\n".toList ++
    ['\n'].intercalate statements ++
    "\n    \x7d\n    chain forward \x7b\n        type filter hook forward priority 0; policy drop;\n    \x7d\n    chain output \x7b\n        type filter hook output priority 0; policy accept;\n    \x7d\n\x7d\n".toList

/-! ## Errors -/

def CheckProblem.message : CheckProblem → Chars
  | .notWritten e =>
    "Could not write ".toList ++ nftablesCheckPath ++ " to check the ruleset before installing it: ".toList ++ e ++
      ". The boot path is untouched.".toList
  | .notAsked e =>
    "Could not ask nft to check the ruleset before installing it: ".toList ++ e ++ ". The boot path is untouched.".toList
  | .notParsed stderr =>
    "Refusing to install a ruleset nft will not parse: ".toList ++ stderr ++ ". The boot path is untouched.".toList

def RulesError.message : RulesError → Chars
  | .render rule source reason =>
    pluginError ("Refusing to render the nftables ruleset: the rule ".toList ++ debugText rule.description ++
      " matches on the source ".toList ++ debugText source ++ ", which cannot be matched on, because ".toList ++ reason ++
      ". Nothing has been written or loaded.".toList)
  | .check problem => pluginError problem.message
  | .failed text => text

/-! ## The backend -/

def executeNft (args : List Chars) : Session (Except Chars Chars) :=
  outputOf "nft" args (fun e => pluginError ("Failed to execute nft command: ".toList ++ e))
    (fun stderr => pluginError ("nft command failed: ".toList ++ stderr))

/-- A statement in comparable tokens. -/
def canonicalRuleTokens (tokens : List Chars) : List Chars :=
  (tokens.takeWhile fun token => token.head? != some '#').map fun token =>
    ((token.dropWhile (· == '"')).reverse.dropWhile (· == '"')).reverse

def parseInputChainRules (chainOutput : Chars) : List (List Chars) :=
  let structural (line : Chars) : Bool :=
    line.isEmpty || ["#", "table", "chain", "type", "\x7b", "\x7d"].any fun start : String => start.toList.isPrefixOf line
  (((lines chainOutput).map LineText.trim).filter fun line => !structural line).map fun line => canonicalRuleTokens (words line)

/-- The statements already in the chain; none when it cannot be read. -/
def existingInputRules : Session (List (List Chars)) := do
  match ← executeNft ["list", "chain", "inet", nftablesTable, "input"] with
  | .ok output => return parseInputChainRules output
  | .error _ => return []

/-- The dry run: the ruleset is parked, checked and removed again. -/
def refuseARulesetNftWillNotParse (ruleset : Chars) : Session (Except RulesError Unit) := do
  match ← writeFile nftablesCheckPath ruleset with
  | .error e => return .error (.check (.notWritten e))
  | .ok () =>
    let checked ← execute "nft" ["--check", "--file", nftablesCheckPath]
    -- The scratch file goes whichever way the check went.
    let _ ← execute "rm" ["-f", nftablesCheckPath]
    match checked with
    | .error e => return .error (.check (.notAsked e))
    | .ok output =>
      if output.success then return .ok () else return .error (.check (.notParsed (LineText.trim output.stderr)))

/-- Loads a ruleset live without leaving a persistent file behind. -/
def executeNftFromString (ruleset : Chars) : Session (Except RulesError Unit) := do
  match ← writeFile nftablesCheckPath ruleset with
  | .error e =>
    return .error (.failed (pluginError ("Could not write ".toList ++ nftablesCheckPath ++ ": ".toList ++ e)))
  | .ok () =>
    let loaded ← executeNft ["-f", nftablesCheckPath]
    let _ ← execute "rm" ["-f", nftablesCheckPath]
    match loaded with
    | .ok _ => return .ok ()
    | .error e => return .error (.failed e)

/-- What a rule is reported as: present already, or added. -/
def ruleChange (existing : List (List Chars)) (rule : Rule) : Change :=
  if existing.contains (canonicalRuleTokens (nftStatement rule)) then
    Change.made .skipped ("Firewall rule already present: ".toList ++ rule.description)
  else Change.made .firewallRule ("Added firewall rule: ".toList ++ rule.description)

def parentOf (path : Chars) : Chars := (Ssh.parent path).getD ['/']

/-- Directories made one after the other, up to the first that cannot be asked for. -/
def makeDirectories : List Chars → Session (Except RulesError Unit)
  | [] => return .ok ()
  | directory :: rest => do
    match ← execute "mkdir" ["-p", directory] with
    | .error e => return .error (.failed (pluginError ("Failed to create ".toList ++ directory ++ ": ".toList ++ e)))
    | .ok _ => makeDirectories rest

/-- The fragment, the include line and the load, once the boot path is known. -/
def installRuleset (bootPath ruleset : Chars) : Session (Except RulesError Unit) := do
  match ← makeDirectories [hardenerRulesetDir, parentOf bootPath] with
  | .error e => return .error e
  | .ok () =>
    match ← writeFile hardenerRulesetPath ruleset with
    | .error e =>
      return .error (.failed (pluginError ("Failed to write ".toList ++ hardenerRulesetPath ++ ": ".toList ++ e)))
    | .ok () =>
      match ← ensureIncludeLine bootPath with
      | .error e => return .error e
      | .ok () =>
        match ← executeNft ["-f", hardenerRulesetPath] with
        | .error e => return .error (.failed e)
        | .ok _ => return .ok ()

namespace Nftables

def checkpointPaths : Session (List Chars) := do
  match (← bootRuleset).loads with
  | .ok bootPath => return [bootPath, hardenerRulesetPath]
  | .error _ => return [hardenerRulesetPath]

def isEnabled : Session (Except Chars Unit) := do
  match ← executeNft ["list", "ruleset"] with
  | .error e => return .error e
  | .ok output =>
    if contains output "hook input" then return .ok ()
    else return .error (pluginError "Nftables has no active input-hook chain")

def enable : Session (Except Chars Unit) := systemctlEnable "nftables" "Failed to enable nftables: "

/-- What follows the dry run. -/
def install (rules : List Rule) (ruleset : Chars) : Session (Except RulesError (List Change)) := do
  let changes := rules.map (ruleChange (← existingInputRules))
  match (← bootRuleset).loads with
  | .error why =>
    match ← executeNftFromString ruleset with
    | .error e => return .error e
    | .ok () =>
      return .ok (changes ++
        [Change.made .skipped ("Firewall rules are live but will not persist across a reboot: ".toList ++ why)])
  | .ok bootPath =>
    match ← installRuleset bootPath ruleset with
    | .error e => return .error e
    | .ok () => return .ok changes

def applyRules (rules : List Rule) : Session (Except RulesError (List Change)) := do
  match renderRuleset rules with
  | .error e => return .error e
  | .ok ruleset =>
    match ← refuseARulesetNftWillNotParse ruleset with
    | .error e => return .error e
    | .ok () => install rules ruleset

end Nftables

end LinuxHardener.Firewall
