import LinuxHardener.Firewall.Apply
import LinuxHardener.Firewall.Packets

/-
  What the statements a backend emits do to a packet: each tool's own reading of them.

  Nothing here is translated from the plugin. A statement the tool does not take is not in
  force: nft loads a ruleset as a whole or not at all, the other two take one statement
  after the other.

  What is proved:
    1. `renderRule_line` — a line of the rendered ruleset is its rule's statement.
    2. `Ufw.run_applyRules` — the ufw commands of a run are the statements of its rules.
    3. `Firewalld.run_applyRules` — the zone edits of a run are the edits its rules come to.
-/
namespace LinuxHardener.Firewall

open LineText Plugins Dialogue

/-- The questions of a list of programs in a row are each one's questions. -/
theorem queries_mapM {α β : Type} {program : α → Session β} {ask : α → Option (List Chars)} {q : List Chars → Query}
    (h : ∀ a es b, Run (program a) es b → es.map Event.query = (ask a).toList.map q) {as : List α} {es : List Exchange}
    {bs : List β} (hr : Run (as.mapM program) es bs) : es.map Event.query = (as.filterMap ask).map q := by
  induction as generalizing es bs with
  | nil =>
    obtain ⟨rfl, _⟩ := run_pure.mp hr
    rfl
  | cons a as ih =>
    rw [List.mapM_cons] at hr
    obtain ⟨es₁, b, es₂, rfl, h₁, h₂⟩ := run_bind.mp hr
    obtain ⟨es₃, bs', es₄, rfl, h₃, h₄⟩ := run_bind.mp h₂
    obtain ⟨rfl, _⟩ := run_pure.mp h₄
    rw [List.map_append, List.map_append, h a es₁ b h₁, ih h₃, List.filterMap_cons, List.map_nil, List.append_nil]
    cases ask a <;> rfl

/-- One command is asked for, whatever comes of it. -/
theorem queries_outputOf {program : Chars} {args : List Chars} {onError onFailure : Chars → Chars} {es : List Exchange}
    {r : Except Chars Chars} (hr : Run (outputOf program args onError onFailure) es r) :
    es.map Event.query = [.execute program args] := by
  obtain ⟨answer, es', rfl, h⟩ := run_execute.mp hr
  have hnone : es' = [] := by
    cases answer with
    | error e => exact (run_pure.mp h).1
    | ok output => dsimp only at h; split at h <;> exact (run_pure.mp h).1
  rw [hnone]
  rfl

/-- A command with nothing asked after it. -/
theorem queries_edit {β : Type} {program : Chars} {args : List Chars} {onError onFailure : Chars → Chars}
    {f : Except Chars Chars → Session β} (hf : ∀ r {es : List Exchange} {b : β}, Run (f r) es b → es = [])
    {es : List Exchange} {b : β} (hr : Run (outputOf program args onError onFailure >>= f) es b) :
    es.map Event.query = [.execute program args] := by
  obtain ⟨es₁, r, es₂, rfl, h₁, h₂⟩ := run_bind.mp hr
  rw [hf r h₂, List.append_nil]
  exact queries_outputOf h₁

/-! ## nftables -/

def isOctal (c : Char) : Bool := '0' ≤ c && c ≤ '7'

/-- A number as nft's scanner reads it: a leading zero makes it octal. -/
def nftNumber (s : Chars) : Option Nat :=
  match s with
  | '0' :: d :: ds => if (d :: ds).all isOctal then some (Nat.ofDigitChars 8 (d :: ds) 0) else none
  | ds => if ds ≠ [] ∧ ds.all Char.isDigit then some (Nat.ofDigitChars 10 ds 0) else none

def nftRange (port : Chars) : Option (Nat × Nat) :=
  match splitOnce '-' port with
  | none => (nftNumber port).bind fun n => if n < u16Bound then some (n, n) else none
  | some (low, high) =>
    match nftNumber low, nftNumber high with
    | some low, some high => if low ≤ high ∧ high < u16Bound then some (low, high) else none
    | _, _ => none

/-- A source after `ip saddr` or `ip6 saddr`, which take one family each. -/
def nftSource (ipv6 : Bool) (source : Chars) : Option Network :=
  (readNetwork nftNumber source).filter fun n => n.address.isIpv6 == ipv6

def readState (state : Chars) : Option ConnState :=
  if state = "new".toList then some .new
  else if state = "established".toList then some .established
  else if state = "related".toList then some .related
  else if state = "invalid".toList then some .invalid
  else none

def isTcp : Transport → Bool
  | .tcp _ => true
  | _ => false

def isUdp : Transport → Bool
  | .udp _ => true
  | _ => false

/-- A condition of three words. -/
def nftCondition (key operand value : Chars) : Option (Packet → Bool) :=
  if key = "ct".toList ∧ operand = "state".toList then
    ((splitAt ',' value).mapM readState).map fun states p => states.contains p.state
  else if key = "ip".toList ∧ operand = "saddr".toList then
    (nftSource false value).map fun n p => decide (n.Contains p.source)
  else if key = "ip6".toList ∧ operand = "saddr".toList then
    (nftSource true value).map fun n p => decide (n.Contains p.source)
  else if key = "tcp".toList ∧ operand = "dport".toList then
    (nftRange value).map fun range p => isTcp p.transport && rangeCovers (some range) p.transport
  else if key = "udp".toList ∧ operand = "dport".toList then
    (nftRange value).map fun range p => isUdp p.transport && rangeCovers (some range) p.transport
  else none

/-- A filter with one more condition. -/
def withCondition (condition : Packet → Bool) (f : Filter Packet Verdict) : Filter Packet Verdict :=
  ⟨fun p => condition p && f.covers p, f.verdict⟩

/-- A statement of an nft chain, as far as the plugin's go: conditions, then a verdict. -/
def readNft : List Chars → Option (Filter Packet Verdict)
  | [] => none
  | [verdict] => (readVerdict verdict).map fun v => ⟨fun _ => true, v⟩
  | key :: operand :: rest =>
    if key = "iif".toList then (readNft rest).map (withCondition fun p => p.interface == operand)
    else
      match rest with
      | [] => none
      | value :: rest =>
        match nftCondition key operand value with
        | none => none
        | some condition => (readNft rest).map (withCondition condition)

/-- A line of the rendered ruleset is its rule's statement, indented. -/
theorem renderRule_line {rule : Rule} {line : Chars} (h : renderRule rule = .ok line) :
    line = "        ".toList ++ [' '].intercalate (nftStatement rule) := by
  unfold renderRule at h
  dsimp only at h
  split at h
  · exact (Except.ok.inj h).symm
  · split at h
    · exact (Except.ok.inj h).symm
    · cases h

/-- The input chain nft loads; none when the ruleset is not rendered or does not parse. -/
def nftChain (rules : List Rule) : Option (List (Filter Packet Verdict)) :=
  match renderRuleset rules with
  | .error _ => none
  | .ok _ => rules.mapM fun rule => readNft (nftStatement rule)

/-- The chain's policy is drop. -/
def nftVerdict (chain : List (Filter Packet Verdict)) : Packet → Verdict := firstMatch .drop chain

/-! ## ufw -/

/-- A port or a range as ufw takes them: from 1 on, and a range of at least two. -/
def ufwRange (port : Chars) : Option (Nat × Nat) :=
  match splitOnce ':' port with
  | none => (parseDigits u16Bound port).bind fun n => if 1 ≤ n then some (n, n) else none
  | some (low, high) =>
    match parseDigits u16Bound low, parseDigits u16Bound high with
    | some low, some high => if 1 ≤ low ∧ low < high then some (low, high) else none
    | _, _ => none

/-- What a ufw rule asks of a packet. -/
structure UfwCriteria where
  source : Chars
  port : Chars
  protocol : Chars

def UfwCriteria.none : UfwCriteria := ⟨"any", "any", "any"⟩

/-- The words after the action. -/
def readUfwCriteria (c : UfwCriteria) : List Chars → Option UfwCriteria
  | [] => some c
  | [_] => .none
  | key :: value :: rest =>
    if key = "from".toList then readUfwCriteria { c with source := value } rest
    else if key = "to".toList ∧ value = "any".toList then readUfwCriteria c rest
    else if key = "port".toList then readUfwCriteria { c with port := value } rest
    else if key = "proto".toList then readUfwCriteria { c with protocol := value } rest
    else .none

/-- A source as ufw takes it: the prefix length is digits alone. -/
def ufwSource (source : Chars) : Option Network := readNetwork (parseDigits u8Bound) source

/-- Whether ufw takes a rule of these criteria. More than one port needs a protocol. -/
def ufwTakes (c : UfwCriteria) : Bool :=
  (c.source == "any".toList || (ufwSource c.source).isSome) &&
    (c.port == "any".toList || (ufwRange c.port).isSome) &&
    (c.protocol == "any".toList && !c.port.contains ':' || c.protocol == "tcp".toList || c.protocol == "udp".toList)

def ufwCovers (c : UfwCriteria) (p : Packet) : Bool :=
  (c.source == "any".toList || networkCovers (ufwSource c.source) p.source) &&
    (c.port == "any".toList || rangeCovers (ufwRange c.port) p.transport) &&
    protocolCovers c.protocol p.transport

def readUfwAction (action : Chars) : Option Verdict :=
  if action = "allow".toList then some .accept
  else if action = "deny".toList then some .drop
  else if action = "reject".toList then some .reject
  else none

/-- What a `ufw` command comes to. -/
inductive UfwEdit where
  | setIncoming (policy : Verdict)
  | add (rule : Filter Packet Verdict)

def readUfwDefault : List Chars → Option UfwEdit
  | [policy, direction] => if direction = "incoming".toList then (readUfwAction policy).map .setIncoming else none
  | _ => none

def readUfw : List Chars → Option UfwEdit
  | [] => none
  | action :: args =>
    if action = "default".toList then readUfwDefault args
    else if args = [] then none
    else
      match readUfwAction action, readUfwCriteria .none args with
      | some verdict, some c => if ufwTakes c then some (.add ⟨ufwCovers c, verdict⟩) else none
      | _, _ => none

/-- What both ufw and firewalld accept on their own before any rule. -/
def builtinFilters : List (Filter Packet Verdict) := [⟨Packet.isLocal, .accept⟩, ⟨Packet.isTracked, .accept⟩]

structure Ufw where
  incoming : Verdict
  rules : List (Filter Packet Verdict)

namespace Ufw

def run (u : Ufw) (args : List Chars) : Ufw :=
  match readUfw args with
  | none => u
  | some (.setIncoming policy) => { u with incoming := policy }
  | some (.add rule) => { u with rules := u.rules ++ [rule] }

def verdict (u : Ufw) : Packet → Verdict := firstMatch u.incoming (builtinFilters ++ u.rules)

/-- The ufw command a rule comes to, where it comes to one. -/
def statement (defaultAlreadyDeny : Bool) (rule : Rule) : Option (List Chars) :=
  if rule.description = "Allow established and related connections".toList then none
  else if rule.description = defaultInboundRule ∧ defaultAlreadyDeny then none
  else some (buildUfwRuleArgs rule)

theorem run_applyRule {defaultAlreadyDeny : Bool} {rule : Rule} {es : List Exchange} {change : Change}
    (hr : Run (applyRule defaultAlreadyDeny rule) es change) :
    es.map Event.query = (statement defaultAlreadyDeny rule).toList.map (.execute "ufw") := by
  unfold applyRule at hr
  unfold statement
  split at hr
  · next h =>
    obtain ⟨rfl, _⟩ := run_pure.mp hr
    rw [if_pos h]
    rfl
  · next h =>
    rw [if_neg h]
    split at hr
    · next hd =>
      obtain ⟨rfl, _⟩ := run_pure.mp hr
      rw [if_pos hd]
      rfl
    · next hd =>
      rw [if_neg hd]
      obtain ⟨es₁, r, es₂, rfl, h₁, h₂⟩ := run_bind.mp hr
      have hcommand := queries_outputOf h₁
      have hnone : es₂ = [] := by
        cases r with
        | error e => exact (run_pure.mp h₂).1
        | ok output => dsimp only at h₂; split at h₂ <;> exact (run_pure.mp h₂).1
      rw [hnone, List.append_nil, hcommand]
      rfl

/-- The ufw commands of a run are the statements of its rules, in their order. -/
theorem run_applyRules {rules : List Rule} {es : List Exchange} {result : Except RulesError (List Change)}
    (hr : Run (applyRules rules) es result) :
    ∃ es₁ defaultAlreadyDeny es₂, es = es₁ ++ es₂ ∧ Run defaultIncomingIsDeny es₁ defaultAlreadyDeny ∧
      es₂.map Event.query = (rules.filterMap (statement defaultAlreadyDeny)).map (.execute "ufw") := by
  obtain ⟨es₁, defaultAlreadyDeny, es₂, rfl, h₁, h₂⟩ := run_bind.mp hr
  obtain ⟨es₃, changes, es₄, rfl, h₃, h₄⟩ := run_bind.mp h₂
  obtain ⟨rfl, _⟩ := run_pure.mp h₄
  refine ⟨es₁, defaultAlreadyDeny, es₃ ++ [], rfl, h₁, ?_⟩
  rw [List.append_nil]
  exact queries_mapM (fun _ _ _ h => run_applyRule h) h₃

/-- ufw after the statements of a rule list. -/
def load (u : Ufw) (defaultAlreadyDeny : Bool) (rules : List Rule) : Ufw :=
  (rules.filterMap (statement defaultAlreadyDeny)).foldl run u

end Ufw

/-! ## firewalld -/

/-- What a zone does with a packet nothing in it accepts. -/
inductive ZoneTarget where
  | default
  | accept
  | drop
  | reject
  deriving DecidableEq, Repr

def ZoneTarget.verdict : ZoneTarget → Verdict
  | default => .reject
  | accept => .accept
  | drop => .drop
  | reject => .reject

/-- A port as firewalld takes it. -/
def readPortSpec (spec : Chars) : Option (Filter Packet Verdict) :=
  match splitOnce '/' spec with
  | none => none
  | some (port, protocol) =>
    match zonePorts port with
    | none => none
    | some range =>
      if protocol = "tcp".toList ∨ protocol = "udp".toList then
        some ⟨fun p => protocolCovers protocol p.transport && rangeCovers (some range) p.transport, .accept⟩
      else none
where
  /-- Ports by their digits; the ends of a range may stand in either order. -/
  zonePorts (port : Chars) : Option (Nat × Nat) :=
    match splitOnce '-' port with
    | none => (parseDigits u16Bound port).map fun n => (n, n)
    | some (low, high) =>
      match parseDigits u16Bound low, parseDigits u16Bound high with
      | some low, some high => some (min low high, max low high)
      | _, _ => none

structure Zone where
  target : ZoneTarget
  ports : List Chars
  deriving DecidableEq, Repr

namespace Zone

/-- A permanent edit, once the zone is reloaded. -/
def edit (z : Zone) : ZoneEdit → Zone
  | .setTarget => { z with target := .drop }
  | .addPort spec => if (readPortSpec spec).isSome then { z with ports := z.ports ++ [spec] } else z

def verdict (z : Zone) : Packet → Verdict := firstMatch z.target.verdict (builtinFilters ++ z.ports.filterMap readPortSpec)

end Zone

namespace Firewalld

/-- The edit a rule comes to, less what is in force already. -/
def statement (existingPorts : List Chars) (targetAlreadyDrop : Bool) (rule : Rule) : Option ZoneEdit :=
  match zoneEdit rule with
  | none => none
  | some .setTarget => if targetAlreadyDrop then none else some .setTarget
  | some (.addPort spec) => if existingPorts.contains spec then none else some (.addPort spec)

/-- The `firewall-cmd` an edit is made by. -/
def editArgs (zone : Chars) : ZoneEdit → List Chars
  | .setTarget => ["--permanent", "--zone", zone, "--set-target=DROP"]
  | .addPort spec => ["--permanent", "--zone", zone, "--add-port", spec]

theorem run_applyRule {zone : Chars} {existingPorts : List Chars} {targetAlreadyDrop : Bool} {rule : Rule}
    {es : List Exchange} {changes : List Change} (hr : Run (applyRule zone existingPorts targetAlreadyDrop rule) es changes) :
    es.map Event.query =
      ((statement existingPorts targetAlreadyDrop rule).map (editArgs zone)).toList.map (.execute "firewall-cmd") := by
  unfold applyRule at hr
  unfold statement
  cases hedit : zoneEdit rule with
  | none =>
    rw [hedit] at hr
    obtain ⟨rfl, _⟩ := run_pure.mp hr
    rfl
  | some edit =>
    rw [hedit] at hr
    cases edit with
    | setTarget =>
      dsimp only at hr ⊢
      split at hr
      · next h =>
        rw [if_pos h]
        obtain ⟨rfl, _⟩ := run_pure.mp hr
        rfl
      · next h =>
        rw [if_neg h]
        refine queries_edit (fun r _ _ h => ?_) hr
        cases r <;> exact (run_pure.mp h).1
    | addPort spec =>
      dsimp only at hr ⊢
      split at hr
      · next h =>
        rw [if_pos h]
        obtain ⟨rfl, _⟩ := run_pure.mp hr
        rfl
      · next h =>
        rw [if_neg h]
        refine queries_edit (fun r _ _ h => ?_) hr
        cases r <;> exact (run_pure.mp h).1

/-- The zone edits of a run are the edits its rules come to, in their order; at most a reload
follows them. -/
theorem run_applyRules {rules : List Rule} {es : List Exchange} {changes : List Change}
    (hr : Run (applyRules rules) es (.ok changes)) :
    ∃ zone existingPorts targetAlreadyDrop es₀ es₁ es₂ es₃ es₄, es = es₀ ++ (es₁ ++ (es₂ ++ (es₃ ++ es₄))) ∧
      Run getDefaultZone es₀ (.ok zone) ∧ Run (permanentPorts zone) es₁ existingPorts ∧
      Run (permanentTargetIsDrop zone) es₂ targetAlreadyDrop ∧
      es₃.map Event.query =
        ((rules.filterMap (statement existingPorts targetAlreadyDrop)).map (editArgs zone)).map (.execute "firewall-cmd") ∧
      (es₄.map Event.query = [] ∨ es₄.map Event.query = [.execute "firewall-cmd" ["--reload"]]) := by
  obtain ⟨es₀, r, esa, rfl, h₀, ha⟩ := run_bind.mp hr
  cases r with
  | error e => cases (run_pure.mp ha).2
  | ok zone =>
    obtain ⟨es₁, existingPorts, esb, rfl, h₁, hb⟩ := run_bind.mp ha
    obtain ⟨es₂, targetAlreadyDrop, esc, rfl, h₂, hc⟩ := run_bind.mp hb
    obtain ⟨es₃, reported, es₄, rfl, h₃, hd⟩ := run_bind.mp hc
    refine ⟨zone, existingPorts, targetAlreadyDrop, es₀, es₁, es₂, es₃, es₄, rfl, h₀, h₁, h₂, ?_, ?_⟩
    · rw [List.map_filterMap]
      exact queries_mapM (fun _ _ _ h => run_applyRule h) h₃
    · dsimp only at hd
      split at hd
      · obtain ⟨rfl, _⟩ := run_pure.mp hd
        exact .inl rfl
      · refine .inr (queries_edit (fun r _ _ h => ?_) hd)
        cases r <;> exact (run_pure.mp h).1

/-- A zone after the edits of a rule list. -/
def load (z : Zone) (existingPorts : List Chars) (targetAlreadyDrop : Bool) (rules : List Rule) : Zone :=
  (rules.filterMap (statement existingPorts targetAlreadyDrop)).foldl Zone.edit z

end Firewalld

end LinuxHardener.Firewall
