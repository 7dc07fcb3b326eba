import LinuxHardener.Firewall.Apply

/-
  A host under a firewall apply: what is enforced, what starts at boot, what is loaded,
  and its files; and what the commands of an apply do to it.

  Only what has to be known of the tools is said here: a probe changes nothing,
  `systemctl enable` makes the unit wanted, turning a backend on makes it enforce, and a
  command that fails does nothing. What is loaded when a backend is turned on, and what
  the statements of the backends do, is a parameter.
-/
namespace LinuxHardener.Firewall

open LineText Plugins Dialogue

/-- A host, with rulesets of type `R`. Enablement at boot is a matter of links below
`/etc/systemd/system`, which `wanted` stands for. -/
structure Host (R : Type) where
  enforcing : Backend → Bool
  wanted : Chars → Bool
  loaded : R
  file : Chars → Option Chars

/-- The part of the tools' work that is left open. -/
structure Tools (R : Type) where
  /-- What a host becomes when a backend that was off is turned on. -/
  turnedOn : Backend → Host R → Host R
  /-- What a command changes that is neither a probe nor one of those below. -/
  other : Chars → List Chars → Host R → Host R

namespace Host

variable {R : Type}

/-- A backend is made to enforce. -/
def turnOn (tools : Tools R) (b : Backend) (h : Host R) : Host R :=
  if h.enforcing b then h else { tools.turnedOn b h with enforcing := Function.update h.enforcing b true }

/-- What a backend's own enabling does, its unit apart: nftables has nothing but its unit. -/
def switchOn (tools : Tools R) (b : Backend) (h : Host R) : Host R := if b = .nftables then h else h.turnOn tools b

/-- A unit is made to start at boot. -/
def want (unit : Chars) (h : Host R) : Host R := { h with wanted := Function.update h.wanted unit true }

def setFile (path : Chars) (content : Option Chars) (h : Host R) : Host R :=
  { h with file := Function.update h.file path content }

theorem enforcing_turnOn (tools : Tools R) (b : Backend) (h : Host R) : (h.turnOn tools b).enforcing b = true := by
  unfold turnOn
  split
  · assumption
  · exact Function.update_self ..

theorem turnOn_eq_self {tools : Tools R} {b : Backend} {h : Host R} : h.turnOn tools b = h ↔ h.enforcing b = true := by
  constructor
  · intro heq
    have hon := enforcing_turnOn tools b h
    rwa [heq] at hon
  · intro hon
    rw [turnOn, if_pos hon]

theorem switchOn_eq_self {tools : Tools R} {b : Backend} {h : Host R} :
    h.switchOn tools b = h ↔ b = .nftables ∨ h.enforcing b = true := by
  unfold switchOn
  split
  · next hb => simp [hb]
  · next hb => simp [hb, turnOn_eq_self]

theorem wanted_want (unit : Chars) (h : Host R) : (h.want unit).wanted unit = true := Function.update_self ..

theorem want_eq_self {unit : Chars} {h : Host R} : h.want unit = h ↔ h.wanted unit = true := by
  constructor
  · intro heq
    have hw := wanted_want unit h
    rwa [heq] at hw
  · intro hw
    rw [want, ← hw, Function.update_eq_self]

theorem file_setFile (path : Chars) (content : Option Chars) (h : Host R) : (h.setFile path content).file path = content :=
  Function.update_self ..

theorem setFile_eq_self {path : Chars} {content : Option Chars} {h : Host R} :
    h.setFile path content = h ↔ h.file path = content := by
  constructor
  · intro heq
    have hc := file_setFile path content h
    rwa [heq] at hc
  · intro hc
    rw [setFile, ← hc, Function.update_eq_self]

theorem setFile_setFile (path : Chars) (c d : Option Chars) (h : Host R) : (h.setFile path c).setFile path d = h.setFile path d := by
  rw [setFile, setFile, setFile, Function.update_idem]

end Host

/-! ## Commands -/

/-- The commands that only ask. -/
def isProbe (program : Chars) (args : List Chars) : Bool :=
  program == "sh".toList ||
    (program == "systemctl".toList && (args.head? == some "show".toList || args.head? == some "is-active".toList ||
      args.head? == some "is-enabled".toList)) ||
    (program == "ufw".toList && args.head? == some "status".toList) ||
    (program == "firewall-cmd".toList && (args == ["--state".toList] || args == ["--get-default-zone".toList] ||
      args.getLast? == some "--list-ports".toList || args.getLast? == some "--get-target".toList)) ||
    (program == "nft".toList && (args.head? == some "list".toList || args.head? == some "--check".toList))

variable {R : Type}

/-- What a command does that succeeded. -/
def runCommand (tools : Tools R) (program : Chars) (args : List Chars) (h : Host R) : Host R :=
  if isProbe program args then h
  else if program = "systemctl".toList ∧ args = ["start".toList, Backend.firewalld.systemdUnit] then h.turnOn tools .firewalld
  else if program = "ufw".toList ∧ args = ["--force".toList, "enable".toList] then h.turnOn tools .ufw
  else
    match args with
    | [verb, object] =>
      if program = "systemctl".toList ∧ verb = "enable".toList then h.want object
      else if program = "rm".toList ∧ verb = "-f".toList then h.setFile object none
      else tools.other program args h
    | _ => tools.other program args h

/-- What an exchange leaves of the host. The checkpoint goes to the tool's own store. -/
def react (tools : Tools R) (h : Host R) : Exchange → Host R
  | ⟨.execute program args, .ok output⟩ => if output.success then runCommand tools program args h else h
  | ⟨.writeFile path content, .ok ()⟩ => h.setFile path (some content)
  | _ => h

/-- A question that changes nothing, whatever the answer. -/
def Inert : Query → Prop
  | .execute program args => isProbe program args = true
  | .writeFile _ _ => False
  | _ => True

theorem react_inert {tools : Tools R} {e : Exchange} (h : Inert e.query) (host : Host R) : react tools host e = host := by
  obtain ⟨q, r⟩ := e
  cases q with
  | execute program args =>
    have hp : isProbe program args = true := h
    cases r with
    | error e => rfl
    | ok output =>
      rw [react]
      split
      · unfold runCommand
        rw [if_pos hp]
      · rfl
  | pathExists path => cases r <;> rfl
  | metadata path => cases r <;> rfl
  | readFile path => cases r <;> rfl
  | readDir path => cases r <;> rfl
  | writeFile path content => cases h
  | checkpoint name paths => cases r <;> rfl

/-- A program of inert questions leaves the host as it is. -/
theorem after_inert {α : Type} {tools : Tools R} {p : Session α} {es : List Exchange} {a : α} (hp : Asks Inert p)
    (h : Run p es a) (host : Host R) : after (react tools) host es = host :=
  after_eq_self (fun e he host => react_inert (hp.of_run h e he) host) host

theorem react_enable (tools : Tools R) (h : Host R) (unit : Chars) {output : CommandOutput} (hs : output.success = true) :
    react tools h ⟨.execute "systemctl" ["enable", unit], .ok output⟩ = h.want unit := by
  rw [react, if_pos hs]
  rfl

/-! ## What the answers of a run say -/

/-- How a backend is asked whether it is on. -/
def Backend.statusArgs : Backend → List Chars
  | firewalld => ["--state"]
  | ufw => ["status"]
  | nftables => ["list", "ruleset"]

/-- What it prints when it is. -/
def Backend.reportsActive (b : Backend) (stdout : Chars) : Bool :=
  match b with
  | firewalld => LineText.trim stdout == "running".toList
  | ufw => contains stdout "Status: active"
  | nftables => contains stdout "hook input"

/-- The backend said that it is on. -/
def ReportedActive (b : Backend) (es : List Exchange) : Prop :=
  ∃ output : CommandOutput, ⟨.execute b.command b.statusArgs, .ok output⟩ ∈ es ∧ output.success = true ∧
    b.reportsActive output.stdout = true

/-- systemd said that the unit starts at boot. -/
def ReportedWanted (unit : Chars) (es : List Exchange) : Prop :=
  ∃ output : CommandOutput, ⟨.execute "systemctl" ["is-enabled", unit], .ok output⟩ ∈ es ∧
    LineText.trim output.stdout = "enabled".toList

/-- systemd was told to start the unit at boot, and did. -/
def EnableAccepted (unit : Chars) (es : List Exchange) : Prop :=
  ∃ output : CommandOutput, ⟨.execute "systemctl" ["enable", unit], .ok output⟩ ∈ es ∧ output.success = true

/-- Where the probes of a run answered yes, it is so. -/
structure Truthful (h : Host R) (es : List Exchange) : Prop where
  active : ∀ b, ReportedActive b es → h.enforcing b = true
  wanted : ∀ unit, ReportedWanted unit es → h.wanted unit = true

end LinuxHardener.Firewall
