import LinuxHardener.Firewall.Rules
import LinuxHardener.Lib.IpAddr
import LinuxHardener.Lib.FirstMatch

/-
  The inbound packets a rule list is about, and what the list says of them.

  This is the list's own meaning, apart from any backend: its rules are tried in order,
  the first that covers a packet decides, and what none covers is dropped.
-/
namespace LinuxHardener.Firewall

open LineText Plugins

/-- What a packet carries. Only TCP and UDP have ports. -/
inductive Transport where
  | tcp (dport : Fin 65536)
  | udp (dport : Fin 65536)
  | other (protocol : Nat)
  deriving DecidableEq, Repr

def Transport.dport : Transport → Option Nat
  | tcp p => some p
  | udp p => some p
  | other _ => none

/-- Where connection tracking places a packet. -/
inductive ConnState where
  | new
  | established
  | related
  | invalid
  deriving DecidableEq, Repr

/-- Addresses that share their leading bits. -/
structure Network where
  address : IpAddr
  bits : Nat
  deriving DecidableEq, Repr

def Network.Contains (n : Network) (a : IpAddr) : Prop := IpAddr.InNetwork n.address n.bits a

instance (n : Network) (a : IpAddr) : Decidable (n.Contains a) :=
  inferInstanceAs (Decidable (IpAddr.InNetwork n.address n.bits a))

/-- 127.0.0.0/8 -/
def loopbackNetwork : Network := ⟨.v4 (BitVec.ofNat 32 2130706433).toFin, 8⟩

def loopbackInterface : Chars := "lo"

/-- A packet that reaches the input hook. The kernel drops a loopback source arriving on
another interface before that. -/
structure Packet where
  transport : Transport
  source : IpAddr
  interface : Chars
  state : ConnState
  notMartian : loopbackNetwork.Contains source → interface = loopbackInterface

def Packet.isLocal (p : Packet) : Bool := p.interface == loopbackInterface

/-- Whether connection tracking has seen the packet's connection. -/
def Packet.isTracked (p : Packet) : Bool := p.state == .established || p.state == .related

inductive Verdict where
  | accept
  | drop
  | reject
  deriving DecidableEq, Repr

def readVerdict (action : Chars) : Option Verdict :=
  if action = "accept".toList then some .accept
  else if action = "drop".toList then some .drop
  else if action = "reject".toList then some .reject
  else none

/-! ## Reading a rule's fields -/

def protocolCovers (protocol : Chars) : Transport → Bool
  | .tcp _ => protocol == "tcp".toList || protocol == "all".toList || protocol == "any".toList
  | .udp _ => protocol == "udp".toList || protocol == "all".toList || protocol == "any".toList
  | .other _ => protocol == "all".toList || protocol == "any".toList

/-- Whether a range of ports, as somebody reads it, holds a packet's port. -/
def rangeCovers (range : Option (Nat × Nat)) (t : Transport) : Bool :=
  match range, t.dport with
  | some (low, high), some dport => decide (low ≤ dport) && decide (dport ≤ high)
  | _, _ => false

def portCovers (port : Chars) (t : Transport) : Bool := port == "any".toList || rangeCovers (parsePorts port) t

/-- An address with an optional prefix length, the length read by `readBits`. -/
def readNetwork (readBits : Chars → Option Nat) (source : Chars) : Option Network :=
  match splitOnce '/' source with
  | none => (parseIpAddr source).map fun a => ⟨a, IpAddr.familyBits a.isIpv6⟩
  | some (address, bits) =>
    match parseIpAddr address, readBits bits with
    | some a, some n => if IpAddr.familyBits a.isIpv6 < n then none else some ⟨a, n⟩
    | _, _ => none

/-- A rule's source, as the plugin reads numbers. -/
def sourceNetwork (source : Chars) : Option Network := readNetwork (parseUnsigned u8Bound) source

def networkCovers (network : Option Network) (a : IpAddr) : Bool :=
  match network with
  | none => false
  | some n => decide (n.Contains a)

def sourceCovers (source : Chars) (a : IpAddr) : Bool := source == "any".toList || networkCovers (sourceNetwork source) a

/-- Whether a source is the loopback network, whichever of its addresses names it. -/
def isLoopbackSource (source : Chars) : Bool :=
  match sourceNetwork source with
  | none => false
  | some n => n.bits == 8 && decide (loopbackNetwork.Contains n.address)

/-! ## The list -/

/-- What a rule covers: its fields, and of the two rules that name more than fields can say,
the loopback rule's network stands for whatever arrives on the loopback interface and the
established rule asks for a tracked connection. -/
def ruleCovers (rule : Rule) (p : Packet) : Bool :=
  protocolCovers rule.protocol p.transport && portCovers rule.port p.transport &&
    (sourceCovers rule.source p.source ||
      ruleId rule == "loopback".toList && isLoopbackSource rule.source && p.isLocal) &&
    (ruleId rule != "established".toList || p.isTracked)

/-- A rule as one entry of a first-match list. An unreadable action admits nothing. -/
def ruleFilter (rule : Rule) : Filter Packet Verdict := ⟨ruleCovers rule, (readVerdict rule.action).getD .drop⟩

/-- What a rule list says of a packet. -/
def listVerdict (rules : List Rule) : Packet → Verdict := firstMatch .drop (rules.map ruleFilter)

end LinuxHardener.Firewall
