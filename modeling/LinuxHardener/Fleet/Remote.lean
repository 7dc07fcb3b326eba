import LinuxHardener.Lib.Cut

/-
  A remote host's profile, the parser of ad-hoc targets, and what the desktop admits of one.

  The parser itself trims nothing; the desktop trims before it, the command line does
  not. What is proved: `trim_eq_self_of_endpoint` — the two read one endpoint only off a
  target that has no surrounding white space.

  Correspondence (Rust ↔ Lean):
    `RemoteHostProfile::{from_target, is_valid_hostname, target}` ↔ the same in camel case
    `validate_ipc_string`                                        ↔ `validateIpcString`
    `adhoc_profile`                                              ↔ `adhocProfile`
    `parse_inline`                                               ↔ `parseInline`
-/
namespace LinuxHardener.Fleet

open LineText
open Text (isWhitespace)

/-- Where a connection goes, and with which key. -/
structure Endpoint where
  user : Option Chars
  hostname : Chars
  port : Nat
  keyFile : Option Chars
  deriving DecidableEq, Repr

/-- `user@host:port`, or `host:port`. -/
def Endpoint.target (e : Endpoint) : Chars :=
  match e.user with
  | some user => user ++ "@".toList ++ e.hostname ++ ":".toList ++ decimal e.port
  | none => e.hostname ++ ":".toList ++ decimal e.port

structure RemoteHostProfile where
  name : Chars
  hostname : Chars
  user : Option Chars
  port : Nat
  keyFile : Option Chars
  hostKeyChecking : Bool
  deriving DecidableEq, Repr

namespace RemoteHostProfile

def endpoint (p : RemoteHostProfile) : Endpoint := ⟨p.user, p.hostname, p.port, p.keyFile⟩

def target (p : RemoteHostProfile) : Chars := p.endpoint.target

/-- The host and port of what follows the user: a port is read only where one colon stands. -/
def hostAndPort (rest : Chars) (port : Nat) : Chars × Nat :=
  match rsplitOnce ':' rest with
  | some (host, p) =>
    if ':' ∈ host then (rest, port)
    else match parseUnsigned 65536 p with
      | some parsed => (host, parsed)
      | none => (rest, port)
  | none => (rest, port)

def fromTarget (target : Chars) (port : Nat) (keyFile : Option Chars) (hostKeyChecking : Bool) : RemoteHostProfile :=
  let (user, rest) :=
    match splitOnce '@' target with
    | some (u, h) => (some u, h)
    | none => (none, target)
  let (hostname, port) := hostAndPort rest port
  { name := hostname, hostname, user, port, keyFile, hostKeyChecking }

/-- ASCII letters and digits, `.`, `-`, and `:` `[` `]` for addresses. -/
def isHostChar (c : Char) : Bool :=
  c.isAlphanum || c == '.' || c == '-' || c == ':' || c == '[' || c == ']'

def isValidHostname (host : Chars) : Bool :=
  !host.isEmpty && !"-".toList.isPrefixOf host && host.all isHostChar

end RemoteHostProfile

open RemoteHostProfile

/-! ## What the desktop admits -/

def maxIpcStringLen : Nat := 4096

/-- Bytes of the UTF-8 encoding. -/
def byteLen (s : Chars) : Nat := s.foldl (fun n c => n + c.utf8Size) 0

/-- Control characters, the tab apart. -/
def isRefusedControl (c : Char) : Bool := (c.toNat < 32 && c != '\t') || c.toNat == 127

def validateIpcString (s : Chars) (fieldName : Chars) : Except Chars Unit :=
  if byteLen s > maxIpcStringLen then
    .error (fieldName ++ " exceeds maximum length (".toList ++ decimal (byteLen s) ++ " > ".toList ++
      decimal maxIpcStringLen ++ ")".toList)
  else if s.any isRefusedControl then
    .error (fieldName ++ " contains invalid control character at byte ".toList ++
      decimal (byteLen (s.takeWhile fun c => !isRefusedControl c)))
  else .ok ()

/-- The profile of an ad-hoc target, read off the trimmed text. -/
def adhocProfile (target : Chars) : Except Chars RemoteHostProfile := do
  validateIpcString target "adhoc_target".toList
  let profile := fromTarget (trim target) 22 none true
  if isValidHostname profile.hostname then .ok profile
  else .error ("Invalid ad-hoc target '".toList ++ target ++ "': invalid hostname".toList)

/-- The command line's reading of one `--ssh` target. -/
def parseInline (target : Chars) (port : Nat) (keyFile : Option Chars) (verify : Bool) : RemoteHostProfile :=
  fromTarget target port keyFile verify

theorem adhocProfile_eq_ok {target : Chars} {p : RemoteHostProfile} (h : adhocProfile target = .ok p) :
    p = fromTarget (trim target) 22 none true ∧ isValidHostname p.hostname = true := by
  unfold adhocProfile at h
  cases hv : validateIpcString target "adhoc_target".toList with
  | error e =>
    rw [hv] at h
    cases h
  | ok u =>
    rw [hv] at h
    simp only [bind, Except.bind] at h
    split at h
    · next hvalid =>
      cases h
      exact ⟨rfl, hvalid⟩
    · cases h

/-! ## A target read with and without its surrounding white space -/

theorem not_whitespace_of_isHostChar {c : Char} (h : isHostChar c = true) : isWhitespace c = false := by
  simp only [isHostChar, Bool.or_eq_true, beq_iff_eq] at h
  obtain ((((h | rfl) | rfl) | rfl) | rfl) | rfl := h
  · exact not_whitespace_of_isAlphanum h
  all_goals decide

theorem head_of_isValidHostname {host : Chars} (h : isValidHostname host = true) :
    ∃ c rest, host = c :: rest ∧ isWhitespace c = false := by
  unfold isValidHostname at h
  cases host with
  | nil => simp at h
  | cons c rest =>
    refine ⟨c, rest, rfl, not_whitespace_of_isHostChar ?_⟩
    simp only [Bool.and_eq_true, List.all_cons] at h
    exact h.2.1

theorem getLast_of_isValidHostname {host : Chars} (h : isValidHostname host = true) :
    ∃ c, host.getLast? = some c ∧ isWhitespace c = false := by
  obtain ⟨c, rest, hhost, -⟩ := head_of_isValidHostname h
  have hne : host ≠ [] := by simp [hhost]
  refine ⟨host.getLast hne, List.getLast?_eq_getLast_of_ne_nil hne, not_whitespace_of_isHostChar ?_⟩
  unfold isValidHostname at h
  rw [Bool.and_eq_true] at h
  exact List.all_eq_true.mp h.2 _ (List.getLast_mem hne)

theorem not_whitespace_of_isDigit {c : Char} (h : c.isDigit = true) : isWhitespace c = false :=
  not_whitespace_of_isHostChar (by simp [isHostChar, Char.isAlphanum, h])

/-- What follows the user is the hostname, or the hostname with a port that was read. -/
theorem hostAndPort_cases (rest : Chars) (port : Nat) :
    (hostAndPort rest port).1 = rest ∨
      ∃ p n, rest = (hostAndPort rest port).1 ++ ':' :: p ∧ parseUnsigned 65536 p = some n := by
  unfold hostAndPort
  split
  · next host p hcut =>
    split
    · exact .inl rfl
    · split
      · next n hp => exact .inr ⟨p, n, (rsplitOnce_some hcut).1, hp⟩
      · exact .inl rfl
  · exact .inl rfl

/-- Where the hostname is a valid one, no white space stands at either end of what follows the user. -/
theorem ends_of_hostAndPort {rest : Chars} {port : Nat} (h : isValidHostname (hostAndPort rest port).1 = true) :
    (∀ c, rest.head? = some c → isWhitespace c = false) ∧ ∃ c, rest.getLast? = some c ∧ isWhitespace c = false := by
  obtain ⟨c, host, hhost, hc⟩ := head_of_isValidHostname h
  obtain hrest | ⟨p, n, hrest, hp⟩ := hostAndPort_cases rest port
  · rw [hrest] at h hhost
    refine ⟨?_, getLast_of_isValidHostname h⟩
    simp [hhost, hc]
  · obtain ⟨d, hd, hdigit⟩ := getLast_of_parseUnsigned hp
    rw [hhost] at hrest
    refine ⟨?_, d, ?_, not_whitespace_of_isDigit hdigit⟩
    · simp [hrest, hc]
    · simp [hrest, List.getLast?_cons, hd]

theorem fromTarget_none {t : Chars} {port : Nat} {key : Option Chars} {check : Bool} (h : splitOnce '@' t = none) :
    (fromTarget t port key check).user = none ∧
      (fromTarget t port key check).hostname = (hostAndPort t port).1 := by
  simp [fromTarget, h]

theorem fromTarget_some {t u rest : Chars} {port : Nat} {key : Option Chars} {check : Bool}
    (h : splitOnce '@' t = some (u, rest)) :
    (fromTarget t port key check).user = some u ∧
      (fromTarget t port key check).hostname = (hostAndPort rest port).1 := by
  simp [fromTarget, h]

/-- The user of a target is what it begins with. -/
theorem head_user {t u : Chars} {port : Nat} {key : Option Chars} {check : Bool}
    (h : (fromTarget t port key check).user = some u) {c : Char} (hc : u.head? = some c) : t.head? = some c := by
  cases hcut : splitOnce '@' t with
  | none =>
    rw [(fromTarget_none hcut).1] at h
    cases h
  | some cut =>
    obtain ⟨u', rest⟩ := cut
    rw [(fromTarget_some hcut).1] at h
    cases h
    rw [(splitOnce_some hcut).1, List.head?_append, hc]
    rfl

/-- The target as typed gives the endpoint of the trimmed one only if there was nothing to trim. -/
theorem trim_eq_self_of_endpoint {t : Chars} {port : Nat} {key : Option Chars} {check : Bool}
    (hvalid : isValidHostname (fromTarget (trim t) port key check).hostname = true)
    (h : (fromTarget t port key check).endpoint = (fromTarget (trim t) port key check).endpoint) : trim t = t := by
  obtain ⟨huser, hhost⟩ : (fromTarget t port key check).user = (fromTarget (trim t) port key check).user ∧
      (fromTarget t port key check).hostname = (fromTarget (trim t) port key check).hostname := by
    simp only [endpoint, Endpoint.mk.injEq] at h
    exact ⟨h.1, h.2.1⟩
  rw [← hhost] at hvalid
  cases hcut : splitOnce '@' t with
  | none =>
    rw [(fromTarget_none hcut).2] at hvalid
    obtain ⟨hhead, c, hlast, hc⟩ := ends_of_hostAndPort hvalid
    apply trim_eq_self hhead
    simp [hlast, hc]
  | some cut =>
    obtain ⟨u, rest⟩ := cut
    have ht := (splitOnce_some hcut).1
    rw [(fromTarget_some hcut).2] at hvalid
    rw [(fromTarget_some hcut).1] at huser
    obtain ⟨-, c, hlast, hc⟩ := ends_of_hostAndPort hvalid
    apply trim_eq_self
    · intro d hd
      cases u with
      | nil =>
        simp only [ht, List.nil_append, List.head?_cons, Option.some.injEq] at hd
        subst hd
        decide
      | cons e u =>
        have he : e = d := by simpa [ht] using hd
        subst he
        exact head_trim (head_user huser.symm rfl)
    · intro d hd
      simp only [ht, List.getLast?_append, List.getLast?_cons, hlast, Option.getD_some, Option.some_or,
        Option.some.injEq] at hd
      exact hd ▸ hc

end LinuxHardener.Fleet
