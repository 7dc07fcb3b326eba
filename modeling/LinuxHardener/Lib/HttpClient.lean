import LinuxHardener.Lib.AddressClasses

/-
  An HTTP client that resolves names for itself and follows redirects.

  A run of the client depends on what is around it: what a resolver answers to each request's lookup,
  which of the addresses of an answer it tries, and what each server answers. A literal host is an
  address already, and is not looked up. The addresses of an answer are tried until one takes the
  connection; which are is not the client's to say, so any choice of them is a run.

  What is proved:
    1. `mem_fetch` — a connection goes to an address that some request was given.
    2. `mem_fetch_all` — and each address a request is given has a run that connects to it.
-/
namespace LinuxHardener.HttpClient

open LineText

inductive Host where
  | domain (name : Chars)
  | ipv4 (address : Ipv4)
  | ipv6 (address : Ipv6)
  deriving DecidableEq, Repr

structure Url where
  scheme : Chars
  host : Option Host
  port : Option Nat
  deriving DecidableEq, Repr

/-- `Url::host_str`: an IPv6 literal stands in brackets, none of it in dotted form. -/
def Host.str : Host → Chars
  | domain name => name
  | ipv4 address => Ipv4.text address
  | ipv6 address => '[' :: Ipv6.compressed address ++ [']']

def Url.portOrKnownDefault (url : Url) : Option Nat :=
  match url.port with
  | some port => some port
  | none =>
    if url.scheme = "http".toList ∨ url.scheme = "ws".toList then some 80
    else if url.scheme = "https".toList ∨ url.scheme = "wss".toList then some 443
    else if url.scheme = "ftp".toList then some 21
    else none

abbrev Resolver : Type := Chars → Nat → Except Chars (List IpAddr)

def lookupHost (resolver : Resolver) (host : Host) (port : Nat) : Except Chars (List IpAddr) :=
  match host with
  | .ipv4 address => .ok [.v4 address]
  | .ipv6 address => .ok [.v6 address]
  | .domain name => resolver name port

/-- A server's answer: its status, as a number and as it is shown, its body, and where it points to. -/
structure Reply where
  status : Nat
  shown : Chars
  body : Chars
  location : Option Url

def Reply.isSuccess (reply : Reply) : Bool := decide (200 ≤ reply.status) && decide (reply.status < 300)

def Reply.redirect (reply : Reply) : Option Url := if reply.status ∈ [301, 302, 303, 307, 308] then reply.location else none

/-- What answers the requests of a run, by their number. -/
structure Network where
  resolve : Nat → Resolver
  answer : Nat → Except Chars Reply

/-- Which addresses of those it is given a request connects to. -/
structure Attempts where
  tried : Nat → List IpAddr → List IpAddr
  tried_subset : ∀ n addresses, tried n addresses ⊆ addresses

def Attempts.all : Attempts := ⟨fun _ addresses => addresses, fun _ addresses => List.Subset.refl addresses⟩

structure Fetched where
  opened : List IpAddr
  result : Except Chars Reply

variable (network : Network) (attempts : Attempts)

/-- The addresses of a request's server. -/
def addresses (n : Nat) (url : Url) : Except Chars (List IpAddr) :=
  if url.scheme ≠ "http".toList ∧ url.scheme ≠ "https".toList then .error "URL scheme is not allowed".toList
  else
    match url.host with
    | none => .error "URL has no host".toList
    | some host => lookupHost (network.resolve n) host (url.portOrKnownDefault.getD 443)

/-- The requests from the `n`-th on, with so many redirects left. -/
def fetch : Nat → Nat → Url → Fetched
  | allowed, n, url =>
    match addresses network n url with
    | .error e => ⟨[], .error e⟩
    | .ok found =>
      match network.answer n with
      | .error e => ⟨attempts.tried n found, .error e⟩
      | .ok reply =>
        match reply.redirect, allowed with
        | none, _ => ⟨attempts.tried n found, .ok reply⟩
        | some _, 0 => ⟨attempts.tried n found, .error "too many redirects".toList⟩
        | some target, allowed + 1 =>
          let further := fetch allowed (n + 1) target
          ⟨attempts.tried n found ++ further.opened, further.result⟩

/-- The default policy. -/
def maxRedirects : Nat := 10

/-! ## The requests of a run -/

/-- The URL of the `n`-th request, where the run comes so far. -/
def requested (start : Url) : Nat → Option Url
  | 0 => some start
  | n + 1 =>
    match requested start n with
    | none => none
    | some url =>
      match addresses network n url, network.answer n with
      | .ok _, .ok reply => if n < maxRedirects then reply.redirect else none
      | _, _ => none

/-- The addresses that the `n`-th request is given. -/
def given (start : Url) (n : Nat) : List IpAddr :=
  match requested network start n with
  | none => []
  | some url =>
    match addresses network n url with
    | .error _ => []
    | .ok found => found

variable {network attempts} {start url target : Url} {n k allowed : Nat} {found : List IpAddr} {reply : Reply} {a : IpAddr}

theorem given_eq (hurl : requested network start n = some url) (hfound : addresses network n url = .ok found) :
    given network start n = found := by
  rw [given, hurl]
  dsimp only
  rw [hfound]

theorem mem_given (h : a ∈ given network start n) :
    ∃ url found, requested network start n = some url ∧ addresses network n url = .ok found ∧ a ∈ found := by
  unfold given at h
  split at h
  · cases h
  · next url hurl =>
    split at h
    · cases h
    · next found hfound => exact ⟨url, found, hurl, hfound, h⟩

theorem requested_succ (hurl : requested network start n = some url) (hfound : addresses network n url = .ok found)
    (hanswer : network.answer n = .ok reply) (hlt : n < maxRedirects) : requested network start (n + 1) = reply.redirect := by
  rw [requested, hurl]
  dsimp only
  rw [hfound, hanswer]
  exact if_pos hlt

/-- What a further request needs of the one before. -/
theorem requested_succ_eq_some (h : requested network start (n + 1) = some target) :
    ∃ url found reply, requested network start n = some url ∧ addresses network n url = .ok found ∧ network.answer n = .ok reply ∧
      n < maxRedirects ∧ reply.redirect = some target := by
  rw [requested] at h
  split at h
  · cases h
  · next url hurl =>
    split at h
    · next found reply hfound hanswer =>
      split at h
      · next hlt => exact ⟨url, found, reply, hurl, hfound, hanswer, hlt, h⟩
      · cases h
    · cases h

/-- What a request does to the run: it finds no address, it is the last one, or it leads on. -/
theorem opened_cases (network : Network) (attempts : Attempts) (allowed n : Nat) (url : Url) :
    (∃ e, addresses network n url = .error e ∧ (fetch network attempts allowed n url).opened = []) ∨
      ∃ found, addresses network n url = .ok found ∧
        (((∀ reply, network.answer n = .ok reply → reply.redirect = none ∨ allowed = 0) ∧
            (fetch network attempts allowed n url).opened = attempts.tried n found) ∨
          ∃ reply target left, network.answer n = .ok reply ∧ reply.redirect = some target ∧ allowed = left + 1 ∧
            (fetch network attempts allowed n url).opened =
              attempts.tried n found ++ (fetch network attempts left (n + 1) target).opened) := by
  cases hfound : addresses network n url with
  | error e => exact .inl ⟨e, rfl, by rw [fetch, hfound]⟩
  | ok found =>
    refine .inr ⟨found, rfl, ?_⟩
    cases hanswer : network.answer n with
    | error e => exact .inl ⟨fun reply h => (by cases h), by rw [fetch, hfound]; simp only [hanswer]⟩
    | ok reply =>
      cases hredirect : reply.redirect with
      | none =>
        exact .inl ⟨fun other h => (by cases h; exact .inl hredirect), by rw [fetch, hfound]; simp only [hanswer, hredirect]⟩
      | some target =>
        cases allowed with
        | zero =>
          exact .inl ⟨fun _ _ => .inr rfl, by rw [fetch, hfound]; simp only [hanswer, hredirect]⟩
        | succ left =>
          exact .inr ⟨reply, target, left, rfl, hredirect, rfl, by rw [fetch, hfound]; simp only [hanswer, hredirect]⟩

/-- From a request that the run comes to, each connection goes to an address that a request is given. -/
theorem mem_fetch (hurl : requested network start n = some url) (hleft : allowed + n = maxRedirects)
    (ha : a ∈ (fetch network attempts allowed n url).opened) : ∃ k, a ∈ given network start k := by
  -- On the redirects left.
  induction allowed using Nat.strong_induction_on generalizing n url with
  | _ allowed ih =>
    obtain ⟨e, -, hopened⟩ | ⟨found, hfound, ⟨-, hopened⟩ | ⟨reply, target, left, hanswer, hredirect, rfl, hopened⟩⟩ :=
      opened_cases network attempts allowed n url
    · rw [hopened] at ha
      cases ha
    · rw [hopened] at ha
      exact ⟨n, given_eq hurl hfound ▸ attempts.tried_subset n found ha⟩
    · have hnext := requested_succ hurl hfound hanswer (by omega)
      rw [hredirect] at hnext
      rw [hopened] at ha
      obtain ha | ha := List.mem_append.mp ha
      · exact ⟨n, given_eq hurl hfound ▸ attempts.tried_subset n found ha⟩
      · exact ih left (by omega) hnext (by omega) ha

/-- A run that comes to a request came to the ones before it. -/
theorem requested_of_le (hle : n ≤ k) (h : (requested network start k).isSome = true) : (requested network start n).isSome = true := by
  induction hle with
  | refl => exact h
  | step _ ih =>
    obtain ⟨target, htarget⟩ := Option.isSome_iff_exists.mp h
    obtain ⟨url, _, _, hurl, -⟩ := requested_succ_eq_some htarget
    exact ih (by rw [hurl]; rfl)

/-- A run that comes further than a request was led on by it. -/
theorem led_on (hurl : requested network start n = some url) (hlt : n < k) (ha : a ∈ given network start k) :
    ∃ found reply target, addresses network n url = .ok found ∧ network.answer n = .ok reply ∧ reply.redirect = some target ∧
      n < maxRedirects ∧ requested network start (n + 1) = some target := by
  obtain ⟨last, _, hlast, -⟩ := mem_given ha
  obtain ⟨target, htarget⟩ := Option.isSome_iff_exists.mp (requested_of_le (n := n + 1) hlt (by rw [hlast]; rfl))
  obtain ⟨url', found, reply, hurl', hfound, hanswer, hmax, hredirect⟩ := requested_succ_eq_some htarget
  obtain rfl : url = url' := Option.some.inj (hurl.symm.trans hurl')
  exact ⟨found, reply, target, hfound, hanswer, hredirect, hmax, htarget⟩

/-- A client that tries every address connects to those of the request it makes. -/
theorem mem_fetch_of_given (hurl : requested network start n = some url) (ha : a ∈ given network start n) :
    a ∈ (fetch network .all allowed n url).opened := by
  obtain ⟨url', found, hurl', hfound, hmem⟩ := mem_given ha
  obtain rfl : url = url' := Option.some.inj (hurl.symm.trans hurl')
  obtain ⟨e, herror, -⟩ | ⟨found', hfound', ⟨-, hopened⟩ | ⟨_, _, _, -, -, -, hopened⟩⟩ := opened_cases network .all allowed n url
  · rw [hfound] at herror
    cases herror
  · rw [hfound] at hfound'
    cases hfound'
    rw [hopened]
    exact hmem
  · rw [hfound] at hfound'
    cases hfound'
    rw [hopened]
    exact List.mem_append_left _ hmem

/-- A client that tries every address connects to each one it is given. -/
theorem mem_fetch_all (hurl : requested network start n = some url) (hleft : allowed + n = maxRedirects) (hle : n ≤ k)
    (ha : a ∈ given network start k) : a ∈ (fetch network .all allowed n url).opened := by
  -- On the redirects left; the request given the address is this one, or one that this one leads to.
  induction allowed using Nat.strong_induction_on generalizing n url with
  | _ allowed ih =>
    obtain rfl | hlt := Nat.eq_or_lt_of_le hle
    · exact mem_fetch_of_given hurl ha
    · obtain ⟨found, reply, target, hfound, hanswer, hredirect, hmax, htarget⟩ := led_on hurl hlt ha
      obtain ⟨e, herror, -⟩ | ⟨_, -, ⟨hstop, -⟩ | ⟨reply', target', left, hanswer', hredirect', rfl, hopened⟩⟩ :=
        opened_cases network .all allowed n url
      · rw [hfound] at herror
        cases herror
      · obtain hnone | rfl := hstop reply hanswer
        · rw [hredirect] at hnone
          cases hnone
        · omega
      · rw [hanswer] at hanswer'
        cases hanswer'
        rw [hredirect] at hredirect'
        cases hredirect'
        rw [hopened]
        exact List.mem_append_right _ (ih left (by omega) htarget (by omega) hlt)

/-- **Where a run may connect.** To the addresses that its requests are given, and to each of them in some run. -/
theorem exists_attempts_mem_fetch_iff :
    (∃ attempts, a ∈ (fetch network attempts maxRedirects 0 start).opened) ↔ ∃ k, a ∈ given network start k := by
  constructor
  · intro ⟨attempts, ha⟩
    exact mem_fetch rfl rfl ha
  · intro ⟨k, ha⟩
    exact ⟨.all, mem_fetch_all rfl rfl (Nat.zero_le k) ha⟩

end LinuxHardener.HttpClient
