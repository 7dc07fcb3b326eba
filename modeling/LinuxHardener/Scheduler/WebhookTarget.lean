import LinuxHardener.Lib.HttpClient
import LinuxHardener.Scheduler.WebhookHeaders

/-
  Where a webhook request goes (`notification/webhook.rs`).

  The URL parser is given, as are the answers of a run: those of the resolver to each lookup, in the
  order of the lookups, and those of the servers. The check makes the first lookup; the client looks
  the host up for itself, and each redirect's. A run that panics has no result.

  Correspondence (Rust ↔ Lean):
    `is_blocked_addr`        ↔ `isBlockedAddr`
    `validate_webhook_url`   ↔ `validateWebhookUrl`
    `validate_resolved_url`  ↔ `validateResolvedUrl`
    `WebhookNotifier::new`   ↔ `WebhookNotifier.new` (of a client that could be built)
    `WebhookNotifier::send`  ↔ `WebhookNotifier.send`

  What is proved:
    1. `internal_iff_hides` — of the addresses that the check allows, internal are those that hide an
       IPv4 address in an embedding the check does not read.
    2. `mem_opened_iff` — the notifier may connect to what a request of its client is given, where its
       checks pass.
    3. `webhook_reaches_outside_iff` — when no run connects to an internal address.
-/
namespace LinuxHardener.Scheduler.Webhook

open LineText HttpClient

abbrev UrlParser : Type := Chars → Except Chars Url

/-! ## The checks -/

def isBlockedAddr : IpAddr → Bool
  | .v4 ip =>
    Ipv4.isLoopback ip || Ipv4.isPrivate ip || Ipv4.isLinkLocal ip || Ipv4.isUnspecified ip || Ipv4.isBroadcast ip || ip.val == 0
  | .v6 ip =>
    Ipv6.isLoopback ip || Ipv6.isUnspecified ip || ip.val == 1 ||
      -- fe80::/10 link-local
      (Ipv6.segment ip 0 &&& 0xffc0) == 0xfe80 ||
      -- fc00::/7 unique local (private equivalent)
      (Ipv6.segment ip 0 &&& 0xfe00) == 0xfc00 ||
      -- ::ffff:0:0/96 mapped IPv4 - check the inner v4
      (Ipv6.toIpv4Mapped ip).any fun v4 => Ipv4.isLoopback v4 || Ipv4.isPrivate v4 || Ipv4.isLinkLocal v4 || Ipv4.isUnspecified v4

def validateWebhookUrl (parse : UrlParser) (url : Chars) : Except Chars Url :=
  match parse url with
  | .error e => .error ("Invalid URL: ".toList ++ e)
  | .ok parsed =>
    if parsed.scheme ≠ "https".toList ∧ parsed.scheme ≠ "http".toList then
      .error ("scheme '".toList ++ parsed.scheme ++ "' not allowed, use https or http".toList)
    else
      match parsed.host with
      | none => .error "URL has no host".toList
      | some (.ipv4 ip) => if isBlockedAddr (.v4 ip) then .error ("blocked address: ".toList ++ Ipv4.text ip) else .ok parsed
      | some (.ipv6 ip) => if isBlockedAddr (.v6 ip) then .error ("blocked address: ".toList ++ Ipv6.text ip) else .ok parsed
      | some (.domain name) => if name = [] then .error "empty hostname".toList else .ok parsed

/-- The loop over the addresses of an answer. -/
def validateAddrs (host : Chars) : List IpAddr → Except Chars Unit
  | [] => .ok ()
  | ip :: rest =>
    if isBlockedAddr ip then .error ('\'' :: host ++ "' resolves to blocked address ".toList ++ ip.text) else validateAddrs host rest

def validateResolvedUrl (resolver : Resolver) (url : Url) : Except Chars Unit :=
  match url.host with
  | none => .error "URL has no host".toList
  | some host =>
    match lookupHost resolver host (url.portOrKnownDefault.getD 443) with
    | .error e => .error ("DNS resolution failed for '".toList ++ host.str ++ "': ".toList ++ e)
    | .ok addrs => validateAddrs host.str addrs

/-! ## The notifier -/

structure WebhookEndpoint where
  name : Chars
  url : Chars
  headers : List (Chars × Chars)

structure NotificationResult where
  channel : Chars
  success : Bool
  error : Option Chars

def NotificationResult.ok (channel : Chars) : NotificationResult := ⟨channel, true, none⟩
def NotificationResult.failed (channel error : Chars) : NotificationResult := ⟨channel, false, some error⟩

structure WebhookNotifier where
  endpoint : WebhookEndpoint

def WebhookNotifier.new (parse : UrlParser) (endpoint : WebhookEndpoint) : Option WebhookNotifier :=
  if endpoint.url = [] then none
  else
    match validateWebhookUrl parse endpoint.url with
    | .error _ => none
    | .ok _ => some ⟨endpoint⟩

/-- The custom headers, expanded, up to one that is refused. -/
def addHeaders (env : Environment) : List (Chars × Chars) → Option (Except Chars (List (Chars × Chars)))
  | [] => some (.ok [])
  | (key, value) :: rest =>
    match expandEnvVars env value with
    | none => none
    | some expanded =>
      match validateHeader key expanded with
      | .error reason => some (.error reason)
      | .ok () => (addHeaders env rest).map fun added => added.map fun headers => (key, expanded) :: headers

/-- What answers a send: the resolver, lookup by lookup, and the servers, request by request. -/
structure Surroundings where
  resolve : Nat → Resolver
  answer : Nat → Except Chars Reply

/-- What is left for the client. -/
def Surroundings.client (around : Surroundings) : Network := ⟨fun n => around.resolve (n + 1), around.answer⟩

structure Sent where
  opened : List IpAddr
  result : Option NotificationResult

namespace WebhookNotifier

variable (parse : UrlParser) (env : Environment) (around : Surroundings) (attempts : Attempts)

/-- The request that the client makes of the URL. -/
def post (notifier : WebhookNotifier) : Fetched :=
  match parse notifier.endpoint.url with
  | .error e => ⟨[], .error e⟩
  | .ok url => fetch around.client attempts maxRedirects 0 url

def request (notifier : WebhookNotifier) : Sent :=
  match addHeaders env notifier.endpoint.headers with
  | none => ⟨[], none⟩
  | some (.error reason) => ⟨[], some (.failed notifier.endpoint.name reason)⟩
  | some (.ok _) =>
    let fetched := notifier.post parse around attempts
    match fetched.result with
    | .error e => ⟨fetched.opened, some (.failed notifier.endpoint.name e)⟩
    | .ok reply =>
      if reply.isSuccess then ⟨fetched.opened, some (.ok notifier.endpoint.name)⟩
      else ⟨fetched.opened, some (.failed notifier.endpoint.name ("HTTP ".toList ++ reply.shown ++ ": ".toList ++ reply.body))⟩

def send (notifier : WebhookNotifier) : Sent :=
  match parse notifier.endpoint.url with
  | .error _ => notifier.request parse env around attempts
  | .ok parsed =>
    match validateResolvedUrl (around.resolve 0) parsed with
    | .error reason => ⟨[], some (.failed notifier.endpoint.name ("SSRF blocked: ".toList ++ reason))⟩
    | .ok () => notifier.request parse env around attempts

end WebhookNotifier

variable {parse : UrlParser} {env : Environment} {around : Surroundings} {attempts : Attempts} {endpoint : WebhookEndpoint}
variable {embeddings : List Embedding} {url : Url} {a : IpAddr}

/-- The connections of one send of the notifier of an endpoint, if there is one. A notifier keeps nothing of a
send, so that its sends differ in their surroundings only. -/
def opened (parse : UrlParser) (env : Environment) (around : Surroundings) (attempts : Attempts) (endpoint : WebhookEndpoint) : List IpAddr :=
  match WebhookNotifier.new parse endpoint with
  | none => []
  | some notifier => (notifier.send parse env around attempts).opened

/-- What the notifier asks of an endpoint before its client runs. -/
structure Passes (parse : UrlParser) (env : Environment) (around : Surroundings) (endpoint : WebhookEndpoint) (url : Url) : Prop where
  filled : endpoint.url ≠ []
  valid : validateWebhookUrl parse endpoint.url = .ok url
  resolved : validateResolvedUrl (around.resolve 0) url = .ok ()
  headers : ∃ headers, addHeaders env endpoint.headers = some (.ok headers)

theorem parse_of_valid {text : Chars} (h : validateWebhookUrl parse text = .ok url) : parse text = .ok url := by
  unfold validateWebhookUrl at h
  split at h
  · cases h
  · next parsed hparse =>
    split at h
    · cases h
    · split at h
      · cases h
      · split at h
        · cases h
        · exact hparse.trans h
      · split at h
        · cases h
        · exact hparse.trans h
      · split at h
        · cases h
        · exact hparse.trans h

theorem new_eq_some {notifier : WebhookNotifier} (h : WebhookNotifier.new parse endpoint = some notifier) :
    endpoint.url ≠ [] ∧ notifier = ⟨endpoint⟩ ∧ ∃ url, validateWebhookUrl parse endpoint.url = .ok url := by
  unfold WebhookNotifier.new at h
  split at h
  · cases h
  · next hfilled =>
    split at h
    · cases h
    · next url hvalid => exact ⟨hfilled, (Option.some.inj h).symm, url, hvalid⟩

/-- A request runs the client where no header is refused. -/
theorem request_opened (hparse : parse endpoint.url = .ok url) :
    a ∈ (WebhookNotifier.request parse env around attempts ⟨endpoint⟩).opened ↔
      (∃ headers, addHeaders env endpoint.headers = some (.ok headers)) ∧
        a ∈ (fetch around.client attempts maxRedirects 0 url).opened := by
  have hpost : WebhookNotifier.post parse around attempts ⟨endpoint⟩ = fetch around.client attempts maxRedirects 0 url := by
    unfold WebhookNotifier.post
    dsimp only
    rw [hparse]
  unfold WebhookNotifier.request
  dsimp only
  rw [hpost]
  split
  · next hheaders => exact ⟨fun h => (by cases h), fun ⟨⟨_, h⟩, _⟩ => (by rw [hheaders] at h; cases h)⟩
  · next reason hheaders => exact ⟨fun h => (by cases h), fun ⟨⟨_, h⟩, _⟩ => (by rw [hheaders] at h; cases h)⟩
  · next headers hheaders =>
    split
    · exact ⟨fun h => ⟨⟨headers, hheaders⟩, h⟩, And.right⟩
    · split
      · exact ⟨fun h => ⟨⟨headers, hheaders⟩, h⟩, And.right⟩
      · exact ⟨fun h => ⟨⟨headers, hheaders⟩, h⟩, And.right⟩

/-- The notifier connects where its client does, once its checks pass. -/
theorem mem_opened_iff :
    a ∈ opened parse env around attempts endpoint ↔
      ∃ url, Passes parse env around endpoint url ∧ a ∈ (fetch around.client attempts maxRedirects 0 url).opened := by
  constructor
  · intro h
    unfold opened at h
    split at h
    · cases h
    · next notifier hnew =>
      obtain ⟨hfilled, rfl, url, hvalid⟩ := new_eq_some hnew
      have hparse := parse_of_valid hvalid
      unfold WebhookNotifier.send at h
      dsimp only at h
      rw [hparse] at h
      dsimp only at h
      split at h
      · cases h
      · next hresolved =>
        obtain ⟨hheaders, hfetch⟩ := (request_opened hparse).mp h
        exact ⟨url, ⟨hfilled, hvalid, hresolved, hheaders⟩, hfetch⟩
  · intro ⟨url, hpasses, hfetch⟩
    have hparse := parse_of_valid hpasses.valid
    have hnew : WebhookNotifier.new parse endpoint = some ⟨endpoint⟩ := by
      rw [WebhookNotifier.new, if_neg hpasses.filled, hpasses.valid]
    unfold opened
    rw [hnew]
    dsimp only
    unfold WebhookNotifier.send
    dsimp only
    rw [hparse]
    dsimp only
    rw [hpasses.resolved]
    exact (request_opened hparse).mpr ⟨hpasses.headers, hfetch⟩

/-! ## What the check sees -/

/-- The addresses that the check is given. -/
def checked (around : Surroundings) (url : Url) : List IpAddr :=
  match url.host with
  | none => []
  | some host =>
    match lookupHost (around.resolve 0) host (url.portOrKnownDefault.getD 443) with
    | .error _ => []
    | .ok addrs => addrs

theorem validateAddrs_ok {host : Chars} {addrs : List IpAddr} (h : validateAddrs host addrs = .ok ()) :
    ∀ ip ∈ addrs, isBlockedAddr ip = false := by
  induction addrs with
  | nil => exact fun ip hip => nomatch hip
  | cons ip rest ih =>
    unfold validateAddrs at h
    split at h
    · cases h
    · next hallowed => exact List.forall_mem_cons.mpr ⟨Bool.eq_false_iff.mpr hallowed, ih h⟩

theorem not_blocked_of_checked (hresolved : validateResolvedUrl (around.resolve 0) url = .ok ()) (ha : a ∈ checked around url) :
    isBlockedAddr a = false := by
  unfold validateResolvedUrl at hresolved
  unfold checked at ha
  split at ha
  · cases ha
  · next host hhost =>
    rw [hhost] at hresolved
    dsimp only at hresolved
    split at ha
    · cases ha
    · next addrs hlookup =>
      rw [hlookup] at hresolved
      exact validateAddrs_ok hresolved a ha

theorem not_inInternalNetwork (h : isBlockedAddr a = false) : ¬ a.InInternalNetwork := by
  cases a with
  | v4 ip =>
    rw [IpAddr.inInternalNetwork_v4]
    simp only [isBlockedAddr, Bool.or_eq_false_iff] at h
    simp [h]
  | v6 ip =>
    rw [IpAddr.inInternalNetwork_v6]
    simp only [isBlockedAddr, Bool.or_eq_false_iff, beq_eq_false_iff_ne] at h
    simp [h]

/-- Of the addresses that the check allows, those are internal that hide an IPv4 address. -/
theorem internal_iff_hides (h : isBlockedAddr a = false) : a.Internal embeddings ↔ a.HidesInternal embeddings :=
  or_iff_right (not_inInternalNetwork h)

/-- The check reads the mapped form. -/
theorem not_hides_mapped (h : isBlockedAddr a = false) : ¬ a.HidesInternal [Ipv6.toIpv4Mapped] := by
  intro ⟨whole, hwhole, embedding, hembedding, inner, hinner, hinternal⟩
  subst hwhole
  obtain rfl := List.mem_singleton.mp hembedding
  rw [IpAddr.inInternalNetwork_v4] at hinternal
  simp only [isBlockedAddr, hinner, Option.any_some, hinternal, Bool.or_true] at h
  cases h

/-! ## Where the requests go -/

/-- No run of a send connects to an internal address. -/
def ReachesOutside (embeddings : List Embedding) (parse : UrlParser) (env : Environment) (around : Surroundings) (endpoint : WebhookEndpoint) :
    Prop :=
  ∀ attempts, ∀ a ∈ opened parse env around attempts endpoint, ¬ a.Internal embeddings

/-- What the checks leave to the answers of a send. -/
structure AnswersOutside (embeddings : List Embedding) (around : Surroundings) (url : Url) : Prop where
  hidden : ∀ a ∈ given around.client url 0, a ∈ checked around url → ¬ a.HidesInternal embeddings
  rebound : ∀ a ∈ given around.client url 0, a ∉ checked around url → ¬ a.Internal embeddings
  redirected : ∀ n, ∀ a ∈ given around.client url (n + 1), ¬ a.Internal embeddings

theorem answersOutside_iff (hresolved : validateResolvedUrl (around.resolve 0) url = .ok ()) :
    AnswersOutside embeddings around url ↔ ∀ n, ∀ a ∈ given around.client url n, ¬ a.Internal embeddings := by
  constructor
  · intro h n a ha
    cases n with
    | zero =>
      by_cases hchecked : a ∈ checked around url
      · rw [internal_iff_hides (not_blocked_of_checked hresolved hchecked)]
        exact h.hidden a ha hchecked
      · exact h.rebound a ha hchecked
    | succ n => exact h.redirected n a ha
  · intro h
    refine ⟨fun a ha hchecked => ?_, fun a ha _ => h 0 a ha, fun n => h (n + 1)⟩
    rw [← internal_iff_hides (not_blocked_of_checked hresolved hchecked)]
    exact h 0 a ha

/-- **When webhook requests stay outside.** No connection goes to an internal address, unless the checks pass
and an answer they do not see is internal, or one they see hides an internal address. -/
theorem webhook_reaches_outside_iff (embeddings : List Embedding) (parse : UrlParser) (env : Environment) (around : Surroundings)
    (endpoint : WebhookEndpoint) :
    ReachesOutside embeddings parse env around endpoint ↔
      ∀ url, Passes parse env around endpoint url → AnswersOutside embeddings around url := by
  constructor
  · intro h url hpasses
    rw [answersOutside_iff hpasses.resolved]
    intro n a ha
    obtain ⟨attempts, hfetch⟩ := exists_attempts_mem_fetch_iff.mpr ⟨n, ha⟩
    exact h attempts a (mem_opened_iff.mpr ⟨url, hpasses, hfetch⟩)
  · intro h attempts a ha
    obtain ⟨url, hpasses, hfetch⟩ := mem_opened_iff.mp ha
    obtain ⟨n, hgiven⟩ := exists_attempts_mem_fetch_iff.mp ⟨attempts, hfetch⟩
    exact (answersOutside_iff hpasses.resolved).mp (h url hpasses) n a hgiven

def hooksParser : UrlParser := fun text =>
  if text = "https://hooks.example/scan".toList then .ok ⟨"https".toList, some (.domain "hooks.example".toList), none⟩
  else if text = "http://[::127.0.0.1]/scan".toList then .ok ⟨"http".toList, some (.ipv6 0x7f000001), none⟩
  else .error "relative URL without a base".toList

def endpointOf (url : String) : WebhookEndpoint := ⟨"ops".toList, url.toList, []⟩

def publicResolver : Resolver := fun _ _ => .ok [.v4 0x5db8d822]
def received : Reply := ⟨200, "200 OK".toList, [], none⟩

/-- The server sends the client on to its own machine. -/
def redirecting : Surroundings :=
  ⟨fun _ => publicResolver, fun n =>
    if n = 0 then .ok ⟨307, "307 Temporary Redirect".toList, [], some ⟨"http".toList, some (.ipv4 0x7f000001), none⟩⟩ else .ok received⟩

/-- The name has another address once the check has looked it up. -/
def rebinding : Surroundings := ⟨fun n => if n = 0 then publicResolver else fun _ _ => .ok [.v4 0x7f000001], fun _ => .ok received⟩

def direct : Surroundings := ⟨fun _ => publicResolver, fun _ => .ok received⟩

theorem loopback_reached :
    ¬ ReachesOutside IpAddr.knownEmbeddings hooksParser (fun _ => none) redirecting (endpointOf "https://hooks.example/scan") ∧
      ¬ ReachesOutside IpAddr.knownEmbeddings hooksParser (fun _ => none) rebinding (endpointOf "https://hooks.example/scan") ∧
      ¬ ReachesOutside IpAddr.knownEmbeddings hooksParser (fun _ => none) direct (endpointOf "http://[::127.0.0.1]/scan") := by
  have hloopback : IpAddr.InInternalNetwork (.v4 0x7f000001) := ⟨_, List.mem_cons_self, by decide⟩
  refine ⟨fun h => ?_, fun h => ?_, fun h => ?_⟩
  · exact h .all (.v4 0x7f000001) (by decide) (.inl hloopback)
  · exact h .all (.v4 0x7f000001) (by decide) (.inl hloopback)
  · exact h .all (.v6 0x7f000001) (by decide) (.inr ⟨_, rfl, IpAddr.compatible, List.mem_cons_of_mem _ List.mem_cons_self, 0x7f000001, by decide, hloopback⟩)

end LinuxHardener.Scheduler.Webhook
