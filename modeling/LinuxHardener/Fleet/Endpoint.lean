import LinuxHardener.Compliance.Scope
import LinuxHardener.Fleet.Remote

/-
  Whether a target names the endpoint it was made of.

  A profile's `target` is its history key, what hosts are told apart by, and what the
  report reads the hostname back from.

  Correspondence (Rust ↔ Lean):
    the hostname `assess_outcomes` reads back ↔ `reparsedHostname`
    its generator's question about a host     ↔ `coversOutcome`

  What is proved:
    1. `target_injective` — no two endpoints with valid hostnames share a target.
    2. `namesOneEndpoint_iff` — a target is read back as its endpoint exactly where the
       hostname has no colon.
-/
namespace LinuxHardener.Fleet

open LineText
open RemoteHostProfile
open Compliance (ScopeExclusion eqIgnoreAsciiCase)

/-- A target the hostname check accepts, read with a default port. -/
structure AdmittedTarget where
  target : Chars
  port : Nat
  keyFile : Option Chars
  hostKeyChecking : Bool
  port_lt : port < 65536
  valid : isValidHostname (fromTarget target port keyFile hostKeyChecking).hostname = true

def AdmittedTarget.profile (t : AdmittedTarget) : RemoteHostProfile := fromTarget t.target t.port t.keyFile t.hostKeyChecking

/-- The hostname an outcome's target is read back as. -/
def reparsedHostname (target : Chars) : Chars := (fromTarget target 22 none true).hostname

/-- Whether an exclusion concerns an outcome. -/
def coversOutcome (exclusion : ScopeExclusion) (target name : Chars) : Bool :=
  exclusion.coversHost (String.ofList target) (String.ofList (reparsedHostname target)) (String.ofList name)

/-- Two profiles lead to one host, as one user. -/
structure SameEndpoint (p q : RemoteHostProfile) : Prop where
  user : p.user = q.user
  hostname : p.hostname = q.hostname
  port : p.port = q.port

/-- A profile's target is read back as the profile, is no other endpoint's, and an exclusion for
the host concerns what is filed under it. -/
structure NamesOneEndpoint (t : AdmittedTarget) : Prop where
  reparsed : ∀ port keyFile hostKeyChecking, SameEndpoint (fromTarget t.profile.target port keyFile hostKeyChecking) t.profile
  distinct : ∀ t' : AdmittedTarget, t'.profile.target = t.profile.target → SameEndpoint t'.profile t.profile
  covered : ∀ exclusion : ScopeExclusion, String.ofList t.profile.hostname ∈ exclusion.hosts →
    coversOutcome exclusion t.profile.target t.profile.name = true

/-! ## Targets -/

theorem not_mem_of_isValidHostname {host : Chars} (h : isValidHostname host = true) : '@' ∉ host := by
  intro hmem
  unfold isValidHostname at h
  rw [Bool.and_eq_true] at h
  have hchar := List.all_eq_true.mp h.2 '@' hmem
  revert hchar
  decide

theorem not_mem_decimal {c : Char} (hc : c.isDigit = false) (n : Nat) : c ∉ decimal n := by
  intro hmem
  rw [isDigit_decimal hmem] at hc
  cases hc

theorem hostAndPort_lt {rest : Chars} {port : Nat} (h : port < 65536) : (hostAndPort rest port).2 < 65536 := by
  unfold hostAndPort
  split
  · split
    · exact h
    · split
      · next hp => exact parseUnsigned_lt hp
      · exact h
  · exact h

/-- What stands behind the user of a target. -/
def hostPort (host : Chars) (port : Nat) : Chars := host ++ ':' :: decimal port

theorem rsplitOnce_hostPort (host : Chars) (port : Nat) : rsplitOnce ':' (hostPort host port) = some (host, decimal port) :=
  rsplitOnce_append (not_mem_decimal rfl port) host

/-- A host and port are read back exactly where the host has no colon. -/
theorem hostAndPort_hostPort {host : Chars} {port d : Nat} (hport : port < 65536) :
    hostAndPort (hostPort host port) d = if ':' ∈ host then (hostPort host port, d) else (host, port) := by
  unfold hostAndPort
  rw [rsplitOnce_hostPort]
  dsimp only
  rw [parseUnsigned_decimal hport]

theorem not_mem_hostPort {host : Chars} {port : Nat} (h : isValidHostname host = true) : '@' ∉ hostPort host port := by
  rw [hostPort, List.mem_append, List.mem_cons, not_or, not_or]
  exact ⟨not_mem_of_isValidHostname h, by decide, not_mem_decimal rfl port⟩

/-- The user a target can have: without the separator, as it is what stands before the first. -/
def IsUser (user : Option Chars) : Prop := ∀ u, user = some u → '@' ∉ u

theorem isUser_fromTarget (target : Chars) (port : Nat) (key : Option Chars) (check : Bool) :
    IsUser (fromTarget target port key check).user := by
  intro u hu
  cases hcut : splitOnce '@' target with
  | none =>
    rw [(fromTarget_none hcut).1] at hu
    cases hu
  | some cut =>
    rw [(fromTarget_some hcut).1] at hu
    cases hu
    exact (splitOnce_some hcut).2

/-- A target is the user, if there is one, and the host with its port. -/
theorem target_eq (e : Endpoint) :
    e.target = match e.user with
      | some user => user ++ '@' :: hostPort e.hostname e.port
      | none => hostPort e.hostname e.port := by
  unfold Endpoint.target hostPort
  cases e.user <;> simp

/-- The cut at the user finds the user. -/
theorem splitOnce_target {e : Endpoint} (huser : IsUser e.user) (hhost : isValidHostname e.hostname = true) :
    splitOnce '@' e.target = e.user.map fun user => (user, hostPort e.hostname e.port) := by
  rw [target_eq]
  cases hu : e.user with
  | none => exact splitOnce_none.mpr (not_mem_hostPort hhost)
  | some user => exact splitOnce_append (huser user hu) _

/-- No two endpoints with valid hostnames share a target. -/
theorem target_injective {e f : Endpoint} (he : IsUser e.user) (hf : IsUser f.user) (hehost : isValidHostname e.hostname = true)
    (hfhost : isValidHostname f.hostname = true) (h : e.target = f.target) :
    e.user = f.user ∧ e.hostname = f.hostname ∧ e.port = f.port := by
  have hcut := congrArg (splitOnce '@') h
  rw [splitOnce_target he hehost, splitOnce_target hf hfhost] at hcut
  have hrest : e.user = f.user ∧ hostPort e.hostname e.port = hostPort f.hostname f.port := by
    rw [target_eq, target_eq] at h
    cases heu : e.user with
    | none =>
      cases hfu : f.user with
      | none =>
        rw [heu, hfu] at h
        exact ⟨rfl, h⟩
      | some user =>
        rw [heu, hfu] at hcut
        cases hcut
    | some user =>
      cases hfu : f.user with
      | none =>
        rw [heu, hfu] at hcut
        cases hcut
      | some user' =>
        rw [heu, hfu] at hcut
        simp only [Option.map_some, Option.some.injEq, Prod.mk.injEq] at hcut
        exact ⟨congrArg some hcut.1, hcut.2⟩
  have hsplit := congrArg (rsplitOnce ':') hrest.2
  rw [rsplitOnce_hostPort, rsplitOnce_hostPort] at hsplit
  simp only [Option.some.injEq, Prod.mk.injEq] at hsplit
  exact ⟨hrest.1, hsplit.1, decimal_injective hsplit.2⟩

/-! ## Admitted targets -/

theorem port_fromTarget {target : Chars} {port : Nat} {key : Option Chars} {check : Bool} (h : port < 65536) :
    (fromTarget target port key check).port < 65536 := by
  cases hcut : splitOnce '@' target with
  | none =>
    simp only [fromTarget, hcut]
    exact hostAndPort_lt h
  | some cut =>
    simp only [fromTarget, hcut]
    exact hostAndPort_lt h

/-- What a target with a valid hostname is read back as. -/
theorem fromTarget_target {e : Endpoint} (huser : IsUser e.user) (hhost : isValidHostname e.hostname = true) {d : Nat}
    {key : Option Chars} {check : Bool} :
    (fromTarget e.target d key check).user = e.user ∧
      (fromTarget e.target d key check).hostname = (hostAndPort (hostPort e.hostname e.port) d).1 ∧
      (fromTarget e.target d key check).port = (hostAndPort (hostPort e.hostname e.port) d).2 := by
  have hcut := splitOnce_target huser hhost
  cases hu : e.user with
  | none =>
    have htarget : e.target = hostPort e.hostname e.port := by rw [target_eq, hu]
    rw [hu, htarget] at hcut
    rw [htarget]
    simp [fromTarget, hcut]
  | some user =>
    rw [hu] at hcut
    simp [fromTarget, hcut]

theorem eqIgnoreAsciiCase_refl (s : String) : eqIgnoreAsciiCase s s = true := beq_self_eq_true _

/-- An exclusion that names a profile's display name concerns it. -/
theorem coversOutcome_of_name {exclusion : ScopeExclusion} {target name : Chars} (h : String.ofList name ∈ exclusion.hosts) :
    coversOutcome exclusion target name = true := by
  unfold coversOutcome ScopeExclusion.coversHost
  rw [Bool.or_eq_true, List.any_eq_true]
  refine .inr ⟨_, h, List.any_eq_true.mpr ⟨String.ofList name, ?_, eqIgnoreAsciiCase_refl _⟩⟩
  simp

/-- A target names one endpoint exactly where the hostname has no colon. -/
theorem namesOneEndpoint_iff (t : AdmittedTarget) : NamesOneEndpoint t ↔ ':' ∉ t.profile.hostname := by
  have huser := isUser_fromTarget t.target t.port t.keyFile t.hostKeyChecking
  have hport : t.profile.port < 65536 := port_fromTarget t.port_lt
  have hread := fun d key check => @fromTarget_target t.profile.endpoint huser t.valid d key check
  have hback := fun d => @hostAndPort_hostPort t.profile.hostname t.profile.port d hport
  constructor
  · intro h hcolon
    have hhost := (h.reparsed 22 none true).hostname
    have hcut := (hread 22 none true).2.1
    change _ = (hostAndPort (hostPort t.profile.hostname t.profile.port) 22).1 at hcut
    rw [hback, if_pos hcolon] at hcut
    -- The port has become part of the name.
    have hlonger : t.profile.hostname = t.profile.hostname ++ ':' :: decimal t.profile.port := hhost.symm.trans hcut
    exact absurd (List.self_eq_append_right.mp hlonger) (List.cons_ne_nil _ _)
  · intro hcolon
    refine ⟨fun d key check => ?_, fun t' h => ?_, fun exclusion h => coversOutcome_of_name h⟩
    · obtain ⟨hu, hh, hp⟩ := hread d key check
      change _ = (hostAndPort (hostPort t.profile.hostname t.profile.port) d).1 at hh
      change _ = (hostAndPort (hostPort t.profile.hostname t.profile.port) d).2 at hp
      rw [hback, if_neg hcolon] at hh hp
      exact ⟨hu, hh, hp⟩
    · have huser' := isUser_fromTarget t'.target t'.port t'.keyFile t'.hostKeyChecking
      obtain ⟨hu, hh, hp⟩ := target_injective (e := t'.profile.endpoint) (f := t.profile.endpoint) huser' huser t'.valid t.valid h
      exact ⟨hu, hh, hp⟩

/-! ## An IPv6 literal -/

def linkLocal : AdmittedTarget where
  target := "root@fe80::1"
  port := 22
  keyFile := none
  hostKeyChecking := true
  port_lt := by decide
  valid := by decide

/-- Its target is `root@fe80::1:22`, which is read back as the host `fe80::1:22`. -/
theorem linkLocal_misread : ¬ NamesOneEndpoint linkLocal := by
  intro h
  have hhost := (h.reparsed 22 none true).hostname
  revert hhost
  decide

end LinuxHardener.Fleet
