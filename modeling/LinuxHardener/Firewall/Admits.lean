import LinuxHardener.Firewall.Overrides

/-
  What the list a configuration leaves admits.

  Of the packets that open a connection, a list admits those its loopback rule and its SSH
  rule admit. What is proved:
    1. `firstMatch_rules` — of a configuration's rules, those two decide.
    2. `listVerdict_iff` — what the list admits, where the loopback rule is unspoiled.
    3. `listVerdict_looped` — the list admits all that loops back exactly when the rule is
       there and unspoiled.
-/
namespace LinuxHardener.Firewall

open LineText Plugins

variable {config : PluginConfig} {p : Packet}

/-! ## What a configuration leaves of each rule -/

theorem effectiveRule_eq_some {rule r : Rule} (h : effectiveRule config rule = some r) :
    r = applyRuleDirectives rule (ruleId rule) config := by
  unfold effectiveRule at h
  split at h
  · cases h
  · exact (Option.some.inj h).symm

theorem description_effectiveRule {rule r : Rule} (h : effectiveRule config rule = some r) :
    r.description = rule.description := by
  rw [effectiveRule_eq_some h]
  rfl

theorem effectiveRules_append {β : Type} (f : Rule → Option β) :
    (buildRules config).1.filterMap f =
      ((effectiveRule config loopbackRule).bind f).toList ++ (((effectiveRule config establishedRule).bind f).toList ++
        (((effectiveRule config sshRule).bind f).toList ++ ((effectiveRule config dropDefaultRule).bind f).toList)) := by
  have hcons : ∀ (rule : Rule) (rules : List Rule), (rule :: rules).filterMap (fun r => (effectiveRule config r).bind f) =
      ((effectiveRule config rule).bind f).toList ++ rules.filterMap fun r => (effectiveRule config r).bind f := by
    intro rule rules
    rw [List.filterMap_cons]
    cases (effectiveRule config rule).bind f <;> rfl
  rw [effectiveRules_eq, List.filterMap_filterMap, baselineRules, hcons, hcons, hcons, hcons, List.filterMap_nil,
    List.append_nil]

theorem mem_effectiveRules {rule : Rule} : rule ∈ (buildRules config).1 ↔
    effectiveRule config loopbackRule = some rule ∨ effectiveRule config establishedRule = some rule ∨
      effectiveRule config sshRule = some rule ∨ effectiveRule config dropDefaultRule = some rule := by
  rw [effectiveRules_eq, List.mem_filterMap]
  simp [baselineRules]

/-- An accepting SSH rule: one port of TCP or UDP. -/
theorem accepting_ssh {s : Rule} (h : effectiveRule config sshRule = some s) (ha : s.action = "accept".toList) :
    (∃ n, IsOnePort n s.port) ∧ (s.protocol = "tcp".toList ∨ s.protocol = "udp".toList) := by
  have hs := effectiveRule_eq_some h
  subst hs
  change overrideAction config (ruleId sshRule) sshRule.action = _ at ha
  change (∃ n, IsOnePort n (overrideField config (ruleId sshRule) (overrideAction config (ruleId sshRule) sshRule.action) .port "22")) ∧
    (overrideField config (ruleId sshRule) (overrideAction config (ruleId sshRule) sshRule.action) .protocol "tcp" = _ ∨
      overrideField config (ruleId sshRule) (overrideAction config (ruleId sshRule) sshRule.action) .protocol "tcp" = _)
  rw [ha]
  exact ⟨ssh_port config _, ssh_protocol config _⟩

theorem accepting_loopback {l : Rule} (h : effectiveRule config loopbackRule = some l) (ha : l.action = "accept".toList) :
    l.source ≠ "any".toList := by
  have hl := effectiveRule_eq_some h
  subst hl
  change overrideAction config (ruleId loopbackRule) loopbackRule.action = _ at ha
  change overrideField config (ruleId loopbackRule) (overrideAction config (ruleId loopbackRule) loopbackRule.action) .source
    "127.0.0.1/8" ≠ _
  rw [ha]
  exact loopback_source_ne_any config _

/-- The catch-all rule never comes to accept. -/
theorem dropDefault_blocks {d : Rule} (h : effectiveRule config dropDefaultRule = some d) : isBlocking d.action = true := by
  have hd := effectiveRule_eq_some h
  subst hd
  change isBlocking (overrideAction config (ruleId dropDefaultRule) dropDefaultRule.action) = true
  unfold overrideAction
  split
  · decide
  · split
    · next h => exact actionOverrideIsAllowed_blocking (by decide) h
    · decide

theorem readVerdict_eq_accept {action : Chars} : readVerdict action = some .accept ↔ action = "accept".toList := by
  unfold readVerdict
  constructor
  · intro h
    split at h
    · assumption
    · split at h
      · cases h
      · split at h <;> cases h
  · intro h
    rw [if_pos h]

theorem readVerdict_ne_accept {action : Chars} (h : isBlocking action = true) : readVerdict action ≠ some .accept := by
  rw [Ne, readVerdict_eq_accept]
  rintro rfl
  cases h

/-! ## Packets -/

/-- A packet that opens a connection: one from the loopback network arrives on its interface. -/
def arriving (t : Transport) (a : IpAddr) : Packet where
  transport := t
  source := a
  interface := if loopbackNetwork.Contains a then loopbackInterface else "eth0"
  state := .new
  notMartian := fun h => if_pos h

/-- A packet on the loopback interface, of a protocol without ports. -/
def looped (a : IpAddr) : Packet := ⟨.other 47, a, loopbackInterface, .new, fun _ => rfl⟩

theorem isLocal_arriving {t : Transport} {a : IpAddr} : (arriving t a).isLocal = decide (loopbackNetwork.Contains a) := by
  change ((if loopbackNetwork.Contains a then loopbackInterface else "eth0") == loopbackInterface) = _
  by_cases h : loopbackNetwork.Contains a
  · rw [if_pos h, decide_eq_true h]
    rfl
  · rw [if_neg h, decide_eq_false h]
    rfl

theorem isTracked_new (h : p.state = .new) : p.isTracked = false := by
  rw [Packet.isTracked, h]
  rfl

/-- Outside any network there is an address that is no loopback address either. -/
theorem exists_outside (network : Option Network) :
    ∃ a, networkCovers network a = false ∧ ¬ loopbackNetwork.Contains a := by
  cases network with
  | none => exact ⟨.v6 1, rfl, by decide⟩
  | some n =>
    by_cases h : n.address.isIpv6 = true
    · refine ⟨.v4 134744072, decide_eq_false fun hc => ?_, by decide⟩
      have := hc.1.symm.trans rfl
      rw [h] at this
      cases this
    · refine ⟨.v6 1, decide_eq_false fun hc => ?_, by decide⟩
      exact h hc.1.symm

/-- All of a network is loopback addresses. -/
def Network.IsLoopback (n : Network) : Prop := 8 ≤ n.bits ∧ loopbackNetwork.Contains n.address

instance (n : Network) : Decidable n.IsLoopback := instDecidableAnd

theorem Network.IsLoopback.contains {n : Network} (h : n.IsLoopback) {a : IpAddr} (ha : n.Contains a) :
    loopbackNetwork.Contains a := IpAddr.InNetwork.trans h.2 (IpAddr.InNetwork.mono h.1 ha)

/-- A network that is not all loopback holds an address that is none. -/
theorem Network.exists_not_loopback {n : Network} (h : ¬ n.IsLoopback) :
    ∃ a, n.Contains a ∧ ¬ loopbackNetwork.Contains a := by
  by_cases ha : loopbackNetwork.Contains n.address
  · have hfew : n.bits < 8 := Nat.lt_of_not_le fun hle => h ⟨hle, ha⟩
    have hfamily : 8 ≤ IpAddr.familyBits n.address.isIpv6 := by
      unfold IpAddr.familyBits
      split <;> decide
    obtain ⟨a, hin, hout⟩ := IpAddr.exists_inNetwork_not_inNetwork n.address hfew hfamily
    exact ⟨a, hin, fun hc => hout (IpAddr.InNetwork.trans (IpAddr.InNetwork.symm ha) hc)⟩
  · exact ⟨n.address, IpAddr.InNetwork.refl _ _, ha⟩

/-! ## What the list admits -/

/-- The part of a rule that is about protocol and port. -/
def serviceCovers (rule : Rule) (t : Transport) : Bool := protocolCovers rule.protocol t && portCovers rule.port t

/-- The SSH rule admits a packet. -/
def AdmittedBySsh (config : PluginConfig) (p : Packet) : Prop :=
  ∃ s, effectiveRule config sshRule = some s ∧ s.action = "accept".toList ∧
    serviceCovers s p.transport = true ∧ sourceCovers s.source p.source = true

/-- A loopback rule that admits whatever arrives on the loopback interface. -/
structure AdmitsLoopback (rule : Rule) : Prop where
  action : rule.action = "accept".toList
  protocol : rule.protocol = "all".toList ∨ rule.protocol = "any".toList
  port : rule.port = "any".toList
  source : isLoopbackSource rule.source = true

theorem isLoopbackSource_iff {source : Chars} :
    isLoopbackSource source = true ↔ ∃ n, sourceNetwork source = some n ∧ n.bits = 8 ∧ loopbackNetwork.Contains n.address := by
  unfold isLoopbackSource
  cases sourceNetwork source <;> simp

/-- A loopback source covers loopback addresses only. -/
theorem not_any_of_isLoopbackSource {source : Chars} (h : isLoopbackSource source = true) : source ≠ "any".toList := by
  rintro rfl
  cases h

theorem sourceCovers_loopback {source : Chars} (h : isLoopbackSource source = true) {a : IpAddr}
    (ha : sourceCovers source a = true) : loopbackNetwork.Contains a := by
  obtain ⟨n, hn, hbits, haddress⟩ := isLoopbackSource_iff.mp h
  rw [sourceCovers, hn, Bool.or_eq_true, beq_iff_eq] at ha
  have hcontains := ha.resolve_left (not_any_of_isLoopbackSource h)
  exact Network.IsLoopback.contains ⟨hbits.ge, haddress⟩ (of_decide_eq_true hcontains)

theorem serviceCovers_any {rule : Rule} (hprotocol : rule.protocol = "all".toList ∨ rule.protocol = "any".toList)
    (hport : rule.port = "any".toList) (t : Transport) : serviceCovers rule t = true := by
  rw [serviceCovers, portCovers, hport]
  obtain h | h := hprotocol <;> rw [h] <;> cases t <;> rfl

/-- Of the protocols without ports, a rule covers all or none. -/
theorem serviceCovers_other {rule : Rule} {n : Nat} (h : serviceCovers rule (.other n) = true) :
    (rule.protocol = "all".toList ∨ rule.protocol = "any".toList) ∧ rule.port = "any".toList := by
  rw [serviceCovers, portCovers, Bool.and_eq_true, Bool.or_eq_true, beq_iff_eq] at h
  refine ⟨?_, h.2.resolve_right fun hr => ?_⟩
  · simpa [protocolCovers] using h.1
  · unfold rangeCovers at hr
    split at hr
    · next hd => cases hd
    · cases hr

theorem ruleId_effectiveRule {rule r : Rule} (h : effectiveRule config rule = some r) : ruleId r = ruleId rule := by
  rw [effectiveRule_eq_some h]
  rfl

theorem ruleId_ssh {s : Rule} (h : effectiveRule config sshRule = some s) : ruleId s = "ssh".toList := by
  rw [ruleId_effectiveRule h]
  decide

theorem ruleId_loopback {l : Rule} (h : effectiveRule config loopbackRule = some l) : ruleId l = "loopback".toList := by
  rw [ruleId_effectiveRule h]
  decide

theorem ruleId_established {e : Rule} (h : effectiveRule config establishedRule = some e) :
    ruleId e = "established".toList := by
  rw [ruleId_effectiveRule h]
  decide

theorem ruleCovers_ssh {s : Rule} (h : effectiveRule config sshRule = some s) :
    ruleCovers s p = (serviceCovers s p.transport && sourceCovers s.source p.source) := by
  rw [ruleCovers, ruleId_ssh h, serviceCovers]
  simp

theorem ruleCovers_loopback {l : Rule} (h : effectiveRule config loopbackRule = some l) :
    ruleCovers l p =
      (serviceCovers l p.transport && (sourceCovers l.source p.source || isLoopbackSource l.source && p.isLocal)) := by
  rw [ruleCovers, ruleId_loopback h, serviceCovers]
  simp

/-- Filters made of a configuration's rules come down to those of the loopback rule and the SSH
rule: the established rule covers no new packet, and the catch-all admits nothing. -/
theorem firstMatch_rules {f : Rule → Option (Filter Packet Verdict)}
    (hestablished : ∀ r g, effectiveRule config establishedRule = some r → f r = some g → g.covers p = false)
    (hdefault : ∀ r g, effectiveRule config dropDefaultRule = some r → f r = some g → g.verdict ≠ .accept) :
    firstMatch .drop ((buildRules config).1.filterMap f) p = .accept ↔
      firstMatch .drop (((effectiveRule config loopbackRule).bind f).toList ++
        ((effectiveRule config sshRule).bind f).toList) p = .accept := by
  have hlast : ∀ g ∈ ((effectiveRule config dropDefaultRule).bind f).toList, g.covers p = true → g.verdict ≠ .accept := by
    intro g hg _
    obtain ⟨r, hr, hfr⟩ := Option.bind_eq_some_iff.mp (Option.mem_toList.mp hg)
    exact hdefault r g hr hfr
  rw [effectiveRules_append, ← List.append_assoc, ← List.append_assoc, firstMatch_append_eq_iff (by decide) hlast]
  cases he : (effectiveRule config establishedRule).bind f with
  | none => rw [Option.toList_none, List.append_nil]
  | some g =>
    obtain ⟨r, hr, hfr⟩ := Option.bind_eq_some_iff.mp he
    rw [Option.toList_some, List.append_assoc, List.singleton_append,
      firstMatch_append_cons_of_not_covers (hestablished r g hr hfr)]

theorem ruleFilter_established (hnew : p.state = .new) {r : Rule} (h : effectiveRule config establishedRule = some r) :
    (ruleFilter r).covers p = false := by
  change ruleCovers r p = false
  rw [ruleCovers, ruleId_established h, isTracked_new hnew]
  exact Bool.and_false _

theorem ruleFilter_verdict {rule : Rule} : (ruleFilter rule).verdict = .accept ↔ rule.action = "accept".toList := by
  rw [← readVerdict_eq_accept]
  change (readVerdict rule.action).getD .drop = .accept ↔ _
  cases readVerdict rule.action <;> simp

theorem listVerdict_rules (hnew : p.state = .new) :
    listVerdict (buildRules config).1 p = .accept ↔
      firstMatch .drop (((effectiveRule config loopbackRule).map ruleFilter).toList ++
        ((effectiveRule config sshRule).map ruleFilter).toList) p = .accept := by
  have hrules := firstMatch_rules (p := p) (f := fun r => some (ruleFilter r))
    (fun r g (hr : effectiveRule config establishedRule = some r) hg =>
      Option.some.inj hg ▸ ruleFilter_established hnew hr)
    (fun r g hr hg => by
      rw [← Option.some.inj hg, Ne, ruleFilter_verdict]
      intro ha
      have := dropDefault_blocks hr
      rw [ha] at this
      cases this)
  rw [List.filterMap_eq_map'] at hrules
  rw [listVerdict, hrules]
  cases effectiveRule config loopbackRule <;> cases effectiveRule config sshRule <;> rfl

theorem admittedBySsh_iff : AdmittedBySsh config p ↔
    firstMatch .drop ((effectiveRule config sshRule).map ruleFilter).toList p = .accept := by
  rw [firstMatch_toList_eq_iff (by decide)]
  constructor
  · rintro ⟨s, hs, ha, hservice, hsource⟩
    refine ⟨ruleFilter s, by rw [hs]; rfl, ?_, ruleFilter_verdict.mpr ha⟩
    change ruleCovers s p = true
    rw [ruleCovers_ssh hs, hservice, hsource]
    rfl
  · rintro ⟨g, hg, hcovers, hverdict⟩
    obtain ⟨s, hs, rfl⟩ := Option.map_eq_some_iff.mp hg
    change ruleCovers s p = true at hcovers
    rw [ruleCovers_ssh hs, Bool.and_eq_true] at hcovers
    exact ⟨s, hs, ruleFilter_verdict.mp hverdict, hcovers.1, hcovers.2⟩

/-- An unspoiled loopback rule covers what arrives on the loopback interface. -/
theorem ruleCovers_admitsLoopback {l : Rule} (h : effectiveRule config loopbackRule = some l) (hl : AdmitsLoopback l) :
    ruleCovers l p = p.isLocal := by
  rw [ruleCovers_loopback h, serviceCovers_any hl.protocol hl.port, hl.source, Bool.true_and, Bool.true_and]
  cases hs : sourceCovers l.source p.source with
  | false => rfl
  | true =>
    have hlocal := p.notMartian (sourceCovers_loopback hl.source hs)
    rw [Packet.isLocal, hlocal]
    rfl

/-- What a list admits of the new packets: what arrives on the loopback interface, where its rule
is there and unspoiled, and what the SSH rule admits. -/
theorem listVerdict_iff (hnew : p.state = .new) (hl : ∀ l, effectiveRule config loopbackRule = some l → AdmitsLoopback l) :
    listVerdict (buildRules config).1 p = .accept ↔
      ((effectiveRule config loopbackRule).isSome = true ∧ p.isLocal = true) ∨ AdmittedBySsh config p := by
  rw [listVerdict_rules hnew, admittedBySsh_iff]
  cases h : effectiveRule config loopbackRule with
  | none => simp
  | some l =>
    have hcovers : (ruleFilter l).covers p = p.isLocal := ruleCovers_admitsLoopback h (hl l h)
    have hverdict : (ruleFilter l).verdict = .accept := ruleFilter_verdict.mpr (hl l h).action
    rw [Option.map_some, Option.toList_some, List.singleton_append, firstMatch, hcovers, hverdict]
    cases p.isLocal <;> simp

/-- The SSH rule admits nothing without ports. -/
theorem not_admittedBySsh_other {n : Nat} (h : p.transport = .other n) : ¬ AdmittedBySsh config p := by
  rintro ⟨s, hs, ha, hservice, _⟩
  rw [h] at hservice
  have hprotocol := (serviceCovers_other hservice).1
  rcases (accepting_ssh hs ha).2 with hp | hp <;> rw [hp] at hprotocol <;> revert hprotocol <;> decide

/-- An accepting loopback rule that covers all that loops back is unspoiled. -/
theorem admitsLoopback_of_covers {l : Rule} (h : effectiveRule config loopbackRule = some l) (ha : l.action = "accept".toList)
    (hcovers : ∀ a, ruleCovers l (looped a) = true) : AdmitsLoopback l := by
  have hparts : ∀ a, serviceCovers l (.other 47) = true ∧
      (sourceCovers l.source a = true ∨ isLoopbackSource l.source = true) := by
    intro a
    have hc := hcovers a
    rw [ruleCovers_loopback h, Bool.and_eq_true, Bool.or_eq_true, Bool.and_eq_true] at hc
    exact ⟨hc.1, hc.2.imp_right And.left⟩
  obtain ⟨hprotocol, hport⟩ := serviceCovers_other (hparts (.v6 1)).1
  refine ⟨ha, hprotocol, hport, ?_⟩
  obtain ⟨a, hout, _⟩ := exists_outside (sourceNetwork l.source)
  refine (hparts a).2.resolve_left fun hcovered => ?_
  rw [sourceCovers, hout, Bool.or_false, beq_iff_eq] at hcovered
  exact accepting_loopback h ha hcovered

/-- The list admits all that loops back exactly when its loopback rule is there and unspoiled. -/
theorem listVerdict_looped : (∀ a, listVerdict (buildRules config).1 (looped a) = .accept) ↔
    ∃ l, effectiveRule config loopbackRule = some l ∧ AdmitsLoopback l := by
  constructor
  · intro h
    cases hl : effectiveRule config loopbackRule with
    | none =>
      have hnone : ∀ l, effectiveRule config loopbackRule = some l → AdmitsLoopback l := by simp [hl]
      have hadmitted := (listVerdict_iff rfl hnone).mp (h (.v6 1))
      rw [hl] at hadmitted
      exact absurd (hadmitted.resolve_left (by simp)) (not_admittedBySsh_other rfl)
    | some l =>
      have hcovers : ∀ a, ruleCovers l (looped a) = true ∧ l.action = "accept".toList := by
        intro a
        have hadmitted := (listVerdict_rules (p := looped a) rfl).mp (h a)
        rw [hl, Option.map_some, Option.toList_some, List.singleton_append, firstMatch] at hadmitted
        split at hadmitted
        · next hc => exact ⟨hc, ruleFilter_verdict.mp hadmitted⟩
        · exact absurd (admittedBySsh_iff.mpr hadmitted) (not_admittedBySsh_other rfl)
      exact ⟨l, rfl, admitsLoopback_of_covers hl (hcovers (.v6 1)).2 fun a => (hcovers a).1⟩
  · rintro ⟨l, hl, hadmits⟩ a
    have hall : ∀ l', effectiveRule config loopbackRule = some l' → AdmitsLoopback l' := by
      intro l' hl'
      rw [hl] at hl'
      exact Option.some.inj hl' ▸ hadmits
    exact (listVerdict_iff rfl hall).mpr (.inl ⟨by rw [hl]; rfl, rfl⟩)

/-! ## One service -/

/-- Some packet asks for what an accepting SSH rule is about. -/
theorem exists_service {s : Rule} (h : effectiveRule config sshRule = some s) (ha : s.action = "accept".toList) :
    ∃ t, serviceCovers s t = true := by
  obtain ⟨⟨n, hn⟩, hprotocol⟩ := accepting_ssh h ha
  have hlt : n < 65536 := hn.1
  have hrange : rangeCovers (some (n, n)) (.tcp ⟨n, hlt⟩) = true ∧ rangeCovers (some (n, n)) (.udp ⟨n, hlt⟩) = true := by
    simp [rangeCovers, Transport.dport]
  rcases hprotocol with hp | hp
  · refine ⟨.tcp ⟨n, hlt⟩, ?_⟩
    rw [serviceCovers, portCovers, hp, parsePorts_eq hn, hrange.1, Bool.or_true]
    rfl
  · refine ⟨.udp ⟨n, hlt⟩, ?_⟩
    rw [serviceCovers, portCovers, hp, parsePorts_eq hn, hrange.2, Bool.or_true]
    rfl

theorem port_ne_any {n : Nat} {port : Chars} (h : IsOnePort n port) : port ≠ "any".toList := h.isRange.ne_any

/-- The service of a rule about a range of ports. -/
theorem serviceCovers_range {s : Rule} {low high : Nat} (h : IsRange low high s.port) (t : Transport) :
    serviceCovers s t = (protocolCovers s.protocol t && rangeCovers (some (low, high)) t) := by
  have hport : (s.port == "any".toList) = false := beq_false_of_ne h.ne_any
  rw [serviceCovers, portCovers, parsePorts_range h, hport, Bool.false_or]

/-- The service of an accepting SSH rule, as its port reads. -/
theorem serviceCovers_ssh {s : Rule} {n : Nat} (hn : IsOnePort n s.port) (t : Transport) :
    serviceCovers s t = (protocolCovers s.protocol t && rangeCovers (some (n, n)) t) := serviceCovers_range hn.isRange t

/-- What ufw and firewalld accept on their own: of the new packets, what arrives on the loopback
interface. -/
theorem firstMatch_builtin (hnew : p.state = .new) {policy : Verdict} {fs : List (Filter Packet Verdict)} :
    firstMatch policy (builtinFilters ++ fs) p = .accept ↔ p.isLocal = true ∨ firstMatch policy fs p = .accept := by
  by_cases hlocal : p.isLocal = true
  · rw [builtinFilters, List.cons_append, firstMatch_cons_of_covers hlocal]
    simp [hlocal]
  · rw [builtinFilters, List.cons_append, firstMatch_cons_of_not_covers (Bool.not_eq_true _ ▸ hlocal),
      List.cons_append, firstMatch_cons_of_not_covers (isTracked_new hnew), List.nil_append]
    simp [hlocal]

end LinuxHardener.Firewall
