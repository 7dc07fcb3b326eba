import LinuxHardener.Firewall.Admits

/-
  Whether what ufw takes of a rule list's statements admits what the list admits.

  What is proved:
    1. `Ufw.load_eq` — ufw after the statements of a configuration's rules.
    2. `ufwVerdict_iff` — what it then admits of the new packets.
    3. `ufw_agrees_iff` — exactly when that is what the list admits.
-/
namespace LinuxHardener.Firewall

open LineText Plugins

variable {config : PluginConfig} {p : Packet}

/-! ## Statements -/

/-- The criteria ufw reads back from a rule's arguments. -/
def ufwCriteria (rule : Rule) : UfwCriteria :=
  if rule.port = "any".toList then ⟨rule.source, "any", "any"⟩
  else
    ⟨rule.source, ufwPortSyntax rule.port,
      if rule.protocol ≠ "all".toList ∧ rule.protocol ≠ "any".toList then rule.protocol else "any"⟩

/-- A rule that names no source and no port is no ufw rule. -/
def HasCriteria (rule : Rule) : Prop := rule.source ≠ "any".toList ∨ rule.port ≠ "any".toList

instance (rule : Rule) : Decidable (HasCriteria rule) := instDecidableOr

/-- What ufw makes of a rule other than the catch-all. -/
def ufwFilter (rule : Rule) : Option (Filter Packet Verdict) :=
  match readUfwAction (ufwAction rule.action) with
  | none => none
  | some verdict =>
    if HasCriteria rule ∧ ufwTakes (ufwCriteria rule) = true then some ⟨ufwCovers (ufwCriteria rule), verdict⟩ else none

theorem readUfwCriteria_args (rule : Rule) :
    readUfwCriteria .none
      ((if rule.source ≠ "any".toList then ["from".toList, rule.source] else []) ++
        (if rule.port ≠ "any".toList then
          ["to".toList, "any".toList, "port".toList, ufwPortSyntax rule.port] ++
            (if rule.protocol ≠ "all".toList ∧ rule.protocol ≠ "any".toList then ["proto".toList, rule.protocol] else [])
        else [])) = some (ufwCriteria rule) := by
  unfold ufwCriteria
  by_cases hport : rule.port = "any".toList
  · rw [if_neg (not_not.mpr hport), if_pos hport, List.append_nil]
    by_cases hsource : rule.source = "any".toList
    · rw [if_neg (not_not.mpr hsource), hsource]
      rfl
    · rw [if_pos hsource]
      rfl
  · rw [if_pos hport, if_neg hport]
    by_cases hprotocol : rule.protocol ≠ "all".toList ∧ rule.protocol ≠ "any".toList
    · rw [if_pos hprotocol, if_pos hprotocol]
      by_cases hsource : rule.source = "any".toList
      · rw [if_neg (not_not.mpr hsource), hsource]
        rfl
      · rw [if_pos hsource]
        rfl
    · rw [if_neg hprotocol, if_neg hprotocol, List.append_nil]
      by_cases hsource : rule.source = "any".toList
      · rw [if_neg (not_not.mpr hsource), hsource]
        rfl
      · rw [if_pos hsource]
        rfl

theorem ufwAction_ne_default (action : Chars) : ufwAction action ≠ "default".toList := by
  unfold ufwAction
  split
  · decide
  · split
    · decide
    · split <;> decide

theorem readUfw_rule {rule : Rule} (h : rule.description ≠ defaultInboundRule) :
    readUfw (buildUfwRuleArgs rule) = (ufwFilter rule).map .add := by
  rw [buildUfwRuleArgs, if_neg h, readUfw, if_neg (ufwAction_ne_default rule.action)]
  have hnil : ((if rule.source ≠ "any".toList then ["from".toList, rule.source] else []) ++
        (if rule.port ≠ "any".toList then
          ["to".toList, "any".toList, "port".toList, ufwPortSyntax rule.port] ++
            (if rule.protocol ≠ "all".toList ∧ rule.protocol ≠ "any".toList then ["proto".toList, rule.protocol] else [])
        else [])) = [] ↔ ¬ HasCriteria rule := by
    by_cases hsource : rule.source = "any".toList <;> by_cases hport : rule.port = "any".toList <;>
      simp [HasCriteria, hsource, hport]
  unfold ufwFilter
  by_cases hc : HasCriteria rule
  · rw [if_neg (fun he => hnil.mp he hc), readUfwCriteria_args]
    cases readUfwAction (ufwAction rule.action) with
    | none => rfl
    | some verdict =>
      dsimp only
      by_cases ht : ufwTakes (ufwCriteria rule) = true
      · rw [if_pos ht, if_pos ⟨hc, ht⟩]
        rfl
      · rw [if_neg ht, if_neg (fun h => ht h.2)]
        rfl
  · rw [if_pos (hnil.mpr hc)]
    cases readUfwAction (ufwAction rule.action) with
    | none => rfl
    | some verdict =>
      dsimp only
      rw [if_neg (fun h => hc h.1)]
      rfl

namespace Ufw

theorem run_rule (u : Ufw) {rule : Rule} (h : rule.description ≠ defaultInboundRule) :
    u.run (buildUfwRuleArgs rule) = { u with rules := u.rules ++ (ufwFilter rule).toList } := by
  rw [run, readUfw_rule h]
  cases ufwFilter rule with
  | none =>
    change u = { u with rules := u.rules ++ [] }
    rw [List.append_nil]
  | some f => rfl

theorem run_default (u : Ufw) {rule : Rule} (h : rule.description = defaultInboundRule) :
    u.run (buildUfwRuleArgs rule) = { u with incoming := .drop } := by
  rw [buildUfwRuleArgs, if_pos h]
  rfl

/-- ufw after the statements of a configuration's rules: the loopback rule and the SSH rule where
ufw takes them, and the catch-all as its default policy. -/
theorem load_eq (policy : Verdict) {defaultAlreadyDeny : Bool} (hdeny : defaultAlreadyDeny = true → policy = .drop) :
    load ⟨policy, []⟩ defaultAlreadyDeny (buildRules config).1 =
      ⟨if (effectiveRule config dropDefaultRule).isSome then .drop else policy,
        ((effectiveRule config loopbackRule).bind ufwFilter).toList ++ ((effectiveRule config sshRule).bind ufwFilter).toList⟩ := by
  have hrule : ∀ (baseline : Rule) (u : Ufw), baseline.description ≠ defaultInboundRule →
      baseline.description ≠ "Allow established and related connections".toList →
      (((effectiveRule config baseline).bind (statement defaultAlreadyDeny)).toList).foldl run u =
        { u with rules := u.rules ++ ((effectiveRule config baseline).bind ufwFilter).toList } := by
    intro baseline u hdefault hestablished
    cases hr : effectiveRule config baseline with
    | none =>
      change u = { u with rules := u.rules ++ [] }
      rw [List.append_nil]
    | some r =>
      have hdescription := description_effectiveRule hr
      rw [Option.bind_some, Option.bind_some, statement, if_neg (hdescription ▸ hestablished),
        if_neg (fun h => hdefault (hdescription ▸ h.1))]
      exact run_rule u (hdescription ▸ hdefault)
  have hestablished : ((effectiveRule config establishedRule).bind (statement defaultAlreadyDeny)).toList = [] := by
    cases hr : effectiveRule config establishedRule with
    | none => rfl
    | some r =>
      have hdescription : r.description = "Allow established and related connections".toList := description_effectiveRule hr
      rw [Option.bind_some, statement, if_pos hdescription]
      rfl
  have hcatchAll : ∀ u : Ufw, (u.incoming = policy) →
      (((effectiveRule config dropDefaultRule).bind (statement defaultAlreadyDeny)).toList).foldl run u =
        { u with incoming := if (effectiveRule config dropDefaultRule).isSome then .drop else policy } := by
    intro u hu
    cases hr : effectiveRule config dropDefaultRule with
    | none =>
      change u = { u with incoming := policy }
      rw [← hu]
    | some r =>
      have hdescription := description_effectiveRule hr
      rw [Option.bind_some, statement, if_neg (by rw [hdescription]; decide)]
      cases defaultAlreadyDeny with
      | true =>
        rw [if_pos ⟨hdescription, rfl⟩]
        change u = { u with incoming := .drop }
        rw [← hdeny rfl, ← hu]
      | false =>
        rw [if_neg (fun h => Bool.false_ne_true h.2)]
        exact run_default u hdescription
  rw [load, effectiveRules_append, hestablished, List.nil_append, List.foldl_append, List.foldl_append,
    hrule loopbackRule _ (by decide) (by decide), hrule sshRule _ (by decide) (by decide), hcatchAll _ rfl]
  rfl

end Ufw

theorem ufw_network {source : Chars} {n : Network} (h : ufwSource source = some n) : sourceNetwork source = some n := by
  rw [ufwSource, readNetwork_eq_some] at h
  rw [sourceNetwork, readNetwork_eq_some]
  rcases h with h | ⟨address, bits, hs, ha, hb, hle⟩
  · exact .inl h
  · refine .inr ⟨address, bits, hs, ha, ?_, hle⟩
    rwa [parseUnsigned_of_digits (parseDigits_eq_some.mp hb).1.2]

theorem readUfwAction_eq_accept {action : Chars} : readUfwAction (ufwAction action) = some .accept ↔ action = "accept".toList := by
  unfold ufwAction
  split
  · next h => exact ⟨fun _ => h, fun _ => rfl⟩
  · next h =>
    refine ⟨fun hread => ?_, fun ha => absurd ha h⟩
    split at hread
    · cases hread
    · split at hread <;> cases hread

theorem ufwFilter_eq_some {rule : Rule} {f : Filter Packet Verdict} (h : ufwFilter rule = some f) :
    (HasCriteria rule ∧ ufwTakes (ufwCriteria rule) = true) ∧
      readUfwAction (ufwAction rule.action) = some f.verdict ∧ ∀ p, f.covers p = ufwCovers (ufwCriteria rule) p := by
  unfold ufwFilter at h
  cases hread : readUfwAction (ufwAction rule.action) with
  | none =>
    rw [hread] at h
    cases h
  | some verdict =>
    rw [hread] at h
    dsimp only at h
    split at h
    · next ht =>
      cases h
      exact ⟨ht, rfl, fun _ => rfl⟩
    · cases h

theorem ufwCriteria_source (rule : Rule) : (ufwCriteria rule).source = rule.source := by
  unfold ufwCriteria
  split <;> rfl

theorem ufwPortSyntax_ne_any {port : Chars} (h : port ≠ "any".toList) : ufwPortSyntax port ≠ "any".toList := by
  unfold ufwPortSyntax
  split
  · exact h
  · split
    · intro heq
      have hmem : ':' ∈ "any".toList := heq ▸ List.mem_append_right _ List.mem_cons_self
      revert hmem
      decide
    · exact h

/-- A loopback source is a loopback source to ufw. -/
theorem ufwFilter_loopback {l : Rule} (hl : AdmitsLoopback l) {f : Filter Packet Verdict} (hf : ufwFilter l = some f)
    (hlocal : p.isLocal = false) : f.covers p = false := by
  rw [(ufwFilter_eq_some hf).2.2, ufwCovers, ufwCriteria_source]
  have hsource : (l.source == "any".toList || networkCovers (ufwSource l.source) p.source) = false := by
    rw [beq_false_of_ne (not_any_of_isLoopbackSource hl.source), Bool.false_or]
    cases hn : ufwSource l.source with
    | none => rfl
    | some n =>
      obtain ⟨m, hm, hbits, haddress⟩ := isLoopbackSource_iff.mp hl.source
      rw [ufw_network hn] at hm
      cases hm
      refine decide_eq_false fun hc => ?_
      have hin : loopbackNetwork.Contains p.source := Network.IsLoopback.contains ⟨hbits.ge, haddress⟩ hc
      rw [Packet.isLocal, p.notMartian hin] at hlocal
      cases hlocal
  rw [hsource]
  rfl

/-- What an accepting SSH rule is to ufw, where ufw takes it. -/
theorem ufwCovers_ssh {s : Rule} (h : effectiveRule config sshRule = some s) (ha : s.action = "accept".toList)
    (ht : ufwTakes (ufwCriteria s) = true) :
    ufwCovers (ufwCriteria s) p = (sourceCovers s.source p.source && serviceCovers s p.transport) := by
  obtain ⟨⟨n, hn⟩, hprotocol⟩ := accepting_ssh h ha
  have hany : s.port ≠ "any".toList := port_ne_any hn
  have hnamed : s.protocol ≠ "all".toList ∧ s.protocol ≠ "any".toList := by
    rcases hprotocol with hp | hp <;> rw [hp] <;> decide
  have hcriteria : ufwCriteria s = ⟨s.source, ufwPortSyntax s.port, s.protocol⟩ := by
    rw [ufwCriteria, if_neg hany, if_pos hnamed]
  rw [hcriteria, ufwTakes, Bool.and_eq_true, Bool.and_eq_true, Bool.or_eq_true, Bool.or_eq_true] at ht
  obtain ⟨⟨hsource, hport⟩, _⟩ := ht
  dsimp only at hsource hport
  -- A range of one port is none to ufw, and a port is the number it is written as.
  have hrange : (ufwPortSyntax s.port == "any".toList) = false ∧ ufwRange (ufwPortSyntax s.port) = some (n, n) := by
    obtain ⟨hlt, hp | hp⟩ := hn
    · have hspelling : ufwPortSyntax s.port = decimal n := by
        rw [ufwPortSyntax, hp, splitOnce_decimal rfl]
      have hne : (decimal n == "any".toList) = false := beq_false_of_ne (port_ne_any ⟨hlt, .inl rfl⟩)
      rw [hspelling] at hport ⊢
      refine ⟨hne, ?_⟩
      rw [hne, ufwRange, splitOnce_decimal rfl] at hport
      rw [ufwRange, splitOnce_decimal rfl]
      dsimp only at hport ⊢
      rw [parseDigits_decimal hlt, Option.bind_some] at hport ⊢
      by_cases hpos : 1 ≤ n
      · exact if_pos hpos
      · rw [if_neg hpos] at hport
        exact absurd hport (by simp)
    · exfalso
      have hspelling : ufwPortSyntax s.port = decimal n ++ ':' :: decimal n := by
        rw [ufwPortSyntax, hp, splitOnce_range rfl]
        dsimp only
        rw [parseUnsigned_decimal hlt]
      have hne : (decimal n ++ ':' :: decimal n == "any".toList) = false := by
        refine beq_false_of_ne fun heq => ?_
        have hmem : ':' ∈ "any".toList := heq ▸ List.mem_append_right _ List.mem_cons_self
        revert hmem
        decide
      rw [hspelling, hne, ufwRange, splitOnce_range rfl] at hport
      dsimp only at hport
      rw [parseDigits_decimal hlt] at hport
      dsimp only at hport
      rw [if_neg (by omega)] at hport
      exact absurd hport (by simp)
  have hcovered : (s.source == "any".toList || networkCovers (ufwSource s.source) p.source) = sourceCovers s.source p.source := by
    rw [sourceCovers]
    cases hs : s.source == "any".toList with
    | true => rfl
    | false =>
      rw [hs] at hsource
      obtain ⟨m, hm⟩ := Option.isSome_iff_exists.mp (hsource.resolve_left Bool.false_ne_true)
      rw [hm, ufw_network hm]
  rw [hcriteria, ufwCovers, serviceCovers_ssh hn]
  dsimp only
  rw [hcovered, hrange.1, hrange.2, Bool.false_or, Bool.and_assoc,
    Bool.and_comm (protocolCovers s.protocol p.transport)]

/-- ufw agrees with a list: after its statements, whatever the default policy was before and
whether or not `ufw status` says so, the new packets admitted are those the list admits. -/
def UfwAgrees (rules : List Rule) : Prop :=
  ∀ (policy : Verdict) (defaultAlreadyDeny : Bool), (defaultAlreadyDeny = true → policy = .drop) → ∀ p : Packet,
    p.state = .new →
    ((Ufw.load ⟨policy, []⟩ defaultAlreadyDeny rules).verdict p = .accept ↔ listVerdict rules p = .accept)

/-- ufw takes an accepting SSH rule, or the rule is about no address that does not loop back. -/
def UfwTakesSsh (s : Rule) : Prop :=
  ufwTakes (ufwCriteria s) = true ∨
    (s.source ≠ "any".toList ∧ ∀ n, sourceNetwork s.source = some n → n.IsLoopback)

def UfwFaithful (config : PluginConfig) : Prop :=
  (∃ l, effectiveRule config loopbackRule = some l ∧ AdmitsLoopback l) ∧
    (effectiveRule config dropDefaultRule).isSome = true ∧
    ∀ s, effectiveRule config sshRule = some s → s.action = "accept".toList → UfwTakesSsh s

/-- Of what ufw holds after the statements, only the SSH rule says something of a packet from
elsewhere, where the loopback rule is unspoiled. -/
theorem ufw_rules_elsewhere (hl : ∀ l, effectiveRule config loopbackRule = some l → AdmitsLoopback l) {policy : Verdict}
    (hlocal : p.isLocal = false) :
    firstMatch policy (((effectiveRule config loopbackRule).bind ufwFilter).toList ++
      ((effectiveRule config sshRule).bind ufwFilter).toList) p =
        firstMatch policy ((effectiveRule config sshRule).bind ufwFilter).toList p := by
  cases hf : (effectiveRule config loopbackRule).bind ufwFilter with
  | none => rfl
  | some f =>
    obtain ⟨l, hlr, hlf⟩ := Option.bind_eq_some_iff.mp hf
    rw [Option.toList_some, List.singleton_append,
      firstMatch_cons_of_not_covers (ufwFilter_loopback (hl l hlr) hlf hlocal)]

/-- What ufw admits of the new packets, where the loopback rule is unspoiled and the catch-all
has set the default. -/
theorem ufwVerdict_iff (hl : ∀ l, effectiveRule config loopbackRule = some l → AdmitsLoopback l)
    (hd : (effectiveRule config dropDefaultRule).isSome = true) (hnew : p.state = .new) {policy : Verdict}
    {defaultAlreadyDeny : Bool} (hdeny : defaultAlreadyDeny = true → policy = .drop) :
    (Ufw.load ⟨policy, []⟩ defaultAlreadyDeny (buildRules config).1).verdict p = .accept ↔
      p.isLocal = true ∨ ∃ s, effectiveRule config sshRule = some s ∧ s.action = "accept".toList ∧
        ufwTakes (ufwCriteria s) = true ∧ sourceCovers s.source p.source = true ∧ serviceCovers s p.transport = true := by
  rw [Ufw.load_eq policy hdeny, Ufw.verdict, firstMatch_builtin hnew, if_pos hd]
  by_cases hlocal : p.isLocal = true
  · simp [hlocal]
  · refine or_congr Iff.rfl ?_
    dsimp only
    rw [ufw_rules_elsewhere hl (Bool.not_eq_true _ ▸ hlocal), firstMatch_toList_eq_iff (by decide)]
    constructor
    · rintro ⟨f, hf, hcovers, hverdict⟩
      obtain ⟨s, hs, hsf⟩ := Option.bind_eq_some_iff.mp hf
      obtain ⟨⟨_, ht⟩, haction, hcovered⟩ := ufwFilter_eq_some hsf
      rw [hverdict, readUfwAction_eq_accept] at haction
      rw [hcovered, ufwCovers_ssh hs haction ht, Bool.and_eq_true] at hcovers
      exact ⟨s, hs, haction, ht, hcovers.1, hcovers.2⟩
    · rintro ⟨s, hs, ha, ht, hsource, hservice⟩
      obtain ⟨⟨n, hn⟩, _⟩ := accepting_ssh hs ha
      refine ⟨⟨ufwCovers (ufwCriteria s), .accept⟩, ?_, ?_, rfl⟩
      · rw [hs, Option.bind_some, ufwFilter, readUfwAction_eq_accept.mpr ha]
        exact if_pos ⟨.inr (port_ne_any hn), ht⟩
      · change ufwCovers (ufwCriteria s) p = true
        rw [ufwCovers_ssh hs ha ht, hsource, hservice]
        rfl

/-- Without the catch-all a default of accepting stands, and some packet meets no rule. -/
theorem ufw_default_stands (hl : ∀ l, effectiveRule config loopbackRule = some l → AdmitsLoopback l)
    (hd : effectiveRule config dropDefaultRule = none) :
    ∃ p : Packet, p.state = .new ∧ (∃ n, p.transport = .other n) ∧ p.isLocal = false ∧
      (Ufw.load ⟨.accept, []⟩ false (buildRules config).1).verdict p = .accept := by
  obtain ⟨a, hout, hloop⟩ := exists_outside ((effectiveRule config sshRule).bind fun s => ufwSource s.source)
  have hlocal : (arriving (.other 47) a).isLocal = false := by
    rw [isLocal_arriving]
    exact decide_eq_false hloop
  refine ⟨arriving (.other 47) a, rfl, ⟨47, rfl⟩, hlocal, ?_⟩
  rw [Ufw.load_eq .accept (fun h => absurd h Bool.false_ne_true), Ufw.verdict, firstMatch_builtin rfl, hd]
  right
  dsimp only [Option.isSome_none]
  rw [if_neg Bool.false_ne_true, ufw_rules_elsewhere hl hlocal]
  apply firstMatch_of_not_covers
  intro f hf
  obtain ⟨s, hs, hsf⟩ := Option.bind_eq_some_iff.mp (Option.mem_toList.mp hf)
  obtain ⟨⟨hcriteria, _⟩, _, hcovered⟩ := ufwFilter_eq_some hsf
  rw [hcovered, ufwCovers, ufwCriteria_source]
  rw [hs, Option.bind_some] at hout
  by_cases hport : s.port = "any".toList
  · -- Only the source is left to ask for, and the address lies outside it.
    have hsource : (s.source == "any".toList) = false := beq_false_of_ne (hcriteria.resolve_right (not_not.mpr hport))
    have hsrc : (arriving (.other 47) a).source = a := rfl
    rw [hsource, Bool.false_or, hsrc, hout]
    rfl
  · have hany : ((ufwCriteria s).port == "any".toList) = false := by
      rw [ufwCriteria, if_neg hport]
      exact beq_false_of_ne (ufwPortSyntax_ne_any hport)
    have hrange : rangeCovers (ufwRange (ufwCriteria s).port) (arriving (.other 47) a).transport = false := by
      unfold rangeCovers
      split
      · next h => cases h
      · rfl
    rw [hany, hrange, Bool.or_false, Bool.and_false, Bool.false_and]

theorem ufw_faithful_of_agrees (h : UfwAgrees (buildRules config).1) : UfwFaithful config := by
  have hloopback : ∃ l, effectiveRule config loopbackRule = some l ∧ AdmitsLoopback l := by
    refine listVerdict_looped.mp fun a => (h .drop false (fun hf => absurd hf Bool.false_ne_true) (looped a) rfl).mp ?_
    rw [Ufw.load_eq .drop (fun hf => absurd hf Bool.false_ne_true), Ufw.verdict, firstMatch_builtin rfl]
    exact .inl rfl
  have hall : ∀ l, effectiveRule config loopbackRule = some l → AdmitsLoopback l := by
    intro l hl
    obtain ⟨l', hl', hadmits⟩ := hloopback
    rw [hl] at hl'
    exact Option.some.inj hl' ▸ hadmits
  have hdefault : (effectiveRule config dropDefaultRule).isSome = true := by
    cases hd : effectiveRule config dropDefaultRule with
    | some r => rfl
    | none =>
      obtain ⟨p, hnew, ⟨n, hother⟩, hlocal, hadmits⟩ := ufw_default_stands hall hd
      have hlist := (h .accept false (fun hf => absurd hf Bool.false_ne_true) p hnew).mp hadmits
      rcases (listVerdict_iff hnew hall).mp hlist with ⟨_, hc⟩ | hssh
      · rw [hlocal] at hc
        cases hc
      · exact absurd hssh (not_admittedBySsh_other hother)
  refine ⟨hloopback, hdefault, fun s hs ha => ?_⟩
  by_contra hnot
  have hnotTaken : ufwTakes (ufwCriteria s) ≠ true := fun ht => hnot (.inl ht)
  -- The rule is not in force, and some packet from elsewhere is admitted by it.
  obtain ⟨a, hin, hloop⟩ : ∃ a, sourceCovers s.source a = true ∧ ¬ loopbackNetwork.Contains a := by
    by_cases hsource : s.source = "any".toList
    · exact ⟨.v6 1, by rw [hsource]; rfl, by decide⟩
    · have hnetwork : ∃ n, sourceNetwork s.source = some n ∧ ¬ n.IsLoopback := by
        by_contra hno
        refine hnot (.inr ⟨hsource, fun n hn => ?_⟩)
        by_contra hl
        exact hno ⟨n, hn, hl⟩
      obtain ⟨n, hn, hl⟩ := hnetwork
      obtain ⟨a, hin, hout⟩ := Network.exists_not_loopback hl
      refine ⟨a, ?_, hout⟩
      rw [sourceCovers, hn, networkCovers, decide_eq_true hin, Bool.or_true]
  obtain ⟨t, ht⟩ := exists_service hs ha
  have hadmitted : listVerdict (buildRules config).1 (arriving t a) = .accept :=
    (listVerdict_iff rfl hall).mpr (.inr ⟨s, hs, ha, ht, hin⟩)
  have hdeny : false = true → (Verdict.drop : Verdict) = .drop := fun _ => rfl
  rcases (ufwVerdict_iff hall hdefault rfl hdeny).mp ((h .drop false hdeny _ rfl).mpr hadmitted) with hlocal | ⟨s', hs', _, htaken, _⟩
  · rw [isLocal_arriving, decide_eq_true_eq] at hlocal
    exact hloop hlocal
  · rw [hs] at hs'
    cases hs'
    exact hnotTaken htaken

theorem ufw_agrees_of_faithful (h : UfwFaithful config) : UfwAgrees (buildRules config).1 := by
  obtain ⟨⟨l, hl, hadmits⟩, hd, hssh⟩ := h
  have hall : ∀ l', effectiveRule config loopbackRule = some l' → AdmitsLoopback l' := by
    intro l' hl'
    rw [hl] at hl'
    exact Option.some.inj hl' ▸ hadmits
  intro policy defaultAlreadyDeny hdeny p hnew
  rw [ufwVerdict_iff hall hd hnew hdeny, listVerdict_iff hnew hall, hl, Option.isSome_some]
  by_cases hlocal : p.isLocal = true
  · simp [hlocal]
  · constructor
    · rintro (hc | ⟨s, hs, ha, _, hsource, hservice⟩)
      · exact absurd hc hlocal
      · exact .inr ⟨s, hs, ha, hservice, hsource⟩
    · rintro (⟨_, hc⟩ | ⟨s, hs, ha, hservice, hsource⟩)
      · exact absurd hc hlocal
      · refine .inr ⟨s, hs, ha, ?_, hsource, hservice⟩
        refine (hssh s hs ha).resolve_right fun hr => hlocal ?_
        rw [sourceCovers, beq_false_of_ne hr.1, Bool.false_or] at hsource
        cases hn : sourceNetwork s.source with
        | none =>
          rw [hn] at hsource
          cases hsource
        | some n =>
          rw [hn] at hsource
          have hin := (hr.2 n hn).contains (of_decide_eq_true hsource)
          rw [Packet.isLocal, p.notMartian hin]
          rfl

theorem ufw_agrees_iff : UfwAgrees (buildRules config).1 ↔ UfwFaithful config :=
  ⟨ufw_faithful_of_agrees, ufw_agrees_of_faithful⟩

end LinuxHardener.Firewall
