import LinuxHardener.Firewall.Admits

/-
  Whether the chain nft loads admits what the rule list admits.

  What is proved:
    1. `nftFilter_ssh` — what the SSH rule's statement covers, its source as nft reads it.
    2. `nftVerdict_iff` — what the loaded chain admits of the new packets.
    3. `nft_agrees_iff` — exactly when that is what the list admits.
-/
namespace LinuxHardener.Firewall

open LineText Plugins

variable {config : PluginConfig} {p : Packet}

/-! ## Statements -/

/-- The last word of a statement is its verdict. -/
theorem readNft_verdict {tokens : List Chars} {g : Filter Packet Verdict} (h : readNft tokens = some g) :
    ∃ v, tokens.getLast? = some v ∧ readVerdict v = some g.verdict := by
  fun_induction readNft tokens generalizing g with
  | case1 => cases h
  | case2 verdict =>
    obtain ⟨v, hv, rfl⟩ := Option.map_eq_some_iff.mp h
    exact ⟨verdict, rfl, hv⟩
  | case3 operand rest ih =>
    obtain ⟨f, hf, rfl⟩ := Option.map_eq_some_iff.mp h
    obtain ⟨v, hlast, hv⟩ := ih hf
    exact ⟨v, by rw [List.getLast?_cons_cons, List.getLast?_cons, hlast]; rfl, hv⟩
  | case4 => cases h
  | case5 => cases h
  | case6 key operand hkey value rest condition hcondition ih =>
    obtain ⟨f, hf, rfl⟩ := Option.map_eq_some_iff.mp h
    obtain ⟨v, hlast, hv⟩ := ih hf
    exact ⟨v, by rw [List.getLast?_cons_cons, List.getLast?_cons_cons, List.getLast?_cons, hlast]; rfl, hv⟩

/-- A rule outside the two special cases is rendered by its fields. -/
theorem nftStatement_of_fields {rule : Rule} (hloopback : contains rule.description "loopback" = false)
    (hestablished : contains rule.description "established and related" = false) :
    nftStatement rule =
      (if rule.source ≠ "any".toList then [saddrFamily rule.source, "saddr".toList, rule.source] else []) ++
        (if rule.protocol ≠ "all".toList ∧ rule.protocol ≠ "any".toList then
          rule.protocol :: (if rule.port ≠ "any".toList then ["dport".toList, rule.port] else [])
        else []) ++ [rule.action] := by
  rw [nftStatement, hloopback, hestablished, if_neg Bool.false_ne_true, if_neg Bool.false_ne_true]

theorem nftStatement_ssh {s : Rule} (h : effectiveRule config sshRule = some s) :
    nftStatement s =
      (if s.source ≠ "any".toList then [saddrFamily s.source, "saddr".toList, s.source] else []) ++
        (if s.protocol ≠ "all".toList ∧ s.protocol ≠ "any".toList then
          s.protocol :: (if s.port ≠ "any".toList then ["dport".toList, s.port] else [])
        else []) ++ [s.action] := by
  have hdescription := description_effectiveRule h
  exact nftStatement_of_fields (by rw [hdescription]; decide) (by rw [hdescription]; decide)

/-- A list is read through when every item is. -/
theorem mapM_eq_some {α β : Type} {f : α → Option β} {as : List α} {bs : List β} (h : as.mapM f = some bs) :
    bs = as.filterMap f ∧ ∀ a ∈ as, (f a).isSome = true := by
  induction as generalizing bs with
  | nil =>
    cases h
    exact ⟨rfl, by simp⟩
  | cons a as ih =>
    rw [List.mapM_cons] at h
    cases ha : f a with
    | none =>
      rw [ha] at h
      cases h
    | some b =>
      cases has : as.mapM f with
      | none =>
        rw [ha, has] at h
        cases h
      | some bs' =>
        rw [ha, has] at h
        cases h
        obtain ⟨rfl, hall⟩ := ih has
        refine ⟨by rw [List.filterMap_cons, ha], fun x hx => ?_⟩
        rcases List.mem_cons.mp hx with rfl | hx
        · rw [ha]; rfl
        · exact hall x hx

/-- What a rule is in the chain. -/
def nftFilter (rule : Rule) : Option (Filter Packet Verdict) := readNft (nftStatement rule)

theorem nftChain_eq_some {rules : List Rule} {chain : List (Filter Packet Verdict)} (h : nftChain rules = some chain) :
    (∃ text, renderRuleset rules = .ok text) ∧ chain = rules.filterMap nftFilter ∧ ∀ rule ∈ rules, (nftFilter rule).isSome := by
  unfold nftChain at h
  cases hr : renderRuleset rules with
  | error e =>
    rw [hr] at h
    cases h
  | ok text =>
    rw [hr] at h
    exact ⟨⟨text, rfl⟩, mapM_eq_some h⟩

theorem nftFilter_loopback {l : Rule} (h : effectiveRule config loopbackRule = some l) :
    ∃ g, nftFilter l = some g ∧ g.verdict = .accept ∧ ∀ p : Packet, g.covers p = p.isLocal := by
  have hstatement : nftStatement l = ["iif".toList, "lo".toList, "accept".toList] := by
    rw [nftStatement, description_effectiveRule h]
    exact if_pos (by decide)
  rw [nftFilter, hstatement]
  exact ⟨_, rfl, rfl, fun p => Bool.and_true _⟩

theorem nftFilter_established (hnew : p.state = .new) {e : Rule} (h : effectiveRule config establishedRule = some e)
    {g : Filter Packet Verdict} (hg : nftFilter e = some g) : g.covers p = false := by
  have hstatement : nftStatement e = ["ct".toList, "state".toList, "established,related".toList, "accept".toList] := by
    rw [nftStatement, description_effectiveRule h]
    exact (if_neg (by decide)).trans (if_pos (by decide))
  rw [nftFilter, hstatement] at hg
  cases hg
  change ([ConnState.established, ConnState.related].contains p.state && true) = false
  rw [hnew]
  rfl

theorem nftFilter_dropDefault {d : Rule} (h : effectiveRule config dropDefaultRule = some d)
    {g : Filter Packet Verdict} (hg : nftFilter d = some g) : g.verdict ≠ .accept := by
  have hlast : (nftStatement d).getLast? = some d.action := by
    rw [nftStatement_of_fields (by rw [description_effectiveRule h]; decide) (by rw [description_effectiveRule h]; decide)]
    exact List.getLast?_concat
  obtain ⟨v, hv, hread⟩ := readNft_verdict hg
  rw [hlast] at hv
  cases hv
  intro haccept
  rw [haccept] at hread
  exact readVerdict_ne_accept (dropDefault_blocks h) hread

theorem saddrFamily_cases (source : Chars) : saddrFamily source = "ip".toList ∨ saddrFamily source = "ip6".toList := by
  unfold saddrFamily
  split
  · split
    · exact .inr rfl
    · exact .inl rfl
  · exact .inl rfl

theorem nftRange_range {low high : Nat} {port : Chars} (h : IsRange low high port) (hle : low ≤ high) :
    nftRange port = some (low, high) := by
  obtain ⟨⟨hlow, hhigh⟩, ⟨rfl, rfl⟩ | rfl⟩ := h
  · rw [nftRange, splitOnce_decimal rfl]
    dsimp only
    rw [nftNumber_decimal]
    exact if_pos hlow
  · rw [nftRange, splitOnce_range rfl]
    dsimp only
    rw [nftNumber_decimal, nftNumber_decimal]
    exact if_pos ⟨hle, hhigh⟩

theorem readNft_condition {key operand value : Chars} {rest : List Chars} (hkey : key ≠ "iif".toList) :
    readNft (key :: operand :: value :: rest) =
      match nftCondition key operand value with
      | none => none
      | some condition => (readNft rest).map (withCondition condition) := by
  cases h : nftCondition key operand value <;> simp only [readNft, if_neg hkey, h]

/-- A range of ports as a condition of a statement. -/
theorem nftCondition_service {s : Rule} {low high : Nat} (hrange : IsRange low high s.port) (hle : low ≤ high)
    (hprotocol : s.protocol = "tcp".toList ∨ s.protocol = "udp".toList) :
    ∃ condition, nftCondition s.protocol "dport" s.port = some condition ∧
      ∀ p : Packet, condition p = serviceCovers s p.transport := by
  rcases hprotocol with hp | hp
  · refine ⟨fun p => isTcp p.transport && rangeCovers (some (low, high)) p.transport, ?_, fun p => ?_⟩
    · rw [hp]
      change (nftRange s.port).map _ = _
      rw [nftRange_range hrange hle]
      rfl
    · rw [serviceCovers_range hrange, hp]
      dsimp only
      cases p.transport <;> rfl
  · refine ⟨fun p => isUdp p.transport && rangeCovers (some (low, high)) p.transport, ?_, fun p => ?_⟩
    · rw [hp]
      change (nftRange s.port).map _ = _
      rw [nftRange_range hrange hle]
      rfl
    · rw [serviceCovers_range hrange, hp]
      dsimp only
      cases p.transport <;> rfl

/-- The words of a statement behind its source, for a rule about a range of ports. -/
theorem readNft_service {s : Rule} {low high : Nat} (hrange : IsRange low high s.port) (hle : low ≤ high)
    (hprotocol : s.protocol = "tcp".toList ∨ s.protocol = "udp".toList) {action : Chars} {v : Verdict}
    (hv : readVerdict action = some v) :
    ∃ g, readNft [s.protocol, "dport".toList, s.port, action] = some g ∧ g.verdict = v ∧
      ∀ p : Packet, g.covers p = serviceCovers s p.transport := by
  obtain ⟨condition, hcondition, hcovers⟩ := nftCondition_service hrange hle hprotocol
  have hkey : s.protocol ≠ "iif".toList := by
    rcases hprotocol with hp | hp <;> rw [hp] <;> decide
  refine ⟨withCondition condition ⟨fun _ => true, v⟩, ?_, rfl, fun p => ?_⟩
  · have hverdict : readNft [action] = some ⟨fun _ => true, v⟩ := by rw [readNft, hv, Option.map_some]
    rw [readNft_condition hkey, hcondition, hverdict]
    rfl
  · exact (Bool.and_true _).trans (hcovers p)

/-- A source as a condition of a statement, as nft reads it. -/
theorem readNft_saddr (source : Chars) (rest : List Chars) :
    readNft (saddrFamily source :: "saddr".toList :: source :: rest) =
      (nftSource (saddrFamily source == "ip6".toList) source).bind fun n =>
        (readNft rest).map (withCondition fun p => decide (n.Contains p.source)) := by
  have hcondition : saddrFamily source ≠ "iif".toList ∧ nftCondition (saddrFamily source) "saddr" source =
      (nftSource (saddrFamily source == "ip6".toList) source).map fun n p => decide (n.Contains p.source) := by
    rcases saddrFamily_cases source with h | h <;> rw [h] <;> exact ⟨by decide, rfl⟩
  rw [readNft_condition hcondition.1, hcondition.2]
  cases nftSource (saddrFamily source == "ip6".toList) source <;> rfl

/-- The statement of an accepting SSH rule: its service, from its source as nft reads that. -/
theorem nftFilter_ssh {s : Rule} (h : effectiveRule config sshRule = some s) (ha : s.action = "accept".toList)
    {g : Filter Packet Verdict} (hg : nftFilter s = some g) :
    g.verdict = .accept ∧
      ((s.source = "any".toList ∧ ∀ p : Packet, g.covers p = serviceCovers s p.transport) ∨
        (s.source ≠ "any".toList ∧ ∃ n, readNetwork nftNumber s.source = some n ∧
          ∀ p : Packet, g.covers p = (decide (n.Contains p.source) && serviceCovers s p.transport))) := by
  obtain ⟨⟨n, hn⟩, hprotocol⟩ := accepting_ssh h ha
  obtain ⟨f, hf, hverdict, hcovers⟩ := readNft_service hn.isRange (Nat.le_refl n) hprotocol (readVerdict_eq_accept.mpr rfl)
  have hnamed : s.protocol ≠ "all".toList ∧ s.protocol ≠ "any".toList := by
    rcases hprotocol with hp | hp <;> rw [hp] <;> decide
  rw [nftFilter, nftStatement_ssh h, if_pos hnamed, if_pos (port_ne_any hn), ha] at hg
  by_cases hsource : s.source = "any".toList
  · rw [if_neg (not_not.mpr hsource), List.nil_append, List.cons_append, List.cons_append, List.cons_append,
      List.nil_append, hf] at hg
    cases hg
    exact ⟨hverdict, .inl ⟨hsource, hcovers⟩⟩
  · rw [if_pos hsource, List.append_assoc] at hg
    change readNft (saddrFamily s.source :: "saddr".toList :: s.source :: [s.protocol, "dport".toList, s.port, "accept".toList]) = some g at hg
    rw [readNft_saddr, hf] at hg
    obtain ⟨n, hn, hg⟩ := Option.bind_eq_some_iff.mp hg
    obtain rfl := Option.some.inj hg
    have hnetwork : readNetwork nftNumber s.source = some n := (Option.filter_eq_some_iff.mp hn).1
    refine ⟨hverdict, .inr ⟨hsource, n, hnetwork, fun p => ?_⟩⟩
    rw [← hcovers p]
    rfl

/-- A rule whose source can be matched on, where the ruleset is rendered. -/
theorem renderRule_source {rule : Rule} {line : Chars} (h : renderRule rule = .ok line) {family : Chars} {rest : List Chars}
    (hstatement : nftStatement rule = family :: "saddr".toList :: rule.source :: rest) (hfamily : family ≠ "saddr".toList) :
    ∃ n, sourceNetwork rule.source = some n := by
  have hsaddr : saddrOf (buildNftRuleArgs rule) = some rule.source := by
    rw [buildNftRuleArgs, hstatement]
    change (if family = "saddr".toList then some _ else saddrOf ("saddr".toList :: rule.source :: rest)) = _
    rw [if_neg hfamily]
    rfl
  unfold renderRule at h
  dsimp only at h
  rw [hsaddr] at h
  dsimp only at h
  cases hp : parseSource rule.source with
  | error reason =>
    rw [hp] at h
    cases h
  | ok a => exact parseSource_isOk.mp ⟨a, hp⟩

theorem renderRuleset_ok {rules : List Rule} {text : Chars} (h : renderRuleset rules = .ok text) {rule : Rule}
    (hrule : rule ∈ rules) : ∃ line, renderRule rule = .ok line := by
  have hmap : ∀ (rules : List Rule) lines, rules.mapM renderRule = .ok lines → ∀ rule ∈ rules, ∃ line, renderRule rule = .ok line := by
    intro rules
    induction rules with
    | nil => simp
    | cons r rules ih =>
      intro lines hlines rule hrule
      rw [List.mapM_cons] at hlines
      cases hr : renderRule r with
      | error e =>
        rw [hr] at hlines
        cases hlines
      | ok line =>
        cases hrest : rules.mapM renderRule with
        | error e =>
          rw [hr, hrest] at hlines
          cases hlines
        | ok rest =>
          rcases List.mem_cons.mp hrule with rfl | hrule
          · exact ⟨line, hr⟩
          · exact ih rest hrest rule hrule
  unfold renderRuleset at h
  cases hm : rules.mapM renderRule with
  | error e =>
    rw [hm] at h
    cases h
  | ok statements => exact hmap rules statements hm rule hrule

/-- The SSH rule's source, where the ruleset is rendered and names one. -/
theorem sourceNetwork_ssh {s : Rule} (h : effectiveRule config sshRule = some s)
    {text : Chars} (hrender : renderRuleset (buildRules config).1 = .ok text) (hsource : s.source ≠ "any".toList) :
    ∃ n, sourceNetwork s.source = some n := by
  obtain ⟨line, hline⟩ := renderRuleset_ok hrender (mem_effectiveRules.mpr (.inr (.inr (.inl h))))
  have hstatement := nftStatement_ssh h
  rw [if_pos hsource] at hstatement
  refine renderRule_source hline hstatement ?_
  rcases saddrFamily_cases s.source with hf | hf <;> rw [hf] <;> decide

/-- Two readings of one source differ in the prefix length alone, and where nft's differs it is
shorter and at least 8. -/
theorem nft_network {source : Chars} {n m : Network} (hn : readNetwork nftNumber source = some n)
    (hm : sourceNetwork source = some m) : n = m ∨ n.address = m.address ∧ 8 ≤ n.bits ∧ n.bits < m.bits := by
  obtain ⟨address, bits⟩ := n
  obtain ⟨address', bits'⟩ := m
  rcases readNetwork_eq_some.mp hn with ⟨hs, ha, hb⟩ | ⟨text, bitsText, hs, ha, hb, _⟩ <;>
    rcases readNetwork_eq_some.mp hm with ⟨hs', ha', hb'⟩ | ⟨text', bitsText', hs', ha', hb', _⟩
  · rw [ha] at ha'
    cases ha'
    exact .inl (congrArg _ (hb.trans hb'.symm))
  · rw [hs] at hs'
    cases hs'
  · rw [hs] at hs'
    cases hs'
  · rw [hs] at hs'
    cases hs'
    rw [ha] at ha'
    cases ha'
    by_cases hbits : bits = bits'
    · exact .inl (congrArg _ hbits)
    · exact .inr ⟨rfl, nftNumber_octal hb hb' hbits⟩

/-- What the loaded chain admits of the new packets. -/
theorem nftVerdict_iff (hnew : p.state = .new) {chain : List (Filter Packet Verdict)}
    (h : nftChain (buildRules config).1 = some chain) :
    nftVerdict chain p = .accept ↔
      ((effectiveRule config loopbackRule).isSome = true ∧ p.isLocal = true) ∨
        ∃ s g, effectiveRule config sshRule = some s ∧ s.action = "accept".toList ∧ nftFilter s = some g ∧
          g.covers p = true := by
  obtain ⟨_, rfl, _⟩ := nftChain_eq_some h
  have hssh : firstMatch .drop ((effectiveRule config sshRule).bind nftFilter).toList p = .accept ↔
      ∃ s g, effectiveRule config sshRule = some s ∧ s.action = "accept".toList ∧ nftFilter s = some g ∧
        g.covers p = true := by
    rw [firstMatch_toList_eq_iff (by decide)]
    constructor
    · rintro ⟨g, hg, hcovers, hverdict⟩
      obtain ⟨s, hs, hsg⟩ := Option.bind_eq_some_iff.mp hg
      obtain ⟨v, hv, hread⟩ := readNft_verdict hsg
      rw [nftStatement_ssh hs, List.getLast?_concat] at hv
      rw [hverdict, ← Option.some.inj hv, readVerdict_eq_accept] at hread
      exact ⟨s, g, hs, hread, hsg, hcovers⟩
    · rintro ⟨s, g, hs, ha, hg, hcovers⟩
      exact ⟨g, by rw [hs]; exact hg, hcovers, (nftFilter_ssh hs ha hg).1⟩
  rw [nftVerdict, firstMatch_rules (fun r g hr hg => nftFilter_established hnew hr hg)
    (fun r g hr hg => nftFilter_dropDefault hr hg), ← hssh]
  cases hl : effectiveRule config loopbackRule with
  | none => simp
  | some l =>
    obtain ⟨g, hg, hverdict, hcovers⟩ := nftFilter_loopback hl
    rw [Option.bind_some, hg, Option.toList_some, List.singleton_append, firstMatch, hcovers, hverdict]
    cases p.isLocal <;> simp

/-- nftables agrees with a list: the chain it loads, if it loads one, admits the new packets the
list admits. -/
def NftAgrees (rules : List Rule) : Prop :=
  ∀ chain, nftChain rules = some chain → ∀ p : Packet, p.state = .new →
    (nftVerdict chain p = .accept ↔ listVerdict rules p = .accept)

/-- nft reads the SSH rule's source as the plugin does, or the difference is among loopback
addresses, which the loopback rule admits. -/
def NftReadsSource (config : PluginConfig) (source : Chars) : Prop :=
  readNetwork nftNumber source = sourceNetwork source ∨
    ((effectiveRule config loopbackRule).isSome = true ∧
      ∃ n, sourceNetwork source = some n ∧ loopbackNetwork.Contains n.address)

def NftFaithful (config : PluginConfig) : Prop :=
  (∀ l, effectiveRule config loopbackRule = some l → AdmitsLoopback l) ∧
    ∀ s, effectiveRule config sshRule = some s → s.action = "accept".toList → NftReadsSource config s.source

theorem nft_faithful_of_agrees {chain : List (Filter Packet Verdict)}
    (hchain : nftChain (buildRules config).1 = some chain) (h : NftAgrees (buildRules config).1) : NftFaithful config := by
  have hloopback : ∀ l, effectiveRule config loopbackRule = some l → AdmitsLoopback l := by
    intro l hl
    obtain ⟨l', hl', hadmits⟩ := listVerdict_looped.mp fun a =>
      (h chain hchain (looped a) rfl).mp ((nftVerdict_iff rfl hchain).mpr (.inl ⟨by rw [hl]; rfl, rfl⟩))
    rw [hl] at hl'
    exact Option.some.inj hl' ▸ hadmits
  refine ⟨hloopback, fun s hs ha => ?_⟩
  obtain ⟨⟨text, hrender⟩, _, hall⟩ := nftChain_eq_some hchain
  obtain ⟨g, hg⟩ := Option.isSome_iff_exists.mp (hall s (mem_effectiveRules.mpr (.inr (.inr (.inl hs)))))
  rcases (nftFilter_ssh hs ha hg).2 with ⟨hany, _⟩ | ⟨hsource, n, hn, hcovers⟩
  · rw [hany]
    exact .inl rfl
  · obtain ⟨m, hm⟩ := sourceNetwork_ssh hs hrender hsource
    rcases nft_network hn hm with rfl | ⟨haddress, height, hshorter⟩
    · exact .inl (hn.trans hm.symm)
    · right
      -- An address between the two prefix lengths tells the readings apart, unless it loops back.
      have hfits : m.bits ≤ IpAddr.familyBits n.address.isIpv6 := by
        rw [haddress]
        rcases readNetwork_eq_some.mp hm with ⟨_, _, hb⟩ | ⟨_, _, _, _, _, hb⟩
        · exact hb.le
        · exact hb
      obtain ⟨a, hin, hout⟩ := IpAddr.exists_inNetwork_not_inNetwork n.address hshorter hfits
      obtain ⟨t, ht⟩ := exists_service hs ha
      have hadmits : nftVerdict chain (arriving t a) = .accept := by
        refine (nftVerdict_iff rfl hchain).mpr (.inr ⟨s, g, hs, ha, hg, ?_⟩)
        rw [hcovers, Bool.and_eq_true]
        exact ⟨decide_eq_true hin, ht⟩
      rcases (listVerdict_iff rfl hloopback).mp ((h chain hchain _ rfl).mp hadmits) with ⟨hpresent, hlocal⟩ | hssh
      · refine ⟨hpresent, m, hm, ?_⟩
        rw [isLocal_arriving, decide_eq_true_eq] at hlocal
        rw [← haddress]
        exact IpAddr.InNetwork.trans hlocal (IpAddr.InNetwork.symm (IpAddr.InNetwork.mono height hin))
      · obtain ⟨s', hs', _, _, hcovered⟩ := hssh
        rw [hs] at hs'
        cases hs'
        rw [sourceCovers, hm, Bool.or_eq_true, beq_iff_eq] at hcovered
        have hcontains : m.Contains a := of_decide_eq_true (hcovered.resolve_left hsource)
        rw [Network.Contains, ← haddress] at hcontains
        exact absurd hcontains hout

theorem nft_agrees_of_faithful (h : NftFaithful config) : NftAgrees (buildRules config).1 := by
  intro chain hchain p hnew
  obtain ⟨⟨text, hrender⟩, _, hall⟩ := nftChain_eq_some hchain
  rw [nftVerdict_iff hnew hchain, listVerdict_iff hnew h.1]
  by_cases hlocal : (effectiveRule config loopbackRule).isSome = true ∧ p.isLocal = true
  · exact ⟨fun _ => .inl hlocal, fun _ => .inl hlocal⟩
  · refine or_congr Iff.rfl ?_
    constructor
    · rintro ⟨s, g, hs, ha, hg, hcovered⟩
      refine ⟨s, hs, ha, ?_⟩
      rcases (nftFilter_ssh hs ha hg).2 with ⟨hany, hcovers⟩ | ⟨hsource, n, hn, hcovers⟩
      · rw [hcovers] at hcovered
        exact ⟨hcovered, by rw [hany]; rfl⟩
      · rw [hcovers, Bool.and_eq_true, decide_eq_true_eq] at hcovered
        refine ⟨hcovered.2, ?_⟩
        rw [sourceCovers, Bool.or_eq_true]
        rcases h.2 s hs ha with hsame | ⟨hpresent, m, hm, hloopback⟩
        · rw [← hsame, hn]
          exact .inr (decide_eq_true hcovered.1)
        · rcases nft_network hn hm with rfl | ⟨haddress, height, _⟩
          · rw [hm]
            exact .inr (decide_eq_true hcovered.1)
          · have hin : loopbackNetwork.Contains p.source :=
              Network.IsLoopback.contains ⟨height, haddress ▸ hloopback⟩ hcovered.1
            exact absurd ⟨hpresent, by rw [Packet.isLocal, p.notMartian hin]; rfl⟩ hlocal
    · rintro ⟨s, hs, ha, hservice, hcovered⟩
      obtain ⟨g, hg⟩ := Option.isSome_iff_exists.mp (hall s (mem_effectiveRules.mpr (.inr (.inr (.inl hs)))))
      refine ⟨s, g, hs, ha, hg, ?_⟩
      rcases (nftFilter_ssh hs ha hg).2 with ⟨hany, hcovers⟩ | ⟨hsource, n, hn, hcovers⟩
      · rw [hcovers, hservice]
      · obtain ⟨m, hm⟩ := sourceNetwork_ssh hs hrender hsource
        rw [sourceCovers, hm, Bool.or_eq_true, beq_iff_eq] at hcovered
        have hcontains : m.Contains p.source := of_decide_eq_true (hcovered.resolve_left hsource)
        rw [hcovers, hservice, Bool.and_true, decide_eq_true_eq]
        -- nft's network is the wider one.
        rcases nft_network hn hm with rfl | ⟨haddress, _, hshorter⟩
        · exact hcontains
        · rw [Network.Contains, haddress]
          exact IpAddr.InNetwork.mono hshorter.le hcontains

theorem nft_agrees_iff : NftAgrees (buildRules config).1 ↔ nftChain (buildRules config).1 = none ∨ NftFaithful config := by
  constructor
  · intro h
    cases hchain : nftChain (buildRules config).1 with
    | none => exact .inl rfl
    | some chain => exact .inr (nft_faithful_of_agrees hchain h)
  · rintro (hnone | h)
    · intro chain hchain
      rw [hnone] at hchain
      cases hchain
    · exact nft_agrees_of_faithful h

end LinuxHardener.Firewall
