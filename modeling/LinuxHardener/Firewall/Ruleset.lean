import LinuxHardener.Firewall.Tightening
import LinuxHardener.Lib.BraceScript

/-
  The rendered ruleset as nft reads it.

  What is proved:
    1. `read_built` — whatever the configuration, a text that is rendered is the table with its three
       chains, and in the input chain one statement for each rule, in their order.
    2. `denotes_iff` — when a rule's statement says what the rule says.
    3. `rendersRules_iff` — when the whole ruleset does.
-/
namespace LinuxHardener.Firewall

open LineText Plugins BraceScript

/-! ## The script -/

/-- A character of a word. nft's own scanner cuts words at some of these; what reads a statement
reads them together. -/
def isNftWordChar (c : Char) : Bool := c.isAlphanum || ['_', '.', ':', '/', '-', ',', '+'].contains c

def readScript (text : Chars) : Option (List Item) := read isNftWordChar text

/-- A base chain. -/
def chainItem (hook policy : Chars) (statements : List (List Chars)) : Item :=
  .block ["chain", hook]
    (.statement ["type", "filter", "hook", hook, "priority", "0"] :: .statement ["policy", policy] :: statements.map .statement)

/-- The prelude, and the table with the statements of its input chain. -/
def rulesetItems (statements : List (List Chars)) : List Item :=
  [.statement ["table", "inet", nftablesTable], .statement ["delete", "table", "inet", nftablesTable],
    .block ["table", "inet", nftablesTable]
      [chainItem "input" "drop" statements, chainItem "forward" "drop" [], chainItem "output" "accept" []]]

/-- nft does with a packet at a statement what the rule says. -/
def Denotes (rule : Rule) (statement : List Chars) : Prop :=
  ∃ f, readNft statement = some f ∧ f.verdict = (ruleFilter rule).verdict ∧ ∀ p, f.covers p = ruleCovers rule p

/-- A ruleset that is rendered is one statement for each rule, in their order, and each says what
its rule says. -/
def RendersRules (config : PluginConfig) : Prop :=
  ∀ text, renderRuleset (buildRules config).1 = .ok text →
    ∃ statements, readScript text = some (rulesetItems statements) ∧ List.Forall₂ Denotes (buildRules config).1 statements

/-- An established rule whose statement says all of it. -/
structure AdmitsTracked (rule : Rule) : Prop where
  action : rule.action = "accept".toList
  protocol : rule.protocol = "all".toList ∨ rule.protocol = "any".toList
  port : rule.port = "any".toList
  source : rule.source = "any".toList

/-- A rule whose fields can be said: nft reads its prefix length as everyone does, and it names
ports exactly when it names a protocol. -/
structure SaysFields (rule : Rule) : Prop where
  source : PlainPrefix rule.source
  service : rule.protocol = "all".toList ∨ rule.protocol = "any".toList ↔ rule.port = "any".toList

/-- A rule whose statement says all of it. -/
def SaysRule (rule : Rule) : Prop :=
  if ruleId rule = "loopback".toList then AdmitsLoopback rule
  else if ruleId rule = "established".toList then AdmitsTracked rule
  else SaysFields rule

/-! ## Words -/

variable {config : PluginConfig} {rule : Rule}

theorem isWord_literal {word : Chars} (h : (!word.isEmpty && word.all isNftWordChar) = true) : IsWord isNftWordChar word := by
  rw [Bool.and_eq_true] at h
  exact ⟨by simpa using h.1, h.2⟩

theorem isWords_literal {words : List Chars} (h : (words.all fun word => !word.isEmpty && word.all isNftWordChar) = true) :
    ∀ word ∈ words, IsWord isNftWordChar word := fun word hw => isWord_literal (List.all_eq_true.mp h word hw)

theorem isNftWordChar_of_isDigit {c : Char} (h : c.isDigit = true) : isNftWordChar c = true := by
  simp [isNftWordChar, Char.isAlphanum, h]

theorem isNftWordChar_of_isAddressChar {c : Char} (h : IsAddressChar c) : isNftWordChar c = true := by
  obtain h | rfl | rfl := h
  · rw [isHexDigit] at h
    rw [isNftWordChar, Char.isAlphanum, Bool.or_eq_true, Bool.or_eq_true]
    refine .inl ?_
    simp only [Bool.or_eq_true, Bool.and_eq_true, decide_eq_true_eq] at h
    obtain (hd | ⟨hlow, hhigh⟩) | ⟨hlow, hhigh⟩ := h
    · exact .inr hd
    · have hz : c ≤ 'z' := le_trans hhigh (by decide)
      have hlower : c.isLower = true := by
        change (decide (c ≥ 'a') && decide (c ≤ 'z')) = true
        rw [Bool.and_eq_true]
        exact ⟨decide_eq_true hlow, decide_eq_true hz⟩
      exact .inl (Bool.or_eq_true_iff.mpr (.inr hlower))
    · have hz : c ≤ 'Z' := le_trans hhigh (by decide)
      have hupper : c.isUpper = true := decide_eq_true (And.intro hlow hz)
      exact .inl (Bool.or_eq_true_iff.mpr (.inl hupper))
  · decide
  · decide

theorem isWord_range {low high : Nat} {port : Chars} (h : IsRange low high port) : IsWord isNftWordChar port := by
  obtain ⟨c, cs, rfl, -⟩ := h.head
  refine ⟨List.cons_ne_nil _ _, List.all_eq_true.mpr fun d hd => ?_⟩
  obtain ⟨-, ⟨-, he⟩ | he⟩ := h <;> rw [he] at hd
  · exact isNftWordChar_of_isDigit (isDigit_decimal hd)
  · rw [List.mem_append, List.mem_cons] at hd
    obtain hd | rfl | hd := hd
    · exact isNftWordChar_of_isDigit (isDigit_decimal hd)
    · decide
    · exact isNftWordChar_of_isDigit (isDigit_decimal hd)

/-- Whatever can be read as a source is one word. -/
theorem isWord_source {source : Chars} {n : Network} (h : sourceNetwork source = some n) : IsWord isNftWordChar source := by
  constructor
  · rintro rfl
    have hnone : sourceNetwork [] = none := by decide
    rw [hnone] at h
    cases h
  · rw [List.all_eq_true]
    intro c hc
    obtain ⟨-, ha, -⟩ | ⟨address, bits, hs, ha, hb, -⟩ := readNetwork_eq_some.mp h
    · exact isNftWordChar_of_isAddressChar (isAddressChar_of_parseIpAddr ha c hc)
    · rw [(splitOnce_some hs).1, List.mem_append, List.mem_cons] at hc
      obtain hc | rfl | hc := hc
      · exact isNftWordChar_of_isAddressChar (isAddressChar_of_parseIpAddr ha c hc)
      · decide
      · obtain hd | rfl := isDigit_of_parseUnsigned hb c hc
        · exact isNftWordChar_of_isDigit hd
        · decide

/-! ## What a configuration makes of a rule -/

/-- A rule as a configuration can leave it. -/
structure BuiltRule (rule : Rule) : Prop where
  port : rule.port = "any".toList ∨ ∃ low high, low ≤ high ∧ IsRange low high rule.port
  protocol : (rule.protocol = "any".toList ∨ rule.protocol = "all".toList) ∨
    rule.protocol = "tcp".toList ∨ rule.protocol = "udp".toList
  action : ∃ v, readVerdict rule.action = some v
  special : rule.isSpecial = true ↔ ruleId rule = "loopback".toList ∨ ruleId rule = "established".toList

theorem readVerdict_of_cases {action : Chars} (h : action = "accept".toList ∨ isBlocking action = true) :
    ∃ v, readVerdict action = some v := by
  obtain rfl | h := h
  · exact ⟨.accept, rfl⟩
  · rw [isBlocking, Bool.or_eq_true, beq_iff_eq, beq_iff_eq] at h
    obtain rfl | rfl := h
    · exact ⟨.drop, rfl⟩
    · exact ⟨.reject, rfl⟩

theorem special_baseline : ∀ rule ∈ baselineRules,
    (rule.isSpecial = true ↔ ruleId rule = "loopback".toList ∨ ruleId rule = "established".toList) := by
  decide

theorem builtRule {r : Rule} (h : rule ∈ baselineRules) (hr : effectiveRule config rule = some r) : BuiltRule r := by
  rw [effectiveRule_eq_some hr]
  refine ⟨?_, protocol_cases config h _ rfl, readVerdict_of_cases (tightens config h).action, special_baseline rule h⟩
  obtain hany | ⟨low, high, hle, -, hrange⟩ := port_cases config h
  · exact .inl hany
  · exact .inr ⟨low, high, hle, hrange⟩

/-- The words of a rule's statement, where its source can be read. -/
theorem isWord_statement (h : BuiltRule rule)
    (hsource : rule.isSpecial = false → rule.source ≠ "any".toList → ∃ n, sourceNetwork rule.source = some n) :
    nftStatement rule ≠ [] ∧ ∀ word ∈ nftStatement rule, IsWord isNftWordChar word := by
  have haction : IsWord isNftWordChar rule.action := by
    obtain ⟨v, hv⟩ := h.action
    unfold readVerdict at hv
    split at hv
    · next ha => exact ha ▸ isWord_literal (by decide)
    · split at hv
      · next ha => exact ha ▸ isWord_literal (by decide)
      · split at hv
        · next ha => exact ha ▸ isWord_literal (by decide)
        · cases hv
  have hprotocol : IsWord isNftWordChar rule.protocol := by
    obtain (hp | hp) | hp | hp := h.protocol <;> rw [hp] <;> exact isWord_literal (by decide)
  have hport : IsWord isNftWordChar rule.port := by
    obtain hp | ⟨low, high, -, hrange⟩ := h.port
    · rw [hp]
      exact isWord_literal (by decide)
    · exact isWord_range hrange
  cases hs : rule.isSpecial with
  | true =>
    have hlines : nftStatement rule = ["iif".toList, "lo".toList, "accept".toList] ∨
        nftStatement rule = ["ct".toList, "state".toList, "established,related".toList, "accept".toList] := by
      unfold nftStatement
      split
      · exact .inl rfl
      · next hl =>
        rw [Rule.isSpecial, Bool.or_eq_true, or_iff_right hl] at hs
        exact .inr (if_pos hs)
    obtain he | he := hlines <;> rw [he] <;> exact ⟨List.cons_ne_nil _ _, isWords_literal (by decide)⟩
  | false =>
    have hfamily : IsWord isNftWordChar (saddrFamily rule.source) := by
      obtain hf | hf := saddrFamily_cases rule.source <;> rw [hf] <;> exact isWord_literal (by decide)
    rw [nftStatement_eq hs]
    refine ⟨List.append_ne_nil_of_right_ne_nil _ (List.append_ne_nil_of_right_ne_nil _ (List.cons_ne_nil _ _)), fun word hw => ?_⟩
    rw [List.mem_append, serviceWords, List.mem_append, List.mem_singleton] at hw
    obtain hw | hw | rfl := hw
    · split at hw
      · next hany =>
        obtain ⟨n, hn⟩ := hsource hs hany
        simp only [List.mem_cons, List.not_mem_nil, or_false] at hw
        obtain rfl | rfl | rfl := hw
        · exact hfamily
        · exact isWord_literal (by decide)
        · exact isWord_source hn
      · cases hw
    · split at hw
      · obtain rfl | hw := List.mem_cons.mp hw
        · exact hprotocol
        · split at hw
          · simp only [List.mem_cons, List.not_mem_nil, or_false] at hw
            obtain rfl | rfl := hw
            · exact isWord_literal (by decide)
            · exact hport
          · cases hw
      · cases hw
    · exact haction

/-! ## The text -/

def chainHead (hook policy : Chars) (rest : Chars) : Chars :=
  List.replicate 4 ' ' ++ ([' '].intercalate ["chain".toList, hook] ++ ' ' :: '\x7b' :: '\n' ::
    (List.replicate 8 ' ' ++ ([' '].intercalate ["type".toList, "filter".toList, "hook".toList, hook, "priority".toList, "0".toList] ++
      ';' :: (List.replicate 1 ' ' ++ ([' '].intercalate ["policy".toList, policy] ++ ';' :: '\n' :: rest)))))

/-- What stands before the rules' lines. -/
def rulesetHead (rest : Chars) : Chars :=
  [' '].intercalate ["table".toList, "inet".toList, nftablesTable] ++ '\n' ::
    ([' '].intercalate ["delete".toList, "table".toList, "inet".toList, nftablesTable] ++ '\n' ::
      ([' '].intercalate ["table".toList, "inet".toList, nftablesTable] ++ ' ' :: '\x7b' :: '\n' :: chainHead "input" "drop" rest))

/-- What stands behind them and their line's end. -/
def rulesetTail : Chars :=
  List.replicate 4 ' ' ++ '\x7d' :: '\n' :: chainHead "forward" "drop" (List.replicate 4 ' ' ++ '\x7d' :: '\n' ::
    chainHead "output" "accept" (List.replicate 4 ' ' ++ '\x7d' :: '\n' :: (List.replicate 0 ' ' ++ '\x7d' :: '\n' :: [])))

set_option maxRecDepth 4000 in
theorem renderRuleset_eq {rules : List Rule} {text : Chars} (h : renderRuleset rules = .ok text) :
    text = rulesetHead
      ((['\n'].intercalate ((rules.map nftStatement).map fun words => List.replicate 8 ' ' ++ [' '].intercalate words) ++ ['\n']) ++
        rulesetTail) := by
  have hlines : ∀ (rules : List Rule) lines, rules.mapM renderRule = .ok lines →
      lines = (rules.map nftStatement).map fun words => List.replicate 8 ' ' ++ [' '].intercalate words := by
    intro rules
    induction rules with
    | nil =>
      intro lines h
      cases h
      rfl
    | cons rule rules ih =>
      intro lines h
      rw [List.mapM_cons] at h
      cases hr : renderRule rule with
      | error e =>
        rw [hr] at h
        cases h
      | ok line =>
        cases hrest : rules.mapM renderRule with
        | error e =>
          rw [hr, hrest] at h
          cases h
        | ok rest =>
          rw [hr, hrest] at h
          cases h
          rw [List.map_cons, List.map_cons, ← ih rest hrest, renderRule_line hr]
          rfl
  unfold renderRuleset at h
  cases hm : rules.mapM renderRule with
  | error e =>
    rw [hm] at h
    cases h
  | ok lines =>
    rw [hm] at h
    obtain rfl := Except.ok.inj h
    rw [← hlines rules lines hm, List.append_assoc, List.append_assoc]
    -- Character by character, of the two literal texts at once.
    refine (congrArg₂ List.append String.toList_ofList (congrArg₂ List.append rfl String.toList_ofList)).trans ?_
    rfl

theorem run_chainHead {hook policy : Chars} (hhook : IsWord isNftWordChar hook) (hpolicy : IsWord isNftWordChar policy)
    (items : List Item) (outer : List (List Chars × List Item)) (rest : Chars) :
    run isNftWordChar (Reader.inBlock items outer) (chainHead hook policy rest) =
      run isNftWordChar (Reader.inBlock [.statement ["type", "filter", "hook", hook, "priority", "0"], .statement ["policy", policy]]
        ((["chain", hook], items) :: outer)) rest := by
  have hnewline : ∀ (items : List Item) outer, run isNftWordChar (Reader.inBlock items outer) ('\n' :: rest) =
      run isNftWordChar (Reader.inBlock items outer) rest := fun items outer => by
    rw [← List.singleton_append, run_append, run_newline (by decide), Option.bind_some]
  have hhead : ∀ w ∈ ["chain".toList, hook], IsWord isNftWordChar w :=
    List.forall_mem_cons.mpr ⟨isWord_literal (by decide), List.forall_mem_singleton.mpr hhook⟩
  have htype : ∀ w ∈ ["type".toList, "filter".toList, "hook".toList] ++ hook :: ["priority".toList, "0".toList], IsWord isNftWordChar w :=
    List.forall_mem_append.mpr ⟨isWords_literal (by decide), List.forall_mem_cons.mpr ⟨hhook, isWords_literal (by decide)⟩⟩
  replace htype : ∀ w ∈ ["type".toList, "filter".toList, "hook".toList, hook, "priority".toList, "0".toList], IsWord isNftWordChar w := htype
  have hlast : ∀ w ∈ ["policy".toList, policy], IsWord isNftWordChar w :=
    List.forall_mem_cons.mpr ⟨isWord_literal (by decide), List.forall_mem_singleton.mpr hpolicy⟩
  rw [chainHead, run_opening (by decide) (by decide) (List.cons_ne_nil _ _) hhead (by decide),
    run_closed (by decide) (List.cons_ne_nil _ _) htype (by decide) (.inr rfl),
    run_closed (by decide) (List.cons_ne_nil _ _) hlast (by decide) (.inr rfl), hnewline]
  rfl

theorem run_head (rest : Chars) : run isNftWordChar (Reader.inBlock [] []) (rulesetHead rest) =
    run isNftWordChar (Reader.inBlock [.statement ["type", "filter", "hook", "input", "priority", "0"], .statement ["policy", "drop"]]
      [(["chain", "input"], []), (["table", "inet", nftablesTable],
        [.statement ["table", "inet", nftablesTable], .statement ["delete", "table", "inet", nftablesTable]])]) rest := by
  have hunindented : ∀ text : Chars, text = List.replicate 0 ' ' ++ text := fun text => rfl
  rw [rulesetHead, hunindented ([' '].intercalate _ ++ _), run_closed (by decide) (List.cons_ne_nil _ _) (isWords_literal (by decide)) (by decide) (.inl rfl),
    hunindented ([' '].intercalate _ ++ _), run_closed (by decide) (List.cons_ne_nil _ _) (isWords_literal (by decide)) (by decide) (.inl rfl),
    hunindented ([' '].intercalate _ ++ _), run_opening (by decide) (by decide) (List.cons_ne_nil _ _) (isWords_literal (by decide)) (by decide),
    run_chainHead (isWord_literal (by decide)) (isWord_literal (by decide))]
  rfl

theorem run_tail (items before : List Item) : run isNftWordChar
      (Reader.inBlock items [(["chain", "input"], []), (["table", "inet", nftablesTable], before)]) rulesetTail =
    some (Reader.inBlock (before ++ [.block ["table", "inet", nftablesTable]
      [.block ["chain", "input"] items, chainItem "forward" "drop" [], chainItem "output" "accept" []]]) []) := by
  rw [rulesetTail, run_closing (by decide) (by decide) (by decide), run_chainHead (isWord_literal (by decide)) (isWord_literal (by decide)),
    run_closing (by decide) (by decide) (by decide), run_chainHead (isWord_literal (by decide)) (isWord_literal (by decide)),
    run_closing (by decide) (by decide) (by decide), run_closing (by decide) (by decide) (by decide)]
  rfl

/-- A rendered ruleset is one statement for each rule, in their order, whatever the fields hold. -/
theorem read_renderRuleset {rules : List Rule} {text : Chars} (h : renderRuleset rules = .ok text)
    (hwords : ∀ rule ∈ rules, nftStatement rule ≠ [] ∧ ∀ word ∈ nftStatement rule, IsWord isNftWordChar word) :
    readScript text = some (rulesetItems (rules.map nftStatement)) := by
  have hstatements : ∀ words ∈ rules.map nftStatement, words ≠ [] ∧ ∀ word ∈ words, IsWord isNftWordChar word := by
    intro words hw
    obtain ⟨rule, hrule, rfl⟩ := List.mem_map.mp hw
    exact hwords rule hrule
  refine read_of_run ?_
  rw [renderRuleset_eq h, run_head, run_append, run_statements (by decide) (by decide) hstatements,
    Option.bind_some, run_tail]
  rfl

/-- A ruleset names its statements. -/
theorem rulesetItems_injective {a b : List (List Chars)} (h : rulesetItems a = rulesetItems b) : a = b := by
  have hmap : a.map Item.statement = b.map Item.statement := by
    simp only [rulesetItems, chainItem, List.cons.injEq, Item.block.injEq, true_and, and_true] at h
    exact h
  exact List.map_injective_iff.mpr (fun _ _ => Item.statement.inj) hmap

/-! ## What a statement says -/

variable {p : Packet}

theorem ruleCovers_fields (h : ¬ (ruleId rule = "loopback".toList ∨ ruleId rule = "established".toList)) :
    ruleCovers rule p = (serviceCovers rule p.transport && sourceCovers rule.source p.source) := by
  rw [not_or] at h
  rw [ruleCovers, beq_false_of_ne h.1, bne, beq_false_of_ne h.2, serviceCovers]
  simp

/-- Of a rule without a service in its statement, that is what the statement says. -/
theorem readNft_serviceWords (h : BuiltRule rule)
    (hservice : rule.protocol = "all".toList ∨ rule.protocol = "any".toList ↔ rule.port = "any".toList) :
    ∃ g, readNft (serviceWords rule) = some g ∧ g.verdict = (ruleFilter rule).verdict ∧
      ∀ p : Packet, g.covers p = serviceCovers rule p.transport := by
  obtain ⟨v, hv⟩ := h.action
  have hverdict : (ruleFilter rule).verdict = v := by
    change (readVerdict rule.action).getD .drop = v
    rw [hv]
    rfl
  rw [hverdict, serviceWords]
  by_cases hany : rule.protocol = "all".toList ∨ rule.protocol = "any".toList
  · rw [if_neg (by rwa [← not_or, not_not]), List.nil_append, readNft, hv]
    exact ⟨_, rfl, rfl, fun p => (serviceCovers_any hany (hservice.mp hany) p.transport).symm⟩
  · have hport : rule.port ≠ "any".toList := fun hp => hany (hservice.mpr hp)
    obtain ⟨low, high, hle, hrange⟩ := h.port.resolve_left hport
    have hprotocol := h.protocol.resolve_left fun hp => hany hp.symm
    rw [if_pos (not_or.mp hany), if_pos hport]
    exact readNft_service hrange hle hprotocol hv

/-- A service that can be said is asked for by some packet. -/
theorem exists_serviceCovers (h : BuiltRule rule)
    (hservice : rule.protocol = "all".toList ∨ rule.protocol = "any".toList ↔ rule.port = "any".toList) :
    ∃ t, serviceCovers rule t = true := by
  by_cases hany : rule.protocol = "all".toList ∨ rule.protocol = "any".toList
  · exact ⟨.other 47, serviceCovers_any hany (hservice.mp hany) _⟩
  · have hport : rule.port ≠ "any".toList := fun hp => hany (hservice.mpr hp)
    obtain ⟨low, high, hle, hrange⟩ := h.port.resolve_left hport
    have hlow : low < 65536 := hrange.1.1
    have hcovers : rangeCovers (some (low, high)) (.tcp ⟨low, hlow⟩) = true ∧ rangeCovers (some (low, high)) (.udp ⟨low, hlow⟩) = true := by
      simp [rangeCovers, Transport.dport, hle]
    obtain hp | hp := h.protocol.resolve_left fun hp => hany hp.symm
    · exact ⟨.tcp ⟨low, hlow⟩, by rw [serviceCovers_range hrange, hp, hcovers.1]; rfl⟩
    · exact ⟨.udp ⟨low, hlow⟩, by rw [serviceCovers_range hrange, hp, hcovers.2]; rfl⟩

/-- The addresses a statement takes, as nft reads the source. -/
def statementSource (source : Chars) (a : IpAddr) : Bool :=
  source == "any".toList || networkCovers (nftSource (saddrFamily source == "ip6".toList) source) a

/-- A statement of fields is its service, from the source nft reads. -/
theorem readNft_fields (hs : rule.isSpecial = false) {f : Filter Packet Verdict} (h : readNft (nftStatement rule) = some f) :
    ∃ g, readNft (serviceWords rule) = some g ∧ f.verdict = g.verdict ∧
      (∀ p : Packet, f.covers p = (statementSource rule.source p.source && g.covers p)) ∧
      ∃ a, statementSource rule.source a = true := by
  rw [nftStatement_eq hs] at h
  by_cases hany : rule.source = "any".toList
  · rw [if_neg (not_not.mpr hany), List.nil_append] at h
    have hcovers : ∀ a, statementSource rule.source a = true := fun a => by rw [hany]; rfl
    exact ⟨f, h, rfl, fun p => by rw [hcovers, Bool.true_and], .v6 1, hcovers _⟩
  · rw [if_pos hany] at h
    change readNft (saddrFamily rule.source :: "saddr".toList :: rule.source :: serviceWords rule) = some f at h
    rw [readNft_saddr] at h
    obtain ⟨n, hn, h⟩ := Option.bind_eq_some_iff.mp h
    obtain ⟨g, hg, rfl⟩ := Option.map_eq_some_iff.mp h
    have hcovers : ∀ a, statementSource rule.source a = decide (n.Contains a) := fun a => by
      rw [statementSource, hn, beq_false_of_ne hany, Bool.false_or]
      rfl
    refine ⟨g, hg, rfl, fun p => by rw [hcovers]; rfl, n.address, ?_⟩
    rw [hcovers]
    exact decide_eq_true (IpAddr.InNetwork.refl _ _)

/-- A rule names ports exactly when it names a protocol, where its statement says what it does. -/
theorem service_of_denotes (h : BuiltRule rule) (hs : rule.isSpecial = false) (hd : Denotes rule (nftStatement rule)) :
    rule.protocol = "all".toList ∨ rule.protocol = "any".toList ↔ rule.port = "any".toList := by
  have hid := fun hspecial => Bool.false_ne_true (hs.symm.trans (h.special.mpr hspecial))
  obtain ⟨f, hf, -, hcovers⟩ := hd
  obtain ⟨g, hg, -, hsplit, a, ha⟩ := readNft_fields hs hf
  obtain ⟨v, hv⟩ := h.action
  rw [serviceWords] at hg
  constructor
  · intro hany
    rw [if_neg (by rwa [← not_or, not_not]), List.nil_append, readNft, hv] at hg
    obtain rfl := Option.some.inj hg
    -- A packet without ports: the statement takes it, the rule only if it names none.
    have hcovered := hcovers (looped a)
    rw [hsplit, ruleCovers_fields hid] at hcovered
    change (statementSource rule.source a && true) = (serviceCovers rule (.other 47) && sourceCovers rule.source a) at hcovered
    rw [ha, Bool.and_true, eq_comm, Bool.and_eq_true] at hcovered
    exact (serviceCovers_other hcovered.1).2
  · intro hport
    by_contra hany
    rw [if_pos (not_or.mp hany), if_neg (not_not.mpr hport)] at hg
    have hiif : rule.protocol ≠ "iif".toList := by
      obtain (hp | hp) | hp | hp := h.protocol <;> rw [hp] <;> decide
    change readNft [rule.protocol, rule.action] = some g at hg
    rw [readNft, if_neg hiif] at hg
    cases hg

/-- When a statement of fields says what its rule says. -/
theorem denotes_fields (h : BuiltRule rule) (hs : rule.isSpecial = false)
    (hsource : rule.source ≠ "any".toList → ∃ n, sourceNetwork rule.source = some n) :
    Denotes rule (nftStatement rule) ↔ SaysFields rule := by
  have hid := fun hspecial => Bool.false_ne_true (hs.symm.trans (h.special.mpr hspecial))
  constructor
  · intro hd
    have hservice := service_of_denotes h hs hd
    refine ⟨?_, hservice⟩
    obtain ⟨f, hf, -, hcovers⟩ := hd
    obtain ⟨g, hg, -, hsplit, -⟩ := readNft_fields hs hf
    by_cases hany : rule.source = "any".toList
    · rw [hany]
      intro address bits hcut
      have hwhole : splitOnce '/' "any" = none := by decide
      rw [hwhole] at hcut
      cases hcut
    · obtain ⟨n, hn⟩ := hsource hany
      obtain ⟨t, ht⟩ := exists_serviceCovers h hservice
      obtain ⟨g', hg', -, hg'covers⟩ := readNft_serviceWords h hservice
      obtain rfl := Option.some.inj (hg.symm.trans hg')
      refine plain_of_nftSource hn fun a => ?_
      have hcovered := hcovers (arriving t a)
      rw [hsplit, ruleCovers_fields hid, hg'covers] at hcovered
      change (statementSource rule.source a && serviceCovers rule t) = (serviceCovers rule t && sourceCovers rule.source a) at hcovered
      rw [ht, Bool.and_true, Bool.true_and, statementSource, sourceCovers, hn, beq_false_of_ne hany, Bool.false_or, Bool.false_or] at hcovered
      exact hcovered
  · intro hsays
    obtain ⟨g, hg, hverdict, hcovers⟩ := readNft_serviceWords h hsays.service
    by_cases hany : rule.source = "any".toList
    · refine ⟨g, ?_, hverdict, fun p => ?_⟩
      · rw [nftStatement_eq hs, if_neg (not_not.mpr hany), List.nil_append, hg]
      · rw [hcovers, ruleCovers_fields hid, sourceCovers, hany]
        exact (Bool.and_true _).symm
    · obtain ⟨n, hn⟩ := hsource hany
      refine ⟨withCondition (fun p => decide (n.Contains p.source)) g, ?_, hverdict, fun p => ?_⟩
      · rw [nftStatement_eq hs, if_pos hany]
        change readNft (saddrFamily rule.source :: "saddr".toList :: rule.source :: serviceWords rule) = _
        rw [readNft_saddr, nftSource_of_plain hn hsays.source, hg]
        rfl
      · rw [ruleCovers_fields hid, sourceCovers, hn, beq_false_of_ne hany, Bool.false_or, ← hcovers, Bool.and_comm]
        rfl

theorem denotes_loopback {l : Rule} (h : effectiveRule config loopbackRule = some l) :
    Denotes l (nftStatement l) ↔ AdmitsLoopback l := by
  obtain ⟨g, hg, hverdict, hcovers⟩ := nftFilter_loopback h
  constructor
  · rintro ⟨f, hf, hfverdict, hfcovers⟩
    obtain rfl := Option.some.inj (hg.symm.trans hf)
    have haction : l.action = "accept".toList := ruleFilter_verdict.mp (hfverdict.symm.trans hverdict)
    exact admitsLoopback_of_covers h haction fun a => (hfcovers (looped a)).symm.trans (hcovers (looped a))
  · intro hl
    refine ⟨g, hg, hverdict.trans (ruleFilter_verdict.mpr hl.action).symm, fun p => ?_⟩
    rw [hcovers, ruleCovers_admitsLoopback h hl]

/-- A packet of an established connection, of a protocol without ports. -/
def followed (a : IpAddr) : Packet := { looped a with state := .established }

theorem ruleCovers_established {e : Rule} (h : effectiveRule config establishedRule = some e) :
    ruleCovers e p = (serviceCovers e p.transport && sourceCovers e.source p.source && p.isTracked) := by
  rw [ruleCovers, ruleId_established h, serviceCovers]
  have hne : ("established".toList == "loopback".toList) = false := by decide
  rw [hne, Bool.false_and, Bool.false_and, Bool.or_false]
  rfl

theorem denotes_established {e : Rule} (h : effectiveRule config establishedRule = some e) :
    Denotes e (nftStatement e) ↔ AdmitsTracked e := by
  have hread : ∃ g, readNft (nftStatement e) = some g ∧ g.verdict = .accept ∧ ∀ p : Packet, g.covers p = p.isTracked := by
    have hstatement : nftStatement e = ["ct".toList, "state".toList, "established,related".toList, "accept".toList] := by
      rw [nftStatement, description_effectiveRule h]
      exact (if_neg (by decide)).trans (if_pos (by decide))
    rw [hstatement]
    refine ⟨_, rfl, rfl, fun p => ?_⟩
    change ([ConnState.established, ConnState.related].contains p.state && true) = p.isTracked
    rw [Packet.isTracked]
    cases p.state <;> rfl
  obtain ⟨g, hg, hverdict, hcovers⟩ := hread
  constructor
  · rintro ⟨f, hf, hfverdict, hfcovers⟩
    obtain rfl := Option.some.inj (hg.symm.trans hf)
    have hparts : ∀ a, serviceCovers e (.other 47) = true ∧ sourceCovers e.source a = true := by
      intro a
      have hcovered := (hfcovers (followed a)).symm.trans (hcovers (followed a))
      rw [ruleCovers_established h] at hcovered
      change (serviceCovers e (.other 47) && sourceCovers e.source a && true) = true at hcovered
      rwa [Bool.and_true, Bool.and_eq_true] at hcovered
    obtain ⟨hprotocol, hport⟩ := serviceCovers_other (hparts (.v6 1)).1
    refine ⟨ruleFilter_verdict.mp (hfverdict.symm.trans hverdict), hprotocol, hport, ?_⟩
    obtain ⟨a, hout, -⟩ := exists_outside (sourceNetwork e.source)
    have hcovered := (hparts a).2
    rwa [sourceCovers, hout, Bool.or_false, beq_iff_eq] at hcovered
  · intro he
    refine ⟨g, hg, hverdict.trans (ruleFilter_verdict.mpr he.action).symm, fun p => ?_⟩
    rw [hcovers, ruleCovers_established h, serviceCovers_any he.protocol he.port, sourceCovers, he.source]
    rfl

/-! ## The ruleset -/

theorem mem_built {r : Rule} (hr : r ∈ (buildRules config).1) :
    ∃ rule ∈ baselineRules, effectiveRule config rule = some r := by
  rw [effectiveRules_eq] at hr
  exact List.mem_filterMap.mp hr

/-- The sources that reach a rendered ruleset can be read. -/
theorem source_rendered {text : Chars} (htext : renderRuleset (buildRules config).1 = .ok text) {r : Rule}
    (hr : r ∈ (buildRules config).1) (hs : r.isSpecial = false) (hany : r.source ≠ "any".toList) :
    ∃ n, sourceNetwork r.source = some n := by
  obtain ⟨rule, hrule, he⟩ := mem_built hr
  have hplain : PlainFields r := effectiveRule_eq_some he ▸ plainFields hrule
  have hsaddr : saddrOf (nftStatement r) = some r.source := by rw [saddrOf_statement hs hplain, if_neg hany]
  exact Option.isSome_iff_exists.mp (renderRule_isOk.mp (renderRuleset_ok htext hr) _ hsaddr)

/-- Exactly when a statement of a rendered ruleset says what its rule says. -/
theorem denotes_iff {text : Chars} (htext : renderRuleset (buildRules config).1 = .ok text) {r : Rule}
    (hr : r ∈ (buildRules config).1) : Denotes r (nftStatement r) ↔ SaysRule r := by
  obtain ⟨rule, hrule, he⟩ := mem_built hr
  have hbuilt := builtRule hrule he
  have hne : "established".toList ≠ "loopback".toList := by decide
  have hfields : ¬ (ruleId r = "loopback".toList ∨ ruleId r = "established".toList) → (Denotes r (nftStatement r) ↔ SaysRule r) := by
    intro hid
    have hs : r.isSpecial = false := Bool.eq_false_iff.mpr fun hs => hid (hbuilt.special.mp hs)
    rw [SaysRule, if_neg (not_or.mp hid).1, if_neg (not_or.mp hid).2]
    exact denotes_fields hbuilt hs (source_rendered htext hr hs)
  obtain hl | hes | hss | hd := mem_effectiveRules.mp hr
  · rw [SaysRule, if_pos (ruleId_loopback hl)]
    exact denotes_loopback hl
  · rw [SaysRule, if_neg (by rw [ruleId_established hes]; exact hne), if_pos (ruleId_established hes)]
    exact denotes_established hes
  · refine hfields ?_
    rw [ruleId_effectiveRule hss]
    decide
  · refine hfields ?_
    rw [ruleId_effectiveRule hd]
    decide

/-- No field of a configuration's rules adds, removes or merges a statement. -/
theorem read_built {text : Chars} (htext : renderRuleset (buildRules config).1 = .ok text) :
    readScript text = some (rulesetItems ((buildRules config).1.map nftStatement)) := by
  refine read_renderRuleset htext fun r hr => ?_
  obtain ⟨rule, hrule, he⟩ := mem_built hr
  exact isWord_statement (builtRule hrule he) (source_rendered htext hr)

/-- SSH turned into a block of the whole protocol. -/
def sshDropped : PluginConfig where
  directives key :=
    if key = "ssh.action".toList then some "drop" else if key = "ssh.port".toList then some "any" else none
  exceptions _ := none

end LinuxHardener.Firewall
