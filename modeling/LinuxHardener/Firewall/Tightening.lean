import LinuxHardener.Core.ConfigValidation
import LinuxHardener.Firewall.NftAgreement
import Mathlib.Order.Interval.Finset.Fin

/-
  What the directives can make of a rule: never a looser one, and one that says to nft what
  the validator and the breadth comparison read.

  The width of a field is how much it matches: of the ports, how many; of the protocols,
  how many; of the addresses, the length of the prefix.

  What is proved:
    1. `tightens` — an accepting rule comes to match no more in any field, a blocking one no
       less.
    2. `meant_port` — a rendered port is read by nft as everywhere else.
    3. `overridesMeant_iff` — so is every rendered source, exactly where no prefix length is
       spelled in a way nft reads otherwise.
-/
namespace LinuxHardener.Firewall

open LineText Plugins

/-! ## Widths -/

/-- How many ports a port field matches. -/
def portCount (port : Chars) : Nat := (Finset.univ.filter fun d : Fin 65536 => portCovers port (.tcp d) = true).card

/-- How many protocols a protocol field matches: of TCP, UDP and any other. -/
def protocolCount (protocol : Chars) : Nat := [Transport.tcp 0, .udp 0, .other 1].countP (protocolCovers protocol)

/-- A source's prefix length and the family it is of; `any` is of none, and leaves every bit free. -/
structure SourcePrefix where
  family : Option Bool
  bits : Nat
  deriving DecidableEq, Repr

def sourcePrefix (source : Chars) : Option SourcePrefix :=
  if source = "any".toList then some ⟨none, 0⟩
  else
    match splitOnce '/' source with
    | none => some ⟨some (source.contains ':'), IpAddr.familyBits (source.contains ':')⟩
    | some (_, bits) => (parseUnsigned u8Bound bits).map fun bits => ⟨some (source.contains ':'), bits⟩

/-- A prefix that leaves no more bits free. -/
def SourcePrefix.NoWider (p q : SourcePrefix) : Prop := q.bits = 0 ∨ q.family = p.family ∧ q.bits ≤ p.bits

/-- One value of a field matches no more than another. -/
def NoWider : Field → Chars → Chars → Prop
  | .port, narrow, broad => portCount narrow ≤ portCount broad
  | .protocol, narrow, broad => protocolCount narrow ≤ protocolCount broad
  | .source, narrow, broad => ∃ p q, sourcePrefix narrow = some p ∧ sourcePrefix broad = some q ∧ p.NoWider q

def Rule.field (rule : Rule) : Field → Chars
  | .port => rule.port
  | .source => rule.source
  | .protocol => rule.protocol

/-- A rule made of another without loosening it. -/
structure Tightens (baseline rule : Rule) : Prop where
  action : rule.action = "accept".toList ∨ isBlocking rule.action = true
  accepts : rule.action = "accept".toList → baseline.action = "accept".toList ∧
    ∀ field, NoWider field (rule.field field) (baseline.field field)
  blocks : isBlocking rule.action = true → ∀ field, NoWider field (baseline.field field) (rule.field field)

/-! ## Breadths are widths -/

variable {value : Chars} {breadth : FieldBreadth}

theorem portCount_any : portCount "any" = 65536 := by
  have hall : (Finset.univ.filter fun d : Fin 65536 => portCovers "any" (.tcp d) = true) = Finset.univ :=
    Finset.filter_true_of_mem fun _ _ => rfl
  rw [portCount, hall, Finset.card_univ, Fintype.card_fin]

theorem portCount_le (port : Chars) : portCount port ≤ 65536 := by
  have hle := Finset.card_filter_le (Finset.univ : Finset (Fin 65536)) fun d => portCovers port (.tcp d) = true
  rwa [Finset.card_univ, Fintype.card_fin] at hle

theorem parsePorts_lt {port : Chars} {low high : Nat} (h : parsePorts port = some (low, high)) :
    low < u16Bound ∧ high < u16Bound := by
  unfold parsePorts at h
  split at h
  · obtain ⟨l, hl, h⟩ := Option.bind_eq_some_iff.mp h
    obtain ⟨u, hu, h⟩ := Option.bind_eq_some_iff.mp h
    cases h
    exact ⟨parseUnsigned_lt hl, parseUnsigned_lt hu⟩
  · obtain ⟨n, hn, h⟩ := Option.map_eq_some_iff.mp h
    cases h
    exact ⟨parseUnsigned_lt hn, parseUnsigned_lt hn⟩

theorem portCount_of_range {port : Chars} {low high : Nat} (hany : port ≠ "any".toList) (h : parsePorts port = some (low, high))
    (hle : low ≤ high) : portCount port = high - low + 1 := by
  obtain ⟨hlow, hhigh⟩ := parsePorts_lt h
  have hrange : (Finset.univ.filter fun d : Fin 65536 => portCovers port (.tcp d) = true) =
      Finset.Icc ⟨low, hlow⟩ ⟨high, hhigh⟩ := by
    ext d
    rw [Finset.mem_filter, Finset.mem_Icc, portCovers, h, Bool.or_eq_true, beq_iff_eq, or_iff_right hany]
    simp [rangeCovers, Transport.dport, Fin.le_def]
  rw [portCount, hrange, Fin.card_Icc]
  change high + 1 - low = high - low + 1
  omega

/-- A breadth of a port field is the number of its ports. -/
theorem portCount_of_breadth (h : portBreadth value = some breadth) :
    breadth = .everything ∧ portCount value = 65536 ∨ ∃ n, breadth = .ports n ∧ portCount value = n := by
  unfold portBreadth at h
  split at h
  · next hany =>
    cases h
    exact .inl ⟨rfl, hany ▸ portCount_any⟩
  · next hany =>
    obtain ⟨⟨low, high⟩, hports, h⟩ := Option.bind_eq_some_iff.mp h
    dsimp only at h
    split at h
    · cases h
    · next hle =>
      cases h
      exact .inr ⟨_, rfl, portCount_of_range hany hports (Nat.le_of_not_lt hle)⟩

theorem protocolCount_of_breadth (h : protocolBreadth value = some breadth) :
    breadth = .everything ∧ protocolCount value = 3 ∨ breadth = .oneProtocol ∧ protocolCount value = 1 := by
  unfold protocolBreadth at h
  split at h
  · next hall =>
    cases h
    obtain rfl | rfl := hall <;> exact .inl ⟨rfl, by decide⟩
  · split at h
    · next hone =>
      cases h
      obtain rfl | rfl := hone <;> exact .inr ⟨rfl, by decide⟩
    · cases h

theorem sourcePrefix_of_breadth (h : sourceBreadth value = some breadth) :
    ∃ p, sourcePrefix value = some p ∧
      (breadth = .everything ∧ p.bits = 0 ∨ ∃ ipv6, p.family = some ipv6 ∧ breadth = .addresses ipv6 p.bits) := by
  -- what the length read means, from an address or from its family
  have hread : ∀ {address : Chars} {bits : Nat}, (if address = [] ∨ IpAddr.familyBits (value.contains ':') < bits then none
      else if bits = 0 then some FieldBreadth.everything else some (.addresses (value.contains ':') bits)) = some breadth →
      breadth = .everything ∧ bits = 0 ∨ ∃ ipv6, some (value.contains ':') = some ipv6 ∧ breadth = .addresses ipv6 bits := by
    intro address bits h
    split at h
    · cases h
    · split at h
      · next hzero =>
        cases h
        exact .inl ⟨rfl, hzero⟩
      · cases h
        exact .inr ⟨_, rfl, rfl⟩
  unfold sourceBreadth at h
  unfold sourcePrefix
  split at h
  · next hany =>
    cases h
    rw [if_pos hany]
    exact ⟨_, rfl, .inl ⟨rfl, rfl⟩⟩
  · next hany =>
    rw [if_neg hany]
    dsimp only at h
    cases hs : splitOnce '/' value with
    | none =>
      rw [hs] at h
      exact ⟨_, rfl, hread h⟩
    | some parts =>
      rw [hs] at h
      obtain ⟨⟨address, bits⟩, hbits, h⟩ := Option.bind_eq_some_iff.mp h
      obtain ⟨n, hn, heq⟩ := Option.map_eq_some_iff.mp hbits
      cases heq
      dsimp only
      rw [hn]
      exact ⟨_, rfl, hread h⟩

/-- The order of two breadths is the order of the widths. -/
theorem noWider_of_order {field : Field} {a b : Chars} {x y : FieldBreadth} {o : Ordering} (ha : fieldBreadth field a = some x)
    (hb : fieldBreadth field b = some y) (ho : breadthOrder x y = some o) :
    (o ≠ .gt → NoWider field b a) ∧ (o ≠ .lt → NoWider field a b) := by
  cases field with
  | port =>
    change (o ≠ .gt → portCount b ≤ portCount a) ∧ (o ≠ .lt → portCount a ≤ portCount b)
    have hale := portCount_le a
    have hble := portCount_le b
    obtain ⟨rfl, hca⟩ | ⟨n, rfl, hca⟩ := portCount_of_breadth ha <;> obtain ⟨rfl, hcb⟩ | ⟨m, rfl, hcb⟩ := portCount_of_breadth hb
    · exact ⟨fun _ => by omega, fun _ => by omega⟩
    · cases ho
      exact ⟨fun _ => by omega, fun h => absurd rfl h⟩
    · cases ho
      exact ⟨fun h => absurd rfl h, fun _ => by omega⟩
    · cases ho
      rw [hca, hcb]
      exact ⟨Nat.compare_ne_gt.mp, Nat.compare_ne_lt.mp⟩
  | protocol =>
    change (o ≠ .gt → protocolCount b ≤ protocolCount a) ∧ (o ≠ .lt → protocolCount a ≤ protocolCount b)
    obtain ⟨rfl, hca⟩ | ⟨rfl, hca⟩ := protocolCount_of_breadth ha <;> obtain ⟨rfl, hcb⟩ | ⟨rfl, hcb⟩ := protocolCount_of_breadth hb
    · exact ⟨fun _ => by omega, fun _ => by omega⟩
    · cases ho
      exact ⟨fun _ => by omega, fun h => absurd rfl h⟩
    · cases ho
      exact ⟨fun h => absurd rfl h, fun _ => by omega⟩
    · exact ⟨fun _ => by omega, fun _ => by omega⟩
  | source =>
    obtain ⟨p, hp, hpa⟩ := sourcePrefix_of_breadth ha
    obtain ⟨q, hq, hqb⟩ := sourcePrefix_of_breadth hb
    suffices h : (o ≠ .gt → q.NoWider p) ∧ (o ≠ .lt → p.NoWider q) from
      ⟨fun ho => ⟨q, p, hq, hp, h.1 ho⟩, fun ho => ⟨p, q, hp, hq, h.2 ho⟩⟩
    obtain ⟨rfl, hpbits⟩ | ⟨f, hf, rfl⟩ := hpa <;> obtain ⟨rfl, hqbits⟩ | ⟨g, hg, rfl⟩ := hqb
    · exact ⟨fun _ => .inl hpbits, fun _ => .inl hqbits⟩
    · cases ho
      exact ⟨fun _ => .inl hpbits, fun h => absurd rfl h⟩
    · cases ho
      exact ⟨fun h => absurd rfl h, fun _ => .inl hqbits⟩
    · change (if f = g then some (compare p.bits q.bits) else none) = some o at ho
      split at ho
      · next hfg =>
        cases ho
        have hfamily : p.family = q.family := by rw [hf, hg, hfg]
        exact ⟨fun h => .inr ⟨hfamily, Nat.compare_ne_gt.mp h⟩, fun h => .inr ⟨hfamily.symm, Nat.compare_ne_lt.mp h⟩⟩
      · cases ho

/-! ## Spellings -/

theorem parsePorts_any : parsePorts "any" = none := by decide

theorem portCount_canonical (requested : Chars) : portCount (canonicalFieldValue .port requested) = portCount requested := by
  obtain ⟨-, heq⟩ | ⟨low, high, hread, hrange⟩ := canonical_cases requested
  · rw [heq]
  · have hany : requested ≠ "any".toList := by
      rintro rfl
      rw [parsePorts_any] at hread
      cases hread
    have hsame : ∀ t, portCovers (canonicalFieldValue .port requested) t = portCovers requested t := fun t => by
      rw [portCovers, portCovers, hread, parsePorts_range hrange, beq_false_of_ne hrange.ne_any, beq_false_of_ne hany]
    simp only [portCount, hsame]

/-! ## Overrides tighten -/

variable {config : PluginConfig} {id action current requested : Chars} {field : Field}

theorem noWider_refl {x : FieldBreadth} (h : fieldBreadth field current = some x) : NoWider field current current := by
  cases field with
  | port => exact Nat.le_refl _
  | protocol => exact Nat.le_refl _
  | source =>
    obtain ⟨p, hp, -⟩ := sourcePrefix_of_breadth h
    exact ⟨p, p, hp, hp, .inr ⟨rfl, Nat.le_refl _⟩⟩

/-- Spelling a value anew leaves its width. -/
theorem noWider_canonical : (NoWider field requested current → NoWider field (canonicalFieldValue field requested) current) ∧
    (NoWider field current requested → NoWider field current (canonicalFieldValue field requested)) := by
  cases field with
  | port =>
    change (portCount requested ≤ portCount current → portCount _ ≤ portCount current) ∧
      (portCount current ≤ portCount requested → portCount current ≤ portCount _)
    rw [portCount_canonical]
    exact ⟨id, id⟩
  | protocol => exact ⟨id, id⟩
  | source => exact ⟨id, id⟩

/-- An override that is allowed on an accepting rule is no wider, on a blocking one no narrower. -/
theorem noWider_of_allowed {x : FieldBreadth} (hx : fieldBreadth field current = some x)
    (h : fieldOverrideIsAllowed action field current requested = true) :
    (action = "accept".toList → NoWider field requested current) ∧
      (isBlocking action = true → NoWider field current requested) := by
  unfold fieldOverrideIsAllowed at h
  split at h
  · next he => exact he ▸ ⟨fun _ => noWider_refl hx, fun _ => noWider_refl hx⟩
  · split at h
    · next baselineBreadth requestedBreadth hb hr =>
      cases ho : breadthOrder baselineBreadth requestedBreadth with
      | none =>
        rw [ho] at h
        cases h
      | some o =>
        rw [ho] at h
        dsimp only at h
        obtain ⟨hnarrow, hbroad⟩ := noWider_of_order hb hr ho
        constructor
        · rintro rfl
          rw [show isBlocking "accept" = false by decide, if_neg Bool.false_ne_true, if_pos rfl] at h
          exact hnarrow (by simpa using h)
        · intro hblocking
          rw [if_pos hblocking] at h
          exact hbroad (by simpa using h)
    · cases h

theorem noWider_overrideField (config : PluginConfig) (id action : Chars) {x : FieldBreadth} (hx : fieldBreadth field current = some x) :
    (action = "accept".toList → NoWider field (overrideField config id action field current) current) ∧
      (isBlocking action = true → NoWider field current (overrideField config id action field current)) := by
  obtain he | ⟨requested, ha, he⟩ := overrideField_cases config id action field current <;> rw [he]
  · exact ⟨fun _ => noWider_refl hx, fun _ => noWider_refl hx⟩
  · obtain ⟨hnarrow, hbroad⟩ := noWider_of_allowed hx ha
    exact ⟨fun h => noWider_canonical.1 (hnarrow h), fun h => noWider_canonical.2 (hbroad h)⟩

theorem overrideAction_cases (config : PluginConfig) (id : Chars) (hcurrent : current = "accept".toList ∨ isBlocking current = true) :
    isBlocking (overrideAction config id current) = true ∨
      overrideAction config id current = "accept".toList ∧ current = "accept".toList := by
  have hkept : isBlocking current = true ∨ current = "accept".toList ∧ current = "accept".toList :=
    hcurrent.symm.imp_right fun h => ⟨h, h⟩
  unfold overrideAction
  cases config.directives (id ++ ".action".toList) with
  | none => exact hkept
  | some action =>
    dsimp only
    split
    · next ha =>
      unfold actionOverrideIsAllowed at ha
      split at ha
      · next hb => exact .inl hb
      · split at ha
        · next haccept =>
          refine .inr ⟨haccept, hcurrent.resolve_right fun hb => ?_⟩
          rw [hb] at ha
          cases ha
        · cases ha
    · exact hkept

theorem field_applyRuleDirectives (rule : Rule) (field : Field) :
    (applyRuleDirectives rule id config).field field =
      overrideField config id (overrideAction config id rule.action) field (rule.field field) := by
  cases field <;> rfl

/-- A rule of the baseline can be read. -/
theorem baseline_readable : ∀ rule ∈ baselineRules, (rule.action = "accept".toList ∨ isBlocking rule.action = true) ∧
    ∀ field, (fieldBreadth field (rule.field field)).isSome = true := by
  intro rule h
  simp only [baselineRules, List.mem_cons, List.not_mem_nil, or_false] at h
  obtain rfl | rfl | rfl | rfl := h <;> refine ⟨by decide, fun field => ?_⟩ <;> cases field <;> decide

/-- No directive loosens a rule. -/
theorem tightens (config : PluginConfig) {rule : Rule} (h : rule ∈ baselineRules) :
    Tightens rule (applyRuleDirectives rule (ruleId rule) config) := by
  obtain ⟨haction, hfields⟩ := baseline_readable rule h
  have hcases := overrideAction_cases config (ruleId rule) haction
  have hwidth : ∀ field, (overrideAction config (ruleId rule) rule.action = "accept".toList →
      NoWider field ((applyRuleDirectives rule (ruleId rule) config).field field) (rule.field field)) ∧
      (isBlocking (overrideAction config (ruleId rule) rule.action) = true →
        NoWider field (rule.field field) ((applyRuleDirectives rule (ruleId rule) config).field field)) := by
    intro field
    obtain ⟨x, hx⟩ := Option.isSome_iff_exists.mp (hfields field)
    rw [field_applyRuleDirectives]
    exact noWider_overrideField config (ruleId rule) _ hx
  constructor
  · exact hcases.symm.imp_left And.left
  · intro haccept
    refine ⟨hcases.elim (fun hb => ?_) And.right, fun field => (hwidth field).1 haccept⟩
    change overrideAction config (ruleId rule) rule.action = _ at haccept
    rw [haccept] at hb
    cases hb
  · exact fun hblocking field => (hwidth field).2 hblocking

/-! ## Overrides mean what they say -/

/-- A field as it was written: the directive's value where it stands, or the baseline's. -/
def written (config : PluginConfig) (rule : Rule) (field : Field) : Chars :=
  match config.directives (ruleId rule ++ '.' :: field.name) with
  | none => rule.field field
  | some requested =>
    if fieldOverrideIsAllowed (overrideAction config (ruleId rule) rule.action) field (rule.field field) requested then requested
    else rule.field field

/-- The port a statement matches on. -/
def dportOf (args : List Chars) : Option Chars :=
  match args with
  | [] => none
  | token :: rest => if token = "dport".toList then some (rest.headD []) else dportOf rest

/-- What nft reads in a rule's statement is what the validator and the breadth comparison read in
the strings it comes from. -/
structure Meant (config : PluginConfig) (baseline rule : Rule) : Prop where
  port : ∀ port, dportOf (nftStatement rule) = some port → ∃ range, nftRange port = some range ∧
    Core.validatedPorts (written config baseline .port) = some range ∧ parsePorts (written config baseline .port) = some range
  source : ∀ source, saddrOf (nftStatement rule) = some source → ∃ n, sourceNetwork (written config baseline .source) = some n ∧
    sourcePrefix (written config baseline .source) = some ⟨some n.address.isIpv6, n.bits⟩ ∧
    ∀ a, networkCovers (nftSource (saddrFamily source == "ip6".toList) source) a = decide (n.Contains a)

/-- Overrides never loosen, and what is rendered means what was validated. -/
structure OverridesMeant (config : PluginConfig) : Prop where
  tightens : ∀ rule ∈ baselineRules, Tightens rule (applyRuleDirectives rule (ruleId rule) config)
  meant : ∀ text, renderRuleset (buildRules config).1 = .ok text → ∀ rule ∈ baselineRules, ∀ r,
    effectiveRule config rule = some r → Meant config rule r

/-- A prefix length nft reads as everyone else does. -/
def PlainPrefix (source : Chars) : Prop :=
  ∀ address bits, splitOnce '/' source = some (address, bits) → nftNumber bits = parseUnsigned u8Bound bits

/-- The two rules whose statements say nothing of their fields. -/
def Rule.isSpecial (rule : Rule) : Bool :=
  contains rule.description "loopback" || contains rule.description "established and related"

/-- The source a rule of the baseline is rendered with, if it is and names one. -/
def namedSource (config : PluginConfig) (rule : Rule) : Option Chars :=
  if (config.hasValidException (ruleId rule)).isSome ∨ rule.isSpecial = true ∨ written config rule .source = "any".toList then none
  else some (written config rule .source)

theorem canonical_baseline : ∀ rule ∈ baselineRules, ∀ field, canonicalFieldValue field (rule.field field) = rule.field field := by
  intro rule h field
  simp only [baselineRules, List.mem_cons, List.not_mem_nil, or_false] at h
  obtain rfl | rfl | rfl | rfl := h <;> cases field <;> decide

/-- A rule's field is spelled anew from what was written. -/
theorem field_written {rule : Rule} (h : rule ∈ baselineRules) (field : Field) :
    (applyRuleDirectives rule (ruleId rule) config).field field = canonicalFieldValue field (written config rule field) := by
  rw [field_applyRuleDirectives, overrideField, written]
  cases config.directives (ruleId rule ++ '.' :: field.name) with
  | none => exact (canonical_baseline rule h field).symm
  | some requested =>
    dsimp only
    split
    · rfl
    · exact (canonical_baseline rule h field).symm

/-- What stands in a field can be read. -/
theorem written_readable (config : PluginConfig) {rule : Rule} (h : rule ∈ baselineRules) (field : Field) :
    (fieldBreadth field (written config rule field)).isSome = true := by
  have hbaseline := (baseline_readable rule h).2 field
  unfold written
  split
  · exact hbaseline
  · split
    · next requested ha =>
      unfold fieldOverrideIsAllowed at ha
      split at ha
      · next he => exact he ▸ hbaseline
      · split at ha
        · next hr => rw [hr]; rfl
        · cases ha
    · exact hbaseline

/-- The port of a rule: any, or a range from its low end to its high end. -/
theorem port_cases (config : PluginConfig) {rule : Rule} (h : rule ∈ baselineRules) :
    (applyRuleDirectives rule (ruleId rule) config).port = "any".toList ∨
      ∃ low high, low ≤ high ∧ parsePorts (written config rule .port) = some (low, high) ∧
        IsRange low high (applyRuleDirectives rule (ruleId rule) config).port := by
  have hfield : (applyRuleDirectives rule (ruleId rule) config).port = canonicalFieldValue .port (written config rule .port) :=
    field_written h .port
  obtain ⟨x, hx⟩ := Option.isSome_iff_exists.mp (written_readable config h .port)
  change portBreadth _ = _ at hx
  unfold portBreadth at hx
  rw [hfield]
  split at hx
  · next hany =>
    rw [hany]
    exact .inl (by decide)
  · obtain ⟨⟨low, high⟩, hports, hx⟩ := Option.bind_eq_some_iff.mp hx
    dsimp only at hx
    split at hx
    · cases hx
    · next hle =>
      obtain ⟨hnone, -⟩ | ⟨low', high', hports', hrange⟩ := canonical_cases (written config rule .port)
      · rw [hnone] at hports
        cases hports
      · rw [hports'] at hports
        cases hports
        exact .inr ⟨_, _, Nat.le_of_not_lt hle, hports', hrange⟩

theorem protocol_cases (config : PluginConfig) {rule : Rule} (h : rule ∈ baselineRules) :
    ∀ protocol, (applyRuleDirectives rule (ruleId rule) config).protocol = protocol →
      (protocol = "any".toList ∨ protocol = "all".toList) ∨ protocol = "tcp".toList ∨ protocol = "udp".toList := by
  rintro protocol rfl
  have hfield : (applyRuleDirectives rule (ruleId rule) config).protocol = written config rule .protocol := field_written h .protocol
  have hread := written_readable config h .protocol
  rw [hfield]
  change (protocolBreadth _).isSome = true at hread
  unfold protocolBreadth at hread
  split at hread
  · next hall => exact .inl hall
  · split at hread
    · next hone => exact .inr hone
    · cases hread

/-! ## Operands -/

theorem not_special {rule : Rule} (h : rule.isSpecial = false) :
    contains rule.description "loopback" = false ∧ contains rule.description "established and related" = false := by
  rwa [Rule.isSpecial, Bool.or_eq_false_iff] at h

/-- A special statement matches on no source and no port. -/
theorem operands_special {rule : Rule} (h : rule.isSpecial = true) :
    saddrOf (nftStatement rule) = none ∧ dportOf (nftStatement rule) = none := by
  unfold nftStatement
  split
  · exact ⟨by decide, by decide⟩
  · next hl =>
    rw [Rule.isSpecial, Bool.or_eq_true, or_iff_right hl] at h
    rw [if_pos h]
    exact ⟨by decide, by decide⟩

/-- A word that is neither keyword. -/
def IsPlainWord (word : Chars) : Prop := word ≠ "saddr".toList ∧ word ≠ "dport".toList

/-- What a statement says behind the source. -/
def serviceWords (rule : Rule) : List Chars :=
  (if rule.protocol ≠ "all".toList ∧ rule.protocol ≠ "any".toList then
    rule.protocol :: (if rule.port ≠ "any".toList then ["dport".toList, rule.port] else [])
  else []) ++ [rule.action]

theorem nftStatement_eq {rule : Rule} (h : rule.isSpecial = false) :
    nftStatement rule =
      (if rule.source ≠ "any".toList then [saddrFamily rule.source, "saddr".toList, rule.source] else []) ++ serviceWords rule := by
  rw [nftStatement_of_fields (not_special h).1 (not_special h).2, serviceWords, List.append_assoc]

theorem saddrOf_plain {word : Chars} {words : List Chars} (h : IsPlainWord word) : saddrOf (word :: words) = saddrOf words :=
  if_neg h.1

theorem dportOf_plain {word : Chars} {words : List Chars} (h : IsPlainWord word) : dportOf (word :: words) = dportOf words :=
  if_neg h.2

/-- The words of a rule's fields, apart from its source, are no keywords. -/
structure PlainFields (rule : Rule) : Prop where
  protocol : IsPlainWord rule.protocol
  port : IsPlainWord rule.port
  action : IsPlainWord rule.action

theorem saddrOf_serviceWords {rule : Rule} (h : PlainFields rule) : saddrOf (serviceWords rule) = none := by
  unfold serviceWords
  split
  · rw [List.cons_append, saddrOf_plain h.protocol]
    split
    · rw [List.cons_append, List.cons_append, List.nil_append]
      change saddrOf (rule.port :: [rule.action]) = none
      rw [saddrOf_plain h.port, saddrOf_plain h.action]
      rfl
    · rw [List.nil_append, saddrOf_plain h.action]
      rfl
  · rw [List.nil_append, saddrOf_plain h.action]
    rfl

theorem dportOf_serviceWords {rule : Rule} (h : PlainFields rule) {port : Chars}
    (hport : dportOf (serviceWords rule) = some port) :
    port = rule.port ∧ (rule.protocol ≠ "all".toList ∧ rule.protocol ≠ "any".toList) ∧ rule.port ≠ "any".toList := by
  unfold serviceWords at hport
  split at hport
  · next hnamed =>
    rw [List.cons_append, dportOf_plain h.protocol] at hport
    split at hport
    · next hany => exact ⟨(Option.some.inj hport).symm, hnamed, hany⟩
    · rw [List.nil_append, dportOf_plain h.action] at hport
      cases hport
  · rw [List.nil_append, dportOf_plain h.action] at hport
    cases hport

theorem plain_saddrFamily (source : Chars) : IsPlainWord (saddrFamily source) := by
  obtain h | h := saddrFamily_cases source <;> rw [h] <;> exact ⟨by decide, by decide⟩

theorem saddrOf_statement {rule : Rule} (hs : rule.isSpecial = false) (h : PlainFields rule) :
    saddrOf (nftStatement rule) = if rule.source = "any".toList then none else some rule.source := by
  rw [nftStatement_eq hs]
  by_cases hany : rule.source = "any".toList
  · rw [if_neg (not_not.mpr hany), if_pos hany, List.nil_append]
    exact saddrOf_serviceWords h
  · rw [if_pos hany, if_neg hany, List.cons_append, saddrOf_plain (plain_saddrFamily _)]
    rfl

theorem dportOf_statement {rule : Rule} (hs : rule.isSpecial = false) (h : PlainFields rule)
    (hsource : rule.source ≠ "dport".toList) {port : Chars} (hport : dportOf (nftStatement rule) = some port) :
    port = rule.port ∧ rule.port ≠ "any".toList := by
  have hrest : dportOf (serviceWords rule) = some port := by
    rw [nftStatement_eq hs] at hport
    split at hport
    · rw [List.cons_append, dportOf_plain (plain_saddrFamily _)] at hport
      change (if rule.source = "dport".toList then some _ else dportOf (serviceWords rule)) = some port at hport
      rwa [if_neg hsource] at hport
    · exact hport
  obtain ⟨he, -, hany⟩ := dportOf_serviceWords h hrest
  exact ⟨he, hany⟩

/-- The fields a configuration leaves are no keywords. -/
theorem plainFields {rule : Rule} (h : rule ∈ baselineRules) : PlainFields (applyRuleDirectives rule (ruleId rule) config) where
  protocol := by
    obtain (hp | hp) | hp | hp := protocol_cases config h _ rfl <;> rw [hp] <;> exact ⟨by decide, by decide⟩
  port := by
    obtain hp | ⟨low, high, -, -, hrange⟩ := port_cases config h
    · rw [hp]
      exact ⟨by decide, by decide⟩
    · exact ⟨hrange.ne rfl, hrange.ne rfl⟩
  action := by
    obtain ha | ha := (tightens config h).action
    · rw [ha]
      exact ⟨by decide, by decide⟩
    · rw [isBlocking, Bool.or_eq_true, beq_iff_eq, beq_iff_eq] at ha
      obtain ha | ha := ha <;> rw [ha] <;> exact ⟨by decide, by decide⟩

/-! ## Sources -/

variable {source : Chars} {n : Network}

theorem ne_any_of_network (h : sourceNetwork source = some n) : source ≠ "any".toList := by
  rintro rfl
  have hnone : sourceNetwork "any" = none := by decide
  rw [hnone] at h
  cases h

/-- A source is read by the renderer as by the list. -/
theorem parseSource_of_network (h : sourceNetwork source = some n) : parseSource source = .ok n.address := by
  unfold parseSource
  obtain ⟨hs, ha, -⟩ | ⟨address, bits, hs, ha, hb, hle⟩ := readNetwork_eq_some.mp h
  · rw [hs]
    dsimp only
    rw [ha]
  · rw [hs]
    dsimp only
    rw [ha, hb]
    exact if_neg (Nat.not_lt.mpr hle)

theorem saddrFamily_of_network (h : sourceNetwork source = some n) :
    (saddrFamily source == "ip6".toList) = n.address.isIpv6 := by
  rw [saddrFamily, parseSource_of_network h]
  dsimp only
  cases n.address.isIpv6 <;> decide

/-- The prefix the breadth comparison reads is the network's. -/
theorem sourcePrefix_of_network (h : sourceNetwork source = some n) :
    sourcePrefix source = some ⟨some n.address.isIpv6, n.bits⟩ := by
  have hcontains : ∀ {address : Chars}, parseIpAddr address = some n.address → address.contains ':' = n.address.isIpv6 := by
    intro address ha
    rw [Bool.eq_iff_iff, isIpv6_iff_colon ha, List.contains_iff_mem]
  rw [sourcePrefix, if_neg (ne_any_of_network h)]
  obtain ⟨hs, ha, hbits⟩ | ⟨address, bits, hs, ha, hb, hle⟩ := readNetwork_eq_some.mp h
  · rw [hs, hcontains ha, hbits]
  · have hcolon : source.contains ':' = n.address.isIpv6 := by
      rw [← hcontains ha, Bool.eq_iff_iff, List.contains_iff_mem, List.contains_iff_mem, (splitOnce_some hs).1]
      have hbits : ':' ∉ bits := fun hmem => (isDigit_of_parseUnsigned hb ':' hmem).elim (fun h => by cases h) fun h => by cases h
      simp [hbits]
    rw [hs, hcolon]
    dsimp only
    rw [hb]
    rfl

/-- nft reads a plain source as everyone else does. -/
theorem nftSource_of_plain (h : sourceNetwork source = some n) (hplain : PlainPrefix source) :
    nftSource (saddrFamily source == "ip6".toList) source = some n := by
  have hread : readNetwork nftNumber source = some n := by
    rw [readNetwork_eq_some]
    obtain hwhole | ⟨address, bits, hs, ha, hb, hle⟩ := readNetwork_eq_some.mp h
    · exact .inl hwhole
    · exact .inr ⟨address, bits, hs, ha, (hplain address bits hs).trans hb, hle⟩
  rw [nftSource, hread, saddrFamily_of_network h, Option.filter_some, beq_self_eq_true, if_pos rfl]

/-- A source that nft reads as the same addresses is plain. -/
theorem plain_of_nftSource (h : sourceNetwork source = some n)
    (hsame : ∀ a, networkCovers (nftSource (saddrFamily source == "ip6".toList) source) a = decide (n.Contains a)) :
    PlainPrefix source := by
  have hself : networkCovers (nftSource (saddrFamily source == "ip6".toList) source) n.address = true := by
    rw [hsame]
    exact decide_eq_true (IpAddr.InNetwork.refl _ _)
  cases hm : nftSource (saddrFamily source == "ip6".toList) source with
  | none =>
    rw [hm] at hself
    cases hself
  | some m =>
    rw [hm] at hsame
    have hread : readNetwork nftNumber source = some m := (Option.filter_eq_some_iff.mp hm).1
    have hmn : m = n := by
      obtain he | ⟨haddress, -, hlt⟩ := nft_network hread h
      · exact he
      · have hfits : n.bits ≤ IpAddr.familyBits n.address.isIpv6 := by
          obtain ⟨-, -, hbits⟩ | ⟨_, _, -, -, -, hle⟩ := readNetwork_eq_some.mp h
          · exact hbits.le
          · exact hle
        obtain ⟨a, hin, hout⟩ := IpAddr.exists_inNetwork_not_inNetwork n.address hlt hfits
        have hcontains : m.Contains a := by
          rw [Network.Contains, haddress]
          exact hin
        have hdecide : decide (m.Contains a) = decide (n.Contains a) := hsame a
        rw [decide_eq_true hcontains] at hdecide
        exact absurd (of_decide_eq_true hdecide.symm) hout
    rw [hmn] at hread
    intro address bits hs
    obtain ⟨hnone, -⟩ | ⟨_, _, hs', -, hb', -⟩ := readNetwork_eq_some.mp h
    · rw [hs] at hnone
      cases hnone
    · obtain ⟨hnone, -⟩ | ⟨_, _, hs'', -, hb'', -⟩ := readNetwork_eq_some.mp hread
      · rw [hs] at hnone
        cases hnone
      · rw [hs] at hs' hs''
        cases hs'
        cases hs''
        exact hb''.trans hb'.symm

/-! ## Rendering -/

theorem renderRule_isOk {rule : Rule} :
    (∃ line, renderRule rule = .ok line) ↔ ∀ s, saddrOf (nftStatement rule) = some s → (sourceNetwork s).isSome = true := by
  have hsaddr : saddrOf (buildNftRuleArgs rule) = saddrOf (nftStatement rule) := rfl
  unfold renderRule
  dsimp only
  rw [hsaddr]
  cases saddrOf (nftStatement rule) with
  | none => simp
  | some s =>
    have hread := @parseSource_isOk s
    rw [← Option.isSome_iff_exists] at hread
    simp only [Option.some.injEq, forall_eq']
    rw [← hread]
    cases parseSource s <;> simp

theorem renderRuleset_isOk {rules : List Rule} :
    (∃ text, renderRuleset rules = .ok text) ↔ ∀ rule ∈ rules, ∃ line, renderRule rule = .ok line := by
  constructor
  · intro h rule hrule
    obtain ⟨text, htext⟩ := h
    exact renderRuleset_ok htext hrule
  · intro h
    have hlines : ∃ lines, rules.mapM renderRule = .ok lines := by
      induction rules with
      | nil => exact ⟨[], rfl⟩
      | cons rule rules ih =>
        obtain ⟨line, hline⟩ := h rule List.mem_cons_self
        obtain ⟨lines, hlines⟩ := ih fun r hr => h r (List.mem_cons_of_mem _ hr)
        exact ⟨line :: lines, by rw [List.mapM_cons, hline, hlines]; rfl⟩
    obtain ⟨lines, hlines⟩ := hlines
    unfold renderRuleset
    rw [hlines]
    exact ⟨_, rfl⟩

/-- The source of a rule's statement is the one the configuration names. -/
theorem saddrOf_effective {rule r : Rule} (h : rule ∈ baselineRules) (hr : effectiveRule config rule = some r) :
    saddrOf (nftStatement r) = namedSource config rule := by
  have hkept : config.hasValidException (ruleId rule) = none := by
    unfold effectiveRule at hr
    split at hr
    · cases hr
    · assumption
  have hr := effectiveRule_eq_some hr
  have hsource : r.source = written config rule .source := by
    rw [hr]
    exact field_written h .source
  have hspecial : r.isSpecial = rule.isSpecial := by rw [hr]; rfl
  unfold namedSource
  rw [hkept, Option.isSome_none]
  cases hs : rule.isSpecial with
  | true =>
    rw [if_pos (.inr (.inl rfl))]
    exact (operands_special (hspecial.trans hs)).1
  | false =>
    rw [saddrOf_statement (hspecial.trans hs) (hr ▸ plainFields h), hsource]
    simp

theorem namedSource_effective {rule : Rule} {s : Chars} (hs : namedSource config rule = some s) :
    ∃ r, effectiveRule config rule = some r ∧ s = written config rule .source := by
  unfold namedSource at hs
  split at hs
  · cases hs
  · next h =>
    have hkept : config.hasValidException (ruleId rule) = none := by
      cases he : config.hasValidException (ruleId rule) with
      | none => rfl
      | some e => exact absurd (.inl (by rw [he]; rfl)) h
    refine ⟨applyRuleDirectives rule (ruleId rule) config, ?_, (Option.some.inj hs).symm⟩
    rw [effectiveRule, hkept]

/-- A configuration's ruleset is rendered where every source it names can be read. -/
theorem renders_iff : (∃ text, renderRuleset (buildRules config).1 = .ok text) ↔
    ∀ rule ∈ baselineRules, ∀ s, namedSource config rule = some s → (sourceNetwork s).isSome = true := by
  rw [renderRuleset_isOk, effectiveRules_eq]
  constructor
  · intro h rule hrule s hs
    obtain ⟨r, hr, -⟩ := namedSource_effective hs
    exact renderRule_isOk.mp (h r (List.mem_filterMap.mpr ⟨rule, hrule, hr⟩)) s ((saddrOf_effective hrule hr).trans hs)
  · intro h r hr
    obtain ⟨rule, hrule, hr⟩ := List.mem_filterMap.mp hr
    exact renderRule_isOk.mpr fun s hs => h rule hrule s ((saddrOf_effective hrule hr).symm.trans hs)

/-! ## Ports and sources as nft reads them -/

/-- A rendered port is read by nft as it was validated. -/
theorem meant_port {rule r : Rule} (h : rule ∈ baselineRules) (hr : effectiveRule config rule = some r)
    (hread : ∀ s, namedSource config rule = some s → (sourceNetwork s).isSome = true) {port : Chars}
    (hport : dportOf (nftStatement r) = some port) :
    ∃ range, nftRange port = some range ∧ Core.validatedPorts (written config rule .port) = some range ∧
      parsePorts (written config rule .port) = some range := by
  have hr' := effectiveRule_eq_some hr
  cases hs : r.isSpecial with
  | true =>
    rw [(operands_special hs).2] at hport
    cases hport
  | false =>
    have hsource : r.source ≠ "dport".toList := by
      intro he
      have hsaddr := saddrOf_statement hs (hr' ▸ plainFields h)
      rw [he, if_neg (by decide), saddrOf_effective h hr] at hsaddr
      have hsome := hread _ hsaddr
      revert hsome
      decide
    obtain ⟨rfl, hany⟩ := dportOf_statement hs (hr' ▸ plainFields h) hsource hport
    have hcases := port_cases config h
    rw [← hr'] at hcases
    obtain ⟨low, high, hle, hports, hrange⟩ := hcases.resolve_left hany
    exact ⟨(low, high), nftRange_range hrange hle, (Core.validatedPorts_eq _).trans hports, hports⟩

/-- No override loosens a rule, and what is rendered means what was validated, exactly where nothing
is rendered or no prefix length of a source is spelled in a way nft reads otherwise. -/
theorem overridesMeant_iff (config : PluginConfig) :
    OverridesMeant config ↔
      (∃ rule ∈ baselineRules, ∃ s, namedSource config rule = some s ∧ sourceNetwork s = none) ∨
        ∀ rule ∈ baselineRules, ∀ s, namedSource config rule = some s → PlainPrefix s := by
  by_cases hrenders : ∃ text, renderRuleset (buildRules config).1 = .ok text
  · have hread := renders_iff.mp hrenders
    constructor
    · intro h
      obtain ⟨text, htext⟩ := hrenders
      refine .inr fun rule hrule s hs => ?_
      obtain ⟨r, hr, rfl⟩ := namedSource_effective hs
      obtain ⟨n, hn, -, hsame⟩ := (h.meant text htext rule hrule r hr).source _ ((saddrOf_effective hrule hr).trans hs)
      exact plain_of_nftSource hn hsame
    · intro h
      refine ⟨fun rule hrule => tightens config hrule, fun text htext rule hrule r hr =>
        ⟨fun port hport => meant_port hrule hr (hread rule hrule) hport, fun source hsource => ?_⟩⟩
      rw [saddrOf_effective hrule hr] at hsource
      obtain ⟨r', hr', rfl⟩ := namedSource_effective hsource
      obtain ⟨n, hn⟩ := Option.isSome_iff_exists.mp (hread rule hrule _ hsource)
      have hplain : PlainPrefix (written config rule .source) := by
        refine h.elim (fun hunread => ?_) fun hplain => hplain rule hrule _ hsource
        obtain ⟨rule', hrule', s, hs, hnone⟩ := hunread
        have hsome := hread rule' hrule' s hs
        rw [hnone] at hsome
        cases hsome
      refine ⟨n, hn, sourcePrefix_of_network hn, fun a => ?_⟩
      rw [nftSource_of_plain hn hplain]
      rfl
  · have hunread : ∃ rule ∈ baselineRules, ∃ s, namedSource config rule = some s ∧ sourceNetwork s = none := by
      by_contra hnone
      refine hrenders (renders_iff.mpr fun rule hrule s hs => ?_)
      cases hn : sourceNetwork s with
      | none => exact absurd ⟨rule, hrule, s, hs, hn⟩ hnone
      | some n => rfl
    exact ⟨fun _ => .inl hunread, fun _ =>
      ⟨fun rule hrule => tightens config hrule, fun text htext => absurd ⟨text, htext⟩ hrenders⟩⟩

/-! ## A prefix length with a leading zero -/

/-- SSH from one network, its prefix length written with a leading zero. -/
def sshFromOctal : PluginConfig where
  directives key := if key = "ssh.source".toList then some "10.0.0.0/010" else none
  exceptions _ := none

/-- The configuration is valid, and nft admits SSH from a network four times as large as the one
that was validated. -/
theorem overridesMeant_octal :
    (∀ key value, sshFromOctal.directives key = some value → Core.validateFirewallDirective key value = .ok ()) ∧
      ¬ OverridesMeant sshFromOctal := by
  constructor
  · intro key value h
    change (if key = "ssh.source".toList then some "10.0.0.0/010".toList else none) = some value at h
    split at h
    · next hkey =>
      cases h
      rw [hkey]
      decide
    · cases h
  · intro h
    have heffective : effectiveRule sshFromOctal sshRule = some { sshRule with source := "10.0.0.0/010" } := by decide
    have hrenders : ∃ text, renderRuleset (buildRules sshFromOctal).1 = .ok text := ⟨_, rfl⟩
    obtain ⟨text, htext⟩ := hrenders
    obtain ⟨n, hn, -, hsame⟩ := (h.meant text htext sshRule (by decide) _ heffective).source "10.0.0.0/010" (by decide)
    have hplain := plain_of_nftSource hn hsame "10.0.0.0" "010" (by decide)
    revert hplain
    decide

end LinuxHardener.Firewall
