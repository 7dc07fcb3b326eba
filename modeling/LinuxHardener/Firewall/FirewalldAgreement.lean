import LinuxHardener.Firewall.Admits

/-
  Whether a firewalld zone, after the edits of a rule list, admits what the list admits.

  What is proved:
    1. `load_target`, `mem_load_ports` — the zone after the edits of a list.
    2. `zoneVerdict_iff` — what it then admits of the new packets.
    3. `firewalld_agrees_iff` — exactly when that is what the list admits.
-/
namespace LinuxHardener.Firewall

open LineText Plugins

variable {config : PluginConfig} {p : Packet}

/-! ## Edits -/

/-- What the edits of a list leave of a zone's target. -/
theorem foldl_edit_target (z : Zone) (edits : List ZoneEdit) :
    (edits.foldl Zone.edit z).target = if ZoneEdit.setTarget ∈ edits then .drop else z.target := by
  induction edits generalizing z with
  | nil => simp
  | cons e edits ih =>
    rw [List.foldl_cons, ih]
    cases e with
    | setTarget =>
      rw [if_pos List.mem_cons_self]
      split <;> rfl
    | addPort spec =>
      have htarget : (z.edit (.addPort spec)).target = z.target := by
        rw [Zone.edit]
        split <;> rfl
      rw [htarget]
      simp

/-- The ports a zone holds after the edits of a list, as far as firewalld can read them. -/
theorem mem_foldl_edit_ports (z : Zone) (edits : List ZoneEdit) {spec : Chars} (hspec : (readPortSpec spec).isSome = true) :
    spec ∈ (edits.foldl Zone.edit z).ports ↔ spec ∈ z.ports ∨ ZoneEdit.addPort spec ∈ edits := by
  induction edits generalizing z with
  | nil => simp
  | cons e edits ih =>
    rw [List.foldl_cons, ih]
    cases e with
    | setTarget => simp [Zone.edit]
    | addPort spec' =>
      rw [Zone.edit, List.mem_cons, ZoneEdit.addPort.injEq]
      by_cases hreadable : (readPortSpec spec').isSome = true
      · rw [if_pos hreadable]
        simp only [List.mem_append, List.mem_singleton]
        exact or_assoc
      · rw [if_neg hreadable]
        have hne : spec ≠ spec' := fun heq => hreadable (heq ▸ hspec)
        simp [hne]

/-- What a run was told of a zone: no port that is not there, and no target that is not set. -/
structure ZoneReport (z : Zone) (existingPorts : List Chars) (targetAlreadyDrop : Bool) : Prop where
  ports : ∀ spec ∈ existingPorts, spec ∈ z.ports
  target : targetAlreadyDrop = true → z.target = .drop

/-- firewalld agrees with a list: of a zone that allows no port the list does not ask for, after
the edits and whatever its target was, the new packets admitted are those the list admits. -/
def FirewalldAgrees (rules : List Rule) : Prop :=
  ∀ (z : Zone) (existingPorts : List Chars) (targetAlreadyDrop : Bool), ZoneReport z existingPorts targetAlreadyDrop →
    (∀ spec ∈ z.ports, ∃ rule ∈ rules, zoneEdit rule = some (.addPort spec)) → ∀ p : Packet, p.state = .new →
    ((Firewalld.load z existingPorts targetAlreadyDrop rules).verdict p = .accept ↔ listVerdict rules p = .accept)

def FirewalldFaithful (config : PluginConfig) : Prop :=
  (∃ l, effectiveRule config loopbackRule = some l ∧ AdmitsLoopback l) ∧
    (∃ rule ∈ (buildRules config).1, zoneEdit rule = some .setTarget) ∧
    ∀ s, effectiveRule config sshRule = some s → s.action = "accept".toList → s.source = "any".toList

theorem load_target {z : Zone} {existingPorts : List Chars} {targetAlreadyDrop : Bool}
    (hz : ZoneReport z existingPorts targetAlreadyDrop) (rules : List Rule) :
    (Firewalld.load z existingPorts targetAlreadyDrop rules).target =
      if ∃ rule ∈ rules, zoneEdit rule = some .setTarget then .drop else z.target := by
  have hmem : ZoneEdit.setTarget ∈ rules.filterMap (Firewalld.statement existingPorts targetAlreadyDrop) ↔
      (∃ rule ∈ rules, zoneEdit rule = some .setTarget) ∧ targetAlreadyDrop = false := by
    rw [List.mem_filterMap]
    constructor
    · rintro ⟨rule, hrule, hs⟩
      unfold Firewalld.statement at hs
      split at hs
      · cases hs
      · next he =>
        split at hs
        · cases hs
        · next hfalse => exact ⟨⟨rule, hrule, he⟩, Bool.not_eq_true _ ▸ hfalse⟩
      · split at hs <;> cases hs
    · rintro ⟨⟨rule, hrule, he⟩, rfl⟩
      refine ⟨rule, hrule, ?_⟩
      rw [Firewalld.statement, he]
      rfl
  rw [Firewalld.load, foldl_edit_target]
  by_cases hasked : ∃ rule ∈ rules, zoneEdit rule = some .setTarget
  · rw [if_pos hasked]
    split
    · rfl
    · next hno =>
      cases ht : targetAlreadyDrop with
      | true => exact hz.target ht
      | false => exact absurd (hmem.mpr ⟨hasked, ht⟩) hno
  · rw [if_neg hasked, if_neg fun h => hasked (hmem.mp h).1]

theorem mem_load_ports {z : Zone} {existingPorts : List Chars} {targetAlreadyDrop : Bool} {rules : List Rule}
    (hz : ZoneReport z existingPorts targetAlreadyDrop)
    (hasked : ∀ spec ∈ z.ports, ∃ rule ∈ rules, zoneEdit rule = some (.addPort spec)) {spec : Chars}
    (hspec : (readPortSpec spec).isSome = true) :
    spec ∈ (Firewalld.load z existingPorts targetAlreadyDrop rules).ports ↔
      ∃ rule ∈ rules, zoneEdit rule = some (.addPort spec) := by
  rw [Firewalld.load, mem_foldl_edit_ports _ _ hspec, List.mem_filterMap]
  constructor
  · rintro (hmem | ⟨rule, hrule, hs⟩)
    · exact hasked spec hmem
    · refine ⟨rule, hrule, ?_⟩
      unfold Firewalld.statement at hs
      split at hs
      · cases hs
      · split at hs <;> cases hs
      · next he =>
        split at hs
        · cases hs
        · cases hs
          exact he
  · rintro ⟨rule, hrule, he⟩
    by_cases hexisting : spec ∈ existingPorts
    · exact .inl (hz.ports spec hexisting)
    · refine .inr ⟨rule, hrule, ?_⟩
      rw [Firewalld.statement, he]
      dsimp only
      rw [if_neg (by simpa using hexisting)]

/-- Of a configuration's rules, an accepting SSH rule alone asks for a port. -/
theorem asksForPort_iff {spec : Chars} :
    (∃ rule ∈ (buildRules config).1, zoneEdit rule = some (.addPort spec)) ↔
      ∃ s, effectiveRule config sshRule = some s ∧ s.action = "accept".toList ∧ spec = portSpec s := by
  have hfields : ∀ {rule : Rule}, contains rule.description "loopback" = false →
      contains rule.description "established" = false →
      (zoneEdit rule = some (.addPort spec) ↔ rule.action = "accept".toList ∧ spec = portSpec rule) := by
    intro rule hloopback hestablished
    rw [zoneEdit, hloopback, hestablished, if_neg Bool.false_ne_true, if_neg Bool.false_ne_true]
    constructor
    · intro h
      split at h
      · cases h
      · split at h
        · next ha =>
          cases h
          exact ⟨ha, rfl⟩
        · cases h
    · rintro ⟨ha, rfl⟩
      rw [if_neg (by rw [ha]; exact fun h => absurd h.1 (by decide)), if_pos ha]
  constructor
  · rintro ⟨rule, hrule, he⟩
    rcases mem_effectiveRules.mp hrule with h | h | h | h
    · rw [zoneEdit, description_effectiveRule h, if_pos (by decide)] at he
      cases he
    · rw [zoneEdit, description_effectiveRule h, if_neg (by decide), if_pos (by decide)] at he
      cases he
    · have hdescription := description_effectiveRule h
      obtain ⟨ha, hspec⟩ := (hfields (by rw [hdescription]; decide) (by rw [hdescription]; decide)).mp he
      exact ⟨rule, h, ha, hspec⟩
    · have hdescription := description_effectiveRule h
      obtain ⟨ha, _⟩ := (hfields (by rw [hdescription]; decide) (by rw [hdescription]; decide)).mp he
      have hblocks := dropDefault_blocks h
      rw [ha] at hblocks
      cases hblocks
  · rintro ⟨s, hs, ha, hspec⟩
    have hdescription := description_effectiveRule hs
    exact ⟨s, mem_effectiveRules.mpr (.inr (.inr (.inl hs))),
      (hfields (by rw [hdescription]; decide) (by rw [hdescription]; decide)).mpr ⟨ha, hspec⟩⟩

/-- The port of an accepting SSH rule, as firewalld reads it. -/
theorem readPortSpec_ssh {s : Rule} (h : effectiveRule config sshRule = some s) (ha : s.action = "accept".toList) :
    ∃ g, readPortSpec (portSpec s) = some g ∧ g.verdict = .accept ∧ ∀ p : Packet, g.covers p = serviceCovers s p.transport := by
  obtain ⟨⟨n, hn⟩, hprotocol⟩ := accepting_ssh h ha
  have hslash : '/' ∉ s.port := by
    have hdigits : '/' ∉ decimal n := fun hc => by
      have := isDigit_decimal hc
      cases this
    obtain ⟨_, hp | hp⟩ := hn
    · rw [hp]
      exact hdigits
    · rw [hp]
      simp [hdigits]
  have hports : readPortSpec.zonePorts s.port = some (n, n) := by
    obtain ⟨hlt, hp | hp⟩ := hn
    · rw [readPortSpec.zonePorts, hp, splitOnce_decimal rfl]
      dsimp only
      rw [parseDigits_decimal hlt]
      rfl
    · rw [readPortSpec.zonePorts, hp, splitOnce_range rfl]
      dsimp only
      rw [parseDigits_decimal hlt]
      dsimp only
      rw [min_self, max_self]
  refine ⟨⟨fun p => protocolCovers s.protocol p.transport && rangeCovers (some (n, n)) p.transport, .accept⟩, ?_, rfl,
    fun p => (serviceCovers_ssh hn p.transport).symm⟩
  rw [readPortSpec, portSpec, splitOnce_append hslash]
  dsimp only
  rw [hports]
  exact if_pos hprotocol

theorem readPortSpec_accepts {spec : Chars} {g : Filter Packet Verdict} (h : readPortSpec spec = some g) :
    g.verdict = .accept := by
  unfold readPortSpec at h
  split at h
  · cases h
  · split at h
    · cases h
    · split at h
      · cases h
        rfl
      · cases h

/-- What a zone admits of the new packets after the edits: what loops back, the service of an
accepting SSH rule from anywhere, and everything where a target of accepting was left. -/
theorem zoneVerdict_iff (hnew : p.state = .new) {z : Zone} {existingPorts : List Chars} {targetAlreadyDrop : Bool}
    (hz : ZoneReport z existingPorts targetAlreadyDrop)
    (hasked : ∀ spec ∈ z.ports, ∃ rule ∈ (buildRules config).1, zoneEdit rule = some (.addPort spec)) :
    (Firewalld.load z existingPorts targetAlreadyDrop (buildRules config).1).verdict p = .accept ↔
      p.isLocal = true ∨ (∃ s, effectiveRule config sshRule = some s ∧ s.action = "accept".toList ∧
        serviceCovers s p.transport = true) ∨
        ((¬ ∃ rule ∈ (buildRules config).1, zoneEdit rule = some .setTarget) ∧ z.target = .accept) := by
  rw [Zone.verdict, firstMatch_builtin hnew]
  refine or_congr Iff.rfl ?_
  rw [firstMatch_eq_iff_of_all]
  · refine or_congr ?_ ?_
    · constructor
      · rintro ⟨g, hg, hcovers⟩
        obtain ⟨spec, hspec, hread⟩ := List.mem_filterMap.mp hg
        have hmem := (mem_load_ports hz hasked (by rw [hread]; rfl)).mp hspec
        obtain ⟨s, hs, ha, rfl⟩ := asksForPort_iff.mp hmem
        obtain ⟨g', hg', _, hcovered⟩ := readPortSpec_ssh hs ha
        rw [hread] at hg'
        cases hg'
        exact ⟨s, hs, ha, hcovered p ▸ hcovers⟩
      · rintro ⟨s, hs, ha, hservice⟩
        obtain ⟨g, hg, _, hcovered⟩ := readPortSpec_ssh hs ha
        have hmem := (mem_load_ports hz hasked (by rw [hg]; rfl)).mpr (asksForPort_iff.mpr ⟨s, hs, ha, rfl⟩)
        exact ⟨g, List.mem_filterMap.mpr ⟨_, hmem, hg⟩, by rw [hcovered, hservice]⟩
    · rw [load_target hz]
      by_cases hset : ∃ rule ∈ (buildRules config).1, zoneEdit rule = some .setTarget
      · rw [if_pos hset]
        constructor
        · intro h
          cases h
        · exact fun h => absurd hset h.1
      · rw [if_neg hset]
        cases z.target <;> simp [ZoneTarget.verdict, hset]
  · intro g hg
    obtain ⟨spec, _, hread⟩ := List.mem_filterMap.mp hg
    exact readPortSpec_accepts hread

/-- A zone that allows no port. -/
theorem closedZone_report (target : ZoneTarget) : ZoneReport ⟨target, []⟩ [] false :=
  ⟨fun _ h => absurd h List.not_mem_nil, fun h => absurd h Bool.false_ne_true⟩

theorem firewalld_faithful_of_agrees (h : FirewalldAgrees (buildRules config).1) : FirewalldFaithful config := by
  have hnone : ∀ target, ∀ spec ∈ (⟨target, []⟩ : Zone).ports,
      ∃ rule ∈ (buildRules config).1, zoneEdit rule = some (.addPort spec) := fun _ _ h => absurd h List.not_mem_nil
  have hiff := fun target {p : Packet} (hnew : p.state = .new) =>
    (zoneVerdict_iff hnew (closedZone_report target) (hnone target)).symm.trans
      (h _ _ _ (closedZone_report target) (hnone target) p hnew)
  have hloopback : ∃ l, effectiveRule config loopbackRule = some l ∧ AdmitsLoopback l :=
    listVerdict_looped.mp fun a => (hiff .drop rfl).mp (.inl rfl)
  have hall : ∀ l, effectiveRule config loopbackRule = some l → AdmitsLoopback l := by
    intro l hl
    obtain ⟨l', hl', hadmits⟩ := hloopback
    rw [hl] at hl'
    exact Option.some.inj hl' ▸ hadmits
  have helsewhere : ∀ {t : Transport} {a : IpAddr}, ¬ loopbackNetwork.Contains a →
      listVerdict (buildRules config).1 (arriving t a) = .accept → AdmittedBySsh config (arriving t a) := by
    intro t a hout hlist
    refine ((listVerdict_iff rfl hall).mp hlist).resolve_left fun hc => hout ?_
    have hlocal := hc.2
    rwa [isLocal_arriving, decide_eq_true_eq] at hlocal
  refine ⟨hloopback, ?_, fun s hs ha => ?_⟩
  · by_contra hset
    have hlist := (hiff .accept (p := arriving (.other 47) (.v6 1)) rfl).mp (.inr (.inr ⟨hset, rfl⟩))
    exact not_admittedBySsh_other rfl (helsewhere (by decide) hlist)
  · by_contra hsource
    obtain ⟨a, hout, hloop⟩ := exists_outside (sourceNetwork s.source)
    obtain ⟨t, ht⟩ := exists_service hs ha
    have hlist := (hiff .drop (p := arriving t a) rfl).mp (.inr (.inl ⟨s, hs, ha, ht⟩))
    obtain ⟨s', hs', _, _, hcovered⟩ := helsewhere hloop hlist
    rw [hs] at hs'
    cases hs'
    rw [sourceCovers, beq_false_of_ne hsource, Bool.false_or] at hcovered
    change networkCovers (sourceNetwork s.source) a = true at hcovered
    rw [hout] at hcovered
    cases hcovered

theorem firewalld_agrees_of_faithful (h : FirewalldFaithful config) : FirewalldAgrees (buildRules config).1 := by
  obtain ⟨⟨l, hl, hadmits⟩, hset, hssh⟩ := h
  have hall : ∀ l', effectiveRule config loopbackRule = some l' → AdmitsLoopback l' := by
    intro l' hl'
    rw [hl] at hl'
    exact Option.some.inj hl' ▸ hadmits
  intro z existingPorts targetAlreadyDrop hz hasked p hnew
  rw [zoneVerdict_iff hnew hz hasked, listVerdict_iff hnew hall, hl, Option.isSome_some]
  constructor
  · rintro (hlocal | ⟨s, hs, ha, hservice⟩ | ⟨hno, _⟩)
    · exact .inl ⟨rfl, hlocal⟩
    · refine .inr ⟨s, hs, ha, hservice, ?_⟩
      rw [hssh s hs ha]
      rfl
    · exact absurd hset hno
  · rintro (⟨_, hlocal⟩ | ⟨s, hs, ha, hservice, _⟩)
    · exact .inl hlocal
    · exact .inr (.inl ⟨s, hs, ha, hservice⟩)

theorem firewalld_agrees_iff : FirewalldAgrees (buildRules config).1 ↔ FirewalldFaithful config :=
  ⟨firewalld_faithful_of_agrees, firewalld_agrees_of_faithful⟩

end LinuxHardener.Firewall
