import LinuxHardener.Firewall.Host

/-
  What a refused apply leaves behind.

  An apply turns the firewall on before it looks at the rules, so what a refusal leaves
  of the host is decided by what the enablement found to do. What is proved:
    1. `enablePhase_outcomes` — the enablement leaves the host alone, makes the unit
       wanted, or turns the backend on as well.
    2. `refused_unchanged_iff` — a refused apply leaves the host as it was exactly when
       the firewall was on, its unit was wanted, and no scratch file was in the way.
-/
namespace LinuxHardener.Firewall

open LineText Plugins Dialogue

variable {R : Type} {tools : Tools R}

/-! ## Probes -/

theorem asks_probe {program : Chars} {args : List Chars} (h : isProbe program args = true) :
    Asks Inert (execute program args) := asks_ask h

theorem asks_output {program : Chars} {args : List Chars} {onError onFailure : Chars → Chars}
    (h : isProbe program args = true) : Asks Inert (outputOf program args onError onFailure) := asks_outputOf h

theorem asks_isEnabled (b : Backend) : Asks Inert b.isEnabled := by
  cases b with
  | firewalld =>
    refine (asks_output rfl).bind fun r => ?_
    cases r with
    | error e => trivial
    | ok output => dsimp only; split <;> trivial
  | ufw =>
    refine (asks_output rfl).bind fun r => ?_
    cases r with
    | error e => trivial
    | ok output => dsimp only; split <;> trivial
  | nftables =>
    refine (asks_output rfl).bind fun r => ?_
    cases r with
    | error e => trivial
    | ok output => dsimp only; split <;> trivial

theorem asks_bootRuleset : Asks Inert bootRuleset := by
  refine (asks_probe rfl).bind fun r => ?_
  cases r with
  | error e => trivial
  | ok output => dsimp only; split <;> trivial

theorem asks_checkpointPaths (b : Backend) : Asks Inert b.checkpointPaths := by
  cases b with
  | firewalld => trivial
  | ufw => trivial
  | nftables =>
    refine asks_bootRuleset.bind fun r => ?_
    cases r.loads <;> trivial

theorem asks_systemdUnitActive (unit : Chars) : Asks Inert (systemdUnitActive unit) := by
  refine (asks_probe rfl).bind fun r => ?_
  cases r <;> trivial

theorem asks_classify (bs : List Backend) : Asks Inert (classify bs) := by
  induction bs with
  | nil => trivial
  | cons b bs ih =>
    have hdetect : Asks Inert b.detect := by
      refine Asks.bind ((asks_probe rfl).bind fun r => ?_) fun r => ?_
      · cases r <;> trivial
      · cases r <;> trivial
    have hactivity : Asks Inert (backendActivity b) := by
      refine (asks_isEnabled b).bind fun r => ?_
      cases r with
      | ok u => trivial
      | error e =>
        dsimp only
        split
        · refine (asks_systemdUnitActive _).bind fun active => ?_
          cases active <;> trivial
        · trivial
    refine hdetect.bind fun r => ?_
    cases r with
    | error e => trivial
    | ok found =>
      cases found with
      | false => exact ih
      | true =>
        refine hactivity.bind fun activity => ih.bind fun rest => ?_
        cases rest <;> trivial

theorem asks_detectBackend : Asks Inert detectBackend := by
  refine (asks_classify _).bind fun r => ?_
  rcases r with e | (_ | ⟨first, rest⟩) <;> trivial

/-! ## The enablement -/

theorem run_isEnabled {b : Backend} {es : List Exchange} (hr : Run b.isEnabled es (.ok ())) : ReportedActive b es := by
  cases b with
  | firewalld =>
    obtain ⟨es₁, r, es₂, rfl, h₁, h₂⟩ := run_bind.mp hr
    cases r with
    | error e => cases (run_pure.mp h₂).2
    | ok stdout =>
      obtain ⟨output, rfl, hs, rfl⟩ := run_outputOf h₁
      dsimp only at h₂
      split at h₂
      · next ht => exact ⟨output, List.mem_cons_self, hs, beq_iff_eq.mpr ht⟩
      · cases (run_pure.mp h₂).2
  | ufw =>
    obtain ⟨es₁, r, es₂, rfl, h₁, h₂⟩ := run_bind.mp hr
    cases r with
    | error e => cases (run_pure.mp h₂).2
    | ok stdout =>
      obtain ⟨output, rfl, hs, rfl⟩ := run_outputOf h₁
      dsimp only at h₂
      split at h₂
      · next ht => exact ⟨output, List.mem_cons_self, hs, ht⟩
      · cases (run_pure.mp h₂).2
  | nftables =>
    obtain ⟨es₁, r, es₂, rfl, h₁, h₂⟩ := run_bind.mp hr
    cases r with
    | error e => cases (run_pure.mp h₂).2
    | ok stdout =>
      obtain ⟨output, rfl, hs, rfl⟩ := run_outputOf h₁
      dsimp only at h₂
      split at h₂
      · next ht => exact ⟨output, List.mem_cons_self, hs, ht⟩
      · cases (run_pure.mp h₂).2

theorem ReportedActive.mono {b : Backend} {es es' : List Exchange} (h : ReportedActive b es) (hsub : es ⊆ es') :
    ReportedActive b es' := by
  obtain ⟨output, hmem, hs⟩ := h
  exact ⟨output, hsub hmem, hs⟩

theorem ReportedWanted.mono {unit : Chars} {es es' : List Exchange} (h : ReportedWanted unit es) (hsub : es ⊆ es') :
    ReportedWanted unit es' := by
  obtain ⟨output, hmem, hs⟩ := h
  exact ⟨output, hsub hmem, hs⟩

theorem EnableAccepted.mono {unit : Chars} {es es' : List Exchange} (h : EnableAccepted unit es) (hsub : es ⊆ es') :
    EnableAccepted unit es' := by
  obtain ⟨output, hmem, hs⟩ := h
  exact ⟨output, hsub hmem, hs⟩

/-- Inert questions are no enablement. -/
theorem enableAccepted_append_inert {unit : Chars} {es es' : List Exchange} (hes : ∀ e ∈ es, Inert e.query) :
    EnableAccepted unit (es ++ es') ↔ EnableAccepted unit es' := by
  constructor
  · rintro ⟨output, hmem, hs⟩
    rcases List.mem_append.mp hmem with hm | hm
    · have := hes _ hm
      cases this
    · exact ⟨output, hm, hs⟩
  · intro h
    exact h.mono (List.subset_append_right ..)

theorem run_systemctlEnable {unit failed : Chars} {es : List Exchange} (hr : Run (systemctlEnable unit failed) es (.ok ()))
    (h : Host R) : after (react tools) h es = h.want unit ∧ EnableAccepted unit es := by
  obtain ⟨r, es', rfl, h₁⟩ := run_execute.mp hr
  cases r with
  | error e => cases (run_pure.mp h₁).2
  | ok output =>
    dsimp only at h₁
    split at h₁
    · next hs =>
      obtain ⟨rfl, _⟩ := run_pure.mp h₁
      exact ⟨react_enable tools h unit hs, output, List.mem_cons_self, hs⟩
    · cases (run_pure.mp h₁).2

variable (tools) in
theorem run_enable {b : Backend} {es : List Exchange} (hr : Run b.enable es (.ok ())) (h : Host R) :
    after (react tools) h es = (h.switchOn tools b).want b.systemdUnit ∧ EnableAccepted b.systemdUnit es := by
  cases b with
  | firewalld =>
    obtain ⟨r, es₁, rfl, h₁⟩ := run_execute.mp hr
    cases r with
    | error e => cases (run_pure.mp h₁).2
    | ok started =>
      dsimp only at h₁
      split at h₁
      · cases (run_pure.mp h₁).2
      · next hs =>
        have hs : started.success = true := by simpa using hs
        have hstart : react tools h ⟨.execute "systemctl" ["start", "firewalld"], .ok started⟩ = h.switchOn tools .firewalld := by
          rw [react, if_pos hs]
          rfl
        obtain ⟨hafter, haccepted⟩ := run_systemctlEnable h₁ (h.switchOn tools .firewalld)
        rw [after_cons, hstart]
        exact ⟨hafter, haccepted.mono (List.subset_cons_self ..)⟩
  | ufw =>
    obtain ⟨es₁, r, es₂, rfl, h₁, h₂⟩ := run_bind.mp hr
    cases r with
    | error e => cases (run_pure.mp h₂).2
    | ok stdout =>
      obtain ⟨output, rfl, hs, rfl⟩ := run_outputOf h₁
      dsimp only at h₂
      split at h₂
      · cases (run_pure.mp h₂).2
      · have hforce : react tools h ⟨.execute "ufw" ["--force", "enable"], .ok output⟩ = h.switchOn tools .ufw := by
          rw [react, if_pos hs]
          rfl
        obtain ⟨hafter, haccepted⟩ := run_systemctlEnable h₂ (h.switchOn tools .ufw)
        rw [List.singleton_append, after_cons, hforce]
        exact ⟨hafter, haccepted.mono (List.subset_cons_self ..)⟩
  | nftables => exact run_systemctlEnable hr h

theorem run_unitBootPersistence {unit : Chars} {es : List Exchange} {persistence : BootPersistence}
    (hr : Run (unitBootPersistence unit) es persistence) : persistence = .atBoot → ReportedWanted unit es := by
  obtain ⟨r, es', rfl, h₁⟩ := run_execute.mp hr
  rintro rfl
  cases r with
  | error e => cases (run_pure.mp h₁).2
  | ok output =>
    dsimp only at h₁
    split at h₁
    · next he => exact ⟨output, List.mem_cons_self, he⟩
    · split at h₁ <;> cases (run_pure.mp h₁).2

theorem asks_unitBootPersistence (unit : Chars) : Asks Inert (unitBootPersistence unit) := by
  refine Asks.bind (asks_probe rfl) fun r => ?_
  cases r with
  | error e => trivial
  | ok output =>
    dsimp only
    split
    · trivial
    · split <;> trivial

variable (tools) in
theorem run_ensureUnitWantedAtBoot {unit : Chars} {es : List Exchange} {c : Change}
    (hr : Run (ensureUnitWantedAtBoot unit) es c) (h : Host R) :
    (after (react tools) h es = h ∧ (ReportedWanted unit es ∨ ¬ EnableAccepted unit es)) ∨
      (after (react tools) h es = h.want unit ∧ EnableAccepted unit es) := by
  obtain ⟨es₁, persistence, es₂, rfl, h₁, h₂⟩ := run_bind.mp hr
  have hinert := (asks_unitBootPersistence unit).of_run h₁
  rw [after_append, after_inert (asks_unitBootPersistence unit) h₁, enableAccepted_append_inert hinert]
  split at h₂
  · next hb =>
    obtain ⟨rfl, _⟩ := run_pure.mp h₂
    exact .inl ⟨rfl, .inl ((run_unitBootPersistence h₁ hb).mono (List.subset_append_left ..))⟩
  · obtain ⟨r, es', rfl, h₃⟩ := run_execute.mp h₂
    cases r with
    | error e =>
      obtain ⟨rfl, _⟩ := run_pure.mp h₃
      refine .inl ⟨rfl, .inr ?_⟩
      rintro ⟨output, hmem, _⟩
      cases List.mem_singleton.mp hmem
    | ok output =>
      dsimp only at h₃
      split at h₃
      · next hs =>
        obtain ⟨rfl, _⟩ := run_pure.mp h₃
        exact .inr ⟨react_enable tools h unit hs, output, List.mem_cons_self, hs⟩
      · next hs =>
        obtain ⟨rfl, _⟩ := run_pure.mp h₃
        refine .inl ⟨?_, .inr ?_⟩
        · rw [after_cons, after_nil, react, if_neg hs]
        · rintro ⟨output', hmem, hs'⟩
          cases List.mem_singleton.mp hmem
          exact hs hs'

/-- What the enablement comes to. -/
inductive EnableOutcome (tools : Tools R) (h : Host R) (b : Backend) (es : List Exchange) : Host R → Prop where
  /-- The firewall was on, and its unit was wanted or could not be. -/
  | kept (hactive : ReportedActive b es)
      (hwanted : ReportedWanted b.systemdUnit es ∨ ¬ EnableAccepted b.systemdUnit es) : EnableOutcome tools h b es h
  /-- The firewall was on, and its unit is wanted now. -/
  | wanted (hactive : ReportedActive b es) (haccepted : EnableAccepted b.systemdUnit es) :
      EnableOutcome tools h b es (h.want b.systemdUnit)
  /-- The firewall was turned on. -/
  | turnedOn (haccepted : EnableAccepted b.systemdUnit es) :
      EnableOutcome tools h b es ((h.switchOn tools b).want b.systemdUnit)

theorem EnableOutcome.append_inert {h h' : Host R} {b : Backend} {es es' : List Exchange}
    (hes : ∀ e ∈ es, Inert e.query) (ho : EnableOutcome tools h b es' h') : EnableOutcome tools h b (es ++ es') h' := by
  have hsub : es' ⊆ es ++ es' := List.subset_append_right ..
  cases ho with
  | kept hactive hwanted =>
    refine .kept (hactive.mono hsub) ?_
    rw [enableAccepted_append_inert hes]
    exact hwanted.imp_left fun hw => hw.mono hsub
  | wanted hactive haccepted => exact .wanted (hactive.mono hsub) (haccepted.mono hsub)
  | turnedOn haccepted => exact .turnedOn (haccepted.mono hsub)

variable (tools) in
theorem enablePhase_outcomes {ctx : Context} {b : Backend} {es : List Exchange} {changes : List Change} {id : Option Chars}
    (hr : Run (enablePhase ctx b) es (.ok (.ok (changes, id)))) (h : Host R) :
    EnableOutcome tools h b es (after (react tools) h es) := by
  obtain ⟨es₁, paths, es₂, rfl, hpaths, h₂⟩ := run_bind.mp hr
  obtain ⟨es₃, checkpoint, es₄, rfl, hcheckpoint, h₄⟩ := run_bind.mp h₂
  rw [after_append, after_inert (asks_checkpointPaths b) hpaths, after_append,
    after_inert (asks_createCheckpointForApply (P := Inert) ctx trivial) hcheckpoint]
  refine .append_inert ((asks_checkpointPaths b).of_run hpaths) ?_
  refine .append_inert ((asks_createCheckpointForApply (P := Inert) ctx trivial).of_run hcheckpoint) ?_
  cases checkpoint with
  | error e => cases (run_pure.mp h₄).2
  | ok checkpointId =>
    obtain ⟨es₅, answer, es₆, rfl, hanswer, h₆⟩ := run_bind.mp h₄
    obtain ⟨es₇, enableError, es₈, rfl, henable, h₈⟩ := run_bind.mp h₆
    rw [after_append, after_inert (asks_isEnabled b) hanswer]
    have hinert := (asks_isEnabled b).of_run hanswer
    cases answer with
    | ok u =>
      have hactive : ReportedActive b es₅ := run_isEnabled hanswer
      obtain ⟨rfl, rfl⟩ := run_pure.mp henable
      obtain ⟨es₉, bootChange, es₁₀, rfl, hboot, h₁₀⟩ := run_bind.mp h₈
      obtain ⟨rfl, _⟩ := run_pure.mp h₁₀
      rw [List.nil_append, List.append_nil]
      rcases run_ensureUnitWantedAtBoot tools hboot h with ⟨hafter, hw⟩ | ⟨hafter, haccepted⟩
      · rw [hafter]
        refine .kept (hactive.mono (List.subset_append_left ..)) ?_
        rw [enableAccepted_append_inert hinert]
        exact hw.imp_left fun hw => hw.mono (List.subset_append_right ..)
      · rw [hafter]
        exact .wanted (hactive.mono (List.subset_append_left ..)) (haccepted.mono (List.subset_append_right ..))
    | error e =>
      refine .append_inert hinert ?_
      obtain ⟨es₉, enabled, es₁₀, rfl, henabled, h₁₀⟩ := run_bind.mp henable
      cases enabled with
      | error e' =>
        obtain ⟨rfl, rfl⟩ := run_pure.mp h₁₀
        cases (run_pure.mp h₈).2
      | ok u =>
        obtain ⟨rfl, rfl⟩ := run_pure.mp h₁₀
        obtain ⟨rfl, _⟩ := run_pure.mp h₈
        rw [List.append_nil, List.append_nil]
        obtain ⟨hafter, haccepted⟩ := run_enable tools henabled h
        rw [hafter]
        exact .turnedOn haccepted

/-- Nothing had to be turned on: the firewall was enforcing, and its unit was wanted at boot
or systemd would not have it. -/
def AlreadyOn (h : Host R) (b : Backend) (es : List Exchange) : Prop :=
  (b = .nftables ∨ h.enforcing b = true) ∧
    (h.wanted b.systemdUnit = true ∨ ¬ EnableAccepted b.systemdUnit es)

theorem EnableOutcome.eq_of_alreadyOn {h h' : Host R} {b : Backend} {es : List Exchange} (ho : EnableOutcome tools h b es h')
    (hon : AlreadyOn h b es) : h' = h := by
  have hwanted : EnableAccepted b.systemdUnit es → h.wanted b.systemdUnit = true :=
    fun haccepted => hon.2.resolve_right fun hn => hn haccepted
  cases ho with
  | kept => rfl
  | wanted _ haccepted => exact Host.want_eq_self.mpr (hwanted haccepted)
  | turnedOn haccepted =>
    rw [Host.switchOn_eq_self.mpr hon.1]
    exact Host.want_eq_self.mpr (hwanted haccepted)

/-- Where the backend and its unit are as they were, nothing had to be turned on. -/
theorem EnableOutcome.alreadyOn {h h' : Host R} {b : Backend} {es : List Exchange} (ho : EnableOutcome tools h b es h')
    (htrue : Truthful h es) (henforcing : h'.enforcing b = h.enforcing b)
    (hwanted : h'.wanted b.systemdUnit = h.wanted b.systemdUnit) : AlreadyOn h b es := by
  cases ho with
  | kept hactive hw => exact ⟨.inr (htrue.active b hactive), hw.imp_left (htrue.wanted _)⟩
  | wanted hactive _ =>
    rw [Host.wanted_want] at hwanted
    exact ⟨.inr (htrue.active b hactive), .inl hwanted.symm⟩
  | turnedOn _ =>
    rw [Host.wanted_want] at hwanted
    refine ⟨?_, .inl hwanted.symm⟩
    by_cases hb : b = .nftables
    · exact .inl hb
    · right
      rw [← henforcing, Host.switchOn, if_neg hb]
      exact Host.enforcing_turnOn tools b h

/-! ## The rules -/

/-- The apply stops before anything of a ruleset is installed. -/
def ApplyError.isRefusal : ApplyError → Bool
  | .ruleset _ => true
  | .rules (.render _ _ _) => true
  | .rules (.check _) => true
  | _ => false

/-- What a refused rules phase asked: nothing, for a scratch file it did not get, or for a dry run. -/
inductive RefusedRules (rules : List Rule) : ApplyError → List Exchange → Prop where
  | ruleset (refusal : RulesetRefusal) : RefusedRules rules (.ruleset refusal) []
  | render (rule : Rule) (source reason : Chars) : RefusedRules rules (.rules (.render rule source reason)) []
  | notWritten (ruleset e : Chars) :
      RefusedRules rules (.rules (.check (.notWritten e))) [⟨.writeFile nftablesCheckPath ruleset, .error e⟩]
  | dryRun {problem : CheckProblem} {ruleset : Chars} (hp : ∀ e, problem ≠ .notWritten e)
      (hr : renderRuleset rules = .ok ruleset) (checked removed : Except Chars CommandOutput) :
      RefusedRules rules (.rules (.check problem)) [⟨.writeFile nftablesCheckPath ruleset, .ok ()⟩,
        ⟨.execute "nft" ["--check", "--file", nftablesCheckPath], checked⟩,
        ⟨.execute "rm" ["-f", nftablesCheckPath], removed⟩]

theorem run_refuseARuleset {rules : List Rule} {ruleset : Chars} (hrender : renderRuleset rules = .ok ruleset)
    {es : List Exchange} {e : RulesError} (hr : Run (refuseARulesetNftWillNotParse ruleset) es (.error e)) :
    RefusedRules rules (.rules e) es := by
  obtain ⟨written, es₁, rfl, h₁⟩ := run_writeFile.mp hr
  cases written with
  | error e =>
    obtain ⟨rfl, heq⟩ := run_pure.mp h₁
    cases heq
    exact .notWritten ruleset e
  | ok u =>
    obtain ⟨checked, es₂, rfl, h₂⟩ := run_execute.mp h₁
    obtain ⟨removed, es₃, rfl, h₃⟩ := run_execute.mp h₂
    cases checked with
    | error e =>
      obtain ⟨rfl, heq⟩ := run_pure.mp h₃
      cases heq
      exact .dryRun (fun e h => by cases h) hrender ..
    | ok output =>
      dsimp only at h₃
      split at h₃
      · cases (run_pure.mp h₃).2
      · obtain ⟨rfl, heq⟩ := run_pure.mp h₃
        cases heq
        exact .dryRun (fun e h => by cases h) hrender ..

/-- An error that is no refusal. -/
def RulesError.IsFailed : RulesError → Prop
  | .failed _ => True
  | _ => False

def IsFailed {α : Type} : Except RulesError α → Prop
  | .error e => e.IsFailed
  | .ok _ => True

theorem returns_makeDirectories (dirs : List Chars) : Returns IsFailed (makeDirectories dirs) := by
  induction dirs with
  | nil => trivial
  | cons d dirs ih =>
    refine Returns.bind_any fun r => ?_
    cases r with
    | error e => trivial
    | ok output => exact ih

theorem returns_ensureIncludeLine (bootPath : Chars) : Returns IsFailed (ensureIncludeLine bootPath) := by
  refine Returns.bind_any fun existing => ?_
  cases existing with
  | error e => trivial
  | ok existing =>
    dsimp only
    split
    · trivial
    · refine Returns.bind_any fun r => ?_
      cases r <;> trivial

theorem returns_executeNftFromString (ruleset : Chars) : Returns IsFailed (executeNftFromString ruleset) := by
  refine Returns.bind_any fun written => ?_
  cases written with
  | error e => trivial
  | ok u =>
    refine Returns.bind_any fun loaded => Returns.bind_any fun removed => ?_
    cases loaded <;> trivial

theorem returns_installRuleset (bootPath ruleset : Chars) : Returns IsFailed (installRuleset bootPath ruleset) := by
  refine (returns_makeDirectories _).bind fun r hr => ?_
  cases r with
  | error e => exact hr
  | ok u =>
    refine Returns.bind_any fun written => ?_
    cases written with
    | error e => trivial
    | ok u =>
      refine (returns_ensureIncludeLine bootPath).bind fun r hr => ?_
      cases r with
      | error e => exact hr
      | ok u =>
        refine Returns.bind_any fun loaded => ?_
        cases loaded <;> trivial

theorem returns_install (rules : List Rule) (ruleset : Chars) : Returns IsFailed (Nftables.install rules ruleset) := by
  refine Returns.bind_any fun existing => Returns.bind_any fun probed => ?_
  cases probed.loads with
  | error why =>
    refine (returns_executeNftFromString ruleset).bind fun r hr => ?_
    cases r with
    | error e => exact hr
    | ok u => trivial
  | ok bootPath =>
    refine (returns_installRuleset bootPath ruleset).bind fun r hr => ?_
    cases r with
    | error e => exact hr
    | ok u => trivial

theorem renderRuleset_error {rules : List Rule} {e : RulesError} (h : renderRuleset rules = .error e) :
    ∃ rule source reason, e = .render rule source reason := by
  have hrule : ∀ rule e, renderRule rule = .error e → ∃ source reason, e = .render rule source reason := by
    intro rule e hr
    unfold renderRule at hr
    dsimp only at hr
    split at hr
    · cases hr
    · split at hr
      · cases hr
      · cases hr
        exact ⟨_, _, rfl⟩
  have hmap : ∀ (rules : List Rule) e, rules.mapM renderRule = .error e → ∃ rule source reason, e = .render rule source reason := by
    intro rules
    induction rules with
    | nil =>
      intro e he
      cases he
    | cons rule rules ih =>
      intro e he
      rw [List.mapM_cons] at he
      cases hrr : renderRule rule with
      | error e' =>
        rw [hrr] at he
        cases he
        obtain ⟨source, reason, rfl⟩ := hrule rule _ hrr
        exact ⟨rule, source, reason, rfl⟩
      | ok line =>
        rw [hrr] at he
        cases hrest : rules.mapM renderRule with
        | error e' =>
          rw [hrest] at he
          cases he
          exact ih _ hrest
        | ok rest =>
          rw [hrest] at he
          cases he
  unfold renderRuleset at h
  cases hm : rules.mapM renderRule with
  | error e' =>
    rw [hm] at h
    cases h
    exact hmap rules _ hm
  | ok statements =>
    rw [hm] at h
    cases h

/-- A backend that refuses the rules has done no more than a dry run. -/
theorem run_applyRules_refused {b : Backend} {rules : List Rule} {es : List Exchange} {e : RulesError}
    (hr : Run (b.applyRules rules) es (.error e)) (hrefused : (ApplyError.rules e).isRefusal = true) :
    RefusedRules rules (.rules e) es := by
  have hne : ¬ e.IsFailed := by
    intro h
    cases e with
    | failed text => cases hrefused
    | render rule source reason => cases h
    | check problem => cases h
  cases b with
  | firewalld =>
    have hfailed : Returns IsFailed (Firewalld.applyRules rules) := by
      refine Returns.bind_any fun zone => ?_
      cases zone with
      | error e => trivial
      | ok zone =>
        refine Returns.bind_any fun ports => Returns.bind_any fun target => Returns.bind_any fun changes => ?_
        dsimp only
        split
        · trivial
        · refine Returns.bind_any fun r => ?_
          cases r <;> trivial
    exact absurd (hfailed.of_run hr) hne
  | ufw =>
    have hok : Returns IsFailed (Ufw.applyRules rules) :=
      Returns.bind_any fun deny => Returns.bind_any fun changes => trivial
    exact absurd (hok.of_run hr) hne
  | nftables =>
    replace hr : Run (Nftables.applyRules rules) es (.error e) := hr
    unfold Nftables.applyRules at hr
    cases hrender : renderRuleset rules with
    | error e' =>
      rw [hrender] at hr
      obtain ⟨rfl, heq⟩ := run_pure.mp hr
      cases heq
      obtain ⟨rule, source, reason, rfl⟩ := renderRuleset_error hrender
      exact .render rule source reason
    | ok ruleset =>
      rw [hrender] at hr
      obtain ⟨es₁, r, es₂, rfl, h₁, h₂⟩ := run_bind.mp hr
      cases r with
      | error e' =>
        obtain ⟨rfl, heq⟩ := run_pure.mp h₂
        cases heq
        rw [List.append_nil]
        exact run_refuseARuleset hrender h₁
      | ok u => exact absurd ((returns_install rules ruleset).of_run h₂) hne

theorem run_rulesPhase_refused {ctx : Context} {config : PluginConfig} {b : Backend} {changes : List Change}
    {id : Option Chars} {es : List Exchange} {result : ApplyResult} {e : ApplyError}
    (hr : Run (rulesPhase ctx config b changes id) es result) (he : result.error = some e) (hrefused : e.isRefusal = true) :
    RefusedRules (buildRules config).1 e es := by
  unfold rulesPhase at hr
  dsimp only at hr
  split at hr
  · obtain ⟨rfl, rfl⟩ := run_pure.mp hr
    cases he
    exact .ruleset _
  · obtain ⟨es₁, r, es₂, rfl, h₁, h₂⟩ := run_bind.mp hr
    cases r with
    | error e' =>
      obtain ⟨rfl, rfl⟩ := run_pure.mp h₂
      cases he
      rw [List.append_nil]
      exact run_applyRules_refused h₁ hrefused
    | ok backendChanges =>
      obtain ⟨rfl, rfl⟩ := run_pure.mp h₂
      cases he

/-! ## The apply -/

/-- What the enablement may ask: nothing that touches a file by itself. -/
def IsEnabling (q : Query) : Prop :=
  Inert q ∨ q = .execute "systemctl" ["start", "firewalld"] ∨ q = .execute "ufw" ["--force", "enable"] ∨
    ∃ unit, q = .execute "systemctl" ["enable", unit]

theorem asks_systemctlEnable (unit failed : Chars) : Asks IsEnabling (systemctlEnable unit failed) := by
  refine Asks.bind (asks_ask (.inr (.inr (.inr ⟨unit, rfl⟩)))) fun r => ?_
  cases r with
  | error e => trivial
  | ok output => dsimp only; split <;> trivial

theorem asks_enable (b : Backend) : Asks IsEnabling b.enable := by
  cases b with
  | firewalld =>
    refine Asks.bind (asks_ask (.inr (.inl rfl))) fun r => ?_
    cases r with
    | error e => trivial
    | ok output =>
      dsimp only
      split
      · trivial
      · exact asks_systemctlEnable _ _
  | ufw =>
    refine Asks.bind (asks_outputOf (.inr (.inr (.inl rfl)))) fun r => ?_
    cases r with
    | error e => trivial
    | ok stdout =>
      dsimp only
      split
      · trivial
      · exact asks_systemctlEnable _ _
  | nftables => exact asks_systemctlEnable _ _

theorem asks_ensureUnitWantedAtBoot (unit : Chars) : Asks IsEnabling (ensureUnitWantedAtBoot unit) := by
  refine ((asks_unitBootPersistence unit).mono fun _ h => .inl h).bind fun persistence => ?_
  split
  · trivial
  · refine Asks.bind (asks_ask (.inr (.inr (.inr ⟨unit, rfl⟩)))) fun r => ?_
    cases r with
    | error e => trivial
    | ok output => dsimp only; split <;> trivial

theorem asks_enablePhase (ctx : Context) (b : Backend) : Asks IsEnabling (enablePhase ctx b) := by
  refine ((asks_checkpointPaths b).mono fun _ h => .inl h).bind fun paths => ?_
  refine ((asks_createCheckpointForApply (P := Inert) ctx trivial).mono fun _ h => .inl h).bind fun checkpoint => ?_
  cases checkpoint with
  | error e => trivial
  | ok id =>
    refine ((asks_isEnabled b).mono fun _ h => .inl h).bind fun answer => ?_
    dsimp only
    refine Asks.bind ?_ fun enableError => ?_
    · unfold enableIfOff
      split
      · trivial
      · refine (asks_enable b).bind fun r => ?_
        cases r <;> trivial
    · cases enableError with
      | some e => trivial
      | none =>
        dsimp only
        split
        · exact (asks_ensureUnitWantedAtBoot _).bind fun c => trivial
        · trivial

/-- An enablement that stops the apply is no refusal. -/
theorem returns_enablePhase (ctx : Context) (b : Backend) :
    Returns (fun r => ∀ result, r = .ok (.error result) → ∀ e, result.error = some e → e.isRefusal = false)
      (enablePhase ctx b) := by
  refine Returns.bind_any fun paths => Returns.bind_any fun checkpoint => ?_
  cases checkpoint with
  | error e =>
    rintro result ⟨⟩
  | ok id =>
    refine Returns.bind_any fun answer => Returns.bind_any fun enableError => ?_
    cases enableError with
    | some e =>
      rintro result ⟨⟩ e' ⟨⟩
      rfl
    | none =>
      dsimp only
      split
      · refine Returns.bind_any fun c => ?_
        rintro result ⟨⟩
      · rintro result ⟨⟩

/-- The scratch file of the dry run is removed again. -/
def ScratchRemoved (es : List Exchange) : Prop :=
  ∃ output : CommandOutput, ⟨.execute "rm" ["-f", nftablesCheckPath], .ok output⟩ ∈ es ∧ output.success = true

/-- No scratch file is left, and none that stood there is lost: where it is the dry run that
refuses, there was none and it is removed again, or it is left and there was one like it. -/
def ScratchKept (h : Host R) (config : PluginConfig) (es : List Exchange) : ApplyError → Prop
  | .rules (.check (.notWritten _)) => True
  | .rules (.check _) =>
    (ScratchRemoved es ∧ h.file nftablesCheckPath = none) ∨
      (¬ ScratchRemoved es ∧ ∃ ruleset, renderRuleset (buildRules config).1 = .ok ruleset ∧
        h.file nftablesCheckPath = some ruleset)
  | _ => True

theorem mem_dryRun_enable {unit ruleset : Chars} {checked removed : Except Chars CommandOutput} {output : CommandOutput} :
    (⟨.execute "systemctl" ["enable", unit], .ok output⟩ : Exchange) ∉
      ([⟨.writeFile nftablesCheckPath ruleset, .ok ()⟩, ⟨.execute "nft" ["--check", "--file", nftablesCheckPath], checked⟩,
        ⟨.execute "rm" ["-f", nftablesCheckPath], removed⟩] : List Exchange) := by
  intro h
  rcases List.mem_cons.mp h with h | h
  · cases h
  · rcases List.mem_cons.mp h with h | h
    · cases h
    · cases List.mem_singleton.mp h

/-- A refused rules phase asks for no enablement. -/
theorem RefusedRules.enableAccepted {rules : List Rule} {e : ApplyError} {es es' : List Exchange}
    (hes' : RefusedRules rules e es') (unit : Chars) : EnableAccepted unit (es ++ es') ↔ EnableAccepted unit es := by
  constructor
  · rintro ⟨output, hmem, hs⟩
    refine ⟨output, (List.mem_append.mp hmem).resolve_right fun hm => ?_, hs⟩
    cases hes' with
    | ruleset refusal => cases hm
    | render rule source reason => cases hm
    | notWritten ruleset e => cases List.mem_singleton.mp hm
    | dryRun hp hr checked removed => exact mem_dryRun_enable hm
  · intro h
    exact h.mono (List.subset_append_left ..)

variable (tools) in
/-- What a dry run leaves at the scratch path. -/
theorem after_dryRun {es : List Exchange} (hes : ∀ e ∈ es, IsEnabling e.query) (ruleset : Chars)
    (checked removed : Except Chars CommandOutput) (h : Host R) :
    let dryRun : List Exchange := [⟨.writeFile nftablesCheckPath ruleset, .ok ()⟩,
      ⟨.execute "nft" ["--check", "--file", nftablesCheckPath], checked⟩, ⟨.execute "rm" ["-f", nftablesCheckPath], removed⟩]
    (ScratchRemoved (es ++ dryRun) ∧ after (react tools) h dryRun = h.setFile nftablesCheckPath none) ∨
      (¬ ScratchRemoved (es ++ dryRun) ∧ after (react tools) h dryRun = h.setFile nftablesCheckPath (some ruleset)) := by
  intro dryRun
  have hprobe : Inert (.execute "nft" ["--check", "--file", nftablesCheckPath]) := by
    show isProbe _ _ = true
    rfl
  have hcheck : ∀ h' : Host R, react tools h' ⟨.execute "nft" ["--check", "--file", nftablesCheckPath], checked⟩ = h' :=
    fun h' => react_inert hprobe h'
  have hafter : after (react tools) h dryRun =
      react tools (h.setFile nftablesCheckPath (some ruleset)) ⟨.execute "rm" ["-f", nftablesCheckPath], removed⟩ := by
    rw [after_cons, after_cons, hcheck, after_cons, after_nil]
    rfl
  -- Only the last step can remove the file.
  have hremoved : ScratchRemoved (es ++ dryRun) ↔ ∃ output : CommandOutput, removed = .ok output ∧ output.success = true := by
    constructor
    · rintro ⟨output, hmem, hs⟩
      refine ⟨output, ?_, hs⟩
      rcases List.mem_append.mp hmem with hm | hm
      · rcases hes _ hm with hi | hi | hi | ⟨unit, hi⟩
        · cases hi
        · cases hi
        · cases hi
        · cases hi
      · rcases List.mem_cons.mp hm with hm | hm
        · cases hm
        · rcases List.mem_cons.mp hm with hm | hm
          · cases hm
          · cases List.mem_singleton.mp hm
            rfl
    · rintro ⟨output, rfl, hs⟩
      exact ⟨output, by simp [dryRun], hs⟩
  rw [hafter, hremoved]
  cases removed with
  | error e =>
    refine .inr ⟨?_, rfl⟩
    rintro ⟨output, he, _⟩
    cases he
  | ok output =>
    by_cases hs : output.success = true
    · refine .inl ⟨⟨output, rfl, hs⟩, ?_⟩
      rw [react, if_pos hs]
      exact Host.setFile_setFile ..
    · refine .inr ⟨?_, ?_⟩
      · rintro ⟨output', he, hs'⟩
        cases he
        exact hs hs'
      · rw [react, if_neg hs]

/-- A refused apply is an enablement that went through, and a refused rules phase. -/
theorem run_applyBackend_refused {ctx : Context} {config : PluginConfig} {b : Backend} {es : List Exchange}
    {result : ApplyResult} {e : ApplyError} (hr : Run (applyBackend ctx config b) es (.ok result))
    (he : result.error = some e) (hrefused : e.isRefusal = true) :
    ∃ es₁ es₂ changes id, es = es₁ ++ es₂ ∧ Run (enablePhase ctx b) es₁ (.ok (.ok (changes, id))) ∧
      RefusedRules (buildRules config).1 e es₂ := by
  obtain ⟨es₁, r, es₂, rfl, h₁, h₂⟩ := run_bind.mp hr
  cases r with
  | error e' => cases (run_pure.mp h₂).2
  | ok r =>
    cases r with
    | error result' =>
      obtain ⟨rfl, heq⟩ := run_pure.mp h₂
      cases heq
      rw [(returns_enablePhase ctx b).of_run h₁ result rfl e he] at hrefused
      cases hrefused
    | ok r =>
      obtain ⟨es₃, result', es₄, rfl, h₃, h₄⟩ := run_bind.mp h₂
      obtain ⟨rfl, heq⟩ := run_pure.mp h₄
      cases heq
      exact ⟨es₁, es₃, r.1, r.2, by rw [List.append_nil], h₁, run_rulesPhase_refused h₃ he hrefused⟩

/-- A refused apply leaves the host as it was exactly when nothing had to be turned on and no
scratch file is left or lost. -/
theorem refused_unchanged_iff {ctx : Context} {config : PluginConfig} {es : List Exchange} {result : ApplyResult}
    {e : ApplyError} {h : Host R} (hr : Run (applyPlugin ctx config) es (.ok result)) (he : result.error = some e)
    (hrefused : e.isRefusal = true) (htrue : Truthful h es) :
    ∃ b es₁ es₂, es = es₁ ++ es₂ ∧ Run detectBackend es₁ (.ok b) ∧
      (after (react tools) h es = h ↔ AlreadyOn h b es ∧ ScratchKept h config es e) := by
  obtain ⟨es₁, r, es₂, rfl, hdetect, happly⟩ := run_bind.mp hr
  cases r with
  | error e' =>
    obtain ⟨rfl, heq⟩ := run_pure.mp happly
    cases heq
    cases he
    cases hrefused
  | ok b =>
    refine ⟨b, es₁, es₂, rfl, hdetect, ?_⟩
    obtain ⟨es₃, es₄, changes, id, rfl, henable, hrules⟩ := run_applyBackend_refused happly he hrefused
    have hinert := asks_detectBackend.of_run hdetect
    have houtcome := (enablePhase_outcomes tools henable h).append_inert hinert
    have henabling : ∀ x ∈ es₁ ++ es₃, IsEnabling x.query := by
      intro x hx
      rcases List.mem_append.mp hx with hx | hx
      · exact .inl (hinert x hx)
      · exact (asks_enablePhase ctx b).of_run henable x hx
    have htrue' : Truthful h (es₁ ++ es₃) := by
      rw [← List.append_assoc] at htrue
      exact ⟨fun b hb => htrue.active b (hb.mono (List.subset_append_left ..)),
        fun unit hu => htrue.wanted unit (hu.mono (List.subset_append_left ..))⟩
    rw [← List.append_assoc, after_append, after_append, after_inert asks_detectBackend hdetect, AlreadyOn,
      hrules.enableAccepted, ← AlreadyOn]
    generalize after (react tools) h es₃ = h₁ at houtcome
    -- The rules phase touches nothing but the scratch file, so the two halves are judged apart.
    have split : ∀ content, h₁.setFile nftablesCheckPath content = h ↔
        AlreadyOn h b (es₁ ++ es₃) ∧ h.file nftablesCheckPath = content := by
      intro content
      constructor
      · intro heq
        have hon : AlreadyOn h b (es₁ ++ es₃) :=
          houtcome.alreadyOn htrue' (congrArg (fun h' => h'.enforcing b) heq)
            (congrArg (fun h' => h'.wanted b.systemdUnit) heq)
        rw [houtcome.eq_of_alreadyOn hon] at heq
        exact ⟨hon, Host.setFile_eq_self.mp heq⟩
      · rintro ⟨hon, hfile⟩
        rw [houtcome.eq_of_alreadyOn hon]
        exact Host.setFile_eq_self.mpr hfile
    have plain : h₁ = h ↔ AlreadyOn h b (es₁ ++ es₃) :=
      ⟨fun heq => houtcome.alreadyOn htrue' (by rw [heq]) (by rw [heq]), houtcome.eq_of_alreadyOn⟩
    cases hrules with
    | ruleset refusal => exact plain.trans (and_iff_left trivial).symm
    | render rule source reason => exact plain.trans (and_iff_left trivial).symm
    | notWritten ruleset e' => exact plain.trans (and_iff_left trivial).symm
    | @dryRun problem ruleset hp hrender checked removed =>
      have hkept : ∀ es : List Exchange, ScratchKept h config es (.rules (.check problem)) ↔
          (ScratchRemoved es ∧ h.file nftablesCheckPath = none) ∨
            (¬ ScratchRemoved es ∧ h.file nftablesCheckPath = some ruleset) := by
        intro es
        cases problem with
        | notWritten e' => exact absurd rfl (hp e')
        | notAsked e' => simp [ScratchKept, hrender]
        | notParsed stderr => simp [ScratchKept, hrender]
      rw [hkept]
      rcases after_dryRun tools henabling ruleset checked removed h₁ with ⟨hrm, hafter⟩ | ⟨hrm, hafter⟩
      · rw [hafter, split]
        exact and_congr_right fun _ => ⟨fun hf => .inl ⟨hrm, hf⟩, fun hk => hk.elim (·.2) fun hn => absurd hrm hn.1⟩
      · rw [hafter, split]
        exact and_congr_right fun _ => ⟨fun hf => .inr ⟨hrm, hf⟩, fun hk => hk.elim (fun hn => absurd hn.1 hrm) (·.2)⟩

/-! ## A host whose ufw is off -/

/-- The operator has excepted the rule that lets SSH in. -/
def withoutSsh : PluginConfig where
  directives _ := none
  exceptions key := if key = "ssh".toList then some ⟨"22/tcp", true, "console only", false⟩ else none

def ufwOff : Host Unit where
  enforcing _ := false
  wanted _ := false
  loaded := ()
  file _ := none

def noTools : Tools Unit where
  turnedOn _ h := h
  other _ _ h := h

def printed (stdout : Chars) : CommandOutput := ⟨stdout, [], 0⟩

/-- Only `ufw` is installed, and it does as it is told. -/
def ufwAnswers (_ : Host Unit) : (q : Query) → q.Answer
  | .execute program args =>
    if program = "sh".toList then .ok ⟨[], [], if args.getLast? = some "ufw".toList then 0 else 1⟩
    else if program = "ufw".toList ∧ args = ["status".toList] then .ok (printed "Status: inactive")
    else if program = "ufw".toList then .ok (printed "Firewall is active and enabled on system startup")
    else .ok (printed [])
  | .pathExists _ => .ok false
  | .metadata _ => .error "No such file or directory"
  | .readFile _ => .error "No such file or directory"
  | .readDir _ => .error "No such file or directory"
  | .writeFile _ _ => .ok ()
  | .checkpoint _ _ => .ok "1"

/-- The apply over SSH. -/
def ufwSession : List Exchange × Except Chars ApplyResult :=
  play ufwAnswers (react noTools) (applyPlugin ⟨true, true⟩ withoutSsh) ufwOff

theorem run_ufwSession :
    ∃ result, Run (applyPlugin ⟨true, true⟩ withoutSsh) ufwSession.1 (.ok result) ∧
      result.error = some (.ruleset .seversSession) := by
  have hrun : Run (applyPlugin ⟨true, true⟩ withoutSsh) ufwSession.1 ufwSession.2 := run_play ..
  have herror : ufwSession.2.toOption.bind ApplyResult.error = some (.ruleset .seversSession) := by decide +kernel
  cases hs : ufwSession.2 with
  | error e =>
    rw [hs] at herror
    cases herror
  | ok result =>
    rw [hs] at hrun herror
    exact ⟨result, hrun, herror⟩

/-- No probe of the run answered yes. -/
def saysNo : Exchange → Bool
  | ⟨.execute program args, .ok output⟩ =>
    [Backend.firewalld, .ufw, .nftables].all (fun b =>
        !(program == b.command && args == b.statusArgs && b.reportsActive output.stdout)) &&
      LineText.trim output.stdout != "enabled".toList
  | _ => true

theorem truthful_ufwSession : Truthful ufwOff ufwSession.1 := by
  have hno : ufwSession.1.all saysNo = true := by decide +kernel
  rw [List.all_eq_true] at hno
  constructor
  · rintro b ⟨output, hmem, _, hactive⟩
    have hsays := hno _ hmem
    rw [saysNo, Bool.and_eq_true, List.all_eq_true] at hsays
    have hb := hsays.1 b (by cases b <;> simp)
    simp [hactive] at hb
  · rintro unit ⟨output, hmem, henabled⟩
    have hsays := hno _ hmem
    simp [saysNo, henabled] at hsays

theorem refused_unchanged_iff_ufw :
    ∃ b es₁ es₂, ufwSession.1 = es₁ ++ es₂ ∧ Run detectBackend es₁ (.ok b) ∧
      (after (react noTools) ufwOff ufwSession.1 = ufwOff ↔
        AlreadyOn ufwOff b ufwSession.1 ∧ ScratchKept ufwOff withoutSsh ufwSession.1 (.ruleset .seversSession)) := by
  obtain ⟨result, hrun, herror⟩ := run_ufwSession
  exact refused_unchanged_iff hrun herror rfl truthful_ufwSession

/-- The apply is refused, and has turned ufw on. -/
theorem refused_turns_ufw_on :
    ¬ ∀ (R : Type) (tools : Tools R) (ctx : Context) (config : PluginConfig) (es : List Exchange) (result : ApplyResult)
      (e : ApplyError) (h : Host R), Run (applyPlugin ctx config) es (.ok result) → result.error = some e →
      e.isRefusal = true → Truthful h es → after (react tools) h es = h := by
  intro hclaim
  obtain ⟨result, hrun, herror⟩ := run_ufwSession
  have heq := hclaim Unit noTools _ _ _ result _ ufwOff hrun herror rfl truthful_ufwSession
  have hon : (after (react noTools) ufwOff ufwSession.1).enforcing .ufw = true := by decide +kernel
  rw [heq] at hon
  cases hon

end LinuxHardener.Firewall
