import LinuxHardener.Audit.Apply

/-
  Whether the audit apply converges to the kernel.

  A host is what stands at the rules path, what the kernel has loaded and whether its
  configuration is locked. An exchange may do anything to it that `Answered` allows: a
  write that succeeded wrote, a load that reported success loaded the rules of the file,
  a failed one may have loaded or dropped anything.

  What is proved:
    1. `inForce_evolves` — the step invariant: where the last write was followed by a load
       that succeeded, with no flush or restart since (`settle`), the file's rules are loaded.
    2. `reloads_of_success`, `rulesPhase_of_success` — what a success rests on.
    3. `apply_converges` — the run result.
-/
namespace LinuxHardener.Audit

open LineText Plugins Dialogue
open Core (ApplyResult)

structure AuditHost where
  file : Option Chars
  loaded : Chars → Prop
  immutable : Prop

/-- The rules of the file are loaded. -/
def AuditHost.InForce (h : AuditHost) : Prop := ∀ content, h.file = some content → ∀ rule ∈ liveLines content, h.loaded rule

def loadSucceeded : Except Chars CommandOutput → Bool
  | .ok output => output.success
  | .error _ => false

/-- The answer of `auditctl -s` on a locked configuration. -/
def saysImmutable : Except Chars CommandOutput → Bool
  | .error _ => false
  | .ok output => output.success && (lines output.stdout).any fun line => words line == ["enabled".toList, "2".toList]

def isLoad (program : Chars) : Bool := program == "augenrules".toList

/-- The commands, loads apart, after which nothing is known of what is loaded. -/
def unsettles (program : Chars) (args : List Chars) : Bool :=
  (program == "auditctl".toList && args == ["-D".toList]) ||
    (program == "systemctl".toList && args == ["restart".toList, "auditd".toList])

/-- What an exchange may make of a host. -/
def Answered (h : AuditHost) : Exchange → AuditHost → Prop
  | ⟨.writeFile path content, answer⟩, h' =>
    h'.loaded = h.loaded ∧ h'.immutable = h.immutable ∧ (path ≠ auditRulesPath → h'.file = h.file) ∧
      (path = auditRulesPath → answer = .ok () → h'.file = some content)
  | ⟨.readFile path, answer⟩, h' => h' = h ∧ ∀ content, path = auditRulesPath → answer = .ok content → h.file = some content
  | ⟨.execute program args, answer⟩, h' =>
    h'.file = h.file ∧
      (isLoad program = true → loadSucceeded answer = true → h'.InForce) ∧
      (isLoad program = false → unsettles program args = false → ∀ rule, h.loaded rule → h'.loaded rule) ∧
      (program = "auditctl".toList → args = ["-s".toList] → saysImmutable answer = true → h'.immutable)
  | _, h' => h' = h

/-- A host while a list of exchanges goes on. -/
inductive Evolves : AuditHost → List Exchange → AuditHost → Prop where
  | nil {h : AuditHost} : Evolves h [] h
  | cons {h h₁ h₂ : AuditHost} {e : Exchange} {es : List Exchange} (hstep : Answered h e h₁) (hrest : Evolves h₁ es h₂) :
      Evolves h (e :: es) h₂

theorem evolves_append {es₁ es₂ : List Exchange} {h h' : AuditHost} :
    Evolves h (es₁ ++ es₂) h' ↔ ∃ m, Evolves h es₁ m ∧ Evolves m es₂ h' := by
  induction es₁ generalizing h with
  | nil =>
    constructor
    · intro hes
      exact ⟨h, .nil, hes⟩
    · rintro ⟨m, ⟨⟩, hes⟩
      exact hes
  | cons e es₁ ih =>
    constructor
    · rintro ⟨⟩
      next m hstep hrest =>
        obtain ⟨m', h₁, h₂⟩ := ih.mp hrest
        exact ⟨m', .cons hstep h₁, h₂⟩
    · rintro ⟨m, ⟨⟩, hes⟩
      next m' hstep hrest => exact .cons hstep (ih.mpr ⟨m, hrest, hes⟩)

theorem evolves_singleton {e : Exchange} {h h' : AuditHost} : Evolves h [e] h' ↔ Answered h e h' := by
  constructor
  · rintro ⟨⟩
    next m hstep hrest =>
      cases hrest
      exact hstep
  · intro hstep
    exact .cons hstep .nil

/-! ## When the file's rules are known to be loaded -/

/-- The last write of the file was followed by a load that succeeded, and nothing since has
flushed or restarted. -/
def settle (settled : Bool) : Exchange → Bool
  | ⟨.writeFile path _, _⟩ => settled && path != auditRulesPath
  | ⟨.execute program args, answer⟩ =>
    if isLoad program then loadSucceeded answer else settled && !unsettles program args
  | _ => settled

/-- One exchange keeps the rules of a settled file loaded. -/
theorem inForce_answered {settled : Bool} {e : Exchange} {h h' : AuditHost} (hinv : settled = true → h.InForce)
    (hstep : Answered h e h') : settle settled e = true → h'.InForce := by
  obtain ⟨q, r⟩ := e
  intro hs
  cases q with
  | execute program args =>
    obtain ⟨hfile, hload, hkeep, _⟩ := hstep
    rw [settle] at hs
    cases hl : isLoad program with
    | true =>
      rw [hl, if_pos rfl] at hs
      exact hload hl hs
    | false =>
      rw [hl, if_neg Bool.false_ne_true, Bool.and_eq_true, Bool.not_eq_true'] at hs
      intro content hcontent rule hrule
      rw [hfile] at hcontent
      exact hkeep hl hs.2 rule (hinv hs.1 content hcontent rule hrule)
  | writeFile path content =>
    obtain ⟨hloaded, _, hfile, _⟩ := hstep
    rw [settle, Bool.and_eq_true] at hs
    have hpath : path ≠ auditRulesPath := by simpa using hs.2
    intro content hcontent rule hrule
    rw [hfile hpath] at hcontent
    rw [hloaded]
    exact hinv hs.1 content hcontent rule hrule
  | readFile path =>
    obtain ⟨rfl, _⟩ := hstep
    exact hinv hs
  | pathExists path =>
    obtain rfl := hstep
    exact hinv hs
  | metadata path =>
    obtain rfl := hstep
    exact hinv hs
  | readDir path =>
    obtain rfl := hstep
    exact hinv hs
  | checkpoint name paths =>
    obtain rfl := hstep
    exact hinv hs

theorem inForce_evolves {settled : Bool} {es : List Exchange} {h h' : AuditHost} (hinv : settled = true → h.InForce)
    (hes : Evolves h es h') : es.foldl settle settled = true → h'.InForce := by
  induction hes generalizing settled with
  | nil => exact hinv
  | cons hstep _ ih => exact ih (inForce_answered hinv hstep)

/-- A question that neither writes nor loads nor flushes nor restarts. -/
def Quiet : Query → Prop
  | .writeFile _ _ => False
  | .execute program args => isLoad program = false ∧ unsettles program args = false
  | _ => True

/-- A question that writes nothing. -/
def WritesNothing : Query → Prop
  | .writeFile _ _ => False
  | _ => True

theorem Quiet.writesNothing {q : Query} (h : Quiet q) : WritesNothing q := by
  cases q <;> trivial

theorem settle_quiet {settled : Bool} {es : List Exchange} (h : ∀ e ∈ es, Quiet e.query) : es.foldl settle settled = settled := by
  induction es with
  | nil => rfl
  | cons e es ih =>
    have hone : settle settled e = settled := by
      have he := h e List.mem_cons_self
      obtain ⟨q, r⟩ := e
      cases q with
      | writeFile path content => exact he.elim
      | execute program args =>
        obtain ⟨hload, hunsettles⟩ := he
        simp [settle, hload, hunsettles]
      | _ => rfl
    rw [List.foldl_cons, hone]
    exact ih fun e' he' => h e' (List.mem_cons_of_mem _ he')

theorem file_evolves {es : List Exchange} {h h' : AuditHost} (hes : Evolves h es h') (hwrites : ∀ e ∈ es, WritesNothing e.query) :
    h'.file = h.file := by
  induction hes with
  | nil => rfl
  | @cons h h₁ h₂ e es hstep _ ih =>
    rw [ih fun e' he' => hwrites e' (List.mem_cons_of_mem _ he')]
    have he := hwrites e List.mem_cons_self
    obtain ⟨q, r⟩ := e
    cases q with
    | writeFile path content => exact he.elim
    | execute program args => exact hstep.1
    | readFile path => rw [hstep.1]
    | pathExists path => rw [show h₁ = h from hstep]
    | metadata path => rw [show h₁ = h from hstep]
    | readDir path => rw [show h₁ = h from hstep]
    | checkpoint name paths => rw [show h₁ = h from hstep]

/-! ## What a success of the reload rests on -/

/-- augenrules reported a load. -/
def LoadReported (e : Exchange) : Prop :=
  ∃ answer, e = ⟨.execute "augenrules" ["--load"], answer⟩ ∧ loadSucceeded answer = true

/-- systemd reported a restart. -/
def RestartReported (e : Exchange) : Prop :=
  ∃ answer, e = ⟨.execute "systemctl" ["restart", "auditd"], answer⟩ ∧ loadSucceeded answer = true

/-- auditctl reported a locked configuration. -/
def LockReported (e : Exchange) : Prop :=
  ∃ answer, e = ⟨.execute "auditctl" ["-s"], answer⟩ ∧ saysImmutable answer = true

/-- The exchanges write nothing, and the last of them is of one kind. -/
def EndsIn (P : Exchange → Prop) (es : List Exchange) : Prop :=
  ∃ pre e, es = pre ++ [e] ∧ (∀ x ∈ pre, WritesNothing x.query) ∧ P e

theorem EndsIn.singleton {P : Exchange → Prop} {e : Exchange} (h : P e) : EndsIn P [e] :=
  ⟨[], e, rfl, by simp, h⟩

theorem EndsIn.append {P : Exchange → Prop} {es₁ es₂ : List Exchange} (h₁ : ∀ x ∈ es₁, WritesNothing x.query) (h : EndsIn P es₂) :
    EndsIn P (es₁ ++ es₂) := by
  obtain ⟨pre, e, rfl, hpre, he⟩ := h
  refine ⟨es₁ ++ pre, e, (List.append_assoc ..).symm, ?_, he⟩
  intro x hx
  rcases List.mem_append.mp hx with hx | hx
  · exact h₁ x hx
  · exact hpre x hx

theorem EndsIn.cons {P : Exchange → Prop} {e : Exchange} {es : List Exchange} (he : WritesNothing e.query) (h : EndsIn P es) :
    EndsIn P (e :: es) := by
  rw [← List.singleton_append]
  refine EndsIn.append ?_ h
  intro x hx
  rw [List.mem_singleton.mp hx]
  exact he

theorem EndsIn.mono {P Q : Exchange → Prop} {es : List Exchange} (h : EndsIn P es) (hPQ : ∀ e, P e → Q e) : EndsIn Q es := by
  obtain ⟨pre, e, hes, hpre, he⟩ := h
  exact ⟨pre, e, hes, hpre, hPQ e he⟩

theorem run_restartAuditd {flushed : Bool} {es : List Exchange} (hrun : Run (restartAuditd flushed) es (.ok ())) :
    EndsIn RestartReported es := by
  obtain ⟨r, es', rfl, h⟩ := run_execute.mp hrun
  cases r with
  | error e => cases (run_pure.mp h).2
  | ok output =>
    dsimp only at h
    split at h
    · next hs =>
      obtain ⟨rfl, _⟩ := run_pure.mp h
      exact .singleton ⟨_, rfl, hs⟩
    · cases (run_pure.mp h).2

/-- What a reload that succeeded ends in. -/
def Reported (e : Exchange) : Prop := LoadReported e ∨ RestartReported e

theorem run_restart {flushed : Bool} {es : List Exchange} (hrun : Run (restartAuditd flushed) es (.ok ())) : EndsIn Reported es :=
  (run_restartAuditd hrun).mono fun _ => .inr

theorem run_retryFlushed {es : List Exchange} (hrun : Run retryFlushed es (.ok ())) : EndsIn Reported es := by
  obtain ⟨flush, es₁, rfl, hload⟩ := run_execute.mp hrun
  obtain ⟨r, es₂, rfl, h⟩ := run_execute.mp hload
  refine .cons trivial ?_
  cases r with
  | error e => cases (run_pure.mp h).2
  | ok output =>
    dsimp only at h
    split at h
    · next hs =>
      obtain ⟨rfl, _⟩ := run_pure.mp h
      exact .singleton (.inl ⟨_, rfl, hs⟩)
    · exact .cons trivial (run_restart h)

theorem run_reloadAuditRules {es : List Exchange} (hrun : Run reloadAuditRules es (.ok ())) : EndsIn Reported es := by
  obtain ⟨es₁, found, es₂, rfl, hfound, hrest⟩ := run_bind.mp hrun
  apply EndsIn.append ((asks_commandExists (P := WritesNothing) trivial).of_run hfound)
  rcases found with e | (_ | _)
  · exact run_restart hrest
  · exact run_restart hrest
  · obtain ⟨r, es₃, rfl, h⟩ := run_execute.mp hrest
    cases r with
    | error e => cases (run_pure.mp h).2
    | ok output =>
      dsimp only at h
      split at h
      · next hs =>
        obtain ⟨rfl, _⟩ := run_pure.mp h
        exact .singleton (.inl ⟨_, rfl, hs⟩)
      · refine .cons trivial ?_
        split at h
        · exact run_retryFlushed h
        · exact run_restart h

theorem asks_reloadAuditRules : Asks WritesNothing reloadAuditRules := by
  have hrestart : ∀ flushed, Asks WritesNothing (restartAuditd flushed) := by
    intro flushed
    refine Asks.bind (asks_ask trivial) fun r => ?_
    cases r with
    | error e => trivial
    | ok output => dsimp only; split <;> trivial
  refine Asks.bind (asks_commandExists trivial) fun found => ?_
  rcases found with e | (_ | _)
  · exact hrestart false
  · exact hrestart false
  · refine Asks.bind (asks_ask trivial) fun r => ?_
    cases r with
    | error e => trivial
    | ok output =>
      dsimp only
      split
      · trivial
      · split
        · refine Asks.bind (asks_ask trivial) fun _ => Asks.bind (asks_ask trivial) fun retry => ?_
          cases retry with
          | error e => trivial
          | ok output => dsimp only; split <;> first | trivial | exact hrestart true
        · exact hrestart false

/-- A reload that is reported as done ends in a load, in a restart, or in a locked
configuration. -/
theorem run_reloadPhase {es : List Exchange} {changes : List Change} (hrun : Run reloadPhase es changes)
    (hok : changes.all Change.success = true) : EndsIn (fun e => Reported e ∨ LockReported e) es := by
  obtain ⟨es₁, outcome, es₂, rfl, hreload, hrest⟩ := run_bind.mp hrun
  cases outcome with
  | ok u =>
    obtain ⟨rfl, _⟩ := run_pure.mp hrest
    rw [List.append_nil]
    exact (run_reloadAuditRules hreload).mono fun _ => .inl
  | error e =>
    apply EndsIn.append (asks_reloadAuditRules.of_run hreload)
    obtain ⟨es₃, immutable, es₄, rfl, hprobe, hchange⟩ := run_bind.mp hrest
    obtain ⟨rfl, rfl⟩ := run_pure.mp hchange
    rw [List.append_nil]
    cases immutable with
    | false => cases hok
    | true =>
      obtain ⟨r, es₅, rfl, h⟩ := run_execute.mp hprobe
      cases r with
      | error e => cases (run_pure.mp h).2
      | ok output =>
        obtain ⟨rfl, hsays⟩ := run_pure.mp h
        exact .singleton (.inr ⟨_, rfl, hsays⟩)

/-! ## What a success of the rules phase rests on -/

theorem asks_pruneTimestampedBackups {P : Query → Prop} (hdir : ∀ path, P (.readDir path)) (hrm : ∀ args, P (.execute "rm" args))
    (stem : Chars) (keep : Nat) : Asks P (pruneTimestampedBackups stem keep) := by
  unfold pruneTimestampedBackups
  split
  · trivial
  · refine Asks.bind (asks_ask (hdir _)) fun r => ?_
    cases r with
    | error e => trivial
    | ok entries =>
      dsimp only
      split
      · trivial
      · exact Asks.bind (asks_ask (hrm _)) fun _ => trivial

theorem quiet_rm (args : List Chars) : Quiet (.execute "rm" args) := by
  constructor
  · rfl
  · simp [unsettles]

theorem asks_backUpRulesFile (stamp : Chars) : Asks WritesNothing (backUpRulesFile stamp) := by
  have hcopy : Asks WritesNothing (execute "cp" ["-p", "--no-dereference", auditRulesPath, auditBackupStem ++ stamp]) := asks_ask trivial
  refine Asks.bind (asks_ask trivial) fun r => ?_
  split
  · trivial
  · refine hcopy.bind fun r => ?_
    cases r with
    | error e => trivial
    | ok output =>
      dsimp only
      split
      · exact Asks.bind (asks_pruneTimestampedBackups (fun _ => trivial) (fun _ => trivial) ..) fun _ => trivial
      · trivial

theorem asks_setAuditRulesMode : Asks Quiet setAuditRulesMode := by
  refine Asks.bind (asks_ask ⟨rfl, rfl⟩) fun r => ?_
  cases r with
  | error e => trivial
  | ok output => dsimp only; split <;> trivial

/-- A write that is reported as done wrote the file, and nothing was loaded or flushed after. -/
theorem run_writePhase {stamp content : Chars} {rulesDirError : Option Chars} {es : List Exchange} {changes : List Change}
    (hrun : Run (writePhase stamp content rulesDirError) es changes) (hok : changes.all Change.success = true) :
    ∃ pre post, es = pre ++ ⟨.writeFile auditRulesPath content, .ok ()⟩ :: post ∧ ∀ e ∈ post, Quiet e.query := by
  obtain ⟨es₁, outcome, es₂, rfl, hwrite, hmode⟩ := run_bind.mp hrun
  cases outcome with
  | error reason =>
    obtain ⟨_, rfl⟩ := run_pure.mp hmode
    cases hok
  | ok backup =>
    cases rulesDirError with
    | some reason => cases (run_pure.mp hwrite).2
    | none =>
      obtain ⟨es₃, copied, es₄, rfl, _, hfile⟩ := run_bind.mp hwrite
      cases copied with
      | error e => cases (run_pure.mp hfile).2
      | ok copy =>
        obtain ⟨r, es₅, rfl, hdone⟩ := run_writeFile.mp hfile
        cases r with
        | error e => cases (run_pure.mp hdone).2
        | ok u =>
          obtain ⟨rfl, _⟩ := run_pure.mp hdone
          refine ⟨es₃, es₂, by simp, ?_⟩
          obtain ⟨es₆, mode, es₇, rfl, hchmod, hlast⟩ := run_bind.mp hmode
          obtain ⟨rfl, _⟩ := run_pure.mp hlast
          rw [List.append_nil]
          exact asks_setAuditRulesMode.of_run hchmod

/-- What a success of the rules phase rests on: the file was found as wanted, or written and
the reload reported as done. -/
inductive RestsOn (content : Chars) : List Exchange → Prop where
  | found : RestsOn content [⟨.readFile auditRulesPath, .ok content⟩]
  | written {read : Exchange} {pre post reload : List Exchange} (hpost : ∀ e ∈ post, Quiet e.query)
      (hreload : EndsIn (fun e => Reported e ∨ LockReported e) reload) :
      RestsOn content (read :: (pre ++ ⟨.writeFile auditRulesPath content, .ok ()⟩ :: (post ++ reload)))

theorem run_writeAndReload {stamp content : Chars} {rulesDirError : Option Chars} {es : List Exchange} {changes : List Change}
    (hrun : Run (writeAndReload stamp content rulesDirError) es changes) (hok : changes.all Change.success = true)
    (read : Exchange) : RestsOn content (read :: es) := by
  obtain ⟨es₁, written, es₂, rfl, hwrite, hrest⟩ := run_bind.mp hrun
  obtain ⟨es₃, reloaded, es₄, rfl, hreload, hlast⟩ := run_bind.mp hrest
  obtain ⟨rfl, rfl⟩ := run_pure.mp hlast
  rw [List.all_append, Bool.and_eq_true] at hok
  obtain ⟨pre, post, rfl, hpost⟩ := run_writePhase hwrite hok.1
  rw [List.append_nil, List.append_assoc, List.cons_append]
  exact .written hpost (run_reloadPhase hreload hok.2)

theorem run_rulesPhase {config : PluginConfig} {stamp : Chars} {rulesDirError : Option Chars} {es : List Exchange}
    {changes : List Change} (hrun : Run (rulesPhase config stamp rulesDirError) es changes)
    (hok : changes.all Change.success = true) : RestsOn (renderedRulesFile config).1 es := by
  obtain ⟨r, es', rfl, hrest⟩ := run_ask.mp hrun
  cases r with
  | error e => exact run_writeAndReload hrest hok _
  | ok current =>
    change Run (if _ then _ else _) es' changes at hrest
    split at hrest
    · next heq =>
      obtain ⟨rfl, _⟩ := run_pure.mp hrest
      rw [heq]
      exact .found
    · exact run_writeAndReload hrest hok _

/-! ## What comes before the rules phase -/

theorem asks_probeAuditd : Asks Quiet probeAuditd := by
  refine (asks_commandExists ⟨rfl, rfl⟩).bind fun r => ?_
  rcases r with e | (_ | _) <;> trivial

theorem asks_askSystemctl {verb : Chars} (hverb : Quiet (.execute "systemctl" [verb, "auditd"])) (done failed error : Chars) :
    Asks Quiet (askSystemctl verb done failed error) := by
  refine Asks.bind (asks_ask hverb) fun r => ?_
  cases r <;> trivial

theorem asks_enablePhase : Asks Quiet enablePhase := by
  refine Asks.bind (Asks.bind (asks_ask ⟨rfl, rfl⟩) fun r => ?_) fun r => ?_
  · cases r <;> trivial
  · split
    · trivial
    · exact asks_askSystemctl ⟨rfl, rfl⟩ _ _ _

theorem asks_startPhase : Asks Quiet startPhase := by
  refine Asks.bind (Asks.bind (asks_ask ⟨rfl, rfl⟩) fun r => ?_) fun r => ?_
  · cases r <;> trivial
  · split
    · trivial
    · exact asks_askSystemctl ⟨rfl, rfl⟩ _ _ _

/-- Exchanges that are quiet, then a rules phase that succeeded. -/
def Succeeded (content : Chars) (es : List Exchange) : Prop :=
  ∃ before rules, es = before ++ rules ∧ (∀ e ∈ before, Quiet e.query) ∧ RestsOn content rules

theorem Succeeded.after {content : Chars} {es₁ es₂ : List Exchange} (hquiet : ∀ e ∈ es₁, Quiet e.query)
    (h : Succeeded content es₂) : Succeeded content (es₁ ++ es₂) := by
  obtain ⟨before, rules, rfl, hbefore, hrules⟩ := h
  refine ⟨es₁ ++ before, rules, (List.append_assoc ..).symm, ?_, hrules⟩
  intro e he
  rcases List.mem_append.mp he with he | he
  · exact hquiet e he
  · exact hbefore e he

theorem run_changesPhase {config : PluginConfig} {stamp : Chars} {rulesDirError : Option Chars} {es : List Exchange}
    {changes : List Change} (hrun : Run (changesPhase config stamp rulesDirError) es changes)
    (hok : changes.all Change.success = true) : Succeeded (renderedRulesFile config).1 es := by
  obtain ⟨es₁, enabled, es₂, rfl, henable, hrest⟩ := run_bind.mp hrun
  obtain ⟨es₃, started, es₄, rfl, hstart, hrest'⟩ := run_bind.mp hrest
  obtain ⟨es₅, rules, es₆, rfl, hrules, hlast⟩ := run_bind.mp hrest'
  obtain ⟨rfl, rfl⟩ := run_pure.mp hlast
  rw [List.all_append, Bool.and_eq_true] at hok
  rw [List.append_nil]
  refine .after (asks_enablePhase.of_run henable) (.after (asks_startPhase.of_run hstart) ?_)
  exact ⟨[], es₅, rfl, by simp, run_rulesPhase hrules hok.2⟩

theorem run_applyInstalled {ctx : Context} {config : PluginConfig} {stamp : Chars} {es : List Exchange} {result : ApplyResult}
    (hrun : Run (applyInstalled ctx config stamp) es (.ok result)) (hok : result.success = true) :
    Succeeded (renderedRulesFile config).1 es := by
  obtain ⟨es₁, rulesDirError, es₂, rfl, hdir, hrest⟩ := run_bind.mp hrun
  obtain ⟨es₃, u, es₄, rfl, hprune, hrest'⟩ := run_bind.mp hrest
  obtain ⟨es₅, checkpoint, es₆, rfl, hcheckpoint, hchanges⟩ := run_bind.mp hrest'
  refine .after ((asks_ensureDirectory trivial ⟨rfl, rfl⟩).of_run hdir)
    (.after ((asks_pruneTimestampedBackups (fun _ => trivial) quiet_rm _ _).of_run hprune)
      (.after ((asks_createCheckpointForApply ctx trivial).of_run hcheckpoint) ?_))
  cases checkpoint with
  | error e => cases (run_pure.mp hchanges).2
  | ok id =>
    obtain ⟨es₇, changes, es₈, rfl, hrules, hlast⟩ := run_bind.mp hchanges
    obtain ⟨rfl, hresult⟩ := run_pure.mp hlast
    cases hresult
    rw [resultOf, List.all_append, Bool.and_eq_true] at hok
    rw [List.append_nil]
    exact run_changesPhase hrules hok.2

/-- A whole apply that reports success. -/
theorem run_applyPlugin {ctx : Context} {config : PluginConfig} {stamp : Chars} {es : List Exchange} {result : ApplyResult}
    (hrun : Run (applyPlugin ctx config stamp) es (.ok result)) (hok : result.success = true) :
    Succeeded (renderedRulesFile config).1 es := by
  obtain ⟨es₁, presence, es₂, rfl, hprobe, hrest⟩ := run_bind.mp hrun
  apply Succeeded.after (asks_probeAuditd.of_run hprobe)
  cases presence with
  | installed => exact run_applyInstalled hrest hok
  | absent =>
    cases (run_pure.mp hrest).2
    cases hok
  | indeterminate reason =>
    cases (run_pure.mp hrest).2
    cases hok

/-! ## Runs of applies -/

/-- One apply of a run: what it was given, what was asked and answered, how it ended. -/
structure Applied where
  ctx : Context
  config : PluginConfig
  stamp : Chars
  exchanges : List Exchange
  outcome : Except Chars ApplyResult

namespace Applied

def IsRun (a : Applied) : Prop := Run (applyPlugin a.ctx a.config a.stamp) a.exchanges a.outcome

def ReportsSuccess (a : Applied) : Prop := ∃ result, a.outcome = .ok result ∧ result.success = true

/-- The file wanted. -/
def content (a : Applied) : Chars := (renderedRulesFile a.config).1

/-- The apply finds the file as wanted only where it is settled, and rests on no restart. -/
def Sound (settled : Bool) (a : Applied) : Prop :=
  (⟨.readFile auditRulesPath, .ok a.content⟩ ∈ a.exchanges → settled = true) ∧ ∀ e ∈ a.exchanges, ¬ RestartReported e

end Applied

/-- Every apply of the run is sound for what the ones before it left settled. -/
def SoundRun : Bool → List Applied → Prop
  | _, [] => True
  | settled, a :: applies => a.Sound settled ∧ SoundRun (a.exchanges.foldl settle settled) applies

/-- After a rules phase that succeeded the rules wanted are loaded. -/
theorem loaded_of_restsOn {content : Chars} {es : List Exchange} {settled : Bool} {h h' : AuditHost} (hrests : RestsOn content es)
    (hes : Evolves h es h') (hinv : settled = true → h.InForce)
    (hfound : ⟨.readFile auditRulesPath, .ok content⟩ ∈ es → settled = true) (hrestart : ∀ e ∈ es, ¬ RestartReported e)
    (hmutable : ¬ h'.immutable) : ∀ rule ∈ liveLines content, h'.loaded rule := by
  cases hrests with
  | found =>
    obtain ⟨rfl, hfile⟩ := evolves_singleton.mp hes
    exact hinv (hfound List.mem_cons_self) content (hfile content rfl rfl)
  | @written read pre post reload hpost hreload =>
    obtain ⟨last, e, rfl, hlast, he⟩ := hreload
    -- the file is the wanted one from the write on
    obtain ⟨m₁, hread, hes₁⟩ := evolves_append.mp (show Evolves h ((read :: pre) ++ _) h' from hes)
    obtain ⟨m₂, hwrite, hes₂⟩ := evolves_append.mp (show Evolves m₁ ([_] ++ _) h' from hes₁)
    obtain ⟨m₃, hpost', hes₃⟩ := evolves_append.mp hes₂
    obtain ⟨m₄, hlast', hstep⟩ := evolves_append.mp hes₃
    have hfile₂ : m₂.file = some content := (evolves_singleton.mp hwrite).2.2.2 rfl rfl
    have hfile₃ : m₃.file = some content := by
      rw [file_evolves hpost' fun x hx => (hpost x hx).writesNothing, hfile₂]
    have hfile₄ : m₄.file = some content := by rw [file_evolves hlast' hlast, hfile₃]
    have hstep' := evolves_singleton.mp hstep
    rcases he with (⟨answer, rfl, hload⟩ | hreported) | ⟨answer, rfl, hsays⟩
    · exact hstep'.2.1 rfl hload content (hstep'.1.trans hfile₄)
    · exact absurd hreported (hrestart e (by simp))
    · exact absurd (hstep'.2.2.2 rfl rfl hsays) hmutable

theorem SoundRun.last {applies : List Applied} {last : Applied} {settled : Bool} (h : SoundRun settled (applies ++ [last])) :
    last.Sound ((applies.flatMap Applied.exchanges).foldl settle settled) := by
  induction applies generalizing settled with
  | nil => exact h.1
  | cons a applies ih =>
    rw [List.flatMap_cons, List.foldl_append]
    exact ih h.2

/-- The audit apply converges in every sound run: when an apply reports success and the
configuration is not locked, the rules wanted are loaded. -/
theorem apply_converges {applies : List Applied} {last : Applied} {h₀ h : AuditHost} (hruns : ∀ a ∈ applies ++ [last], a.IsRun)
    (hhost : Evolves h₀ ((applies ++ [last]).flatMap Applied.exchanges) h) (hstart : h₀.InForce)
    (hsound : SoundRun true (applies ++ [last])) (hsuccess : last.ReportsSuccess) (hmutable : ¬ h.immutable) :
    ∀ rule ∈ liveLines last.content, h.loaded rule := by
  obtain ⟨result, houtcome, hok⟩ := hsuccess
  have hrun : Run (applyPlugin last.ctx last.config last.stamp) last.exchanges (.ok result) := by
    rw [← houtcome]
    exact hruns last (by simp)
  obtain ⟨before, rules, heq, hbefore, hrests⟩ := run_applyPlugin hrun hok
  obtain ⟨hfound, hrestart⟩ := hsound.last
  rw [List.flatMap_append, List.flatMap_singleton, heq, evolves_append] at hhost
  obtain ⟨m, happlies, hlast⟩ := hhost
  obtain ⟨m', hquiet, hrules⟩ := evolves_append.mp hlast
  rw [heq] at hfound hrestart
  refine @loaded_of_restsOn _ _ ((applies.flatMap Applied.exchanges).foldl settle true) _ _ hrests hrules ?_ ?_ ?_ hmutable
  · intro hsettled
    have hm : m.InForce := inForce_evolves (fun _ => hstart) happlies hsettled
    exact inForce_evolves (fun _ => hm) hquiet (settle_quiet hbefore)
  · intro hmem
    exact hfound (List.mem_append_right _ hmem)
  · intro e he
    exact hrestart e (List.mem_append_right _ he)

/-! ## A host with auditd -/

/-- Every question is answered truly; whether augenrules can load is left open. -/
def auditdAnswers (loads : Bool) (h : AuditHost) : (q : Query) → q.Answer
  | .execute program args =>
    if isLoad program || unsettles program args then .ok ⟨[], [], if loads then 0 else 1⟩
    else if program == "systemctl".toList then .ok ⟨"enabled", [], 0⟩
    else .ok ⟨[], [], 0⟩
  | .pathExists path => .ok (path != auditRulesPath || h.file.isSome)
  | .metadata _ => .error "Permission denied"
  | .readFile path =>
    if path = auditRulesPath then
      match h.file with
      | some content => .ok content
      | none => .error "No such file or directory"
    else .ok []
  | .readDir _ => .ok []
  | .writeFile _ _ => .ok ()
  | .checkpoint _ _ => .ok "1"

/-- A load puts the rules of the file in force, and nothing else does anything to them. -/
def auditdReacts (h : AuditHost) : Exchange → AuditHost
  | ⟨.writeFile path content, .ok ()⟩ => if path = auditRulesPath then { h with file := some content } else h
  | ⟨.execute program _, answer⟩ =>
    if isLoad program && loadSucceeded answer then
      { h with loaded := fun rule => ∃ content, h.file = some content ∧ rule ∈ liveLines content }
    else h
  | _ => h

theorem answered_auditd (loads : Bool) (h : AuditHost) (q : Query) :
    Answered h ⟨q, auditdAnswers loads h q⟩ (auditdReacts h ⟨q, auditdAnswers loads h q⟩) := by
  cases q with
  | execute program args =>
    refine ⟨?_, ?_, ?_, ?_⟩
    · rw [auditdReacts]
      split <;> rfl
    · intro hload hok content hcontent rule hrule
      rw [auditdReacts, hload, hok] at hcontent ⊢
      exact ⟨content, hcontent, hrule⟩
    · intro hload _ rule hrule
      rw [auditdReacts, hload]
      exact hrule
    · rintro rfl rfl hsays
      cases hsays
  | writeFile path content =>
    by_cases hpath : path = auditRulesPath
    · subst hpath
      exact ⟨rfl, rfl, fun hne => absurd rfl hne, fun _ _ => rfl⟩
    · have hsame : auditdReacts h ⟨.writeFile path content, .ok ()⟩ = h := if_neg hpath
      change Answered h _ (auditdReacts h ⟨.writeFile path content, .ok ()⟩)
      rw [hsame]
      exact ⟨rfl, rfl, fun _ => rfl, fun heq => absurd heq hpath⟩
  | readFile path =>
    refine ⟨rfl, ?_⟩
    rintro content rfl hread
    change (match h.file with | some content => Except.ok content | none => .error _) = .ok content at hread
    cases hfile : h.file with
    | none =>
      rw [hfile] at hread
      cases hread
    | some current =>
      rw [hfile] at hread
      cases hread
      rfl
  | pathExists path => rfl
  | metadata path => rfl
  | readDir path => rfl
  | checkpoint name paths => rfl

/-- A program played on the host, the host evolving along with it. -/
theorem evolves_play {α : Type} (loads : Bool) (p : Session α) (h : AuditHost) :
    Evolves h (play (auditdAnswers loads) auditdReacts p h).1
      (after auditdReacts h (play (auditdAnswers loads) auditdReacts p h).1) := by
  induction p generalizing h with
  | done a => exact .nil
  | ask q next ih => exact .cons (answered_auditd loads h q) (ih _ _)

/-- A host on which nothing was ever applied. -/
def freshHost : AuditHost := ⟨none, fun _ => False, False⟩

def noExceptions : PluginConfig := ⟨fun _ => none, fun _ => none⟩

/-- One apply on the host. -/
def applyOn (loads : Bool) (h : AuditHost) : Applied :=
  let played := play (auditdAnswers loads) auditdReacts (applyPlugin ⟨false, false⟩ noExceptions "20260101_000000.00000000") h
  ⟨⟨false, false⟩, noExceptions, "20260101_000000.00000000", played.1, played.2⟩

/-- The host after it. -/
def hostAfter (loads : Bool) (h : AuditHost) : AuditHost := after auditdReacts h (applyOn loads h).exchanges

theorem isRun_applyOn (loads : Bool) (h : AuditHost) : (applyOn loads h).IsRun := run_play ..

theorem evolves_applyOn (loads : Bool) (h : AuditHost) : Evolves h (applyOn loads h).exchanges (hostAfter loads h) := evolves_play ..

def succeeded (outcome : Except Chars ApplyResult) : Bool :=
  match outcome with
  | .ok result => result.success
  | .error _ => false

theorem reportsSuccess_of_succeeded {a : Applied} (h : succeeded a.outcome = true) : a.ReportsSuccess := by
  unfold Applied.ReportsSuccess
  cases ho : a.outcome with
  | error e =>
    rw [ho] at h
    cases h
  | ok result =>
    rw [ho] at h
    exact ⟨result, rfl, h⟩

/-- Played on the host, a program returns `a` and leaves the host as it is. -/
def Leaves {α : Type} (loads : Bool) (h : AuditHost) (p : Session α) (a : α) : Prop :=
  (play (auditdAnswers loads) auditdReacts p h).2 = a ∧ after auditdReacts h (play (auditdAnswers loads) auditdReacts p h).1 = h

theorem Leaves.bind {α β : Type} {loads : Bool} {h : AuditHost} {p : Session α} {f : α → Session β} {a : α} {b : β}
    (hp : Leaves loads h p a) (hf : Leaves loads h (f a) b) : Leaves loads h (p >>= f) b := by
  unfold Leaves
  rw [play_bind, hp.1, hp.2, after_append, hp.2]
  exact hf

/-- The file is as wanted, so the apply says that all is done. -/
theorem leaves_applyPlugin {loads : Bool} {h : AuditHost} (hfile : h.file = some (renderedRulesFile noExceptions).1) (stamp : Chars) :
    Leaves loads h (applyPlugin ⟨false, false⟩ noExceptions stamp) (.ok (resultOf [upToDateChange] none)) := by
  have hrules : ∀ error, Leaves loads h (rulesPhase noExceptions stamp error) [upToDateChange] := by
    intro error
    have hread : Leaves loads h (readFile auditRulesPath) (.ok (renderedRulesFile noExceptions).1) := by
      refine ⟨?_, rfl⟩
      show auditdAnswers loads h (.readFile auditRulesPath) = _
      rw [auditdAnswers, if_pos rfl, hfile]
    refine hread.bind ?_
    show Leaves loads h (if _ = _ then _ else _) _
    rw [if_pos rfl]
    exact ⟨rfl, rfl⟩
  have hquiet : ∀ error, Leaves loads h (changesPhase noExceptions stamp error) [upToDateChange] := by
    intro error
    have henable : Leaves loads h enablePhase [] := ⟨rfl, rfl⟩
    have hstart : Leaves loads h startPhase [] := ⟨rfl, rfl⟩
    exact henable.bind (hstart.bind ((hrules error).bind ⟨rfl, rfl⟩))
  have hprobe : Leaves loads h probeAuditd .installed := ⟨rfl, rfl⟩
  have hdir : Leaves loads h (ensureDirectory auditRulesDir) none := ⟨rfl, rfl⟩
  have hprune : Leaves loads h (pruneTimestampedBackups auditBackupStem backupsKept) () := ⟨rfl, rfl⟩
  have hcheckpoint : Leaves loads h (createCheckpointForApply ⟨false, false⟩ "audit-hardening-pre-apply" auditCheckpointPaths)
      (.ok none) := ⟨rfl, rfl⟩
  exact hprobe.bind (hdir.bind (hprune.bind (hcheckpoint.bind ((hquiet none).bind ⟨rfl, rfl⟩))))

theorem outcome_applyOn {loads : Bool} {h : AuditHost} (hfile : h.file = some (renderedRulesFile noExceptions).1) :
    (applyOn loads h).outcome = .ok (resultOf [upToDateChange] none) := by
  unfold applyOn
  exact (leaves_applyPlugin hfile _).1

/-- No answer of the run lets it find the file as wanted, or rest on a restart. -/
def unfound : Exchange → Bool
  | ⟨.readFile _, .ok _⟩ => false
  | ⟨.execute program args, _⟩ => !unsettles program args
  | _ => true

theorem sound_of_unfound {a : Applied} (h : a.exchanges.all unfound = true) (settled : Bool) : a.Sound settled := by
  rw [List.all_eq_true] at h
  constructor
  · intro hmem
    cases h _ hmem
  · rintro e he ⟨answer, rfl, _⟩
    cases h _ he

theorem prelude_mem (loads : Bool) (h : AuditHost) : "-b 65536".toList ∈ liveLines (applyOn loads h).content := by
  show _ ∈ liveLines (fileHeader ++ auditBacklogPrelude ++ _)
  rw [liveLines_append whole_prelude, liveLines_prelude]
  simp [preludeLines]

/-- augenrules loads, and the rules are there; one of them. -/
theorem apply_converges_fresh : (hostAfter true freshHost).loaded "-b 65536" := by
  have hall : (applyOn true freshHost).exchanges.all unfound = true := by decide +kernel
  have hsuccess : succeeded (applyOn true freshHost).outcome = true := by decide +kernel
  have hhost : Evolves freshHost (([] ++ [applyOn true freshHost]).flatMap Applied.exchanges) (hostAfter true freshHost) := by
    rw [List.nil_append, List.flatMap_singleton]
    exact evolves_applyOn true freshHost
  refine apply_converges ?_ hhost ?_ ⟨sound_of_unfound hall true, trivial⟩ (reportsSuccess_of_succeeded hsuccess) id _
    (prelude_mem true freshHost)
  · intro a ha
    rw [List.nil_append, List.mem_singleton] at ha
    rw [ha]
    exact isRun_applyOn true freshHost
  · intro content hcontent
    cases hcontent

theorem immutable_reacts (h : AuditHost) (e : Exchange) : (auditdReacts h e).immutable = h.immutable := by
  unfold auditdReacts
  split
  · split <;> rfl
  · split <;> rfl
  · rfl

theorem loaded_reacts (h : AuditHost) (q : Query) : (auditdReacts h ⟨q, auditdAnswers false h q⟩).loaded = h.loaded := by
  cases q with
  | execute program args =>
    have hload : (isLoad program && loadSucceeded (auditdAnswers false h (.execute program args))) = false := by
      cases hl : isLoad program with
      | false => rfl
      | true => simp [auditdAnswers, hl, loadSucceeded, CommandOutput.success]
    rw [auditdReacts, hload, if_neg Bool.false_ne_true]
  | writeFile path content =>
    change (if _ then _ else _ : AuditHost).loaded = _
    split <;> rfl
  | _ => rfl

/-- Where augenrules cannot load, nothing is ever loaded. -/
theorem after_unloaded {α : Type} (p : Session α) (h : AuditHost) :
    (after auditdReacts h (play (auditdAnswers false) auditdReacts p h).1).loaded = h.loaded ∧
      (after auditdReacts h (play (auditdAnswers false) auditdReacts p h).1).immutable = h.immutable := by
  induction p generalizing h with
  | done a => exact ⟨rfl, rfl⟩
  | ask q next ih =>
    obtain ⟨hloaded, himmutable⟩ := ih (auditdAnswers false h q) (auditdReacts h ⟨q, auditdAnswers false h q⟩)
    exact ⟨hloaded.trans (loaded_reacts h q), himmutable.trans (immutable_reacts h _)⟩

theorem hostAfter_unloaded (h : AuditHost) :
    (hostAfter false h).loaded = h.loaded ∧ (hostAfter false h).immutable = h.immutable := after_unloaded _ h

/-- augenrules fails to load, and the next apply reports success with nothing loaded. -/
theorem success_without_rules :
    ¬ ∀ (applies : List Applied) (last : Applied) (h₀ h : AuditHost), (∀ a ∈ applies ++ [last], a.IsRun) →
      Evolves h₀ ((applies ++ [last]).flatMap Applied.exchanges) h → h₀.InForce → last.ReportsSuccess → ¬ h.immutable →
      ∀ rule ∈ liveLines last.content, h.loaded rule := by
  intro hclaim
  have hhost : Evolves freshHost (([applyOn false freshHost] ++ [applyOn false (hostAfter false freshHost)]).flatMap Applied.exchanges) (hostAfter false (hostAfter false freshHost)) := by
    rw [List.flatMap_append, List.flatMap_singleton, List.flatMap_singleton]
    exact evolves_append.mpr ⟨_, evolves_applyOn false freshHost, evolves_applyOn false _⟩
  have hruns : ∀ a ∈ [applyOn false freshHost] ++ [applyOn false (hostAfter false freshHost)], a.IsRun := by
    intro a ha
    rcases List.mem_append.mp ha with ha | ha
    · rw [List.mem_singleton.mp ha]
      exact isRun_applyOn false freshHost
    · rw [List.mem_singleton.mp ha]
      exact isRun_applyOn false _
  have hfile : (hostAfter false freshHost).file = some (renderedRulesFile noExceptions).1 := rfl
  obtain ⟨hloaded, himmutable⟩ := hostAfter_unloaded freshHost
  obtain ⟨hloaded', himmutable'⟩ := hostAfter_unloaded (hostAfter false freshHost)
  have hsuccess : (applyOn false (hostAfter false freshHost)).ReportsSuccess := ⟨_, outcome_applyOn hfile, rfl⟩
  have hmutable : ¬ (hostAfter false (hostAfter false freshHost)).immutable := by
    rw [himmutable', himmutable]
    exact id
  have hprelude := prelude_mem false (hostAfter false freshHost)
  have hstart : freshHost.InForce := by
    intro content hcontent
    cases hcontent
  generalize hostAfter false (hostAfter false freshHost) = h at hhost hloaded' hmutable
  have hnone := hclaim _ _ _ _ hruns hhost hstart hsuccess hmutable _ hprelude
  rw [hloaded', hloaded] at hnone
  exact hnone

end LinuxHardener.Audit
