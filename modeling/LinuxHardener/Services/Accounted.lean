import LinuxHardener.Services.Apply

/-
  Whether a successful apply accounts for every managed service.

  A probe that could not be run, or that ended without an answer, is read as "no". A run
  is taken apart into one piece for each service; the piece is then read off its answers.
  What is proved: `services_accounted_iff` — an apply that reports success accounts for
  every service exactly where a command was refused (so that it does not report success)
  or every probe that decides a service was answered.
-/
namespace LinuxHardener.Services

open LineText Plugins Dialogue
open Core (ApplyResult)

/-! ## What answers say -/

def existsQuery (service : Chars) : Query := .execute "systemctl" ["list-unit-files", unitName service]

def enabledQuery (service : Chars) : Query := .execute "systemctl" ["is-enabled", service]

def activeQuery (service : Chars) : Query := .execute "systemctl" ["is-active", service]

/-- What a listing says of the unit. It fails to say "absent" where it failed itself: with an
exit status other than 1, or with a message (the scan's own rule). -/
def existsSays (service : Chars) : Except Chars CommandOutput → Option Bool
  | .error _ => none
  | .ok output =>
    if contains output.stdout (unitName service) then some true
    else if output.success || (output.exitCode == 1 && (LineText.trim output.stderr).isEmpty) then some false
    else none

/-- What `is-enabled` or `is-active` says. A refusal prints the state it found; one that
prints nothing is a command that could not do its work. -/
def stateSays : Except Chars CommandOutput → Option Bool
  | .error _ => none
  | .ok output =>
    if output.success then some true
    else if (LineText.trim output.stdout).isEmpty then none
    else some false

def accepted : Except Chars CommandOutput → Bool
  | .error _ => false
  | .ok output => output.success

/-- A stop, disable or mask that the host refused. -/
def Refused (es : List Exchange) : Prop :=
  ∃ verb ∈ ["stop".toList, "disable".toList, "mask".toList], ∃ service r,
    ⟨.execute "systemctl" [verb, service], r⟩ ∈ es ∧ accepted r = false

/-- The apply has an account of the service: an answer that it is absent or neither enabled
nor running, a mask (with a stop, or an answer that it is not running), or a skip. -/
def Accounted (es : List Exchange) (changes : List Change) (service : Chars) : Prop :=
  (∃ r, ⟨existsQuery service, r⟩ ∈ es ∧ existsSays service r = some false) ∨
  (∃ r r', ⟨enabledQuery service, r⟩ ∈ es ∧ ⟨activeQuery service, r'⟩ ∈ es ∧
    stateSays r = some false ∧ stateSays r' = some false) ∨
  (maskChange service (.ok ()) ∈ changes ∧
    (stopChange service (.ok ()) ∈ changes ∨ ∃ r, ⟨activeQuery service, r⟩ ∈ es ∧ stateSays r = some false)) ∨
  ∃ reason, skippedChange service reason ∈ changes

/-- The probes that decide a service were answered: the listing, and for an installed
service without an exception its activity, and its enablement unless it is running. -/
def Answered (config : PluginConfig) (es : List Exchange) (service : Chars) : Prop :=
  ∃ r, ⟨existsQuery service, r⟩ ∈ es ∧
    (existsSays service r = some false ∨
      existsSays service r = some true ∧
        ((config.hasValidException service).isSome ∨
          ∃ n a, ⟨enabledQuery service, n⟩ ∈ es ∧ ⟨activeQuery service, a⟩ ∈ es ∧
            (stateSays a = some true ∨ stateSays a = some false ∧ stateSays n ≠ none)))

theorem unwrapOrFalse_statusResult (r : Except Chars CommandOutput) :
    unwrapOrFalse (statusResult r) = true ↔ stateSays r = some true := by
  cases r with
  | error e => simp [unwrapOrFalse, statusResult, stateSays]
  | ok output =>
    simp only [unwrapOrFalse, statusResult, stateSays]
    split
    · simp_all
    · split <;> simp_all

theorem unwrapOrFalse_listedResult (service : Chars) (r : Except Chars CommandOutput) :
    unwrapOrFalse (listedResult service r) = true ↔ existsSays service r = some true := by
  cases r with
  | error e => simp [unwrapOrFalse, listedResult, existsSays]
  | ok output =>
    simp only [unwrapOrFalse, listedResult, existsSays]
    split
    · simp_all
    · split <;> simp_all

theorem commandResult_ok {service : Chars} {r : Except Chars CommandOutput} :
    commandResult service r = .ok () ↔ accepted r = true := by
  cases r with
  | error e => simp [commandResult, accepted]
  | ok output =>
    simp only [commandResult, accepted]
    split <;> simp_all

/-! ## One service -/

section

variable {service : Chars} {es : List Exchange}

theorem run_systemctl {verb : Chars} {x : Except Chars Unit} (h : Run (systemctl verb service) es x) :
    ∃ r, es = [⟨.execute "systemctl" [verb, service], r⟩] ∧ x = commandResult service r := by
  obtain ⟨r, es', rfl, hr⟩ := run_execute.mp h
  obtain ⟨rfl, rfl⟩ := run_pure.mp hr
  exact ⟨r, rfl, rfl⟩

theorem run_systemctlSays {verb : Chars} {x : Except Chars Bool} (h : Run (systemctlSays verb service) es x) :
    ∃ r, es = [⟨.execute "systemctl" [verb, service], r⟩] ∧ x = statusResult r := by
  obtain ⟨r, es', rfl, hr⟩ := run_execute.mp h
  obtain ⟨rfl, rfl⟩ := run_pure.mp hr
  exact ⟨r, rfl, rfl⟩

theorem run_isServiceExists {x : Except Chars Bool} (h : Run (isServiceExists service) es x) :
    ∃ r, es = [⟨existsQuery service, r⟩] ∧ x = listedResult service r := by
  obtain ⟨r, es', rfl, hr⟩ := run_execute.mp h
  obtain ⟨rfl, rfl⟩ := run_pure.mp hr
  exact ⟨r, rfl, rfl⟩

/-- What an apply without refusals does to a service, from what it read. -/
def plannedChanges (service : Chars) (isEnabled isActive : Bool) : List Change :=
  if !isEnabled && !isActive then []
  else
    (if isActive then [stopChange service (.ok ())] else []) ++
      (if isEnabled then [disableChange service (.ok ())] else []) ++ [maskChange service (.ok ())]

/-- A change that reports a stop, a disable or a mask of the service. -/
def Attempt (service : Chars) (c : Change) : Prop :=
  ∃ x, c = stopChange service x ∨ c = disableChange service x ∨ c = maskChange service x

/-- The commands of one service, with the changes they are reported by: what is planned, or
a refusal among the commands and a failure among the changes. -/
structure Commands (service : Chars) (planned : List Change) (es : List Exchange) (changes : List Change) : Prop where
  commands : ∀ e ∈ es, ∃ verb ∈ ["stop".toList, "disable".toList, "mask".toList], e.query = .execute "systemctl" [verb, service]
  outcome : ¬ Refused es ∧ changes = planned ∨ Refused es ∧ changes.all Change.success = false
  own : ∀ c ∈ changes, Attempt service c
  idle : planned = [] → changes = []

theorem refused_append {es₁ es₂ : List Exchange} : Refused (es₁ ++ es₂) ↔ Refused es₁ ∨ Refused es₂ := by
  constructor
  · intro h
    obtain ⟨verb, hverb, s, r, hr, hno⟩ := h
    obtain hr | hr := List.mem_append.mp hr
    · exact .inl ⟨verb, hverb, s, r, hr, hno⟩
    · exact .inr ⟨verb, hverb, s, r, hr, hno⟩
  · intro h
    obtain ⟨verb, hverb, s, r, hr, hno⟩ | ⟨verb, hverb, s, r, hr, hno⟩ := h
    · exact ⟨verb, hverb, s, r, List.mem_append_left _ hr, hno⟩
    · exact ⟨verb, hverb, s, r, List.mem_append_right _ hr, hno⟩

theorem not_refused_nil : ¬ Refused [] := by simp [Refused]

/-- Probes are not refusals. -/
theorem refused_cons_probe {verb : Chars} {args : List Chars} {r : Except Chars CommandOutput}
    (h : verb ∉ ["stop".toList, "disable".toList, "mask".toList]) :
    Refused (⟨.execute "systemctl" (verb :: args), r⟩ :: es) ↔ Refused es := by
  constructor
  · intro h'
    obtain ⟨verb', hverb, s, r', hr, hno⟩ := h'
    obtain hr | hr := List.mem_cons.mp hr
    · cases hr
      exact absurd hverb h
    · exact ⟨verb', hverb, s, r', hr, hno⟩
  · intro h'
    obtain ⟨verb', hverb, s, r', hr, hno⟩ := h'
    exact ⟨verb', hverb, s, r', .tail _ hr, hno⟩

theorem commands_nil : Commands service [] [] [] := ⟨by simp, .inl ⟨not_refused_nil, rfl⟩, by simp, fun _ => rfl⟩

theorem commands_one {verb done failed : Chars} {r : Except Chars CommandOutput}
    (hverb : verb ∈ ["stop".toList, "disable".toList, "mask".toList])
    (hown : ∀ x, Attempt service (serviceChange done failed service x)) :
    Commands service [serviceChange done failed service (.ok ())] [⟨.execute "systemctl" [verb, service], r⟩]
      [serviceChange done failed service (commandResult service r)] where
  commands := by
    intro e he
    rw [List.mem_singleton.mp he]
    exact ⟨verb, hverb, rfl⟩
  outcome := by
    cases hr : accepted r with
    | true =>
      refine .inl ⟨?_, by rw [commandResult_ok.mpr hr]⟩
      intro h
      obtain ⟨verb', _, s, r', hmem, hno⟩ := h
      cases List.mem_singleton.mp hmem
      rw [hr] at hno
      cases hno
    | false =>
      refine .inr ⟨⟨verb, hverb, service, r, .head _, hr⟩, ?_⟩
      cases hc : commandResult service r with
      | error e => simp [serviceChange, Change.failed]
      | ok u =>
        rw [commandResult_ok.mp hc] at hr
        cases hr
  own := by
    intro c hc
    rw [List.mem_singleton.mp hc]
    exact hown _
  idle := nofun

theorem attempt_stop (x : Except Chars Unit) : Attempt service (stopChange service x) := ⟨x, .inl rfl⟩

theorem attempt_disable (x : Except Chars Unit) : Attempt service (disableChange service x) := ⟨x, .inr (.inl rfl)⟩

theorem attempt_mask (x : Except Chars Unit) : Attempt service (maskChange service x) := ⟨x, .inr (.inr rfl)⟩

theorem Commands.append {p₁ p₂ : List Change} {es₁ es₂ : List Exchange} {cs₁ cs₂ : List Change}
    (h₁ : Commands service p₁ es₁ cs₁) (h₂ : Commands service p₂ es₂ cs₂) :
    Commands service (p₁ ++ p₂) (es₁ ++ es₂) (cs₁ ++ cs₂) where
  commands := by
    intro e he
    obtain he | he := List.mem_append.mp he
    · exact h₁.commands e he
    · exact h₂.commands e he
  outcome := by
    obtain ⟨hno₁, rfl⟩ | ⟨hr, hs⟩ := h₁.outcome
    · obtain ⟨hno₂, rfl⟩ | ⟨hr, hs⟩ := h₂.outcome
      · refine .inl ⟨?_, rfl⟩
        intro h
        exact (refused_append.mp h).elim hno₁ hno₂
      · exact .inr ⟨refused_append.mpr (.inr hr), by simp [hs]⟩
    · exact .inr ⟨refused_append.mpr (.inl hr), by simp [hs]⟩
  own := by
    intro c hc
    obtain hc | hc := List.mem_append.mp hc
    · exact h₁.own c hc
    · exact h₂.own c hc
  idle := by
    intro h
    obtain ⟨hp₁, hp₂⟩ := List.append_eq_nil_iff.mp h
    rw [h₁.idle hp₁, h₂.idle hp₂]
    rfl

theorem run_disableAndMask {isEnabled : Bool} {changes : List Change} (h : Run (disableAndMask service isEnabled) es changes) :
    Commands service ((if isEnabled then [disableChange service (.ok ())] else []) ++ [maskChange service (.ok ())]) es
      changes := by
  obtain ⟨es₁, disabled, es₂, rfl, hdisable, hrest⟩ := run_bind.mp h
  obtain ⟨es₃, masked, es₄, rfl, hmask, hlast⟩ := run_bind.mp hrest
  obtain ⟨r, rfl, rfl⟩ := run_systemctl hmask
  obtain ⟨rfl, rfl⟩ := run_pure.mp hlast
  rw [List.append_nil]
  refine Commands.append ?_ (commands_one (by decide) attempt_mask)
  cases isEnabled with
  | false =>
    obtain ⟨rfl, rfl⟩ := run_pure.mp hdisable
    exact commands_nil
  | true =>
    obtain ⟨es₅, x, es₆, rfl, hx, hlast⟩ := run_bind.mp hdisable
    obtain ⟨r', rfl, rfl⟩ := run_systemctl hx
    obtain ⟨rfl, rfl⟩ := run_pure.mp hlast
    exact commands_one (by decide) attempt_disable

/-- An apply of a service without an exception: two probes, then the commands they call for. -/
theorem run_applyService {config : PluginConfig} {changes : List Change} (hex : config.hasValidException service = none)
    (h : Run (applyService config service) es changes) :
    ∃ n a es', es = ⟨enabledQuery service, n⟩ :: ⟨activeQuery service, a⟩ :: es' ∧
      Commands service (plannedChanges service (unwrapOrFalse (statusResult n)) (unwrapOrFalse (statusResult a))) es' changes := by
  unfold applyService at h
  rw [hex] at h
  obtain ⟨es₁, enabled, es₂, rfl, henabled, hactivity⟩ := run_bind.mp h
  obtain ⟨es₃, active, es₄, rfl, hactive, hrest⟩ := run_bind.mp hactivity
  obtain ⟨n, rfl, rfl⟩ := run_systemctlSays henabled
  obtain ⟨a, rfl, rfl⟩ := run_systemctlSays hactive
  refine ⟨n, a, es₄, rfl, ?_⟩
  clear h hactivity henabled hactive
  unfold plannedChanges
  dsimp only at hrest
  split at hrest
  · next hneither =>
    obtain ⟨rfl, rfl⟩ := run_pure.mp hrest
    rw [if_pos hneither]
    exact commands_nil
  · next hsome =>
    rw [if_neg hsome]
    split at hrest
    · next hrunning =>
      rw [if_pos hrunning, List.append_assoc]
      obtain ⟨es₅, stopped, es₆, rfl, hstop, hafter⟩ := run_bind.mp hrest
      obtain ⟨r, rfl, rfl⟩ := run_systemctl hstop
      have hone : Commands service [stopChange service (.ok ())] [⟨.execute "systemctl" ["stop".toList, service], r⟩]
          [stopChange service (commandResult service r)] := commands_one (by decide) attempt_stop
      cases hr : commandResult service r with
      | error e =>
        rw [hr] at hafter hone
        obtain ⟨rfl, rfl⟩ := run_pure.mp hafter
        refine ⟨by simpa using hone.commands, .inr ?_, hone.own, nofun⟩
        obtain ⟨_, habsurd⟩ | hrefused := hone.outcome
        · cases habsurd
        · simpa using hrefused
      | ok u =>
        rw [hr] at hafter hone
        obtain ⟨es₇, others, es₈, rfl, hothers, hlast⟩ := run_bind.mp hafter
        obtain ⟨rfl, rfl⟩ := run_pure.mp hlast
        rw [List.append_nil]
        exact hone.append (run_disableAndMask hothers)
    · next hrunning =>
      rw [if_neg hrunning, List.nil_append]
      exact run_disableAndMask hrest

end

/-! ## All services -/

/-- What one service adds to a run: nothing but a skip under an exception, else two probes
and the commands they call for. -/
inductive Piece (config : PluginConfig) (service : Chars) : List Exchange → List Change → Prop where
  | skipped {exception : PolicyException} (h : config.hasValidException service = some exception) :
      Piece config service [] [skippedChange service exception.reason]
  | probed {n a : Except Chars CommandOutput} {es : List Exchange} {changes : List Change}
      (h : config.hasValidException service = none)
      (hc : Commands service (plannedChanges service (unwrapOrFalse (statusResult n)) (unwrapOrFalse (statusResult a))) es changes) :
      Piece config service (⟨enabledQuery service, n⟩ :: ⟨activeQuery service, a⟩ :: es) changes

theorem piece_of_run {config : PluginConfig} {service : Chars} {es : List Exchange} {changes : List Change}
    (h : Run (applyService config service) es changes) : Piece config service es changes := by
  cases hex : config.hasValidException service with
  | none =>
    obtain ⟨n, a, es', rfl, hc⟩ := run_applyService hex h
    exact .probed hex hc
  | some exception =>
    unfold applyService at h
    rw [hex] at h
    obtain ⟨rfl, rfl⟩ := run_pure.mp h
    exact .skipped hex

/-- A run of an apply, taken apart: the listings with what was found, the checkpoint, and a
piece for each service found. -/
structure Parts (config : PluginConfig) (es : List Exchange) (changes : List Change) where
  listed : Chars → Except Chars CommandOutput
  checkpoint : List Exchange
  bookkeeping : List Change
  events : Chars → List Exchange
  reported : Chars → List Change
  es_eq : es = unnecessaryServices.map (fun s => ⟨existsQuery s, listed s⟩) ++ checkpoint ++
    (unnecessaryServices.filter fun s => unwrapOrFalse (listedResult s (listed s))).flatMap events
  changes_eq : changes = bookkeeping ++
    (unnecessaryServices.filter fun s => unwrapOrFalse (listedResult s (listed s))).flatMap reported
  checkpoint_query : ∀ e ∈ checkpoint, ∃ name paths, e.query = .checkpoint name paths
  bookkeeping_type : ∀ c ∈ bookkeeping, c.type = .checkpoint ∧ c.success = true
  pieces : ∀ s ∈ unnecessaryServices, unwrapOrFalse (listedResult s (listed s)) = true → Piece config s (events s) (reported s)

theorem unnecessaryServices_nodup : unnecessaryServices.Nodup := by decide

theorem zip_found {services : List Chars} {result : Chars → Except Chars Bool} :
    ((services.zip (services.map result)).filterMap fun (s, listed) => if unwrapOrFalse listed then some s else none) =
      services.filter fun s => unwrapOrFalse (result s) := by
  induction services with
  | nil => rfl
  | cons s services ih =>
    cases hs : unwrapOrFalse (result s) <;> simp [hs, ih]

theorem run_installedServices {services : List Chars} (hnodup : services.Nodup) {es : List Exchange} {installed : List Chars}
    (h : Run (installedServices services) es installed) :
    ∃ listed : Chars → Except Chars CommandOutput, es = services.map (fun s => ⟨existsQuery s, listed s⟩) ∧
      installed = services.filter fun s => unwrapOrFalse (listedResult s (listed s)) := by
  obtain ⟨es₁, found, es₂, rfl, hfound, hlast⟩ := run_bind.mp h
  obtain ⟨rfl, rfl⟩ := run_pure.mp hlast
  obtain ⟨events, result, rfl, rfl, hruns⟩ := run_mapM hnodup hfound
  have hone : ∀ s, ∃ r, s ∈ services → events s = [⟨existsQuery s, r⟩] ∧ result s = listedResult s r := by
    intro s
    by_cases hs : s ∈ services
    · obtain ⟨r, hes, hr⟩ := run_isServiceExists (hruns s hs)
      exact ⟨r, fun _ => ⟨hes, hr⟩⟩
    · exact ⟨.error [], fun h => absurd h hs⟩
  choose listed hlisted using hone
  refine ⟨listed, ?_, ?_⟩
  · rw [List.append_nil, List.map_eq_flatMap]
    exact List.flatMap_congr fun s hs => (hlisted s hs).1
  · rw [zip_found]
    exact List.filter_congr fun s hs => by rw [(hlisted s hs).2]

theorem run_createCheckpoint {ctx : Context} {name : Chars} {paths : List Chars} {es : List Exchange} {id : Option Chars}
    (h : Run (createCheckpointForApply ctx name paths) es (.ok id)) :
    ∀ e ∈ es, ∃ name paths, e.query = .checkpoint name paths := by
  have hasks : Asks (fun q => ∃ name paths, q = .checkpoint name paths) (createCheckpointForApply ctx name paths) :=
    asks_createCheckpointForApply ctx ⟨name, paths, rfl⟩
  exact hasks.of_run h

theorem run_applyServices {config : PluginConfig} {services : List Chars} (hnodup : services.Nodup) {es : List Exchange}
    {changes : List Change} (h : Run (applyServices config services) es changes) :
    ∃ (events : Chars → List Exchange) (reported : Chars → List Change), es = services.flatMap events ∧
      changes = services.flatMap reported ∧ ∀ s ∈ services, Piece config s (events s) (reported s) := by
  obtain ⟨es₁, all, es₂, rfl, hall, hlast⟩ := run_bind.mp h
  obtain ⟨rfl, rfl⟩ := run_pure.mp hlast
  obtain ⟨events, reported, rfl, rfl, hruns⟩ := run_mapM hnodup hall
  exact ⟨events, reported, by rw [List.append_nil], List.flatMap_def.symm, fun s hs => piece_of_run (hruns s hs)⟩

theorem parts_of_run {ctx : Context} {config : PluginConfig} {es : List Exchange} {result : ApplyResult}
    (h : Run (applyPlugin ctx config) es (.ok result)) :
    result.success = result.changes.all Change.success ∧ Nonempty (Parts config es result.changes) := by
  obtain ⟨es₁, installed, es₂, rfl, hinstalled, hrest⟩ := run_bind.mp h
  obtain ⟨es₃, id, es₄, rfl, hcheckpoint, hchanges⟩ := run_bind.mp hrest
  obtain ⟨listed, rfl, rfl⟩ := run_installedServices unnecessaryServices_nodup hinstalled
  cases id with
  | error e => cases (run_pure.mp hchanges).2
  | ok id =>
    obtain ⟨es₅, changes, es₆, rfl, happly, hlast⟩ := run_bind.mp hchanges
    obtain ⟨rfl, heq⟩ := run_pure.mp hlast
    cases heq
    obtain ⟨events, reported, rfl, rfl, hpieces⟩ := run_applyServices (unnecessaryServices_nodup.filter _) happly
    refine ⟨rfl, ⟨listed, es₃, checkpointChange id, events, reported, ?_, rfl, run_createCheckpoint hcheckpoint, ?_, ?_⟩⟩
    · simp
    · intro c hc
      cases id with
      | none => cases hc
      | some id =>
        rw [List.mem_singleton.mp hc]
        exact ⟨rfl, rfl⟩
    · intro s hs hfound
      exact hpieces s (List.mem_filter.mpr ⟨hs, hfound⟩)

/-! ## Which piece -/

section

variable {config : PluginConfig} {service other : Chars} {es : List Exchange} {changes : List Change}

/-- The events of a piece are about its own service. -/
theorem Piece.query (h : Piece config service es changes) {e : Exchange} (he : e ∈ es) :
    ∃ verb ≠ "list-unit-files".toList, e.query = .execute "systemctl" [verb, service] := by
  cases h with
  | skipped _ => cases he
  | probed _ hc =>
    obtain rfl | he := List.mem_cons.mp he
    · exact ⟨"is-enabled".toList, by decide, rfl⟩
    · obtain rfl | he := List.mem_cons.mp he
      · exact ⟨"is-active".toList, by decide, rfl⟩
      · obtain ⟨verb, hverb, heq⟩ := hc.commands e he
        refine ⟨verb, ?_, heq⟩
        intro hl
        rw [hl] at hverb
        revert hverb
        decide

theorem mask_ne_stop : maskChange service (.ok ()) ≠ stopChange other (.ok ()) := by
  intro h
  have := congrArg (fun c => c.description.head?) h
  simp [maskChange, stopChange, serviceChange, Change.made] at this

theorem disable_ne_mask : maskChange service (.ok ()) ≠ disableChange other (.ok ()) := by
  intro h
  have := congrArg (fun c => c.description.head?) h
  simp [maskChange, disableChange, serviceChange, Change.made] at this

theorem stop_ne_disable : stopChange service (.ok ()) ≠ disableChange other (.ok ()) := by
  intro h
  have := congrArg (fun c => c.description.head?) h
  simp [stopChange, disableChange, serviceChange, Change.made] at this

theorem serviceChange_inj {done failed : Chars}
    (h : serviceChange done failed service (.ok ()) = serviceChange done failed other (.ok ())) : service = other :=
  List.append_cancel_left (congrArg Change.description h)

theorem mem_planned_mask {en ac : Bool} :
    maskChange service (.ok ()) ∈ plannedChanges other en ac ↔ service = other ∧ (en = true ∨ ac = true) := by
  constructor
  · intro h
    cases en <;> cases ac <;> simp [plannedChanges, mask_ne_stop, disable_ne_mask] at h <;>
      exact ⟨serviceChange_inj h, by simp⟩
  · rintro ⟨rfl, h⟩
    cases en <;> cases ac <;> simp_all [plannedChanges]

theorem mem_planned_stop {en ac : Bool} :
    stopChange service (.ok ()) ∈ plannedChanges other en ac ↔ service = other ∧ ac = true := by
  constructor
  · intro h
    cases en <;> cases ac <;> simp [plannedChanges, stop_ne_disable, mask_ne_stop.symm] at h <;>
      exact ⟨serviceChange_inj h, rfl⟩
  · rintro ⟨rfl, rfl⟩
    simp [plannedChanges]

theorem skipped_not_mem_planned {en ac : Bool} {reason : Chars} : skippedChange service reason ∉ plannedChanges other en ac := by
  cases en <;> cases ac <;>
    simp [plannedChanges, skippedChange, maskChange, stopChange, disableChange, serviceChange, Change.made]

/-- No two managed names begin alike. -/
theorem eq_of_head : ∀ s ∈ unnecessaryServices, ∀ t ∈ unnecessaryServices, s.head? = t.head? → s = t := by decide

theorem skippedChange_inj (hs : service ∈ unnecessaryServices) (ht : other ∈ unnecessaryServices) {reason reason' : Chars}
    (h : skippedChange service reason = skippedChange other reason') : service = other := by
  have hne : ∀ s ∈ unnecessaryServices, s ≠ [] := by decide
  have hhead : ∀ s ∈ unnecessaryServices, ∀ r, (skippedChange s r).description.head? = s.head? := by
    intro s hs r
    obtain ⟨c, rest, rfl⟩ := List.exists_cons_of_ne_nil (hne s hs)
    rfl
  apply eq_of_head service hs other ht
  rw [← hhead service hs reason, ← hhead other ht reason', h]

theorem refused_probes {n a : Except Chars CommandOutput} :
    Refused (⟨enabledQuery service, n⟩ :: ⟨activeQuery service, a⟩ :: es) ↔ Refused es :=
  (refused_cons_probe (by decide)).trans (refused_cons_probe (by decide))

/-- Without refusals a piece reports its skip or what is planned. -/
theorem Piece.reported (h : Piece config service es changes) (hno : ¬ Refused es) :
    (∃ exception, config.hasValidException service = some exception ∧ changes = [skippedChange service exception.reason]) ∨
    ∃ (n a : Except Chars CommandOutput) (es' : List Exchange), config.hasValidException service = none ∧
      es = ⟨enabledQuery service, n⟩ :: ⟨activeQuery service, a⟩ :: es' ∧
      (∀ e ∈ es', ∃ verb ∈ ["stop".toList, "disable".toList, "mask".toList], e.query = .execute "systemctl" [verb, service]) ∧
      changes = plannedChanges service (unwrapOrFalse (statusResult n)) (unwrapOrFalse (statusResult a)) := by
  cases h with
  | skipped hex => exact .inl ⟨_, hex, rfl⟩
  | @probed n a es' _ hex hc =>
    have hno' : ¬ Refused es' := fun h => hno (refused_probes.mpr h)
    obtain ⟨_, hplanned⟩ | ⟨hrefused, _⟩ := hc.outcome
    · exact .inr ⟨n, a, es', hex, rfl, hc.commands, hplanned⟩
    · exact absurd hrefused hno'

/-- In a piece each state is asked once. -/
theorem mem_probes {n a : Except Chars CommandOutput} {es' : List Exchange}
    (hcommands : ∀ e ∈ es', ∃ verb ∈ ["stop".toList, "disable".toList, "mask".toList], e.query = .execute "systemctl" [verb, service])
    {r : Except Chars CommandOutput} :
    ((⟨enabledQuery service, r⟩ : Exchange) ∈ (⟨enabledQuery service, n⟩ :: ⟨activeQuery service, a⟩ :: es' : List Exchange) ↔ r = n) ∧
    ((⟨activeQuery service, r⟩ : Exchange) ∈ (⟨enabledQuery service, n⟩ :: ⟨activeQuery service, a⟩ :: es' : List Exchange) ↔ r = a) := by
  have hnone : ∀ verb ∉ ["stop".toList, "disable".toList, "mask".toList],
      (⟨.execute "systemctl" [verb, service], r⟩ : Exchange) ∉ es' := by
    intro verb hverb he
    obtain ⟨verb', hverb', hq⟩ := hcommands _ he
    cases hq
    exact hverb hverb'
  refine ⟨⟨?_, ?_⟩, ⟨?_, ?_⟩⟩
  · intro h
    obtain heq | h := List.mem_cons.mp h
    · cases heq
      rfl
    · obtain heq | h := List.mem_cons.mp h
      · cases heq
      · exact absurd h (hnone _ (by decide))
  · rintro rfl
    exact .head _
  · intro h
    obtain heq | h := List.mem_cons.mp h
    · cases heq
    · obtain heq | h := List.mem_cons.mp h
      · cases heq
        rfl
      · exact absurd h (hnone _ (by decide))
  · rintro rfl
    exact .tail _ (.head _)

/-- A piece that failed was refused, and one that was refused failed. -/
theorem Piece.success_iff (h : Piece config service es changes) : changes.all Change.success = true ↔ ¬ Refused es := by
  cases h with
  | skipped hex => simp [skippedChange, Change.made, not_refused_nil]
  | @probed n a es' _ hex hc =>
    rw [refused_probes]
    obtain ⟨hno, rfl⟩ | ⟨hrefused, hfailed⟩ := hc.outcome
    · have : (plannedChanges service (unwrapOrFalse (statusResult n)) (unwrapOrFalse (statusResult a))).all Change.success = true := by
        cases unwrapOrFalse (statusResult n) <;> cases unwrapOrFalse (statusResult a) <;> rfl
      simp [this, hno]
    · simp [hfailed, hrefused]

end

/-! ## All of it -/

namespace Parts

variable {config : PluginConfig} {es : List Exchange} {changes : List Change} (parts : Parts config es changes)

/-- The services found. -/
def Found (service : Chars) : Prop :=
  service ∈ unnecessaryServices ∧ unwrapOrFalse (listedResult service (parts.listed service)) = true

theorem mem_es {e : Exchange} : e ∈ es ↔ (∃ s ∈ unnecessaryServices, e = ⟨existsQuery s, parts.listed s⟩) ∨ e ∈ parts.checkpoint ∨
    ∃ s, parts.Found s ∧ e ∈ parts.events s := by
  conv_lhs => rw [parts.es_eq]
  simp only [List.mem_append, List.mem_map, List.mem_flatMap, List.mem_filter, Found, eq_comm (a := e), or_assoc]

theorem mem_changes {c : Change} : c ∈ changes ↔ c ∈ parts.bookkeeping ∨ ∃ s, parts.Found s ∧ c ∈ parts.reported s := by
  conv_lhs => rw [parts.changes_eq]
  simp only [List.mem_append, List.mem_flatMap, List.mem_filter, Found]

/-- A service is listed once. -/
theorem mem_exists {service : Chars} (hs : service ∈ unnecessaryServices) {r : Except Chars CommandOutput} :
    (⟨existsQuery service, r⟩ : Exchange) ∈ es ↔ r = parts.listed service := by
  rw [parts.mem_es]
  constructor
  · intro h
    obtain ⟨s, _, heq⟩ | hcp | ⟨s, hfound, he⟩ := h
    · have hq : unitName service = unitName s := by
        have := congrArg Event.query heq
        simpa [existsQuery] using this
      have : service = s := List.append_cancel_right hq
      subst this
      cases heq
      rfl
    · obtain ⟨name, paths, hq⟩ := parts.checkpoint_query _ hcp
      cases hq
    · obtain ⟨verb, hverb, hq⟩ := (parts.pieces s hfound.1 hfound.2).query he
      cases hq
      exact absurd rfl hverb
  · rintro rfl
    exact .inl ⟨service, hs, rfl⟩

/-- A state is asked of the services found, within their pieces. -/
theorem mem_state {service verb : Chars} (hverb : verb ≠ "list-unit-files".toList) {r : Except Chars CommandOutput} :
    (⟨.execute "systemctl" [verb, service], r⟩ : Exchange) ∈ es ↔
      parts.Found service ∧ (⟨.execute "systemctl" [verb, service], r⟩ : Exchange) ∈ parts.events service := by
  rw [parts.mem_es]
  constructor
  · intro h
    obtain ⟨s, _, heq⟩ | hcp | ⟨s, hfound, he⟩ := h
    · have := congrArg Event.query heq
      simp [existsQuery] at this
      exact absurd this.1 hverb
    · obtain ⟨name, paths, hq⟩ := parts.checkpoint_query _ hcp
      cases hq
    · obtain ⟨verb', _, hq⟩ := (parts.pieces s hfound.1 hfound.2).query he
      cases hq
      exact ⟨hfound, he⟩
  · intro h
    exact .inr (.inr ⟨service, h⟩)

include parts in
theorem refused_iff : Refused es ↔ ∃ s, parts.Found s ∧ Refused (parts.events s) := by
  constructor
  · intro h
    obtain ⟨verb, hverb, s, r, hr, hno⟩ := h
    have hne : verb ≠ "list-unit-files".toList := by
      rintro rfl
      revert hverb
      decide
    obtain ⟨hfound, he⟩ := (parts.mem_state hne).mp hr
    exact ⟨s, hfound, verb, hverb, s, r, he, hno⟩
  · intro h
    obtain ⟨s, hfound, verb, hverb, t, r, hr, hno⟩ := h
    exact ⟨verb, hverb, t, r, parts.mem_es.mpr (.inr (.inr ⟨s, hfound, hr⟩)), hno⟩

include parts in
theorem success_iff : changes.all Change.success = true ↔ ¬ Refused es := by
  rw [parts.refused_iff, List.all_eq_true]
  constructor
  · intro h hr
    obtain ⟨s, hfound, hr⟩ := hr
    have hall : (parts.reported s).all Change.success = true :=
      List.all_eq_true.mpr fun c hc => h c (parts.mem_changes.mpr (.inr ⟨s, hfound, hc⟩))
    exact ((parts.pieces s hfound.1 hfound.2).success_iff.mp hall) hr
  · intro h c hc
    obtain hc | ⟨s, hfound, hc⟩ := parts.mem_changes.mp hc
    · exact (parts.bookkeeping_type c hc).2
    · have hall := (parts.pieces s hfound.1 hfound.2).success_iff.mpr fun hr => h ⟨s, hfound, hr⟩
      exact List.all_eq_true.mp hall c hc

/-- A change that only one service's piece can report. -/
theorem mem_own (hno : ¬ Refused es) {service : Chars} {c : Change} (htype : c.type ≠ .checkpoint)
    (hplanned : ∀ other ∈ unnecessaryServices, ∀ en ac, c ∈ plannedChanges other en ac → service = other)
    (hskipped : ∀ other ∈ unnecessaryServices, ∀ reason, c = skippedChange other reason → service = other) :
    c ∈ changes ↔ parts.Found service ∧ c ∈ parts.reported service := by
  rw [parts.mem_changes]
  constructor
  · intro h
    obtain hb | ⟨s, hfound, hc⟩ := h
    · exact absurd (parts.bookkeeping_type c hb).1 htype
    · have hpiece := parts.pieces s hfound.1 hfound.2
      have hno' : ¬ Refused (parts.events s) := fun hr => hno (parts.refused_iff.mpr ⟨s, hfound, hr⟩)
      have : service = s := by
        obtain ⟨exception, _, heq⟩ | ⟨n, a, es', _, _, _, heq⟩ := hpiece.reported hno'
        · rw [heq] at hc
          exact hskipped s hfound.1 _ (List.mem_singleton.mp hc)
        · rw [heq] at hc
          exact hplanned s hfound.1 _ _ hc
      subst this
      exact ⟨hfound, hc⟩
  · exact fun h => .inr ⟨service, h⟩

variable {service : Chars}

theorem mem_mask (hno : ¬ Refused es) :
    maskChange service (.ok ()) ∈ changes ↔ parts.Found service ∧ maskChange service (.ok ()) ∈ parts.reported service := by
  apply parts.mem_own hno (by simp [maskChange, serviceChange, Change.made])
  · exact fun other _ en ac h => (mem_planned_mask.mp h).1
  · intro other _ reason h
    simp [maskChange, skippedChange, serviceChange, Change.made] at h

theorem mem_stop (hno : ¬ Refused es) :
    stopChange service (.ok ()) ∈ changes ↔ parts.Found service ∧ stopChange service (.ok ()) ∈ parts.reported service := by
  apply parts.mem_own hno (by simp [stopChange, serviceChange, Change.made])
  · exact fun other _ en ac h => (mem_planned_stop.mp h).1
  · intro other _ reason h
    simp [stopChange, skippedChange, serviceChange, Change.made] at h

theorem mem_skipped (hno : ¬ Refused es) (hs : service ∈ unnecessaryServices) {reason : Chars} :
    skippedChange service reason ∈ changes ↔ parts.Found service ∧ skippedChange service reason ∈ parts.reported service := by
  apply parts.mem_own hno (by simp [skippedChange, Change.made])
  · exact fun other _ en ac h => absurd h skipped_not_mem_planned
  · exact fun other ho reason' h => skippedChange_inj hs ho h

/-- A service that was not found: only the listing can account for it. -/
theorem accounted_iff_missing (hno : ¬ Refused es) (hs : service ∈ unnecessaryServices) (hmissing : ¬ parts.Found service) :
    Accounted es changes service ↔ Answered config es service := by
  have hexists : existsSays service (parts.listed service) ≠ some true := by
    intro h
    exact hmissing ⟨hs, (unwrapOrFalse_listedResult _ _).mpr h⟩
  constructor
  · intro h
    obtain ⟨r, hr, hsays⟩ | ⟨r, r', hr, _⟩ | ⟨hmask, _⟩ | ⟨reason, hskip⟩ := h
    · exact ⟨r, hr, .inl hsays⟩
    · exact absurd ((parts.mem_state (by decide)).mp hr).1 hmissing
    · exact absurd ((parts.mem_mask hno).mp hmask).1 hmissing
    · exact absurd ((parts.mem_skipped hno hs).mp hskip).1 hmissing
  · intro h
    obtain ⟨r, hr, hsays⟩ := h
    obtain rfl := (parts.mem_exists hs).mp hr
    obtain habsent | ⟨hpresent, _⟩ := hsays
    · exact .inl ⟨_, hr, habsent⟩
    · exact absurd hpresent hexists

/-- A service that was found: its skip, or what its two probes said. -/
theorem accounted_iff_found (hno : ¬ Refused es) (hfound : parts.Found service) :
    Accounted es changes service ↔ Answered config es service := by
  have hs := hfound.1
  have hlisted := (parts.mem_exists hs).mpr rfl
  have hpresent := (unwrapOrFalse_listedResult _ _).mp hfound.2
  have hno' : ¬ Refused (parts.events service) := fun hr => hno (parts.refused_iff.mpr ⟨service, hfound, hr⟩)
  obtain ⟨exception, hex, heq⟩ | ⟨n, a, es', hex, hes, hcommands, heq⟩ := (parts.pieces service hs hfound.2).reported hno'
  · constructor
    · exact fun _ => ⟨_, hlisted, .inr ⟨hpresent, .inl (by simp [hex])⟩⟩
    · intro _
      refine .inr (.inr (.inr ⟨exception.reason, (parts.mem_skipped hno hs).mpr ⟨hfound, ?_⟩⟩))
      rw [heq]
      exact .head _
  · have henabled : ∀ r, (⟨enabledQuery service, r⟩ : Exchange) ∈ es ↔ r = n := by
      intro r
      refine (parts.mem_state (by decide)).trans ?_
      rw [hes]
      exact ⟨fun h => (mem_probes hcommands).1.mp h.2, fun h => ⟨hfound, (mem_probes hcommands).1.mpr h⟩⟩
    have hactive : ∀ r, (⟨activeQuery service, r⟩ : Exchange) ∈ es ↔ r = a := by
      intro r
      refine (parts.mem_state (by decide)).trans ?_
      rw [hes]
      exact ⟨fun h => (mem_probes hcommands).2.mp h.2, fun h => ⟨hfound, (mem_probes hcommands).2.mpr h⟩⟩
    have hmask : maskChange service (.ok ()) ∈ changes ↔ stateSays n = some true ∨ stateSays a = some true := by
      rw [parts.mem_mask hno, heq, mem_planned_mask, unwrapOrFalse_statusResult, unwrapOrFalse_statusResult]
      simp [hfound]
    have hstop : stopChange service (.ok ()) ∈ changes ↔ stateSays a = some true := by
      rw [parts.mem_stop hno, heq, mem_planned_stop, unwrapOrFalse_statusResult]
      simp [hfound]
    have hskipped : ∀ reason, skippedChange service reason ∉ changes := by
      intro reason hc
      have := ((parts.mem_skipped hno hs).mp hc).2
      rw [heq] at this
      exact skipped_not_mem_planned this
    have haccounted : Accounted es changes service ↔ stateSays n = some false ∧ stateSays a = some false ∨
        (stateSays n = some true ∨ stateSays a = some true) ∧ (stateSays a = some true ∨ stateSays a = some false) := by
      constructor
      · intro h
        obtain ⟨r, hr, hsays⟩ | ⟨r, r', hr, hr', hsays⟩ | ⟨hm, hstopped | ⟨r, hr, hsays⟩⟩ | ⟨reason, hc⟩ := h
        · rw [(parts.mem_exists hs).mp hr, hpresent] at hsays
          cases hsays
        · rw [(henabled r).mp hr, (hactive r').mp hr'] at hsays
          exact .inl hsays
        · exact .inr ⟨hmask.mp hm, .inl (hstop.mp hstopped)⟩
        · rw [(hactive r).mp hr] at hsays
          exact .inr ⟨hmask.mp hm, .inr hsays⟩
        · exact absurd hc (hskipped reason)
      · intro h
        obtain hneither | ⟨hm, hstopped | hsays⟩ := h
        · exact .inr (.inl ⟨n, a, (henabled n).mpr rfl, (hactive a).mpr rfl, hneither⟩)
        · exact .inr (.inr (.inl ⟨hmask.mpr hm, .inl (hstop.mpr hstopped)⟩))
        · exact .inr (.inr (.inl ⟨hmask.mpr hm, .inr ⟨a, (hactive a).mpr rfl, hsays⟩⟩))
    have hanswered : Answered config es service ↔ stateSays a = some true ∨ stateSays a = some false ∧ stateSays n ≠ none := by
      constructor
      · intro h
        obtain ⟨r, hr, hsays⟩ := h
        rw [(parts.mem_exists hs).mp hr, hpresent] at hsays
        obtain habsent | ⟨_, hexcepted | ⟨n', a', hn, ha, hsays⟩⟩ := hsays
        · cases habsent
        · rw [hex] at hexcepted
          cases hexcepted
        · rw [(henabled n').mp hn, (hactive a').mp ha] at hsays
          exact hsays
      · exact fun h => ⟨_, hlisted, .inr ⟨hpresent, .inr ⟨n, a, (henabled n).mpr rfl, (hactive a).mpr rfl, h⟩⟩⟩
    rw [haccounted, hanswered]
    cases stateSays n with
    | none => cases stateSays a <;> simp
    | some enabled => cases enabled <;> cases stateSays a <;> simp

end Parts

/-- An apply that reports success accounts for every service, exactly where a command was
refused or every probe that decides a service was answered. -/
theorem services_accounted_iff {ctx : Context} {config : PluginConfig} {es : List Exchange} {result : ApplyResult}
    (h : Run (applyPlugin ctx config) es (.ok result)) :
    (result.success = true → ∀ s ∈ unnecessaryServices, Accounted es result.changes s) ↔
      Refused es ∨ ∀ s ∈ unnecessaryServices, Answered config es s := by
  obtain ⟨hsuccess, ⟨parts⟩⟩ := parts_of_run h
  rw [hsuccess, parts.success_iff]
  by_cases hr : Refused es
  · simp [hr]
  · have hiff : ∀ s ∈ unnecessaryServices, Accounted es result.changes s ↔ Answered config es s := by
      intro s hs
      by_cases hfound : parts.Found s
      · exact parts.accounted_iff_found hr hfound
      · exact parts.accounted_iff_missing hr hs hfound
    constructor
    · exact fun hall => .inr fun s hs => (hiff s hs).mp (hall hr s hs)
    · intro hall _ s hs
      exact (hiff s hs).mpr (hall.resolve_left hr s hs)

end LinuxHardener.Services
