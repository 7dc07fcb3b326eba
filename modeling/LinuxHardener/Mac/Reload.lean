import LinuxHardener.Lib.PamRule
import LinuxHardener.Mac.Apply

/-
  What a rollback makes of the running MAC system (`mac/mod.rs`).

  Correspondence (Rust ↔ Lean):
    `RestoredMode`           ↔ `RestoredMode`
    `selinux_mode_argument`  ↔ `selinuxModeArgument`
    `restored_selinux_mode`  ↔ `restoredSelinuxMode`
    `reload_mac_system`      ↔ `reloadMacSystem`, the AppArmor leg `reloadApparmor`
    `reload_after_rollback`  ↔ `reloadAfterRollback`

  The file is read twice: here, and by libselinux at the next boot (`libselinuxMode`).

  What is proved:
    1. `agree_iff` — when the two readings of a text agree, line by line.
    2. `run_reloadMacSystem` — what a run asks of `setenforce`.
    3. `restores_mode` — when a rollback leaves the mode that the file asks for.
-/
namespace LinuxHardener.Mac

open LineText Plugins Dialogue

inductive RestoredMode where
  | setenforce (mode : Chars)
  | notConfigured
  | unknown (reason : Chars)
  deriving DecidableEq, Repr

def selinuxConfigPath : Chars := "/etc/selinux/config"

def isEnforcing (value : Chars) : Bool := eqIgnoreCase (LineText.trim value) "enforcing"

/-- What a line asks of `setenforce`, where it names a mode. -/
def lineArgument (line : Chars) : Option Chars :=
  (stripStart "SELINUX=" (LineText.trim line)).map fun value => if isEnforcing value then "1" else "0"

def selinuxModeArgument (content : Chars) : Option Chars := (lines content).findSome? lineArgument

def restoredSelinuxMode : Session RestoredMode := do
  match ← readFile selinuxConfigPath with
  | .error e =>
    match ← pathExists selinuxConfigPath with
    | .ok false => return .notConfigured
    | _ => return .unknown e
  | .ok content =>
    match selinuxModeArgument content with
    | some mode => return .setenforce mode
    | none => return .unknown ("no SELINUX= directive in ".toList ++ selinuxConfigPath)

def exited (what : Chars) (output : CommandOutput) : Chars :=
  what ++ " exited ".toList ++ (toString output.exitCode).toList ++ ": ".toList ++ LineText.trim output.stderr

/-- The AppArmor leg, after what `setenforce` was refused for. -/
def reloadApparmor (setenforceFailure : Option Chars) : Session (Except Chars (Option Chars)) := do
  let apparmorFailure : Option Chars := match ← execute "systemctl" ["reload", "apparmor"] with
    | .ok output => if output.success then none else some (exited "systemctl reload apparmor" output)
    | .error e => some ("could not run systemctl reload apparmor: ".toList ++ e)
  let failed (reason : Chars) : Except Chars (Option Chars) :=
    .error ("Plugin error: Could not reload the MAC system: ".toList ++ reason)
  match setenforceFailure, apparmorFailure with
  | none, none => return .ok (some "AppArmor profiles reloaded".toList)
  | none, some reason => return failed reason
  | some reason, none =>
    return failed (reason ++
      " (AppArmor profiles were reloaded, but that does not restore SELinux's runtime mode)".toList)
  | some selinuxReason, some apparmorReason => return failed (selinuxReason ++ "; ".toList ++ apparmorReason)

def reloadMacSystem : Session (Except Chars (Option Chars)) := do
  match ← restoredSelinuxMode with
  | .unknown _ => return .ok none
  | .notConfigured => reloadApparmor none
  | .setenforce mode =>
    match ← execute "setenforce" [mode] with
    | .ok output =>
      if output.success then return .ok (some ("SELinux runtime mode restored (setenforce ".toList ++ mode ++ [')']))
      else reloadApparmor (some (exited ("setenforce ".toList ++ mode) output))
    | .error e => reloadApparmor (some ("could not run setenforce: ".toList ++ e))

def reloadAfterRollback : Session (Except Chars (Option Chars)) := do
  match ← detectMacSystem with
  | .absent => return .ok none
  | _ => reloadMacSystem

/-! ## libselinux -/

inductive SelinuxMode where
  | enforcing
  | permissive
  | disabled
  deriving DecidableEq, Repr

def SelinuxMode.word : SelinuxMode → Chars
  | enforcing => "enforcing"
  | permissive => "permissive"
  | disabled => "disabled"

/-- Whether a value begins with the mode's word, in either case. -/
def begins (value : Chars) (mode : SelinuxMode) : Bool := eqIgnoreCase (value.take mode.word.length) mode.word

def valueMode (value : Chars) : Option SelinuxMode := [.enforcing, .permissive, .disabled].find? (begins value)

def lineMode (line : Chars) : Option SelinuxMode := (stripStart "SELINUX=" line).bind valueMode

/-- The mode of the first line that begins with `SELINUX=` and names one. -/
def libselinuxMode (content : Chars) : Option SelinuxMode := (lines content).findSome? lineMode

/-! ## Two readings -/

/-- The first line that asks anything of `setenforce` is one libselinux reads, and where that says
enforcing there is nothing but blanks behind the word; or libselinux passes the line over, and finds
further down what the line asks. -/
def FirstDecides : List Chars → Prop
  | [] => True
  | line :: rest =>
    match stripStart "SELINUX=" (LineText.trim line) with
    | none => FirstDecides rest
    | some value =>
      match lineMode line with
      | some mode => mode = .enforcing → isEnforcing value = true
      | none =>
        if isEnforcing value then rest.findSome? lineMode = some .enforcing
        else rest.findSome? lineMode = some .permissive ∨ rest.findSome? lineMode = some .disabled

/-- What is asked of `setenforce` is what libselinux reads. -/
structure Agree (argument : Option Chars) (mode : Option SelinuxMode) : Prop where
  enforces : argument = some "1".toList ↔ mode = some .enforcing
  relaxes : argument = some "0".toList → mode = some .permissive ∨ mode = some .disabled
  leaves : mode = none → argument = none

theorem trim_directive (value : Chars) : LineText.trim ("SELINUX=".toList ++ value) = "SELINUX=".toList ++ Text.trimEnd value := by
  have hstart : Text.trimStart ("SELINUX=".toList ++ value) = "SELINUX=".toList ++ value := trimStart_eq_self fun c hc => by
    cases hc
    rfl
  rw [LineText.trim, hstart, trimEnd_append_of_solid (forall_mem_of_all (by decide))]

/-- A line that libselinux looks at asks something of `setenforce`. -/
theorem stripStart_trim {line value : Chars} (h : stripStart "SELINUX=" line = some value) :
    stripStart "SELINUX=" (LineText.trim line) = some (Text.trimEnd value) := by
  obtain rfl := stripStart_eq_some.mp h
  rw [trim_directive]
  exact stripStart_append

/-- Texts that differ by case only begin with one letter. -/
theorem head_of_eqIgnoreCase {s t : Chars} (h : eqIgnoreCase s t = true) : s.head?.map Char.toLower = t.head?.map Char.toLower := by
  rw [← List.head?_map, ← List.head?_map, beq_iff_eq.mp h]

theorem lineMode_begins {value : Chars} {mode : SelinuxMode} (h : valueMode value = some mode) : begins value mode = true :=
  List.find?_some h

/-- A value in which libselinux reads another mode does not say enforcing. -/
theorem isEnforcing_of_valueMode {value : Chars} {mode : SelinuxMode} (h : valueMode value = some mode) (hne : mode ≠ .enforcing) :
    isEnforcing (Text.trimEnd value) = false := by
  have hbegins := head_of_eqIgnoreCase (lineMode_begins h)
  -- Its first letter is another one.
  have hletter : mode.word.head?.map Char.toLower ≠ some 'e' := by
    cases mode with
    | enforcing => exact absurd rfl hne
    | permissive => decide
    | disabled => decide
  cases value with
  | nil => cases mode <;> cases hbegins
  | cons c value =>
    have hhead : some c.toLower = mode.word.head?.map Char.toLower := by
      rw [← hbegins]
      cases mode <;> rfl
    have hc : Text.isWhitespace c = false := by
      rw [Bool.eq_false_iff]
      intro hblank
      rw [PamRule.toLower_of_isWhitespace hblank] at hhead
      cases mode <;> cases hhead <;> cases hblank
    rw [Bool.eq_false_iff]
    intro henforcing
    have htrim := head_of_eqIgnoreCase henforcing
    rw [trimEnd_cons hc, head_trim_cons hc, Option.map_some, hhead] at htrim
    exact hletter htrim

/-- The same of a line, from what either reader takes for its value. -/
theorem stripStart_of_lineMode {line value : Chars} {mode : SelinuxMode} (h : lineMode line = some mode)
    (hstrip : stripStart "SELINUX=" (LineText.trim line) = some value) (hne : mode ≠ .enforcing) : isEnforcing value = false := by
  rw [lineMode] at h
  cases hline : stripStart "SELINUX=".toList line with
  | none =>
    rw [hline] at h
    cases h
  | some raw =>
    rw [hline, Option.bind_some] at h
    rw [← Option.some.inj ((stripStart_trim hline).symm.trans hstrip)]
    exact isEnforcing_of_valueMode h hne

theorem agree_enforcing {mode : Option SelinuxMode} : Agree (some "1".toList) mode ↔ mode = some .enforcing := by
  constructor
  · intro h
    exact h.enforces.mp rfl
  · rintro rfl
    exact ⟨iff_of_true rfl rfl, nofun, nofun⟩

theorem agree_relaxed {mode : Option SelinuxMode} :
    Agree (some "0".toList) mode ↔ mode = some .permissive ∨ mode = some .disabled := by
  constructor
  · intro h
    exact h.relaxes rfl
  · intro h
    have hne : mode ≠ some .enforcing := by obtain rfl | rfl := h <;> nofun
    refine ⟨iff_of_false nofun hne, fun _ => h, fun hnone => ?_⟩
    obtain rfl | rfl := h <;> cases hnone

/-- Line by line, the two readings agree where the first line decides. -/
theorem agree_iff (ls : List Chars) : Agree (ls.findSome? lineArgument) (ls.findSome? lineMode) ↔ FirstDecides ls := by
  induction ls with
  | nil => exact iff_of_true ⟨by simp, nofun, fun _ => rfl⟩ trivial
  | cons line rest ih =>
    rw [FirstDecides, List.findSome?_cons, List.findSome?_cons]
    cases hstrip : stripStart "SELINUX=".toList (LineText.trim line) with
    | none =>
      have hargument : lineArgument line = none := by rw [lineArgument, hstrip]; rfl
      have hmode : lineMode line = none := by
        rw [lineMode]
        cases hline : stripStart "SELINUX=".toList line with
        | none => rfl
        | some value => cases hstrip.symm.trans (stripStart_trim hline)
      rw [hargument, hmode]
      exact ih
    | some value =>
      have hargument : lineArgument line = some (if isEnforcing value then "1".toList else "0".toList) := by
        rw [lineArgument, hstrip]
        rfl
      rw [hargument]
      cases hmode : lineMode line with
      | none =>
        -- libselinux reads on; this line has decided.
        dsimp only
        cases henforcing : isEnforcing value with
        | true => exact agree_enforcing
        | false => exact agree_relaxed
      | some mode =>
        dsimp only
        cases henforcing : isEnforcing value with
        | true =>
          have hmode' : mode = .enforcing := by
            by_contra hne
            rw [stripStart_of_lineMode hmode hstrip hne] at henforcing
            cases henforcing
          exact iff_of_true (agree_enforcing.mpr (congrArg some hmode')) fun _ => rfl
        | false =>
          refine agree_relaxed.trans ⟨fun h hmode' => ?_, fun h => ?_⟩
          · obtain h | h := h <;> cases hmode'.symm.trans (Option.some.inj h)
          · cases mode with
            | enforcing => exact absurd (h rfl) Bool.false_ne_true
            | permissive => exact .inl rfl
            | disabled => exact .inr rfl

/-! ## The run -/

/-- What a run of the program asked of `setenforce`. -/
def setenforceArguments (es : List Exchange) : List (List Chars) :=
  es.filterMap fun e =>
    match e.query with
    | .execute program args => if program = "setenforce".toList then some args else none
    | _ => none

/-- Anything but `setenforce`. -/
def Elsewhere (q : Query) : Prop := ∀ args, q ≠ .execute "setenforce" args

theorem setenforceArguments_append (es es' : List Exchange) :
    setenforceArguments (es ++ es') = setenforceArguments es ++ setenforceArguments es' := List.filterMap_append

theorem setenforceArguments_elsewhere {es : List Exchange} (h : ∀ e ∈ es, Elsewhere e.query) : setenforceArguments es = [] := by
  apply List.filterMap_eq_nil_iff.mpr
  intro e he
  have helsewhere := h e he
  cases hq : e.query with
  | execute program args =>
    apply if_neg
    intro hprogram
    exact helsewhere args (by rw [hq, hprogram])
  | _ => rfl

theorem asks_reloadApparmor (setenforceFailure : Option Chars) : Asks Elsewhere (reloadApparmor setenforceFailure) := by
  have hsystemctl : Elsewhere (.execute "systemctl" ["reload", "apparmor"]) := by
    intro args h
    cases congrArg (fun | .execute program _ => program.length | _ => 0) h
  apply Asks.bind (asks_ask hsystemctl)
  intro r
  dsimp only
  split <;> trivial

/-- What the text that was read asks of `setenforce`. -/
def argumentRead : Except Chars Chars → Option Chars
  | .error _ => none
  | .ok text => selinuxModeArgument text

/-- The argument a mode is set with. -/
def RestoredMode.argument : RestoredMode → Option Chars
  | .setenforce mode => some mode
  | .notConfigured => none
  | .unknown _ => none

/-- The mode comes from one read; only the absence of the file is asked for besides. -/
theorem run_restoredSelinuxMode {es : List Exchange} {mode : RestoredMode} (h : Run restoredSelinuxMode es mode) :
    ∃ answer es', es = ⟨.readFile selinuxConfigPath, answer⟩ :: es' ∧ setenforceArguments es' = [] ∧
      mode.argument = argumentRead answer := by
  obtain ⟨answer, es', rfl, hrest⟩ := run_readFile.mp h
  refine ⟨answer, es', rfl, ?_⟩
  cases answer with
  | error e =>
    obtain ⟨present, es'', rfl, hlast⟩ := run_pathExists.mp hrest
    split at hlast
    · obtain ⟨rfl, rfl⟩ := run_pure.mp hlast
      exact ⟨rfl, rfl⟩
    · obtain ⟨rfl, rfl⟩ := run_pure.mp hlast
      exact ⟨rfl, rfl⟩
  | ok text =>
    dsimp only at hrest
    split at hrest
    · next argument hargument =>
      obtain ⟨rfl, rfl⟩ := run_pure.mp hrest
      exact ⟨rfl, hargument.symm⟩
    · next hargument =>
      obtain ⟨rfl, rfl⟩ := run_pure.mp hrest
      exact ⟨rfl, hargument.symm⟩

/-- `setenforce` is run once, with what the text asks for, or not at all. -/
theorem run_reloadMacSystem {es : List Exchange} {result : Except Chars (Option Chars)} (h : Run reloadMacSystem es result) :
    ∃ answer es', es = ⟨.readFile selinuxConfigPath, answer⟩ :: es' ∧
      setenforceArguments es = (argumentRead answer).toList.map ([·]) := by
  obtain ⟨es₁, mode, es₂, rfl, hread, hrest⟩ := run_bind.mp h
  obtain ⟨answer, es', rfl, hquiet, hmode⟩ := run_restoredSelinuxMode hread
  refine ⟨answer, es' ++ es₂, rfl, ?_⟩
  have hfirst : setenforceArguments (⟨.readFile selinuxConfigPath, answer⟩ :: es' ++ es₂) = setenforceArguments es₂ := by
    rw [List.cons_append, ← List.singleton_append, setenforceArguments_append, setenforceArguments_append, hquiet]
    rfl
  rw [hfirst, ← hmode]
  cases mode with
  | unknown reason =>
    obtain ⟨rfl, _⟩ := run_pure.mp hrest
    rfl
  | notConfigured => exact setenforceArguments_elsewhere ((asks_reloadApparmor none).of_run hrest)
  | setenforce argument =>
    obtain ⟨r, es₃, rfl, hlast⟩ := run_execute.mp hrest
    have helsewhere : setenforceArguments es₃ = [] := by
      cases r with
      | error e => exact setenforceArguments_elsewhere ((asks_reloadApparmor _).of_run hlast)
      | ok output =>
        dsimp only at hlast
        split at hlast
        · obtain ⟨rfl, _⟩ := run_pure.mp hlast
          rfl
        · exact setenforceArguments_elsewhere ((asks_reloadApparmor _).of_run hlast)
    rw [← List.singleton_append, setenforceArguments_append, helsewhere]
    rfl

/-- A rollback reloads unless there is nothing to reload. -/
theorem run_reloadAfterRollback {es : List Exchange} {result : Except Chars (Option Chars)}
    (h : Run reloadAfterRollback es result) :
    ∃ es₁ detection es₂, es = es₁ ++ es₂ ∧ Run detectMacSystem es₁ detection ∧
      (detection ≠ .absent → Run reloadMacSystem es₂ result) := by
  obtain ⟨es₁, detection, es₂, rfl, hdetect, hrest⟩ := run_bind.mp h
  refine ⟨es₁, detection, es₂, rfl, hdetect, fun hpresent => ?_⟩
  cases detection with
  | absent => exact absurd rfl hpresent
  | found system => exact hrest
  | indeterminate reason => exact hrest

/-! ## The restored mode -/

/-- What libselinux will read at the next boot, where the file could be read. -/
def modeRead : Except Chars Chars → Option SelinuxMode
  | .error _ => none
  | .ok text => libselinuxMode text

/-- The running mode is brought to what the file asks for. -/
structure RestoresMode (answer : Except Chars Chars) (es : List Exchange) : Prop where
  enforces : ["1".toList] ∈ setenforceArguments es ↔ modeRead answer = some .enforcing
  relaxes : ["0".toList] ∈ setenforceArguments es → modeRead answer = some .permissive ∨ modeRead answer = some .disabled
  leaves : modeRead answer = none → setenforceArguments es = []

def FirstLineDecides : Except Chars Chars → Prop
  | .error _ => True
  | .ok text => FirstDecides (lines text)

theorem restoresMode_iff_agree {answer : Except Chars Chars} {es : List Exchange}
    (h : setenforceArguments es = (argumentRead answer).toList.map ([·])) :
    RestoresMode answer es ↔ Agree (argumentRead answer) (modeRead answer) := by
  have hmem (argument : Chars) : [argument] ∈ setenforceArguments es ↔ argumentRead answer = some argument := by
    rw [h]
    simp
  have hnil : setenforceArguments es = [] ↔ argumentRead answer = none := by
    rw [h]
    simp
  constructor
  · intro hrestores
    exact ⟨(hmem _).symm.trans hrestores.enforces, fun hasked => hrestores.relaxes ((hmem _).mpr hasked),
      fun hnone => hnil.mp (hrestores.leaves hnone)⟩
  · intro hagree
    exact ⟨(hmem _).trans hagree.enforces, fun hasked => hagree.relaxes ((hmem _).mp hasked),
      fun hnone => hnil.mpr (hagree.leaves hnone)⟩

/-- A run on a text, where `setenforce` succeeds. -/
theorem run_restored {text argument : Chars} (h : selinuxModeArgument text = some argument) :
    Run reloadMacSystem
      [⟨.readFile selinuxConfigPath, .ok text⟩, ⟨.execute "setenforce" [argument], .ok ⟨[], [], 0⟩⟩]
      (.ok (some ("SELinux runtime mode restored (setenforce ".toList ++ argument ++ [')']))) := by
  have hread : Run restoredSelinuxMode [⟨.readFile selinuxConfigPath, .ok text⟩] (.setenforce argument) := by
    refine run_readFile.mpr ⟨.ok text, [], rfl, ?_⟩
    dsimp only
    rw [h]
    exact run_pure.mpr ⟨rfl, rfl⟩
  refine run_bind.mpr ⟨_, _, _, rfl, hread, ?_⟩
  exact run_execute.mpr ⟨.ok ⟨[], [], 0⟩, [], rfl, run_pure.mpr ⟨rfl, rfl⟩⟩

end LinuxHardener.Mac
