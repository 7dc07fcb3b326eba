import LinuxHardener.Permissions.Apply

/-
  A successful apply of permissions accounts for every critical path: its absence or its mode
  was read, or its mode was changed, or a skip names it. A probe that fails leads to a failed
  change or to a change that needs no answer.
-/
namespace LinuxHardener.Permissions

open LineText Dialogue
open Plugins (Change PluginConfig FileMetadata CommandOutput)
open Core (ApplyResult)

/-- The mode was set: by `fchmod`, or by a `chmod` whose result was read back. -/
def SetMode (es : List Exchange) (d : PermissionDirective) (target : Mode) : Prop :=
  ⟨.fchmod d.path target, .ok ()⟩ ∈ es ∨
    ∃ output metadata, ⟨.executor (.execute "chmod" [octal target, d.path]), .ok output⟩ ∈ es ∧ output.success = true ∧
      ⟨.executor (.metadata d.path), .ok metadata⟩ ∈ es ∧ violates d (permissionBits metadata.mode) = false

/-- A change names a path where the path stands before a colon or a blank. -/
def Names (c : Change) (path : Chars) : Prop :=
  ∃ rest, c.description = path ++ rest ∧ (rest.head? = some ':' ∨ rest.head? = some ' ')

def Accounted (config : PluginConfig) (es : List Exchange) (changes : List Change) (d : PermissionDirective) : Prop :=
  ⟨.executor (.pathExists d.path), .ok false⟩ ∈ es ∨
  (∃ metadata, ⟨.executor (.metadata d.path), .ok metadata⟩ ∈ es ∧ metadata.fileExists = true ∧
    violates (effectiveDirective d config) (permissionBits metadata.mode) = false) ∨
  (∃ current target, changedMode d current target ∈ changes ∧ violates (effectiveDirective d config) target = false ∧
    SetMode es (effectiveDirective d config) target) ∨
  ∃ c ∈ changes, c.isSkipped = true ∧ Names c d.path

theorem Accounted.mono {config : PluginConfig} {es es' : List Exchange} {changes changes' : List Change}
    {d : PermissionDirective} (h : Accounted config es changes d) (hes : ∀ e ∈ es, e ∈ es') (hc : ∀ c ∈ changes, c ∈ changes') :
    Accounted config es' changes' d := by
  obtain habsent | ⟨m, hm, hgood⟩ | ⟨current, target, hmem, hgood, hset⟩ | ⟨c, hmem, hskip⟩ := h
  · exact .inl (hes _ habsent)
  · exact .inr (.inl ⟨m, hes _ hm, hgood⟩)
  · refine .inr (.inr (.inl ⟨current, target, hc _ hmem, hgood, ?_⟩))
    obtain hf | ⟨output, m, ho, hs, hm, hv⟩ := hset
    · exact .inl (hes _ hf)
    · exact .inr ⟨output, m, hes _ ho, hs, hes _ hm, hv⟩
  · exact .inr (.inr (.inr ⟨c, hc _ hmem, hskip⟩))

@[simp] theorem effectiveDirective_path (d : PermissionDirective) (config : PluginConfig) :
    (effectiveDirective d config).path = d.path := by
  unfold effectiveDirective
  split <;> rfl

/-- What is aimed at is what the directive asks for. -/
theorem violates_targetMode (d : PermissionDirective) (current : Mode) : violates d (targetMode d current) = false := by
  unfold violates targetMode
  split
  · simp [BitVec.and_assoc]
  · simp

section

variable {d : PermissionDirective} {current : Option Mode} {es : List Exchange}

theorem run_ask' {β : Type} {q : Query} {f : q.Answer → Session β} {b : β} :
    Run (ask q >>= f) es b ↔ ∃ r es', es = ⟨q, r⟩ :: es' ∧ Run (f r) es' b := run_ask

theorem names_of {c : Change} {path start rest : Chars} (h : c.description = path ++ start ++ rest)
    (hstart : start.head? = some ':' ∨ start.head? = some ' ') : Names c path := by
  refine ⟨start ++ rest, by rw [h, List.append_assoc], ?_⟩
  cases start with
  | nil => simp at hstart
  | cons c start => exact hstart

theorem names_unverifiedSkip (d : PermissionDirective) : Names (unverifiedSkip d) d.path := names_of rfl (by simp)

theorem names_exceptionSkip (path reason : Chars) : Names (exceptionSkip path reason) path := by
  unfold exceptionSkip
  rw [List.append_assoc]
  exact names_of rfl (by simp)

theorem names_nonPosixSkip (path fstype : Chars) : Names (.made .skipped (nonPosixGuidance path fstype)) path := by
  unfold nonPosixGuidance
  rw [List.append_assoc, List.append_assoc]
  exact names_of rfl (by simp)

theorem stillWrong_success (mode target : Mode) : (stillWrong d mode target).success = false := rfl

/-- A change of mode that did not fail. -/
def Changed (d : PermissionDirective) (current : Option Mode) (es : List Exchange) (c : Change) : Prop :=
  c = changedMode d current (targetMode d (current.getD 0)) ∧ SetMode es d (targetMode d (current.getD 0))

theorem run_applyLocalFchmod {c : Change} (h : Run (applyLocalFchmod d current) es c) (hs : c.success = true) :
    Changed d current es c := by
  obtain ⟨directory, es₁, rfl, hopen⟩ := run_ask'.mp h
  obtain ⟨opened, es₂, rfl, hrest⟩ := run_ask'.mp hopen
  cases opened with
  | error e =>
    obtain ⟨rfl, rfl⟩ := run_pure.mp hrest
    cases hs
  | ok u =>
    obtain ⟨r, es₃, rfl, hlast⟩ := run_ask'.mp hrest
    cases r with
    | error e =>
      obtain ⟨rfl, rfl⟩ := run_pure.mp hlast
      cases hs
    | ok u =>
      obtain ⟨rfl, rfl⟩ := run_pure.mp hlast
      exact ⟨rfl, .inl (.tail _ (.tail _ (.head _)))⟩

theorem run_applyRemoteChmod {c : Change} (h : Run (applyRemoteChmod d current) es c) (hs : c.success = true) :
    Changed d current es c := by
  obtain ⟨r, es₁, rfl, hrest⟩ := run_ask'.mp h
  cases r with
  | error e =>
    obtain ⟨rfl, rfl⟩ := run_pure.mp hrest
    cases hs
  | ok output =>
    dsimp only at hrest
    split at hrest
    · next hok =>
      obtain ⟨r, es₂, rfl, hlast⟩ := run_ask'.mp hrest
      cases r with
      | error e =>
        obtain ⟨rfl, rfl⟩ := run_pure.mp hlast
        cases hs
      | ok metadata =>
        obtain ⟨rfl, rfl⟩ := run_pure.mp hlast
        cases hv : violates d (permissionBits metadata.mode) with
        | true =>
          rw [hv, if_pos rfl, stillWrong_success] at hs
          cases hs
        | false =>
          rw [if_neg Bool.false_ne_true]
          exact ⟨rfl, .inr ⟨output, metadata, .head _, hok, .tail _ (.head _), hv⟩⟩
    · obtain ⟨rfl, rfl⟩ := run_pure.mp hrest
      cases hs

/-- The chmod was made, or the filesystem's type stands in a skip. -/
theorem run_changeMode {isRemote : Bool} {c : Change} (h : Run (changeMode isRemote d current) es c) (hs : c.success = true) :
    Changed d current es c ∨ c.isSkipped = true ∧ Names c d.path := by
  obtain ⟨es₁, fstype, es₂, rfl, _, hrest⟩ := run_bind.mp h
  cases fstype with
  | some fstype =>
    obtain ⟨rfl, rfl⟩ := run_pure.mp hrest
    exact .inr ⟨rfl, names_nonPosixSkip _ _⟩
  | none =>
    have hchanged : Changed d current es₂ c := by
      cases isRemote with
      | true => exact run_applyRemoteChmod hrest hs
      | false => exact run_applyLocalFchmod hrest hs
    refine .inl ⟨hchanged.1, ?_⟩
    obtain hf | ⟨output, m, ho, hok, hm, hv⟩ := hchanged.2
    · exact .inl (List.mem_append_right _ hf)
    · exact .inr ⟨output, m, List.mem_append_right _ ho, hok, List.mem_append_right _ hm, hv⟩

theorem SetMode.mono {es' : List Exchange} {target : Mode} (h : SetMode es d target) (hes : ∀ e ∈ es, e ∈ es') :
    SetMode es' d target := by
  obtain hf | ⟨output, m, ho, hok, hm, hv⟩ := h
  · exact .inl (hes _ hf)
  · exact .inr ⟨output, m, hes _ ho, hok, hes _ hm, hv⟩

/-- What a successful outcome rests on: an answer that nothing is there, the mode that was
read, the mode that was set, or a skip. -/
theorem run_applyPathPermissions {isRemote : Bool} {outcome : Option Change}
    (h : Run (applyPathPermissions isRemote d current) es outcome) (hs : outcome.toList.all Change.success = true) :
    ⟨.executor (.pathExists d.path), .ok false⟩ ∈ es ∨ (∃ mode, current = some mode ∧ violates d mode = false) ∨
      ∃ c, outcome = some c ∧ (Changed d current es c ∨ c.isSkipped = true ∧ Names c d.path) := by
  obtain ⟨found, es₁, rfl, hfound⟩ := run_ask'.mp h
  have hchange : Run (do return some (← changeMode isRemote d current)) es₁ outcome →
      ∃ c, outcome = some c ∧ (Changed d current (⟨.executor (.pathExists d.path), found⟩ :: es₁) c ∨
        c.isSkipped = true ∧ Names c d.path) := by
    intro hrun
    obtain ⟨es₂, c, es₃, rfl, hc, hlast⟩ := run_bind.mp hrun
    obtain ⟨rfl, rfl⟩ := run_pure.mp hlast
    refine ⟨c, rfl, ?_⟩
    obtain ⟨heq, hset⟩ | hskip := run_changeMode hc (by simpa using hs)
    · exact .inl ⟨heq, hset.mono fun e he => .tail _ (List.mem_append_left _ he)⟩
    · exact .inr hskip
  cases found with
  | error e =>
    obtain ⟨rfl, rfl⟩ := run_pure.mp hfound
    cases hs
  | ok found =>
    cases found with
    | false => exact .inl (.head _)
    | true =>
      right
      dsimp only at hfound
      cases current with
      | some mode =>
        dsimp only at hfound
        split at hfound
        · exact .inr (hchange hfound)
        · next hgood => exact .inl ⟨mode, rfl, Bool.eq_false_of_not_eq_true hgood⟩
      | none =>
        right
        dsimp only at hfound
        split at hfound
        · obtain ⟨rfl, rfl⟩ := run_pure.mp hfound
          exact ⟨_, rfl, .inr ⟨rfl, names_unverifiedSkip d⟩⟩
        · exact hchange hfound

end

/-- One path, whatever its probes answered. -/
theorem directive_accounted {isRemote : Bool} {config : PluginConfig} {d : PermissionDirective} {es : List Exchange}
    {changes : List Change} (h : Run (applyDirective isRemote config d) es changes)
    (hs : changes.all Change.success = true) : Accounted config es changes d := by
  obtain ⟨es₁, current, es₂, rfl, hcurrent, hrest⟩ := run_bind.mp h
  obtain ⟨answer, es₃, rfl, hread⟩ := run_ask'.mp hcurrent
  obtain ⟨rfl, rfl⟩ := run_pure.mp hread
  cases hex : (verifiedMode answer).bind (matchingModeException config d.path) with
  | some exception =>
    rw [hex] at hrest
    obtain ⟨rfl, rfl⟩ := run_pure.mp hrest
    exact .inr (.inr (.inr ⟨_, .head _, rfl, names_exceptionSkip _ _⟩))
  | none =>
    rw [hex] at hrest
    obtain ⟨es₄, outcome, es₅, rfl, hpath, hlast⟩ := run_bind.mp hrest
    obtain ⟨rfl, rfl⟩ := run_pure.mp hlast
    have htail : ∀ e ∈ es₄, e ∈ ([⟨.executor (.metadata d.path), answer⟩] ++ (es₄ ++ []) : List Exchange) := by
      intro e he
      simp [he]
    obtain habsent | ⟨mode, hmode, hgood⟩ | ⟨c, rfl, hc⟩ := run_applyPathPermissions hpath hs
    · rw [effectiveDirective_path] at habsent
      exact .inl (htail _ habsent)
    · cases answer with
      | error e => cases hmode
      | ok metadata =>
        unfold verifiedMode at hmode
        dsimp only at hmode
        split at hmode
        · next hexists =>
          cases hmode
          exact .inr (.inl ⟨metadata, .head _, hexists, hgood⟩)
        · cases hmode
    · obtain ⟨rfl, hset⟩ | ⟨hskip, hnames⟩ := hc
      · refine .inr (.inr (.inl ⟨verifiedMode answer, targetMode (effectiveDirective d config) ((verifiedMode answer).getD 0),
          ?_, violates_targetMode _ _, hset.mono htail⟩))
        simp [changedMode]
      · rw [effectiveDirective_path] at hnames
        exact .inr (.inr (.inr ⟨c, .head _, hskip, hnames⟩))

theorem criticalPermissions_nodup : criticalPermissions.Nodup := by decide

/-- An apply that reports success accounts for every critical path. -/
theorem permissions_accounted {ctx : Plugins.Context} {config : PluginConfig} {es : List Exchange} {result : ApplyResult}
    (h : Run (applyPlugin ctx config) es (.ok result)) (hs : result.success = true) :
    ∀ d ∈ criticalPermissions, Accounted config es result.changes d := by
  obtain ⟨es₁, id, es₂, rfl, _, hrest⟩ := run_bind.mp h
  cases id with
  | error e => cases (run_pure.mp hrest).2
  | ok id =>
    obtain ⟨es₃, changes, es₄, rfl, happly, hlast⟩ := run_bind.mp hrest
    obtain ⟨rfl, heq⟩ := run_pure.mp hlast
    cases heq
    obtain ⟨es₅, pieces, es₆, rfl, hpieces, hlast⟩ := run_bind.mp happly
    obtain ⟨rfl, rfl⟩ := run_pure.mp hlast
    obtain ⟨events, reported, rfl, rfl, hruns⟩ := run_mapM criticalPermissions_nodup hpieces
    have hall : ∀ c ∈ (criticalPermissions.map reported).flatten, c.success = true := fun c hc =>
      List.all_eq_true.mp hs c (List.mem_append_right _ hc)
    intro d hd
    have hmem : ∀ c ∈ reported d, c ∈ (criticalPermissions.map reported).flatten := fun c hc =>
      List.mem_flatten.mpr ⟨_, List.mem_map_of_mem hd, hc⟩
    have hd' := directive_accounted (hruns d hd) (List.all_eq_true.mpr fun c hc => hall c (hmem c hc))
    apply hd'.mono
    · intro e he
      have : e ∈ criticalPermissions.flatMap events := List.mem_flatMap.mpr ⟨d, hd, he⟩
      simp [this]
    · exact fun c hc => List.mem_append_right _ (hmem c hc)

end LinuxHardener.Permissions
