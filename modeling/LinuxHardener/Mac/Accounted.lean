import LinuxHardener.Mac.Apply

/-
  A successful apply of the MAC plugin accounts for the MAC system: both were found absent,
  or the one found was set to enforce, or a skip names it.
-/
namespace LinuxHardener.Mac

open LineText Plugins Dialogue
open Core (ApplyResult)

def MacSystem.label : MacSystem → Chars
  | .seLinux => "SELinux"
  | .appArmor => "AppArmor"

def Accounted (es : List Exchange) (changes : List Change) : Prop :=
  (∀ entry ∈ macPaths, ⟨.pathExists entry.1, .ok false⟩ ∈ es) ∨
  ∃ entry ∈ macPaths, ⟨.pathExists entry.1, .ok true⟩ ∈ es ∧
    ((∃ c ∈ changes, c.isSkipped = true ∧ entry.2.label <+: c.description) ∨
      entry.2 = .seLinux ∧ ∃ mode output, setEnforcing mode ∈ changes ∧
        ⟨.execute "setenforce" ["1"], .ok output⟩ ∈ es ∧ output.success = true)

theorem exceptionSkip_names (what reason : Chars) : what <+: (exceptionSkip what reason).description := by
  simp [exceptionSkip, Change.made]

/-- What a detection says, its probes answered. -/
def Detected (entries : List (Chars × MacSystem)) (es : List Exchange) : MacDetection → Prop
  | .found system => ∃ entry ∈ entries, entry.2 = system ∧ ⟨.pathExists entry.1, .ok true⟩ ∈ es
  | .absent => ∀ entry ∈ entries, ⟨.pathExists entry.1, .ok false⟩ ∈ es
  | .indeterminate _ => True

theorem detectAmong_detected {entries : List (Chars × MacSystem)} {es : List Exchange} {detection : MacDetection}
    (h : Run (detectAmong entries) es detection) : Detected entries es detection := by
  induction entries generalizing es with
  | nil =>
    obtain ⟨rfl, rfl⟩ := run_pure.mp h
    exact fun _ h => nomatch h
  | cons entry entries ih =>
    obtain ⟨path, system⟩ := entry
    obtain ⟨r, es₁, rfl, hrest⟩ := run_ask.mp h
    cases r with
    | error e =>
      obtain ⟨rfl, rfl⟩ := run_pure.mp hrest
      trivial
    | ok found =>
      cases found with
      | true =>
        obtain ⟨rfl, rfl⟩ := run_pure.mp hrest
        exact ⟨_, .head _, rfl, .head _⟩
      | false =>
        have hothers := ih hrest
        cases detection with
        | found system' =>
          obtain ⟨entry, hentry, hsystem, hyes⟩ := hothers
          exact ⟨entry, .tail _ hentry, hsystem, .tail _ hyes⟩
        | absent =>
          intro entry hentry
          obtain rfl | hentry := List.mem_cons.mp hentry
          · exact .head _
          · exact .tail _ (hothers entry hentry)
        | indeterminate reason => trivial

/-- What enforcing ends in, where it does not fail. -/
theorem run_setSelinuxEnforcing {es : List Exchange} {change : Change} (h : Run setSelinuxEnforcing es (.ok change))
    (hs : change.success = true) :
    change = alreadyEnforcing ∨ ∃ mode output, change = setEnforcing mode ∧
      (⟨.execute "setenforce" ["1"], .ok output⟩ : Exchange) ∈ es ∧ output.success = true := by
  obtain ⟨es₁, mode, es₂, rfl, _, hrest⟩ := run_bind.mp h
  cases mode with
  | error e => cases (run_pure.mp hrest).2
  | ok mode =>
    dsimp only at hrest
    split at hrest
    · obtain ⟨rfl, heq⟩ := run_pure.mp hrest
      cases heq
      exact .inl rfl
    · obtain ⟨r, es₃, rfl, hlast⟩ := run_execute.mp hrest
      cases r with
      | error e => cases (run_pure.mp hlast).2
      | ok output =>
        obtain ⟨rfl, heq⟩ := run_pure.mp hlast
        cases heq
        cases hok : output.success with
        | false =>
          rw [hok] at hs
          cases hs
        | true => exact .inr ⟨mode, output, by rw [if_pos rfl], by simp, hok⟩

/-- An apply that reports success accounts for the MAC system. -/
theorem mac_accounted {ctx : Context} {config : PluginConfig} {es : List Exchange} {result : ApplyResult}
    (h : Run (applyPlugin ctx config) es (.ok result)) (hs : result.success = true) : Accounted es result.changes := by
  obtain ⟨es₁, id, es₂, rfl, _, hrest⟩ := run_bind.mp h
  cases id with
  | error e => cases (run_pure.mp hrest).2
  | ok id =>
    obtain ⟨es₃, detection, es₄, rfl, hdetect, happly⟩ := run_bind.mp hrest
    obtain ⟨es₅, outcome, es₆, rfl, hchange, hlast⟩ := run_bind.mp happly
    have hdetected := detectAmong_detected hdetect
    have hes₃ : ∀ e ∈ es₃, e ∈ es₁ ++ (es₃ ++ (es₅ ++ es₆)) := by
      intro e he
      simp [he]
    cases outcome with
    | error e =>
      obtain ⟨_, heq⟩ := run_pure.mp hlast
      cases heq
      cases hs
    | ok change =>
      obtain ⟨_, heq⟩ := run_pure.mp hlast
      cases heq
      have hmem : change ∈ checkpointChange id ++ [change] := by simp
      have hok : change.success = true := List.all_eq_true.mp hs change hmem
      cases detection with
      | indeterminate reason =>
        obtain ⟨rfl, heq⟩ := run_pure.mp hchange
        cases heq
        cases hok
      | absent => exact .inl fun entry hentry => hes₃ _ (hdetected entry hentry)
      | found system =>
        obtain ⟨entry, hentry, rfl, hyes⟩ := hdetected
        refine .inr ⟨entry, hentry, hes₃ _ hyes, ?_⟩
        cases hsystem : entry.2 with
        | appArmor =>
          rw [hsystem] at hchange
          unfold applyDetected at hchange
          dsimp only at hchange
          split at hchange
          · obtain ⟨rfl, heq⟩ := run_pure.mp hchange
            cases heq
            exact .inl ⟨_, hmem, rfl, exceptionSkip_names _ _⟩
          · obtain ⟨rfl, heq⟩ := run_pure.mp hchange
            cases heq
            exact .inl ⟨_, hmem, rfl, by decide⟩
        | seLinux =>
          rw [hsystem] at hchange
          unfold applyDetected at hchange
          dsimp only at hchange
          split at hchange
          · obtain ⟨rfl, heq⟩ := run_pure.mp hchange
            cases heq
            exact .inl ⟨_, hmem, rfl, exceptionSkip_names _ _⟩
          · obtain rfl | ⟨mode, output, rfl, hset, hsuccess⟩ := run_setSelinuxEnforcing hchange hok
            · exact .inl ⟨_, hmem, rfl, by decide⟩
            · exact .inr ⟨rfl, mode, output, hmem,
                List.mem_append_right _ (List.mem_append_right _ (List.mem_append_left _ hset)), hsuccess⟩

end LinuxHardener.Mac
