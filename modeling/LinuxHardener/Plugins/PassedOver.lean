import LinuxHardener.Services.Accounted
import LinuxHardener.Permissions.Accounted
import LinuxHardener.Mac.Accounted

/-
  What a successful apply leaves undone without a word.

  The permissions and the MAC plugin leave nothing; the services plugin passes over a
  service whose probe failed. What is proved: `applies_account_iff` — what each plugin
  accounts for, and exactly when the services plugin does; `cups_passed_over` — a host
  where it does not.
-/
namespace LinuxHardener.Plugins

open LineText Dialogue
open Core (ApplyResult)

theorem applies_account_iff (ctx : Context) (config : PluginConfig) (es : List Exchange) (fs : List Permissions.Exchange)
    (result : ApplyResult) :
    (Run (Services.applyPlugin ctx config) es (.ok result) →
      ((result.success = true → ∀ s ∈ Services.unnecessaryServices, Services.Accounted es result.changes s) ↔
        Services.Refused es ∨ ∀ s ∈ Services.unnecessaryServices, Services.Answered config es s)) ∧
    (Run (Permissions.applyPlugin ctx config) fs (.ok result) → result.success = true →
      ∀ d ∈ Permissions.criticalPermissions, Permissions.Accounted config fs result.changes d) ∧
    (Run (Mac.applyPlugin ctx config) es (.ok result) → result.success = true → Mac.Accounted es result.changes) :=
  ⟨Services.services_accounted_iff, Permissions.permissions_accounted, Mac.mac_accounted⟩

/-! ## A host without any of the services, and a listing that is lost -/

def noDirectives : PluginConfig := ⟨fun _ => none, fun _ => none⟩

/-- The listings of an apply that finds nothing. -/
def listings (answer : Chars → Except Chars CommandOutput) : List Exchange :=
  Services.unnecessaryServices.map fun s => ⟨Services.existsQuery s, answer s⟩

theorem run_nothingFound {answer : Chars → Except Chars CommandOutput}
    (h : ((Services.unnecessaryServices.zip (Services.unnecessaryServices.map fun s => Services.listedResult s (answer s))).filterMap
      fun (s, listed) => if Services.unwrapOrFalse listed then some s else none) = []) :
    Run (Services.applyPlugin ⟨true, false⟩ noDirectives) (listings answer) (.ok (Services.resultOf [] none)) := by
  have hlistings : Run (Services.unnecessaryServices.mapM Services.isServiceExists)
      (Services.unnecessaryServices.flatMap fun s => [⟨Services.existsQuery s, answer s⟩])
      (Services.unnecessaryServices.map fun s => Services.listedResult s (answer s)) :=
    run_mapM_of fun s _ => run_execute.mpr ⟨_, [], rfl, .done⟩
  have hinstalled : Run (Services.installedServices Services.unnecessaryServices) (listings answer) [] :=
    run_bind.mpr ⟨_, _, [], rfl, hlistings, run_pure.mpr ⟨rfl, h⟩⟩
  exact run_bind.mpr ⟨_, _, [], (List.append_nil _).symm, hinstalled, .done⟩

/-- No unit matches. -/
def noMatch : Except Chars CommandOutput := .ok ⟨[], [], 1⟩

theorem nothing_installed_accounted :
    ∀ s ∈ Services.unnecessaryServices, Services.Accounted (listings fun _ => noMatch) [] s := by
  have hiff := (applies_account_iff ⟨true, false⟩ noDirectives _ [] _).1 (@run_nothingFound (fun _ => noMatch) (by decide))
  apply hiff.mpr
  · right
    intro s hs
    exact ⟨noMatch, List.mem_map.mpr ⟨s, hs, rfl⟩, .inl (by revert s; decide)⟩
  · rfl

/-- No service is installed but CUPS, whose listing is lost. -/
def lostListing (service : Chars) : Except Chars CommandOutput :=
  if service = "cups".toList then .error "connection lost" else noMatch

theorem cups_passed_over :
    ¬ ∀ (ctx : Context) (config : PluginConfig) (es : List Exchange) (result : ApplyResult),
      Run (Services.applyPlugin ctx config) es (.ok result) → result.success = true →
        ∀ s ∈ Services.unnecessaryServices, Services.Accounted es result.changes s := by
  intro h
  have hcups := h _ _ _ _ (@run_nothingFound lostListing (by decide)) rfl "cups".toList (by decide)
  obtain ⟨r, hr, hsays⟩ | ⟨r, r', hr, _⟩ | ⟨hmask, _⟩ | ⟨reason, hskip⟩ := hcups
  · obtain ⟨s, hs, heq⟩ := List.mem_map.mp hr
    have hunit : Services.unitName s = Services.unitName "cups".toList := by
      have hquery := congrArg Event.query heq
      simp only [Services.existsQuery, Query.execute.injEq, List.cons.injEq, and_true, true_and] at hquery
      exact hquery
    have hname : s = "cups".toList := List.append_cancel_right hunit
    subst hname
    cases heq
    cases hsays
  · obtain ⟨s, hs, heq⟩ := List.mem_map.mp hr
    cases congrArg Event.query heq
  · cases hmask
  · cases hskip

end LinuxHardener.Plugins
