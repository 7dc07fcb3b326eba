import LinuxHardener.Compliance.Evidence
import LinuxHardener.Lib.Bytes
import LinuxHardener.Plugins.Session
import Mathlib.Data.List.Sort

/-
  Plugins as the commands see them: what one is asked, what it answers, the registry that
  holds them and the configuration that turns them on.

  A plugin is a function of the surroundings `σ` it works on (the host and its context),
  so an apply is free to change what the next plugin meets.

  Correspondence (Rust ↔ Lean):
    `ApplyResult`, `ValidationReport`, `PluginOutcome` ↔ the structures of these names
    `Severity`, `has_blocking_issue`     ↔ `Severity`, `ValidationReport.hasBlockingIssue`
    `exception_preview_line`             ↔ `exceptionPreviewLine`
    `HardeningPlugin`                    ↔ `HardeningPlugin`
    `PluginRegistry::{register, get, list}` ↔ `PluginRegistry.{register, get, list}`
    `HardenerConfig::{is_plugin_enabled, get_plugin_config}` ↔ `HardenerConfig.isPluginEnabled`, `getPluginConfig`
-/
namespace LinuxHardener.Core

open LineText (Chars)
open Plugins (Change PluginConfig)
open Compliance (PluginId PluginMetadata ScanResult)

/-! ## Reports -/

structure ApplyResult where
  pluginId : PluginId
  success : Bool
  changes : List Change
  checkpointId : Option Chars
  error : Option Chars
  deriving DecidableEq, Repr

/-- The changes that were tried and failed. -/
def failedChanges (changes : List Change) : List Change := changes.filter fun c => c.isReal && !c.success

/-- What the failed changes say of themselves, in one line. -/
def joinFailureReasons (changes : List Change) : Option Chars :=
  match (failedChanges changes).filterMap Change.error with
  | [] => none
  | reasons => some ("; ".toList.intercalate reasons)

namespace ApplyResult

def appliedChangeCount (result : ApplyResult) : Nat := result.changes.countP fun c => c.isReal && c.success

def failedChangeCount (result : ApplyResult) : Nat := (failedChanges result.changes).length

/-- Why the plugin failed: its own words, or else those of its failed changes. -/
def failureReason (result : ApplyResult) : Option Chars :=
  match result.error with
  | some error => some error
  | none => if result.success then none else joinFailureReasons result.changes

end ApplyResult

inductive Severity where
  | info
  | low
  | medium
  | high
  | critical
  deriving DecidableEq, Repr

structure ValidationIssue where
  severity : Severity
  message : Chars
  configKey : Option Chars
  deriving DecidableEq, Repr

structure ValidationReport where
  pluginId : PluginId
  isValid : Bool
  issues : List ValidationIssue
  estimatedChanges : List Chars
  compliantCount : Nat
  exceptions : List Chars
  deriving DecidableEq, Repr

def exceptionPreviewLine (setting observed reason : Chars) : Chars :=
  setting ++ ": left at '".toList ++ observed ++ "' (POLICY EXCEPTION: ".toList ++ reason ++ ")".toList

/-- Critical and High only: lower severities are advisory. -/
def ValidationReport.hasBlockingIssue (report : ValidationReport) : Bool :=
  report.issues.any fun issue => issue.severity == .critical || issue.severity == .high

/-- One plugin's row in a fleet apply. -/
structure PluginOutcome where
  plugin : PluginId
  success : Bool
  applied : Nat
  failed : Nat
  error : Option Chars
  deriving DecidableEq, Repr

def PluginOutcome.ofResult (result : ApplyResult) : PluginOutcome where
  plugin := result.pluginId
  success := result.success
  applied := result.appliedChangeCount
  failed := result.failedChangeCount
  error := result.failureReason

/-! ## Plugins -/

structure HardeningPlugin (σ : Type) where
  metadata : PluginMetadata
  dependencies : List PluginId
  scan : PluginConfig → σ → Except Chars ScanResult × σ
  apply : PluginConfig → σ → Except Chars ApplyResult × σ
  validate : PluginConfig → σ → Except Chars ValidationReport × σ

def HardeningPlugin.id {σ : Type} (plugin : HardeningPlugin σ) : PluginId := plugin.metadata.pluginId

/-- Ids in the order of their bytes. -/
def idLe (a b : PluginMetadata) : Prop := utf8 a.pluginId.value ≤ utf8 b.pluginId.value

instance : DecidableRel idLe := fun a b => inferInstanceAs (Decidable (utf8 a.pluginId.value ≤ utf8 b.pluginId.value))

/-- The plugins by id: no id twice. -/
structure PluginRegistry (σ : Type) where
  plugins : List (HardeningPlugin σ)
  nodup : (plugins.map HardeningPlugin.id).Nodup

namespace PluginRegistry

variable {σ : Type}

def new : PluginRegistry σ := ⟨[], List.nodup_nil⟩

def register (registry : PluginRegistry σ) (plugin : HardeningPlugin σ) : Except Chars (PluginRegistry σ) :=
  if h : plugin.id ∈ registry.plugins.map HardeningPlugin.id then
    .error ("Plugin '".toList ++ plugin.id.value.toList ++ "' is already registered".toList)
  else .ok ⟨plugin :: registry.plugins, List.nodup_cons.mpr ⟨h, registry.nodup⟩⟩

def get (registry : PluginRegistry σ) (id : PluginId) : Option (HardeningPlugin σ) :=
  registry.plugins.find? fun plugin => plugin.id == id

/-- The plugins' metadata, sorted by id. -/
def list (registry : PluginRegistry σ) : List PluginMetadata :=
  (registry.plugins.map HardeningPlugin.metadata).insertionSort idLe

def ids (registry : PluginRegistry σ) : List PluginId := registry.list.map PluginMetadata.pluginId

variable {registry : PluginRegistry σ} {id : PluginId}

theorem ids_perm (registry : PluginRegistry σ) : registry.ids.Perm (registry.plugins.map HardeningPlugin.id) := by
  have h := (List.perm_insertionSort idLe (registry.plugins.map HardeningPlugin.metadata)).map PluginMetadata.pluginId
  rwa [List.map_map] at h

theorem nodup_ids (registry : PluginRegistry σ) : registry.ids.Nodup := (ids_perm registry).nodup_iff.mpr registry.nodup

theorem id_of_get {plugin : HardeningPlugin σ} (h : registry.get id = some plugin) : plugin.id = id :=
  beq_iff_eq.mp (List.find?_some (p := fun q : HardeningPlugin σ => q.id == id) h)

/-- A plugin is listed exactly when it can be had. -/
theorem mem_ids_iff : id ∈ registry.ids ↔ ∃ plugin, registry.get id = some plugin := by
  rw [(ids_perm registry).mem_iff, List.mem_map]
  constructor
  · intro h
    obtain ⟨plugin, hmem, hid⟩ := h
    apply Option.isSome_iff_exists.mp
    rw [get, List.find?_isSome]
    exact ⟨plugin, hmem, beq_iff_eq.mpr hid⟩
  · intro h
    obtain ⟨plugin, hget⟩ := h
    exact ⟨plugin, List.mem_of_find?_eq_some hget, id_of_get hget⟩

end PluginRegistry

/-! ## Configuration -/

/-- A plugin's section as a file gives it. -/
structure Section extends PluginConfig where
  enabled : Option Bool

/-- A section that says nothing about it runs its plugin. -/
def Section.isEnabled (s : Section) : Bool := s.enabled.getD true

def Section.empty : Section := ⟨⟨fun _ => none, fun _ => none⟩, none⟩

structure HardenerConfig where
  enabledPlugins : List PluginId
  disabledPlugins : List PluginId
  ssh : Section
  kernel : Section
  firewall : Section
  pam : Section
  audit : Section
  mac : Section
  permissions : Section
  services : Section

namespace HardenerConfig

def getPluginConfig (config : HardenerConfig) (id : PluginId) : Section :=
  match id.value with
  | "ssh-hardening" => config.ssh
  | "kernel-hardening" => config.kernel
  | "firewall-hardening" => config.firewall
  | "pam-hardening" => config.pam
  | "audit-hardening" => config.audit
  | "mac-hardening" => config.mac
  | "permissions-hardening" => config.permissions
  | "service-minimisation" => config.services
  | _ => .empty

/-- Disabled anywhere is final; an empty allow list enables what is left. -/
def isPluginEnabled (config : HardenerConfig) (id : PluginId) : Bool :=
  (config.getPluginConfig id).isEnabled && !config.disabledPlugins.contains id &&
    (config.enabledPlugins.isEmpty || config.enabledPlugins.contains id)

def default : HardenerConfig where
  enabledPlugins := []
  disabledPlugins := []
  ssh := .empty
  kernel := .empty
  firewall := .empty
  pam := .empty
  audit := .empty
  mac := .empty
  permissions := .empty
  services := .empty

end HardenerConfig

end LinuxHardener.Core
