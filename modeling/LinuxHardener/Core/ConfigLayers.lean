import LinuxHardener.Core.Exceptions
import LinuxHardener.Lib.KeyedMap

/-
  Configuration sources over one another (`hardener-core`, `config.rs`, `config_loader.rs`).

  Correspondence (Rust ↔ Lean):
    `HardenerConfig`, `GlobalConfig`, `PluginConfig`, `ScopeExclusion`, `ComplianceConfig` ↔
      the structures of these names
    `ConfigLoader::{merge_plugin, merge_global, merge_compliance, merge_configs}` ↔
      `mergePlugin`, `mergeGlobal`, `mergeCompliance`, `mergeConfigs`

  What is proved:
    1. `mergeConfigs_ok` — a merge is one configuration over the other, and fails exactly when
       a merged map is too large.
    2. `atop_assoc`, `mergeConfigs_assoc` — the order of merging makes no difference to what
       comes out, nor to whether anything does.
-/
namespace LinuxHardener.Core.ConfigLoader

open LineText

structure GlobalConfig where
  enabledPlugins : List Chars
  disabledPlugins : List Chars
  deriving DecidableEq, Repr

structure PluginConfig where
  enabled : Option Bool
  directives : KeyedMap Chars Chars
  exceptions : KeyedMap Chars PolicyException
  deriving DecidableEq, Repr

structure ScopeExclusion where
  reason : Chars
  approvedBy : Option Chars
  approvedDate : Option Chars
  ticket : Option Chars
  reviewBy : Option Chars
  hosts : List Chars
  deriving DecidableEq, Repr

/-- Framework key, then control id. -/
structure ComplianceConfig where
  notApplicable : KeyedMap Chars (KeyedMap Chars ScopeExclusion)
  deriving DecidableEq, Repr

structure HardenerConfig where
  global : GlobalConfig
  ssh : PluginConfig
  kernel : PluginConfig
  firewall : PluginConfig
  pam : PluginConfig
  audit : PluginConfig
  mac : PluginConfig
  permissions : PluginConfig
  services : PluginConfig
  compliance : ComplianceConfig
  deriving DecidableEq, Repr

def PluginConfig.default : PluginConfig := ⟨none, .empty, .empty⟩

def HardenerConfig.default : HardenerConfig where
  global := ⟨[], []⟩
  ssh := .default
  kernel := .default
  firewall := .default
  pam := .default
  audit := .default
  mac := .default
  permissions := .default
  services := .default
  compliance := ⟨.empty⟩

/-- The plugins' sections. -/
inductive PluginSection where
  | ssh | kernel | firewall | pam | audit | mac | permissions | services
  deriving DecidableEq, Repr

namespace HardenerConfig

def plugin (config : HardenerConfig) : PluginSection → PluginConfig
  | .ssh => config.ssh
  | .kernel => config.kernel
  | .firewall => config.firewall
  | .pam => config.pam
  | .audit => config.audit
  | .mac => config.mac
  | .permissions => config.permissions
  | .services => config.services

def directive (config : HardenerConfig) (s : PluginSection) (key : Chars) : Option Chars := (config.plugin s).directives.get key

def exception (config : HardenerConfig) (s : PluginSection) (key : Chars) : Option PolicyException :=
  (config.plugin s).exceptions.get key

def exclusion (config : HardenerConfig) (framework control : Chars) : Option ScopeExclusion :=
  (config.compliance.notApplicable.get framework).bind fun controls => controls.get control

end HardenerConfig

/-! ## Merging -/

def maxDirectivesPerPlugin : Nat := 500

def maxExceptionsPerPlugin : Nat := 200

def maxExclusionsPerFramework : Nat := 500

def overLimit (what : Chars) (size limit : Nat) : Chars :=
  what ++ " (".toList ++ decimal size ++ " > ".toList ++ decimal limit ++ ")".toList

def mergePlugin (base overlay : PluginConfig) : Except Chars PluginConfig :=
  let directives := base.directives.extend overlay.directives
  let exceptions := base.exceptions.extend overlay.exceptions
  if maxDirectivesPerPlugin < directives.size then
    .error (overLimit "Plugin config exceeds directive limit".toList directives.size maxDirectivesPerPlugin)
  else if maxExceptionsPerPlugin < exceptions.size then
    .error (overLimit "Plugin config exceeds exception limit".toList exceptions.size maxExceptionsPerPlugin)
  else .ok ⟨overlay.enabled.or base.enabled, directives, exceptions⟩

/-- An empty list says nothing. -/
def mergeList (base overlay : List Chars) : List Chars := if overlay.isEmpty then base else overlay

def mergeGlobal (base overlay : GlobalConfig) : GlobalConfig where
  enabledPlugins := mergeList base.enabledPlugins overlay.enabledPlugins
  disabledPlugins := mergeList base.disabledPlugins overlay.disabledPlugins

def mergeCompliance (base overlay : ComplianceConfig) : Except Chars ComplianceConfig :=
  let notApplicable := base.notApplicable.extendWith KeyedMap.extend overlay.notApplicable
  match notApplicable.entries.find? fun e => maxExclusionsPerFramework < e.2.size with
  | some (framework, controls) =>
    .error (overLimit ("Compliance config exceeds exclusion limit for '".toList ++ framework ++ ['\'']) controls.size
      maxExclusionsPerFramework)
  | none => .ok ⟨notApplicable⟩

def mergeConfigs (base overlay : HardenerConfig) : Except Chars HardenerConfig := do
  let ssh ← mergePlugin base.ssh overlay.ssh
  let kernel ← mergePlugin base.kernel overlay.kernel
  let firewall ← mergePlugin base.firewall overlay.firewall
  let pam ← mergePlugin base.pam overlay.pam
  let audit ← mergePlugin base.audit overlay.audit
  let mac ← mergePlugin base.mac overlay.mac
  let permissions ← mergePlugin base.permissions overlay.permissions
  let services ← mergePlugin base.services overlay.services
  let compliance ← mergeCompliance base.compliance overlay.compliance
  return { global := mergeGlobal base.global overlay.global,
           ssh, kernel, firewall, pam, audit, mac, permissions, services, compliance }

/-! ## One configuration over another, of whatever size -/

def PluginConfig.atop (overlay base : PluginConfig) : PluginConfig :=
  ⟨overlay.enabled.or base.enabled, base.directives.extend overlay.directives, base.exceptions.extend overlay.exceptions⟩

def PluginConfig.Within (p : PluginConfig) : Prop :=
  p.directives.size ≤ maxDirectivesPerPlugin ∧ p.exceptions.size ≤ maxExceptionsPerPlugin

def ComplianceConfig.atop (overlay base : ComplianceConfig) : ComplianceConfig :=
  ⟨base.notApplicable.extendWith KeyedMap.extend overlay.notApplicable⟩

def ComplianceConfig.Within (c : ComplianceConfig) : Prop :=
  ∀ framework controls, c.notApplicable.get framework = some controls → controls.size ≤ maxExclusionsPerFramework

namespace HardenerConfig

def atop (overlay base : HardenerConfig) : HardenerConfig where
  global := mergeGlobal base.global overlay.global
  ssh := overlay.ssh.atop base.ssh
  kernel := overlay.kernel.atop base.kernel
  firewall := overlay.firewall.atop base.firewall
  pam := overlay.pam.atop base.pam
  audit := overlay.audit.atop base.audit
  mac := overlay.mac.atop base.mac
  permissions := overlay.permissions.atop base.permissions
  services := overlay.services.atop base.services
  compliance := overlay.compliance.atop base.compliance

/-- No map of it is beyond its limit. -/
def Within (config : HardenerConfig) : Prop := (∀ s, (config.plugin s).Within) ∧ config.compliance.Within

end HardenerConfig

theorem mergePlugin_ok {base overlay p : PluginConfig} : mergePlugin base overlay = .ok p ↔ overlay.atop base = p ∧ p.Within := by
  unfold mergePlugin PluginConfig.Within
  dsimp only
  split
  · next hd =>
    refine ⟨fun h => (by cases h), fun h => ?_⟩
    obtain ⟨rfl, hsize, -⟩ := h
    exact absurd hd (Nat.not_lt.mpr hsize)
  · next hd =>
    split
    · next he =>
      refine ⟨fun h => (by cases h), fun h => ?_⟩
      obtain ⟨rfl, -, hsize⟩ := h
      exact absurd he (Nat.not_lt.mpr hsize)
    · next he =>
      constructor
      · intro h
        cases h
        exact ⟨rfl, Nat.not_lt.mp hd, Nat.not_lt.mp he⟩
      · exact fun h => congrArg Except.ok h.1

theorem mergeCompliance_ok {base overlay c : ComplianceConfig} :
    mergeCompliance base overlay = .ok c ↔ overlay.atop base = c ∧ c.Within := by
  have hwithin : (overlay.atop base).Within ↔
      (overlay.atop base).notApplicable.entries.find? (fun e => maxExclusionsPerFramework < e.2.size) = none := by
    rw [List.find?_eq_none]
    constructor
    · intro h e he hsize
      exact Nat.not_lt.mpr (h e.1 e.2 (KeyedMap.get_eq_some.mpr he)) (of_decide_eq_true hsize)
    · intro h framework controls hget
      exact Nat.not_lt.mp fun hsize => h _ (KeyedMap.get_eq_some.mp hget) (decide_eq_true hsize)
  unfold mergeCompliance
  dsimp only
  split
  · next hfind =>
    refine ⟨fun h => (by cases h), fun h => ?_⟩
    obtain ⟨rfl, h⟩ := h
    have hnone := (hwithin.mp h).symm.trans hfind
    cases hnone
  · next hfind =>
    constructor
    · intro h
      cases h
      exact ⟨rfl, hwithin.mpr hfind⟩
    · exact fun h => congrArg Except.ok h.1

/-- A merge is one over the other, and succeeds exactly when that is within the limits. -/
theorem mergeConfigs_ok {base overlay c : HardenerConfig} : mergeConfigs base overlay = .ok c ↔ overlay.atop base = c ∧ c.Within := by
  unfold mergeConfigs
  simp only [bind_eq_ok, mergePlugin_ok, mergeCompliance_ok, and_assoc, exists_eq_left']
  constructor
  · intro h
    obtain ⟨hssh, hkernel, hfirewall, hpam, haudit, hmac, hpermissions, hservices, hcompliance, h⟩ := h
    cases h
    refine ⟨rfl, fun s => ?_, hcompliance⟩
    cases s <;> assumption
  · intro h
    obtain ⟨rfl, hplugin, hcompliance⟩ := h
    exact ⟨hplugin .ssh, hplugin .kernel, hplugin .firewall, hplugin .pam, hplugin .audit, hplugin .mac, hplugin .permissions,
      hplugin .services, hcompliance, rfl⟩

/-! ## Laws -/

theorem mergeList_assoc (a b c : List Chars) : mergeList (mergeList a b) c = mergeList a (mergeList b c) := by
  unfold mergeList
  cases c <;> rfl

theorem PluginConfig.atop_assoc (a b c : PluginConfig) : (c.atop b).atop a = c.atop (b.atop a) := by
  unfold PluginConfig.atop KeyedMap.extend
  rw [Option.or_assoc, KeyedMap.extendWith_assoc (fun _ _ _ => rfl), KeyedMap.extendWith_assoc (fun _ _ _ => rfl)]

theorem ComplianceConfig.atop_assoc (a b c : ComplianceConfig) : (c.atop b).atop a = c.atop (b.atop a) :=
  congrArg ComplianceConfig.mk (KeyedMap.extendWith_assoc (fun _ _ _ => KeyedMap.extendWith_assoc (fun _ _ _ => rfl) _ _ _) _ _ _).symm

theorem HardenerConfig.atop_assoc (a b c : HardenerConfig) : (c.atop b).atop a = c.atop (b.atop a) := by
  unfold HardenerConfig.atop mergeGlobal
  simp only [mergeList_assoc, PluginConfig.atop_assoc, ComplianceConfig.atop_assoc]

theorem PluginConfig.within_of_atop {overlay base : PluginConfig} (h : (overlay.atop base).Within) : base.Within ∧ overlay.Within := by
  obtain ⟨hd, he⟩ := h
  have hdirectives := KeyedMap.size_le_extendWith (f := fun _ new => new) base.directives overlay.directives
  have hexceptions := KeyedMap.size_le_extendWith (f := fun _ new => new) base.exceptions overlay.exceptions
  exact ⟨⟨hdirectives.1.trans hd, hexceptions.1.trans he⟩, hdirectives.2.trans hd, hexceptions.2.trans he⟩

theorem ComplianceConfig.within_of_atop {overlay base : ComplianceConfig} (h : (overlay.atop base).Within) :
    base.Within ∧ overlay.Within := by
  refine KeyedMap.forall_of_extendWith (fun v w hboth => ?_) h
  exact ⟨(KeyedMap.size_le_extendWith v w).1.trans hboth, (KeyedMap.size_le_extendWith v w).2.trans hboth⟩

namespace HardenerConfig

theorem plugin_atop (overlay base : HardenerConfig) (s : PluginSection) :
    (overlay.atop base).plugin s = (overlay.plugin s).atop (base.plugin s) := by
  cases s <;> rfl

theorem within_of_atop {overlay base : HardenerConfig} (h : (overlay.atop base).Within) : base.Within ∧ overlay.Within := by
  obtain ⟨hplugin, hcompliance⟩ := h
  have hplugins : ∀ s, (base.plugin s).Within ∧ (overlay.plugin s).Within := fun s =>
    PluginConfig.within_of_atop (plugin_atop overlay base s ▸ hplugin s)
  have hboth := ComplianceConfig.within_of_atop hcompliance
  exact ⟨⟨fun s => (hplugins s).1, hboth.1⟩, fun s => (hplugins s).2, hboth.2⟩

theorem atop_default (a : HardenerConfig) : a.atop .default = a := by
  have hplugin : ∀ p : PluginConfig, p.atop .default = p := by
    intro p
    unfold PluginConfig.atop PluginConfig.default KeyedMap.extend
    rw [Option.or_none, KeyedMap.empty_extendWith, KeyedMap.empty_extendWith]
  have hlist : ∀ l : List Chars, mergeList [] l = l := fun l => by cases l <;> rfl
  unfold atop default mergeGlobal ComplianceConfig.atop
  simp only [hplugin, hlist, KeyedMap.empty_extendWith]

theorem default_atop (a : HardenerConfig) : default.atop a = a := by
  have hplugin : ∀ p : PluginConfig, PluginConfig.default.atop p = p := by
    intro p
    unfold PluginConfig.atop PluginConfig.default KeyedMap.extend
    rw [Option.none_or, KeyedMap.extendWith_empty, KeyedMap.extendWith_empty]
  unfold atop default mergeGlobal ComplianceConfig.atop
  simp only [hplugin, KeyedMap.extendWith_empty]
  rfl

theorem within_default : default.Within := by
  refine ⟨fun s => ?_, fun _ _ h => (by cases h)⟩
  cases s <;> exact ⟨Nat.zero_le _, Nat.zero_le _⟩

end HardenerConfig

/-- Either way round the same comes out, or nothing does. -/
theorem mergeConfigs_assoc (a b c merged : HardenerConfig) :
    (mergeConfigs a b >>= fun ab => mergeConfigs ab c) = .ok merged ↔ (mergeConfigs b c >>= fun bc => mergeConfigs a bc) = .ok merged := by
  simp only [bind_eq_ok, mergeConfigs_ok, and_assoc, exists_eq_left']
  rw [HardenerConfig.atop_assoc]
  constructor
  · intro h
    obtain ⟨-, rfl, hall⟩ := h
    have hright : ((c.atop b).atop a).Within := by
      rw [HardenerConfig.atop_assoc]
      exact hall
    exact ⟨(HardenerConfig.within_of_atop hright).2, rfl, hall⟩
  · intro h
    obtain ⟨-, rfl, hall⟩ := h
    exact ⟨(HardenerConfig.within_of_atop hall).1, rfl, hall⟩

/-- The defaults make no difference before a configuration or after it. -/
theorem mergeConfigs_default (a : HardenerConfig) : mergeConfigs .default a = mergeConfigs a .default := by
  have hplugin : ∀ p : PluginConfig, mergePlugin .default p = mergePlugin p .default := by
    intro p
    unfold mergePlugin PluginConfig.default KeyedMap.extend
    rw [KeyedMap.empty_extendWith, KeyedMap.empty_extendWith, KeyedMap.extendWith_empty, KeyedMap.extendWith_empty, Option.none_or,
      Option.or_none]
  have hcompliance : ∀ c : ComplianceConfig, mergeCompliance ⟨.empty⟩ c = mergeCompliance c ⟨.empty⟩ := by
    intro c
    unfold mergeCompliance
    rw [KeyedMap.empty_extendWith, KeyedMap.extendWith_empty]
  have hglobal : ∀ g : GlobalConfig, mergeGlobal ⟨[], []⟩ g = mergeGlobal g ⟨[], []⟩ := by
    intro g
    obtain ⟨enabled, disabled⟩ := g
    cases enabled <;> cases disabled <;> rfl
  simp only [mergeConfigs, HardenerConfig.default, hplugin, hcompliance, hglobal]

/-! ## What one over another says -/

namespace HardenerConfig

variable (overlay base : HardenerConfig)

theorem directive_atop (s : PluginSection) (key : Chars) :
    (overlay.atop base).directive s key = (overlay.directive s key).or (base.directive s key) := by
  rw [directive, plugin_atop]
  exact KeyedMap.get_extend _ _ _

theorem exception_atop (s : PluginSection) (key : Chars) :
    (overlay.atop base).exception s key = (overlay.exception s key).or (base.exception s key) := by
  rw [exception, plugin_atop]
  exact KeyedMap.get_extend _ _ _

theorem enabled_atop (s : PluginSection) :
    ((overlay.atop base).plugin s).enabled = (overlay.plugin s).enabled.or (base.plugin s).enabled := by
  rw [plugin_atop]
  rfl

theorem exclusion_atop (framework control : Chars) :
    (overlay.atop base).exclusion framework control = (overlay.exclusion framework control).or (base.exclusion framework control) := by
  unfold exclusion atop ComplianceConfig.atop
  dsimp only
  rw [KeyedMap.get_extendWith]
  cases base.compliance.notApplicable.get framework with
  | none => cases overlay.compliance.notApplicable.get framework <;> simp [Option.merge]
  | some old =>
    cases overlay.compliance.notApplicable.get framework with
    | none => rfl
    | some new => exact KeyedMap.get_extend old new control

end HardenerConfig

/-! ## What a failed merge says -/

theorem overLimit_injective {what : Chars} {m n limit : Nat} (h : overLimit what m limit = overLimit what n limit) : m = n := by
  have hcounts := List.append_cancel_right (List.append_cancel_right (List.append_cancel_right h))
  exact decimal_injective (List.append_cancel_left hcounts)

/-- A map of numbers. -/
def numbered (first count : Nat) : KeyedMap Chars Chars where
  entries := (List.range' first count).map fun i => (decimal i, ['1'])
  nodup := by
    rw [List.map_map]
    exact List.Nodup.map (fun _ _ h => decimal_injective h) List.nodup_range'

theorem size_numbered (first count : Nat) : (numbered first count).size = count := by
  rw [KeyedMap.size, numbered, List.length_map, List.length_range']

theorem numbered_extend (first m n : Nat) : (numbered first m).extend (numbered (first + m) n) = numbered first (m + n) := by
  apply KeyedMap.ext
  rw [KeyedMap.entries_extend_of_disjoint]
  · change List.map _ _ ++ List.map _ _ = List.map _ _
    rw [← List.map_append, List.range'_append_1]
  · intro e he e' he' heq
    obtain ⟨i, hi, rfl⟩ := List.mem_map.mp he
    obtain ⟨j, hj, rfl⟩ := List.mem_map.mp he'
    rw [List.mem_range'_1] at hi hj
    have hij : i = j := decimal_injective heq
    omega

def kernelDirectives (m : KeyedMap Chars Chars) : HardenerConfig := { HardenerConfig.default with kernel := ⟨none, m, .empty⟩ }

theorem merge_kernelDirectives (m n : KeyedMap Chars Chars) :
    mergeConfigs (kernelDirectives m) (kernelDirectives n) =
      if maxDirectivesPerPlugin < (m.extend n).size then
        .error (overLimit "Plugin config exceeds directive limit".toList (m.extend n).size maxDirectivesPerPlugin)
      else .ok (kernelDirectives (m.extend n)) := by
  by_cases h : maxDirectivesPerPlugin < (m.extend n).size
  · rw [if_pos h]
    have hkernel : mergePlugin ⟨none, m, .empty⟩ ⟨none, n, .empty⟩ =
        .error (overLimit "Plugin config exceeds directive limit".toList (m.extend n).size maxDirectivesPerPlugin) := if_pos h
    change (mergePlugin ⟨none, m, .empty⟩ ⟨none, n, .empty⟩ >>= _) = _
    rw [hkernel]
    rfl
  · rw [if_neg h, mergeConfigs_ok]
    refine ⟨rfl, fun s => ?_, fun _ _ hget => (by cases hget)⟩
    cases s with
    | kernel => exact ⟨Nat.not_lt.mp h, Nat.zero_le _⟩
    | _ => exact ⟨Nat.zero_le _, Nat.zero_le _⟩

/-- Too much in two of three layers is counted as soon as they meet. -/
theorem merge_order_ne {a b c : KeyedMap Chars Chars} (hab : maxDirectivesPerPlugin < (a.extend b).size)
    (hbc : (b.extend c).size ≤ maxDirectivesPerPlugin) (habc : maxDirectivesPerPlugin < (a.extend (b.extend c)).size)
    (hne : (a.extend b).size ≠ (a.extend (b.extend c)).size) :
    (mergeConfigs (kernelDirectives a) (kernelDirectives b) >>= fun ab => mergeConfigs ab (kernelDirectives c)) ≠
      (mergeConfigs (kernelDirectives b) (kernelDirectives c) >>= fun bc => mergeConfigs (kernelDirectives a) bc) := by
  intro h
  rw [merge_kernelDirectives, if_pos hab, merge_kernelDirectives, if_neg (Nat.not_lt.mpr hbc)] at h
  simp only [bind, Except.bind] at h
  rw [merge_kernelDirectives, if_pos habc] at h
  exact hne (overLimit_injective (Except.error.inj h))

theorem default_merge_ne {m : KeyedMap Chars Chars} (h : maxDirectivesPerPlugin < m.size) :
    mergeConfigs .default (kernelDirectives m) ≠ .ok (kernelDirectives m) := by
  intro hmerge
  change mergeConfigs (kernelDirectives .empty) _ = _ at hmerge
  rw [merge_kernelDirectives, KeyedMap.extend, KeyedMap.empty_extendWith, if_pos h] at hmerge
  cases hmerge

/-- The error counts what had been merged so far, and the defaults pass nothing that is too large. -/
theorem merge_error_order :
    (¬ ∀ a b c, (mergeConfigs a b >>= fun ab => mergeConfigs ab c) = (mergeConfigs b c >>= fun bc => mergeConfigs a bc)) ∧
      ¬ ∀ a, mergeConfigs .default a = .ok a := by
  -- 400, 101 and 199 directives: the first two are too many, the last two are not.
  have hab := numbered_extend 0 400 101
  have hbc := numbered_extend 400 101 199
  have habc := numbered_extend 0 400 300
  rw [Nat.zero_add] at hab habc
  constructor
  · intro h
    refine merge_order_ne ?_ ?_ ?_ ?_ (h (kernelDirectives (numbered 0 400)) (kernelDirectives (numbered 400 101)) (kernelDirectives (numbered 501 199)))
    · rw [hab, size_numbered]
      decide
    · rw [hbc, size_numbered]
      decide
    · rw [hbc, habc, size_numbered]
      decide
    · rw [hbc, hab, habc, size_numbered, size_numbered]
      decide
  · intro h
    refine default_merge_ne ?_ (h (kernelDirectives (numbered 0 501)))
    rw [size_numbered]
    decide

end LinuxHardener.Core.ConfigLoader
