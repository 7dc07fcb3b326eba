import LinuxHardener.Core.ConfigLayers
import LinuxHardener.Core.ConfigValidation

/-
  Loading the configuration (`hardener-core`, `config_loader.rs`, `config_validation.rs`):
  system, user and CLI files over the defaults, then the environment, then validation.

  A file is what the process is told of its path, and what the TOML library makes of its text.

  Correspondence (Rust ↔ Lean):
    `ConfigLoader`, `ConfigSourceState`                  ↔ `Loader`, `SourceState`
    `load`, `merge_source`, `load_from_file`             ↔ `Loader.load`, `mergeSource`, `loadFromFile`
    `apply_env_overrides`, `parse_and_validate_env_list` ↔ `applyEnvOverrides`, `parseEnvList`
    `validate_config`, `validate_plugin_directives`      ↔ `validateConfig`, `validatePluginDirectives`
    `validate_*_value`, `accept_any_value`               ↔ `PluginSection.validateValue`

  What is proved:
    1. `merge_sources` — the files that are there, laid over one another.
    2. `load_layered` — of every key the last file that gives it decides, and all directives of a
       configuration that loads are valid.
    3. `load_root` — a root process reads no user's file.
-/
namespace LinuxHardener.Core.ConfigLoader

open LineText
open Permissions (Mode parseOctal)

/-! ## Validation -/

def validateKernelValue (value : Chars) : Except Chars Unit :=
  if value ≠ [] ∧ (words value).all (fun token => (parseI64 token).isSome) then .ok ()
  else .error ("expected numeric sysctl value, got '".toList ++ value ++ ['\''])

def byteLength (s : Chars) : Nat := (String.ofList s).utf8ByteSize

def validateSshValue (value : Chars) : Except Chars Unit :=
  if value = [] then .error "empty value".toList
  else if 256 < byteLength value then .error ("value too long (".toList ++ decimal (byteLength value) ++ " chars, max 256)".toList)
  else .ok ()

def validatePamValue (value : Chars) : Except Chars Unit :=
  if value = [] then .error "empty value".toList
  else if (parseI64 value).isSome then .ok ()
  else if value.all fun c => c.isAlphanum || c == '_' || c == '-' then .ok ()
  else .error ("expected numeric or single-token value, got '".toList ++ value ++ ['\''])

def validatePermissionsValue (value : Chars) : Except Chars Unit :=
  if byteLength value < 3 ∨ 4 < byteLength value then .error ("expected 3-4 digit octal mode, got '".toList ++ value ++ ['\''])
  else if !value.all (fun c => '0' ≤ c ∧ c ≤ '7') then .error ("expected octal digits (0-7), got '".toList ++ value ++ ['\''])
  else match parseOctal value with
    | none => .error ("invalid octal mode: '".toList ++ value ++ ['\''])
    | some mode =>
      if mode &&& 0o7000 ≠ 0 then .error ("special bits (SUID/SGID/sticky) not allowed: '".toList ++ value ++ ['\''])
      else if mode &&& 0o002 ≠ 0 then .error ("world-writable mode not allowed: '".toList ++ value ++ ['\''])
      else if mode = 0 then .error ("zero permissions not allowed: '".toList ++ value ++ ['\''])
      else .ok ()

namespace PluginSection

def name : PluginSection → Chars
  | ssh => "ssh".toList
  | kernel => "kernel".toList
  | firewall => "firewall".toList
  | pam => "pam".toList
  | audit => "audit".toList
  | mac => "mac".toList
  | permissions => "permissions".toList
  | services => "services".toList

def validateValue : PluginSection → Chars → Chars → Except Chars Unit
  | kernel, _, value => validateKernelValue value
  | ssh, _, value => validateSshValue value
  | firewall, key, value => validateFirewallValue key value
  | pam, _, value => validatePamValue value
  | permissions, _, value => validatePermissionsValue value
  | audit, _, _ => .ok ()
  | mac, _, _ => .ok ()
  | services, _, _ => .ok ()

/-- One directive of a section. -/
def validateDirective (s : PluginSection) (key value : Chars) : Except Chars Unit := do
  validateDirectiveKey s.name key
  checkUniversal value
  s.validateValue key value

end PluginSection

def validatePluginDirectives (s : PluginSection) (directives : KeyedMap Chars Chars) : List Chars :=
  directives.entries.filterMap fun e =>
    match s.validateDirective e.1 e.2 with
    | .ok _ => none
    | .error reason => some ('[' :: s.name ++ ".directives] ".toList ++ e.1 ++ ": ".toList ++ reason)

def validateConfig (config : HardenerConfig) : Except Chars Unit :=
  let errors := [PluginSection.kernel, .ssh, .firewall, .pam, .permissions, .audit, .mac, .services].flatMap fun s =>
    validatePluginDirectives s (config.plugin s).directives
  if errors.isEmpty then .ok ()
  else .error ("Invalid config directive values:\n  - ".toList ++ "\n  - ".toList.intercalate errors)

/-! ## Files -/

inductive SourceState where
  | absent
  | present
  | unreachable (kind : Chars)
  deriving DecidableEq, Repr

/-- What the process is told of files, the environment and itself, and how TOML reads. -/
structure Host where
  tryExists : Chars → SourceState
  fileSize : Chars → Except Chars Nat
  readToString : Chars → Except Chars Chars
  fromToml : Chars → Except Chars HardenerConfig
  envVar : Chars → Option Chars
  configDir : Option Chars
  isRoot : Bool

structure Loader where
  cliConfigPath : Option Chars
  skipDefaults : Bool
  configDir : Option Chars
  systemConfigPath : Option Chars
  runningAsRoot : Option Bool

def maxConfigSize : Nat := 1048576

def loadFromFile (host : Host) (path : Chars) : Except Chars HardenerConfig := do
  let size ← (host.fileSize path).mapError fun e => "Failed to stat config file ".toList ++ path ++ ": ".toList ++ e
  if maxConfigSize < size then
    throw ("Config file ".toList ++ path ++ " exceeds 1 MiB size limit (".toList ++ decimal size ++ " bytes)".toList)
  let content ← (host.readToString path).mapError fun e => "Failed to read config file ".toList ++ path ++ ": ".toList ++ e
  (host.fromToml content).mapError fun e => "Failed to parse config file ".toList ++ path ++ ": ".toList ++ e

def mergeSource (host : Host) (base : HardenerConfig) (path : Chars) (required : Bool) : Except Chars HardenerConfig :=
  match host.tryExists path with
  | .present => do
    let overlay ← loadFromFile host path
    mergeConfigs base overlay
  | _ => if required then .error ("Config file not found: ".toList ++ path) else .ok base

/-- `Path::join`, on a name. -/
def joinName (dir name : Chars) : Chars :=
  if dir = [] then name else if dir.getLast? = some '/' then dir ++ name else dir ++ '/' :: name

/-! ## The environment -/

def envDisabledPlugins : Chars := "HARDENER_DISABLED_PLUGINS".toList

def envEnabledPlugins : Chars := "HARDENER_ENABLED_PLUGINS".toList

def knownPluginIds : List Chars :=
  ["audit-hardening".toList, "firewall-hardening".toList, "kernel-hardening".toList, "mac-hardening".toList, "pam-hardening".toList,
    "permissions-hardening".toList, "service-minimisation".toList, "ssh-hardening".toList]

/-- The names between the commas. -/
def envList (input : Chars) : List Chars := ((input.splitOn ',').map trim).filter fun id => !id.isEmpty

def parseEnvList (input varName : Chars) : Except Chars (List Chars) :=
  match (envList input).find? fun id => !knownPluginIds.contains id with
  | some id => .error ("Unknown plugin ID '".toList ++ id ++ "' in ".toList ++ varName)
  | none => .ok (envList input)

/-- A list as its variable sets it, or as it was. -/
def overrideList (host : Host) (varName : Chars) (list : List Chars) : Except Chars (List Chars) :=
  match host.envVar varName with
  | some input => parseEnvList input varName
  | none => .ok list

def applyEnvOverrides (host : Host) (config : HardenerConfig) : Except Chars HardenerConfig := do
  let disabledPlugins ← overrideList host envDisabledPlugins config.global.disabledPlugins
  let enabledPlugins ← overrideList host envEnabledPlugins config.global.enabledPlugins
  return { config with global := ⟨enabledPlugins, disabledPlugins⟩ }

/-! ## Loading -/

namespace Loader

def runningAsRootFor (loader : Loader) (host : Host) : Bool := loader.runningAsRoot.getD host.isRoot

def systemConfigPathFor (loader : Loader) : Chars := loader.systemConfigPath.getD "/etc/linux-hardener/config.toml".toList

def userConfigPathFor (loader : Loader) (host : Host) : Option Chars :=
  (loader.configDir.or host.configDir).map fun dir => joinName (joinName dir "linux-hardener".toList) "config.toml".toList

def load (loader : Loader) (host : Host) : Except Chars HardenerConfig := do
  let config ←
    if loader.skipDefaults then pure HardenerConfig.default
    else do
      let config ← mergeSource host .default loader.systemConfigPathFor false
      if loader.runningAsRootFor host then pure config
      else match loader.userConfigPathFor host with
        | some path => mergeSource host config path false
        | none => pure config
  let config ← match loader.cliConfigPath with
    | some path => mergeSource host config path true
    | none => pure config
  let config ← applyEnvOverrides host config
  validateConfig config
  return config

/-- The paths a load asks about, in order, and whether it needs each. -/
def sources (loader : Loader) (host : Host) : List (Chars × Bool) :=
  (if loader.skipDefaults then []
    else (loader.systemConfigPathFor, false) ::
      if loader.runningAsRootFor host then [] else (loader.userConfigPathFor host).toList.map (·, false)) ++
    loader.cliConfigPath.toList.map (·, true)

/-- The configurations in the files that are there. -/
def documents (loader : Loader) (host : Host) : List HardenerConfig :=
  (loader.sources host).filterMap fun source =>
    if host.tryExists source.1 = .present then (loadFromFile host source.1).toOption else none

end Loader

variable {host : Host} {config base c : HardenerConfig}

theorem load_eq (loader : Loader) (host : Host) :
    loader.load host = ((loader.sources host).foldlM (fun config source => mergeSource host config source.1 source.2) .default >>=
      fun config => applyEnvOverrides host config >>= fun config => validateConfig config >>= fun _ => pure config) := by
  unfold Loader.load Loader.sources
  rw [List.foldlM_append]
  cases loader.skipDefaults <;> cases loader.runningAsRootFor host <;> cases loader.userConfigPathFor host <;>
    cases loader.cliConfigPath <;>
    simp

/-- Files merged one after another are one over another, within the limits. -/
theorem merge_sources (host : Host) (sources : List (Chars × Bool)) {base c : HardenerConfig}
    (h : sources.foldlM (fun config source => mergeSource host config source.1 source.2) base = .ok c) :
    (∀ source ∈ sources, host.tryExists source.1 = .present → ∃ d, loadFromFile host source.1 = .ok d) ∧
      (sources.filterMap fun source =>
        if host.tryExists source.1 = .present then (loadFromFile host source.1).toOption else none).foldlM mergeConfigs base = .ok c := by
  induction sources generalizing base with
  | nil => exact ⟨fun _ h => (by cases h), h⟩
  | cons source sources ih =>
    rw [List.foldlM_cons, bind_eq_ok] at h
    obtain ⟨mid, hmid, h⟩ := h
    obtain ⟨hparsed, hrest⟩ := ih h
    rw [List.filterMap_cons]
    by_cases hpresent : host.tryExists source.1 = .present
    · rw [mergeSource, hpresent] at hmid
      obtain ⟨d, hd, hmerge⟩ := bind_eq_ok.mp hmid
      refine ⟨fun other hother hthere => ?_, ?_⟩
      · rcases List.mem_cons.mp hother with rfl | hother
        · exact ⟨d, hd⟩
        · exact hparsed other hother hthere
      · rw [if_pos hpresent, hd]
        exact bind_eq_ok.mpr ⟨mid, hmerge, hrest⟩
    · have hbase : base = mid := by
        unfold mergeSource at hmid
        split at hmid
        · next hthere => exact absurd hthere hpresent
        · split at hmid
          · cases hmid
          · exact Except.ok.inj hmid
      refine ⟨fun other hother hthere => ?_, ?_⟩
      · rcases List.mem_cons.mp hother with rfl | hother
        · exact absurd hthere hpresent
        · exact hparsed other hother hthere
      · rw [if_neg hpresent, hbase]
        exact hrest

theorem validated (h : validateConfig config = .ok ()) {s : PluginSection} {key value : Chars}
    (hget : config.directive s key = some value) : s.validateDirective key value = .ok () := by
  unfold validateConfig at h
  dsimp only at h
  split at h
  · next hempty =>
    rw [List.isEmpty_iff, List.flatMap_eq_nil_iff] at hempty
    have hnone := hempty s (by cases s <;> decide)
    rw [validatePluginDirectives, List.filterMap_eq_nil_iff] at hnone
    have hthis := hnone (key, value) (KeyedMap.get_eq_some.mp hget)
    cases hvalid : s.validateDirective key value with
    | ok _ => rfl
    | error reason =>
      rw [hvalid] at hthis
      cases hthis
  · cases h

theorem overrideList_ok {varName : Chars} {list found : List Chars} (h : overrideList host varName list = .ok found) :
    found = ((host.envVar varName).map envList).getD list := by
  unfold overrideList at h
  split at h
  · next input hinput =>
    rw [hinput]
    unfold parseEnvList at h
    split at h
    · cases h
    · exact (Except.ok.inj h).symm
  · next hnone =>
    rw [hnone]
    exact (Except.ok.inj h).symm

/-! ## The last to say -/

/-- What the last of some configurations to say anything says. -/
def lastGiven {β : Type} (documents : List HardenerConfig) (read : HardenerConfig → Option β) : Option β := documents.reverse.findSome? read

def nonempty (list : List Chars) : Option (List Chars) := if list.isEmpty then none else some list

theorem nonempty_mergeList (a b : List Chars) : nonempty (mergeList a b) = (nonempty b).or (nonempty a) := by
  unfold mergeList
  cases b <;> rfl

theorem getD_nonempty (list : List Chars) : (nonempty list).getD [] = list := by cases list <;> rfl

/-- Of every key the last document that gives it decides, and every directive is valid. -/
structure Layered (host : Host) (documents : List HardenerConfig) (config : HardenerConfig) : Prop where
  directive : ∀ s key, config.directive s key = lastGiven documents fun d => d.directive s key
  exception : ∀ s key, config.exception s key = lastGiven documents fun d => d.exception s key
  enabled : ∀ s, (config.plugin s).enabled = lastGiven documents fun d => (d.plugin s).enabled
  exclusion : ∀ framework control, config.exclusion framework control = lastGiven documents fun d => d.exclusion framework control
  enabledPlugins : config.global.enabledPlugins =
    ((host.envVar envEnabledPlugins).map envList).getD ((lastGiven documents fun d => nonempty d.global.enabledPlugins).getD [])
  disabledPlugins : config.global.disabledPlugins =
    ((host.envVar envDisabledPlugins).map envList).getD ((lastGiven documents fun d => nonempty d.global.disabledPlugins).getD [])
  validated : ∀ s key value, config.directive s key = some value → s.validateDirective key value = .ok ()

/-- All of some configurations over the defaults. -/
def layers (documents : List HardenerConfig) : HardenerConfig := documents.foldl (fun base overlay => overlay.atop base) .default

theorem mergeAll_ok {documents : List HardenerConfig} :
    documents.foldlM mergeConfigs .default = .ok c ↔ layers documents = c ∧ c.Within :=
  foldlM_limited mergeConfigs_ok (fun _ _ h => (HardenerConfig.within_of_atop h).1) HardenerConfig.within_default

theorem read_layers {β : Type} {read : HardenerConfig → Option β}
    (hread : ∀ base overlay, read (HardenerConfig.atop overlay base) = (read overlay).or (read base)) (hdefault : read .default = none)
    (documents : List HardenerConfig) : read (layers documents) = lastGiven documents read := by
  unfold layers
  rw [read_foldl hread, hdefault, Option.or_none]
  rfl

/-- What a load that succeeds has loaded. -/
theorem layered_of_load {loader : Loader} (h : loader.load host = .ok config) :
    (∀ source ∈ loader.sources host, host.tryExists source.1 = .present → ∃ d, loadFromFile host source.1 = .ok d) ∧
      Layered host (loader.documents host) config := by
  rw [load_eq, bind_eq_ok] at h
  obtain ⟨merged, hmerged, h⟩ := h
  obtain ⟨overridden, henv, h⟩ := bind_eq_ok.mp h
  obtain ⟨⟨⟩, hvalid, h⟩ := bind_eq_ok.mp h
  obtain rfl := Except.ok.inj h
  obtain ⟨hparsed, hdocuments⟩ := merge_sources host _ hmerged
  obtain ⟨rfl, -⟩ := mergeAll_ok.mp hdocuments
  obtain ⟨disabled, hdisabled, henv⟩ := bind_eq_ok.mp henv
  obtain ⟨enabled, henabled, henv⟩ := bind_eq_ok.mp henv
  obtain rfl := Except.ok.inj henv
  -- The environment leaves everything but the two lists.
  refine ⟨hparsed, ⟨fun s key => ?_, fun s key => ?_, fun s => ?_, fun framework control => ?_, ?_, ?_, fun s key value => validated hvalid⟩⟩
  · rw [← read_layers (fun base overlay => overlay.directive_atop base s key) (by cases s <;> rfl)]
    cases s <;> rfl
  · rw [← read_layers (fun base overlay => overlay.exception_atop base s key) (by cases s <;> rfl)]
    cases s <;> rfl
  · rw [← read_layers (fun base overlay => overlay.enabled_atop base s) (by cases s <;> rfl)]
    cases s <;> rfl
  · exact @read_layers _ (fun d => d.exclusion framework control)
      (fun base overlay => overlay.exclusion_atop base framework control) rfl _
  · rw [← read_layers (fun base overlay => nonempty_mergeList base.global.enabledPlugins overlay.global.enabledPlugins) rfl, getD_nonempty]
    exact overrideList_ok henabled
  · rw [← read_layers (fun base overlay => nonempty_mergeList base.global.disabledPlugins overlay.global.disabledPlugins) rfl,
      getD_nonempty]
    exact overrideList_ok hdisabled

/-! ## Root -/

/-- The same at some paths, and in all that is not a file. -/
structure Host.SameAt (host host' : Host) (paths : List Chars) : Prop where
  tryExists : ∀ path ∈ paths, host.tryExists path = host'.tryExists path
  fileSize : ∀ path ∈ paths, host.fileSize path = host'.fileSize path
  readToString : ∀ path ∈ paths, host.readToString path = host'.readToString path
  fromToml : host.fromToml = host'.fromToml
  envVar : host.envVar = host'.envVar
  isRoot : host.isRoot = host'.isRoot

theorem mergeSource_same {host' : Host} {paths : List Chars} (h : host.SameAt host' paths) {path : Chars} (hpath : path ∈ paths)
    (base : HardenerConfig) (required : Bool) : mergeSource host base path required = mergeSource host' base path required := by
  unfold mergeSource loadFromFile
  rw [h.tryExists path hpath, h.fileSize path hpath, h.readToString path hpath, h.fromToml]

theorem foldlM_mergeSource_same {host' : Host} {paths : List Chars} (h : host.SameAt host' paths) {sources : List (Chars × Bool)}
    (hsources : ∀ source ∈ sources, source.1 ∈ paths) (base : HardenerConfig) :
    sources.foldlM (fun config source => mergeSource host config source.1 source.2) base =
      sources.foldlM (fun config source => mergeSource host' config source.1 source.2) base := by
  induction sources generalizing base with
  | nil => rfl
  | cons source sources ih =>
    rw [List.forall_mem_cons] at hsources
    rw [List.foldlM_cons, List.foldlM_cons, mergeSource_same h hsources.1]
    exact congrArg (mergeSource host' base source.1 source.2 >>= ·) (funext fun next => ih hsources.2 next)

/-- A root process reads the system's file and the one it is given, and no other. -/
theorem load_root {loader : Loader} {host' : Host} (hroot : loader.runningAsRootFor host = true)
    (h : host.SameAt host' (loader.systemConfigPathFor :: loader.cliConfigPath.toList)) : loader.load host = loader.load host' := by
  have hroot' : loader.runningAsRootFor host' = true := by
    unfold Loader.runningAsRootFor at hroot ⊢
    rwa [← h.isRoot]
  have hsources : loader.sources host = loader.sources host' := by
    unfold Loader.sources
    rw [hroot, hroot']
    rfl
  have hpaths : ∀ source ∈ loader.sources host, source.1 ∈ loader.systemConfigPathFor :: loader.cliConfigPath.toList := by
    intro source hsource
    rw [Loader.sources, hroot] at hsource
    rcases List.mem_append.mp hsource with hsource | hsource
    · split at hsource
      · cases hsource
      · rw [if_pos rfl, List.mem_singleton] at hsource
        rw [hsource]
        exact List.mem_cons_self
    · obtain ⟨path, hpath, rfl⟩ := List.mem_map.mp hsource
      exact List.mem_cons_of_mem _ hpath
  have henv : ∀ config, applyEnvOverrides host config = applyEnvOverrides host' config := by
    intro config
    unfold applyEnvOverrides overrideList
    rw [h.envVar]
  rw [load_eq, load_eq, ← hsources, foldlM_mergeSource_same h hpaths]
  simp only [henv]

/-! ## Limits -/

/-- Layers fail to merge exactly when a map of them all is beyond its limit. -/
theorem mergeAll_error (documents : List HardenerConfig) :
    (∃ e, documents.foldlM mergeConfigs .default = .error e) ↔
      (∃ s, maxDirectivesPerPlugin < ((layers documents).plugin s).directives.size ∨
        maxExceptionsPerPlugin < ((layers documents).plugin s).exceptions.size) ∨
      ∃ framework controls, (layers documents).compliance.notApplicable.get framework = some controls ∧
        maxExclusionsPerFramework < controls.size := by
  have hnot : (∃ e, documents.foldlM mergeConfigs .default = .error e) ↔ ¬ (layers documents).Within := by
    constructor
    · intro h hwithin
      obtain ⟨e, he⟩ := h
      rw [mergeAll_ok.mpr ⟨rfl, hwithin⟩] at he
      cases he
    · intro hbeyond
      cases hmerge : documents.foldlM mergeConfigs .default with
      | error e => exact ⟨e, rfl⟩
      | ok c =>
        obtain ⟨rfl, hwithin⟩ := mergeAll_ok.mp hmerge
        exact absurd hwithin hbeyond
  rw [hnot]
  simp only [HardenerConfig.Within, PluginConfig.Within, ComplianceConfig.Within, not_and_or, not_forall, Nat.not_le, exists_prop]

/-! ## Layering -/

/-- Layering is last-wins, the order of merging and empty layers make no difference to it, and
under root no user's file does. -/
theorem load_layered (loader : Loader) (host : Host) :
    (∀ config, loader.load host = .ok config →
      (∀ source ∈ loader.sources host, host.tryExists source.1 = .present → ∃ d, loadFromFile host source.1 = .ok d) ∧
        Layered host (loader.documents host) config) ∧
    (∀ a b c merged, (mergeConfigs a b >>= fun ab => mergeConfigs ab c) = .ok merged ↔
      (mergeConfigs b c >>= fun bc => mergeConfigs a bc) = .ok merged) ∧
    (∀ a, mergeConfigs .default a = mergeConfigs a .default ∧ ∀ merged, mergeConfigs .default a = .ok merged ↔ a = merged ∧ a.Within) ∧
    (∀ documents : List HardenerConfig, (∃ e, documents.foldlM mergeConfigs .default = .error e) ↔
      (∃ s, maxDirectivesPerPlugin < ((layers documents).plugin s).directives.size ∨
        maxExceptionsPerPlugin < ((layers documents).plugin s).exceptions.size) ∨
      ∃ framework controls, (layers documents).compliance.notApplicable.get framework = some controls ∧
        maxExclusionsPerFramework < controls.size) ∧
    ∀ host', loader.runningAsRootFor host = true →
      host.SameAt host' (loader.systemConfigPathFor :: loader.cliConfigPath.toList) → loader.load host = loader.load host' := by
  refine ⟨fun config => layered_of_load, mergeConfigs_assoc, fun a => ⟨mergeConfigs_default a, fun merged => ?_⟩, mergeAll_error,
    fun host' => load_root⟩
  rw [mergeConfigs_ok, HardenerConfig.atop_default]
  constructor <;> intro h <;> obtain ⟨rfl, h⟩ := h <;> exact ⟨rfl, h⟩

/-- A system file and the operator's own, as `config.toml` files. -/
def siteToml : Chars := "[kernel.directives]\n0 = \"1\"\n1 = \"1\"\n".toList

def systemToml : Chars := "[kernel.directives]\n1 = \"1\"\n2 = \"1\"\n\n[global]\ndisabled_plugins = [\"mac-hardening\"]\n".toList

def siteConfig : HardenerConfig := kernelDirectives (numbered 0 2)

def systemConfig : HardenerConfig :=
  { kernelDirectives (numbered 1 2) with global := ⟨[], ["mac-hardening".toList]⟩ }

def siteLoader : Loader := ⟨some "/root/site.toml".toList, false, none, none, none⟩

def siteHost : Host where
  tryExists path := if path = siteLoader.systemConfigPathFor ∨ path = "/root/site.toml".toList then .present else .absent
  fileSize path := .ok (if path = "/root/site.toml".toList then siteToml.length else systemToml.length)
  readToString path := .ok (if path = "/root/site.toml".toList then siteToml else systemToml)
  fromToml text :=
    if text = siteToml then .ok siteConfig
    else if text = systemToml then .ok systemConfig
    else .error "expected a document of this site".toList
  envVar _ := none
  configDir := some "/root/.config".toList
  isRoot := true

theorem load_layered_site : ∃ config, siteLoader.load siteHost = .ok config ∧
    config.global.disabledPlugins = ["mac-hardening".toList] ∧ Layered siteHost (siteLoader.documents siteHost) config := by
  have hload : siteLoader.load siteHost = .ok (layers [systemConfig, siteConfig]) := by rfl
  exact ⟨_, hload, rfl, ((load_layered siteLoader siteHost).1 _ hload).2⟩

end LinuxHardener.Core.ConfigLoader
