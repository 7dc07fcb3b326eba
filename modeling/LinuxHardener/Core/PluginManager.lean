import LinuxHardener.Core.Plugin
import LinuxHardener.Lib.TopologicalOrder

/-
  The plugin manager: dependencies into a graph, the graph into an order, and the two
  walks along the order, `execute_scan` and `execute_apply`.

  petgraph's `is_cyclic_directed` and `Topo` are outside the repository: they are the
  fields of `Petgraph`, and of `Topo` only its documented behaviour on the graph at hand
  is ever assumed.

  Correspondence (Rust ↔ Lean):
    `PluginManager::resolve_dependencies` ↔ `resolveDependencies`
    `PluginManager::execution_order`      ↔ `executionOrder`
    `PluginManager::execute_scan`         ↔ `executeScan`, its loop `scanEach`
    `PluginManager::execute_apply`        ↔ `executeApply`, its loop `applyEach`

  A walk also tells which plugins it invoked (`Execution.invoked`), in order. What is
  proved: `apply_honours_selection_iff`.
-/
namespace LinuxHardener.Core

open LineText (Chars)
open Plugins (PluginConfig)
open Compliance (PluginId ScanResult)
open Graphs

variable {σ : Type}

/-- The plugins, and for each dependency an edge to the plugin that has it. -/
structure DependencyGraph where
  nodes : List PluginId
  edges : List (PluginId × PluginId)
  deriving DecidableEq, Repr

def DependencyGraph.Edge (g : DependencyGraph) (a b : PluginId) : Prop := (a, b) ∈ g.edges

structure Petgraph where
  isCyclicDirected : DependencyGraph → Bool
  topo : DependencyGraph → List PluginId

structure PluginManager (σ : Type) where
  registry : PluginRegistry σ
  graph : DependencyGraph

def PluginManager.new (registry : PluginRegistry σ) : PluginManager σ := ⟨registry, ⟨[], []⟩⟩

/-- The edges of one plugin, after those there are. -/
def addDependencies (registry : PluginRegistry σ) (id : PluginId) :
    List PluginId → List (PluginId × PluginId) → Except Chars (List (PluginId × PluginId))
  | [], edges => .ok edges
  | dep :: deps, edges =>
    if registry.ids.contains dep then addDependencies registry id deps (edges ++ [(dep, id)])
    else
      .error ("Plugin '".toList ++ id.value.toList ++ "' depends on '".toList ++ dep.value.toList ++
        "', which is not registered".toList)

def addPlugins (registry : PluginRegistry σ) :
    List PluginId → List (PluginId × PluginId) → Except Chars (List (PluginId × PluginId))
  | [], edges => .ok edges
  | id :: ids, edges =>
    match registry.get id with
    | none => .error ("Plugin not found in registry: ".toList ++ id.value.toList)
    | some plugin =>
      match addDependencies registry id plugin.dependencies edges with
      | .error e => .error e
      | .ok edges => addPlugins registry ids edges

def resolveDependencies (petgraph : Petgraph) (manager : PluginManager σ) : Except Chars (PluginManager σ) :=
  match addPlugins manager.registry manager.registry.ids [] with
  | .error e => .error e
  | .ok edges =>
    let graph : DependencyGraph := ⟨manager.registry.ids, edges⟩
    if petgraph.isCyclicDirected graph then .error "Circular dependency detected in plugin graph".toList
    else .ok { manager with graph := graph }

def executionOrder (petgraph : Petgraph) (manager : PluginManager σ) : Except Chars (List PluginId) :=
  if manager.graph.nodes.isEmpty then
    .error "Dependencies not resolved. Call resolve_dependencies() first.".toList
  else .ok (petgraph.topo manager.graph)

/-- What a walk returns, the surroundings it leaves, and the plugins it invoked. -/
structure Execution (σ ρ : Type) where
  outcome : Except Chars (List ρ)
  state : σ
  invoked : List PluginId

/-- A plugin has answered, before the rest of the walk. -/
def Execution.after {ρ : Type} (id : PluginId) (result : ρ) (rest : Execution σ ρ) : Execution σ ρ where
  outcome := rest.outcome.map fun results => result :: results
  state := rest.state
  invoked := id :: rest.invoked

def notFound (id : PluginId) : Chars := "Plugin not found: ".toList ++ id.value.toList

/-- The result of a plugin whose scan errors. -/
def scanFailure (id : PluginId) (e : Chars) : ScanResult where
  scanPluginId := id
  scanSuccess := false
  scanFindings := []
  scanUnchecked := []
  scanError := some (String.ofList e)
  scanSkipped := none

def scanEach (registry : PluginRegistry σ) (config : HardenerConfig) (selection : List String) :
    List PluginId → σ → Execution σ ScanResult
  | [], s => ⟨.ok [], s, []⟩
  | id :: ids, s =>
    if !selection.isEmpty && !selection.any (fun name => name == id.value) then scanEach registry config selection ids s
    else if !config.isPluginEnabled id then scanEach registry config selection ids s
    else
      match registry.get id with
      | none => ⟨.error (notFound id), s, []⟩
      | some plugin =>
        match plugin.scan (config.getPluginConfig id).toPluginConfig s with
        | (.ok result, s') => (scanEach registry config selection ids s').after id result
        | (.error e, s') => (scanEach registry config selection ids s').after id (scanFailure id e)

def executeScan (petgraph : Petgraph) (manager : PluginManager σ) (config : HardenerConfig) (selection : List String) (s : σ) :
    Execution σ ScanResult :=
  match executionOrder petgraph manager with
  | .error e => ⟨.error e, s, []⟩
  | .ok order => scanEach manager.registry config selection order s

/-- The result of a plugin whose apply errors. -/
def applyFailure (id : PluginId) (e : Chars) : ApplyResult where
  pluginId := id
  success := false
  changes := []
  checkpointId := none
  error := some e

def applyEach (registry : PluginRegistry σ) (config : HardenerConfig) : List PluginId → σ → Execution σ ApplyResult
  | [], s => ⟨.ok [], s, []⟩
  | id :: ids, s =>
    match registry.get id with
    | none => ⟨.error (notFound id), s, []⟩
    | some plugin =>
      match plugin.apply (config.getPluginConfig id).toPluginConfig s with
      | (.ok result, s') => (applyEach registry config ids s').after id result
      | (.error e, s') => (applyEach registry config ids s').after id (applyFailure id e)

def executeApply (petgraph : Petgraph) (manager : PluginManager σ) (config : HardenerConfig) (selection : List PluginId) (s : σ) :
    Execution σ ApplyResult :=
  match executionOrder petgraph manager with
  | .error e => ⟨.error e, s, []⟩
  | .ok order =>
    let toApply := if selection.isEmpty then order else order.filter fun id => selection.contains id
    if toApply.isEmpty then ⟨.error "No plugins to apply".toList, s, []⟩
    else applyEach manager.registry config toApply s

/-! ## The graph is the dependency relation -/

/-- The plugin names the other among its dependencies. -/
def DependsOn (registry : PluginRegistry σ) (a b : PluginId) : Prop :=
  ∃ plugin, registry.get a = some plugin ∧ b ∈ plugin.dependencies

section

variable {registry : PluginRegistry σ} {id : PluginId} {edges edges' : List (PluginId × PluginId)}

theorem addDependencies_ok {deps : List PluginId} (h : addDependencies registry id deps edges = .ok edges') :
    (∀ dep ∈ deps, dep ∈ registry.ids) ∧ ∀ a b, (a, b) ∈ edges' ↔ (a, b) ∈ edges ∨ (a ∈ deps ∧ b = id) := by
  induction deps generalizing edges with
  | nil =>
    cases h
    simp
  | cons dep deps ih =>
    rw [addDependencies] at h
    split at h
    · next hdep =>
      obtain ⟨hdeps, hedges⟩ := ih h
      refine ⟨?_, ?_⟩
      · intro d hd
        rcases List.mem_cons.mp hd with hd | hd
        · rw [hd]
          exact List.contains_iff_mem.mp hdep
        · exact hdeps d hd
      · intro a b
        rw [hedges]
        simp only [List.mem_append, Prod.mk.injEq, List.mem_cons]
        grind
    · cases h

theorem addPlugins_ok {ids : List PluginId} (h : addPlugins registry ids edges = .ok edges') :
    (∀ b ∈ ids, ∀ a, DependsOn registry b a → a ∈ registry.ids) ∧
      ∀ a b, (a, b) ∈ edges' ↔ (a, b) ∈ edges ∨ (b ∈ ids ∧ DependsOn registry b a) := by
  induction ids generalizing edges with
  | nil =>
    cases h
    simp
  | cons id ids ih =>
    rw [addPlugins] at h
    cases hget : registry.get id with
    | none =>
      rw [hget] at h
      cases h
    | some plugin =>
      rw [hget] at h
      dsimp only at h
      split at h
      · cases h
      · next edges₁ hadd =>
        obtain ⟨hdeps, hedges₁⟩ := addDependencies_ok hadd
        obtain ⟨hrest, hedges⟩ := ih h
        have hplugin : ∀ a, DependsOn registry id a ↔ a ∈ plugin.dependencies := by
          intro a
          simp [DependsOn, hget]
        refine ⟨?_, ?_⟩
        · intro b hb a hba
          rcases List.mem_cons.mp hb with hb | hb
          · rw [hb, hplugin] at hba
            exact hdeps a hba
          · exact hrest b hb a hba
        · intro a b
          rw [hedges, hedges₁, List.mem_cons]
          by_cases hb : b = id
          · rw [hb, hplugin]
            tauto
          · simp [hb]

variable {petgraph : Petgraph} {manager : PluginManager σ}

theorem resolveDependencies_ok (h : resolveDependencies petgraph (.new registry) = .ok manager) :
    manager.registry = registry ∧ manager.graph.nodes = registry.ids ∧
      (∀ a b, manager.graph.Edge a b ↔ DependsOn registry b a) ∧
      ∀ a b, DependsOn registry b a → a ∈ registry.ids ∧ b ∈ registry.ids := by
  unfold resolveDependencies at h
  split at h
  · cases h
  · next edges hadd =>
    dsimp only at h
    split at h
    · cases h
    · cases h
      obtain ⟨hdeps, hedges⟩ := addPlugins_ok hadd
      have hmem : ∀ a b, DependsOn registry b a → b ∈ registry.ids := by
        intro a b hba
        obtain ⟨plugin, hget, _⟩ := hba
        exact PluginRegistry.mem_ids_iff.mpr ⟨plugin, hget⟩
      refine ⟨rfl, rfl, ?_, fun a b hba => ⟨hdeps b (hmem a b hba) a hba, hmem a b hba⟩⟩
      intro a b
      show (a, b) ∈ edges ↔ _
      rw [hedges]
      simp only [List.not_mem_nil, false_or]
      exact ⟨fun h => h.2, fun h => ⟨hmem a b h, h⟩⟩

end

/-! ## Which plugins a walk invokes -/

def Registered (registry : PluginRegistry σ) (id : PluginId) : Prop := id ∈ registry.ids

/-- An empty selection is every plugin. -/
def Selected (selection : List PluginId) (id : PluginId) : Prop := selection = [] ∨ id ∈ selection

section

variable {registry : PluginRegistry σ} {config : HardenerConfig}

theorem invoked_applyEach {ids : List PluginId} (hids : ∀ id ∈ ids, Registered registry id) (s : σ) :
    (applyEach registry config ids s).invoked = ids := by
  induction ids generalizing s with
  | nil => rfl
  | cons id ids ih =>
    obtain ⟨plugin, hget⟩ := PluginRegistry.mem_ids_iff.mp (hids id List.mem_cons_self)
    have hrest := ih fun i hi => hids i (List.mem_cons_of_mem _ hi)
    rw [applyEach, hget]
    dsimp only
    split
    · exact congrArg (id :: ·) (hrest _)
    · exact congrArg (id :: ·) (hrest _)

/-- A scan invokes what is selected and enabled. -/
theorem invoked_scanEach {selection : List PluginId} {ids : List PluginId} (hids : ∀ id ∈ ids, Registered registry id)
    (s : σ) {id : PluginId} :
    id ∈ (scanEach registry config (selection.map PluginId.value) ids s).invoked ↔
      id ∈ ids ∧ Selected selection id ∧ config.isPluginEnabled id = true := by
  induction ids generalizing s with
  | nil => simp [scanEach]
  | cons i ids ih =>
    obtain ⟨plugin, hget⟩ := PluginRegistry.mem_ids_iff.mp (hids i List.mem_cons_self)
    have hrest := ih fun i hi => hids i (List.mem_cons_of_mem _ hi)
    have hselected : (!(selection.map PluginId.value).isEmpty &&
        !(selection.map PluginId.value).any fun name => name == i.value) = true ↔ ¬ Selected selection i := by
      have hmem : i ∈ selection ↔ ∃ x ∈ selection, x.value = i.value := by
        constructor
        · intro hi
          exact ⟨i, hi, rfl⟩
        · rintro ⟨⟨v⟩, hx, rfl⟩
          exact hx
      simp [Selected, hmem]
    have hskip : ¬ (Selected selection i ∧ config.isPluginEnabled i = true) →
        ((id ∈ ids ∧ Selected selection id ∧ config.isPluginEnabled id = true) ↔
          (id ∈ i :: ids ∧ Selected selection id ∧ config.isPluginEnabled id = true)) := by
      intro hnot
      simp only [List.mem_cons]
      constructor
      · exact fun h => ⟨.inr h.1, h.2⟩
      · rintro ⟨rfl | h, hrun⟩
        · exact absurd hrun hnot
        · exact ⟨h, hrun⟩
    rw [scanEach, hget]
    split
    · next h => rw [hrest, hskip fun hrun => hselected.mp h hrun.1]
    · next h =>
      rw [hselected, not_not] at h
      split
      · next hdisabled =>
        rw [Bool.not_eq_true'] at hdisabled
        rw [hrest, hskip fun hrun => Bool.false_ne_true (hdisabled.symm.trans hrun.2)]
      · next henabled =>
        rw [Bool.not_eq_true', Bool.not_eq_false] at henabled
        have hafter : ∀ (result : ScanResult) (s' : σ),
            id ∈ ((scanEach registry config (selection.map PluginId.value) ids s').after i result).invoked ↔
              id ∈ i :: ids ∧ Selected selection id ∧ config.isPluginEnabled id = true := by
          intro result s'
          rw [Execution.after, List.mem_cons, hrest, List.mem_cons]
          constructor
          · rintro (rfl | h')
            · exact ⟨.inl rfl, h, henabled⟩
            · exact ⟨.inr h'.1, h'.2⟩
          · rintro ⟨rfl | h', hrun⟩
            · exact .inl rfl
            · exact .inr ⟨h', hrun⟩
        dsimp only
        split
        · exact hafter _ _
        · exact hafter _ _

end

/-- What an apply invokes is what the selection and the configuration ask for, each once
and after what it depends on, and a scan would have run it too. -/
structure HonoursSelection (registry : PluginRegistry σ) (config : HardenerConfig) (selection : List PluginId)
    (applied scanned : List PluginId) : Prop where
  once : ∀ id, Registered registry id → Selected selection id → config.isPluginEnabled id = true → applied.count id = 1
  selected : ∀ id ∈ applied, Registered registry id ∧ Selected selection id
  after : ∀ id ∈ applied, ∀ dep ∈ applied, Relation.TransGen (DependsOn registry) id dep → Before applied dep id
  enabled : ∀ id ∈ applied, config.isPluginEnabled id = true
  subset : ∀ id ∈ applied, id ∈ scanned

section

variable {registry : PluginRegistry σ} {petgraph : Petgraph} {manager : PluginManager σ} (config : HardenerConfig)
  (selection : List PluginId) (s : σ)

theorem acyclic_edge (hmanager : resolveDependencies petgraph (.new registry) = .ok manager)
    (hacyclic : Acyclic (DependsOn registry)) : Acyclic manager.graph.Edge := by
  obtain ⟨_, _, hedge, _⟩ := resolveDependencies_ok hmanager
  intro a hcycle
  apply hacyclic a
  rw [← Relation.transGen_swap]
  exact Relation.TransGen.mono (fun x y hxy => (hedge x y).mp hxy) _ _ hcycle

/-- Both walks run along one order of the registered plugins: the apply asks the selection
alone, the scan also the configuration. -/
theorem invoked_along_order (hmanager : resolveDependencies petgraph (.new registry) = .ok manager)
    (hacyclic : Acyclic (DependsOn registry))
    (htopo : Acyclic manager.graph.Edge → TopologicalOrder manager.graph.Edge manager.graph.nodes (petgraph.topo manager.graph)) :
    ∃ order, TopologicalOrder manager.graph.Edge registry.ids order ∧
      (executeApply petgraph manager config selection s).invoked = order.filter (fun id => selection.isEmpty || selection.contains id) ∧
      ∀ id, id ∈ (executeScan petgraph manager config (selection.map PluginId.value) s).invoked ↔
        id ∈ order ∧ Selected selection id ∧ config.isPluginEnabled id = true := by
  obtain ⟨hregistry, hnodes, _, _⟩ := resolveDependencies_ok hmanager
  have horder := htopo (acyclic_edge hmanager hacyclic)
  rw [hnodes] at horder
  have hregistered : ∀ id ∈ petgraph.topo manager.graph, Registered registry id := fun id hid => (horder.mem_iff id).mp hid
  refine ⟨petgraph.topo manager.graph, horder, ?_, ?_⟩
  · unfold executeApply executionOrder
    rw [hregistry, hnodes]
    by_cases hempty : registry.ids = []
    · -- nothing is registered, and the order is not even asked for
      have hnone : petgraph.topo manager.graph = [] := by
        apply List.eq_nil_iff_forall_not_mem.mpr
        intro id hid
        have := (horder.mem_iff id).mp hid
        rw [hempty] at this
        cases this
      simp [hempty, hnone]
    · rw [if_neg (by simpa using hempty)]
      have hfilter : (if selection.isEmpty then petgraph.topo manager.graph
            else (petgraph.topo manager.graph).filter fun id => selection.contains id) =
          (petgraph.topo manager.graph).filter fun id => selection.isEmpty || selection.contains id := by
        cases selection <;> simp
      dsimp only
      rw [hfilter]
      split
      · next hnone => exact (List.isEmpty_iff.mp hnone).symm
      · exact invoked_applyEach (fun id hid => hregistered id (List.mem_filter.mp hid).1) s
  · intro id
    unfold executeScan executionOrder
    rw [hregistry, hnodes]
    by_cases hempty : registry.ids = []
    · have hnone : id ∉ petgraph.topo manager.graph := by
        rw [horder.mem_iff, hempty]
        simp
      simp [hempty, hnone]
    · rw [if_neg (by simpa using hempty)]
      exact invoked_scanEach hregistered s

/-- An apply keeps to the selection a scan keeps to exactly where the configuration enables
every selected plugin. -/
theorem apply_honours_selection_iff (hmanager : resolveDependencies petgraph (.new registry) = .ok manager)
    (hacyclic : Acyclic (DependsOn registry))
    (htopo : Acyclic manager.graph.Edge → TopologicalOrder manager.graph.Edge manager.graph.nodes (petgraph.topo manager.graph)) :
    HonoursSelection registry config selection (executeApply petgraph manager config selection s).invoked
        (executeScan petgraph manager config (selection.map PluginId.value) s).invoked ↔
      ∀ id, Registered registry id → Selected selection id → config.isPluginEnabled id = true := by
  obtain ⟨order, horder, happlied, hscanned⟩ := invoked_along_order config selection s hmanager hacyclic htopo
  obtain ⟨_, hnodes, hedge, hends⟩ := resolveDependencies_ok hmanager
  have hselected : ∀ id, (selection.isEmpty || selection.contains id) = true ↔ Selected selection id := by
    intro id
    simp [Selected]
  have hmem : ∀ id, id ∈ (executeApply petgraph manager config selection s).invoked ↔
      Registered registry id ∧ Selected selection id := by
    intro id
    rw [happlied, List.mem_filter, hselected, horder.mem_iff]
    rfl
  constructor
  · intro h id hregistered hid
    exact h.enabled id ((hmem id).mpr ⟨hregistered, hid⟩)
  · intro henabled
    refine ⟨?_, fun id hid => (hmem id).mp hid, ?_, ?_, ?_⟩
    · intro id hregistered hid _
      apply List.count_eq_one_of_mem
      · rw [happlied]
        exact horder.nodup.filter _
      · exact (hmem id).mpr ⟨hregistered, hid⟩
    · intro id hid dep hdep hpath
      have hpath' : Relation.TransGen manager.graph.Edge dep id := by
        rw [← Relation.transGen_swap]
        exact Relation.TransGen.mono (fun x y hxy => (hedge y x).mpr hxy) _ _ hpath
      have hbefore := horder.before (acyclic_edge hmanager hacyclic) (fun a b hab => hends a b ((hedge a b).mp hab)) hpath'
      rw [happlied]
      exact hbefore.filter ((hselected dep).mpr ((hmem dep).mp hdep).2) ((hselected id).mpr ((hmem id).mp hid).2)
    · intro id hid
      obtain ⟨hregistered, hsel⟩ := (hmem id).mp hid
      exact henabled id hregistered hsel
    · intro id hid
      obtain ⟨hregistered, hsel⟩ := (hmem id).mp hid
      exact (hscanned id).mpr ⟨(horder.mem_iff id).mpr hregistered, hsel, henabled id hregistered hsel⟩

end

/-! ## A plugin the configuration disables -/

/-- A plugin that does nothing. -/
def idle (id : String) (dependencies : List PluginId) : HardeningPlugin Unit where
  metadata := ⟨⟨id⟩, id, .audit⟩
  dependencies := dependencies
  scan _ _ := (.ok ⟨⟨id⟩, true, [], [], none, none⟩, ())
  apply _ _ := (.ok ⟨⟨id⟩, true, [], none, none⟩, ())
  validate _ _ := (.error [], ())

/-- The kernel plugin, after the audit plugin. -/
def auditThenKernel : PluginRegistry Unit where
  plugins := [idle "kernel-hardening" [⟨"audit-hardening"⟩], idle "audit-hardening" []]
  nodup := by decide

def auditThenKernelManager : PluginManager Unit where
  registry := auditThenKernel
  graph := ⟨[⟨"audit-hardening"⟩, ⟨"kernel-hardening"⟩], [(⟨"audit-hardening"⟩, ⟨"kernel-hardening"⟩)]⟩

/-- The sorted ids of `auditThenKernel` are an order already. -/
def inNodeOrder : Petgraph := ⟨fun _ => false, DependencyGraph.nodes⟩

theorem resolve_auditThenKernel : resolveDependencies inNodeOrder (.new auditThenKernel) = .ok auditThenKernelManager := by
  have hids : auditThenKernel.ids = [⟨"audit-hardening"⟩, ⟨"kernel-hardening"⟩] := by decide +kernel
  simp only [resolveDependencies, PluginManager.new, hids]
  rfl

theorem dependsOn_auditThenKernel {a b : PluginId} (h : DependsOn auditThenKernel a b) :
    a = ⟨"kernel-hardening"⟩ ∧ b = ⟨"audit-hardening"⟩ := by
  obtain ⟨plugin, hget, hdep⟩ := h
  have hid := PluginRegistry.id_of_get hget
  have hmem : plugin ∈ auditThenKernel.plugins := List.mem_of_find?_eq_some hget
  simp only [auditThenKernel, List.mem_cons, List.not_mem_nil, or_false] at hmem
  obtain rfl | rfl := hmem
  · exact ⟨hid.symm, by simpa [idle] using hdep⟩
  · cases hdep

theorem acyclic_auditThenKernel : Acyclic (DependsOn auditThenKernel) := by
  intro a hcycle
  obtain ⟨_, hfirst, _⟩ := Relation.TransGen.head'_iff.mp hcycle
  obtain ⟨_, _, hlast⟩ := Relation.TransGen.tail'_iff.mp hcycle
  have := (dependsOn_auditThenKernel hfirst).1.symm.trans (dependsOn_auditThenKernel hlast).2
  revert this
  decide

theorem topological_auditThenKernel :
    TopologicalOrder auditThenKernelManager.graph.Edge auditThenKernelManager.graph.nodes
      (inNodeOrder.topo auditThenKernelManager.graph) where
  mem_iff _ := Iff.rfl
  nodup := by decide
  forward := by
    simp only [inNodeOrder, auditThenKernelManager, DependencyGraph.Edge]
    decide

theorem apply_honours_selection_default :
    HonoursSelection auditThenKernel .default []
        (executeApply inNodeOrder auditThenKernelManager .default [] ()).invoked
        (executeScan inNodeOrder auditThenKernelManager .default ([].map PluginId.value) ()).invoked ↔
      ∀ id, Registered auditThenKernel id → Selected [] id → HardenerConfig.default.isPluginEnabled id = true :=
  apply_honours_selection_iff .default [] () resolve_auditThenKernel acyclic_auditThenKernel fun _ => topological_auditThenKernel

/-- The operator has disabled the kernel plugin, and the apply runs it. -/
theorem apply_runs_a_disabled_plugin :
    ¬ ∀ (σ : Type) (registry : PluginRegistry σ) (petgraph : Petgraph) (manager : PluginManager σ) (config : HardenerConfig)
      (selection : List PluginId) (s : σ), resolveDependencies petgraph (.new registry) = .ok manager →
      Acyclic (DependsOn registry) →
      TopologicalOrder manager.graph.Edge manager.graph.nodes (petgraph.topo manager.graph) →
      HonoursSelection registry config selection (executeApply petgraph manager config selection s).invoked
        (executeScan petgraph manager config (selection.map PluginId.value) s).invoked := by
  intro hclaim
  have h := hclaim Unit auditThenKernel inNodeOrder auditThenKernelManager
    { HardenerConfig.default with disabledPlugins := [⟨"kernel-hardening"⟩] } [] () resolve_auditThenKernel
    acyclic_auditThenKernel topological_auditThenKernel
  have hran : (⟨"kernel-hardening"⟩ : PluginId) ∈ (executeApply inNodeOrder auditThenKernelManager
      { HardenerConfig.default with disabledPlugins := [⟨"kernel-hardening"⟩] } [] ()).invoked := by decide
  have henabled := h.enabled _ hran
  revert henabled
  decide

end LinuxHardener.Core
