import LinuxHardener.Fleet.Posture
import LinuxHardener.Fleet.RunOnAll
import LinuxHardener.Fleet.Selection
import LinuxHardener.State.ScanCodec

/-
  The desktop's scan of a fleet: a task for every row, eight hosts at once, and an event for
  every host that is done.

  The tasks interleave as they do in `run_on_all`. What a host's scan may come to is a
  parameter, and so is how its results are scored; a task may also panic, and then says nothing.

  What is proved:
    1. `fleet_progress` — at any time the events count up by one, one for each host handed
       over, none for a host twice, and none is taken back.
    2. `fleet_rows_named` — in the end there is one row for each name the operator selected,
       in their order, and it is what its own host's scan came to, or says the task panicked;
       only a row that was scanned has a score, and it is its own host's.

  Correspondence (Rust ↔ Lean):
    `SeverityTallies::from_results` ↔ `SeverityTallies.fromResults`
    `FleetHostStatus`, `FleetHostScan`, `FleetProgress` ↔ the types of these names
    `scan_fleet`                  ↔ `hostScan`, `panicked`, `progress`, `scanFleet`
    `run_fleet_scan`, its closure ↔ `runFleetScan`, `ScanOf`
    `attach_compliance`           ↔ `attach`, `attachCompliance`
-/
namespace LinuxHardener.Desktop.FleetScan

open LineText (Chars)
open Compliance (ComplianceProfile)
open Core (Severity)
open Fleet (RemoteHostProfile FleetFrameworkPosture fleetRowNames adhocRows)
open Fleet.RunOnAll
open State.ScanHistory (Finding ScanResult)

def fleetConcurrency : Nat := 8

structure SeverityTallies where
  critical : Nat
  high : Nat
  medium : Nat
  low : Nat
  info : Nat
  deriving DecidableEq, Repr

namespace SeverityTallies

def count (t : SeverityTallies) (f : Finding) : SeverityTallies :=
  match f.findingSeverity with
  | .critical => { t with critical := t.critical + 1 }
  | .high => { t with high := t.high + 1 }
  | .medium => { t with medium := t.medium + 1 }
  | .low => { t with low := t.low + 1 }
  | .info => { t with info := t.info + 1 }

def fromResults (results : List ScanResult) : SeverityTallies :=
  (results.flatMap ScanResult.scanFindings).foldl count ⟨0, 0, 0, 0, 0⟩

def total (t : SeverityTallies) : Nat := t.critical + t.high + t.medium + t.low + t.info

/-- Every finding is counted once. -/
theorem total_fromResults (results : List ScanResult) : (fromResults results).total = (results.flatMap ScanResult.scanFindings).length := by
  have hfold : ∀ (findings : List Finding) (t : SeverityTallies), (findings.foldl count t).total = t.total + findings.length := by
    intro findings
    induction findings with
    | nil => exact fun _ => rfl
    | cons f findings ih =>
      intro t
      rw [List.foldl_cons, ih, List.length_cons]
      cases hf : f.findingSeverity <;> simp [count, total, hf] <;> omega
  have h := hfold (results.flatMap ScanResult.scanFindings) ⟨0, 0, 0, 0, 0⟩
  rwa [show (SeverityTallies.mk 0 0 0 0 0).total = 0 from rfl, Nat.zero_add] at h

end SeverityTallies

inductive FleetHostStatus where
  | ok
  | failed (error : Chars)
  deriving DecidableEq, Repr

structure FleetHostScan where
  hostName : Chars
  status : FleetHostStatus
  tallies : SeverityTallies
  scanResults : List ScanResult
  compliance : List FleetFrameworkPosture
  profile : ComplianceProfile

structure FleetProgress where
  host : Chars
  done : Nat
  total : Nat
  failed : Bool
  deriving DecidableEq, Repr

/-- A host's row, once its scan is over. -/
def hostScan (name : Chars) : Except Chars (ComplianceProfile × List ScanResult) → FleetHostScan
  | .ok (profile, results) => ⟨name, .ok, .fromResults results, results, [], profile⟩
  | .error e => ⟨name, .failed e, .fromResults [], [], [], .generic⟩

/-- The row of a host whose task panicked. -/
def panicked (name : Chars) : FleetHostScan := ⟨name, .failed "scan task panicked".toList, ⟨0, 0, 0, 0, 0⟩, [], [], .generic⟩

/-- The event of a host that is done, given how many were before it. -/
def event (total : Nat) (scan : FleetHostScan) (before : Nat) : FleetProgress :=
  ⟨scan.hostName, before + 1, total, match scan.status with | .ok => false | .failed _ => true⟩

variable {n : Nat}

/-- The events so far. -/
def progress (w : World FleetHostScan n) : List FleetProgress := w.completed.mapIdx fun before pair => event n pair.2 before

def scanFleet (names : List Chars) (w : World FleetHostScan names.length) : List FleetHostScan :=
  assembleOrdered (names.map panicked) w.completed

/-- How the results of a host are scored, under a profile and as that host. -/
abbrev Score : Type := ComplianceProfile → RemoteHostProfile → List ScanResult → List FleetFrameworkPosture

def attach (score : Score) (profiles : Chars → Option RemoteHostProfile) (host : FleetHostScan) : FleetHostScan :=
  match host.status with
  | .ok =>
    let identity := (profiles host.hostName).getD (RemoteHostProfile.fromTarget host.hostName 22 none true)
    { host with compliance := score host.profile identity host.scanResults }
  | .failed _ => host

def attachCompliance (score : Score) (profiles : Chars → Option RemoteHostProfile) (results : List FleetHostScan) : List FleetHostScan :=
  results.map (attach score profiles)

/-- What the command answers when every task is over. -/
def runFleetScan (score : Score) (profiles : Chars → Option RemoteHostProfile) (names : List Chars)
    (w : World FleetHostScan names.length) : List FleetHostScan :=
  attachCompliance score profiles (scanFleet names w)

/-- What a row's scan may come to: a name without a profile is an error of its own. -/
def ScanOf (profiles : Chars → Option RemoteHostProfile)
    (scan : RemoteHostProfile → Except Chars (ComplianceProfile × List ScanResult) → Prop) (name : Chars) (row : FleetHostScan) : Prop :=
  match profiles name with
  | none => row = hostScan name (.error ("Host profile '".toList ++ name ++ "' not found".toList))
  | some profile => ∃ outcome, scan profile outcome ∧ row = hostScan name outcome

theorem ScanOf.hostName {profiles : Chars → Option RemoteHostProfile}
    {scan : RemoteHostProfile → Except Chars (ComplianceProfile × List ScanResult) → Prop} {name : Chars} {row : FleetHostScan}
    (h : ScanOf profiles scan name row) : row.hostName = name := by
  rw [ScanOf] at h
  split at h
  · rw [h]
    rfl
  · obtain ⟨outcome, -, rfl⟩ := h
    cases outcome <;> rfl

/-- A row that was scanned is scored as its own host; one that failed says so and nothing else. -/
def Scored (score : Score) (profiles : Chars → Option RemoteHostProfile) (row : FleetHostScan) : Prop :=
  match row.status with
  | .ok => ∃ host, profiles row.hostName = some host ∧ row.compliance = score row.profile host row.scanResults ∧
      row.tallies.total = (row.scanResults.flatMap ScanResult.scanFindings).length
  | .failed _ => row.compliance = [] ∧ row.scanResults = [] ∧ row.tallies.total = 0

theorem attach_hostName (score : Score) (profiles : Chars → Option RemoteHostProfile) (row : FleetHostScan) :
    (attach score profiles row).hostName = row.hostName := by
  unfold attach
  split <;> rfl

theorem scored_panicked (score : Score) (profiles : Chars → Option RemoteHostProfile) (name : Chars) :
    Scored score profiles (attach score profiles (panicked name)) := ⟨rfl, rfl, rfl⟩

/-- The scan of a row that succeeded had its profile, so the score is never of a name read as a target. -/
theorem ScanOf.scored {profiles : Chars → Option RemoteHostProfile}
    {scan : RemoteHostProfile → Except Chars (ComplianceProfile × List ScanResult) → Prop} {name : Chars} {row : FleetHostScan}
    (h : ScanOf profiles scan name row) (score : Score) : Scored score profiles (attach score profiles row) := by
  rw [ScanOf] at h
  split at h
  · rw [h]
    exact ⟨rfl, rfl, rfl⟩
  · next host hhost =>
    obtain ⟨outcome, -, rfl⟩ := h
    cases outcome with
    | error e => exact ⟨rfl, rfl, rfl⟩
    | ok scanned => exact ⟨host, hhost, by simp [attach, hostScan, hhost], SeverityTallies.total_fromResults scanned.2⟩

/-! ## The rows' names -/

theorem adhocRows_fresh (profiles : Chars → Option RemoteHostProfile) (seen endpoints targets : List Chars) :
    (adhocRows profiles seen endpoints targets).Nodup ∧ ∀ t ∈ adhocRows profiles seen endpoints targets, t ∉ seen := by
  induction targets generalizing seen endpoints with
  | nil => exact ⟨List.nodup_nil, fun _ h => absurd h List.not_mem_nil⟩
  | cons target rest ih =>
    have hrow : ∀ endpoints', target ∉ seen → (target :: adhocRows profiles (target :: seen) endpoints' rest).Nodup ∧
        ∀ t ∈ target :: adhocRows profiles (target :: seen) endpoints' rest, t ∉ seen := by
      intro endpoints' hnew
      obtain ⟨hnodup, hfresh⟩ := ih (target :: seen) endpoints'
      refine ⟨List.nodup_cons.mpr ⟨fun hmem => hfresh target hmem List.mem_cons_self, hnodup⟩, fun t ht => ?_⟩
      rcases List.mem_cons.mp ht with rfl | hrest
      · exact hnew
      · exact fun hseen => hfresh t hrest (List.mem_cons_of_mem _ hseen)
    rw [adhocRows]
    split
    · exact ih seen endpoints
    · next hnew =>
      split
      · split
        · obtain ⟨hnodup, hfresh⟩ := ih (target :: seen) endpoints
          exact ⟨hnodup, fun t ht hseen => hfresh t ht (List.mem_cons_of_mem _ hseen)⟩
        · exact hrow _ hnew
      · exact hrow _ hnew

theorem nodup_fleetRowNames (hostNames adhoc : List Chars) (profiles : Chars → Option RemoteHostProfile) :
    (fleetRowNames hostNames adhoc profiles).Nodup := by
  obtain ⟨hnodup, hfresh⟩ := adhocRows_fresh profiles (firstBy id [] hostNames)
    ((firstBy id [] hostNames).filterMap fun name => (profiles name).map RemoteHostProfile.target) adhoc
  have hnames : (firstBy id [] hostNames).Nodup := by
    rw [← List.map_id (firstBy id [] hostNames)]
    exact nodup_keys_firstBy [] _
  exact List.nodup_append.mpr ⟨hnames, hnodup, fun a ha b hb heq => hfresh b hb (heq ▸ ha)⟩

/-- A row among these connects to where this target does. -/
def Covered (profiles : Chars → Option RemoteHostProfile) (rows : List Chars) (target : Chars) : Prop :=
  ∃ name ∈ rows, (profiles name).map RemoteHostProfile.target = (profiles target).map RemoteHostProfile.target

theorem Covered.mono {profiles : Chars → Option RemoteHostProfile} {rows rows' : List Chars} {target : Chars} (hsub : rows ⊆ rows')
    (h : Covered profiles rows target) : Covered profiles rows' target :=
  let ⟨name, hname, hsame⟩ := h
  ⟨name, hsub hname, hsame⟩

theorem adhocRows_covers {profiles : Chars → Option RemoteHostProfile} (targets : List Chars) {rows seen endpoints : List Chars}
    (hseen : ∀ s ∈ seen, Covered profiles rows s)
    (hends : ∀ e ∈ endpoints, ∃ name ∈ rows, (profiles name).map RemoteHostProfile.target = some e) :
    ∀ t ∈ targets, Covered profiles (rows ++ adhocRows profiles seen endpoints targets) t := by
  induction targets generalizing rows seen endpoints with
  | nil => exact fun _ h => absurd h List.not_mem_nil
  | cons target rest ih =>
    -- the target is covered by the rows before it, and so is what comes after
    have hskip : ∀ seen', (∀ s ∈ seen', Covered profiles rows s) → Covered profiles rows target →
        ∀ t ∈ target :: rest, Covered profiles (rows ++ adhocRows profiles seen' endpoints rest) t := by
      intro seen' hseen' hcovered t ht
      rcases List.mem_cons.mp ht with rfl | hrest
      · exact hcovered.mono (List.subset_append_left _ _)
      · exact ih hseen' hends t hrest
    have hrow : ∀ endpoints', (∀ e ∈ endpoints', ∃ name ∈ rows ++ [target], (profiles name).map RemoteHostProfile.target = some e) →
        ∀ t ∈ target :: rest, Covered profiles (rows ++ target :: adhocRows profiles (target :: seen) endpoints' rest) t := by
      intro endpoints' hends' t ht
      have hself : target ∈ rows ++ [target] := List.mem_append_right _ List.mem_cons_self
      rw [← List.singleton_append, ← List.append_assoc]
      rcases List.mem_cons.mp ht with rfl | hrest
      · exact ⟨t, List.mem_append_left _ hself, rfl⟩
      · refine ih (fun s hs => ?_) hends' t hrest
        rcases List.mem_cons.mp hs with rfl | hs
        · exact ⟨s, hself, rfl⟩
        · exact (hseen s hs).mono (List.subset_append_left _ _)
    have hkeep : ∀ e ∈ endpoints, ∃ name ∈ rows ++ [target], (profiles name).map RemoteHostProfile.target = some e := fun e he =>
      let ⟨name, hname, htarget⟩ := hends e he
      ⟨name, List.mem_append_left _ hname, htarget⟩
    rw [adhocRows]
    split
    · next hold => exact hskip seen hseen (hseen target hold)
    · split
      · next endpoint hendpoint =>
        split
        · next hold =>
          obtain ⟨name, hname, htarget⟩ := hends endpoint hold
          have hcovered : Covered profiles rows target := ⟨name, hname, by rw [htarget, hendpoint]⟩
          refine hskip (target :: seen) (fun s hs => ?_) hcovered
          rcases List.mem_cons.mp hs with rfl | hs
          · exact hcovered
          · exact hseen s hs
        · refine hrow _ fun e he => ?_
          rcases List.mem_cons.mp he with rfl | he
          · exact ⟨target, List.mem_append_right _ List.mem_cons_self, hendpoint⟩
          · exact hkeep e he
      · exact hrow _ hkeep

theorem fleetRowNames_covers {profiles : Chars → Option RemoteHostProfile} (hostNames : List Chars) {adhoc : List Chars} {target : Chars}
    (h : target ∈ adhoc) : Covered profiles (fleetRowNames hostNames adhoc profiles) target := by
  refine adhocRows_covers adhoc (fun s hs => ⟨s, hs, rfl⟩) (fun e he => ?_) target h
  obtain ⟨name, hname, htarget⟩ := List.mem_filterMap.mp he
  exact ⟨name, hname, htarget⟩

theorem insertTargets_some {adhoc : List Chars} {before profiles : Chars → Option RemoteHostProfile}
    (h : Fleet.insertTargets before adhoc = .ok profiles) {name : Chars} (hname : name ∈ adhoc ∨ (before name).isSome) :
    (profiles name).isSome := by
  induction adhoc generalizing before with
  | nil =>
    cases h
    exact hname.resolve_left List.not_mem_nil
  | cons target rest ih =>
    rw [Fleet.insertTargets] at h
    cases hp : Fleet.adhocProfile target with
    | error e => simp [hp, bind, Except.bind] at h
    | ok profile =>
      simp only [hp, bind, Except.bind] at h
      refine ih h ?_
      rw [Fleet.orInsert_apply, Option.isSome_or]
      rcases hname with hmem | hbefore
      · rcases List.mem_cons.mp hmem with rfl | hrest
        · exact .inr (by simp)
        · exact .inl hrest
      · exact .inr (by simp [hbefore])

theorem fleetTargets_some {hosts : List RemoteHostProfile} {adhoc : List Chars} {profiles : Chars → Option RemoteHostProfile}
    (h : Fleet.fleetTargets hosts adhoc = .ok profiles) {target : Chars} (ht : target ∈ adhoc) : ∃ p, profiles target = some p :=
  Option.isSome_iff_exists.mp (insertTargets_some h (.inl ht))

/-! ## Progress -/

theorem progress_append (w w' : World FleetHostScan n) (h : w.completed <+: w'.completed) : progress w <+: progress w' := by
  obtain ⟨more, hmore⟩ := h
  refine ⟨more.mapIdx fun before pair => event n pair.2 (w.completed.length + before), ?_⟩
  rw [progress, progress, ← hmore, List.mapIdx_append]
  refine congrArg _ (congrArg (more.mapIdx ·) (funext fun before => funext fun pair => ?_))
  rw [Nat.add_comm]

theorem completed_grows {T : Type} {op : Fin n → T → Prop} {w w' : World T n} (h : Reach op w w') : w.completed <+: w'.completed := by
  induction h with
  | refl => exact List.prefix_rfl
  | tail _ hs ih =>
    refine ih.trans ?_
    cases hs with
    | acquire _ _ => exact List.prefix_rfl
    | returns _ _ => exact List.prefix_rfl
    | panics _ => exact List.prefix_rfl
    | join _ => exact List.prefix_append _ _

section

variable {names : List Chars} {profiles : Chars → Option RemoteHostProfile}
  {scan : RemoteHostProfile → Except Chars (ComplianceProfile × List ScanResult) → Prop} {w : World FleetHostScan names.length}

/-- The scan of the rows of these names, eight at once. -/
def Scanning (names : List Chars) (profiles : Chars → Option RemoteHostProfile)
    (scan : RemoteHostProfile → Except Chars (ComplianceProfile × List ScanResult) → Prop) (w : World FleetHostScan names.length) : Prop :=
  Reach (fun i => ScanOf profiles scan names[i]) (.spawned FleetHostScan names.length fleetConcurrency) w

/-- What was handed over is a row under its own host's name. -/
theorem hostName_of_completed (h : Scanning names profiles scan w) {pair : Nat × FleetHostScan} (hp : pair ∈ w.completed) :
    names[pair.1]? = some pair.2.hostName := by
  have hkept := kept_of_reach h
  have hlt := hkept.bound pair hp
  have hjoined := (hkept.joined ⟨pair.1, hlt⟩ pair.2).mp hp
  have hscan := hkept.returned ⟨pair.1, hlt⟩ pair.2 (.inr hjoined)
  rw [hscan.hostName, List.getElem?_eq_getElem hlt]
  rfl

theorem hosts_progress (w : World FleetHostScan n) : (progress w).map FleetProgress.host = w.completed.map fun pair => pair.2.hostName := by
  refine List.ext_getElem (by simp [progress]) fun k hk hk' => ?_
  simp [progress, event]

theorem nodup_hosts (h : Scanning names profiles scan w) (hn : names.Nodup) : ((progress w).map FleetProgress.host).Nodup := by
  rw [hosts_progress]
  have hkept := kept_of_reach h
  refine List.Nodup.map_on (fun a ha b hb heq => ?_) hkept.once.of_map
  have hname : names[a.1]? = names[b.1]? := by rw [hostName_of_completed h ha, hostName_of_completed h hb, heq]
  have hsame : a.1 = b.1 := (List.getElem?_inj (hkept.bound a ha) hn).mp hname
  exact List.inj_on_of_nodup_map hkept.once ha hb hsame

end

/-! ## A fleet of one, typed in -/

def typed : List Chars := ["10.0.0.7".toList]

def typedProfiles : Chars → Option RemoteHostProfile := fun k =>
  (Fleet.byName [] k).or (if k ∈ typed then some (RemoteHostProfile.fromTarget (LineText.trim k) 22 none true) else none)

def nothingFound (_ : RemoteHostProfile) (outcome : Except Chars (ComplianceProfile × List ScanResult)) : Prop := outcome = .ok (.rhel10, [])

def unscored : Score := fun _ _ _ => []

def onlyRow : Fin 1 := ⟨0, Nat.one_pos⟩

/-- The row's task is over. -/
def typedScanned : World FleetHostScan 1 :=
  let row := hostScan "10.0.0.7".toList (.ok (.rhel10, []))
  let running := { (World.spawned FleetHostScan 1 fleetConcurrency).goes onlyRow .running with permits := 7 }
  let ended := { running.goes onlyRow (.ended (some row)) with permits := 8 }
  { ended.goes onlyRow (.joined (some row)) with completed := [(0, row)] }

theorem typedScanned_scanning : Scanning typed typedProfiles nothingFound typedScanned := by
  have hprofile : ∃ p, typedProfiles "10.0.0.7".toList = some p := ⟨_, rfl⟩
  obtain ⟨p, hp⟩ := hprofile
  have hrow : ScanOf typedProfiles nothingFound "10.0.0.7".toList (hostScan "10.0.0.7".toList (.ok (.rhel10, []))) := by
    rw [ScanOf, hp]
    exact ⟨_, rfl, rfl⟩
  exact ((Relation.ReflTransGen.single (.acquire (i := onlyRow) rfl (by decide))).tail (.returns (i := onlyRow) rfl hrow)).tail
    (.join (i := onlyRow) rfl)

section

variable {names : List Chars} {profiles : Chars → Option RemoteHostProfile}
  {scan : RemoteHostProfile → Except Chars (ComplianceProfile × List ScanResult) → Prop} {w : World FleetHostScan names.length}

/-- At any time: the events count up by one and none is of a host twice; a row has one exactly if
its task is over and did not panic; and those there are stay. -/
theorem fleet_progress (h : Scanning names profiles scan w) (hn : names.Nodup) :
    (progress w).map FleetProgress.done = List.range' 1 (progress w).length ∧ (∀ e ∈ progress w, e.total = names.length) ∧
      ((progress w).map FleetProgress.host).Nodup ∧ (progress w).length ≤ names.length ∧
        (∀ i : Fin names.length, names[i] ∈ (progress w).map FleetProgress.host ↔ ∃ row, w.phase i = .joined (some row)) ∧
          ∀ w', Reach (fun i => ScanOf profiles scan names[i]) w w' → progress w <+: progress w' := by
  have hkept := kept_of_reach h
  have hnodup := nodup_hosts h hn
  have hsubset : (progress w).map FleetProgress.host ⊆ names := by
    rw [hosts_progress]
    intro name hname
    obtain ⟨pair, hp, rfl⟩ := List.mem_map.mp hname
    exact List.mem_of_getElem? (hostName_of_completed h hp)
  refine ⟨?_, ?_, hnodup, ?_, ?_, fun w' hw' => progress_append w w' (completed_grows hw')⟩
  · refine List.ext_getElem (by simp) fun k hk hk' => ?_
    simp [progress, event, Nat.add_comm]
  · intro e he
    obtain ⟨k, hk, rfl⟩ := List.mem_mapIdx.mp he
    rfl
  · have hle := (List.subperm_of_subset hnodup hsubset).length_le
    rwa [List.length_map] at hle
  · intro i
    rw [hosts_progress]
    constructor
    · intro hmem
      obtain ⟨pair, hp, hname⟩ := List.mem_map.mp hmem
      have hpair := hostName_of_completed h hp
      have hi : names[i.val]? = some names[i] := List.getElem?_eq_getElem i.isLt
      rw [hname, ← hi] at hpair
      have hsame : pair.1 = i.val := (List.getElem?_inj (hkept.bound pair hp) hn).mp hpair
      exact ⟨pair.2, (hkept.joined i pair.2).mp (by rw [← hsame]; exact hp)⟩
    · intro ⟨row, hrow⟩
      have hp := (hkept.joined i row).mpr hrow
      have hname := hostName_of_completed h hp
      have hi : names[i.val]? = some names[i] := List.getElem?_eq_getElem i.isLt
      rw [hi] at hname
      exact List.mem_map.mpr ⟨_, hp, (Option.some.inj hname).symm⟩

theorem fleet_progress_typed :
    (progress typedScanned).map FleetProgress.done = List.range' 1 (progress typedScanned).length ∧
      (∀ e ∈ progress typedScanned, e.total = 1) ∧ ((progress typedScanned).map FleetProgress.host).Nodup ∧
        (progress typedScanned).length ≤ 1 ∧
          (∀ i : Fin typed.length, typed[i] ∈ (progress typedScanned).map FleetProgress.host ↔ ∃ row, typedScanned.phase i = .joined (some row)) ∧
            ∀ w', Reach (fun i : Fin typed.length => ScanOf typedProfiles nothingFound typed[i]) typedScanned w' →
              progress typedScanned <+: progress w' :=
  fleet_progress typedScanned_scanning (List.nodup_singleton _)

/-- What row `i` is in the end. -/
def RowOf (score : Score) (profiles : Chars → Option RemoteHostProfile)
    (scan : RemoteHostProfile → Except Chars (ComplianceProfile × List ScanResult) → Prop) (name : Chars) (phase : Phase FleetHostScan)
    (row : FleetHostScan) : Prop :=
  (phase = .joined none ∧ row = panicked name) ∨
    ∃ scanned, phase = .joined (some scanned) ∧ ScanOf profiles scan name scanned ∧ row = attach score profiles scanned

theorem rows_of_finished (score : Score) (h : Scanning names profiles scan w) (hdone : Finished w) :
    (runFleetScan score profiles names w).map FleetHostScan.hostName = names ∧
      ∀ i : Fin names.length, ∃ row, (runFleetScan score profiles names w)[i.val]? = some row ∧
        RowOf score profiles scan names[i] (w.phase i) row ∧ Scored score profiles row := by
  obtain ⟨outcome, hjoined, hscan, hresults⟩ := results_ordered h hdone fun i => panicked names[i]
  have hrows : runFleetScan score profiles names w =
      List.ofFn fun i => attach score profiles ((outcome i).getD (panicked names[i])) := by
    rw [runFleetScan, scanFleet, ← List.ofFn_getElem_eq_map]
    refine (congrArg (attachCompliance score profiles) hresults).trans ?_
    rw [attachCompliance, List.map_ofFn]
    rfl
  refine ⟨?_, fun i => ⟨attach score profiles ((outcome i).getD (panicked names[i])), ?_, ?_, ?_⟩⟩
  · rw [hrows, List.map_ofFn]
    refine (congrArg List.ofFn (funext fun i => ?_)).trans List.ofFn_getElem
    rw [Function.comp_apply, attach_hostName]
    cases hi : outcome i with
    | none => rfl
    | some row => exact (hscan i row hi).hostName
  · rw [hrows, List.getElem?_ofFn, dif_pos i.isLt]
  · cases hi : outcome i with
    | none => exact .inl ⟨by rw [hjoined, hi], rfl⟩
    | some row => exact .inr ⟨row, by rw [hjoined, hi], hscan i row hi, rfl⟩
  · cases hi : outcome i with
    | none => exact scored_panicked score profiles _
    | some row => exact (hscan i row hi).scored score

/-- When every task is over there is one row for each name in turn: what its host's scan came to,
scored as that host, or that the task panicked. Every saved host selected is among them by its
name, every target typed in by where it connects to. -/
theorem fleet_rows_named (score : Score) {hosts : List RemoteHostProfile} {hostNames adhoc : List Chars}
    (hprofiles : Fleet.fleetTargets hosts adhoc = .ok profiles) (hnames : fleetRowNames hostNames adhoc profiles = names)
    (h : Scanning names profiles scan w) (hdone : Finished w) :
    (runFleetScan score profiles names w).map FleetHostScan.hostName = names ∧ names.Nodup ∧
      (∀ name ∈ hostNames, name ∈ names) ∧
        (∀ target ∈ adhoc, ∃ p, profiles target = some p ∧ ∃ name ∈ names, ∃ q, profiles name = some q ∧ q.target = p.target) ∧
          ∀ i : Fin names.length, ∃ row, (runFleetScan score profiles names w)[i.val]? = some row ∧
            RowOf score profiles scan names[i] (w.phase i) row ∧ Scored score profiles row := by
  obtain ⟨hrows, hall⟩ := rows_of_finished score h hdone
  subst hnames
  refine ⟨hrows, nodup_fleetRowNames hostNames adhoc profiles, fun name hname => ?_, fun target htarget => ?_, hall⟩
  · have hkey : name ∈ (firstBy id [] hostNames).map id := mem_keys_firstBy.mpr ⟨by rwa [List.map_id], List.not_mem_nil⟩
    rw [List.map_id] at hkey
    exact List.mem_append_left _ hkey
  · obtain ⟨p, hp⟩ := fleetTargets_some hprofiles htarget
    obtain ⟨name, hname, hsame⟩ : Covered profiles (fleetRowNames hostNames adhoc profiles) target :=
      fleetRowNames_covers hostNames htarget
    rw [hp] at hsame
    obtain ⟨q, hq, htq⟩ := Option.map_eq_some_iff.mp hsame
    exact ⟨p, hp, name, hname, q, hq, htq⟩

theorem fleet_rows_named_typed :
    (runFleetScan unscored typedProfiles typed typedScanned).map FleetHostScan.hostName = typed ∧ typed.Nodup ∧ (∀ name ∈ ([] : List Chars), name ∈ typed) ∧
      (∀ target ∈ typed, ∃ p, typedProfiles target = some p ∧ ∃ name ∈ typed, ∃ q, typedProfiles name = some q ∧ q.target = p.target) ∧
        ∀ i : Fin typed.length, ∃ row, (runFleetScan unscored typedProfiles typed typedScanned)[i.val]? = some row ∧
          RowOf unscored typedProfiles nothingFound typed[i] (typedScanned.phase i) row ∧ Scored unscored typedProfiles row :=
  have hparsed : ∀ t ∈ typed, ∃ p, Fleet.adhocProfile t = .ok p := fun t ht => by
    rw [List.mem_singleton.mp ht]
    exact ⟨RemoteHostProfile.fromTarget "10.0.0.7".toList 22 none true, by decide +kernel⟩
  have hprofiles : Fleet.fleetTargets [] typed = .ok typedProfiles := Fleet.insertTargets_ok hparsed
  have hnames : fleetRowNames [] typed typedProfiles = typed := by decide +kernel
  have hdone : Finished typedScanned := fun i => ⟨some (hostScan "10.0.0.7".toList (.ok (.rhel10, []))), by
    rw [Subsingleton.elim i onlyRow]
    rfl⟩
  fleet_rows_named unscored hprofiles hnames typedScanned_scanning hdone

end

end LinuxHardener.Desktop.FleetScan
