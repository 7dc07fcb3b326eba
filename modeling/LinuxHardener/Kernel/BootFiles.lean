import LinuxHardener.Compliance.Evidence
import LinuxHardener.Kernel.GlobCouldMatch
import LinuxHardener.Kernel.Plan
import LinuxHardener.Lib.DropIns
import LinuxHardener.Plugins.ShellConfig
import LinuxHardener.Ssh.Include

/-
  The files that set kernel parameters at boot (`persistence.rs`), as far as a host lets them
  be read, and what they are.

  A `Host` answers each question with the truth or with an error; a `Snapshot` is all there is
  on it. `systemd-sysctl` applies the drop-ins and ufw, where it is enabled, its own file
  behind them; `sysctl --system` applies the drop-ins and `/etc/sysctl.conf` behind them.

  Correspondence (Rust ↔ Lean):
    `SYSCTL_DROPIN_DIRS`, `UFW_DEFAULTS`, `LEGACY_SYSCTL_CONF`, `SYSTEMD_SYSCTL` ↔ the same in camel case
    `FileRead`, `read_boot_file`  ↔ `FileRead`, `readBootFile`
    `LaterFile`, `DropinScope`, `DropinSweep` ↔ the types of these names
    `dropins`                     ↔ `dropins`, its map `chosen`, the files it reads `readDropins`
    `ufw_applied_file`            ↔ `ufwAppliedFile`
    `merge_effective`             ↔ `mergeEffective`
    `decided_after`, `effective_boot_values` ↔ `decidedAfter`, `effectiveBootValues`
    `legacy_sysctl_conf`, `boot_reads_legacy_conf` ↔ `legacySysctlConf`, `bootReadsLegacyConf`

  What is proved:
    1. `mem_chosen_of_mem_dropins`, `mem_dropins_of_chosen` — the files chosen are those in force.
    2. `boot_decided`, `boot_silent` — when a parameter's value at the next boot, or its lack of
       one, holds whatever stands in the files that could not be read.
-/
namespace LinuxHardener.Kernel

open LineText DropIns
open Compliance (FindingCategory UncheckedBlocker)
open ShellConfig (shellValue)
open Ssh (fileName)

/-! ## What is read -/

structure ReadError where
  text : Chars
  permissionDenied : Bool
  deriving DecidableEq, Repr

/-- What a host answers. The entries of a directory are its names, those that are no text left out. -/
structure Host where
  readDir : Chars → Except ReadError (List (Option Chars))
  pathExists : Chars → Except ReadError Bool
  readFile : Chars → Except ReadError Chars

def sysctlDropinDirs : List Chars :=
  [sysctlDropinDir, "/run/sysctl.d".toList, "/usr/local/lib/sysctl.d".toList, "/usr/lib/sysctl.d".toList]

def ufwConf : Chars := "/etc/ufw/ufw.conf".toList

def ufwDefaults : Chars := "/etc/default/ufw".toList

def hardenerConfName : Chars := "99-hardener.conf".toList

inductive FileRead where
  | content (text : Chars)
  | absent
  | unreadable (reason : Chars) (needsPrivilege : Bool)
  deriving DecidableEq, Repr

def readBootFile (h : Host) (path : Chars) : FileRead :=
  match h.pathExists path with
  | .ok false => .absent
  | .error e => .unreadable ("could not determine whether ".toList ++ path ++ " exists: ".toList ++ e.text) e.permissionDenied
  | .ok true =>
    match h.readFile path with
    | .ok content => .content content
    | .error e => .unreadable (path ++ " could not be read: ".toList ++ e.text) e.permissionDenied

/-- A file that is applied after this tool's own. -/
structure LaterFile where
  path : Chars
  ordering : Chars
  values : SysctlAssignments

structure UncheckedCheck where
  checkId : Chars
  title : Chars
  category : FindingCategory
  reason : Chars
  blocker : UncheckedBlocker
  deriving DecidableEq, Repr

def persistenceCheckId (path : Chars) : Chars :=
  "kernel_boot_persistence".toList ++ path.map fun c => if c = '/' ∨ c = '.' ∨ c = '-' then '_' else c

def uncheckedPersistence (path reason : Chars) (needsPrivilege : Bool) : UncheckedCheck where
  checkId := persistenceCheckId path
  title := "Kernel parameters survive a reboot".toList
  category := .kernel
  reason := reason
  blocker := if needsPrivilege then .privilege else .environment

/-! ## The drop-ins -/

/-- A scan asks for the files behind this tool's own, a rollback for all. -/
inductive DropinScope where
  | afterOurs
  | all
  deriving DecidableEq, Repr

structure DropinSweep where
  files : List LaterFile
  unchecked : List UncheckedCheck
  unreadableLastName : Option Chars
  dirUnlisted : Bool

def isConf (name : Chars) : Bool := ".conf".toList.isSuffixOf name

def beatsOurs (scope : DropinScope) (name : Chars) : Bool :=
  match scope with
  | .afterOurs => hardenerConfName < name
  | .all => true

section

variable (h : Host) (scope : DropinScope)

def unlisted (dir : Chars) : Option UncheckedCheck :=
  match h.readDir dir with
  | .ok _ => none
  | .error e =>
    let reason := match scope with
      | .afterOurs => dir ++ " could not be listed, so a drop-in overriding ".toList ++ sysctlHardenerConf ++
          " cannot be ruled out: ".toList ++ e.text
      | .all => dir ++ " could not be listed, so whether a surviving file in it names a parameter this rollback restored is unknown: ".toList ++
          e.text
    some (uncheckedPersistence dir reason e.permissionDenied)

/-- The path of a name that counts. -/
def pathOf (dir name : Chars) : Option Chars := if isConf name && beatsOurs scope name then some (dir ++ '/' :: name) else none

/-- The drop-ins of a directory, each with its path. -/
def entriesOf (dir : Chars) : List (Chars × Chars) :=
  match h.readDir dir with
  | .ok entries => (entries.filterMap id).filterMap fun name => (pathOf scope dir name).map fun path => (name, path)
  | .error _ => []

/-- Of each name the first copy, in the order of the names. -/
def chosen : List (Chars × Chars) := inOrder (sysctlDropinDirs.map (entriesOf h scope))

def dropinOrdering : Chars :=
  "its name sorts after ".toList ++ hardenerConfName ++ ", and systemd-sysctl lets the lexicographically last drop-in decide the value".toList

/-- A drop-in that was read, under its name. -/
def readDropin (entry : Chars × Chars) : Option (Chars × LaterFile) :=
  match readBootFile h entry.2 with
  | .content content => some (entry.1, ⟨entry.2, dropinOrdering, parseSysctl content⟩)
  | _ => none

/-- A drop-in that was not read, under its name. -/
def unreadDropin (entry : Chars × Chars) : Option (Chars × UncheckedCheck) :=
  match readBootFile h entry.2 with
  | .unreadable reason needsPrivilege =>
    let sentence := match scope with
      | .afterOurs => reason ++ ", and ".toList ++ entry.1 ++ " sorts after ".toList ++ hardenerConfName
      | .all => reason ++ ", so whether it names a parameter this rollback restored is unknown".toList
    some (entry.1, uncheckedPersistence entry.2 sentence needsPrivilege)
  | _ => none

def readDropins : List (Chars × LaterFile) := (chosen h scope).filterMap (readDropin h)

def unreadDropins : List (Chars × UncheckedCheck) := (chosen h scope).filterMap (unreadDropin h scope)

/-- The last of the names. -/
def lastName (names : List Chars) : Option Chars :=
  names.foldl (fun last name => if last.all fun l => l < name then some name else last) none

def dropins : DropinSweep where
  files := (readDropins h scope).map Prod.snd
  unchecked := sysctlDropinDirs.filterMap (unlisted h scope) ++ (unreadDropins h scope).map Prod.snd
  unreadableLastName := lastName ((unreadDropins h scope).map Prod.fst)
  dirUnlisted := sysctlDropinDirs.any fun dir => (unlisted h scope dir).isSome

end

/-! ## The file of ufw -/

def ufwOrdering : Chars := "ufw applies it from ufw.service, which is ordered after systemd-sysctl.service".toList

/-- The two spellings that ufw's own test accepts. -/
def ufwEnabled (conf : Chars) : Bool :=
  let enabled := (shellValue conf "ENABLED".toList).getD []
  enabled = "yes".toList || enabled = "YES".toList

def ufwSysctlPath (defaults : Chars) : Chars := (shellValue defaults "IPT_SYSCTL".toList).getD []

def ufwAppliedFile (h : Host) : List LaterFile × List UncheckedCheck :=
  match readBootFile h ufwConf with
  | .absent => ([], [])
  | .unreadable reason needsPrivilege =>
    ([], [uncheckedPersistence ufwConf (reason ++ ", so whether ufw applies its own sysctl file is unknown".toList) needsPrivilege])
  | .content conf =>
    if !ufwEnabled conf then ([], [])
    else
      match readBootFile h ufwDefaults with
      | .absent => ([], [])
      | .unreadable reason needsPrivilege =>
        ([], [uncheckedPersistence ufwDefaults (reason ++ ", so the sysctl file ufw applies at boot is unknown".toList) needsPrivilege])
      | .content defaults =>
        let path := ufwSysctlPath defaults
        if path = [] then ([], [])
        else
          match readBootFile h path with
          | .content content => ([⟨path, ufwOrdering, parseSysctl content⟩], [])
          | .absent => ([], [])
          | .unreadable reason needsPrivilege =>
            ([], [uncheckedPersistence path
              (reason ++ ", and ufw applies it at every start (IPT_SYSCTL in ".toList ++ ufwDefaults ++ [')']) needsPrivilege])

/-! ## What they come to -/

/-- The file each key's value is taken from, later files winning. -/
def mergeEffective (ordered : List LaterFile) : Chars → Option (LaterFile × Chars) := lastWord (fun file => file.values.values) ordered

structure EffectiveBoot where
  values : Chars → Option Chars
  sources : Chars → Option Chars
  unresolved : List Chars
  globPatterns : List Chars
  blocksAll : Bool
  unreadableLastName : Option Chars

def decidedAfter (unreadableLastName source : Option Chars) : Bool :=
  match unreadableLastName, source with
  | none, _ => false
  | some _, none => true
  | some unread, some source => (fileName source).getD [] ≤ unread

/-- The files in the order in which they are applied. -/
def orderedFiles (h : Host) (scope : DropinScope) : List LaterFile := (dropins h scope).files ++ (ufwAppliedFile h).1

def effectiveBootValues (h : Host) (scope : DropinScope) : EffectiveBoot :=
  let sweep := dropins h scope
  let ufwUnchecked := (ufwAppliedFile h).2
  let ordered := orderedFiles h scope
  { values := fun key => (mergeEffective ordered key).map Prod.snd
    sources := fun key => (mergeEffective ordered key).map fun decided => decided.1.path
    unresolved := (ordered.filter fun file => file.values.globPatterns ≠ []).map
        (fun file => file.path ++ " assigns sysctls through glob patterns, which this scan does not resolve".toList) ++
      (sweep.unchecked ++ ufwUnchecked).map UncheckedCheck.reason
    globPatterns := ordered.flatMap fun file => file.values.globPatterns
    blocksAll := sweep.dirUnlisted || ufwUnchecked ≠ []
    unreadableLastName := sweep.unreadableLastName }

def legacyConf : Chars := "/etc/sysctl.conf".toList

def systemdSysctl : Chars := "/usr/lib/systemd/systemd-sysctl".toList

structure LegacyConf where
  values : Chars → Option Chars
  globPatterns : List Chars
  unreadable : Option Chars

def legacySysctlConf (h : Host) : LegacyConf :=
  match readBootFile h legacyConf with
  | .content content => ⟨(parseSysctl content).values, (parseSysctl content).globPatterns, none⟩
  | .absent => ⟨fun _ => none, [], none⟩
  | .unreadable reason _ => ⟨fun _ => none, [], some reason⟩

inductive Reach where
  | doesNotRead
  | unknown
  deriving DecidableEq, Repr

def bootReadsLegacyConf (h : Host) : Reach :=
  match h.pathExists systemdSysctl with
  | .ok true => .doesNotRead
  | _ => .unknown

/-! ## What there is -/

/-- Everything on a host at one time: the names in each directory and what stands at each path. -/
structure Snapshot where
  names : Chars → List Chars
  file : Chars → Option Chars
  names_plain : ∀ dir, ∀ name ∈ names dir, '/' ∉ name

/-- Every answer of the host is an error, or true of the snapshot. -/
structure Truthful (h : Host) (s : Snapshot) : Prop where
  listed : ∀ {dir entries}, h.readDir dir = .ok entries → ∀ entry, entry ∈ entries ↔ ∃ name ∈ s.names dir, entry = some name
  exist : ∀ {path answer}, h.pathExists path = .ok answer → answer = (s.file path).isSome
  read : ∀ {path content}, h.readFile path = .ok content → s.file path = some content

/-- The drop-ins of a directory, with what they hold. -/
def Snapshot.filesIn (s : Snapshot) (dir : Chars) : List (Chars × Chars) :=
  (s.names dir).filterMap fun name => (if isConf name then s.file (dir ++ '/' :: name) else none).map fun content => (name, content)

/-- The drop-ins in force. -/
def Snapshot.dropins (s : Snapshot) : List (Chars × Chars) := inOrder (sysctlDropinDirs.map s.filesIn)

def Snapshot.ufwFile (s : Snapshot) : Option Chars :=
  (s.file ufwConf).bind fun conf =>
    if ufwEnabled conf then
      (s.file ufwDefaults).bind fun defaults => if ufwSysctlPath defaults = [] then none else s.file (ufwSysctlPath defaults)
    else none

/-- What is applied at boot, in order. -/
def Snapshot.bootFiles (s : Snapshot) : List Chars := s.dropins.map Prod.snd ++ s.ufwFile.toList

/-- What a reload applies, in order. -/
def Snapshot.reloadFiles (s : Snapshot) : List Chars := s.dropins.map Prod.snd ++ (s.file legacyConf).toList

/-- No drop-in is a link that leads nowhere: one would hide the copies behind it from this tool
and not from the boot. -/
def Snapshot.Linked (s : Snapshot) : Prop :=
  ∀ dir ∈ sysctlDropinDirs, ∀ name ∈ s.names dir, isConf name = true → (s.file (dir ++ '/' :: name)).isSome

variable {h : Host} {s : Snapshot} {scope : DropinScope} {path name content key : Chars}

theorem readFile_of_content (hr : readBootFile h path = .content content) : h.readFile path = .ok content := by
  rw [readBootFile] at hr
  split at hr
  · cases hr
  · cases hr
  · split at hr
    · next hread =>
      cases hr
      exact hread
    · cases hr

section

variable (ht : Truthful h s)

include ht

theorem file_of_content (hr : readBootFile h path = .content content) : s.file path = some content := ht.read (readFile_of_content hr)

theorem file_of_absent (hr : readBootFile h path = .absent) : s.file path = none := by
  rw [readBootFile] at hr
  split at hr
  · next hexist => exact Option.isSome_eq_false_iff.mp (ht.exist hexist).symm |> Option.isNone_iff_eq_none.mp
  · cases hr
  · split at hr
    · cases hr
    · cases hr

/-! ## The drop-ins chosen are those in force -/

theorem fileAt_entriesOf {dir : Chars} {entries : List (Option Chars)} (hd : h.readDir dir = .ok entries) :
    fileAt (entriesOf h scope dir) name = some path ↔
      name ∈ s.names dir ∧ isConf name = true ∧ beatsOurs scope name = true ∧ path = dir ++ '/' :: name := by
  have hmem : name ∈ entries.filterMap id ↔ name ∈ s.names dir := by
    rw [List.mem_filterMap]
    constructor
    · intro ⟨entry, he, hsome⟩
      obtain ⟨n, hn, rfl⟩ := (ht.listed hd entry).mp he
      exact Option.some.inj hsome ▸ hn
    · exact fun hn => ⟨some name, (ht.listed hd _).mpr ⟨name, hn, rfl⟩, rfl⟩
  rw [entriesOf, hd]
  refine fileAt_filterMap.trans ?_
  rw [hmem, pathOf, Option.ite_none_right_eq_some, Bool.and_eq_true, Option.some.injEq, and_assoc, eq_comm (a := path)]

end

theorem fileAt_filesIn {dir : Chars} : fileAt (s.filesIn dir) name = some content ↔
    name ∈ s.names dir ∧ isConf name = true ∧ s.file (dir ++ '/' :: name) = some content := by
  refine fileAt_filterMap.trans ?_
  rw [Option.ite_none_right_eq_some]

/-- Where each directory could be listed, the file a name stands for is what its path leads to. -/
theorem inForce_filesIn (ht : Truthful h s) (hl : s.Linked) {dirs : List Chars} (hsub : dirs ⊆ sysctlDropinDirs)
    (hlisted : ∀ dir ∈ dirs, unlisted h scope dir = none) (hname : beatsOurs scope name = true) :
    inForce (dirs.map s.filesIn) name = (inForce (dirs.map (entriesOf h scope)) name).bind s.file := by
  induction dirs with
  | nil => rfl
  | cons dir dirs ih =>
    obtain ⟨hdir, hrest⟩ := List.cons_subset.mp hsub
    have ih := ih hrest fun d hd => hlisted d (List.mem_cons_of_mem _ hd)
    have hentries : ∃ entries, h.readDir dir = .ok entries := by
      have hnone := hlisted dir List.mem_cons_self
      cases hd : h.readDir dir with
      | ok entries => exact ⟨entries, rfl⟩
      | error e => simp [unlisted, hd] at hnone
    obtain ⟨entries, hd⟩ := hentries
    unfold inForce at ih ⊢
    rw [List.map_cons, List.map_cons, List.findSome?_cons, List.findSome?_cons]
    by_cases hin : name ∈ s.names dir ∧ isConf name = true
    · obtain ⟨content, hcontent⟩ := Option.isSome_iff_exists.mp (hl dir hdir name hin.1 hin.2)
      rw [fileAt_filesIn.mpr ⟨hin.1, hin.2, hcontent⟩, (fileAt_entriesOf ht hd).mpr ⟨hin.1, hin.2, hname, rfl⟩]
      exact hcontent.symm
    · have hfile : fileAt (s.filesIn dir) name = none := Option.eq_none_iff_forall_ne_some.mpr fun content hc =>
        hin ((fileAt_filesIn.mp hc).imp_right And.left)
      have hentry : fileAt (entriesOf h scope dir) name = none := Option.eq_none_iff_forall_ne_some.mpr fun path hp =>
        hin (((fileAt_entriesOf ht hd).mp hp).imp_right And.left)
      rw [hfile, hentry]
      exact ih

/-- A path chosen is the name in one of the directories. -/
theorem path_of_inForce (ht : Truthful h s) {dirs : List Chars} (hi : inForce (dirs.map (entriesOf h scope)) name = some path) :
    ∃ dir ∈ dirs, name ∈ s.names dir ∧ isConf name = true ∧ beatsOurs scope name = true ∧ path = dir ++ '/' :: name := by
  obtain ⟨entries, hentries, hfound⟩ := List.exists_of_findSome?_eq_some hi
  obtain ⟨dir, hdir, rfl⟩ := List.mem_map.mp hentries
  refine ⟨dir, hdir, ?_⟩
  cases hd : h.readDir dir with
  | error e => simp [entriesOf, hd, fileAt] at hfound
  | ok listed =>
    exact (fileAt_entriesOf ht hd).mp hfound

theorem fileName_joined {dir : Chars} (hconf : isConf name = true) (hslash : '/' ∉ name) : fileName (dir ++ '/' :: name) = some name := by
  obtain ⟨start, rfl⟩ := List.isSuffixOf_iff_suffix.mp hconf
  have hreverse : (dir ++ '/' :: (start ++ ".conf".toList)).reverse = "fnoc.".toList ++ (start.reverse ++ '/' :: dir.reverse) := by
    simp
  have htrim : Ssh.trimRight ("fnoc.".toList ++ (start.reverse ++ '/' :: dir.reverse)) =
      "fnoc.".toList ++ start.reverse ++ '/' :: dir.reverse := by
    rw [List.append_assoc]
    rfl
  have hlast : ("fnoc.".toList ++ start.reverse ++ '/' :: dir.reverse).takeWhile (· != '/') = "fnoc.".toList ++ start.reverse := by
    rw [List.takeWhile_append_of_pos fun c hc => ?_, List.takeWhile_cons_of_neg (by simp), List.append_nil]
    have hne : c ≠ '/' := fun h => hslash (by
      have hmem : c ∈ (start ++ ".conf".toList).reverse := by simpa using hc
      rw [← h]
      exact List.mem_reverse.mp hmem)
    simpa using hne
  have hdots : start ++ ".conf".toList ≠ "..".toList := fun heq => by
    have hlength := congrArg List.length heq
    simp at hlength
  rw [fileName, Ssh.splitLast, hreverse, htrim, hlast]
  simpa using hdots

/-! ## What was read and what was not -/

section

variable (ht : Truthful h s)

include ht

/-- A drop-in in force that counts is among those chosen. -/
theorem mem_chosen_of_mem_dropins (hl : s.Linked) (hlisted : ∀ dir ∈ sysctlDropinDirs, unlisted h scope dir = none)
    (hname : beatsOurs scope name = true) (hm : (name, content) ∈ s.dropins) :
    ∃ path, (name, path) ∈ chosen h scope ∧ s.file path = some content := by
  rw [Snapshot.dropins, mem_inOrder, inForce_filesIn ht hl (List.Subset.refl _) hlisted hname] at hm
  obtain ⟨path, hpath, hcontent⟩ := Option.bind_eq_some_iff.mp hm
  exact ⟨path, mem_inOrder.mpr hpath, hcontent⟩

/-- One that was chosen stands under its name, and is in force. -/
theorem mem_dropins_of_chosen (hl : s.Linked) (hlisted : ∀ dir ∈ sysctlDropinDirs, unlisted h scope dir = none)
    (hm : (name, path) ∈ chosen h scope) :
    beatsOurs scope name = true ∧ fileName path = some name ∧ ∀ content, s.file path = some content → (name, content) ∈ s.dropins := by
  have hi := mem_inOrder.mp hm
  obtain ⟨dir, -, hin, hconf, hname, hpath⟩ := path_of_inForce ht hi
  refine ⟨hname, by rw [hpath]; exact fileName_joined hconf (s.names_plain dir name hin), fun content hcontent => ?_⟩
  rw [Snapshot.dropins, mem_inOrder, inForce_filesIn ht hl (List.Subset.refl _) hlisted hname, hi]
  exact hcontent

theorem read_or_unread (hm : (name, path) ∈ chosen h scope) (hc : s.file path = some content) :
    (h.readFile path = .ok content ∧ (name, ⟨path, dropinOrdering, parseSysctl content⟩) ∈ readDropins h scope) ∨
      name ∈ (unreadDropins h scope).map Prod.fst := by
  cases hr : readBootFile h path with
  | content text =>
    obtain rfl := Option.some.inj ((file_of_content ht hr).symm.trans hc)
    exact .inl ⟨readFile_of_content hr, List.mem_filterMap.mpr ⟨(name, path), hm, by rw [readDropin, hr]⟩⟩
  | absent =>
    rw [file_of_absent ht hr] at hc
    cases hc
  | unreadable reason needsPrivilege =>
    have hunread : ∃ check, unreadDropin h scope (name, path) = some (name, check) := by
      rw [unreadDropin, hr]
      exact ⟨_, rfl⟩
    obtain ⟨check, hcheck⟩ := hunread
    exact .inr (List.mem_map.mpr ⟨(name, check), List.mem_filterMap.mpr ⟨(name, path), hm, hcheck⟩, rfl⟩)

theorem content_of_readDropin {file : LaterFile} (hm : (name, file) ∈ readDropins h scope) :
    ∃ content, (name, file.path) ∈ chosen h scope ∧ s.file file.path = some content ∧ file.values = parseSysctl content := by
  obtain ⟨⟨n, p⟩, hchosen, hread⟩ := List.mem_filterMap.mp hm
  rw [readDropin] at hread
  split at hread
  · next content hr =>
    cases hread
    exact ⟨content, hchosen, file_of_content ht hr, rfl⟩
  · cases hread

/-- Where nothing about ufw is in doubt, its file is read if it applies one. -/
theorem ufwAppliedFile_of_sure (hsure : (ufwAppliedFile h).2 = []) :
    (s.ufwFile = none ∧ (ufwAppliedFile h).1 = []) ∨
      ∃ path content, h.readFile path = .ok content ∧ s.ufwFile = some content ∧
        (ufwAppliedFile h).1 = [⟨path, ufwOrdering, parseSysctl content⟩] := by
  rw [ufwAppliedFile] at hsure
  rw [ufwAppliedFile, Snapshot.ufwFile]
  cases hconf : readBootFile h ufwConf with
  | absent => exact .inl ⟨by rw [file_of_absent ht hconf]; rfl, rfl⟩
  | unreadable reason needsPrivilege => simp [hconf] at hsure
  | content conf =>
    simp only [hconf] at hsure
    rw [file_of_content ht hconf, Option.bind_some]
    by_cases henabled : ufwEnabled conf = true
    · simp only [henabled, Bool.not_true, Bool.false_eq_true, if_false, if_true] at hsure ⊢
      cases hdefaults : readBootFile h ufwDefaults with
      | absent => exact .inl ⟨by rw [file_of_absent ht hdefaults]; rfl, rfl⟩
      | unreadable reason needsPrivilege => simp [hdefaults] at hsure
      | content defaults =>
        rw [file_of_content ht hdefaults, Option.bind_some]
        by_cases hpath : ufwSysctlPath defaults = []
        · exact .inl ⟨if_pos hpath, by simp [hpath]⟩
        · simp only [hdefaults, hpath, if_false] at hsure ⊢
          cases hfile : readBootFile h (ufwSysctlPath defaults) with
          | absent => exact .inl ⟨file_of_absent ht hfile, rfl⟩
          | unreadable reason needsPrivilege => simp [hfile] at hsure
          | content content => exact .inr ⟨_, content, readFile_of_content hfile, file_of_content ht hfile, rfl⟩
    · exact .inl ⟨by simp [henabled], by simp [henabled]⟩

end

theorem sorted_readDropins (h : Host) (scope : DropinScope) : (readDropins h scope).Pairwise fun a b => a.1 < b.1 := by
  refine List.Pairwise.filterMap (readDropin h) (fun a b hlt c hc d hd => ?_) (sorted_inOrder (sysctlDropinDirs.map (entriesOf h scope)))
  have hname : ∀ {entry : Chars × Chars} {found : Chars × LaterFile}, readDropin h entry = some found → found.1 = entry.1 := by
    intro entry found hfound
    rw [readDropin] at hfound
    split at hfound
    · cases hfound
      rfl
    · cases hfound
  rwa [hname hc, hname hd]

theorem le_lastName {names : List Chars} (hm : name ∈ names) : ∃ last, lastName names = some last ∧ name ≤ last := by
  have hfold : ∀ (names : List Chars) (start : Option Chars), (∃ last, start = some last ∧ name ≤ last) ∨ name ∈ names →
      ∃ last, names.foldl (fun last n => if last.all fun l => l < n then some n else last) start = some last ∧ name ≤ last := by
    intro names
    induction names with
    | nil => exact fun start h => h.resolve_right List.not_mem_nil
    | cons n names ih =>
      intro start h
      refine ih _ ?_
      rcases h with ⟨last, rfl, hle⟩ | hmem
      · left
        by_cases hlt : last < n
        · exact ⟨n, by simp [hlt], hle.trans hlt.le⟩
        · exact ⟨last, by simp [hlt], hle⟩
      · rcases List.mem_cons.mp hmem with rfl | hrest
        · left
          cases start with
          | none => exact ⟨name, by simp, le_rfl⟩
          | some last =>
            by_cases hlt : last < name
            · exact ⟨name, by simp [hlt], le_rfl⟩
            · exact ⟨last, by simp [hlt], not_lt.mp hlt⟩
        · exact .inr hrest
  exact hfold names none (.inr hm)

/-! ## What holds whatever stands in the files not read -/

/-- What a file's text sets a key to outright. -/
def sets (content key : Chars) : Option Chars := (parseSysctl content).values key

/-- The keys a file may touch: those it assigns, and those its patterns match as fnmatch does. -/
def Reaches (pathname : Bool) (content key : Chars) : Prop :=
  sets content key ≠ none ∨ ∃ pattern ∈ (parseSysctl content).globPatterns, Fnmatch.Matches pathname pattern key

/-- No pattern in a file that can be read is one that `glob_could_match` misreads. -/
def PatternsPlain (pathname : Bool) (h : Host) : Prop :=
  ∀ path content, h.readFile path = .ok content → ∀ pattern ∈ (parseSysctl content).globPatterns, PlainPattern pathname pattern

/-- Nothing left open could bear on a key, given the file it is taken from. -/
structure Unblocked (h : Host) (scope : DropinScope) (key : Chars) (source : Option Chars) : Prop where
  all_sources : (effectiveBootValues h scope).blocksAll = false
  later_names : decidedAfter (effectiveBootValues h scope).unreadableLastName source = false
  patterns : ∀ pattern ∈ (effectiveBootValues h scope).globPatterns, globCouldMatch pattern key = false

section

variable {pathname : Bool} {leaves : List Chars → Chars → Option Chars} {source : Option Chars} {value : Chars}

theorem not_reaches (hplain : PatternsPlain pathname h) (hr : h.readFile path = .ok content) (hsilent : sets content key = none)
    (hpatterns : ∀ pattern ∈ (parseSysctl content).globPatterns, globCouldMatch pattern key = false) :
    ¬ Reaches pathname content key := by
  intro hreaches
  rcases hreaches with hset | ⟨pattern, hp, hm⟩
  · exact hset hsilent
  · have hcould := globCouldMatch_iff.mpr (matches_of_covers (covers_tokens (hplain path content hr pattern hp)) hm)
    rw [hpatterns pattern hp] at hcould
    cases hcould

theorem Unblocked.listed (hu : Unblocked h scope key source) : ∀ dir ∈ sysctlDropinDirs, unlisted h scope dir = none := by
  intro dir hdir
  have hblocks : ((dropins h scope).dirUnlisted || (ufwAppliedFile h).2 ≠ []) = false := hu.all_sources
  have hany := List.any_eq_false.mp (Bool.or_eq_false_iff.mp hblocks).1 dir hdir
  simpa using hany

theorem Unblocked.ufw_sure (hu : Unblocked h scope key source) : (ufwAppliedFile h).2 = [] := by
  have hblocks : ((dropins h scope).dirUnlisted || (ufwAppliedFile h).2 ≠ []) = false := hu.all_sources
  simpa using (Bool.or_eq_false_iff.mp hblocks).2

theorem Unblocked.patterns_of_mem (hu : Unblocked h scope key source) {file : LaterFile} (hf : file ∈ orderedFiles h scope) :
    ∀ pattern ∈ file.values.globPatterns, globCouldMatch pattern key = false :=
  fun pattern hp => hu.patterns pattern (List.mem_flatMap.mpr ⟨file, hf, hp⟩)

/-- Where every source was read, and none through patterns, nothing is left open. -/
theorem unblocked_of_sure (hsweep : (dropins h scope).unchecked = []) (hufw : (ufwAppliedFile h).2 = [])
    (hglobs : (orderedFiles h scope).filter (fun file => file.values.globPatterns ≠ []) = []) (key : Chars) (source : Option Chars) :
    unreadDropins h scope = [] ∧ Unblocked h scope key source := by
  obtain ⟨hlisted, hread⟩ := List.append_eq_nil_iff.mp hsweep
  have hunread : unreadDropins h scope = [] := List.map_eq_nil_iff.mp hread
  have hdirs : (dropins h scope).dirUnlisted = false := List.any_eq_false.mpr fun dir hdir => by
    rw [List.filterMap_eq_nil_iff.mp hlisted dir hdir]
    exact Bool.false_ne_true
  refine ⟨hunread, ?_, ?_, fun pattern hp => ?_⟩
  · show ((dropins h scope).dirUnlisted || (ufwAppliedFile h).2 ≠ []) = false
    rw [hdirs, hufw]
    rfl
  · show decidedAfter (lastName ((unreadDropins h scope).map Prod.fst)) source = false
    rw [hunread]
    rfl
  · obtain ⟨file, hf, hpattern⟩ := List.mem_flatMap.mp hp
    have hnone : file.values.globPatterns = [] := by simpa using List.filter_eq_nil_iff.mp hglobs file hf
    rw [hnone] at hpattern
    cases hpattern

/-- A drop-in in force is silent on a key if it was read as silent, or cannot be behind `bound`. -/
theorem Unblocked.silent_dropin (hu : Unblocked h scope key source) (ht : Truthful h s) (hl : s.Linked) (hplain : PatternsPlain pathname h)
    (hname : beatsOurs scope name = true) (hm : (name, content) ∈ s.dropins)
    (hread : ∀ file, (name, file) ∈ readDropins h scope → file.values.values key = none)
    (hunread : ∀ last, (effectiveBootValues h scope).unreadableLastName = some last → name ≤ last → False) :
    ¬ Reaches pathname content key := by
  obtain ⟨path, hchosen, hfile⟩ := mem_chosen_of_mem_dropins ht hl hu.listed hname hm
  rcases read_or_unread ht hchosen hfile with ⟨hr, hin⟩ | hin
  · have hmem : (⟨path, dropinOrdering, parseSysctl content⟩ : LaterFile) ∈ orderedFiles h scope :=
      List.mem_append_left _ (List.mem_map.mpr ⟨_, hin, rfl⟩)
    exact not_reaches hplain hr (hread _ hin) (hu.patterns_of_mem hmem)
  · obtain ⟨last, hlast, hle⟩ := le_lastName hin
    exact (hunread last hlast hle).elim

theorem Unblocked.silent_ufw (hu : Unblocked h scope key source) (ht : Truthful h s) (hplain : PatternsPlain pathname h)
    (hread : ∀ file ∈ (ufwAppliedFile h).1, file.values.values key = none) : ∀ last ∈ s.ufwFile.toList, ¬ Reaches pathname last key := by
  intro last hlast
  rcases ufwAppliedFile_of_sure ht hu.ufw_sure with ⟨hnone, -⟩ | ⟨path, content, hr, hsome, hfiles⟩
  · rw [hnone] at hlast
    cases hlast
  · rw [hsome] at hlast
    obtain rfl := List.mem_singleton.mp hlast
    have hmem : (⟨path, ufwOrdering, parseSysctl last⟩ : LaterFile) ∈ (ufwAppliedFile h).1 := by
      rw [hfiles]
      exact List.mem_cons_self
    exact not_reaches hplain hr (hread _ hmem) (hu.patterns_of_mem (List.mem_append_right _ hmem))

/-- Where nothing left open could bear on a key, the boot leaves it at the value found, whatever
stands in the files that were not read. -/
theorem boot_decided (hleaves : LeavesLast sets (Reaches pathname) leaves) (ht : Truthful h s) (hl : s.Linked)
    (hplain : PatternsPlain pathname h) (hvalue : (effectiveBootValues h scope).values key = some value)
    (hu : Unblocked h scope key ((effectiveBootValues h scope).sources key)) : leaves s.bootFiles key = some value := by
  obtain ⟨⟨file, word⟩, hmerged, rfl⟩ := Option.map_eq_some_iff.mp hvalue
  have hsource : (effectiveBootValues h scope).sources key = some file.path := by
    show (mergeEffective (orderedFiles h scope) key).map (fun decided => decided.1.path) = some file.path
    rw [hmerged]
    rfl
  rw [mergeEffective, orderedFiles, lastWord_append, Option.or_eq_some_iff] at hmerged
  rcases hmerged with hufw | ⟨hufw, hdrop⟩
  · -- ufw's file is the last of all
    obtain ⟨before, after, hfiles, hset, -⟩ := lastWord_eq_some.mp hufw
    have hmem : file ∈ (ufwAppliedFile h).1 := hfiles ▸ List.mem_append_right _ List.mem_cons_self
    rcases ufwAppliedFile_of_sure ht hu.ufw_sure with ⟨-, hnone⟩ | ⟨path, content, -, hsome, hone⟩
    · rw [hnone] at hmem
      cases hmem
    · rw [hone] at hmem
      obtain rfl := List.mem_singleton.mp hmem
      rw [Snapshot.bootFiles, hsome]
      exact hleaves.said hset fun _ h => absurd h List.not_mem_nil
  · obtain ⟨name, hread, hset, hlater⟩ := lastWord_named (sorted_readDropins h scope) hdrop
    obtain ⟨content, hchosen, hcontent, hvalues⟩ := content_of_readDropin ht hread
    obtain ⟨hname, hfileName, hforce⟩ := mem_dropins_of_chosen ht hl hu.listed hchosen
    rw [hvalues] at hset
    refine hleaves.decided (sorted_inOrder _) (hforce content hcontent) hset (fun entry he hlt => ?_)
      (hu.silent_ufw ht hplain (lastWord_eq_none.mp hufw))
    have hbeats : beatsOurs scope entry.1 = true := by
      cases scope with
      | all => rfl
      | afterOurs =>
        have hours : hardenerConfName < name := of_decide_eq_true hname
        exact decide_eq_true (hours.trans hlt)
    refine hu.silent_dropin ht hl hplain hbeats he (fun later hl' => hlater _ hl' hlt) fun last hlast hle => ?_
    have hblocked := hu.later_names
    rw [hlast, hsource, decidedAfter, hfileName] at hblocked
    exact of_decide_eq_false hblocked (hlt.le.trans hle)

/-- Where nothing left open could name a key and nothing read does, no file of the boot does. -/
theorem boot_silent (hleaves : LeavesLast sets (Reaches pathname) leaves) (ht : Truthful h s) (hl : s.Linked)
    (hplain : PatternsPlain pathname h) (hvalue : (effectiveBootValues h .all).values key = none) (hu : Unblocked h .all key none) :
    (∀ file ∈ s.bootFiles, ¬ Reaches pathname file key) ∧ leaves s.bootFiles key = none := by
  have hnone : ∀ file ∈ orderedFiles h .all, file.values.values key = none := by
    have hmap : (mergeEffective (orderedFiles h .all) key).map Prod.snd = none := hvalue
    exact lastWord_eq_none.mp (Option.map_eq_none_iff.mp hmap)
  have hsilent : ∀ file ∈ s.bootFiles, ¬ Reaches pathname file key := by
    intro file hf
    rcases List.mem_append.mp hf with hdrop | hufw
    · obtain ⟨⟨name, content⟩, hm, rfl⟩ := List.mem_map.mp hdrop
      refine hu.silent_dropin ht hl hplain rfl hm (fun later hr => ?_) fun last hlast _ => ?_
      · exact hnone later (List.mem_append_left _ (List.mem_map.mpr ⟨_, hr, rfl⟩))
      · have hblocked := hu.later_names
        rw [hlast] at hblocked
        cases hblocked
    · exact hu.silent_ufw ht hplain (fun last hlast => hnone last (List.mem_append_right _ hlast)) file hufw
  exact ⟨hsilent, hleaves.silent hsilent⟩

end

/-! ## A host that lets everything be read -/

def Snapshot.host (s : Snapshot) : Host where
  readDir dir := .ok ((s.names dir).map some)
  pathExists path := .ok (s.file path).isSome
  readFile path :=
    match s.file path with
    | some content => .ok content
    | none => .error ⟨"No such file or directory".toList, false⟩

theorem Snapshot.file_of_read {path content : Chars} (hr : s.host.readFile path = .ok content) : s.file path = some content := by
  simp only [Snapshot.host] at hr
  split at hr
  · next text htext => rw [htext, Except.ok.inj hr]
  · cases hr

theorem Snapshot.truthful (s : Snapshot) : Truthful s.host s where
  listed := by
    intro dir entries hd entry
    obtain rfl := Except.ok.inj hd
    rw [List.mem_map]
    simp only [eq_comm]
  exist := fun he => (Except.ok.inj he).symm
  read := Snapshot.file_of_read

/-- A boot that applies what its files say outright. -/
def lastValue (files : List Chars) (key : Chars) : Option Chars := (lastWord sets files key).map Prod.snd

theorem leavesLast_lastValue (pathname : Bool) : LeavesLast sets (Reaches pathname) lastValue := (leavesLast_lastWord sets).mono .inl

end LinuxHardener.Kernel
