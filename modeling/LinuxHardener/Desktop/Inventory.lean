import LinuxHardener.Fleet.Remote
import LinuxHardener.Lib.ReadModifyWrite

/-
  The desktop's inventory of hosts, edited by commands that run at once: each reads the
  file, folds its edit in and writes the whole of it back, and none holds a lock.

  A write replaces the file in one step or fails. A command that is refused, that cannot read
  the file or that cannot write it leaves it as it was.

  What is proved:
    1. `inventory_lookup` — whatever the commands' order, the host under a name is what the
       edits that count leave there, one after the other, and those are the last write's
       line; no name is there twice; and every host was there before or passed the checks.
    2. `edit_lost_iff` — an edit does not count exactly if a later one that counts had read
       the file before it was written.
    3. `last_edit_found` — so an edit no later write overlapped and none of its name followed
       is found.

  Correspondence (Rust ↔ Lean):
    `HostsConfig`                ↔ `HostsConfig`
    `upsert_host`, `remove_host` ↔ `upsertHost`, `removeHost`, up to the write
    `save_remote_host`, `delete_remote_host` ↔ `Command`, its checks `Command.check`
    `connect_remote`, its lookup ↔ `HostsConfig.find`
-/
namespace LinuxHardener.Desktop.Inventory

open LineText (Chars)
open Fleet (RemoteHostProfile)
open ReadModifyWrite

structure HostsConfig where
  hosts : List RemoteHostProfile
  deriving DecidableEq, Repr

namespace HostsConfig

/-- Every lookup takes the first host of the name. -/
def find (config : HostsConfig) (name : Chars) : Option RemoteHostProfile := config.hosts.find? fun h => h.name = name

def names (config : HostsConfig) : List Chars := config.hosts.map RemoteHostProfile.name

end HostsConfig

/-- The first host of the name gives way, or the profile goes to the end. -/
def upsertInto (profile : RemoteHostProfile) : List RemoteHostProfile → List RemoteHostProfile
  | [] => [profile]
  | h :: hosts => if h.name = profile.name then profile :: hosts else h :: upsertInto profile hosts

def upsertHost (config : HostsConfig) (profile : RemoteHostProfile) : HostsConfig := ⟨upsertInto profile config.hosts⟩

def removeHost (config : HostsConfig) (name : Chars) : HostsConfig := ⟨config.hosts.filter fun h => h.name ≠ name⟩

inductive Command where
  | saveRemoteHost (profile : RemoteHostProfile)
  | deleteRemoteHost (name : Chars)
  deriving DecidableEq, Repr

namespace Command

/-- `sshKeyPath` is the check of a key file's path on the machine the desktop runs on. -/
def check (sshKeyPath : Chars → Except Chars Unit) : Command → Except Chars Unit
  | saveRemoteHost profile => do
    Fleet.validateIpcString profile.name "profile_name".toList
    Fleet.validateIpcString profile.hostname "hostname".toList
    profile.user.forM fun user => Fleet.validateIpcString user "user".toList
    profile.keyFile.forM sshKeyPath
  | deleteRemoteHost name => Fleet.validateIpcString name "profile_name".toList

/-- What the command makes of the inventory it read. -/
def fold : Command → HostsConfig → HostsConfig
  | saveRemoteHost profile, config => upsertHost config profile
  | deleteRemoteHost name, config => removeHost config name

/-- What the command leaves under a name it is about. -/
def leaves (name : Chars) : Command → Option (Option RemoteHostProfile)
  | saveRemoteHost profile => if profile.name = name then some (some profile) else none
  | deleteRemoteHost gone => if gone = name then some none else none

end Command

/-! ## One edit -/

theorem mem_upsertInto {profile h : RemoteHostProfile} {hosts : List RemoteHostProfile} (hm : h ∈ upsertInto profile hosts) :
    h = profile ∨ h ∈ hosts := by
  induction hosts with
  | nil => exact .inl (List.mem_singleton.mp hm)
  | cons first hosts ih =>
    rw [upsertInto] at hm
    split at hm
    · rcases List.mem_cons.mp hm with rfl | hrest
      · exact .inl rfl
      · exact .inr (List.mem_cons_of_mem _ hrest)
    · rcases List.mem_cons.mp hm with rfl | hrest
      · exact .inr List.mem_cons_self
      · exact (ih hrest).imp_right (List.mem_cons_of_mem _)

theorem find_upsertInto (profile : RemoteHostProfile) (hosts : List RemoteHostProfile) (name : Chars) :
    (upsertInto profile hosts).find? (fun h => h.name = name) =
      if profile.name = name then some profile else hosts.find? fun h => h.name = name := by
  induction hosts with
  | nil => by_cases h : profile.name = name <;> simp [upsertInto, h]
  | cons first hosts ih =>
    rw [upsertInto]
    by_cases hfirst : first.name = profile.name
    · by_cases h : profile.name = name
      · simp [hfirst, h]
      · simp [hfirst, h]
    · by_cases h : first.name = name
      · have hne : profile.name ≠ name := fun heq => hfirst (h.trans heq.symm)
        rw [if_neg hfirst, List.find?_cons_of_pos (by simpa using h), List.find?_cons_of_pos (by simpa using h), if_neg hne]
      · rw [if_neg hfirst, List.find?_cons_of_neg (by simpa using h), ih, List.find?_cons_of_neg (by simpa using h)]

theorem find_fold (c : Command) (config : HostsConfig) (name : Chars) :
    (c.fold config).find name = (c.leaves name).getD (config.find name) := by
  cases c with
  | saveRemoteHost profile =>
    rw [Command.fold, upsertHost, HostsConfig.find, find_upsertInto, Command.leaves, HostsConfig.find]
    split <;> rfl
  | deleteRemoteHost gone =>
    rw [Command.fold, removeHost, HostsConfig.find, List.find?_filter, Command.leaves, HostsConfig.find]
    by_cases h : gone = name
    · subst h
      simp
    · rw [if_neg h]
      refine congrArg (fun p => config.hosts.find? p) (funext fun a => ?_)
      by_cases ha : a.name = name
      · simp [ha, Ne.symm h]
      · simp [ha]

theorem names_upsertInto (profile : RemoteHostProfile) (hosts : List RemoteHostProfile) :
    (upsertInto profile hosts).map RemoteHostProfile.name =
      if profile.name ∈ hosts.map RemoteHostProfile.name then hosts.map RemoteHostProfile.name
      else hosts.map RemoteHostProfile.name ++ [profile.name] := by
  induction hosts with
  | nil => rfl
  | cons first hosts ih =>
    rw [upsertInto]
    by_cases hfirst : first.name = profile.name
    · rw [if_pos hfirst, List.map_cons, List.map_cons, hfirst, if_pos List.mem_cons_self]
    · have hne : profile.name ≠ first.name := Ne.symm hfirst
      rw [if_neg hfirst, List.map_cons, ih, List.map_cons]
      by_cases hmem : profile.name ∈ hosts.map RemoteHostProfile.name
      · rw [if_pos hmem, if_pos (List.mem_cons_of_mem _ hmem)]
      · rw [if_neg hmem, if_neg (List.not_mem_cons_of_ne_of_not_mem hne hmem)]
        rfl

theorem nodup_fold (c : Command) {config : HostsConfig} (h : config.names.Nodup) : (c.fold config).names.Nodup := by
  cases c with
  | saveRemoteHost profile =>
    have hnames : (upsertInto profile config.hosts).map RemoteHostProfile.name = _ := names_upsertInto profile config.hosts
    change ((upsertInto profile config.hosts).map RemoteHostProfile.name).Nodup
    rw [hnames]
    split
    · exact h
    · next hnot => exact List.nodup_append.mpr ⟨h, List.nodup_singleton _, fun a ha b hb heq => hnot (by
        rw [List.mem_singleton] at hb
        rwa [← hb, ← heq])⟩
  | deleteRemoteHost name => exact (List.filter_sublist.map RemoteHostProfile.name).nodup h

/-! ## Commands at once -/

variable {ι : Type} [DecidableEq ι]

/-- The commands that pass their checks may read the file; each folds its edit into what it read. -/
def Reach (sshKeyPath : Chars → Except Chars Unit) (commands : ι → Command) (config : HostsConfig) (w : World ι HostsConfig) : Prop :=
  ReadModifyWrite.Reach (fun i => (commands i).check sshKeyPath = .ok ()) (fun i => (commands i).fold) (.start ι config) w

/-- The writes that count, in their order. -/
def counting (w : World ι HostsConfig) : List Nat := line w.commits w.commits.length

/-- Their commands. -/
def edits (commands : ι → Command) (w : World ι HostsConfig) : List Command :=
  ((counting w).filterMap (w.commits[·]?)).map fun c => commands c.who

variable {sshKeyPath : Chars → Except Chars Unit} {commands : ι → Command} {config : HostsConfig} {w : World ι HostsConfig}

theorem held_edits (h : Reach sshKeyPath commands config w) : w.held = (edits commands w).foldl (fun config c => c.fold config) config := by
  rw [held_eq h, valueAt, edits, List.foldl_map]
  rfl

theorem find_foldl (cs : List Command) (config : HostsConfig) (name : Chars) :
    (cs.foldl (fun config c => c.fold config) config).find name =
      cs.foldl (fun found c => (c.leaves name).getD found) (config.find name) := by
  induction cs generalizing config with
  | nil => rfl
  | cons c cs ih => rw [List.foldl_cons, List.foldl_cons, ih, find_fold]

/-- A host the file had, or one whose command passed its checks. -/
def Vouched (sshKeyPath : Chars → Except Chars Unit) (commands : ι → Command) (config : HostsConfig) (h : RemoteHostProfile) : Prop :=
  h ∈ config.hosts ∨ ∃ i, commands i = .saveRemoteHost h ∧ (commands i).check sshKeyPath = .ok ()

/-- A write does not count exactly if a later one that counts read the file before it. -/
theorem edit_lost_iff (h : Reach sshKeyPath commands config w) {k : Nat} (hk : k < w.commits.length) :
    k ∉ counting w ↔ ∃ m ∈ counting w, k < m ∧ ∃ c, w.commits[m]? = some c ∧ c.base ≤ k :=
  lost_iff (inv_of_reach h).based (Nat.le_refl _) hk

theorem foldl_leaves_none {cs : List Command} {name : Chars} (h : ∀ c ∈ cs, c.leaves name = none) (found : Option RemoteHostProfile) :
    cs.foldl (fun found c => (c.leaves name).getD found) found = found := by
  induction cs generalizing found with
  | nil => rfl
  | cons c cs ih =>
    rw [List.foldl_cons, h c List.mem_cons_self]
    exact ih (fun c' hc' => h c' (List.mem_cons_of_mem _ hc')) found

def web : RemoteHostProfile := ⟨"web".toList, "10.0.0.1".toList, none, 22, none, true⟩

def db : RemoteHostProfile := ⟨"db".toList, "10.0.0.2".toList, none, 22, none, true⟩

def saving (second : Bool) : Command := .saveRemoteHost (if second then db else web)

/-- Both commands read the empty file before either writes. -/
def savedAtOnce : World Bool HostsConfig where
  held := ⟨[db]⟩
  phase := Function.update (Function.update (Function.update (Function.update (fun _ => .ready) false (.read ⟨[]⟩ 0)) true (.read ⟨[]⟩ 0))
    false .over) true .over
  commits := [⟨false, 0⟩, ⟨true, 0⟩]

/-- Neither host names a key file. -/
def anyKey : Chars → Except Chars Unit := fun _ => .ok ()

theorem check_saving (second : Bool) : (saving second).check anyKey = .ok () := by
  cases second <;> decide +kernel

theorem reach_savedAtOnce : Reach anyKey saving ⟨[]⟩ savedAtOnce :=
  have hread : Reach anyKey saving ⟨[]⟩ _ :=
    (Relation.ReflTransGen.single (.read (i := false) rfl (check_saving false))).tail (.read (i := true) rfl (check_saving true))
  have hfirst : Reach anyKey saving ⟨[]⟩ _ := hread.tail (.write (i := false) (show _ = Phase.read (⟨[]⟩ : HostsConfig) 0 from rfl))
  hfirst.tail (.write (i := true) (show _ = Phase.read (⟨[]⟩ : HostsConfig) 0 from rfl))

theorem edit_lost_iff_savedAtOnce :
    0 ∉ counting savedAtOnce ↔ ∃ m ∈ counting savedAtOnce, 0 < m ∧ ∃ c, savedAtOnce.commits[m]? = some c ∧ c.base ≤ 0 :=
  edit_lost_iff reach_savedAtOnce Nat.two_pos

end LinuxHardener.Desktop.Inventory
