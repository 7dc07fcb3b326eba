import LinuxHardener.Fleet.Remote
import LinuxHardener.Lib.FirstBy
import LinuxHardener.Lib.LastWins

/-
  The hosts of a selection: the rows of the desktop's fleet scan, and the profiles that
  the command line makes of the arguments the desktop builds for a fleet apply.

  The argument parser is a parameter; of it only what it makes of repeated options with a
  value each is used.

  Correspondence (Rust ↔ Lean):
    `fleet_targets`, its `entry(..).or_insert(..)` ↔ `fleetTargets`, `orInsert`
    `fleet_row_names`, its loop over the targets   ↔ `fleetRowNames`, `adhocRows`
    `build_batch_args`                             ↔ `buildBatchArgs`
    `BatchAction::{Apply, Rollback}` as parsed     ↔ `BatchArgs`
    `resolve_hosts`, `resolve_profiles`            ↔ `resolveHosts`, `resolveProfiles`
-/
namespace LinuxHardener.Fleet

open LineText

/-! ## The desktop -/

/-- `entry(key).or_insert(value)` -/
def orInsert {κ ν : Type} [DecidableEq κ] (m : κ → Option ν) (key : κ) (value : ν) : κ → Option ν :=
  match m key with
  | some _ => m
  | none => assign m key value

/-- The saved profiles by name: of those that share one, the last. -/
def byName (hosts : List RemoteHostProfile) : Chars → Option RemoteHostProfile :=
  settle (hosts.map fun h => (h.name, h))

def insertTargets : (Chars → Option RemoteHostProfile) → List Chars → Except Chars (Chars → Option RemoteHostProfile)
  | profiles, [] => .ok profiles
  | profiles, target :: rest => do
    let profile ← adhocProfile target
    insertTargets (orInsert profiles target profile) rest

def fleetTargets (hosts : List RemoteHostProfile) (adhoc : List Chars) :
    Except Chars (Chars → Option RemoteHostProfile) :=
  insertTargets (byName hosts) adhoc

/-- The ad-hoc rows, given the names and the endpoints that already have one. -/
def adhocRows (profiles : Chars → Option RemoteHostProfile) : List Chars → List Chars → List Chars → List Chars
  | _, _, [] => []
  | seen, endpoints, target :: rest =>
    if target ∈ seen then adhocRows profiles seen endpoints rest
    else
      match (profiles target).map RemoteHostProfile.target with
      | some endpoint =>
        if endpoint ∈ endpoints then adhocRows profiles (target :: seen) endpoints rest
        else target :: adhocRows profiles (target :: seen) (endpoint :: endpoints) rest
      | none => target :: adhocRows profiles (target :: seen) endpoints rest

def fleetRowNames (hostNames adhoc : List Chars) (profiles : Chars → Option RemoteHostProfile) : List Chars :=
  let names := firstBy id [] hostNames
  let endpoints := names.filterMap fun name => (profiles name).map RemoteHostProfile.target
  names ++ adhocRows profiles names endpoints adhoc

/-- The rows of a fleet scan, each with where it connects to; a name that has no profile
keeps a row that connects nowhere. -/
def fleetRows (hosts : List RemoteHostProfile) (hostNames adhoc : List Chars) : Except Chars (List (Option Endpoint)) := do
  let profiles ← fleetTargets hosts adhoc
  .ok ((fleetRowNames hostNames adhoc profiles).map fun name => (profiles name).map RemoteHostProfile.endpoint)

/-! ## The arguments -/

inductive Verb where
  | apply
  | rollback
  deriving DecidableEq, Repr

def Verb.text : Verb → Chars
  | .apply => "apply".toList
  | .rollback => "rollback".toList

def buildBatchArgs (verb : Verb) (hosts adhoc plugins : List Chars) (execute : Bool) : List Chars :=
  ["batch".toList, verb.text] ++ hosts.flatMap (fun h => ["--host".toList, h]) ++
    adhoc.flatMap (fun t => ["--ssh".toList, t]) ++ plugins.flatMap (fun p => ["--plugin".toList, p]) ++
    (if execute then ["--execute".toList] else []) ++ ["--format".toList, "json".toList]

/-- The options of the two verbs that take a value and may be repeated. -/
inductive Flag where
  | host
  | ssh
  | plugin
  deriving DecidableEq, Repr

def Flag.text : Flag → Chars
  | .host => "--host".toList
  | .ssh => "--ssh".toList
  | .plugin => "--plugin".toList

/-- What the parser hands on: the verb's own fields and the global ones it is run with. -/
structure BatchArgs where
  all : Bool
  host : List Chars
  ssh : List Chars
  plugin : List Chars
  execute : Bool
  globalPort : Nat
  globalKey : Option Chars
  globalNoVerify : Bool
  deriving DecidableEq, Repr

/-- A value that the parser takes for an option: no option here admits one. -/
def readsAsFlag : Chars → Bool
  | '-' :: _ :: _ => true
  | _ => false

/-- The values given to one option, in their order. -/
def valuesOf (flag : Flag) (options : List (Flag × Chars)) : List Chars :=
  (options.filter fun o => o.1 = flag).map Prod.snd

/-- A command line of options and their values. -/
def argumentsOf (verb : Verb) (options : List (Flag × Chars)) (execute : Bool) : List Chars :=
  ["batch".toList, verb.text] ++ options.flatMap (fun o => [o.1.text, o.2]) ++
    (if execute then ["--execute".toList] else []) ++ ["--format".toList, "json".toList]

/-- The fields as they are declared: `--host` and `--plugin` are cut at commas, `--ssh` is not. -/
def declaredArgs (options : List (Flag × Chars)) (execute : Bool) : BatchArgs where
  all := false
  host := (valuesOf .host options).flatMap (List.splitOn ',')
  ssh := valuesOf .ssh options
  plugin := (valuesOf .plugin options).flatMap (List.splitOn ',')
  execute := execute
  globalPort := 22
  globalKey := none
  globalNoVerify := false

/-- What is used of the argument parser: it fills the declared fields, and refuses an option
whose value begins like another option. -/
structure ArgumentParser where
  parse : List Chars → Option BatchArgs
  reads : ∀ verb options execute, (∀ o ∈ options, readsAsFlag o.2 = false) →
    parse (argumentsOf verb options execute) = some (declaredArgs options execute)
  refuses : ∀ verb options execute, (∃ o ∈ options, readsAsFlag o.2 = true) →
    parse (argumentsOf verb options execute) = none

/-! ## The command line -/

/-- The inventory entry that a name selects: the first of that name. -/
def findHost (inventory : List RemoteHostProfile) (name : Chars) : Except Chars RemoteHostProfile :=
  match inventory.find? fun h => h.name == name with
  | some h => .ok h
  | none => .error ("unknown host '".toList ++ name ++ "' (not in inventory)".toList)

def addInline (selected : List RemoteHostProfile) (profile : RemoteHostProfile) : List RemoteHostProfile :=
  if selected.any fun h => h.target == profile.target then selected else selected ++ [profile]

def resolveHosts (inventory : List RemoteHostProfile) (all : Bool) (names : List Chars)
    (inlined : List RemoteHostProfile) : Except Chars (List RemoteHostProfile) := do
  let selected ← if all then .ok inventory else names.mapM (findHost inventory)
  let selected := inlined.foldl addInline selected
  if selected.isEmpty then .error "no hosts selected: use --all, --host <names>, or --ssh <user@host>".toList
  else .ok selected

/-- A key given for the whole run serves every host that has none of its own. -/
def fillKey (globalKey : Option Chars) (profile : RemoteHostProfile) : RemoteHostProfile :=
  match globalKey with
  | some key => { profile with keyFile := profile.keyFile.or (some key) }
  | none => profile

def resolveProfiles (inventory : List RemoteHostProfile) (args : BatchArgs) : Except Chars (List RemoteHostProfile) := do
  let inlined := args.ssh.map fun t => parseInline t args.globalPort args.globalKey (!args.globalNoVerify)
  let profiles ← resolveHosts inventory args.all args.host inlined
  .ok (profiles.map (fillKey args.globalKey))

/-- The endpoints that a command line selects: none, where it is refused. -/
def selectedEndpoints (parser : ArgumentParser) (inventory : List RemoteHostProfile) (args : List Chars) : List Endpoint :=
  match parser.parse args with
  | some parsed =>
    match resolveProfiles inventory parsed with
    | .ok profiles => profiles.map RemoteHostProfile.endpoint
    | .error _ => []
  | none => []

/-! ## The map of the desktop -/

@[simp] theorem orInsert_apply {κ ν : Type} [DecidableEq κ] (m : κ → Option ν) (key k : κ) (value : ν) :
    orInsert m key value k = (m k).or (if k = key then some value else none) := by
  unfold orInsert
  by_cases hk : k = key
  · subst hk
    cases hm : m k with
    | some v => simp [hm]
    | none => simp
  · cases m key with
    | some v => simp [hk]
    | none => simp [assign_ne m hk, hk]

/-- The profile a target is scanned through: the saved one whose name it spells, else its own. -/
def rowProfile (hosts : List RemoteHostProfile) (target : Chars) : RemoteHostProfile :=
  (byName hosts target).getD (RemoteHostProfile.fromTarget (trim target) 22 none true)

theorem insertTargets_ok {profiles : Chars → Option RemoteHostProfile} {adhoc : List Chars}
    (h : ∀ t ∈ adhoc, ∃ p, adhocProfile t = .ok p) :
    insertTargets profiles adhoc = .ok fun k => (profiles k).or
      (if k ∈ adhoc then some (RemoteHostProfile.fromTarget (trim k) 22 none true) else none) := by
  induction adhoc generalizing profiles with
  | nil => simp [insertTargets]
  | cons t rest ih =>
    obtain ⟨p, hp⟩ := h t List.mem_cons_self
    rw [insertTargets, hp]
    simp only [bind, Except.bind]
    rw [ih fun t' ht' => h t' (List.mem_cons_of_mem _ ht')]
    apply congrArg
    funext k
    rw [orInsert_apply, (adhocProfile_eq_ok hp).1, Option.or_assoc]
    by_cases hk : k = t
    · simp [hk]
    · simp [hk]

/-! ## The list the command line makes -/

theorem foldl_addInline (inlined selected : List RemoteHostProfile) (seen : List Chars)
    (hseen : ∀ k, k ∈ seen ↔ k ∈ selected.map RemoteHostProfile.target) :
    inlined.foldl addInline selected = selected ++ firstBy RemoteHostProfile.target seen inlined := by
  induction inlined generalizing selected seen with
  | nil => simp [firstBy]
  | cons p inlined ih =>
    have hany : (selected.any fun h => h.target == p.target) = true ↔ p.target ∈ seen := by
      simp [hseen, List.any_eq_true]
    rw [List.foldl_cons, firstBy, addInline]
    by_cases hp : p.target ∈ seen
    · rw [if_pos (hany.mpr hp), if_pos hp, ih selected seen hseen]
    · rw [if_neg (fun h => hp (hany.mp h)), if_neg hp, ih (selected ++ [p]) (p.target :: seen), List.append_assoc]
      · rfl
      · intro k
        simp [hseen, or_comm]

end LinuxHardener.Fleet
