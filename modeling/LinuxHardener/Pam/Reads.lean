import LinuxHardener.Common.HeldDirective
import LinuxHardener.Core.Plugin
import LinuxHardener.Pam.Stack
import LinuxHardener.Plugins.Clamp

/-
  What the PAM plugin reads of a host (`pam/mod.rs`, `vendor_config.rs`): files that stand in
  one of two layers, the stacks that may load a module, and the value a directive has.

  Correspondence (Rust ↔ Lean):
    `vendor_path_for`, `read_one`, `read_layered` ↔ the same in camel case
    `read_conf_classified`       ↔ `readConfClassified`
    `PAM_DIRECTIVES`             ↔ `pamDirectives`, a directive's fields without their `pam_`
    `read_module_presence`       ↔ `readModulePresence`, its loop `searchStack`
    `module_presence_by_file`    ↔ `modulePresenceByFile`, its loop `presenceByFile`
    `read_pamd_inline`           ↔ `readPamdInline`, its loop `searchInline`
    `read_effective_threshold`   ↔ `readEffectiveThreshold`
    `observed_pam_value`         ↔ `observedPamValue`

  What is proved, of the files that could not be read and of whatever stands in them:
    1. `presence_exact` — a module is found in the stack, or found missing, exactly where it
       is so in every case; and nothing is concluded where both cases are open.
    2. `threshold_stable_iff` — when the value found is the one in every case.
-/
namespace LinuxHardener.Pam

open Text (isWhitespace)
open LineText Common Plugins Dialogue
open Core (Severity)

/-! ## Two layers -/

inductive ConfigLayer where
  | admin
  | vendor
  deriving DecidableEq, Repr

inductive LayeredRead where
  | found (path : Chars) (layer : ConfigLayer) (content : Chars)
  | absent
  | unreadable (path reason : Chars) (permissionDenied : Bool)
  deriving DecidableEq, Repr

inductive Layer where
  | content (text : Chars)
  | absent
  | unreadable (reason : Chars) (permissionDenied : Bool)
  deriving DecidableEq, Repr

def vendorPathFor (adminPath : Chars) : Option Chars :=
  match stripStart "/etc/".toList adminPath with
  | none => none
  | some rest => if rest.isEmpty then none else some ("/usr/etc/".toList ++ rest)

/-- How a configuration file read turned out. -/
inductive ConfRead where
  | content (text : Chars) (layer : ConfigLayer)
  | absent
  | unreadable (path reason : Chars) (permissionDenied : Bool)
  deriving DecidableEq, Repr

/-- Why a file could not be read, phrased for an operator. -/
def unreadableReason (path : Chars) (permissionDenied : Bool) : Chars :=
  if permissionDenied then "reading ".toList ++ path ++ " requires root".toList else path ++ " could not be read".toList

section

-- Whether the failure to read a path was one of privileges. The chain of the error tells it,
-- its text alone does not.
variable (denied : Chars → Chars → Bool)

def readOne (path : Chars) : Session Layer := do
  match ← readFile path with
  | .ok content => return .content content
  | .error e =>
    match ← pathExists path with
    | .ok false => return .absent
    | _ => return .unreadable e (denied path e)

/-- The file in force: the administrator's, or the vendor's where that one is known to be absent. -/
def readLayered (adminPath : Chars) : Session LayeredRead := do
  match ← readOne denied adminPath with
  | .content content => return .found adminPath .admin content
  | .unreadable reason permissionDenied => return .unreadable adminPath reason permissionDenied
  | .absent =>
    match vendorPathFor adminPath with
    | none => return .absent
    | some vendor =>
      match ← readOne denied vendor with
      | .content content => return .found vendor .vendor content
      | .absent => return .absent
      | .unreadable reason permissionDenied => return .unreadable vendor reason permissionDenied

def readConfClassified (path : Chars) : Session ConfRead := do
  match ← readLayered denied path with
  | .found _ layer content => return .content content layer
  | .absent => return .absent
  | .unreadable path reason permissionDenied => return .unreadable path reason permissionDenied

end

/-! ## The directives -/

def faillockConf : String := "/etc/security/faillock.conf"

def pwhistoryConf : String := "/etc/security/pwhistory.conf"

def pwqualityConf : String := "/etc/security/pwquality.conf"

def loginDefs : String := "/etc/login.defs"

inductive PamConfigFile where
  | pwQuality
  | loginDefs
  | pamAuth
  | securityConf (path : String)
  deriving DecidableEq, Repr

namespace PamConfigFile

/-- The syntax the file itself accepts. -/
def configFormat : PamConfigFile → ConfigFormat
  | loginDefs => .spaceSeparated
  | _ => .keyValue

def confPath : PamConfigFile → Option String
  | pwQuality => some pwqualityConf
  | loginDefs => some Pam.loginDefs
  | securityConf path => some path
  | pamAuth => none

end PamConfigFile

structure PamDirective where
  name : Chars
  secureValue : Chars
  description : Chars
  severity : Severity
  configFile : PamConfigFile
  compare : Strictness
  deriving DecidableEq, Repr

def pamDirectives : List PamDirective :=
  [⟨"minlen", "14", "Minimum password length of 14 characters", .high, .pwQuality, .atLeast⟩,
    ⟨"dcredit", "-1", "Require at least one digit in password", .medium, .pwQuality, .atMost⟩,
    ⟨"ucredit", "-1", "Require at least one uppercase character in password", .medium, .pwQuality, .atMost⟩,
    ⟨"lcredit", "-1", "Require at least one lowercase character in password", .medium, .pwQuality, .atMost⟩,
    ⟨"ocredit", "-1", "Require at least one special character in password", .medium, .pwQuality, .atMost⟩,
    ⟨"maxrepeat", "3", "Maximum consecutive identical characters in password", .low, .pwQuality, .nonZeroAtMost⟩,
    ⟨"PASS_MAX_DAYS", "90", "Maximum password age of 90 days", .medium, .loginDefs, .atMost⟩,
    ⟨"PASS_MIN_DAYS", "1", "Minimum password age of 1 day (prevents rapid changes)", .low, .loginDefs, .atLeast⟩,
    ⟨"PASS_WARN_AGE", "7", "Warn users 7 days before password expiry", .low, .loginDefs, .atLeast⟩,
    ⟨"deny", "5", "Lock the account after at most 5 failed attempts", .high, .securityConf faillockConf, .atMost⟩,
    ⟨"remember", "5", "Remember at least the last 5 passwords to prevent reuse", .medium, .securityConf pwhistoryConf,
      .atLeast⟩]

/-- The secure value, tightened by a directive of the operator's that tightens it. -/
def clampedBaseline (directive : PamDirective) (config : PluginConfig) : Chars :=
  directive.compare.resolvedTarget config directive.name directive.secureValue

/-! ## Whether a module is loaded -/

inductive ModulePresence where
  | inStack
  | notInStack (module : Chars)
  | indeterminate (reason : Chars) (needsPrivilege : Bool)
  | noModule
  deriving DecidableEq, Repr

/-- What the search of the candidates comes to. -/
def concluded (module : Chars) (readOne : Bool) (unread : Option (String × Bool)) : ModulePresence :=
  match unread with
  | some (path, permissionDenied) => .indeterminate (unreadableReason path.toList permissionDenied) permissionDenied
  | none =>
    if readOne then .notInStack module
    else
      .indeterminate ("no PAM stack file this tool knows of exists, so whether ".toList ++ module ++
        " is loaded could not be determined".toList) false

section

variable (denied : Chars → Chars → Bool)

def searchStack (module : Chars) : List String → Bool → Option (String × Bool) → Session ModulePresence
  | [], readOne, unread => return concluded module readOne unread
  | file :: files, readOne, unread => do
    match ← readConfClassified denied file.toList with
    | .content content _ =>
      if stackLoadsModule content module then return .inStack else searchStack module files true unread
    | .absent => searchStack module files readOne unread
    | .unreadable _ _ permissionDenied => searchStack module files readOne (unread.or (some (file, permissionDenied)))

def readModulePresence (confPath : String) : Session ModulePresence :=
  match pamModuleFor confPath with
  | none => return .noModule
  | some (module, files) => searchStack denied module.text files false none

def presenceByFile : List PamDirective → List (String × ModulePresence) → Session (List (String × ModulePresence))
  | [], presence => return presence
  | directive :: directives, presence =>
    match directive.configFile.confPath with
    | none => presenceByFile directives presence
    | some path =>
      if presence.any fun known => known.1 == path then presenceByFile directives presence
      else do
        let found ← readModulePresence denied path
        presenceByFile directives (presence ++ [(path, found)])

/-- Each file the directives name, with whether the module that reads it is loaded. -/
def modulePresenceByFile : Session (List (String × ModulePresence)) := presenceByFile denied pamDirectives []

/-! ## The value a directive has -/

inductive InlineRead where
  | value (text : Chars)
  | notSet
  | unreadable (path : String) (permissionDenied : Bool)
  deriving DecidableEq, Repr

def searchInline (module arg : Chars) : List String → Option (String × Bool) → Session InlineRead
  | [], unread =>
    match unread with
    | some (path, permissionDenied) => return .unreadable path permissionDenied
    | none => return .notSet
  | file :: files, unread => do
    match ← readConfClassified denied file.toList with
    | .content content _ =>
      match inlineArgInContent content module arg with
      | some value => return .value value
      | none => searchInline module arg files unread
    | .absent => searchInline module arg files unread
    | .unreadable _ _ permissionDenied => searchInline module arg files (unread.or (some (file, permissionDenied)))

/-- The argument set inline on the module's line of a stack. -/
def readPamdInline (confPath : String) (arg : Chars) : Session InlineRead :=
  match pamModuleFor confPath with
  | none => return .notSet
  | some (module, files) => searchInline denied module.text arg files none

inductive ThresholdRead where
  | value (text : Chars)
  | notSet
  | unreadable (path : Chars) (permissionDenied : Bool)
  deriving DecidableEq, Repr

/-- What a file says of a directive; `path` is the one named where it could not be read. -/
def thresholdOf (path name : Chars) (format : ConfigFormat) (read : ConfRead) : ThresholdRead :=
  match read with
  | .unreadable _ _ permissionDenied => .unreadable path permissionDenied
  | .absent => .notSet
  | .content content _ =>
    match parseConfigValue content name format true with
    | some value => .value value
    | none => .notSet

/-- A file that was read before is not read again. -/
def rereadConf (conf : String) (alreadyRead : List (String × ConfRead)) : Session ConfRead :=
  match alreadyRead.find? fun known => known.1 == conf with
  | some known => return known.2
  | none => readConfClassified denied conf.toList

/-- An argument in the stack comes before the file. -/
def readEffectiveThreshold (arg : Chars) (conf : String) (alreadyRead : List (String × ConfRead)) :
    Session ThresholdRead := do
  match ← readPamdInline denied conf arg with
  | .value inline => return .value inline
  | .unreadable path permissionDenied => return .unreadable path.toList permissionDenied
  | .notSet => return thresholdOf conf.toList arg .keyValue (← rereadConf denied conf alreadyRead)

/-- `PamObserved::value_or_not_set` -/
def ThresholdRead.valueOrNotSet : ThresholdRead → Chars
  | value text => text
  | notSet | unreadable _ _ => "not set"

/-- The value a directive has: in the two files that the caller has read, or in effect. -/
def observedPamValue (directive : PamDirective) (pwquality loginDefsRead : ConfRead)
    (alreadyRead : List (String × ConfRead)) : Session ThresholdRead :=
  match directive.configFile with
  | .pwQuality => return thresholdOf pwqualityConf.toList directive.name .auto pwquality
  | .loginDefs => return thresholdOf loginDefs.toList directive.name .auto loginDefsRead
  | .pamAuth => return .notSet
  | .securityConf path => readEffectiveThreshold denied directive.name path alreadyRead

end

/-! ## What the searches come to -/

/-- The file was read, or is known to be absent. -/
def ConfRead.isSettled : ConfRead → Bool
  | unreadable _ _ _ => false
  | _ => true

section

variable (reads : String → ConfRead) (module arg : Chars)

def loadsAt (file : String) : Bool :=
  match reads file with
  | .content content _ => stackLoadsModule content module
  | _ => false

def inlineAt (file : String) : Option Chars :=
  match reads file with
  | .content content _ => inlineArgInContent content module arg
  | _ => none

def unreadAt (file : String) : Option (String × Bool) :=
  match reads file with
  | .unreadable _ _ permissionDenied => some (file, permissionDenied)
  | _ => none

def isContentAt (file : String) : Bool :=
  match reads file with
  | .content _ _ => true
  | _ => false

/-- Whether the module is loaded, as the answers for the candidates have it. -/
def presenceIn (files : List String) : ModulePresence :=
  if files.any (loadsAt reads module) then .inStack
  else concluded module (files.any (isContentAt reads)) (files.findSome? (unreadAt reads))

/-- The value in effect, as the answers for the candidates and for the file have it. -/
def thresholdIn (conf : String) (files : List String) : ThresholdRead :=
  match files.findSome? (inlineAt reads module arg) with
  | some value => .value value
  | none =>
    match files.findSome? (unreadAt reads) with
    | some (path, permissionDenied) => .unreadable path.toList permissionDenied
    | none => thresholdOf conf.toList arg .keyValue (reads conf)

end

/-- What a host answers for the files that are asked about. -/
def readsOf (denied : Chars → Chars → Bool) (respond : (q : Query) → q.Answer) (file : String) : ConfRead :=
  answered respond (readConfClassified denied file.toList)

section

variable {denied : Chars → Chars → Bool} {respond : (q : Query) → q.Answer} {module arg : Chars} {conf : String}

theorem answered_searchStack (files : List String) (readOne : Bool) (unread : Option (String × Bool)) :
    answered respond (searchStack denied module files readOne unread) =
      if files.any (loadsAt (readsOf denied respond) module) then .inStack
      else
        concluded module (readOne || files.any (isContentAt (readsOf denied respond)))
          (unread.or (files.findSome? (unreadAt (readsOf denied respond)))) := by
  induction files generalizing readOne unread with
  | nil => simp [searchStack]
  | cons file files ih =>
    have hreads : answered respond (readConfClassified denied file.toList) = readsOf denied respond file := rfl
    rw [searchStack, answered_bind, hreads]
    cases hread : readsOf denied respond file with
    | content content layer =>
      dsimp only
      cases hloads : stackLoadsModule content module with
      | true => simp [loadsAt, hread, hloads]
      | false =>
        rw [if_neg Bool.false_ne_true, ih]
        simp [loadsAt, isContentAt, unreadAt, hread, hloads]
    | absent =>
      rw [ih]
      simp [loadsAt, isContentAt, unreadAt, hread]
    | unreadable path reason permissionDenied =>
      rw [ih]
      simp [loadsAt, isContentAt, unreadAt, hread]

theorem answered_readModulePresence {module : ModuleName} {files : List String} (h : pamModuleFor conf = some (module, files)) :
    answered respond (readModulePresence denied conf) = presenceIn (readsOf denied respond) module.text files := by
  unfold readModulePresence presenceIn
  simp only [h, answered_searchStack, Bool.false_or, Option.none_or]

/-- What the search for an inline argument comes to. -/
def inlineIn (reads : String → ConfRead) (module arg : Chars) (files : List String) (unread : Option (String × Bool)) : InlineRead :=
  match files.findSome? (inlineAt reads module arg) with
  | some value => .value value
  | none =>
    match unread.or (files.findSome? (unreadAt reads)) with
    | some (path, permissionDenied) => .unreadable path permissionDenied
    | none => .notSet

theorem answered_searchInline (files : List String) (unread : Option (String × Bool)) :
    answered respond (searchInline denied module arg files unread) =
      inlineIn (readsOf denied respond) module arg files unread := by
  unfold inlineIn
  induction files generalizing unread with
  | nil => cases unread <;> simp [searchInline]
  | cons file files ih =>
    have hreads : answered respond (readConfClassified denied file.toList) = readsOf denied respond file := rfl
    rw [searchInline, answered_bind, hreads]
    cases hread : readsOf denied respond file with
    | content content layer =>
      dsimp only
      cases hvalue : inlineArgInContent content module arg with
      | some value => simp [inlineAt, hread, hvalue]
      | none =>
        rw [ih]
        simp [inlineAt, unreadAt, hread, hvalue]
    | absent =>
      rw [ih]
      simp [inlineAt, unreadAt, hread]
    | unreadable path reason permissionDenied =>
      rw [ih]
      simp [inlineAt, unreadAt, hread]

/-- A file handed over as read was read as it stands. -/
def HandedOver (reads : String → ConfRead) (conf : String) (alreadyRead : List (String × ConfRead)) : Prop :=
  ∀ known, alreadyRead.find? (fun known => known.1 == conf) = some known → known.2 = reads conf

theorem answered_rereadConf {alreadyRead : List (String × ConfRead)}
    (h : HandedOver (readsOf denied respond) conf alreadyRead) :
    answered respond (rereadConf denied conf alreadyRead) = readsOf denied respond conf := by
  unfold rereadConf
  cases hfind : alreadyRead.find? fun known => known.1 == conf with
  | some known => exact h known hfind
  | none => rfl

theorem answered_readEffectiveThreshold {module : ModuleName} {files : List String}
    (h : pamModuleFor conf = some (module, files)) {alreadyRead : List (String × ConfRead)}
    (hover : HandedOver (readsOf denied respond) conf alreadyRead) :
    answered respond (readEffectiveThreshold denied arg conf alreadyRead) =
      thresholdIn (readsOf denied respond) module.text arg conf files := by
  unfold readEffectiveThreshold readPamdInline thresholdIn
  simp only [h, answered_bind, answered_searchInline, inlineIn, Option.none_or]
  cases files.findSome? (inlineAt (readsOf denied respond) module.text arg) with
  | some value => rfl
  | none =>
    cases files.findSome? (unreadAt (readsOf denied respond)) with
    | some unread => rfl
    | none => simp [answered_rereadConf hover]

end

/-! ## Whatever stands in the files that could not be read -/

/-- Answers that fill in those that are missing. -/
structure Completes (reads k : String → ConfRead) : Prop where
  settled : ∀ file, (k file).isSettled = true
  kept : ∀ file, (reads file).isSettled = true → k file = reads file

/-- One way to fill in what is missing. -/
def fillIn (reads : String → ConfRead) (other : String → ConfRead) (file : String) : ConfRead :=
  if (reads file).isSettled then reads file else other file

section

variable {reads k other : String → ConfRead} {module arg : Chars} {conf file : String} {files : List String}

theorem completes_fillIn (h : ∀ file, (other file).isSettled = true) : Completes reads (fillIn reads other) := by
  refine ⟨fun file => ?_, fun file hfile => if_pos hfile⟩
  unfold fillIn
  split
  · next hsettled => exact hsettled
  · exact h file

theorem unreadAt_eq_none : unreadAt reads file = none ↔ (reads file).isSettled = true := by
  unfold unreadAt ConfRead.isSettled
  cases reads file <;> simp

theorem loadsAt_kept (h : Completes reads k) (hloads : loadsAt reads module file = true) : loadsAt k module file = true := by
  have hsettled : (reads file).isSettled = true := by
    unfold loadsAt at hloads
    cases hread : reads file <;> simp [hread, ConfRead.isSettled] at hloads ⊢
  unfold loadsAt at hloads ⊢
  rwa [h.kept file hsettled]

theorem inlineAt_kept (h : Completes reads k) (hsettled : (reads file).isSettled = true) :
    inlineAt k module arg file = inlineAt reads module arg file := by
  unfold inlineAt
  rw [h.kept file hsettled]

/-- A module's own name, on a line, loads it. -/
theorem loads_itself {module : ModuleName} (h : pamModuleFor conf = some (module, files)) :
    stackLoadsModule module.text module.text = true := by
  unfold pamModuleFor at h
  split at h
  all_goals first | (cases h; decide) | cases h

/-- Answers with one content for every file that is missing. -/
theorem completes_content (reads : String → ConfRead) (text : Chars) :
    Completes reads (fillIn reads fun _ => .content text .admin) := completes_fillIn fun _ => rfl

theorem completes_absent (reads : String → ConfRead) : Completes reads (fillIn reads fun _ => .absent) :=
  completes_fillIn fun _ => rfl

theorem loadsAt_absent (h : loadsAt (fillIn reads fun _ => .absent) module file = true) : loadsAt reads module file = true := by
  unfold loadsAt fillIn at h
  unfold loadsAt
  cases hread : reads file with
  | content text layer => simpa [hread, ConfRead.isSettled] using h
  | absent => simp [hread, ConfRead.isSettled] at h
  | unreadable path reason permissionDenied => simp [hread, ConfRead.isSettled] at h

/-! ## The module -/

theorem presenceIn_inStack : presenceIn reads module files = .inStack ↔ ∃ file ∈ files, loadsAt reads module file = true := by
  rw [← List.any_eq_true]
  unfold presenceIn concluded
  cases files.any (loadsAt reads module) with
  | true => simp
  | false =>
    rw [if_neg Bool.false_ne_true]
    split
    · simp
    · split <;> simp

theorem unread_of_some {unread : String × Bool} (h : files.findSome? (unreadAt reads) = some unread) :
    ∃ file ∈ files, (reads file).isSettled = false := by
  obtain ⟨file, hfile, hunread⟩ := List.exists_of_findSome?_eq_some h
  refine ⟨file, hfile, ?_⟩
  by_contra hsettled
  rw [unreadAt_eq_none.mpr (Bool.not_eq_false _ ▸ hsettled)] at hunread
  cases hunread

theorem settled_of_none (h : files.findSome? (unreadAt reads) = none) : ∀ file ∈ files, (reads file).isSettled = true :=
  fun file hfile => unreadAt_eq_none.mp (List.findSome?_eq_none_iff.mp h file hfile)

/-- What the search comes to, by what was read. -/
theorem presenceIn_cases (reads : String → ConfRead) (module : Chars) (files : List String) :
    (presenceIn reads module files = .inStack ∧ ∃ file ∈ files, loadsAt reads module file = true) ∨
    ((∃ reason needsPrivilege, presenceIn reads module files = .indeterminate reason needsPrivilege) ∧
      (∀ file ∈ files, loadsAt reads module file = false) ∧ ∃ file ∈ files, (reads file).isSettled = false) ∨
    (presenceIn reads module files = .notInStack module ∧ (∀ file ∈ files, loadsAt reads module file = false) ∧
      (∀ file ∈ files, (reads file).isSettled = true) ∧ ∃ file ∈ files, reads file ≠ .absent) ∨
    ((∃ reason, presenceIn reads module files = .indeterminate reason false) ∧ ∀ file ∈ files, reads file = .absent) := by
  cases hany : files.any (loadsAt reads module) with
  | true => exact .inl ⟨presenceIn_inStack.mpr (List.any_eq_true.mp hany), List.any_eq_true.mp hany⟩
  | false =>
    have hnone : ∀ file ∈ files, loadsAt reads module file = false := by simpa using hany
    have hpresence : presenceIn reads module files =
        concluded module (files.any (isContentAt reads)) (files.findSome? (unreadAt reads)) := by
      unfold presenceIn
      rw [hany, if_neg Bool.false_ne_true]
    rw [hpresence]
    cases hunread : files.findSome? (unreadAt reads) with
    | some unread => exact .inr (.inl ⟨⟨_, _, rfl⟩, hnone, unread_of_some hunread⟩)
    | none =>
      have hsettled := settled_of_none hunread
      cases hcontent : files.any (isContentAt reads) with
      | true =>
        obtain ⟨file, hfile, his⟩ := List.any_eq_true.mp hcontent
        refine .inr (.inr (.inl ⟨rfl, hnone, hsettled, file, hfile, fun habsent => ?_⟩))
        unfold isContentAt at his
        rw [habsent] at his
        cases his
      | false =>
        refine .inr (.inr (.inr ⟨⟨_, rfl⟩, fun file hfile => ?_⟩))
        have his := List.any_eq_false.mp hcontent file hfile
        have hread := hsettled file hfile
        unfold isContentAt at his
        unfold ConfRead.isSettled at hread
        cases hcase : reads file <;> simp [hcase] at his hread ⊢

/-- Granted what only privilege withheld, a search is undetermined where no file is there, or one
could not be read for another reason. -/
theorem undetermined_with_privilege
    (hother : ∀ file, (∀ path reason, reads file ≠ .unreadable path reason true) → k file = reads file)
    (hgranted : ∀ file path reason, reads file = .unreadable path reason true → (k file).isSettled = true)
    (h : ∃ reason needsPrivilege, presenceIn k module files = .indeterminate reason needsPrivilege) :
    (∀ file ∈ files, k file = .absent) ∨ ∃ file ∈ files, ∃ path reason, reads file = .unreadable path reason false := by
  obtain ⟨reason, needsPrivilege, hk⟩ := h
  rcases presenceIn_cases k module files with ⟨hpresence, -⟩ | ⟨-, -, file, hfile, hopen⟩ | ⟨hpresence, -⟩ | ⟨-, habsent⟩
  · rw [hk] at hpresence
    cases hpresence
  · refine .inr ⟨file, hfile, ?_⟩
    by_cases hprivilege : ∃ path reason, reads file = .unreadable path reason true
    · obtain ⟨path, why, hread⟩ := hprivilege
      rw [hgranted file path why hread] at hopen
      cases hopen
    · have heq := hother file fun path why hread => hprivilege ⟨path, why, hread⟩
      rw [heq] at hopen
      cases hread : reads file with
      | content text layer =>
        rw [hread] at hopen
        cases hopen
      | absent =>
        rw [hread] at hopen
        cases hopen
      | unreadable path why permissionDenied =>
        cases permissionDenied with
        | true => exact absurd ⟨path, why, hread⟩ hprivilege
        | false => exact ⟨path, why, rfl⟩
  · rw [hk] at hpresence
    cases hpresence
  · exact .inl habsent

/-- Where every missing file is taken to be absent, only what was read loads the module. -/
theorem not_loaded_absent (hnone : ∀ file ∈ files, loadsAt reads module file = false) :
    ¬ ∃ file ∈ files, loadsAt (fillIn reads fun _ => .absent) module file = true := by
  rintro ⟨file, hfile, hloads⟩
  have hread := loadsAt_absent hloads
  rw [hnone file hfile] at hread
  cases hread

/-- Where every file was read or is absent, a completion is what was read. -/
theorem not_loaded_settled (hk : Completes reads k) (hsettled : ∀ file ∈ files, (reads file).isSettled = true)
    (hnone : ∀ file ∈ files, loadsAt reads module file = false) : ¬ ∃ file ∈ files, loadsAt k module file = true := by
  rintro ⟨file, hfile, hloads⟩
  unfold loadsAt at hloads
  rw [hk.kept file (hsettled file hfile)] at hloads
  have hread := hnone file hfile
  unfold loadsAt at hread
  rw [hread] at hloads
  cases hloads

end

/-- A host whose `system-auth` only root may read. -/
def rootOnlySystemAuth : (q : Query) → q.Answer
  | .readFile path =>
    if path = "/etc/pam.d/password-auth".toList then .ok "auth required pam_faillock.so deny=3\n" else .error "Failed to read file"
  | .pathExists path => .ok (path = "/etc/pam.d/system-auth".toList)
  | .execute _ _ | .metadata _ | .readDir _ | .writeFile _ _ | .checkpoint _ _ => .error "not asked"

section

variable {reads k : String → ConfRead} {arg value : Chars} {conf file : String} {module : ModuleName} {files : List String}

/-- A line that loads a module with one argument. -/
def stackLine (module : ModuleName) (arg value : Chars) : Chars := module.text ++ ' ' :: (arg ++ '=' :: value)

theorem no_newline_of_no_space {s : Chars} (h : ∀ c ∈ s, isWhitespace c = false) : '\n' ∉ s := by
  intro hmem
  exact absurd (h _ hmem) (by decide)

/-- What the tool's table promises of a module's name. -/
theorem module_text (h : pamModuleFor conf = some (module, files)) :
    module.text.head? = some 'p' ∧ '=' ∉ module.text := by
  unfold pamModuleFor at h
  split at h
  all_goals first | (cases h; decide) | cases h

/-- What has no blank in it is one word. -/
theorem words_of_no_blank {t : Chars} (hne : t ≠ []) (ht : ∀ c ∈ t, isWhitespace c = false) : words t = [t] := by
  obtain ⟨c, rest, rfl⟩ := List.exists_cons_of_ne_nil hne
  have hall : ∀ d ∈ c :: rest, (!isWhitespace d) = true := fun d hd => by rw [ht d hd]; rfl
  rw [words_cons (ht c List.mem_cons_self), List.takeWhile_eq_self_iff.mpr hall, List.dropWhile_eq_nil_iff.mpr hall, words_nil]

theorem words_append {t rest : Chars} (hne : t ≠ []) (ht : ∀ c ∈ t, isWhitespace c = false) :
    words (t ++ ' ' :: rest) = t :: words rest := by
  obtain ⟨c, front, rfl⟩ := List.exists_cons_of_ne_nil hne
  have hall : ∀ d ∈ c :: front, (!isWhitespace d) = true := fun d hd => by rw [ht d hd]; rfl
  have hblank : isWhitespace ' ' = true := by decide
  have hcons : c :: front ++ ' ' :: rest = c :: (front ++ ' ' :: rest) := rfl
  rw [hcons, words_cons (ht c List.mem_cons_self), ← hcons, List.takeWhile_append_of_pos hall, List.dropWhile_append_of_pos hall,
    List.takeWhile_cons_of_neg (by decide), List.dropWhile_cons_of_neg (by decide), List.append_nil, words_blank hblank]

theorem inlineArgInContent_stackLine (h : pamModuleFor conf = some (module, files)) (harg : DirectiveName arg)
    (hvalue : SingleToken value) : inlineArgInContent (stackLine module arg value) module.text arg = some value := by
  obtain ⟨hhead, hequals⟩ := module_text h
  have hargs : ∀ c ∈ arg, isWhitespace c = false := by
    intro c hc
    have hend := harg.no_end c hc
    cases hw : isWhitespace c with
    | true => simp [endsKey, hw] at hend
    | false => rfl
  have htoken : ∀ c ∈ arg ++ '=' :: value, isWhitespace c = false := by
    intro c hc
    rcases List.mem_append.mp hc with hc | hc
    · exact hargs c hc
    · rcases List.mem_cons.mp hc with rfl | hc
      · decide
      · exact hvalue.no_blank c hc
  obtain ⟨name, hname⟩ : ∃ name, module.text = 'p' :: name := by
    cases hm : module.text with
    | nil => simp [hm] at hhead
    | cons c name =>
      rw [hm] at hhead
      exact ⟨name, by rw [Option.some.inj hhead]⟩
  have hne : stackLine module arg value ≠ [] := by simp [stackLine]
  have hline : '\n' ∉ stackLine module arg value := by
    unfold stackLine
    rw [List.mem_append, List.mem_cons, not_or, not_or]
    exact ⟨no_newline_of_no_space module.no_space, by decide, no_newline_of_no_space htoken⟩
  have hlast : (stackLine module arg value).getLast? = value.getLast? := by
    have happ : stackLine module arg value = (module.text ++ ' ' :: (arg ++ ['='])) ++ value := by simp [stackLine]
    rw [happ, List.getLast?_append]
    cases hl : value.getLast? with
    | none => exact absurd (List.getLast?_eq_none_iff.mp hl) hvalue.ne_nil
    | some c => rfl
  have htrim : trim (stackLine module arg value) = stackLine module arg value := by
    apply trim_eq_self
    · intro c hc
      have hfirst : (stackLine module arg value).head? = some 'p' := by simp [stackLine, hname]
      rw [hfirst] at hc
      cases hc
      decide
    · intro c hc
      rw [hlast] at hc
      exact hvalue.last.2 c hc
  have hlive : isComment (stackLine module arg value) = false := by simp [isComment, stackLine, hname]
  have hcontains : contains (stackLine module arg value) module.text = true := by
    apply contains_iff.mpr
    exact (List.prefix_append _ _).isInfix
  have hmentions : Mentions module.text (stackLine module arg value) = true := by
    unfold Mentions
    rw [htrim, hlive, hcontains]
    rfl
  have hwords : words (stackLine module arg value) = [module.text, arg ++ '=' :: value] := by
    rw [stackLine, words_append (by simp [hname]) module.no_space, words_of_no_blank (by simp) htoken]
  have hother : (stripStart arg module.text).bind (stripStart ['=']) = none := by
    by_contra hsome
    obtain ⟨found, hfound⟩ := Option.ne_none_iff_exists'.mp hsome
    obtain ⟨rest, hstrip, hequal⟩ := Option.bind_eq_some_iff.mp hfound
    apply hequals
    rw [stripStart_eq_some.mp hstrip, stripStart_eq_some.mp hequal]
    simp
  have hthis : (stripStart arg (arg ++ '=' :: value)).bind (stripStart ['=']) = some value := by
    rw [stripStart_append, Option.bind_some]
    exact @stripStart_append ['='] value
  rw [inlineArgInContent_eq, splitInclusive_open hline hne, List.findSome?_cons]
  unfold wordOn
  rw [if_pos hmentions, htrim, hwords, List.findSome?_cons, hother, List.findSome?_cons, hthis]

/-- A file that sets one thing. -/
theorem thresholdOf_newLine (harg : DirectiveName arg) (hvalue : SingleToken value) (layer : ConfigLayer) :
    thresholdOf conf.toList arg .keyValue (.content (newLine .keyValue arg value) layer) = .value value := by
  have hline : '\n' ∉ newLine .keyValue arg value := newline_not_mem_newLine harg (newline_not_mem_token hvalue)
  have hne : newLine .keyValue arg value ≠ [] := by simp [newLine]
  have hlive : isLive true arg (newLine .keyValue arg value) = true := by
    have hterminated : isLive true arg (newLine .keyValue arg value ++ []) = true := isLive_newLine harg (.inl rfl)
    rwa [List.append_nil] at hterminated
  have hparse : parseConfigValue (newLine .keyValue arg value) arg .keyValue true = some value := by
    rw [parse_eq harg, splitInclusive_open hline hne, List.findSome?_cons, lineValue_of_isLive harg hlive,
      trim_newLine harg hvalue, directiveValue_newLine harg hvalue]
  simp only [thresholdOf, hparse]

theorem findSome_inlineAt_kept (hk : Completes reads k)
    (h : ∀ file ∈ files.takeWhile fun file => (inlineAt reads module.text arg file).isNone, (reads file).isSettled = true) :
    files.findSome? (inlineAt k module.text arg) = files.findSome? (inlineAt reads module.text arg) := by
  induction files with
  | nil => rfl
  | cons file files ih =>
    rw [List.takeWhile_cons] at h
    rw [List.findSome?_cons, List.findSome?_cons]
    cases hinline : inlineAt reads module.text arg file with
    | none =>
      simp only [hinline, Option.isNone_none, if_true] at h
      rw [inlineAt_kept hk (h file List.mem_cons_self), hinline, ih fun other hother => h other (List.mem_cons_of_mem _ hother)]
    | some value =>
      -- A file that was read with an argument in it is kept as it is.
      have hsettled : (reads file).isSettled = true := by
        unfold inlineAt at hinline
        cases hread : reads file <;> simp [hread, ConfRead.isSettled] at hinline ⊢
      rw [inlineAt_kept hk hsettled, hinline]

/-- The first unread candidate, before any that sets the argument, may set it to anything. -/
theorem inlineAt_first_unread (h : pamModuleFor conf = some (module, files)) (harg : DirectiveName arg) (hvalue : SingleToken value)
    (hfile : file ∈ files.takeWhile fun file => (inlineAt reads module.text arg file).isNone) (hopen : (reads file).isSettled = false) :
    files.findSome? (inlineAt (fillIn reads fun _ => .content (stackLine module arg value) .admin) module.text arg) = some value := by
  have hset := inlineArgInContent_stackLine h harg hvalue
  clear h
  induction files with
  | nil => cases hfile
  | cons other files ih =>
    rw [List.takeWhile_cons] at hfile
    split at hfile
    · next hnone =>
      rw [List.findSome?_cons]
      cases hsettled : (reads other).isSettled with
      | false =>
        have hat : inlineAt (fillIn reads fun _ => .content (stackLine module arg value) .admin) module.text arg other = some value := by
          unfold inlineAt fillIn
          rw [hsettled, if_neg Bool.false_ne_true]
          exact hset
        rw [hat]
      | true =>
        have hat : inlineAt (fillIn reads fun _ => .content (stackLine module arg value) .admin) module.text arg other = none := by
          rw [inlineAt_kept (completes_content reads _) hsettled]
          exact Option.isNone_iff_eq_none.mp hnone
        rw [hat]
        rcases List.mem_cons.mp hfile with rfl | hfile
        · rw [hopen] at hsettled
          cases hsettled
        · exact ih hfile
    · cases hfile

theorem unread_none_of_completes (hk : Completes reads k) : files.findSome? (unreadAt k) = none :=
  List.findSome?_eq_none_iff.mpr fun file _ => unreadAt_eq_none.mpr (hk.settled file)

/-- An unread stack file that nothing before it sets the argument of may set it to anything. -/
theorem any_value_of_unread_stack (h : pamModuleFor conf = some (module, files)) (harg : DirectiveName arg)
    (hfile : file ∈ files.takeWhile fun file => (inlineAt reads module.text arg file).isNone) (hopen : (reads file).isSettled = false)
    (htoken : SingleToken value) : ∃ k, Completes reads k ∧ thresholdIn k module.text arg conf files = .value value := by
  refine ⟨_, completes_content reads (stackLine module arg value), ?_⟩
  unfold thresholdIn
  rw [inlineAt_first_unread h harg htoken hfile hopen]

/-- So may the file of the directive where no stack file that was read sets the argument. -/
theorem any_value_of_unread_conf (h : pamModuleFor conf = some (module, files)) (harg : DirectiveName arg)
    (hnone : ∀ file ∈ files, inlineAt reads module.text arg file = none) (hopen : (reads conf).isSettled = false)
    (htoken : SingleToken value) : ∃ k, Completes reads k ∧ thresholdIn k module.text arg conf files = .value value := by
  -- The file is no candidate, so it may say anything while the candidates say nothing.
  have hconf : conf ∉ files := by
    unfold pamModuleFor at h
    split at h
    all_goals first | (cases h; decide) | cases h
  let other : String → ConfRead := fun file => if file = conf then .content (newLine .keyValue arg value) .admin else .absent
  have hother : ∀ file, (other file).isSettled = true := by
    intro file
    show (if file = conf then _ else _ : ConfRead).isSettled = true
    split <;> rfl
  have hk : Completes reads (fillIn reads other) := completes_fillIn hother
  have hinline : files.findSome? (inlineAt (fillIn reads other) module.text arg) = none := by
    apply List.findSome?_eq_none_iff.mpr
    intro file hfile
    cases hsettled : (reads file).isSettled with
    | true => rw [inlineAt_kept hk hsettled, hnone file hfile]
    | false =>
      have hne : file ≠ conf := fun heq => hconf (heq ▸ hfile)
      unfold inlineAt fillIn
      rw [hsettled, if_neg Bool.false_ne_true]
      show (match (if file = conf then _ else _ : ConfRead) with | .content content _ => _ | _ => _) = none
      rw [if_neg hne]
  have hread : fillIn reads other conf = .content (newLine .keyValue arg value) .admin := by
    unfold fillIn
    rw [hopen, if_neg Bool.false_ne_true]
    exact if_pos rfl
  refine ⟨_, hk, ?_⟩
  unfold thresholdIn
  rw [hinline, unread_none_of_completes hk, hread, thresholdOf_newLine harg htoken]

/-- What may come out as any value is not the one in force. -/
theorem unstable_of_any_value {found : ThresholdRead}
    (h : ∀ value, SingleToken value → ∃ k, Completes reads k ∧ thresholdIn k module.text arg conf files = .value value) :
    ¬ ∀ k, Completes reads k → thresholdIn k module.text arg conf files = found := by
  intro hstable
  obtain ⟨k, hk, hone⟩ := h ['1'] ⟨by decide, eq_false_of_all (by decide), by decide⟩
  obtain ⟨k', hk', htwo⟩ := h ['2'] ⟨by decide, eq_false_of_all (by decide), by decide⟩
  have hdiffer := (hone.symm.trans (hstable k hk)).trans ((hstable k' hk').symm.trans htwo)
  cases hdiffer

theorem thresholdIn_kept (hk : Completes reads k)
    (hbefore : ∀ file ∈ files.takeWhile fun file => (inlineAt reads module.text arg file).isNone, (reads file).isSettled = true)
    (hconf : (∀ file ∈ files, inlineAt reads module.text arg file = none) → (reads conf).isSettled = true) :
    thresholdIn k module.text arg conf files = thresholdIn reads module.text arg conf files := by
  unfold thresholdIn
  rw [findSome_inlineAt_kept hk hbefore]
  cases hinline : files.findSome? (inlineAt reads module.text arg) with
  | some value => rfl
  | none =>
    have hnone := List.findSome?_eq_none_iff.mp hinline
    have hall : files.takeWhile (fun file => (inlineAt reads module.text arg file).isNone) = files :=
      List.takeWhile_eq_self_iff.mpr fun file hfile => by rw [hnone file hfile]; rfl
    rw [hall] at hbefore
    have hunread : files.findSome? (unreadAt reads) = none :=
      List.findSome?_eq_none_iff.mpr fun file hfile => unreadAt_eq_none.mpr (hbefore file hfile)
    rw [hunread, unread_none_of_completes hk, hk.kept conf (hconf hnone)]

end

end LinuxHardener.Pam
