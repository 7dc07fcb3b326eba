import LinuxHardener.Pam.Apply

/-
  A host under the PAM plugin: files that may be read or not and written or not, and what an
  apply makes of it.

  Of what a command does to the host nothing is kept: the copies it makes, the stale ones it
  removes, a directory and a mode are looked at by no later step.

  What is proved:
    1. `session_quiet` — a program that writes nothing leaves the host as it is.
    2. `Agree.respond`, `conf_agree` — what is asked of no file that two hosts differ in is answered the same.
    3. `writes_applyAll`, `after_applyAll` — the writes of an apply and the host after it.
-/
namespace LinuxHardener.Pam

open LineText Common Plugins Dialogue
open Core (ApplyResult)

structure PamHost where
  /-- What stands at a path. -/
  file : Chars → Option Chars
  /-- Why a file that is there cannot be read. -/
  refuses : Chars → Option Chars
  /-- Why it cannot be told whether something is at a path. -/
  hides : Chars → Option Chars
  isDir : Chars → Bool
  write : Chars → Except Chars Unit
  metadata : Chars → Except Chars FileMetadata
  entries : Chars → Except Chars (List Chars)
  command : Chars → List Chars → Except Chars CommandOutput
  checkpoint : Except Chars Chars

/-- A program that writes nothing. -/
def Quiet : Query → Prop
  | .writeFile _ _ => False
  | _ => True

/-- A question about none of some paths. -/
def Spares (S : List Chars) : Query → Prop
  | .readFile path | .pathExists path => path ∉ S
  | _ => True

namespace PamHost

def read (h : PamHost) (path : Chars) : Except Chars Chars :=
  match h.file path with
  | none => .error "No such file or directory"
  | some content =>
    match h.refuses path with
    | some e => .error e
    | none => .ok content

def isThere (h : PamHost) (path : Chars) : Except Chars Bool :=
  match h.hides path with
  | some e => .error e
  | none => .ok ((h.file path).isSome || h.isDir path)

/-- A file that was just written can be read. -/
def store (h : PamHost) (path content : Chars) : PamHost :=
  { h with
    file := fun path' => if path' = path then some content else h.file path'
    refuses := fun path' => if path' = path then none else h.refuses path' }

def respond (h : PamHost) : (q : Query) → q.Answer
  | .execute program args => h.command program args
  | .pathExists path => h.isThere path
  | .metadata path => h.metadata path
  | .readFile path => h.read path
  | .readDir path => h.entries path
  | .writeFile path _ => h.write path
  | .checkpoint _ _ => h.checkpoint

def react (h : PamHost) : Exchange → PamHost
  | ⟨.writeFile path content, .ok ()⟩ => h.store path content
  | _ => h

end PamHost

/-- A write that was asked for. -/
def writeOf (e : Exchange) : Option (Chars × Chars) :=
  match e with
  | ⟨.writeFile path content, _⟩ => some (path, content)
  | _ => none

namespace PamHost

variable {α β : Type}

/-- What a plugin does on the host. -/
def session (h : PamHost) (p : Session α) : List Exchange × α := play respond react p h

def result (h : PamHost) (p : Session α) : α := (h.session p).2

def afterwards (h : PamHost) (p : Session α) : PamHost := after react h (h.session p).1

/-- The writes a plugin asks for, in order. -/
def writes (h : PamHost) (p : Session α) : List (Chars × Chars) := (h.session p).1.filterMap writeOf

/-- What is read of a file. -/
def conf (denied : Chars → Chars → Bool) (h : PamHost) (path : String) : ConfRead := readsOf denied h.respond path

variable (h : PamHost)

@[simp] theorem result_pure (a : α) : h.result (pure a) = a := rfl

@[simp] theorem afterwards_pure (a : α) : h.afterwards (pure a : Session α) = h := rfl

@[simp] theorem writes_pure (a : α) : h.writes (pure a : Session α) = [] := rfl

theorem session_bind (p : Session α) (f : α → Session β) : h.session (p >>= f) =
    ((h.session p).1 ++ ((h.afterwards p).session (f (h.result p))).1, ((h.afterwards p).session (f (h.result p))).2) :=
  play_bind respond react p f h

theorem result_bind (p : Session α) (f : α → Session β) :
    h.result (p >>= f) = (h.afterwards p).result (f (h.result p)) := by
  rw [result, session_bind]
  rfl

theorem afterwards_bind (p : Session α) (f : α → Session β) :
    h.afterwards (p >>= f) = (h.afterwards p).afterwards (f (h.result p)) := by
  unfold afterwards
  rw [session_bind, after_append]
  rfl

theorem writes_bind (p : Session α) (f : α → Session β) :
    h.writes (p >>= f) = h.writes p ++ (h.afterwards p).writes (f (h.result p)) := by
  unfold writes
  rw [session_bind, List.filterMap_append]

/-! ## What changes nothing -/

theorem react_quiet {q : Query} (hq : Quiet q) (a : q.Answer) : h.react ⟨q, a⟩ = h := by
  cases q with
  | writeFile path content => exact absurd hq id
  | _ => rfl

/-- A program that writes nothing. -/
theorem session_quiet {p : Session α} (hp : Asks Quiet p) :
    h.result p = answered h.respond p ∧ h.afterwards p = h ∧ h.writes p = [] := by
  obtain ⟨hresult, hafter⟩ : h.result p = answered h.respond p ∧ h.afterwards p = h :=
    play_still hp fun q hq a => h.react_quiet hq a
  refine ⟨hresult, hafter, List.filterMap_eq_nil_iff.mpr fun e he => ?_⟩
  have hq := hp.of_run (run_play respond react p h) e he
  obtain ⟨q, a⟩ := e
  cases q with
  | writeFile path content => exact absurd hq id
  | _ => rfl

theorem afterwards_quiet {p : Session α} (hp : Asks Quiet p) : h.afterwards p = h := (h.session_quiet hp).2.1

theorem writes_quiet {p : Session α} (hp : Asks Quiet p) : h.writes p = [] := (h.session_quiet hp).2.2

/-- Behind a program that writes nothing. -/
theorem bind_quiet {p : Session α} (hp : Asks Quiet p) (f : α → Session β) :
    h.result (p >>= f) = h.result (f (answered h.respond p)) ∧ h.afterwards (p >>= f) = h.afterwards (f (answered h.respond p)) ∧
      h.writes (p >>= f) = h.writes (f (answered h.respond p)) := by
  obtain ⟨hresult, hafter, hwrites⟩ := h.session_quiet hp
  rw [result_bind, afterwards_bind, writes_bind, hresult, hafter, hwrites]
  exact ⟨rfl, rfl, rfl⟩

theorem writeFile_run (path content : Chars) :
    h.result (writeFile path content) = h.write path ∧ h.writes (writeFile path content) = [(path, content)] ∧
      h.afterwards (writeFile path content) = if (h.write path).isOk then h.store path content else h := by
  refine ⟨rfl, rfl, ?_⟩
  show h.react ⟨.writeFile path content, h.write path⟩ = _
  cases h.write path with
  | ok u => rfl
  | error e => rfl

/-! ## Two hosts that differ in some files -/

/-- The hosts are the same but for what they hold at some paths. -/
structure Agree (S : List Chars) (g h : PamHost) : Prop where
  read : ∀ path ∉ S, g.file path = h.file path ∧ g.refuses path = h.refuses path
  rest : { g with file := h.file, refuses := h.refuses } = h

variable {S : List Chars} {g h : PamHost}

theorem Agree.refl (S : List Chars) (h : PamHost) : Agree S h h := ⟨fun _ _ => ⟨rfl, rfl⟩, rfl⟩

theorem Agree.mono {T : List Chars} (hagree : Agree S g h) (hsub : S ⊆ T) : Agree T g h :=
  ⟨fun path hpath => hagree.read path fun hin => hpath (hsub hin), hagree.rest⟩

theorem Agree.respond (hagree : Agree S g h) {q : Query} (hq : Spares S q) : g.respond q = h.respond q := by
  have hrest := hagree.rest
  cases q with
  | readFile path =>
    obtain ⟨hfile, hrefuses⟩ := hagree.read path hq
    show g.read path = h.read path
    unfold PamHost.read
    rw [hfile, hrefuses]
  | pathExists path =>
    obtain ⟨hfile, -⟩ := hagree.read path hq
    show g.isThere path = h.isThere path
    unfold PamHost.isThere
    rw [hfile, ← hrest]
  | _ =>
    rw [← hrest]
    rfl

/-- Agreement grows by the path that one of the hosts stores at. -/
theorem Agree.store (hagree : Agree S g h) {path : Chars} (hpath : path ∈ S) (content : Chars) : Agree S (g.store path content) h := by
  refine ⟨fun path' hpath' => ?_, hagree.rest⟩
  have hne : path' ≠ path := fun heq => hpath' (heq ▸ hpath)
  unfold PamHost.store
  simpa only [if_neg hne] using hagree.read path' hpath'

end PamHost

/-! ## What the programs ask -/

/-- Reading a file in its two layers is among the questions. -/
def Looks (P : Query → Prop) (path : Chars) : Prop :=
  ∀ p, p = path ∨ vendorPathFor path = some p → P (.readFile p) ∧ P (.pathExists p)

/-- Commands, listings and modes are among the questions. -/
structure Serves (P : Query → Prop) : Prop where
  execute : ∀ program args, P (.execute program args)
  readDir : ∀ path, P (.readDir path)
  metadata : ∀ path, P (.metadata path)

section

variable {P : Query → Prop} {denied : Chars → Chars → Bool} {clock : Chars → Except Chars Nat}

theorem looks_quiet (path : Chars) : Looks Quiet path := fun _ _ => ⟨trivial, trivial⟩

theorem serves_quiet : Serves Quiet := ⟨fun _ _ => trivial, fun _ => trivial, fun _ => trivial⟩

theorem looks_spares {S : List Chars} {path : Chars} (hpath : path ∉ S) (hvendor : ∀ vendor, vendorPathFor path = some vendor → vendor ∉ S) :
    Looks (Spares S) path := by
  rintro p (rfl | hp)
  · exact ⟨hpath, hpath⟩
  · exact ⟨hvendor p hp, hvendor p hp⟩

theorem asks_readOne {path : Chars} (h : P (.readFile path) ∧ P (.pathExists path)) : Asks P (readOne denied path) := by
  refine Asks.bind (asks_ask h.1) fun r => ?_
  cases r with
  | ok content => trivial
  | error e =>
    refine Asks.bind (asks_ask h.2) fun r => ?_
    split <;> trivial

theorem asks_readConfClassified {path : Chars} (h : Looks P path) : Asks P (readConfClassified denied path) := by
  have hlayered : Asks P (readLayered denied path) := by
    refine Asks.bind (asks_readOne (h path (.inl rfl))) fun layer => ?_
    cases layer with
    | content content => trivial
    | unreadable reason permissionDenied => trivial
    | absent =>
      dsimp only
      cases hvendor : vendorPathFor path with
      | none => trivial
      | some vendor =>
        refine Asks.bind (asks_readOne (h vendor (.inr hvendor))) fun layer => ?_
        cases layer <;> trivial
  refine Asks.bind hlayered fun read => ?_
  cases read <;> trivial

theorem asks_searchStack {module : Chars} {files : List String} (h : ∀ file ∈ files, Looks P file.toList) (readOne : Bool)
    (unread : Option (String × Bool)) : Asks P (searchStack denied module files readOne unread) := by
  induction files generalizing readOne unread with
  | nil => trivial
  | cons file files ih =>
    have hrest := ih fun other hother => h other (List.mem_cons_of_mem _ hother)
    refine Asks.bind (asks_readConfClassified (h file List.mem_cons_self)) fun read => ?_
    cases read with
    | content content layer =>
      dsimp only
      split
      · trivial
      · exact hrest _ _
    | absent => exact hrest _ _
    | unreadable path reason permissionDenied => exact hrest _ _

theorem asks_searchInline {module arg : Chars} {files : List String} (h : ∀ file ∈ files, Looks P file.toList)
    (unread : Option (String × Bool)) : Asks P (searchInline denied module arg files unread) := by
  induction files generalizing unread with
  | nil =>
    unfold searchInline
    cases unread <;> trivial
  | cons file files ih =>
    have hrest := ih fun other hother => h other (List.mem_cons_of_mem _ hother)
    refine Asks.bind (asks_readConfClassified (h file List.mem_cons_self)) fun read => ?_
    cases read with
    | content content layer =>
      dsimp only
      split
      · trivial
      · exact hrest _
    | absent => exact hrest _
    | unreadable path reason permissionDenied => exact hrest _

theorem asks_readPamdInline {conf : String} {arg : Chars}
    (h : ∀ module files, pamModuleFor conf = some (module, files) → ∀ file ∈ files, Looks P file.toList) :
    Asks P (readPamdInline denied conf arg) := by
  unfold readPamdInline
  split
  · trivial
  · next module files hmodule => exact asks_searchInline (h module files hmodule) none

theorem asks_readModulePresence {conf : String}
    (h : ∀ module files, pamModuleFor conf = some (module, files) → ∀ file ∈ files, Looks P file.toList) :
    Asks P (readModulePresence denied conf) := by
  unfold readModulePresence
  split
  · trivial
  · next module files hmodule => exact asks_searchStack (h module files hmodule) false none

theorem asks_presenceByFile (directives : List PamDirective) (presence : List (String × ModulePresence)) :
    Asks Quiet (presenceByFile denied directives presence) := by
  induction directives generalizing presence with
  | nil => trivial
  | cons d directives ih =>
    unfold presenceByFile
    split
    · exact ih presence
    · split
      · exact ih presence
      · exact Asks.bind (asks_readModulePresence fun _ _ _ _ _ => looks_quiet _) fun found => ih _

theorem asks_observedPamValue (d : PamDirective) (pwquality loginDefsRead : ConfRead) (alreadyRead : List (String × ConfRead)) :
    Asks Quiet (observedPamValue denied d pwquality loginDefsRead alreadyRead) := by
  unfold observedPamValue
  cases d.configFile with
  | pwQuality => trivial
  | loginDefs => trivial
  | pamAuth => trivial
  | securityConf path =>
    refine Asks.bind (asks_readPamdInline fun _ _ _ _ _ => looks_quiet _) fun inline => ?_
    cases inline with
    | value text => trivial
    | unreadable stack permissionDenied => trivial
    | notSet =>
      refine Asks.bind ?_ fun read => trivial
      unfold rereadConf
      split
      · trivial
      · exact asks_readConfClassified (looks_quiet _)

theorem asks_confIsWritable (hP : Serves P) (path : Chars) (read : ConfRead) (report : Report) :
    Asks P (confIsWritable path read report) := by
  unfold confIsWritable
  split
  · trivial
  · trivial
  · refine Asks.bind (Asks.bind (asks_ask (hP.metadata _)) fun r => ?_) fun mode => trivial
    cases r <;> trivial
  · split <;> trivial

theorem asks_pruneTimestampedBackups (hP : Serves P) (stem : Chars) (keep : Nat) : Asks P (pruneTimestampedBackups stem keep) := by
  unfold pruneTimestampedBackups
  split
  · trivial
  · refine Asks.bind (asks_ask (hP.readDir _)) fun r => ?_
    cases r with
    | error e => trivial
    | ok entries =>
      dsimp only
      split
      · trivial
      · exact Asks.bind (asks_ask (hP.execute _ _)) fun _ => trivial

theorem asks_createConfigBackup (hP : Serves P) (path : Chars) : Asks P (createConfigBackup clock path) := by
  unfold createConfigBackup
  split
  · trivial
  · refine Asks.bind (asks_ask (hP.execute _ _)) fun r => ?_
    cases r with
    | error e => trivial
    | ok output =>
      dsimp only
      split
      · exact Asks.bind (asks_pruneTimestampedBackups hP _ _) fun _ => trivial
      · trivial

theorem asks_prepareWrite (hP : Serves P) {path : Chars} (hdir : ∀ dir, Ssh.parent path = some dir → P (.pathExists dir))
    (creating : Bool) (fileLabel : Chars) : Asks P (prepareWrite clock creating path fileLabel) := by
  unfold prepareWrite
  split
  · split
    · trivial
    · next dir hparent =>
      refine Asks.bind (asks_ensureDirectory (hdir dir hparent) (hP.execute _ _)) fun r => ?_
      cases r <;> trivial
  · refine Asks.bind (asks_createConfigBackup hP path) fun r => ?_
    cases r <;> trivial

theorem asks_settleMode (hP : Serves P) (creating : Bool) (path : Chars) (createMode : Option (BitVec 32)) :
    Asks P (settleMode creating path createMode) := by
  unfold settleMode
  split
  · refine Asks.bind (asks_ask (hP.execute _ _)) fun r => ?_
    cases r <;> trivial
  · trivial

theorem asks_pruneAll (paths : List String) : Asks Quiet (pruneAll paths) := by
  induction paths with
  | nil => trivial
  | cons path paths ih => exact Asks.bind (asks_pruneTimestampedBackups serves_quiet _ _) fun _ => ih

end

/-! ## What is meant to be written -/

/-- The files an apply may write. -/
def confFiles : List String := [pwqualityConf, loginDefs, faillockConf, pwhistoryConf]

/-- A host on which every copy, directory and write that an apply asks for is made. -/
structure Works (clock : Chars → Except Chars Nat) (h : PamHost) : Prop where
  clock : ∀ path ∈ confFiles, (clock path.toList).isOk = true
  copies : ∀ args, ∃ output, h.command "cp".toList args = .ok output ∧ output.success = true
  directories : ∀ args, ∃ output, h.command "mkdir".toList args = .ok output ∧ output.success = true
  write : ∀ path ∈ confFiles, (h.write path.toList).isOk = true

section

variable (denied : Chars → Chars → Bool) (config : PluginConfig) (h : PamHost)

/-- The value a run observes of a directive. -/
def observed (d : PamDirective) : ThresholdRead :=
  answered h.respond (observedPamValue denied d (h.conf denied pwqualityConf) (h.conf denied loginDefs) [])

def rounds : List (PamDirective × ThresholdRead) := pamDirectives.map fun d => (d, observed denied h d)

/-- The value a run means a directive of a file held in memory to have, unless it is excepted. -/
def meant (round : PamDirective × ThresholdRead) : Option Chars :=
  match config.matchingException round.1.name round.2.valueOrNotSet with
  | some _ => none
  | none => some (round.1.compare.clampTarget (clampedBaseline round.1 config) (some round.2.valueOrNotSet))

/-- The buffer of a file once a directive has had its turn. -/
def editBuffer (file : PamConfigFile) (buffer : Buffer) (round : PamDirective × ThresholdRead) : Buffer :=
  if round.1.configFile = file then
    match meant config round with
    | some target => (applyExactDirective buffer round.1.name target file.configFormat []).1
    | none => buffer
  else buffer

/-- What a directive's own file under `/etc/security` is made to hold, where it is written. -/
def securityContent (path : String) (round : PamDirective × ThresholdRead) : Option Chars :=
  let target := clampedBaseline round.1 config
  if (config.matchingException round.1.name round.2.valueOrNotSet).isNone ∧
      round.1.compare.violatedBy target (some round.2.valueOrNotSet) = true ∧
      answered h.respond (readPamdInline denied path round.1.name) = .notSet ∧ (h.conf denied path).isSettled = true then
    some (setConfigDirective (h.conf denied path).contentOr round.1.name target .keyValue true .remove)
  else none

def roundWrite (round : PamDirective × ThresholdRead) : Option (Chars × Chars) :=
  match round.1.configFile with
  | .securityConf path => (securityContent denied config h path round).map fun content => (path.toList, content)
  | _ => none

/-- The buffer of a file behind the loop. -/
def finalBuffer (path : String) (file : PamConfigFile) : Buffer :=
  (rounds denied h).foldl (editBuffer config file) ⟨(h.conf denied path).contentOr, false⟩

def bufferWrite (path : String) (file : PamConfigFile) : Option (Chars × Chars) :=
  let buffer := finalBuffer denied config h path file
  if buffer.changed && (h.conf denied path).isSettled then some (path.toList, buffer.content) else none

/-- The writes an apply is to make, in order. -/
def plannedWrites : List (Chars × Chars) :=
  (rounds denied h).filterMap (roundWrite denied config h) ++
    (bufferWrite denied config h pwqualityConf .pwQuality).toList ++ (bufferWrite denied config h loginDefs .loginDefs).toList

end

/-! ## One file -/

/-- Writes made one after the other. -/
def PamHost.storeAll (h : PamHost) (ws : List (Chars × Chars)) : PamHost := ws.foldl (fun g w => g.store w.1 w.2) h

theorem PamHost.storeAll_append (h : PamHost) (ws ws' : List (Chars × Chars)) :
    h.storeAll (ws ++ ws') = (h.storeAll ws).storeAll ws' := List.foldl_append

/-- A program that asks for at most the writes planned, makes some of these, and all of them on a
host where everything works. -/
structure Makes {α : Type} (clock : Chars → Except Chars Nat) (h : PamHost) (p : Session α) (planned : List (Chars × Chars)) : Prop where
  asked : (h.writes p).Sublist planned
  made : ∃ ws : List (Chars × Chars), ws.Sublist planned ∧ h.afterwards p = h.storeAll ws ∧ (Works clock h → ws = planned)

section

variable {α β : Type} {denied : Chars → Chars → Bool} {clock : Chars → Except Chars Nat} {config : PluginConfig} {h : PamHost}
  {planned planned' : List (Chars × Chars)}

theorem Works.storeAll (hw : Works clock h) (ws : List (Chars × Chars)) : Works clock (h.storeAll ws) := by
  induction ws generalizing h with
  | nil => exact hw
  | cons w ws ih => exact ih ⟨hw.clock, hw.copies, hw.directories, hw.write⟩

theorem makes_quiet (h : PamHost) {p : Session α} (hp : Asks Quiet p) : Makes clock h p [] :=
  ⟨by rw [h.writes_quiet hp], [], List.Sublist.refl _, by rw [h.afterwards_quiet hp]; rfl, fun _ => rfl⟩

/-- One program after another. -/
theorem Makes.bind {p : Session α} {f : α → Session β} (hp : Makes clock h p planned)
    (hf : ∀ ws : List (Chars × Chars), ws.Sublist planned → h.afterwards p = h.storeAll ws →
      Makes clock (h.afterwards p) (f (h.result p)) planned') :
    Makes clock h (p >>= f) (planned ++ planned') := by
  obtain ⟨ws, hsub, hafter, hall⟩ := hp.made
  have hnext := hf ws hsub hafter
  obtain ⟨ws', hsub', hafter', hall'⟩ := hnext.made
  refine ⟨?_, ws ++ ws', hsub.append hsub', ?_, fun hw => ?_⟩
  · rw [PamHost.writes_bind]
    exact hp.asked.append hnext.asked
  · rw [PamHost.afterwards_bind, hafter', hafter, PamHost.storeAll_append]
  · rw [hall hw, hall' (hafter ▸ hw.storeAll ws)]

theorem Makes.bind_quiet {p : Session α} {f : α → Session β} (hp : Asks Quiet p)
    (hf : Makes clock h (f (answered h.respond p)) planned) : Makes clock h (p >>= f) planned := by
  obtain ⟨-, hafter, hwrites⟩ := h.bind_quiet hp f
  obtain ⟨ws, hsub, heq, hall⟩ := hf.made
  exact ⟨hwrites ▸ hf.asked, ws, hsub, hafter ▸ heq, hall⟩

/-- What writes nothing behind a program. -/
theorem Makes.then_quiet {p : Session α} {f : α → Session β} (hp : Makes clock h p planned) (hf : ∀ a, Asks Quiet (f a)) :
    Makes clock h (p >>= f) planned := by
  rw [← List.append_nil planned]
  exact hp.bind fun ws _ _ => makes_quiet _ (hf _)

/-- A write, and what writes nothing behind it. -/
theorem makes_writeFile {path : String} (hpath : path ∈ confFiles) (h : PamHost) (content : Chars) {f : Except Chars Unit → Session β}
    (hf : ∀ r, Asks Quiet (f r)) : Makes clock h (writeFile path.toList content >>= f) [(path.toList, content)] := by
  obtain ⟨-, hwrites, hafter⟩ := h.writeFile_run path.toList content
  refine ⟨?_, ?_⟩
  · rw [PamHost.writes_bind, hwrites, PamHost.writes_quiet _ (hf _), List.append_nil]
  · rw [PamHost.afterwards_bind, PamHost.afterwards_quiet _ (hf _), hafter]
    split
    · exact ⟨_, List.Sublist.refl _, rfl, fun _ => rfl⟩
    · next hfailed => exact ⟨[], List.nil_sublist _, rfl, fun hw => absurd (hw.write path hpath) hfailed⟩

theorem answered_prepareWrite (hw : Works clock h) {path : String} (hpath : path ∈ confFiles) (creating : Bool) (fileLabel : Chars) :
    ∃ prepared, answered h.respond (prepareWrite clock creating path.toList fileLabel) = .ok prepared := by
  unfold prepareWrite
  split
  · split
    · exact ⟨_, rfl⟩
    · next dir hparent =>
      have hdir : answered h.respond (ensureDirectory dir) = none := by
        obtain ⟨output, hmkdir, hsuccess⟩ := hw.directories ["-p".toList, dir]
        unfold ensureDirectory
        rw [answered_bind]
        split
        · rfl
        · have hrun : answered h.respond (execute "mkdir" ["-p", dir]) = .ok output := hmkdir
          rw [answered_bind, hrun]
          simp [hsuccess]
      exact ⟨_, by rw [answered_bind, hdir]; rfl⟩
  · obtain ⟨timestamp, htime⟩ : ∃ timestamp, clock path.toList = .ok timestamp := by
      have hok := hw.clock path hpath
      cases hc : clock path.toList with
      | ok timestamp => exact ⟨timestamp, rfl⟩
      | error e =>
        rw [hc] at hok
        cases hok
    have hbackup : ∃ backup, answered h.respond (createConfigBackup clock path.toList) = .ok backup := by
      obtain ⟨output, hcp, hsuccess⟩ :=
        hw.copies ["-p", "--no-dereference", path.toList, pamBackupStem path.toList ++ decimal timestamp]
      have hrun : answered h.respond (execute "cp" ["-p", "--no-dereference", path.toList,
          pamBackupStem path.toList ++ decimal timestamp]) = .ok output := hcp
      unfold createConfigBackup
      simp only [htime]
      rw [answered_bind, hrun]
      exact ⟨_, by simp only [hsuccess, if_true, answered_bind]; rfl⟩
    obtain ⟨backup, hbackup⟩ := hbackup
    exact ⟨_, by rw [answered_bind, hbackup]; rfl⟩

/-- A file is written, unless something went wrong. -/
theorem makes_backupAndWrite {path : String} (hpath : path ∈ confFiles) (h : PamHost) (fileLabel content : Chars)
    (createMode : Option (BitVec 32)) :
    Makes clock h (backupAndWrite clock path.toList fileLabel content createMode) [(path.toList, content)] := by
  unfold backupAndWrite
  refine Makes.bind_quiet (asks_ask trivial) ?_
  refine Makes.bind_quiet (asks_prepareWrite serves_quiet (fun _ _ => trivial) _ fileLabel) ?_
  generalize hcreating : confirmedAbsent (answered h.respond (pathExists path.toList)) = creating
  cases hprepared : answered h.respond (prepareWrite clock creating path.toList fileLabel) with
  | error change =>
    refine ⟨List.nil_sublist _, [], List.nil_sublist _, rfl, fun hw => ?_⟩
    obtain ⟨prepared, hok⟩ := answered_prepareWrite hw hpath creating fileLabel
    rw [hprepared] at hok
    cases hok
  | ok prepared =>
    refine makes_writeFile hpath h content fun r => ?_
    cases r with
    | error e => trivial
    | ok u => exact Asks.bind (asks_settleMode serves_quiet creating _ createMode) fun _ => trivial

/-! ## One round -/

theorem allowed_confIsWritable (path : Chars) (read : ConfRead) (report : Report) :
    (answered h.respond (confIsWritable path read report)).1.allowed = read.isSettled := by
  unfold confIsWritable
  split
  · rfl
  · rfl
  · rw [answered_bind]
    rfl
  · split <;> rfl

theorem buffer_applyExactDirective (buffer : Buffer) (name target : Chars) (format : ConfigFormat) (fileLabel fileLabel' : Chars) :
    (applyExactDirective buffer name target format fileLabel).1 = (applyExactDirective buffer name target format fileLabel').1 := by
  unfold applyExactDirective
  dsimp only
  split <;> rfl

/-- What a round does to the two files in memory. -/
theorem buffers_applyDirective (g : PamHost) (pwqualityWrite loginDefsWrite : ConfWrite) (st : Progress)
    (round : PamDirective × ThresholdRead) :
    let st' := g.result (applyDirective denied clock config pwqualityWrite loginDefsWrite st round)
    st'.pwquality = (if pwqualityWrite.allowed then editBuffer config .pwQuality st.pwquality round else st.pwquality) ∧
      st'.loginDefs = if loginDefsWrite.allowed then editBuffer config .loginDefs st.loginDefs round else st.loginDefs := by
  obtain ⟨d, observed⟩ := round
  unfold applyDirective editBuffer meant
  dsimp only
  cases config.matchingException d.name observed.valueOrNotSet with
  | some e =>
    simp only [ite_self]
    exact ⟨rfl, rfl⟩
  | none =>
    cases hfile : d.configFile with
    | pwQuality =>
      simp only [reduceCtorEq, if_true, if_false, ite_self]
      split
      · exact ⟨buffer_applyExactDirective _ _ _ _ _ _, rfl⟩
      · exact ⟨rfl, rfl⟩
    | loginDefs =>
      simp only [reduceCtorEq, if_true, if_false, ite_self]
      split
      · exact ⟨rfl, buffer_applyExactDirective _ _ _ _ _ _⟩
      · exact ⟨rfl, rfl⟩
    | pamAuth =>
      simp only [reduceCtorEq, if_false, ite_self]
      exact ⟨rfl, rfl⟩
    | securityConf path =>
      simp only [reduceCtorEq, if_false, ite_self]
      rw [PamHost.result_bind]
      exact ⟨rfl, rfl⟩

/-- A round writes its directive's own file, where it has one and it is to be written. -/
theorem makes_applyDirective (g : PamHost) (pwqualityWrite loginDefsWrite : ConfWrite) (st : Progress)
    {round : PamDirective × ThresholdRead} (hfile : ∀ path, round.1.configFile = .securityConf path → path ∈ confFiles) :
    Makes clock g (applyDirective denied clock config pwqualityWrite loginDefsWrite st round)
      (roundWrite denied config g round).toList := by
  obtain ⟨d, observed⟩ := round
  unfold applyDirective roundWrite securityContent
  dsimp only at hfile ⊢
  cases hexception : config.matchingException d.name observed.valueOrNotSet with
  | some e =>
    cases d.configFile <;> exact makes_quiet g trivial
  | none =>
    cases hconf : d.configFile with
    | pwQuality =>
      dsimp only
      split <;> exact makes_quiet g trivial
    | loginDefs =>
      dsimp only
      split <;> exact makes_quiet g trivial
    | pamAuth => exact makes_quiet g trivial
    | securityConf path =>
      have hpath := hfile path hconf
      dsimp only
      refine Makes.then_quiet ?_ fun _ => trivial
      unfold applySecurityConf
      refine Makes.bind_quiet (asks_readPamdInline fun _ _ _ _ _ => looks_quiet _) ?_
      cases hviolated : d.compare.violatedBy (clampedBaseline d config) (some observed.valueOrNotSet) with
      | false =>
        rw [Bool.not_false, if_pos rfl, if_neg fun h => Bool.false_ne_true h.2.1]
        exact makes_quiet g trivial
      | true =>
        simp only [Bool.not_true, Bool.false_eq_true, if_false]
        cases hinline : answered g.respond (readPamdInline denied path d.name) with
        | value value =>
          rw [if_neg fun h => by cases h.2.2.1]
          exact makes_quiet g trivial
        | unreadable stack permissionDenied =>
          rw [if_neg fun h => by cases h.2.2.1]
          exact makes_quiet g trivial
        | notSet =>
          refine Makes.bind_quiet (asks_readConfClassified (looks_quiet _)) ?_
          refine Makes.bind_quiet (asks_confIsWritable serves_quiet _ _ _) ?_
          have hread : answered g.respond (readConfClassified denied path.toList) = g.conf denied path := rfl
          have hformat : d.configFile.configFormat = .keyValue := by
            rw [hconf]
            rfl
          rw [hread, hformat]
          have hallowed := allowed_confIsWritable (h := g) path.toList (g.conf denied path) st.report
          generalize answered g.respond (confIsWritable path.toList (g.conf denied path) st.report) = answer at hallowed
          obtain ⟨write, report⟩ := answer
          dsimp only at hallowed ⊢
          cases hsettled : (g.conf denied path).isSettled with
          | false =>
            rw [hallowed, hsettled, Bool.not_false, if_pos rfl, if_neg fun h => Bool.false_ne_true h.2.2.2]
            exact makes_quiet g trivial
          | true =>
            rw [hallowed, hsettled, Bool.not_true, if_neg Bool.false_ne_true, if_pos ⟨rfl, trivial, rfl, rfl⟩]
            refine (makes_backupAndWrite hpath g _ _ _).then_quiet fun written => ?_
            split <;> trivial

/-! ## The loop -/

/-- A path and its counterpart among the vendor's. -/
def layers (path : Chars) : List Chars := path :: (vendorPathFor path).toList

def stackFiles (path : String) : List String :=
  match pamModuleFor path with
  | some (_, files) => files
  | none => []

/-- The files a directive's round asks about. -/
def asked (d : PamDirective) : List Chars :=
  match d.configFile with
  | .securityConf path => (path :: stackFiles path).flatMap fun file => layers file.toList
  | _ => []

/-- The file a directive's round may write. -/
def own (d : PamDirective) : List Chars :=
  match d.configFile with
  | .securityConf path => [path.toList]
  | _ => []

/-- No round asks about the file of one before it. -/
theorem rounds_apart : pamDirectives.Pairwise fun d d' => ∀ p ∈ own d, p ∉ asked d' := by decide +kernel

theorem own_confFiles : ∀ d ∈ pamDirectives, ∀ path, d.configFile = .securityConf path → path ∈ confFiles := by
  have hall : ∀ d ∈ pamDirectives, ∀ p ∈ own d, ∃ path ∈ confFiles, path.toList = p := by decide +kernel
  intro d hd path hfile
  obtain ⟨path', hpath', heq⟩ := hall d hd path.toList (by simp [own, hfile])
  exact String.toList_injective heq ▸ hpath'

variable {g : PamHost} {S : List Chars}

theorem looks_of_layers {path : Chars} (h : ∀ p ∈ layers path, p ∉ S) : Looks (Spares S) path :=
  looks_spares (h path List.mem_cons_self) fun vendor hvendor => h vendor (by simp [layers, hvendor])

theorem conf_agree (hagree : PamHost.Agree S g h) {path : String} (hpath : ∀ p ∈ layers path.toList, p ∉ S) :
    g.conf denied path = h.conf denied path :=
  answered_congr (asks_readConfClassified (looks_of_layers hpath)) fun _ hq => hagree.respond hq

/-- The argument found in a stack is the same on hosts that differ elsewhere. -/
theorem inline_agree (hagree : PamHost.Agree S g h) {path : String} {arg : Chars}
    (hstacks : ∀ file ∈ stackFiles path, ∀ p ∈ layers file.toList, p ∉ S) :
    answered g.respond (readPamdInline denied path arg) = answered h.respond (readPamdInline denied path arg) := by
  refine answered_congr (asks_readPamdInline fun module files hmodule file hfile => ?_) fun _ hq => hagree.respond hq
  refine looks_of_layers (hstacks file ?_)
  simpa [stackFiles, hmodule] using hfile

theorem roundWrite_agree (hagree : PamHost.Agree S g h) {round : PamDirective × ThresholdRead} (hspare : ∀ p ∈ asked round.1, p ∉ S) :
    roundWrite denied config g round = roundWrite denied config h round := by
  unfold roundWrite
  cases hfile : round.1.configFile with
  | securityConf path =>
    have hlayers : ∀ file ∈ path :: stackFiles path, ∀ p ∈ layers file.toList, p ∉ S := by
      intro file hmem p hp
      apply hspare
      simp only [asked, hfile, List.mem_flatMap]
      exact ⟨file, hmem, hp⟩
    unfold securityContent
    dsimp only
    rw [conf_agree hagree (hlayers path List.mem_cons_self),
      inline_agree hagree fun file hmem => hlayers file (List.mem_cons_of_mem _ hmem)]
  | _ => rfl

theorem mem_own_of_roundWrite {round : PamDirective × ThresholdRead} {w : Chars × Chars} (h' : roundWrite denied config h round = some w) :
    w.1 ∈ own round.1 := by
  unfold roundWrite at h'
  unfold own
  cases hfile : round.1.configFile with
  | securityConf path =>
    rw [hfile] at h'
    obtain ⟨content, -, rfl⟩ := Option.map_eq_some_iff.mp h'
    exact List.mem_singleton_self _
  | _ =>
    rw [hfile] at h'
    cases h'

theorem storeAll_agree (hagree : PamHost.Agree S g h) {ws : List (Chars × Chars)} (hws : ∀ w ∈ ws, w.1 ∈ S) :
    PamHost.Agree S (g.storeAll ws) h := by
  induction ws generalizing g with
  | nil => exact hagree
  | cons w ws ih =>
    exact ih (hagree.store (hws w List.mem_cons_self) w.2) fun w' hw' => hws w' (List.mem_cons_of_mem _ hw')

/-- The rounds, one after another, from a host that differs from the first in files that none
of them asks about. -/
theorem makes_loop (pwqualityWrite loginDefsWrite : ConfWrite) (rounds : List (PamDirective × ThresholdRead)) (st : Progress)
    (hagree : PamHost.Agree S g h) (hspare : ∀ r ∈ rounds, ∀ p ∈ asked r.1, p ∉ S)
    (hfile : ∀ r ∈ rounds, ∀ path, r.1.configFile = .securityConf path → path ∈ confFiles)
    (hapart : rounds.Pairwise fun r r' => ∀ p ∈ own r.1, p ∉ asked r'.1) :
    let loop := rounds.foldlM (applyDirective denied clock config pwqualityWrite loginDefsWrite) st
    Makes clock g loop (rounds.filterMap (roundWrite denied config h)) ∧
      (g.result loop).pwquality =
        (if pwqualityWrite.allowed then rounds.foldl (editBuffer config .pwQuality) st.pwquality else st.pwquality) ∧
      (g.result loop).loginDefs =
        if loginDefsWrite.allowed then rounds.foldl (editBuffer config .loginDefs) st.loginDefs else st.loginDefs := by
  dsimp only
  induction rounds generalizing g S st with
  | nil => exact ⟨makes_quiet g trivial, (ite_self _).symm, (ite_self _).symm⟩
  | cons r rounds ih =>
    obtain ⟨hfirst, hrest⟩ := List.pairwise_cons.mp hapart
    have hround : Makes clock g (applyDirective denied clock config pwqualityWrite loginDefsWrite st r)
        (roundWrite denied config g r).toList := makes_applyDirective g pwqualityWrite loginDefsWrite st (hfile r List.mem_cons_self)
    rw [roundWrite_agree hagree (hspare r List.mem_cons_self)] at hround
    obtain ⟨hpwquality, hloginDefs⟩ := @buffers_applyDirective denied clock config g pwqualityWrite loginDefsWrite st r
    have hsub : S ⊆ own r.1 ++ S := fun p hp => List.mem_append_right _ hp
    have hnext : ∀ ws : List (Chars × Chars), ws.Sublist (roundWrite denied config h r).toList →
        PamHost.Agree (own r.1 ++ S) (g.storeAll ws) h := by
      intro ws hws
      refine storeAll_agree (hagree.mono hsub) fun w hw => List.mem_append_left _ ?_
      exact mem_own_of_roundWrite (Option.mem_toList.mp (hws.subset hw))
    have hspare' : ∀ r' ∈ rounds, ∀ p ∈ asked r'.1, p ∉ own r.1 ++ S := by
      intro r' hr' p hp hin
      rcases List.mem_append.mp hin with hown | hS
      · exact hfirst r' hr' p hown hp
      · exact hspare r' (List.mem_cons_of_mem _ hr') p hp hS
    have hfile' := fun r' (hr' : r' ∈ rounds) => hfile r' (List.mem_cons_of_mem _ hr')
    obtain ⟨ws, hws, hafter, -⟩ := hround.made
    have hafterAgree := hafter ▸ hnext ws hws
    obtain ⟨-, hpwquality', hloginDefs'⟩ := ih (g.result (applyDirective denied clock config pwqualityWrite loginDefsWrite st r))
      hafterAgree hspare' hfile' hrest
    have hcons : (r :: rounds).filterMap (roundWrite denied config h) =
        (roundWrite denied config h r).toList ++ rounds.filterMap (roundWrite denied config h) := by
      rw [List.filterMap_cons]
      cases roundWrite denied config h r <;> rfl
    rw [List.foldlM_cons, hcons, PamHost.result_bind, hpwquality', hloginDefs', hpwquality, hloginDefs, List.foldl_cons,
      List.foldl_cons]
    refine ⟨hround.bind fun ws hws hafter => ?_, ?_, ?_⟩
    · exact (ih _ (hafter ▸ hnext ws hws) hspare' hfile' hrest).1
    · split <;> rfl
    · split <;> rfl

/-! ## The apply -/

theorem answered_observeAll : answered h.respond (observeAll denied (h.conf denied pwqualityConf) (h.conf denied loginDefs)) = rounds denied h ∧
    Asks Quiet (observeAll denied (h.conf denied pwqualityConf) (h.conf denied loginDefs)) := by
  unfold observeAll rounds
  induction pamDirectives with
  | nil => exact ⟨rfl, trivial⟩
  | cons d directives ih =>
    obtain ⟨hrest, hasks⟩ := ih
    rw [List.mapM_cons]
    constructor
    · rw [answered_bind, answered_bind, answered_bind, hrest]
      rfl
    · refine Asks.bind (Asks.bind (asks_observedPamValue _ _ _ _) fun _ => trivial) fun round => ?_
      exact Asks.bind hasks fun _ => trivial

theorem makes_writeBuffer {path : String} (hpath : path ∈ confFiles) (g : PamHost) (fileLabel : Chars) (write : ConfWrite) (buffer : Buffer)
    (report : Report) :
    Makes clock g (writeBuffer clock path fileLabel write buffer report)
      (if buffer.changed && write.allowed then [(path.toList, buffer.content)] else []) := by
  unfold writeBuffer
  split
  · refine Makes.then_quiet ?_ fun _ => trivial
    exact (makes_backupAndWrite hpath g _ _ _).then_quiet fun _ => trivial
  · exact makes_quiet g trivial

theorem makes_applyAll (h : PamHost) (checkpointId : Option Chars) :
    Makes clock h (applyAll denied clock config checkpointId) (plannedWrites denied config h) := by
  unfold applyAll
  refine Makes.bind_quiet (asks_readConfClassified (looks_quiet _)) ?_
  have hpwquality : answered h.respond (readConfClassified denied pwqualityConf.toList) = h.conf denied pwqualityConf := rfl
  rw [hpwquality]
  refine Makes.bind_quiet (asks_confIsWritable serves_quiet _ _ _) ?_
  have hpwqualityAllowed := allowed_confIsWritable (h := h) pwqualityConf.toList (h.conf denied pwqualityConf)
    ⟨checkpointChange checkpointId, true⟩
  generalize answered h.respond (confIsWritable pwqualityConf.toList (h.conf denied pwqualityConf)
    ⟨checkpointChange checkpointId, true⟩) = answer at hpwqualityAllowed
  obtain ⟨pwqualityWrite, report⟩ := answer
  refine Makes.bind_quiet (asks_readConfClassified (looks_quiet _)) ?_
  have hloginDefs : answered h.respond (readConfClassified denied loginDefs.toList) = h.conf denied loginDefs := rfl
  rw [hloginDefs]
  refine Makes.bind_quiet (asks_confIsWritable serves_quiet _ _ _) ?_
  have hloginDefsAllowed := allowed_confIsWritable (h := h) loginDefs.toList (h.conf denied loginDefs) report
  generalize answered h.respond (confIsWritable loginDefs.toList (h.conf denied loginDefs) report) = answer at hloginDefsAllowed
  obtain ⟨loginDefsWrite, report⟩ := answer
  refine Makes.bind_quiet (asks_presenceByFile _ _) ?_
  refine Makes.bind_quiet answered_observeAll.2 ?_
  rw [answered_observeAll.1]
  dsimp only at hpwqualityAllowed hloginDefsAllowed ⊢
  have hfile : ∀ r ∈ rounds denied h, ∀ path, r.1.configFile = .securityConf path → path ∈ confFiles := by
    intro r hr path hconf
    obtain ⟨d, hd, rfl⟩ := List.mem_map.mp hr
    exact own_confFiles d hd path hconf
  have hapart : (rounds denied h).Pairwise fun r r' => ∀ p ∈ own r.1, p ∉ asked r'.1 := List.pairwise_map.mpr rounds_apart
  obtain ⟨hloop, hpwqualityBuffer, hloginDefsBuffer⟩ := @makes_loop denied clock config h h [] pwqualityWrite
    loginDefsWrite (rounds denied h) ⟨_, ⟨(h.conf denied pwqualityConf).contentOr, false⟩, ⟨(h.conf denied loginDefs).contentOr, false⟩⟩
    (PamHost.Agree.refl [] h) (fun _ _ _ _ hp => by cases hp) hfile hapart
  unfold plannedWrites
  rw [List.append_assoc]
  refine hloop.bind fun ws _ _ => ?_
  -- What is written of a buffer is said by the file it was read from.
  have hwrite : ∀ (path : String) (file : PamConfigFile) (write : ConfWrite) (buffer : Buffer),
      write.allowed = (h.conf denied path).isSettled →
      buffer = (if write.allowed then finalBuffer denied config h path file else ⟨(h.conf denied path).contentOr, false⟩) →
      (if buffer.changed && write.allowed then [(path.toList, buffer.content)] else []) =
        (bufferWrite denied config h path file).toList := by
    intro path file write buffer hallowed hbuffer
    unfold bufferWrite
    rw [hbuffer, hallowed]
    cases (h.conf denied path).isSettled with
    | false => simp
    | true =>
      simp only [if_true, Bool.and_true]
      split <;> rfl
  have hfirst := hwrite pwqualityConf .pwQuality pwqualityWrite _ hpwqualityAllowed hpwqualityBuffer
  have hsecond := hwrite loginDefs .loginDefs loginDefsWrite _ hloginDefsAllowed hloginDefsBuffer
  rw [← hfirst, ← hsecond]
  refine (makes_writeBuffer (by decide) _ _ _ _ _).bind fun ws _ _ => ?_
  exact (makes_writeBuffer (by decide) _ _ _ _ _).then_quiet fun _ => trivial

/-- The writes of an apply: none where its checkpoint cannot be taken. -/
def appliedWrites (denied : Chars → Chars → Bool) (ctx : Context) (config : PluginConfig) (h : PamHost) : List (Chars × Chars) :=
  if ctx.hasCheckpointManager && !h.checkpoint.isOk then [] else plannedWrites denied config h

theorem makes_applyPlugin (ctx : Context) (config : PluginConfig) (h : PamHost) :
    Makes clock h (applyPlugin denied clock ctx config) (appliedWrites denied ctx config h) := by
  unfold applyPlugin appliedWrites
  refine Makes.bind_quiet (asks_pruneAll _) ?_
  refine Makes.bind_quiet (asks_createCheckpointForApply ctx trivial) ?_
  unfold createCheckpointForApply
  cases ctx.hasCheckpointManager with
  | false => exact (makes_applyAll h none).then_quiet fun _ => trivial
  | true =>
    rw [if_pos rfl, answered_bind]
    have hanswer : answered h.respond (ask (.checkpoint "pam-hardening-pre-apply"
        [pwqualityConf.toList, loginDefs.toList, "/etc/pam.d", faillockConf.toList, pwhistoryConf.toList])) = h.checkpoint := rfl
    rw [hanswer]
    cases hcheckpoint : h.checkpoint with
    | error e => exact makes_quiet h trivial
    | ok id => exact (makes_applyAll h (some id)).then_quiet fun _ => trivial

end

end LinuxHardener.Pam
