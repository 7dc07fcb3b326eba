import LinuxHardener.State.Capture
import LinuxHardener.State.RestoreRun
import LinuxHardener.State.SshExecutor

/-
  Whether a capture stores, and a restore leaves, exactly the bytes of a file.

  `Executor.Keeps` is what both executors have in common: the local one keeps a text as it
  is, the SSH one ends its last line (`withFinalNewline`).

  What is proved:
    1. `captureSingleFileOver_local` — over the local executor this is `captureSingleFile`.
    2. `Executor.Keeps.captures`, `Executor.Keeps.restores`, `Executor.Keeps.restoresLinks` —
       what is stored and what is left, over any executor that keeps what it is given.
    3. `localExecutor_keeps`, `sshExecutor_keeps` — these two do.
    4. `capture_and_restore_exact` — what that comes to for both; `capture_and_restore_inexact`
       is what it leaves out.

  Correspondence (Rust ↔ Lean):
    `manager::capture_single_file` over an executor ↔ `captureSingleFileOver`
-/
namespace LinuxHardener.State

open FileTree
open LineText (Chars)

/-! ## A capture over an executor -/

def captureSingleFileOver (ex : Executor) (path : String) (policy : ContentPolicy) (h : Host) :
    Except HardeningError FileState × Host :=
  match ex.fileMetadata h.fs path with
  | .error e => (.error (.system e), h.ask (.metadata path))
  | .ok md =>
    if !md.fileExists then (.ok (absentRow path), h.ask (.metadata path))
    else
      let asked := (h.ask (.metadata path)).ask (.readLink path)
      match ex.readLink h.fs path with
      | .error e =>
        (.error (.executor ("Cannot tell whether " ++ path ++
          " is a symlink, so it cannot be captured safely: " ++ e)), asked)
      | .ok (some target) => (.ok (linkRow path target md), asked)
      | .ok none =>
        let read := asked.ask (.readFile path)
        match ex.readFile h.fs path, policy with
        | .ok content, _ => (.ok ⟨path, some (utf8 content), md.mode, md.uid, md.gid, none, none⟩, read)
        | .error e, .required =>
          (.error (.executor ("Cannot checkpoint " ++ path ++ ": its content could not be read (" ++ e ++
            "). Without that content, a later rollback could not restore the file, so continuing would leave it " ++
            "unprotected.")), read)
        | .error _, .bestEffort => (.ok ⟨path, none, md.mode, md.uid, md.gid, none, some .readFailed⟩, read)

/-- Over the local executor it stores what `captureSingleFile` does, and fails where that does. -/
theorem captureSingleFileOver_local (path : String) (policy : ContentPolicy) (h : Host) :
    (captureSingleFileOver localExecutor path policy h).1.toOption = (captureSingleFile h.fs path policy).toOption := by
  have hmeta : localExecutor.fileMetadata h.fs path = (fileMetadata h.fs path).mapError errnoMessage := rfl
  have hlink : localExecutor.readLink h.fs path = .ok (readLink h.fs path) := rfl
  have hread : localExecutor.readFile h.fs path = (readFile h.fs path).mapError errnoMessage := rfl
  rw [captureSingleFileOver, captureSingleFile, metadata, hmeta]
  cases fileMetadata h.fs path with
  | error e => rfl
  | ok md =>
    simp only [Except.mapError, bind, Except.bind]
    split
    · rfl
    · rw [hlink, hread]
      cases readLink h.fs path with
      | some target => rfl
      | none => cases readFile h.fs path <;> cases policy <;> rfl

/-- What a row can be. -/
theorem captureSingleFileOver_ok {ex : Executor} {path : String} {policy : ContentPolicy} {h : Host} {row : FileState}
    (hrow : (captureSingleFileOver ex path policy h).1 = .ok row) :
    (∃ md, ex.fileMetadata h.fs path = .ok md ∧ md.fileExists = false ∧ row = absentRow path) ∨
    (∃ md target, ex.readLink h.fs path = .ok (some target) ∧ row = linkRow path target md) ∨
    (∃ (md : FileMetadata) (content : String), ex.readFile h.fs path = .ok content ∧
      row = ⟨path, some (utf8 content), md.mode, md.uid, md.gid, none, none⟩) ∨
    ∃ md : FileMetadata, row = ⟨path, none, md.mode, md.uid, md.gid, none, some .readFailed⟩ := by
  unfold captureSingleFileOver at hrow
  cases hm : ex.fileMetadata h.fs path with
  | error e => rw [hm] at hrow; cases hrow
  | ok md =>
    rw [hm] at hrow
    simp only at hrow
    split at hrow
    · next hexists =>
      cases hrow
      exact .inl ⟨md, rfl, by simpa using hexists, rfl⟩
    · refine .inr ?_
      split at hrow
      · cases hrow
      · next target hlink =>
        cases hrow
        exact .inl ⟨md, target, hlink, rfl⟩
      · refine .inr ?_
        split at hrow
        · next content hread =>
          cases hrow
          exact .inl ⟨md, content, hread, rfl⟩
        · cases hrow
        · cases hrow
          exact .inr ⟨md, rfl⟩

/-! ## What is kept -/

/-- What is reported written or done is so, and what is answered of a path is so; a text
that is written is first closed. -/
structure Executor.Keeps (close : String → String) (ex : Executor) : Prop where
  absent : ∀ {fs : Tree} {path : String} {md : FileMetadata}, isAbsolute path = true → ex.fileMetadata fs path = .ok md →
    md.fileExists = false → ∀ r, stat fs path ≠ .ok r
  link : ∀ {fs : Tree} {path target : String}, isAbsolute path = true → ex.readLink fs path = .ok (some target) →
    ∃ l t u g, lstat fs path = .ok (l, .link t u g) ∧ target = Text.trim t
  exist : ∀ {fs : Tree} {path : String}, isAbsolute path = true → ex.pathExists fs path = .ok true →
    State.pathExists fs path = .ok true
  write : ∀ {path content : String} {fs fs' : Tree}, isAbsolute path = true → ex.writeFile path content fs = (fs', .ok ()) →
    updateFileAtomically path (close content) fs = .ok fs' ∨ writeThrough path (close content) fs = .ok fs'
  command : ∀ {c : Command} {fs fs' : Tree} {out : CommandOutput}, c.Operands → isAbsolute c.path = true →
    ex.executeCommand c fs = (fs', .ok out) → out.exitCode = 0 → c.run fs = .ok fs'

/-- What is read of a file with this content is its bytes. -/
def Executor.Reads (ex : Executor) (d : Data) : Prop :=
  ∀ {fs : Tree} {path : String} {l : Loc} {a : Attr} {s : String}, stat fs path = .ok (l, .file d a) →
    ex.readFile fs path = .ok s → utf8 s = d.bytes

/-- A file with this content is stored byte for byte, or marked as not read. -/
def Executor.CapturesExactly (ex : Executor) (d : Data) : Prop :=
  ∀ (h : Host) (path : String) (policy : ContentPolicy) (l : Loc) (a : Attr) (row : FileState),
    stat h.fs path = .ok (l, .file d a) → (captureSingleFileOver ex path policy h).1 = .ok row → row.fileLinkTarget = none →
    row.fileContent = some d.bytes ∨ (row.fileContent = none ∧ row.fileContentAbsence = some .readFailed)

/-- Of a link with this target, the target is stored, if any is. -/
def Executor.CapturesTarget (ex : Executor) (target : String) : Prop :=
  ∀ (h : Host) (path : String) (policy : ContentPolicy) (l : Loc) (u g : UInt32) (row : FileState),
    lstat h.fs path = .ok (l, .link target u g) → (captureSingleFileOver ex path policy h).1 = .ok row →
    row.fileLinkTarget = none ∨ row.fileLinkTarget = some target

/-- A stored text, restored, is what the path holds, closed. -/
def Executor.RestoresExactly (ex : Executor) (close : String → String) : Prop :=
  ∀ (h : Host) (allowed : List String) (f : FileState) (text : String), f.fileLinkTarget = none →
    f.fileContent = some (utf8 text) → (restoreFileStateTracked ex allowed f h).1 = (.restored, .ok ()) →
    ∃ l a, stat (restoreFileStateTracked ex allowed f h).2.fs f.filePath = .ok (l, .file (.text (close text)) a)

/-- A stored target, restored, is that of the link at the path, or a directory stands there.
`mid` is the tree once the link's directory is made. -/
def Executor.RestoresTarget (ex : Executor) (target : String) : Prop :=
  ∀ (h : Host) (allowed : List String) (f : FileState), f.fileLinkTarget = some target →
    (restoreFileStateTracked ex allowed f h).1 = (.restored, .ok ()) →
    ∃ mid l b, (∀ parent, parentPath f.filePath = some parent → Made parent h.fs mid) ∧
      (parentPath f.filePath = none → mid = h.fs) ∧ locate mid false f.filePath = .ok (l, b) ∧
      ((∃ g, (restoreFileStateTracked ex allowed f h).2.fs.get l = some (.link target 0 g)) ∨
        ∃ a, (restoreFileStateTracked ex allowed f h).2.fs.get l = some (.dir a))

/-! ## Captures -/

theorem isAbsolute_of_located {fs : Tree} {follow : Bool} {path : String} {r : Loc × Node}
    (h : (locate fs follow path).bind (nodeAt fs) = .ok r) : isAbsolute path = true := by
  unfold locate at h
  split at h
  · assumption
  · cases h

/-- What is stored is the UTF-8 of what was read. -/
theorem utf8_of_stored {ex : Executor} {path : String} {policy : ContentPolicy} {h : Host} {row : FileState} {content : Bytes}
    (hrow : (captureSingleFileOver ex path policy h).1 = .ok row) (hstored : row.fileContent = some content) :
    ∃ text, content = utf8 text := by
  rcases captureSingleFileOver_ok hrow with ⟨md, _, _, rfl⟩ | ⟨md, target, _, rfl⟩ | ⟨md, text, _, rfl⟩ | ⟨md, rfl⟩
  · cases hstored
  · cases hstored
  · exact ⟨text, (Option.some.inj hstored).symm⟩
  · cases hstored

theorem Executor.Keeps.captures {close : String → String} {ex : Executor} (hex : ex.Keeps close) {d : Data}
    (hread : ex.Reads d) : ex.CapturesExactly d := by
  intro h path policy l a row hfile hrow hlink
  have habs : isAbsolute path = true := isAbsolute_of_located hfile
  rcases captureSingleFileOver_ok hrow with ⟨md, hm, hmissing, _⟩ | ⟨md, target, _, rfl⟩ | ⟨md, content, hc, rfl⟩ | ⟨md, rfl⟩
  · exact absurd hfile (hex.absent habs hm hmissing _)
  · cases hlink
  · exact .inl (congrArg some (hread hfile hc))
  · exact .inr ⟨rfl, rfl⟩

theorem Executor.Keeps.capturesTarget {close : String → String} {ex : Executor} (hex : ex.Keeps close) {target : String}
    (htrim : Text.trim target = target) : ex.CapturesTarget target := by
  intro h path policy l u g row hnode hrow
  have habs : isAbsolute path = true := isAbsolute_of_located hnode
  rcases captureSingleFileOver_ok hrow with ⟨md, _, _, rfl⟩ | ⟨md, t, hlink, rfl⟩ | ⟨md, content, _, rfl⟩ | ⟨md, rfl⟩
  · exact .inl rfl
  · obtain ⟨l', t', u', g', hl, rfl⟩ := hex.link habs hlink
    rw [hnode] at hl
    cases hl
    exact .inr (congrArg some htrim)
  · exact .inl rfl
  · exact .inl rfl

/-! ## Restores -/

/-- A path that may be written is absolute. -/
theorem isAbsolute_of_admitted {ex : Executor} {allowed : List String} {f : FileState} {h : Host}
    (hr : (rollbackTargetRefusal ex allowed f h).1 = none) : isAbsolute f.filePath = true := by
  unfold rollbackTargetRefusal at hr
  split at hr
  · cases hr
  · next hout =>
    unfold outsideAllowed at hout
    simp only [Bool.or_eq_true, Bool.not_eq_true', not_or] at hout
    simpa using hout.1.1

theorem isAbsolute_renderComps (cs : List Comp) : isAbsolute (renderComps cs) = true := by
  cases cs with
  | nil => rfl
  | cons c cs =>
    rw [renderComps, if_neg (by simp), List.flatMap_cons]
    simp [isAbsolute]

/-- A command that no refusal is reported of has had its effect. -/
theorem Executor.Keeps.ran {close : String → String} {ex : Executor} (hex : ex.Keeps close) {c : Command} (hc : c.Operands)
    (habs : isAbsolute c.path = true) {h : Host} (hr : (restoreCommandRefusal ex c h).1 = none) :
    c.run h.fs = .ok (restoreCommandRefusal ex c h).2.fs := by
  obtain ⟨out, hout, hz⟩ := commandRefusal_none hr
  have he : ex.executeCommand c h.fs = ((ex.executeCommand c h.fs).1, .ok out) := by rw [← hout]
  exact hex.command hc habs he hz

theorem Executor.Keeps.made {close : String → String} {ex : Executor} (hex : ex.Keeps close) {dir : String}
    (habs : isAbsolute dir = true) {h : Host} (hr : (ensureDirectory ex dir h).1 = none) :
    Made dir h.fs (ensureDirectory ex dir h).2.fs := by
  unfold ensureDirectory at hr ⊢
  split at hr
  · next hx => exact .inl ⟨rfl, hex.exist habs hx⟩
  · exact .inr (hex.ran (c := .mkdir dir) trivial habs hr)

/-- A content that no refusal is reported of has been written, closed. -/
theorem Executor.Keeps.wrote {close : String → String} {ex : Executor} (hex : ex.Keeps close) {f : FileState}
    (habs : isAbsolute f.filePath = true) {text : String} (hc : f.fileContent = some (utf8 text)) {h : Host}
    (hr : (restoreContent ex f h).1 = none) :
    updateFileAtomically f.filePath (close text) h.fs = .ok (restoreContent ex f h).2.fs ∨
      writeThrough f.filePath (close text) h.fs = .ok (restoreContent ex f h).2.fs := by
  unfold restoreContent at hr ⊢
  simp only [hc, ofUtf8Lossy_utf8] at hr ⊢
  cases hw : (ex.writeFile f.filePath text h.fs).2 with
  | error e => rw [hw] at hr; cases hr
  | ok u =>
    have he : ex.writeFile f.filePath text h.fs = ((ex.writeFile f.filePath text h.fs).1, .ok ()) := by rw [← hw]
    exact hex.write habs he

/-- What a write leaves at a path, where anything is found there. -/
theorem stat_of_written {path content : String} {fs fs' : Tree}
    (hw : updateFileAtomically path content fs = .ok fs' ∨ writeThrough path content fs = .ok fs') {r : Loc × Node}
    (hr : stat fs' path = .ok r) : ∃ l a, r = (l, .file (.text content) a) := by
  rcases hw with hw | hw
  · unfold updateFileAtomically at hw
    split at hw
    · cases hw
    · simp only [bind, Except.bind] at hw
      split at hw
      · cases hw
      · split at hw
        · split at hw
          · cases hw
          · next located hloc =>
            split at hw
            · cases hw
            · next hnot =>
              cases hw
              exact ⟨_, _, stat_set_file hloc hnot _ _ hr⟩
        · cases hw
        · cases hw
  · unfold writeThrough at hw
    split at hw
    · cases hw
    · next l b hloc =>
      split at hw
      · next d a hfile =>
        cases hw
        exact ⟨_, _, stat_set_file hloc (by simp [hfile]) _ _ hr⟩
      · cases hw
      · next hnone =>
        cases hw
        exact ⟨_, _, stat_set_file hloc (by simp [hnone]) _ _ hr⟩

/-- A change of bits or owner that went through, found at the path with the content as it was. -/
theorem stat_of_changed {f : Node → Node} {path : String} {fs fs' : Tree} (hf : ∀ n : Node, (f n).shape = n.shape)
    (hu : updateAt f path fs = .ok fs') : ∃ l n, stat fs path = .ok (l, n) ∧ stat fs' path = .ok (l, f n) := by
  cases hs : stat fs path with
  | error e =>
    rw [updateAt, hs] at hu
    cases hu
  | ok r => exact ⟨r.1, r.2, rfl, stat_updateAt hs (hf r.2) hu⟩

/-- The content that was written is what the path holds once bits and owner are set. -/
theorem Executor.Keeps.restoredInPlace {close : String → String} {ex : Executor} (hex : ex.Keeps close) {f : FileState}
    (habs : isAbsolute f.filePath = true) {text : String} (hc : f.fileContent = some (utf8 text)) {h : Host}
    (hr : (restoreInPlace ex f h).1.2 = .ok ()) :
    ∃ l a, stat (restoreInPlace ex f h).2.fs f.filePath = .ok (l, .file (.text (close text)) a) := by
  unfold restoreInPlace at hr ⊢
  simp only at hr ⊢
  cases hmade : (restoreDirectory ex f h).1 with
  | some refusal => rw [hmade] at hr; cases hr
  | none =>
    simp only [hmade] at hr ⊢
    cases hwrote : (restoreContent ex f (restoreDirectory ex f h).2).1 with
    | some refusal => rw [hwrote] at hr; cases hr
    | none =>
      simp only [hwrote] at hr ⊢
      obtain ⟨hmode, hown, _⟩ := metaResult_ok hr
      have hchmod := hex.ran (c := .chmod f.restoreMode f.filePath) trivial habs hmode
      have hchown := hex.ran (c := .chown f.fileOwnerUid f.fileOwnerGid f.filePath) trivial habs hown
      obtain ⟨l, n, hfound, hmoded⟩ := stat_of_changed (shape_chmod _) hchmod
      have hwritten := hex.wrote habs hc hwrote
      obtain ⟨l', a, heq⟩ := stat_of_written hwritten hfound
      cases heq
      exact ⟨l, _, stat_updateAt hmoded (shape_chown _ _ _) hchown⟩

theorem Executor.Keeps.restores {close : String → String} {ex : Executor} (hex : ex.Keeps close) : ex.RestoresExactly close := by
  intro h allowed f text ht hc hr
  unfold restoreFileStateTracked at hr ⊢
  simp only at hr ⊢
  cases hallowed : (rollbackTargetRefusal ex allowed f h).1 with
  | some reason => rw [hallowed] at hr; cases hr
  | none =>
    have habs := isAbsolute_of_admitted hallowed
    have hpresent : ¬ recordedAbsent f = true := by simp [recordedAbsent, hc]
    rw [hallowed] at hr
    simp only [ht, if_neg hpresent] at hr ⊢
    exact hex.restoredInPlace habs hc (by rw [hr])

/-! ## Links -/

theorem isAbsolute_parentPath {path parent : String} (h : parentPath path = some parent) : isAbsolute parent = true := by
  unfold parentPath at h
  split at h
  · cases h
  · cases h
    exact isAbsolute_renderComps _

/-- What `ln -sfn` leaves where the path leads. -/
theorem lnForce_found {target path : String} {fs fs' : Tree} (h : lnForce target path fs = .ok fs') :
    ∃ l b, locate fs false path = .ok (l, b) ∧
      ((∃ g, fs'.get l = some (.link target 0 g)) ∨ ∃ a, fs'.get l = some (.dir a)) := by
  unfold lnForce at h
  split at h
  · cases h
  · split at h
    · cases h
    · next l b hloc =>
      refine ⟨l, b, hloc, ?_⟩
      split at h
      · next a hdir =>
        split at h
        · cases h
        · next n _ =>
          split at h
          · cases h
          · cases h
            exact .inr ⟨a, by rw [Tree.get_set_ne fs _ (by simp), hdir]⟩
      · next hnot =>
        cases h
        have hroot : l = [] → (Node.link target 0 (entryGid fs l)).isDir = true := by
          rintro rfl
          exact absurd (Tree.get_root fs) (hnot fs.root)
        exact .inl ⟨_, Tree.get_set_self fs hroot⟩

theorem Executor.Keeps.restoresTarget {close : String → String} {ex : Executor} (hex : ex.Keeps close) {target : String}
    (hop : target.toList.head? ≠ some '-') : ex.RestoresTarget target := by
  intro h allowed f ht hr
  unfold restoreFileStateTracked at hr ⊢
  simp only at hr ⊢
  have hsame := rollbackTargetRefusal_fs ex allowed f h
  cases hallowed : (rollbackTargetRefusal ex allowed f h).1 with
  | some reason => rw [hallowed] at hr; cases hr
  | none =>
    have habs := isAbsolute_of_admitted hallowed
    rw [hallowed] at hr
    simp only [ht] at hr ⊢
    unfold restoreLink at hr ⊢
    cases hp : parentPath f.filePath with
    | none =>
      simp only [hp] at hr ⊢
      have hln := hex.ran (c := .ln target f.filePath) hop habs (asResult_ok (congrArg Prod.snd hr))
      obtain ⟨l, b, hloc, hfound⟩ := lnForce_found hln
      exact ⟨_, l, b, fun _ hc => (by cases hc), fun _ => hsame, hloc, hfound⟩
    | some parent =>
      simp only [hp] at hr ⊢
      cases hmade : (ensureDirectory ex parent (rollbackTargetRefusal ex allowed f h).2).1 with
      | some refusal => rw [hmade] at hr; cases hr
      | none =>
        simp only [hmade] at hr ⊢
        have hln := hex.ran (c := .ln target f.filePath) hop habs (asResult_ok (congrArg Prod.snd hr))
        obtain ⟨l, b, hloc, hfound⟩ := lnForce_found hln
        refine ⟨_, l, b, ?_, fun hc => (by cases hc), hloc, hfound⟩
        rintro parent' hparent
        cases hparent
        rw [← hsame]
        exact hex.made (isAbsolute_parentPath hp) hmade

/-! ## The local executor -/

theorem localExecutor_keeps : localExecutor.Keeps id where
  absent {fs path md} _ hm hmissing r hr := by
    have hm' : fileMetadata fs path = .ok md := mapError_ok hm
    rw [fileMetadata, hr] at hm'
    cases hm'
    cases hmissing
  link {fs path target} _ hlink := by
    have hread : readLink fs path = some target := Except.ok.inj hlink
    unfold readLink at hread
    split at hread
    · next l t u g hl =>
      cases hread
      exact ⟨l, t, u, g, hl, rfl⟩
    · cases hread
  exist _ h := localExecutor_truthful.exist h
  write {path content fs fs'} _ h := by
    have hw := localExecutor_truthful.write h
    unfold State.writeFile at hw
    split at hw
    · exact .inr hw
    · exact .inl hw
  command hc _ h hz := localExecutor_truthful.command hc h hz

theorem localExecutor_reads (d : Data) : localExecutor.Reads d := by
  intro fs path l a s hfile hread
  have hread' : readFile fs path = .ok s := mapError_ok hread
  rw [readFile, hfile] at hread'
  cases d with
  | text t => cases hread'; rfl
  | binary b => cases hread'

/-! ## The executor of an SSH session -/

/-- The last line of a text ended. -/
def withFinalNewline (text : String) : String :=
  if text = "" ∨ text.toList.getLast? = some '\n' then text else text ++ "\n"

theorem closed_eq (text : String) : String.ofList (Core.Ssh.closed text.toList) = withFinalNewline text := by
  unfold Core.Ssh.closed Core.Ssh.separator withFinalNewline
  by_cases hempty : text = ""
  · simp [hempty]
  · by_cases hlast : text.toList.getLast? = some '\n'
    · simp [hlast]
    · simp [hempty, hlast]

theorem runCommand_ok {s : SshSession} {r : SshRequest} {fs : Tree} {out : RemoteOutput} (h : (s.runCommand r fs).2 = .ok out) :
    ∃ o, (s.run r fs).2 = some o ∧ out = o.decode := by
  unfold SshSession.runCommand at h
  simp only at h
  split at h
  · next o ho =>
    cases h
    exact ⟨o, ho, rfl⟩
  · cases h

theorem code_of_exitCode {o : SshOutput} {n : Int} (hn : n ≠ -1) (h : o.decode.exitCode = n) : o.code = some n := by
  unfold SshOutput.decode at h
  cases hc : o.code with
  | none =>
    rw [hc] at h
    exact absurd h.symm hn
  | some m =>
    rw [hc] at h
    exact congrArg some h

theorem fileExists_parseStatFields {line : Chars} {md : FileMetadata} (h : parseStatFields line = some md) : md.fileExists = true := by
  unfold parseStatFields at h
  simp only [Option.bind_eq_bind, Option.bind_eq_some_iff, Option.some.injEq] at h
  obtain ⟨_, _, _, _, _, _, _, _, rfl⟩ := h
  rfl

/-- A marker at the start of what was printed is read as the marker. -/
theorem fileExists_parseMetadataProbe {line : Chars} {md : FileMetadata}
    (h : parseMetadataProbe ('E' :: '\n' :: line) = some md) : md.fileExists = true := by
  have hE : Text.isWhitespace 'E' = false := by decide
  -- The first line begins with the marker, whatever is trimmed behind it.
  have hmarker : (LineText.trim ((LineText.lines (LineText.trim ('E' :: '\n' :: line))).headD [])).head? = some 'E' := by
    have hhead := LineText.head_trim_cons hE ('\n' :: line)
    cases htrim : LineText.trim ('E' :: '\n' :: line) with
    | nil => rw [htrim] at hhead; cases hhead
    | cons c rest =>
      rw [htrim] at hhead
      obtain rfl : c = 'E' := Option.some.inj hhead
      by_cases hrest : rest = []
      · rw [hrest]
        decide
      · obtain ⟨l, hlines, hl⟩ := LineText.lines_prepend (s := rest) hE (by decide : '\n' ∉ ['E']) hrest
        have hcons : LineText.lines ('E' :: rest) = l :: (LineText.lines rest).tail := hlines
        rw [hcons]
        exact hl
  unfold parseMetadataProbe at h
  simp only at h
  split at h
  · exact fileExists_parseStatFields h
  · split at h
    · next hN =>
      rw [hN] at hmarker
      cases hmarker
    · cases h

theorem decode_stdout (o : SshOutput) : o.decode.stdout = (ofUtf8Lossy o.stdout).toList := rfl

/-- What the executor answers of an output that came back. -/
theorem bind_runCommand {α : Type} {s : SshSession} {r : SshRequest} {fs : Tree} {f : RemoteOutput → Except String α} {a : α}
    (h : (do let out ← (s.runCommand r fs).2; f out) = .ok a) :
    ∃ o, s.run r fs = ((s.run r fs).1, some o) ∧ f o.decode = .ok a := by
  cases hrun : (s.runCommand r fs).2 with
  | error e => rw [hrun] at h; cases h
  | ok out =>
    obtain ⟨o, ho, rfl⟩ := runCommand_ok hrun
    rw [hrun] at h
    exact ⟨o, by rw [← ho], h⟩

theorem answers_of_stat {fs : Tree} {path : String} {r : Loc × Node} (h : stat fs path = .ok r) : answers fs path = true := by
  rw [answers, h]

theorem sshExecutor_keeps {s : SshSession} (hs : s.Faithful) : (sshExecutor s).Keeps withFinalNewline where
  absent {fs path md} habs hm hmissing r hr := by
    obtain ⟨o, hrun, ho⟩ := bind_runCommand hm
    have hmd : parseMetadataProbe o.decode.stdout = some md := by
      split at ho
      · next md' hparse =>
        cases ho
        exact hparse
      · cases ho
    rcases hs.metadata (parse_metadataProbeCommand path.toList) habs hrun with hnone | ⟨line, hline⟩
    · have hnothing : parseMetadataProbe "".toList = none := by decide
      rw [decode_stdout, hnone, ← utf8_empty, ofUtf8Lossy_utf8, hnothing] at hmd
      cases hmd
    · rw [decode_stdout, hline, ofUtf8Lossy_utf8, answers_of_stat hr, if_pos rfl] at hmd
      have hmarked : parseMetadataProbe ('E' :: '\n' :: line.toList) = some md := by simpa using hmd
      have hexists := fileExists_parseMetadataProbe hmarked
      rw [hexists] at hmissing
      cases hmissing
  link {fs path target} habs hlink := by
    obtain ⟨o, hrun, ho⟩ := bind_runCommand hlink
    split at ho
    · next hzero =>
      obtain rfl := Option.some.inj (Except.ok.inj ho)
      obtain ⟨l, t, u, g, hl, hout⟩ := hs.readlink habs hrun (code_of_exitCode (by decide) hzero)
      refine ⟨l, t, u, g, hl, ?_⟩
      rw [SshOutput.decode, hout, ofUtf8Lossy_utf8]
      rfl
    · split at ho <;> cases ho
  exist {fs path} habs h := by
    obtain ⟨o, hrun, ho⟩ := bind_runCommand h
    have hyes : parsePathExistsProbe o.decode.stdout = some true := by
      split at ho
      · next b hparse =>
        cases ho
        exact hparse
      · cases ho
    unfold State.pathExists
    cases hstat : stat fs path with
    | ok r => rfl
    | error e =>
      have hnot : answers fs path = false := by rw [answers, hstat]
      rcases hs.test (parse_existsCommand path.toList) habs hrun with hout | hout
      · have hnothing : parsePathExistsProbe "".toList = none := by decide
        rw [decode_stdout, hout, ← utf8_empty, ofUtf8Lossy_utf8, hnothing] at hyes
        cases hyes
      · have hno : parsePathExistsProbe "no\n".toList = some false := by decide
        rw [decode_stdout, hout, ofUtf8Lossy_utf8, hnot, if_neg Bool.false_ne_true, hno] at hyes
        cases hyes
  write {path content fs fs'} habs h := by
    obtain ⟨rfl, hdone⟩ := Prod.mk.inj h
    cases hran : (s.runCommand (.raw (Core.Ssh.teeCommand path.toList content.toList)) fs).2 with
    | error e => rw [hran] at hdone; cases hdone
    | ok out =>
      obtain ⟨o, ho, rfl⟩ := runCommand_ok hran
      rw [hran] at hdone
      simp only [Except.bind] at hdone
      split at hdone
      · next hzero =>
        refine .inr ?_
        rw [← closed_eq]
        exact hs.tee (Core.Ssh.parse_teeCommand path.toList content.toList) habs (by rw [← ho]; rfl)
          (code_of_exitCode (by decide) hzero)
      · cases hdone
  command {c fs fs' out} hc habs h hz := by
    obtain ⟨rfl, hdone⟩ := Prod.mk.inj h
    cases hran : (s.runCommand (.command c.program c.args) fs).2 with
    | error e => rw [hran] at hdone; cases hdone
    | ok out' =>
      obtain ⟨o, ho, rfl⟩ := runCommand_ok hran
      rw [hran] at hdone
      cases hdone
      exact hs.command hc habs (by rw [← ho]; rfl) (code_of_exitCode (by decide) hz)

/-- Read over the session, a file whose bytes are UTF-8 is what it is. -/
theorem sshExecutor_reads {s : SshSession} (hs : s.Faithful) {d : Data} (hd : validUtf8 d.bytes = true) :
    (sshExecutor s).Reads d := by
  intro fs path l a content hfile hread
  have habs : isAbsolute path = true := isAbsolute_of_located hfile
  obtain ⟨o, hrun, ho⟩ := bind_runCommand hread
  split at ho
  · next hzero =>
    cases ho
    obtain ⟨l', d', a', hfile', hout⟩ := hs.cat (parse_catCommand path.toList) habs hrun (code_of_exitCode (by decide) hzero)
    rw [hfile] at hfile'
    cases hfile'
    rw [decode_stdout, hout, String.ofList_toList, utf8_ofUtf8Lossy hd]
  · cases ho

/-! ## Both of them -/

/-- Through the local executor every file's bytes are stored or the row is marked as not
read, and what is restored is what was stored; over an SSH session the first holds of every
file whose bytes are UTF-8, and a stored text comes back with its last line ended. Through
either, a link's target without blanks at its ends is stored as it is, and a target that is
no option is the one the restored link has, unless a directory stands at the path. What is
stored is a text, whatever the executor. -/
theorem capture_and_restore_exact {s : SshSession} (hs : s.Faithful) :
    ((∀ d, localExecutor.CapturesExactly d) ∧ localExecutor.RestoresExactly id) ∧
    ((∀ d, validUtf8 d.bytes = true → (sshExecutor s).CapturesExactly d) ∧ (sshExecutor s).RestoresExactly withFinalNewline) ∧
    (∀ ex, ex = localExecutor ∨ ex = sshExecutor s → ∀ target, (Text.trim target = target → ex.CapturesTarget target) ∧
      (target.toList.head? ≠ some '-' → ex.RestoresTarget target)) ∧
    ∀ (ex : Executor) (h : Host) (path : String) (policy : ContentPolicy) (row : FileState) (content : Bytes),
      (captureSingleFileOver ex path policy h).1 = .ok row → row.fileContent = some content → ∃ text, content = utf8 text := by
  have hlocal := localExecutor_keeps
  have hssh := sshExecutor_keeps hs
  refine ⟨⟨fun d => hlocal.captures (localExecutor_reads d), hlocal.restores⟩,
    ⟨fun d hd => hssh.captures (sshExecutor_reads hs hd), hssh.restores⟩, ?_, ?_⟩
  · intro ex hex target
    rcases hex with rfl | rfl
    · exact ⟨hlocal.capturesTarget, hlocal.restoresTarget⟩
    · exact ⟨hssh.capturesTarget, hssh.restoresTarget⟩
  · intro ex h path policy row content hrow hstored
    exact utf8_of_stored hrow hstored

/-! ## A host that does what it is asked -/

def SshOutput.exited (code : Int) (stdout : Bytes) : SshOutput := ⟨stdout, [], some code⟩

/-- `%F %a %s %u %g` -/
def statText (n : Node) : String :=
  let size := match n with
    | .file d _ => d.bytes.length
    | _ => 4096
  let perm := match n with
    | .file _ a => a.perm
    | .dir a => a.perm
    | .link _ _ _ => 0o777
  String.ofList ((if n.isDir then "directory " else "regular file ").toList ++ Nat.toDigits 8 perm.toNat ++ ' ' :: LineText.decimal size ++
    ' ' :: LineText.decimal n.uid.toNat ++ ' ' :: LineText.decimal n.gid.toNat ++ ['\n'])

/-- The four texts, told apart by how many commands and words they have. -/
def plainShell (fs : Tree) : List Shell.Pipeline → Tree × Option SshOutput
  | [⟨[⟨[_, path], []⟩], _⟩] =>
    match stat fs (String.ofList (Shell.text path)) with
    | .ok (_, .file d _) => (fs, some (.exited 0 d.bytes))
    | _ => (fs, some (.exited 1 []))
  | [⟨[⟨[_, _, path], [_, .here _ stdin]⟩], _⟩] =>
    match writeThrough (String.ofList (Shell.text path)) (String.ofList stdin) fs with
    | .ok fs' => (fs', some (.exited 0 []))
    | .error _ => (fs, some (.exited 1 []))
  | [⟨[⟨[_, _, path], []⟩], _⟩, _, _] =>
    (fs, some (.exited 0 (utf8 (if answers fs (String.ofList (Shell.text path)) then "yes\n" else "no\n"))))
  | [⟨[⟨[_, _, path], []⟩], _⟩, _, _, _, _] =>
    let answer := match stat fs (String.ofList (Shell.text path)) with
      | .ok (_, n) => statText n
      | .error _ => ""
    (fs, some (.exited 0 (utf8 ((if answers fs (String.ofList (Shell.text path)) then "E\n" else "N\n") ++ answer))))
  | _ => (fs, none)

/-- The programs beside the shell: of `chmod` and its like only the given commands. -/
def plainProgram (commands : List Command) (fs : Tree) (program : String) (args : List String) : Tree × Option SshOutput :=
  match commands.find? fun c => c.program == program && c.args == args with
  | some c =>
    match c.run fs with
    | .ok fs' => (fs', some (.exited 0 []))
    | .error _ => (fs, some (.exited 1 []))
  | none =>
    match program, args with
    | "readlink", [_, _, path] =>
      match lstat fs path with
      | .ok (_, .link target _ _) => (fs, some (.exited 0 (utf8 target)))
      | _ => (fs, some (.exited 1 []))
    | "sh", [_, _, _, path, _] =>
      match linkTargetAsWriter fs path with
      | .ok none => (fs, some (.exited 0 (utf8 "NOTLINK")))
      | .ok (some target) => (fs, some (.exited 0 (utf8 ("LINK " ++ target))))
      | .error _ => (fs, some (.exited 0 (utf8 "UNDETERMINED")))
    | _, _ => (fs, none)

def plainSession (commands : List Command) : SshSession where
  run r fs :=
    match r with
    | .raw text =>
      match Shell.parse text with
      | some pipelines => plainShell fs pipelines
      | none => (fs, none)
    | .command program args => plainProgram commands fs program args

theorem octal_injective {n m : Nat} (h : Nat.toDigits 8 n = Nat.toDigits 8 m) : n = m := by
  have hback := congrArg (fun ds => Nat.ofDigitChars 8 ds 0) h
  simpa only [Nat.ofDigitChars_toDigits (b := 8) (by decide) (by decide)] using hback

/-- The owner and group are told apart by the colon, which is no digit. -/
theorem owner_injective {u g u' g' : Nat}
    (h : LineText.decimal u ++ ':' :: LineText.decimal g = LineText.decimal u' ++ ':' :: LineText.decimal g') :
    u = u' ∧ g = g' := by
  have hcolon : ∀ n, ':' ∉ LineText.decimal n := by
    intro n hmem
    have hdigit := LineText.isDigit_decimal hmem
    revert hdigit
    decide
  have hcut := congrArg (LineText.splitOnce ':') h
  rw [LineText.splitOnce_append (hcolon u), LineText.splitOnce_append (hcolon u')] at hcut
  obtain ⟨hu, hg⟩ := Prod.mk.inj (Option.some.inj hcut)
  exact ⟨LineText.decimal_injective hu, LineText.decimal_injective hg⟩

/-- A command is known by its program and arguments. -/
theorem args_injective {c c' : Command} (hp : c.program = c'.program) (ha : c.args = c'.args) : c = c' := by
  cases c <;> cases c' <;>
    simp only [Command.program, Command.args, List.cons.injEq, String.ofList_inj, String.reduceEq, and_true, true_and] at hp ha
  case chmod.chmod mode path mode' path' =>
    rw [UInt32.toNat_inj.mp (octal_injective ha.1), ha.2]
  case chown.chown uid gid path uid' gid' path' =>
    obtain ⟨hu, hg⟩ := owner_injective ha.1
    rw [UInt32.toNat_inj.mp hu, UInt32.toNat_inj.mp hg, ha.2]
  case ln.ln target path target' path' => rw [ha.1, ha.2]
  case mkdir.mkdir dir dir' => rw [ha]
  case rm.rm path path' => rw [ha]

theorem text_quoted (cs : Chars) : Shell.text (Shell.quoted cs) = cs := by
  simp [Shell.text, Shell.quoted, Function.comp_def]

theorem plainSession_raw {commands : List Command} {text : Chars} {pipelines : List Shell.Pipeline} (h : Shell.parse text = some pipelines)
    (fs : Tree) : (plainSession commands).run (.raw text) fs = plainShell fs pipelines := by
  simp only [plainSession, h]

theorem plainSession_faithful (commands : List Command) : (plainSession commands).Faithful where
  cat {text path fs fs' out} hparse habs hrun hcode := by
    rw [plainSession_raw hparse] at hrun
    simp only [catPipelines, simple, plainShell, text_quoted, String.ofList_toList] at hrun
    split at hrun
    · next l d a hfile =>
      cases hrun
      exact ⟨l, d, a, hfile, rfl⟩
    · cases hrun
      cases hcode
  tee {text stdin path fs fs' out} hparse habs hrun hcode := by
    rw [plainSession_raw hparse] at hrun
    simp only [Core.Ssh.teePipeline, plainShell, text_quoted, String.ofList_toList] at hrun
    split at hrun
    · next fs'' hwrite =>
      cases hrun
      exact hwrite
    · cases hrun
      cases hcode
  test {text path fs fs' out} hparse habs hrun := by
    rw [plainSession_raw hparse] at hrun
    simp only [existsPipelines, simple, plainShell, text_quoted, String.ofList_toList] at hrun
    cases hrun
    exact .inr rfl
  metadata {text path fs fs' out} hparse habs hrun := by
    rw [plainSession_raw hparse] at hrun
    simp only [metadataPipelines, simple, plainShell, text_quoted, String.ofList_toList] at hrun
    cases hrun
    exact .inr ⟨_, rfl⟩
  readlink {path fs fs' out} habs hrun hcode := by
    have hnone : commands.find? (fun c => c.program == "readlink" && c.args == ["-n", "--", path]) = none := by
      refine List.find?_eq_none.mpr fun c _ => ?_
      cases c <;> simp [Command.program]
    simp only [plainSession, plainProgram, hnone] at hrun
    split at hrun
    · next l target u g hlink =>
      cases hrun
      exact ⟨l, target, u, g, hlink, rfl⟩
    · cases hrun
      cases hcode
  command {c fs fs' out} hc habs hrun hcode := by
    simp only [plainSession, plainProgram] at hrun
    split at hrun
    · next c' hfind =>
      have hsame := List.find?_some hfind
      simp only [Bool.and_eq_true, beq_iff_eq] at hsame
      obtain rfl := args_injective hsame.1 hsame.2
      split at hrun
      · next fs'' hran =>
        cases hrun
        exact hran
      · cases hrun
        cases hcode
    · cases c <;> cases hrun

/-! ## One host, one file -/

/-- `/etc/motd`, on a host that can set its bits and owner. -/
def motdHost (n : Node) : Host := ⟨etcWith ⟨"motd", by decide⟩ n, []⟩

def motdFile (data : Data) : Node := .file data ⟨0o644, 0, 0⟩

def motdSession : SshSession := plainSession [.chmod 0o644 "/etc/motd", .chown 0 0 "/etc/motd"]

def motdRow (text : String) : FileState := ⟨"/etc/motd", some (utf8 text), 0o100644, 0, 0, none, none⟩

/-- A greeting is captured over the session, and comes back over an empty file. -/
theorem capture_and_restore_exact_motd :
    (captureSingleFileOver (sshExecutor motdSession) "/etc/motd" .required (motdHost (motdFile (.text "Hello!\n")))).1 =
      .ok (motdRow "Hello!\n") ∧
    (motdRow "Hello!\n").fileContent = some (Data.bytes (.text "Hello!\n")) ∧
    ∃ l a, stat (restoreFileStateTracked (sshExecutor motdSession) ["/etc/motd"] (motdRow "Hello!\n")
      (motdHost (motdFile (.text "")))).2.fs "/etc/motd" = .ok (l, .file (.text (withFinalNewline "Hello!\n")) a) := by
  have hfile : stat (motdHost (motdFile (.text "Hello!\n"))).fs "/etc/motd" =
      .ok ([⟨"etc", by decide⟩, ⟨"motd", by decide⟩], motdFile (.text "Hello!\n")) := by decide +kernel
  have hcapture : (captureSingleFileOver (sshExecutor motdSession) "/etc/motd" .required
      (motdHost (motdFile (.text "Hello!\n")))).1 = .ok (motdRow "Hello!\n") := by decide +kernel
  have hrestore : (restoreFileStateTracked (sshExecutor motdSession) ["/etc/motd"] (motdRow "Hello!\n")
      (motdHost (motdFile (.text "")))).1 = (.restored, .ok ()) := by decide +kernel
  obtain ⟨_, ⟨hcaptures, hrestores⟩, _⟩ := capture_and_restore_exact (s := motdSession) (plainSession_faithful _)
  refine ⟨hcapture, ?_, hrestores _ _ _ _ rfl rfl hrestore⟩
  rcases hcaptures (.text "Hello!\n") (validUtf8_utf8 _) _ _ _ _ _ _ hfile hcapture rfl with hstored | ⟨hnone, _⟩
  · exact hstored
  · cases hnone

/-- What is not exact: over a session a text whose last line is open comes back with it ended,
and a byte that is no UTF-8 is stored as another character; a blank at the end of a link's
target is dropped; and a link is made inside a directory that stands at its path. -/
theorem capture_and_restore_inexact :
    motdSession.Faithful ∧ ¬ (sshExecutor motdSession).RestoresExactly id ∧
    ¬ (sshExecutor motdSession).CapturesExactly (.binary [0xFF]) ∧ ¬ localExecutor.CapturesTarget "a " ∧
    ∃ h : Host, (restoreFileStateTracked localExecutor ["/etc/motd"] ⟨"/etc/motd", none, 0o120777, 0, 0, some "a", none⟩ h).1 =
        (.restored, .ok ()) ∧
      lstat (restoreFileStateTracked localExecutor ["/etc/motd"] ⟨"/etc/motd", none, 0o120777, 0, 0, some "a", none⟩ h).2.fs "/etc/motd" =
        .ok ([⟨"etc", by decide⟩, ⟨"motd", by decide⟩], .dir ⟨0o755, 0, 0⟩) := by
  refine ⟨plainSession_faithful _, ?_, ?_, ?_, motdHost (.dir ⟨0o755, 0, 0⟩), by decide +kernel, by decide +kernel⟩
  · intro hexact
    have hrestore : (restoreFileStateTracked (sshExecutor motdSession) ["/etc/motd"] (motdRow "Hello!")
        (motdHost (motdFile (.text "")))).1 = (.restored, .ok ()) := by decide +kernel
    obtain ⟨l, a, hleft⟩ := hexact _ _ _ _ rfl rfl hrestore
    have hread : readFile (restoreFileStateTracked (sshExecutor motdSession) ["/etc/motd"] (motdRow "Hello!")
        (motdHost (motdFile (.text "")))).2.fs "/etc/motd" = .ok "Hello!\n" := by decide +kernel
    have hpath : (motdRow "Hello!").filePath = "/etc/motd" := rfl
    rw [hpath] at hleft
    rw [readFile, hleft] at hread
    have hsame : "Hello!" = "Hello!\n" := Except.ok.inj hread
    revert hsame
    decide
  · intro hexact
    have hfile : stat (motdHost (motdFile (.binary [0xFF]))).fs "/etc/motd" =
        .ok ([⟨"etc", by decide⟩, ⟨"motd", by decide⟩], motdFile (.binary [0xFF])) := by decide +kernel
    have hcapture : (captureSingleFileOver (sshExecutor motdSession) "/etc/motd" .required
        (motdHost (motdFile (.binary [0xFF])))).1 = .ok (motdRow "\uFFFD") := by decide +kernel
    rcases hexact _ _ _ _ _ _ hfile hcapture rfl with hstored | ⟨hnone, _⟩
    · revert hstored
      decide
    · cases hnone
  · intro hexact
    let fs : Tree := ⟨⟨0o755, 0, 0⟩, [([⟨"etc", by decide⟩], .dir ⟨0o755, 0, 0⟩),
      ([⟨"etc", by decide⟩, ⟨"a ", by decide⟩], motdFile (.text "")),
      ([⟨"etc", by decide⟩, ⟨"motd", by decide⟩], .link "a " 0 0)]⟩
    have hlink : lstat fs "/etc/motd" = .ok ([⟨"etc", by decide⟩, ⟨"motd", by decide⟩], .link "a " 0 0) := by decide +kernel
    have hcapture : (captureSingleFileOver localExecutor "/etc/motd" .required ⟨fs, []⟩).1 =
        .ok ⟨"/etc/motd", none, symlinkMode, 0, 0, some "a", none⟩ := by decide +kernel
    rcases hexact ⟨fs, []⟩ _ _ _ _ _ _ hlink hcapture with hnone | hstored
    · cases hnone
    · revert hstored
      decide

end LinuxHardener.State
