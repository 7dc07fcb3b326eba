import LinuxHardener.State.RestoreRun

/-
  What a rollback asks of the executor, row by row.

  What is proved:
    1. `restoreFileStateTracked_asked`, `snapshotEntry_asked` — for a row, nothing is
       asked but what `Asks` lists, whatever the executor answers.
    2. `sortTargets_admitted` — the rows that go on to be read and written are those
       the refusal lets pass on the host as it stands before the rollback.
-/
namespace LinuxHardener.State

open FileTree

/-- A row that says nothing stood at its path. -/
def SaysAbsent (f : FileState) : Prop := f.fileLinkTarget = none ∧ recordedAbsent f = true

/-- What may be asked for a row. -/
inductive Asks (f : FileState) : Call → Prop where
  | metadata : Asks f (.metadata f.filePath)
  | pathExists : Asks f (.pathExists f.filePath)
  | readFile : Asks f (.readFile f.filePath)
  | readLink : Asks f (.readLink f.filePath)
  | linkProbe : Asks f (.linkProbe f.filePath)
  | parentExists {parent : String} (ht : f.fileLinkTarget.isSome = true) (hp : parentPath f.filePath = some parent) :
      Asks f (.pathExists parent)
  | mkdirParent {parent : String} (ht : f.fileLinkTarget.isSome = true) (hp : parentPath f.filePath = some parent) :
      Asks f (.command (.mkdir parent))
  | ln {target : String} (ht : f.fileLinkTarget = some target) : Asks f (.command (.ln target f.filePath))
  | rm (habs : SaysAbsent f) (hu : f.filePath ∉ undeletableRollbackPaths) : Asks f (.command (.rm f.filePath))
  | mkdir (ht : f.fileLinkTarget = none) (habs : recordedAbsent f = false) : Asks f (.command (.mkdir f.filePath))
  | writeFile (ht : f.fileLinkTarget = none) (habs : recordedAbsent f = false) (hc : f.fileContent.isSome = true) :
      Asks f (.writeFile f.filePath)
  | chmod (ht : f.fileLinkTarget = none) (habs : recordedAbsent f = false) :
      Asks f (.command (.chmod f.restoreMode f.filePath))
  | chown (ht : f.fileLinkTarget = none) (habs : recordedAbsent f = false) :
      Asks f (.command (.chown f.fileOwnerUid f.fileOwnerGid f.filePath))

/-! ## Calls, appended -/

/-- The calls made in between are all of a kind. -/
def Asked (P : Call → Prop) (h h' : Host) : Prop := ∃ cs, h'.calls = h.calls ++ cs ∧ ∀ c ∈ cs, P c

section

variable {P Q : Call → Prop} {h h' h'' : Host}

theorem Asked.refl (P : Call → Prop) (h : Host) : Asked P h h := ⟨[], by simp, by simp⟩

theorem Asked.trans (h1 : Asked P h h') (h2 : Asked P h' h'') : Asked P h h'' := by
  obtain ⟨cs, he, hcs⟩ := h1
  obtain ⟨cs', he', hcs'⟩ := h2
  refine ⟨cs ++ cs', by rw [he', he, List.append_assoc], fun c hc => ?_⟩
  rcases List.mem_append.mp hc with hc | hc
  · exact hcs c hc
  · exact hcs' c hc

theorem Asked.one {c : Call} (hc : P c) (he : h'.calls = h.calls ++ [c]) : Asked P h h' :=
  ⟨[c], he, fun _ hc' => List.mem_singleton.mp hc' ▸ hc⟩

theorem Asked.mono (hPQ : ∀ c, P c → Q c) (h1 : Asked P h h') : Asked Q h h' := by
  obtain ⟨cs, he, hcs⟩ := h1
  exact ⟨cs, he, fun c hc => hPQ c (hcs c hc)⟩

theorem asked_ask {c : Call} (hc : P c) (h : Host) : Asked P h (h.ask c) := Asked.one hc rfl

end

section

variable {P : Call → Prop} (ex : Executor)

theorem restoreCommandRefusal_asked {c : Command} (hc : P (.command c)) (h : Host) :
    Asked P h (restoreCommandRefusal ex c h).2 := Asked.one hc rfl

theorem ensureDirectory_asked {dir : String} (hx : P (.pathExists dir)) (hm : P (.command (.mkdir dir))) (h : Host) :
    Asked P h (ensureDirectory ex dir h).2 := by
  unfold ensureDirectory
  split
  · exact asked_ask hx h
  · exact (asked_ask hx h).trans (restoreCommandRefusal_asked ex hm _)

/-! ## The refusal -/

theorem rollbackTargetRefusal_asked (allowed : List String) (f : FileState) (h : Host) :
    Asked (· = .linkProbe f.filePath) h (rollbackTargetRefusal ex allowed f h).2 := by
  have hprobe : Asked (· = .linkProbe f.filePath) h (h.ask (.linkProbe f.filePath)) := Asked.one rfl rfl
  unfold rollbackTargetRefusal
  split
  · exact Asked.refl _ h
  · split
    · exact Asked.refl _ h
    · split
      · exact Asked.refl _ h
      · split
        · exact hprobe
        · split <;> exact hprobe
        · exact hprobe

/-- Whether a row is refused depends on the tree alone. -/
theorem rollbackTargetRefusal_congr (allowed : List String) (f : FileState) {h h' : Host} (hfs : h.fs = h'.fs) :
    (rollbackTargetRefusal ex allowed f h).1 = (rollbackTargetRefusal ex allowed f h').1 := by
  unfold rollbackTargetRefusal
  rw [hfs]
  split
  · rfl
  · split
    · rfl
    · split
      · rfl
      · split
        · rfl
        · split <;> rfl
        · rfl

/-- What a row that is not refused has passed. -/
theorem rollbackTargetRefusal_none {allowed : List String} {f : FileState} {h : Host}
    (hr : (rollbackTargetRefusal ex allowed f h).1 = none) :
    outsideAllowed allowed f.filePath = false ∧
      (f.fileLinkTarget = none → recordedAbsent f = false →
        ex.linkTargetAsWriter h.fs f.filePath = .ok none ∨
        ∃ resolved, ex.linkTargetAsWriter h.fs f.filePath = .ok (some resolved) ∧ within allowed resolved = true) := by
  unfold rollbackTargetRefusal at hr
  split at hr
  · cases hr
  · next hout =>
    refine ⟨by simpa using hout, fun ht habs => ?_⟩
    rw [ht, habs] at hr
    simp only [Option.isSome_none, Bool.false_eq_true, if_false] at hr
    split at hr
    · next hprobe => exact .inl hprobe
    · next resolved hprobe =>
      split at hr
      · next hin => exact .inr ⟨resolved, hprobe, hin⟩
      · cases hr
    · cases hr

/-- The rows that may be restored are those the refusal lets pass, on the host as it is. -/
theorem sortTargets_admitted (allowed : List String) (rows : List FileState) (h h0 : Host) (hfs : h.fs = h0.fs) :
    (sortTargets ex allowed rows h).1.1 =
      rows.filter (fun f => (rollbackTargetRefusal ex allowed f h0).1.isNone) := by
  induction rows generalizing h with
  | nil => rfl
  | cons f rows ih =>
    have hfs' : (rollbackTargetRefusal ex allowed f h).2.fs = h0.fs := by rw [rollbackTargetRefusal_fs, hfs]
    rw [sortTargets, List.filter_cons, ← rollbackTargetRefusal_congr ex allowed f hfs]
    split
    · next reason hr => rw [hr, ih _ hfs']; rfl
    · next hr => rw [hr, ih _ hfs']; rfl

theorem sortTargets_asked (allowed : List String) (rows : List FileState) (h : Host) :
    Asked (fun c => ∃ f ∈ rows, c = .linkProbe f.filePath) h (sortTargets ex allowed rows h).2 := by
  induction rows generalizing h with
  | nil => exact Asked.refl _ h
  | cons f rows ih =>
    have hf := (rollbackTargetRefusal_asked ex allowed f h).mono
      (fun c hc => (⟨f, by simp, hc⟩ : ∃ g ∈ f :: rows, c = .linkProbe g.filePath))
    have hrest : Asked (fun c => ∃ g ∈ f :: rows, c = .linkProbe g.filePath) _ _ :=
      (ih (rollbackTargetRefusal ex allowed f h).2).mono (by rintro c ⟨g, hg, hc⟩; exact ⟨g, by simp [hg], hc⟩)
    rw [sortTargets]
    split <;> exact hf.trans hrest

/-! ## The restore of a row -/

theorem restoreLink_asked {f : FileState} {target : String} (ht : f.fileLinkTarget = some target) (h : Host) :
    Asked (Asks f) h (restoreLink ex target f.filePath h).2 := by
  have hlink : f.fileLinkTarget.isSome = true := by rw [ht]; rfl
  have hln : ∀ h' : Host, Asked (Asks f) h' (restoreCommandRefusal ex (.ln target f.filePath) h').2 :=
    restoreCommandRefusal_asked ex (.ln ht)
  unfold restoreLink
  cases hp : parentPath f.filePath with
  | none => exact hln h
  | some parent =>
    have hmade : Asked (Asks f) h (ensureDirectory ex parent h).2 :=
      ensureDirectory_asked ex (.parentExists hlink hp) (.mkdirParent hlink hp) h
    simp only
    split
    · exact hmade
    · exact hmade.trans (hln _)

theorem removeOrRefuse_asked {f : FileState} (habs : SaysAbsent f) (h : Host) :
    Asked (Asks f) h (removeOrRefuse ex f.filePath h).2 := by
  unfold removeOrRefuse
  split
  · next hu => exact restoreCommandRefusal_asked ex (.rm habs hu) h
  · split <;> exact asked_ask .pathExists h

theorem restoreInPlace_asked {f : FileState} (ht : f.fileLinkTarget = none) (habs : recordedAbsent f = false)
    (h : Host) : Asked (Asks f) h (restoreInPlace ex f h).2 := by
  have hdir : Asked (Asks f) h (restoreDirectory ex f h).2 := by
    unfold restoreDirectory
    split
    · exact ensureDirectory_asked ex .pathExists (.mkdir ht habs) h
    · exact Asked.refl _ h
  have hwrite : ∀ h', Asked (Asks f) h' (restoreContent ex f h').2 := by
    intro h'
    unfold restoreContent
    cases hc : f.fileContent with
    | none => exact Asked.refl _ h'
    | some content =>
      simp only
      split <;> exact Asked.one (.writeFile ht habs (by rw [hc]; rfl)) rfl
  unfold restoreInPlace
  simp only
  split
  · exact hdir
  · split
    · exact hdir.trans (hwrite _)
    · exact (hdir.trans (hwrite _)).trans ((restoreCommandRefusal_asked ex (.chmod ht habs) _).trans
        (restoreCommandRefusal_asked ex (.chown ht habs) _))

/-- For a row, its restore asks nothing else; a row refused, nothing but the probe. -/
theorem restoreFileStateTracked_asked (allowed : List String) (f : FileState) (h : Host) :
    Asked (Asks f) h (restoreFileStateTracked ex allowed f h).2 := by
  have hprobe := (rollbackTargetRefusal_asked ex allowed f h).mono
    (fun c (hc : c = .linkProbe f.filePath) => (hc ▸ Asks.linkProbe : Asks f c))
  unfold restoreFileStateTracked
  simp only
  split
  · exact hprobe
  · cases ht : f.fileLinkTarget with
    | some target => exact hprobe.trans (restoreLink_asked ex ht _)
    | none =>
      simp only
      split
      · next habs => exact hprobe.trans (removeOrRefuse_asked ex ⟨ht, habs⟩ _)
      · next habs => exact hprobe.trans (restoreInPlace_asked ex ht (by simpa using habs) _)

theorem restoreFileStateTracked_refused {allowed : List String} {f : FileState} {h : Host} {reason : String}
    (hr : (rollbackTargetRefusal ex allowed f h).1 = some reason) :
    (restoreFileStateTracked ex allowed f h).2 = (rollbackTargetRefusal ex allowed f h).2 := by
  unfold restoreFileStateTracked
  simp only [hr]

theorem restoreEach_asked (allowed : List String) (rows : List FileState) (h : Host) :
    Asked (fun c => ∃ f ∈ rows, Asks f c) h (restoreEach ex allowed rows h).2 := by
  induction rows generalizing h with
  | nil => exact Asked.refl _ h
  | cons f rows ih =>
    rw [restoreEach]
    exact ((restoreFileStateTracked_asked ex allowed f h).mono (fun c hc => ⟨f, by simp, hc⟩)).trans
      ((ih _).mono (by rintro c ⟨g, hg, hc⟩; exact ⟨g, by simp [hg], hc⟩))

/-! ## The snapshot -/

theorem captureEntry_asked (f : FileState) (h : Host) : Asked (Asks f) h (captureEntry ex f.filePath h).2 := by
  unfold captureEntry
  split
  · exact asked_ask .metadata h
  · split
    · exact asked_ask .metadata h
    · simp only
      split <;> exact (asked_ask .metadata h).trans (asked_ask .readLink _)

theorem snapshotEntry_asked (f : FileState) (h : Host) : Asked (Asks f) h (snapshotEntry ex f h).2 := by
  have hread : Asked (Asks f) h ((h.ask (.metadata f.filePath)).ask (.readFile f.filePath)) :=
    (asked_ask .metadata h).trans (asked_ask .readFile _)
  unfold snapshotEntry
  simp only
  split
  · split
    · exact asked_ask .metadata h
    · split
      · split
        · exact hread
        · split <;> exact hread.trans (asked_ask .readLink _)
      · exact (asked_ask .metadata h).trans (captureEntry_asked ex f _)
  · exact captureEntry_asked ex f h

theorem snapshotCurrentState_asked (rows : List FileState) (h : Host) :
    Asked (fun c => ∃ f ∈ rows, Asks f c) h (snapshotCurrentState ex rows h).2 := by
  induction rows generalizing h with
  | nil => exact Asked.refl _ h
  | cons f rows ih =>
    have hf := (snapshotEntry_asked ex f h).mono
      (fun c hc => (⟨f, by simp, hc⟩ : ∃ g ∈ f :: rows, Asks g c))
    rw [snapshotCurrentState]
    simp only
    split
    · exact hf
    · exact hf.trans ((ih _).mono (by rintro c ⟨g, hg, hc⟩; exact ⟨g, by simp [hg], hc⟩))

end

end LinuxHardener.State
