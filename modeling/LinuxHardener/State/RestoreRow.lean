import LinuxHardener.Lib.PlainPath
import LinuxHardener.State.Rollback

/-
  What the restore of one row does to the tree.

  What is proved:
    1. `restore_ok` — a restore that reports success has had its documented effect
       (`RestoreEffect`), whatever the executor.
    2. `mkdirParents_plain` — below no link, `mkdir -p` adds new directories on the
       way and changes nothing else.
    3. `RestoreEffect.restored` — below no link, the row's location then holds
       `restored`, and elsewhere only directories on the way are new.
-/
namespace LinuxHardener.State

open FileTree

/-! ## From what is reported to what is done -/

theorem commandRefusal_none {c : Command} {r : Except String CommandOutput} (h : commandRefusal c r = none) :
    ∃ out, r = .ok out ∧ out.exitCode = 0 := by
  unfold commandRefusal at h
  cases r with
  | error e => cases h
  | ok out =>
    simp only at h
    split at h
    · next hz => exact ⟨out, rfl, hz⟩
    · split at h <;> cases h

theorem restoreCommandRefusal_none {ex : Executor} (hex : ex.Truthful) {c : Command} (hc : c.Operands) {h : Host}
    (hr : (restoreCommandRefusal ex c h).1 = none) : c.run h.fs = .ok (restoreCommandRefusal ex c h).2.fs := by
  obtain ⟨out, hout, hz⟩ := commandRefusal_none hr
  have he : ex.executeCommand c h.fs = ((ex.executeCommand c h.fs).1, .ok out) := by rw [← hout]
  exact hex.command hc he hz

/-- A directory is there, or has been made. -/
def Made (dir : String) (fs fs' : Tree) : Prop :=
  (fs' = fs ∧ pathExists fs dir = .ok true) ∨ mkdirParents dir fs = .ok fs'

theorem ensureDirectory_none {ex : Executor} (hex : ex.Truthful) {dir : String} {h : Host}
    (hr : (ensureDirectory ex dir h).1 = none) : Made dir h.fs (ensureDirectory ex dir h).2.fs := by
  unfold ensureDirectory at hr ⊢
  split at hr
  · next hx => exact .inl ⟨rfl, hex.exist hx⟩
  · refine .inr ?_
    exact restoreCommandRefusal_none hex (c := .mkdir dir) trivial hr

/-- The documented effect of restoring a row. -/
inductive RestoreEffect (f : FileState) (fs fs' : Tree) : Prop where
  | link (target : String) (mid : Tree) (ht : f.fileLinkTarget = some target)
      (hmade : ∀ parent, parentPath f.filePath = some parent → Made parent fs mid)
      (hroot : parentPath f.filePath = none → mid = fs)
      (hln : lnForce target f.filePath mid = .ok fs')
  | kept (ht : f.fileLinkTarget = none) (habs : recordedAbsent f = true)
      (hu : f.filePath ∈ undeletableRollbackPaths) (hx : pathExists fs f.filePath = .ok false) (hfs : fs' = fs)
  | removed (ht : f.fileLinkTarget = none) (habs : recordedAbsent f = true)
      (hu : f.filePath ∉ undeletableRollbackPaths) (hrm : rmForce f.filePath fs = .ok fs')
  | inPlace (made wrote moded : Tree) (ht : f.fileLinkTarget = none) (habs : recordedAbsent f = false)
      (hread : f.fileContentAbsence ≠ some .readFailed)
      (hdir : if f.filePermissions &&& fileTypeMask = directoryTypeBits then Made f.filePath fs made else made = fs)
      (hwrite : match f.fileContent with
        | none => wrote = made
        | some content => writeFile f.filePath (ofUtf8Lossy content) made = .ok wrote)
      (hmode : (Command.chmod f.restoreMode f.filePath).run wrote = .ok moded)
      (hown : (Command.chown f.fileOwnerUid f.fileOwnerGid f.filePath).run moded = .ok fs')

theorem asResult_ok {r : Option String} (h : asResult r = .ok ()) : r = none := by
  cases r with
  | none => rfl
  | some e => cases h

theorem restoreLink_ok {ex : Executor} (hex : ex.Truthful) {f : FileState} {target : String}
    (ht : f.fileLinkTarget = some target) (hop : target.toList.head? ≠ some '-') {h : Host}
    (hr : (restoreLink ex target f.filePath h).1.2 = .ok ()) :
    RestoreEffect f h.fs (restoreLink ex target f.filePath h).2.fs := by
  unfold restoreLink at hr ⊢
  cases hp : parentPath f.filePath with
  | none =>
    simp only [hp] at hr ⊢
    have hnone := asResult_ok hr
    refine .link target h.fs ht ?_ (fun _ => rfl) ?_
    · intro parent hparent
      rw [hp] at hparent
      cases hparent
    · exact restoreCommandRefusal_none hex (c := .ln target f.filePath) hop hnone
  | some parent =>
    simp only [hp] at hr ⊢
    split at hr
    · cases hr
    · next hmade =>
      have hnone := asResult_ok hr
      refine .link target (ensureDirectory ex parent h).2.fs ht ?_ ?_ ?_
      · intro parent' hparent
        rw [hp] at hparent
        cases hparent
        exact ensureDirectory_none hex hmade
      · intro hc
        rw [hp] at hc
        cases hc
      · simp only [hmade]
        exact restoreCommandRefusal_none hex (c := .ln target f.filePath) hop hnone

theorem removeOrRefuse_ok {ex : Executor} (hex : ex.Truthful) {f : FileState} (ht : f.fileLinkTarget = none)
    (habs : recordedAbsent f = true) {h : Host} (hr : (removeOrRefuse ex f.filePath h).1.2 = .ok ()) :
    RestoreEffect f h.fs (removeOrRefuse ex f.filePath h).2.fs := by
  unfold removeOrRefuse at hr ⊢
  split at hr
  · next hu =>
    rw [if_pos hu]
    have hnone := asResult_ok hr
    exact .removed ht habs hu (restoreCommandRefusal_none hex (c := .rm f.filePath) trivial hnone)
  · next hu =>
    rw [if_neg hu]
    cases hx : ex.pathExists h.fs f.filePath with
    | error e => rw [hx] at hr; cases hr
    | ok b =>
      rw [hx] at hr
      cases b with
      | true => cases hr
      | false => exact .kept ht habs (not_not.mp hu) (hex.exist hx) rfl

theorem metaResult_ok {f : FileState} {a b : Option String} (h : metaResult f a b = .ok ()) :
    a = none ∧ b = none ∧ f.fileContentAbsence ≠ some .readFailed := by
  unfold metaResult at h
  split at h
  · cases h
  · cases h
  · split at h
    · cases h
    · next hread => exact ⟨rfl, rfl, hread⟩

theorem restoreDirectory_none {ex : Executor} (hex : ex.Truthful) {f : FileState} {h : Host}
    (hr : (restoreDirectory ex f h).1 = none) :
    if f.filePermissions &&& fileTypeMask = directoryTypeBits then Made f.filePath h.fs (restoreDirectory ex f h).2.fs
    else (restoreDirectory ex f h).2.fs = h.fs := by
  unfold restoreDirectory at hr ⊢
  split at hr
  · next hd =>
    rw [if_pos hd, if_pos hd]
    exact ensureDirectory_none hex hr
  · next hd => rw [if_neg hd, if_neg hd]

theorem restoreContent_none {ex : Executor} (hex : ex.Truthful) {f : FileState} {h : Host}
    (hr : (restoreContent ex f h).1 = none) :
    match f.fileContent with
    | none => (restoreContent ex f h).2.fs = h.fs
    | some content => writeFile f.filePath (ofUtf8Lossy content) h.fs = .ok (restoreContent ex f h).2.fs := by
  unfold restoreContent at hr ⊢
  cases hc : f.fileContent with
  | none => rfl
  | some content =>
    simp only [hc] at hr ⊢
    cases hw : (ex.writeFile f.filePath (ofUtf8Lossy content) h.fs).2 with
    | error e => rw [hw] at hr; cases hr
    | ok u =>
      have he : ex.writeFile f.filePath (ofUtf8Lossy content) h.fs =
          ((ex.writeFile f.filePath (ofUtf8Lossy content) h.fs).1, .ok ()) := by rw [← hw]
      exact hex.write he

theorem restoreInPlace_ok {ex : Executor} (hex : ex.Truthful) {f : FileState} (ht : f.fileLinkTarget = none)
    (habs : recordedAbsent f = false) {h : Host} (hr : (restoreInPlace ex f h).1.2 = .ok ()) :
    RestoreEffect f h.fs (restoreInPlace ex f h).2.fs := by
  unfold restoreInPlace at hr ⊢
  simp only at hr ⊢
  split at hr
  · cases hr
  · next hmade =>
    split at hr
    · cases hr
    · next hwrote =>
      obtain ⟨hmode, hown, hread⟩ := metaResult_ok hr
      exact .inPlace _ _ _ ht habs hread (restoreDirectory_none hex hmade) (restoreContent_none hex hwrote)
        (restoreCommandRefusal_none hex (c := .chmod f.restoreMode f.filePath) trivial hmode)
        (restoreCommandRefusal_none hex (c := .chown f.fileOwnerUid f.fileOwnerGid f.filePath) trivial hown)

theorem rollbackTargetRefusal_fs (ex : Executor) (allowed : List String) (f : FileState) (h : Host) :
    (rollbackTargetRefusal ex allowed f h).2.fs = h.fs := by
  unfold rollbackTargetRefusal
  split
  · rfl
  · split
    · rfl
    · split
      · rfl
      · split
        · rfl
        · split <;> rfl
        · rfl

/-- A restore that reports success has had its effect. -/
theorem restore_ok {ex : Executor} (hex : ex.Truthful) {allowed : List String} {f : FileState}
    (hop : ∀ t, f.fileLinkTarget = some t → t.toList.head? ≠ some '-') {h : Host}
    (hr : (restoreFileStateTracked ex allowed f h).1.2 = .ok ()) :
    RestoreEffect f h.fs (restoreFileStateTracked ex allowed f h).2.fs := by
  unfold restoreFileStateTracked at hr ⊢
  rw [← rollbackTargetRefusal_fs ex allowed f h]
  simp only at hr ⊢
  cases ha : (rollbackTargetRefusal ex allowed f h).1 with
  | some reason => rw [ha] at hr; cases hr
  | none =>
    rw [ha] at hr
    simp only at hr ⊢
    cases ht : f.fileLinkTarget with
    | some target =>
      rw [ht] at hr
      exact restoreLink_ok hex ht (hop target ht) hr
    | none =>
      rw [ht] at hr
      simp only at hr ⊢
      cases habs : recordedAbsent f with
      | true =>
        rw [habs, if_pos rfl] at hr
        rw [if_pos rfl]
        exact removeOrRefuse_ok hex ht habs hr
      | false =>
        rw [habs, if_neg Bool.false_ne_true] at hr
        rw [if_neg Bool.false_ne_true]
        exact restoreInPlace_ok hex ht habs hr

/-! ## From what is done to the tree -/

/-- The permission bits a restore gives. -/
def restorePerm (f : FileState) : BitVec 12 := BitVec.ofNat 12 f.restoreMode.toNat

/-- What a row without content makes of a node: its bits and owner. -/
def remode (f : FileState) (n : Node) : Node := (n.chmod (restorePerm f)).chown f.fileOwnerUid f.fileOwnerGid

/-- What a successful restore leaves at the row's location, from what stood there. -/
def restored (f : FileState) (now : Option Node) : Option Node :=
  match f.fileLinkTarget with
  | some target =>
    match now with
    | some (.dir a) => some (.dir a)
    | _ => some (.link target 0 0)
  | none =>
    if recordedAbsent f then
      if f.filePath ∈ undeletableRollbackPaths then now else none
    else
      match f.fileContent with
      | some content =>
        some (.file (.text (ofUtf8Lossy content))
          ⟨clearSetIds (restorePerm f), f.fileOwnerUid, f.fileOwnerGid⟩)
      | none =>
        if f.filePermissions &&& fileTypeMask = directoryTypeBits then some (remode f (now.getD freshDir))
        else now.map (remode f)

theorem restored_content {f : FileState} {content : Bytes} (ht : f.fileLinkTarget = none)
    (habs : recordedAbsent f = false) (hc : f.fileContent = some content) (now : Option Node) :
    restored f now = some (.file (.text (ofUtf8Lossy content))
      ⟨clearSetIds (restorePerm f), f.fileOwnerUid, f.fileOwnerGid⟩) := by
  simp [restored, ht, habs, hc]

theorem restored_metadata {f : FileState} (ht : f.fileLinkTarget = none) (habs : recordedAbsent f = false)
    (hc : f.fileContent = none) (now : Option Node) :
    restored f now = if f.filePermissions &&& fileTypeMask = directoryTypeBits then
      some (remode f (now.getD freshDir)) else now.map (remode f) := by
  simp [restored, ht, habs, hc]

/-- A row that is restored by changing the bits and the owner of what is there. -/
def metadataOnly (f : FileState) : Prop :=
  f.fileLinkTarget = none ∧ recordedAbsent f = false ∧ f.fileContent = none

/-- What the restore of a row does at and around its location. -/
structure RestoresAt (f : FileState) (l : Loc) (fs fs' : Tree) : Prop where
  wf : fs'.WF
  here : fs'.get l = restored f (fs.get l)
  elsewhere : ∀ k, k ≠ l → fs'.get k = fs.get k ∨
    (k <+: l ∧ (f.fileLinkTarget = none → recordedAbsent f = false) ∧ fs.get k = none ∧
      fs'.get k = some freshDir) ∨
    (l <+: k ∧ f.fileLinkTarget.isSome = true)

/-- A directory made, or there already, below no link. -/
theorem Made.addsDirs {fs fs' : Tree} {q : Loc} (hwf : fs.WF) (hq : PlainAbove fs q)
    (h : Made (render q) fs fs') : AddsFresh fs fs' q := by
  rcases h with ⟨rfl, _⟩ | h
  · exact AddsDirs.refl hwf q
  · exact mkdirParents_plain hwf hq h

/-- The directory of a location's path. -/
theorem parentPath_cases (l : Loc) :
    (l = [] ∧ parentPath (render l) = none) ∨ ∃ q n, l = q ++ [n] ∧ parentPath (render l) = some (render q) := by
  cases l using List.reverseRecOn with
  | nil => exact .inl ⟨rfl, by decide⟩
  | append_singleton q n _ => exact .inr ⟨q, n, rfl, parentPath_render q n⟩

/-- A rename puts the new file at the path. -/
theorem updateFileAtomically_cases {fs fs' : Tree} {l : Loc} {content : String} (hl : NoLinkAbove fs l)
    (h : updateFileAtomically (render l) content fs = .ok fs') :
    DirsAbove fs l ∧ l ≠ [] ∧ (∀ a, fs.get l ≠ some (.dir a)) ∧
      ∃ perm, fs' = fs.set l (.file (.text content) ⟨perm, 0, entryGid fs l⟩) := by
  unfold updateFileAtomically at h
  rcases parentPath_cases l with ⟨_, hp⟩ | ⟨q, n, rfl, hp⟩
  · rw [hp] at h
    cases h
  · rw [hp] at h
    simp only [bind, Except.bind] at h
    split at h
    · cases h
    · next original _ =>
      split at h
      · cases hloc : locate fs false (render (q ++ [n])) with
        | error e => rw [hloc] at h; cases h
        | ok r =>
          obtain ⟨rfl, hdirs⟩ := locate_render hl (by simp) hloc
          rw [hloc] at h
          simp only at h
          split at h
          · cases h
          · next hnot =>
            cases h
            exact ⟨hdirs, by simp, hnot, _, rfl⟩
      · cases h
      · cases h

/-- Where the tree's directories lead to a location, anything may be put there but in a
directory's place. -/
theorem wf_set_of_dirsAbove {fs : Tree} (hwf : fs.WF) {l : Loc} (hd : DirsAbove fs l) (hne : l ≠ []) {nd : Node}
    (hnot : ∀ a, fs.get l ≠ some (.dir a)) : (fs.set l nd).WF := by
  obtain ⟨hp, hproper⟩ := dropLast_isProperPrefix hne
  exact hwf.set (hd _ hp hproper) (.inr hnot)

/-- A node may be changed where it stands, keeping its kind. -/
theorem wf_set_of_shape {fs : Tree} (hwf : fs.WF) {l : Loc} {n n' : Node} (h : fs.get l = some n)
    (hs : n'.shape = n.shape) : (fs.set l n').WF ∧ (fs.set l n').get l = some n' := by
  have hdir := isDir_of_shape hs
  have hself : l = [] → n'.isDir = true := by
    rintro rfl
    rw [Tree.get_root] at h
    cases h
    exact hdir
  refine ⟨?_, Tree.get_set_self fs hself⟩
  by_cases hne : l = []
  · refine hwf.set ?_ (.inl (hself hne))
    rw [hne]
    exact ⟨_, Tree.get_root fs⟩
  · obtain ⟨hp, hproper⟩ := dropLast_isProperPrefix hne
    refine hwf.set (hwf.dirsAbove h _ hp hproper) ?_
    cases hb : n'.isDir with
    | true => exact .inl rfl
    | false =>
      refine .inr fun a ha => ?_
      rw [h] at ha
      cases ha
      rw [hb] at hdir
      cases hdir

/-- The two commands at the end of a restore, on a node that is no link. -/
theorem remode_plain {fs moded fs' : Tree} {l : Loc} {f : FileState} (hwf : fs.WF) (hl : NoLinkAbove fs l)
    (hn : NotLink fs l) (hp : f.filePath = render l)
    (hmode : (Command.chmod f.restoreMode f.filePath).run fs = .ok moded)
    (hown : (Command.chown f.fileOwnerUid f.fileOwnerGid f.filePath).run moded = .ok fs') :
    ∃ n, fs.get l = some n ∧ fs'.WF ∧ fs'.get l = some (remode f n) ∧ ∀ k, k ≠ l → fs'.get k = fs.get k := by
  rw [hp] at hmode hown
  obtain ⟨n, hget, hmoded⟩ := updateAt_plain hl hn hmode
  change moded = fs.set l (n.chmod (restorePerm f)) at hmoded
  subst hmoded
  obtain ⟨hwf1, hget1⟩ := wf_set_of_shape hwf hget (shape_chmod (restorePerm f) n)
  have hn1 : NotLink (fs.set l (n.chmod (restorePerm f))) l := by
    intro t u g ht
    rw [hget1] at ht
    cases n with
    | file d a => cases ht
    | dir a => cases ht
    | link t u g => exact hn t u g hget
  have hl1 : NoLinkAbove (fs.set l (n.chmod (restorePerm f))) l := by
    intro p hpre hne
    rw [Tree.get_set_ne fs _ hne]
    exact hl p hpre hne
  obtain ⟨n1, hget2, rfl⟩ := updateAt_plain hl1 hn1 hown
  rw [hget1] at hget2
  cases hget2
  obtain ⟨hwf2, hget3⟩ := wf_set_of_shape hwf1 hget1 (shape_chown f.fileOwnerUid f.fileOwnerGid _)
  refine ⟨n, hget, hwf2, hget3, fun k hk => ?_⟩
  rw [Tree.get_set_ne _ _ hk, Tree.get_set_ne _ _ hk]

/-- A link row: the link stands at the path, or inside the directory there. -/
theorem restoresAt_link {f : FileState} {l : Loc} {fs mid fs' : Tree} {target : String} (hwf : fs.WF)
    (hp : f.filePath = render l) (hl : PlainAbove fs l) (ht : f.fileLinkTarget = some target)
    (hmade : ∀ parent, parentPath f.filePath = some parent → Made parent fs mid)
    (hroot : parentPath f.filePath = none → mid = fs) (hln : lnForce target f.filePath mid = .ok fs') :
    RestoresAt f l fs fs' := by
  -- the directories made lie properly above the location
  have hadds : ∃ q, (q = l ∧ mid = fs ∨ q <+: l ∧ q ≠ l) ∧ AddsFresh fs mid q := by
    rcases parentPath_cases l with ⟨_, hnone⟩ | ⟨q, n, rfl, hsome⟩
    · have hmid := hroot (by rw [hp, hnone])
      subst hmid
      exact ⟨l, .inl ⟨rfl, rfl⟩, AddsDirs.refl hwf l⟩
    · have hpre : q <+: q ++ [n] := List.prefix_append q [n]
      have hne : q ≠ q ++ [n] := ne_snoc_of_isPrefix (List.prefix_refl q)
      exact ⟨q, .inr ⟨hpre, hne⟩, (hmade _ (by rw [hp, hsome])).addsDirs hwf (hl.of_isPrefix hpre)⟩
  obtain ⟨q, hq, hadds⟩ := hadds
  have hsame : mid.get l = fs.get l := by
    rcases hadds.get l with he | ⟨hpre, hnone, _, rfl, hnew⟩
    · exact he
    · rcases hq with ⟨_, rfl⟩ | ⟨hql, hne⟩
      · rfl
      · exact absurd (hql.eq_of_length (Nat.le_antisymm hql.length_le hpre.length_le)) hne
  have hother : ∀ k, k ≠ l → mid.get k = fs.get k ∨
      (k <+: l ∧ (f.fileLinkTarget = none → recordedAbsent f = false) ∧ fs.get k = none ∧
        mid.get k = some freshDir) := by
    intro k hk
    rcases hadds.get k with he | ⟨hpre, hnone, _, rfl, hnew⟩
    · exact .inl he
    · rcases hq with ⟨_, rfl⟩ | ⟨hql, _⟩
      · exact .inl rfl
      · exact .inr ⟨hpre.trans hql, fun hc => (by rw [ht] at hc; cases hc), hnone, hnew⟩
  have hplain := hadds.plainAbove hl
  rw [hp] at hln
  obtain ⟨hdirs, ⟨hnot, hne, rfl⟩ | ⟨a, n, g, hdir, hnot, rfl⟩⟩ := lnForce_cases hplain.noLinkAbove hln
  · rw [entryGid_plain hplain hne]
    refine ⟨wf_set_of_dirsAbove hadds.wf hdirs hne hnot, ?_, fun k hk => ?_⟩
    · rw [Tree.get_set_self mid (fun h => absurd h hne), restored, ht]
      rw [hsame] at hnot
      cases hnow : fs.get l with
      | none => rfl
      | some nd =>
        cases nd with
        | file d a => rfl
        | dir a => exact absurd hnow (hnot a)
        | link t u g => rfl
    · rw [Tree.get_set_ne mid _ hk]
      exact (hother k hk).imp id .inl
  · have hself : l ++ [n] = [] → (Node.link target 0 g).isDir = true := fun h => by simp at h
    refine ⟨?_, ?_, fun k hk => ?_⟩
    · refine wf_set_of_dirsAbove hadds.wf (dirsAbove_snoc.mpr ⟨hdirs, a, hdir⟩) (by simp) hnot
    · rw [Tree.get_set_ne mid _ (ne_snoc_of_isPrefix (List.prefix_refl l)), hdir, restored, ht, ← hsame, hdir]
    · by_cases hkn : k = l ++ [n]
      · subst hkn
        exact .inr (.inr ⟨List.prefix_append l [n], by rw [ht]; rfl⟩)
      · rw [Tree.get_set_ne mid _ hkn]
        exact (hother k hk).imp id .inl

/-- A content row: the file stands at the path. -/
theorem restoresAt_content {f : FileState} {l : Loc} {fs wrote moded fs' : Tree} {content : Bytes} (hwf : fs.WF)
    (hp : f.filePath = render l) (hl : PlainAbove fs l) (ht : f.fileLinkTarget = none)
    (habs : recordedAbsent f = false) (hc : f.fileContent = some content)
    (hk : isKernelInterfacePath f.filePath = false)
    (hwrite : writeFile f.filePath (ofUtf8Lossy content) fs = .ok wrote)
    (hmode : (Command.chmod f.restoreMode f.filePath).run wrote = .ok moded)
    (hown : (Command.chown f.fileOwnerUid f.fileOwnerGid f.filePath).run moded = .ok fs') :
    RestoresAt f l fs fs' := by
  rw [writeFile, hk, if_neg Bool.false_ne_true, hp] at hwrite
  obtain ⟨hdirs, hne, hnot, perm, hwrote⟩ := updateFileAtomically_cases hl.noLinkAbove hwrite
  rw [entryGid_plain hl hne] at hwrote
  subst hwrote
  have hself := Tree.get_set_self fs (l := l) (n := .file (.text (ofUtf8Lossy content)) ⟨perm, 0, 0⟩)
    (fun h => absurd h hne)
  have hplain : NoLinkAbove (fs.set l (.file (.text (ofUtf8Lossy content)) ⟨perm, 0, 0⟩)) l := by
    intro p hpre hpne
    rw [Tree.get_set_ne fs _ hpne]
    exact hl.noLinkAbove p hpre hpne
  have hnl : NotLink (fs.set l (.file (.text (ofUtf8Lossy content)) ⟨perm, 0, 0⟩)) l := by
    intro t u g h
    rw [hself] at h
    cases h
  obtain ⟨n, hget, hwf', hhere, hother⟩ :=
    remode_plain (wf_set_of_dirsAbove hwf hdirs hne hnot) hplain hnl hp hmode hown
  rw [hself] at hget
  cases hget
  refine ⟨hwf', ?_, fun k hk' => .inl ?_⟩
  · rw [hhere, restored_content ht habs hc]
    rfl
  · rw [hother k hk', Tree.get_set_ne fs _ hk']

/-- A row without content: the node at the path gets its bits and owner. -/
theorem restoresAt_metadata {f : FileState} {l : Loc} {fs made moded fs' : Tree} (hwf : fs.WF)
    (hp : f.filePath = render l) (hl : PlainAbove fs l) (hn : NotLink fs l) (ht : f.fileLinkTarget = none)
    (habs : recordedAbsent f = false) (hc : f.fileContent = none)
    (hdir : if f.filePermissions &&& fileTypeMask = directoryTypeBits then Made f.filePath fs made else made = fs)
    (hmode : (Command.chmod f.restoreMode f.filePath).run made = .ok moded)
    (hown : (Command.chown f.fileOwnerUid f.fileOwnerGid f.filePath).run moded = .ok fs') :
    RestoresAt f l fs fs' := by
  have hadds : AddsFresh fs made l := by
    split at hdir
    · rw [hp] at hdir
      exact hdir.addsDirs hwf hl
    · subst hdir
      exact AddsDirs.refl hwf l
  obtain ⟨n, hget, hwf', hhere, hother⟩ :=
    remode_plain hadds.wf (hadds.plainAbove hl).noLinkAbove (hadds.notLink hn) hp hmode hown
  refine ⟨hwf', ?_, fun k hk => ?_⟩
  · rw [hhere, restored_metadata ht habs hc]
    rcases hadds.get l with he | ⟨_, hnone, _, rfl, hnew⟩
    · rw [hget] at he
      rw [← he]
      split <;> rfl
    · -- only a directory row makes its own directory
      rw [hget] at hnew
      cases hnew
      split at hdir
      · next hbits =>
        rw [hnone, if_pos hbits]
        rfl
      · rw [hdir, hnone] at hget
        cases hget
  · rw [hother k hk]
    rcases hadds.get k with he | ⟨hpre, hnone, _, rfl, hnew⟩
    · exact .inl he
    · exact .inr (.inl ⟨hpre, fun _ => habs, hnone, hnew⟩)

/-- The effect of a restore, below no link. -/
theorem RestoreEffect.restoresAt {f : FileState} {l : Loc} {fs fs' : Tree} (h : RestoreEffect f fs fs')
    (hwf : fs.WF) (hp : f.filePath = render l) (hl : PlainAbove fs l) (hn : metadataOnly f → NotLink fs l)
    (hc : ∀ b, f.fileContent = some b → isKernelInterfacePath f.filePath = false ∧
      f.filePermissions &&& fileTypeMask ≠ directoryTypeBits) : RestoresAt f l fs fs' := by
  cases h with
  | link target mid ht hmade hroot hln => exact restoresAt_link hwf hp hl ht hmade hroot hln
  | kept ht habs hu hx hfs =>
    subst hfs
    refine ⟨hwf, ?_, fun k _ => .inl rfl⟩
    simp only [restored, ht, habs, hu, if_true]
  | removed ht habs hu hrm =>
    rw [hp] at hrm
    obtain ⟨hwf', hnone, hother⟩ := rmForce_plain hwf hl.noLinkAbove hrm
    refine ⟨hwf', ?_, fun k hk => .inl (hother k hk)⟩
    simp only [restored, ht, habs, hu, if_true, if_false, hnone]
  | inPlace made wrote moded ht habs hread hdir hwrite hmode hown =>
    cases hcontent : f.fileContent with
    | none =>
      simp only [hcontent] at hwrite
      subst hwrite
      exact restoresAt_metadata hwf hp hl (hn ⟨ht, habs, hcontent⟩) ht habs hcontent hdir hmode hown
    | some content =>
      obtain ⟨hk, hbits⟩ := hc content hcontent
      rw [if_neg hbits] at hdir
      subst hdir
      simp only [hcontent] at hwrite
      exact restoresAt_content hwf hp hl ht habs hcontent hk hwrite hmode hown

end LinuxHardener.State
