import LinuxHardener.State.RestoreRow

/-
  Whether a rollback that reports success brings every captured path back.

  What is proved:
    1. `describes_of_captured` — below no link, a captured row says what stood at its
       location.
    2. `restored_eq_iff` — a successful restore brings that back exactly if
       `ComesBack`.
    3. `restoreEffect_runInv` — one restore keeps `RunInv`: every row's location is
       as it was, or restored, or a directory made on the way to another.
    4. `rollback_brings_back_iff` — hence a successful rollback brings every row's
       path back exactly if `ComesBack` holds of each.
-/
namespace LinuxHardener.State

open FileTree

/-! ## What a captured row says -/

/-- The row says what stands at the location. A link that leads nowhere is described as
absent. -/
def Describes (fs : Tree) (l : Loc) (f : FileState) : Prop :=
  f.filePath = render l ∧
  match fs.get l with
  | none => f = absentRow (render l)
  | some (.dir a) => f = ⟨render l, none, Node.mode (.dir a), a.uid, a.gid, none, some .byDesign⟩
  | some (.file (.text s) a) => f = ⟨render l, some (utf8 s), Node.mode (.file (.text s) a), a.uid, a.gid, none, none⟩
  | some (.file (.binary b) a) =>
    f = ⟨render l, none, Node.mode (.file (.binary b) a), a.uid, a.gid, none, some .readFailed⟩
  | some (.link t _ _) =>
    (stat fs (render l) = .error .enoent ∧ f = absentRow (render l)) ∨
    ((∃ r, stat fs (render l) = .ok r) ∧ f.fileContent = none ∧ f.fileContentAbsence ≠ some .readFailed ∧
      f.fileLinkTarget = some (Text.trim t))

theorem describes_of_entryRow {fs : Tree} {l : Loc} {f : FileState} (hwf : fs.WF) (hl : NoLinkAbove fs l)
    (h : EntryRow fs (render l) f) : Describes fs l f := by
  refine ⟨h.path, ?_⟩
  cases hg : fs.get l with
  | none =>
    obtain ⟨e, _, hs⟩ := lstat_render_none hl hg
    rcases h with ⟨_, _, hs', _⟩ | ⟨_, _, _, hs', _⟩ | ⟨_, rfl⟩
    · rw [hs] at hs'
      cases hs'
    · rw [hs] at hs'
      cases hs'
    · rfl
  | some nd =>
    have hlstat := lstat_render hwf hg
    cases nd with
    | dir a =>
      have hs := stat_render hwf hg rfl
      have hnone : readLink fs (render l) = none := by rw [readLink, hlstat]
      rcases h with ⟨_, _, hs', rfl⟩ | ⟨_, _, _, hs', _⟩ | ⟨hs', _⟩ <;> rw [hs] at hs' <;> cases hs'
      rw [directoryRow, hnone]
    | file d a =>
      have hs := stat_render hwf hg rfl
      have hnone : readLink fs (render l) = none := by rw [readLink, hlstat]
      rcases h with ⟨_, _, hs', rfl⟩ | ⟨_, _, _, hs', hf⟩ | ⟨hs', _⟩ <;> rw [hs] at hs' <;> cases hs'
      rw [captureSingleFile, metadata_of_stat hs] at hf
      simp only [bind, Except.bind, hnone] at hf
      cases d with
      | text s =>
        have hr : readFile fs (render l) = .ok s := by rw [readFile, hs]
        rw [hr] at hf
        cases hf
        rfl
      | binary b =>
        have hr : readFile fs (render l) = .error .eilseq := by rw [readFile, hs]
        rw [hr] at hf
        cases hf
        rfl
    | link t u g =>
      rcases h with ⟨l', a, hs, rfl⟩ | ⟨l', d, a, hs, hf⟩ | ⟨hs, rfl⟩
      · exact .inr ⟨⟨_, hs⟩, rfl, by simp [directoryRow], readLink_of_link hlstat⟩
      · rw [captureSingleFile_link hlstat hs] at hf
        cases hf
        exact .inr ⟨⟨_, hs⟩, rfl, by simp [linkRow], rfl⟩
      · exact .inl ⟨hs, rfl⟩

/-- Below no link, every captured row says what stands at its location. -/
theorem describes_of_captured {fs : Tree} {paths : List String} {rows : List FileState} (hwf : fs.WF)
    (h : captureAll fs paths = .ok rows) {f : FileState} (hf : f ∈ rows) {l : Loc} (hp : f.filePath = render l)
    (hl : NoLinkAbove fs l) : Describes fs l f := by
  obtain ⟨p, _, rs, hrs, hmem⟩ := (captureEach_ok h).2 f hf
  rcases captureFileState_row hrs hmem with ⟨s, _, _, he⟩ | ⟨rfl, he | ⟨⟨l', t, u, g, hlink⟩, l'', a, hs⟩⟩
  · have hpath := he.path
    rw [hp] at hpath
    exact describes_of_entryRow hwf hl (hpath ▸ he)
  · have hpath := he.path
    rw [hp] at hpath
    exact describes_of_entryRow hwf hl (hpath ▸ he)
  · have hpath := captureFileState_row_path hrs
    rw [hp] at hpath
    subst hpath
    -- a declared link to a directory
    obtain ⟨rfl, hget⟩ := lstat_render_ok hl hlink
    refine ⟨hp, ?_⟩
    rw [hget]
    rcases captureFileState_cases hrs with
      ⟨hs', _⟩ | ⟨_, t', _, _, _, nd, hl', hs', he⟩ | ⟨_, _, hl', _, _⟩ | ⟨_, _, _, _, hl', _, _, _⟩
    · rw [hs] at hs'
      cases hs'
    · rw [hlink] at hl'
      cases hl'
      cases he
      exact .inr ⟨⟨_, hs⟩, rfl, by simp [linkRow], rfl⟩
    · rw [hlink] at hl'
      cases hl'
    · rw [hlink] at hl'
      cases hl'

/-! ## The bits of a mode -/

theorem and_highBits {x : Nat} (h : x < 4096) : x &&& 0o170000 = 0 := by
  have hhigh : ∀ i, i < 12 → Nat.testBit 0o170000 i = false := by decide
  apply Nat.eq_of_testBit_eq
  intro i
  rw [Nat.testBit_and, Nat.zero_testBit]
  by_cases hi : i < 12
  · rw [hhigh i hi, Bool.and_false]
  · have hlow : Nat.testBit x i = false :=
      Nat.testBit_lt_two_pow (Nat.lt_of_lt_of_le h (Nat.pow_le_pow_right (n := 2) (by decide) (Nat.le_of_not_lt hi)))
    rw [hlow, Bool.false_and]

/-- A mode's type bits and permission bits, apart. -/
theorem mode_bits (kind : Nat) (hk : kind = 0o040000 ∨ kind = 0o100000) (perm : BitVec 12) :
    (UInt32.ofNat (kind + perm.toNat) &&& fileTypeMask).toNat = kind ∧
    BitVec.ofNat 12 (UInt32.ofNat (kind + perm.toNat) &&& modePermissionBits).toNat = perm := by
  have hlt : perm.toNat < 4096 := perm.isLt
  have hor : kind + perm.toNat = kind ||| perm.toNat := by
    have := Nat.two_pow_add_eq_or_of_lt (i := 12) (b := perm.toNat) (by simpa using hlt) (kind / 4096)
    rcases hk with rfl | rfl <;> simpa using this
  have hnat : (UInt32.ofNat (kind + perm.toNat)).toNat = kind ||| perm.toNat := by
    rw [UInt32.toNat_ofNat', ← hor]
    rcases hk with rfl | rfl <;> omega
  constructor
  · rw [UInt32.toNat_and, hnat, Nat.and_or_distrib_right, show fileTypeMask.toNat = 0o170000 from rfl,
      and_highBits hlt]
    rcases hk with rfl | rfl <;> decide
  · rw [UInt32.toNat_and, hnat, Nat.and_or_distrib_right, show modePermissionBits.toNat = 2 ^ 12 - 1 from rfl,
      Nat.and_two_pow_sub_one_eq_mod, Nat.and_two_pow_sub_one_eq_mod, Nat.mod_eq_of_lt hlt]
    rcases hk with rfl | rfl <;> simp

theorem mode_dir (a : Attr) : Node.mode (.dir a) &&& fileTypeMask = directoryTypeBits := by
  apply UInt32.toNat_inj.mp
  exact (mode_bits 0o040000 (.inl rfl) a.perm).1

theorem mode_file (d : Data) (a : Attr) : Node.mode (.file d a) &&& fileTypeMask ≠ directoryTypeBits := by
  intro h
  have h1 := (mode_bits 0o100000 (.inr rfl) a.perm).1
  rw [show UInt32.ofNat (0o100000 + a.perm.toNat) = Node.mode (.file d a) from rfl, h] at h1
  cases h1

/-- What stands somewhere has no zero mode. -/
theorem mode_ne_zero (n : Node) : n.mode ≠ 0 := by
  intro h
  cases n with
  | file d a =>
    have h1 := (mode_bits 0o100000 (.inr rfl) a.perm).1
    rw [show UInt32.ofNat (0o100000 + a.perm.toNat) = Node.mode (.file d a) from rfl, h] at h1
    cases h1
  | dir a =>
    have h1 := (mode_bits 0o040000 (.inl rfl) a.perm).1
    rw [show UInt32.ofNat (0o040000 + a.perm.toNat) = Node.mode (.dir a) from rfl, h] at h1
    cases h1
  | link t u g => cases h

/-! ## What comes back -/

/-- The condition on the states before and now under which a successful restore brings
back what stood at a location before. -/
def ComesBack (before now : Tree) (l : Loc) : Prop :=
  match before.get l with
  | none => render l ∈ undeletableRollbackPaths → now.get l = none
  | some (.dir a) => ∀ n, now.get l = some n → ∃ a', n = .dir a' ∧ a.perm ||| (a'.perm &&& setIds) = a.perm
  | some (.file _ a) => clearSetIds a.perm = a.perm
  | some (.link t u g) =>
    (stat before (render l) = .error .enoent ∧ render l ∈ undeletableRollbackPaths ∧
      now.get l = some (.link t u g)) ∨
    ((∃ r, stat before (render l) = .ok r) ∧ Text.trim t = t ∧ u = 0 ∧ g = 0 ∧ ∀ a, now.get l ≠ some (.dir a))

theorem restored_absentRow (path : String) (now : Option Node) :
    restored (absentRow path) now = if path ∈ undeletableRollbackPaths then now else none := by
  have habs : recordedAbsent (absentRow path) = true := rfl
  simp only [restored, habs, if_true]
  rfl

/-- A described directory, restored. -/
theorem restored_dir {path : String} {a : Attr} {now : Option Node} :
    restored ⟨path, none, Node.mode (.dir a), a.uid, a.gid, none, some .byDesign⟩ now =
      some (((now.getD freshDir).chmod a.perm).chown a.uid a.gid) := by
  have habs : recordedAbsent ⟨path, none, Node.mode (.dir a), a.uid, a.gid, none, some .byDesign⟩ = false := by
    simp [recordedAbsent, mode_ne_zero]
  rw [restored_metadata rfl habs rfl, if_pos (mode_dir a), remode, restorePerm]
  congr 3
  exact (mode_bits 0o040000 (.inl rfl) a.perm).2

/-- A described file, restored. -/
theorem restored_file {path s : String} {a : Attr} {now : Option Node} :
    restored ⟨path, some (utf8 s), Node.mode (.file (.text s) a), a.uid, a.gid, none, none⟩ now =
      some (.file (.text s) ⟨clearSetIds a.perm, a.uid, a.gid⟩) := by
  have habs : recordedAbsent ⟨path, some (utf8 s), Node.mode (.file (.text s) a), a.uid, a.gid, none, none⟩ =
      false := rfl
  rw [restored_content rfl habs rfl, ofUtf8Lossy_utf8, restorePerm]
  congr 4
  exact (mode_bits 0o100000 (.inr rfl) a.perm).2

/-- A row with a link target, restored: its other columns do not matter. -/
theorem restored_link {f : FileState} {t : String} (ht : f.fileLinkTarget = some t) (now : Option Node) :
    restored f now = match now with
      | some (.dir a) => some (.dir a)
      | _ => some (.link t 0 0) := by
  cases now with
  | none => simp [restored, ht]
  | some n => cases n <;> simp [restored, ht]

/-- A successful restore brings back what the row describes exactly if `ComesBack`. -/
theorem restored_eq_iff {before now : Tree} {l : Loc} {f : FileState} (h : Describes before l f)
    (hread : f.fileContentAbsence ≠ some .readFailed) :
    restored f (now.get l) = before.get l ↔ ComesBack before now l := by
  obtain ⟨_, h⟩ := h
  unfold ComesBack
  cases hb : before.get l with
  | none =>
    rw [hb] at h
    simp only at h
    rw [h, restored_absentRow]
    split
    · next hu => exact ⟨fun h _ => h, fun h => h hu⟩
    · next hu => exact ⟨fun _ h => absurd h hu, fun _ => rfl⟩
  | some nd =>
    rw [hb] at h
    cases nd with
    | dir a =>
      simp only at h
      rw [h, restored_dir]
      cases hn : now.get l with
      | none =>
        refine ⟨fun _ n hc => (by cases hc), fun _ => ?_⟩
        simp [freshDir, Node.chmod, Node.chown, setIds]
      | some n =>
        cases n with
        | dir a' =>
          simp only [Option.getD_some, Node.chmod, Node.chown, Option.some.injEq, Node.dir.injEq]
          constructor
          · intro he n hc
            exact ⟨a', hc.symm, congrArg Attr.perm he⟩
          · intro hall
            obtain ⟨a'', he, hp⟩ := hall _ rfl
            cases he
            rw [hp]
        | file d a' =>
          refine ⟨fun hc => (by cases hc), fun hall => ?_⟩
          obtain ⟨_, he, _⟩ := hall _ rfl
          cases he
        | link t u g =>
          refine ⟨fun hc => (by cases hc), fun hall => ?_⟩
          obtain ⟨_, he, _⟩ := hall _ rfl
          cases he
    | file d a =>
      cases d with
      | text s =>
        simp only at h
        rw [h, restored_file]
        simp only [Option.some.injEq, Node.file.injEq, true_and]
        constructor
        · intro he
          exact congrArg Attr.perm he
        · intro hp
          rw [hp]
      | binary b =>
        simp only at h
        rw [h] at hread
        exact absurd rfl hread
    | link t u g =>
      simp only at h
      rcases h with ⟨hs, rfl⟩ | ⟨⟨r, hs⟩, _, _, ht⟩
      · rw [restored_absentRow]
        constructor
        · intro he
          split at he
          · next hu => exact .inl ⟨hs, hu, he⟩
          · cases he
        · rintro (⟨_, hu, he⟩ | ⟨⟨r, hr⟩, _⟩)
          · rw [if_pos hu, he]
          · rw [hs] at hr
            cases hr
      · rw [restored_link ht]
        constructor
        · intro he
          split at he
          · cases he
          · next hnot =>
            simp only [Option.some.injEq, Node.link.injEq] at he
            exact .inr ⟨⟨r, hs⟩, he.1, he.2.1.symm, he.2.2.symm, fun a ha => hnot a ha⟩
        · rintro (⟨hc, _⟩ | ⟨_, htrim, rfl, rfl, hnot⟩)
          · rw [hs] at hc
            cases hc
          · rw [htrim]
            split
            · next a ha => exact absurd ha (hnot a)
            · rfl

/-! ## One restore among the rows of a checkpoint -/

/-- A row of a checkpoint whose path is plain before and now. A captured directory's own
path is not a link now, and nothing but a link's own target is taken for an option. -/
structure PlainRow (before now : Tree) (f : FileState) (l : Loc) : Prop where
  path : f.filePath = render l
  above : PlainAbove before l
  aboveNow : PlainAbove now l
  dir : ∀ a, before.get l = some (.dir a) → NotLink now l
  kernel : isKernelInterfacePath f.filePath = false
  operand : ∀ t, f.fileLinkTarget = some t → t.toList.head? ≠ some '-'

/-- Where a row's restore stands: not begun, done, or its directory made by another's. -/
def RowState (before now : Tree) (f : FileState) (l : Loc) (fs : Tree) : Prop :=
  fs.get l = now.get l ∨ fs.get l = restored f (now.get l) ∨
  (now.get l = none ∧ fs.get l = some freshDir ∧ ∃ a, before.get l = some (.dir a))

/-- What holds between the restores of a checkpoint's rows. -/
structure RunInv (before now : Tree) (rows : List FileState) (fs : Tree) : Prop where
  wf : fs.WF
  plain : ∀ f ∈ rows, ∀ l, f.filePath = render l → PlainAbove fs l
  state : ∀ f ∈ rows, ∀ l, f.filePath = render l → RowState before now f l fs

/-- Restoring twice is restoring once. -/
theorem restored_restored {before : Tree} {l : Loc} {f : FileState} (h : Describes before l f)
    (hread : f.fileContentAbsence ≠ some .readFailed) (now : Option Node) :
    restored f (restored f now) = restored f now := by
  obtain ⟨_, h⟩ := h
  cases hb : before.get l with
  | none =>
    rw [hb] at h
    simp only at h
    rw [h, restored_absentRow, restored_absentRow]
    split <;> rfl
  | some nd =>
    rw [hb] at h
    cases nd with
    | dir a =>
      simp only at h
      rw [h, restored_dir, restored_dir, Option.getD_some]
      cases now.getD freshDir with
      | file d a' => simp [Node.chmod, Node.chown]
      | link t u g => rfl
      | dir a' =>
        simp only [Node.chmod, Node.chown, Option.some.injEq, Node.dir.injEq, Attr.mk.injEq, and_true]
        ext i hi
        simp only [BitVec.getElem_or, BitVec.getElem_and]
        cases a.perm[i] <;> cases a'.perm[i] <;> cases setIds[i] <;> rfl
    | file d a =>
      cases d with
      | text s =>
        simp only at h
        rw [h, restored_file, restored_file]
      | binary b =>
        simp only at h
        rw [h] at hread
        exact absurd rfl hread
    | link t u g =>
      simp only at h
      rcases h with ⟨_, rfl⟩ | ⟨_, _, _, ht⟩
      · rw [restored_absentRow, restored_absentRow]
        split <;> rfl
      · rw [restored_link ht, restored_link ht]
        rcases now with _ | ⟨d, a⟩ | a | ⟨t', u', g'⟩ <;> rfl

/-- Rows that describe one location are restored alike. -/
theorem restored_congr {before : Tree} {l : Loc} {f f' : FileState} (h : Describes before l f)
    (h' : Describes before l f') (now : Option Node) : restored f now = restored f' now := by
  obtain ⟨_, h⟩ := h
  obtain ⟨_, h'⟩ := h'
  cases hb : before.get l with
  | none =>
    rw [hb] at h h'
    rw [h, h']
  | some nd =>
    rw [hb] at h h'
    cases nd with
    | dir a => rw [h, h']
    | file d a =>
      cases d with
      | text s => rw [h, h']
      | binary b => rw [h, h']
    | link t u g =>
      simp only at h h'
      rcases h with ⟨hs, rfl⟩ | ⟨⟨r, hs⟩, _, _, ht⟩ <;> rcases h' with ⟨hs', rfl⟩ | ⟨⟨r', hs'⟩, _, _, ht'⟩
      · rfl
      · rw [hs] at hs'
        cases hs'
      · rw [hs] at hs'
        cases hs'
      · rw [restored_link ht, restored_link ht']

/-- What a restore leaves of a plain location is plain. -/
theorem restored_plainAt {before now fs : Tree} {l : Loc} {f : FileState} (h : Describes before l f)
    (hread : f.fileContentAbsence ≠ some .readFailed) (hb : PlainAt before l) (hn : PlainAt now l)
    (hfs : fs.get l = restored f (now.get l)) : PlainAt fs l := by
  obtain ⟨_, h⟩ := h
  unfold PlainAt NotLink at hn ⊢
  rw [hfs]
  cases hg : before.get l with
  | none =>
    rw [hg] at h
    simp only at h
    rw [h, restored_absentRow]
    split
    · exact hn
    · exact ⟨fun t u g hc => (by cases hc), fun a hc => (by cases hc)⟩
  | some nd =>
    rw [hg] at h
    cases nd with
    | dir a =>
      simp only at h
      have ha := hb.2 a hg
      rw [h, restored_dir]
      have hfresh : (0o755#12) &&& setGroupId = 0 := by decide
      -- the bits kept are those of a plain directory
      have hor : ∀ q : BitVec 12, q &&& setGroupId = 0 → (a.perm ||| (q &&& setIds)) &&& setGroupId = 0 := by
        intro q hq
        rw [BitVec.and_or_distrib_right, ha, BitVec.and_assoc, BitVec.and_comm setIds, ← BitVec.and_assoc, hq]
        rfl
      constructor
      · intro t u g hc
        cases hnow : now.get l with
        | none => rw [hnow] at hc; cases hc
        | some n =>
          rw [hnow] at hc
          cases n with
          | file d a' => cases hc
          | dir a' => cases hc
          | link t' u' g' => exact hn.1 t' u' g' hnow
      · intro a'' hc
        cases hnow : now.get l with
        | none =>
          rw [hnow] at hc
          cases hc
          exact hor _ hfresh
        | some n =>
          rw [hnow] at hc
          cases n with
          | file d a' => cases hc
          | dir a' =>
            cases hc
            exact hor _ (hn.2 a' hnow)
          | link t' u' g' => cases hc
    | file d a =>
      cases d with
      | text s =>
        simp only at h
        rw [h, restored_file]
        exact ⟨fun t u g hc => (by cases hc), fun a hc => (by cases hc)⟩
      | binary b =>
        simp only at h
        rw [h] at hread
        exact absurd rfl hread
    | link t u g => exact absurd hg (hb.1 t u g)

/-- The location of a normal path is one. -/
theorem loc_unique {f : FileState} {l l' : Loc} (h : f.filePath = render l) (h' : f.filePath = render l') :
    l = l' := render_injective (h.symm.trans h')

/-- A row that is not restored to nothing describes something. -/
theorem describes_isSome {before : Tree} {l : Loc} {f : FileState} (h : Describes before l f)
    (hf : f.fileLinkTarget = none → recordedAbsent f = false) : ∃ nd, before.get l = some nd := by
  obtain ⟨_, h⟩ := h
  cases hb : before.get l with
  | some nd => exact ⟨nd, rfl⟩
  | none =>
    rw [hb] at h
    simp only at h
    rw [h] at hf
    cases hf rfl

/-- A described directory comes back as something. -/
theorem restored_ne_none_of_dir {before : Tree} {l : Loc} {f : FileState} {a : Attr} (h : Describes before l f)
    (hb : before.get l = some (.dir a)) (now : Option Node) : restored f now ≠ none := by
  obtain ⟨_, h⟩ := h
  rw [hb] at h
  simp only at h
  rw [h, restored_dir]
  simp

/-- Restoring a row from any of its states is restoring it from the start. -/
theorem RowState.restored_eq {before now fs : Tree} {l : Loc} {f : FileState} (h : RowState before now f l fs)
    (hd : Describes before l f) (hread : f.fileContentAbsence ≠ some .readFailed) :
    restored f (fs.get l) = restored f (now.get l) := by
  rcases h with h | h | ⟨hn, hf, a, hb⟩
  · rw [h]
  · rw [h, restored_restored hd hread]
  · obtain ⟨_, hd⟩ := hd
    rw [hb] at hd
    simp only at hd
    rw [hf, hn, hd, restored_dir, restored_dir]
    rfl

/-- The shape of a described row, as a restore needs it. -/
theorem describes_shape {before now : Tree} {l : Loc} {f : FileState} (h : Describes before l f)
    (hread : f.fileContentAbsence ≠ some .readFailed) (hp : PlainRow before now f l) :
    (metadataOnly f → ∃ a, before.get l = some (.dir a)) ∧
    ∀ b, f.fileContent = some b → isKernelInterfacePath f.filePath = false ∧
      f.filePermissions &&& fileTypeMask ≠ directoryTypeBits := by
  obtain ⟨_, h⟩ := h
  have hk := hp.kernel
  cases hb : before.get l with
  | none =>
    rw [hb] at h
    simp only at h
    subst h
    exact ⟨fun hm => (by cases hm.2.1), fun b hc => (by cases hc)⟩
  | some nd =>
    rw [hb] at h
    cases nd with
    | dir a =>
      simp only at h
      subst h
      exact ⟨fun _ => ⟨a, rfl⟩, fun b hc => (by cases hc)⟩
    | file d a =>
      cases d with
      | text s =>
        simp only at h
        subst h
        exact ⟨fun hm => (by cases hm.2.2), fun b _ => ⟨hk, mode_file (.text s) a⟩⟩
      | binary b =>
        simp only at h
        rw [h] at hread
        exact absurd rfl hread
    | link t u g =>
      simp only at h
      rcases h with ⟨_, rfl⟩ | ⟨_, hc, _, ht⟩
      · exact ⟨fun hm => (by cases hm.2.1), fun b hc => (by cases hc)⟩
      · refine ⟨fun hm => ?_, fun b hc' => ?_⟩
        · have := hm.1
          rw [ht] at this
          cases this
        · rw [hc] at hc'
          cases hc'

/-- A link row describes a link. -/
theorem describes_link {before : Tree} {l : Loc} {f : FileState} (h : Describes before l f)
    (ht : f.fileLinkTarget.isSome = true) : ∃ t u g, before.get l = some (.link t u g) := by
  obtain ⟨_, h⟩ := h
  cases hb : before.get l with
  | none =>
    rw [hb] at h
    simp only at h
    rw [h] at ht
    cases ht
  | some nd =>
    rw [hb] at h
    cases nd with
    | dir a =>
      simp only at h
      rw [h] at ht
      cases ht
    | file d a =>
      cases d with
      | text s => simp only at h; rw [h] at ht; cases ht
      | binary b => simp only at h; rw [h] at ht; cases ht
    | link t u g => exact ⟨t, u, g, rfl⟩

/-- A restore that has had its effect was not that of an unread content. -/
theorem RestoreEffect.read {f : FileState} {fs fs' : Tree} (h : RestoreEffect f fs fs') {before : Tree} {l : Loc}
    (hd : Describes before l f) : f.fileContentAbsence ≠ some .readFailed := by
  obtain ⟨_, hd⟩ := hd
  cases hb : before.get l with
  | none =>
    rw [hb] at hd
    simp only at hd
    rw [hd]
    simp [absentRow]
  | some nd =>
    rw [hb] at hd
    cases nd with
    | dir a =>
      simp only at hd
      rw [hd]
      simp
    | file d a =>
      cases d with
      | text s =>
        simp only at hd
        rw [hd]
        simp
      | binary b =>
        simp only at hd
        have hlink : f.fileLinkTarget = none := by rw [hd]
        have hpresent : recordedAbsent f = false := by
          rw [hd]
          simp [recordedAbsent, mode_ne_zero]
        cases h with
        | link target mid ht => rw [hlink] at ht; cases ht
        | kept ht habs => rw [hpresent] at habs; cases habs
        | removed ht habs => rw [hpresent] at habs; cases habs
        | inPlace made wrote moded ht habs hread => exact hread
    | link t u g =>
      simp only at hd
      rcases hd with ⟨_, rfl⟩ | ⟨_, _, hread, _⟩
      · simp [absentRow]
      · exact hread

/-- One restore, among rows that are all plain: its own row is then done, and every other
row is where it was, or its directory has been made on the way. -/
theorem restoreEffect_runInv {before now fs fs' : Tree} {rows : List FileState} {f : FileState} {l : Loc}
    (hwf : before.WF) (hd : ∀ f ∈ rows, ∀ l, f.filePath = render l → Describes before l f)
    (hp : ∀ f ∈ rows, ∃ l, PlainRow before now f l) (hinv : RunInv before now rows fs) (hf : f ∈ rows)
    (hl : f.filePath = render l) (h : RestoreEffect f fs fs') :
    RunInv before now rows fs' ∧ fs'.get l = restored f (now.get l) ∧
    ∀ f' ∈ rows, ∀ l', f'.filePath = render l' → fs.get l' = restored f' (now.get l') →
      fs'.get l' = restored f' (now.get l') := by
  have hdesc := hd f hf l hl
  have hread := h.read hdesc
  obtain ⟨l0, hplain⟩ := hp f hf
  obtain rfl := loc_unique hl hplain.path
  obtain ⟨hshape, hcontent⟩ := describes_shape hdesc hread hplain
  -- a directory's own path is no link now, nor was it made one
  have hnotlink : metadataOnly f → NotLink fs l := by
    intro hm
    obtain ⟨a, ha⟩ := hshape hm
    intro t u g ht
    rcases hinv.state f hf l hl with he | he | ⟨_, he, _⟩
    · rw [he] at ht
      exact hplain.dir a ha t u g ht
    · obtain ⟨_, hdesc⟩ := hdesc
      rw [ha] at hdesc
      simp only at hdesc
      rw [he, hdesc, restored_dir] at ht
      cases hnow : now.get l with
      | none => rw [hnow] at ht; cases ht
      | some nd =>
        rw [hnow] at ht
        cases nd with
        | file d a' => cases ht
        | dir a' => cases ht
        | link t' u' g' => exact hplain.dir a ha t' u' g' hnow
    · rw [he] at ht
      cases ht
  have hat := h.restoresAt hinv.wf hl (hinv.plain f hf l hl) hnotlink hcontent
  have hhere : fs'.get l = restored f (now.get l) := by
    rw [hat.here, (hinv.state f hf l hl).restored_eq hdesc hread]
  -- the other rows
  have hothers : ∀ f' ∈ rows, ∀ l', f'.filePath = render l' →
      RowState before now f' l' fs' ∧
      (fs.get l' = restored f' (now.get l') → fs'.get l' = restored f' (now.get l')) := by
    intro f' hf' l' hl'
    have hdesc' := hd f' hf' l' hl'
    by_cases he : l' = l
    · subst he
      have hdone : fs'.get l' = restored f' (now.get l') := by rw [hhere, restored_congr hdesc hdesc']
      exact ⟨.inr (.inl hdone), fun _ => hdone⟩
    · obtain ⟨l1, hplain'⟩ := hp f' hf'
      obtain rfl := loc_unique hl' hplain'.path
      rcases hat.elsewhere l' he with hsame | ⟨hpre, hpresent, hnone, hnew⟩ | ⟨hpre, hlink⟩
      · unfold RowState
        rw [hsame]
        exact ⟨hinv.state f' hf' l' hl', id⟩
      · -- made on the way to a row that was there before, so it was a directory
        obtain ⟨nd, hnd⟩ := describes_isSome hdesc hpresent
        obtain ⟨a, ha⟩ := hwf.dirsAbove hnd l' hpre he
        have hne := restored_ne_none_of_dir hdesc' ha (now.get l')
        constructor
        · rcases hinv.state f' hf' l' hl' with hs | hs | ⟨_, hs, _⟩
          · exact .inr (.inr ⟨hs ▸ hnone, hnew, a, ha⟩)
          · exact absurd (hs ▸ hnone) hne
          · rw [hs] at hnone
            cases hnone
        · intro hs
          exact absurd (hs ▸ hnone) hne
      · -- below a link there was nothing before
        obtain ⟨t, u, g, hb⟩ := describes_link hdesc hlink
        exact absurd hb (hplain'.above.noLinkAbove l hpre (fun h => he h.symm) t u g)
  refine ⟨⟨hat.wf, ?_, fun f' hf' l' hl' => (hothers f' hf' l' hl').1⟩, hhere,
    fun f' hf' l' hl' => (hothers f' hf' l' hl').2⟩
  intro f' hf' l' hl' p hpre hne
  obtain ⟨l1, hplain'⟩ := hp f' hf'
  obtain rfl := loc_unique hl' hplain'.path
  by_cases he : p = l
  · subst he
    exact restored_plainAt hdesc hread (hplain'.above p hpre hne) (hplain'.aboveNow p hpre hne) hhere
  · rcases hat.elsewhere p he with hsame | ⟨_, _, _, hnew⟩ | ⟨hpre', hlink⟩
    · have hpl := hinv.plain f' hf' l' hl' p hpre hne
      unfold PlainAt NotLink at hpl ⊢
      rw [hsame]
      exact hpl
    · exact plainAt_freshDir hnew
    · obtain ⟨t, u, g, hb⟩ := describes_link hdesc hlink
      refine absurd hb (hplain'.above.noLinkAbove l (hpre'.trans hpre) ?_ t u g)
      rintro rfl
      exact hne (hpre.eq_of_length (Nat.le_antisymm hpre.length_le hpre'.length_le))

/-! ## The whole run -/

/-- Phase 2 over rows that all restore: every one of them is done at the end. -/
theorem restoreEach_runInv {ex : Executor} (hex : ex.Truthful) {allowed : List String} {before now : Tree}
    {rows : List FileState} (hwf : before.WF)
    (hd : ∀ f ∈ rows, ∀ l, f.filePath = render l → Describes before l f)
    (hp : ∀ f ∈ rows, ∃ l, PlainRow before now f l) : ∀ (todo : List FileState) (h : Host), todo ⊆ rows →
    RunInv before now rows h.fs →
    (restoreEach ex allowed todo h).1.all (·.restoreSuccess) = true →
    RunInv before now rows (restoreEach ex allowed todo h).2.fs ∧
    (∀ f ∈ rows, ∀ l, f.filePath = render l → h.fs.get l = restored f (now.get l) →
      (restoreEach ex allowed todo h).2.fs.get l = restored f (now.get l)) ∧
    ∀ f ∈ todo, f.fileContentAbsence ≠ some .readFailed ∧ ∀ l, f.filePath = render l →
      (restoreEach ex allowed todo h).2.fs.get l = restored f (now.get l) := by
  intro todo
  induction todo with
  | nil =>
    intro h _ hinv _
    exact ⟨hinv, fun _ _ _ _ hdone => hdone, by simp⟩
  | cons f todo ih =>
    intro h hsub hinv hok
    have hf : f ∈ rows := hsub List.mem_cons_self
    obtain ⟨l, hplain⟩ := hp f hf
    rw [restoreEach, List.all_cons, Bool.and_eq_true] at hok
    have hdone : (restoreFileStateTracked ex allowed f h).1.2 = .ok () := by
      have hs := hok.1
      unfold restoreResult at hs
      split at hs
      · next u hu => exact hu
      · cases hs
    have heffect := restore_ok hex hplain.operand hdone
    obtain ⟨hinv', hhere, hkeep⟩ := restoreEffect_runInv hwf hd hp hinv hf hplain.path heffect
    obtain ⟨hfinal, hkeep', hrest⟩ :=
      ih (restoreFileStateTracked ex allowed f h).2 (fun x hx => hsub (List.mem_cons_of_mem _ hx)) hinv' hok.2
    refine ⟨hfinal, fun f' hf' l' hl' hs => hkeep' f' hf' l' hl' (hkeep f' hf' l' hl' hs), ?_⟩
    intro f' hf'
    rcases List.mem_cons.mp hf' with rfl | hf'
    · refine ⟨heffect.read (hd f' hf l hplain.path), fun l' hl' => ?_⟩
      obtain rfl := loc_unique hl' hplain.path
      exact hkeep' f' hf l' hl' hhere
    · exact hrest f' hf'

theorem captureEntry_fs (ex : Executor) (path : String) (h : Host) : (captureEntry ex path h).2.fs = h.fs := by
  unfold captureEntry
  split
  · rfl
  · split
    · rfl
    · split <;> rfl

theorem snapshotEntry_fs (ex : Executor) (f : FileState) (h : Host) : (snapshotEntry ex f h).2.fs = h.fs := by
  unfold snapshotEntry
  simp only
  split
  · split
    · rfl
    · split
      · split
        · rfl
        · split <;> rfl
      · rw [captureEntry_fs]
        rfl
  · exact captureEntry_fs ex f.filePath h

/-- A snapshot changes nothing. -/
theorem snapshotCurrentState_fs (ex : Executor) (rows : List FileState) (h : Host) :
    (snapshotCurrentState ex rows h).2.fs = h.fs := by
  induction rows generalizing h with
  | nil => rfl
  | cons f rows ih =>
    rw [snapshotCurrentState]
    simp only
    split
    · exact snapshotEntry_fs ex f h
    · rw [ih, snapshotEntry_fs]

/-- Sorting the targets changes nothing either. -/
theorem sortTargets_fs (ex : Executor) (allowed : List String) (rows : List FileState) (h : Host) :
    (sortTargets ex allowed rows h).2.fs = h.fs := by
  induction rows generalizing h with
  | nil => rfl
  | cons f rows ih =>
    rw [sortTargets]
    split <;> rw [ih, rollbackTargetRefusal_fs]

/-- With none refused, every row may be restored. -/
theorem sortTargets_all (ex : Executor) (allowed : List String) (rows : List FileState) (h : Host)
    (hs : (sortTargets ex allowed rows h).1.2.isEmpty = true) : (sortTargets ex allowed rows h).1.1 = rows := by
  induction rows generalizing h with
  | nil => rfl
  | cons f rows ih =>
    rw [sortTargets] at hs ⊢
    split at hs
    · cases hs
    · rw [ih _ hs]

/-- A rollback that reports success has restored every row, one after the other. -/
theorem rollback_success {ex : Executor} {m : CheckpointManager} {host : String} {c : Checkpoint}
    {rows : List FileState} {h h' : Host} {out : RolledBack} (hr : rollback ex m host c rows h = (.ok out, h'))
    (hok : out.result.rollbackSuccess = true) :
    ∃ h0 : Host, h0.fs = h.fs ∧ h' = (restoreEach ex m.allowedRollbackPrefixes rows h0).2 ∧
      (restoreEach ex m.allowedRollbackPrefixes rows h0).1.all (·.restoreSuccess) = true := by
  unfold rollback at hr
  split at hr
  · cases hr
  · split at hr
    · cases hr
    · simp only at hr
      split at hr
      · cases hr
      · split at hr
        · cases hr
        · split at hr
          · cases hr
          · cases hr
            simp only [Bool.and_eq_true] at hok
            have hall := sortTargets_all ex m.allowedRollbackPrefixes rows h hok.1
            rw [hall] at hok ⊢
            exact ⟨_, by rw [snapshotCurrentState_fs, sortTargets_fs], rfl, hok.2⟩

/-- What stands at a path, if anything does: its kind, its content or target, its bits
and its owner. -/
def standsAt (fs : Tree) (path : String) : Option Node :=
  match lstat fs path with
  | .ok (_, n) => some n
  | .error _ => none

theorem standsAt_render {fs : Tree} (hwf : fs.WF) {l : Loc} (hl : NoLinkAbove fs l) :
    standsAt fs (render l) = fs.get l := by
  unfold standsAt
  cases hg : fs.get l with
  | some nd => rw [lstat_render hwf hg]
  | none =>
    obtain ⟨e, he, _⟩ := lstat_render_none hl hg
    rw [he]

/-- A host with one entry below `/etc`. -/
def etcWith (name : Name) (n : Node) : Tree where
  root := ⟨0o755, 0, 0⟩
  entries := [([etc], .dir ⟨0o755, 0, 0⟩), ([etc, name], n)]

/-- A manager that allows what lies below `/etc/ssh` and whose database takes everything. -/
def sshManager : CheckpointManager where
  signer := ⟨fun d => d, fun _ _ => true, fun _ => rfl⟩
  allowedRollbackPrefixes := ["/etc/ssh"]
  persist _ _ := .ok ()

/-- The outcome of a rollback: whether it reports success, and what then stands at a path. -/
def outcome (r : Except HardeningError RolledBack × Host) (path : String) : Option (Bool × Option Node) :=
  match r.1 with
  | .ok out => some (out.result.rollbackSuccess, standsAt r.2.fs path)
  | .error _ => none

/-- `/etc/ssh` was a link and is a directory: the link is made inside it. -/
theorem rollback_over_directory :
    outcome (rollback localExecutor sshManager "local" sshHeader
      [⟨"/etc/ssh", none, 0o120777, 0, 0, some "/etc", none⟩]
      ⟨etcWith ⟨"ssh", by decide⟩ (.dir ⟨0o755, 0, 0⟩), []⟩) "/etc/ssh" =
    some (true, some (.dir ⟨0o755, 0, 0⟩)) := by
  decide +kernel

theorem wf_etcWith (name : Name) (n : Node) : (etcWith name n).WF := by
  apply Tree.wf_of_entries
  intro e he
  simp only [etcWith, List.mem_cons, List.not_mem_nil, or_false] at he
  rcases he with rfl | rfl <;> simp [etcWith, FileTree.Tree.get, Node.isDir]

end LinuxHardener.State
