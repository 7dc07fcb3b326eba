import LinuxHardener.State.Capture

/-
  How far a capture descends, and what it records of links.

  `capture_file_state` tests a declared path for a link before it tests it for a
  directory; `capture_directory_recursive` tests the entries below the other way
  round, through metadata that follows links. So an entry that is a link to a
  directory is descended into, and one that leads nowhere is recorded as absent.

  What is proved: `capture_ends_and_stays_above_links_iff` — every capture ends, and
  one that succeeds stays above links and records every link with its target
  exactly when each link at or below the declared path has a target that trimming
  leaves alone, leads somewhere, and, below that path, not to a directory with
  entries (`LinksPlain`).
-/
namespace LinuxHardener.State

open FileTree

/-! ## Staying above links -/

/-- The path of an entry some names below. -/
def joinAll (path : String) (s : List Name) : String := s.foldl join path

/-- No link strictly between a declared path and the entry. -/
def NoLinkBetween (fs : Tree) (path : String) (s : List Name) : Prop :=
  ∀ s', s' ≠ [] → s' <+: s → s' ≠ s → ∀ l t u g, lstat fs (joinAll path s') ≠ .ok (l, .link t u g)

/-- If the row's path is a link, the row has its target. -/
def LinkRecorded (fs : Tree) (row : FileState) : Prop :=
  ∀ l t u g, lstat fs row.filePath = .ok (l, .link t u g) → row.fileLinkTarget = some t

/-- Directories lead to the entry from the declared path on. -/
def RealBelow (fs : Tree) (path : String) (s : List Name) : Prop :=
  ∀ s', s' <+: s → s' ≠ s → ∃ l a, lstat fs (joinAll path s') = .ok (l, .dir a)

/-- Directories, or links to directories, lead to the entry from the declared path on. -/
def DirsBelow (fs : Tree) (path : String) (s : List Name) : Prop :=
  ∀ s', s' <+: s → s' ≠ s → ∃ l a, stat fs (joinAll path s') = .ok (l, .dir a)

/-- What the capture of a declared path should be: no row lies beyond a link below
that path, and every link met has a row that says where it leads. -/
structure CaptureSound (fs : Tree) (path : String) (rows : List FileState) : Prop where
  above : ∀ r ∈ rows, ∃ s, r.filePath = joinAll path s ∧ NoLinkBetween fs path s ∧ LinkRecorded fs r
  recorded : ∀ s l t u g, RealBelow fs path s → lstat fs (joinAll path s) = .ok (l, .link t u g) →
    ∃ r ∈ rows, r.filePath = joinAll path s ∧ r.fileLinkTarget = some t

/-- Every link at or below the declared path is one the capture does not mistake: its
target survives trimming, it leads somewhere, and, below the declared path, not to a
directory with entries. -/
def LinksPlain (fs : Tree) (path : String) : Prop :=
  ∀ s l t u g, RealBelow fs path s → lstat fs (joinAll path s) = .ok (l, .link t u g) →
    Text.trim t = t ∧ stat fs (joinAll path s) ≠ .error .enoent ∧
    (s ≠ [] → ∀ l' a, stat fs (joinAll path s) = .ok (l', .dir a) → fs.children l' = [])

@[simp] theorem joinAll_nil (path : String) : joinAll path [] = path := rfl

@[simp] theorem joinAll_cons (path : String) (n : Name) (s : List Name) :
    joinAll path (n :: s) = joinAll (join path n) s := rfl

theorem joinAll_append (path : String) (s s' : List Name) :
    joinAll path (s ++ s') = joinAll (joinAll path s) s' := List.foldl_append

theorem parse_joinAll (path : String) (s : List Name) : parse (joinAll path s) = parse path ++ s.map .name := by
  induction s generalizing path with
  | nil => simp
  | cons n s ih => rw [joinAll_cons, ih, parse_join]; simp

theorem joinAll_injective {path : String} {s s' : List Name} (h : joinAll path s = joinAll path s') : s = s' := by
  have hp := congrArg parse h
  rw [parse_joinAll, parse_joinAll] at hp
  exact List.map_injective_iff.mpr (fun a b hab => by cases hab; rfl) (List.append_cancel_left hp)

theorem noLinkBetween_cons {fs : Tree} {path : String} {n : Name} {s : List Name}
    (hn : s ≠ [] → ∀ l t u g, lstat fs (join path n) ≠ .ok (l, .link t u g))
    (hs : NoLinkBetween fs (join path n) s) : NoLinkBetween fs path (n :: s) := by
  intro s' hne hpre hne'
  cases s' with
  | nil => exact absurd rfl hne
  | cons m s' =>
    obtain ⟨rfl, hpre'⟩ := List.cons_prefix_cons.mp hpre
    have hs' : s' ≠ s := fun h => hne' (by rw [h])
    by_cases h0 : s' = []
    · subst h0
      exact hn (fun h => hs' h.symm)
    · exact hs s' h0 hpre' hs'

/-- A property of the proper prefixes of a list, split at its head. -/
theorem forall_proper_prefix_cons {α : Type*} {P : List α → Prop} {n : α} {s : List α} :
    (∀ s', s' <+: n :: s → s' ≠ n :: s → P s') ↔ P [] ∧ ∀ s', s' <+: s → s' ≠ s → P (n :: s') := by
  constructor
  · intro h
    refine ⟨h [] List.nil_prefix (by simp), fun s' hpre hne => ?_⟩
    exact h (n :: s') (List.cons_prefix_cons.mpr ⟨rfl, hpre⟩) (by simpa using hne)
  · intro h s' hpre hne
    cases s' with
    | nil => exact h.1
    | cons m s' =>
      obtain ⟨rfl, hpre'⟩ := List.cons_prefix_cons.mp hpre
      exact h.2 s' hpre' (fun hs => hne (by rw [hs]))

theorem realBelow_cons {fs : Tree} {path : String} {n : Name} {s : List Name} :
    RealBelow fs path (n :: s) ↔ (∃ l a, lstat fs path = .ok (l, .dir a)) ∧ RealBelow fs (join path n) s :=
  forall_proper_prefix_cons

theorem dirsBelow_cons {fs : Tree} {path : String} {n : Name} {s : List Name} :
    DirsBelow fs path (n :: s) ↔ (∃ l a, stat fs path = .ok (l, .dir a)) ∧ DirsBelow fs (join path n) s :=
  forall_proper_prefix_cons

/-- A directory is where its path leads. -/
theorem stat_of_lstat {fs : Tree} {path : String} {l : Loc} {nd : Node} (h : lstat fs path = .ok (l, nd))
    (hl : nd.isLink = false) : stat fs path = .ok (l, nd) := by
  rcases stat_lstat_cases fs path with hsame | ⟨l', t, u, g, hlink⟩
  · rw [hsame, h]
  · rw [h] at hlink
    cases hlink
    cases hl

theorem RealBelow.dirsBelow {fs : Tree} {path : String} {s : List Name} (h : RealBelow fs path s) :
    DirsBelow fs path s := by
  intro s' hpre hne
  obtain ⟨l, a, hl⟩ := h s' hpre hne
  exact ⟨l, a, stat_of_lstat hl rfl⟩

theorem dirsBelow_nil (fs : Tree) (path : String) : DirsBelow fs path [] :=
  fun _ hpre hne => absurd (List.prefix_nil.mp hpre) hne

theorem realBelow_nil (fs : Tree) (path : String) : RealBelow fs path [] :=
  fun _ hpre hne => absurd (List.prefix_nil.mp hpre) hne

theorem linksPlain_child {fs : Tree} {path : String} {n : Name} (h : LinksPlain fs path)
    (hp : ∃ l a, lstat fs path = .ok (l, .dir a)) :
    LinksPlain fs (join path n) := by
  intro s l' t u g hreal hlink
  obtain ⟨ht, hs, hd⟩ := h (n :: s) l' t u g (realBelow_cons.mpr ⟨hp, hreal⟩) hlink
  exact ⟨ht, hs, fun _ => hd (by simp)⟩

/-! ## The rows of one entry -/

theorem readLink_of_link {fs : Tree} {path : String} {l : Loc} {t : String} {u g : UInt32}
    (h : lstat fs path = .ok (l, .link t u g)) : readLink fs path = some (Text.trim t) := by
  rw [readLink, h]

/-- The row a file capture makes is the path's own. -/
theorem captureSingleFile_path {fs : Tree} {path : String} {policy : ContentPolicy} {row : FileState}
    (h : captureSingleFile fs path policy = .ok row) : row.filePath = path := by
  unfold captureSingleFile at h
  cases hm : metadata fs path with
  | error e => rw [hm] at h; cases h
  | ok md =>
    rw [hm] at h
    simp only [bind, Except.bind] at h
    split at h
    · cases h; rfl
    · split at h
      · cases h; rfl
      · split at h <;> first | cases h; rfl | cases h

/-- A directory capture that succeeds: the directory's row, then its entries'. -/
theorem captureDirectoryRecursive_ok {fs : Tree} {path : String} {l : Loc} {a : Attr} {depth : Nat}
    {rows : List FileState} (hs : stat fs path = .ok (l, .dir a))
    (h : captureDirectoryRecursive fs depth path = .ok rows) :
    ∃ k rest, depth = k + 1 ∧ rows = directoryRow fs path a :: rest ∧
      captureEach (captureChild fs k) ((fs.children l).map (join path)) = .ok rest := by
  cases depth with
  | zero => cases h
  | succ k =>
    rw [captureDirectoryRecursive_dir hs] at h
    cases hr : captureEach (captureChild fs k) ((fs.children l).map (join path)) with
    | error e => rw [hr] at h; cases h
    | ok rest =>
      rw [hr] at h
      cases h
      exact ⟨k, rest, rfl, rfl, hr⟩

theorem captureChild_dir {fs : Tree} {child : String} {l : Loc} {a : Attr} (hs : stat fs child = .ok (l, .dir a))
    (depth : Nat) : captureChild fs depth child = captureDirectoryRecursive fs depth child := by
  rw [captureChild, metadata_of_stat hs]
  rfl

theorem captureChild_file {fs : Tree} {child : String} {l : Loc} {d : Data} {a : Attr}
    (hs : stat fs child = .ok (l, .file d a)) (depth : Nat) :
    captureChild fs depth child = (captureSingleFile fs child .bestEffort).map (fun row => [row]) := by
  rw [captureChild, metadata_of_stat hs]
  rfl

theorem captureChild_absent {fs : Tree} {child : String} (hs : stat fs child = .error .enoent) (depth : Nat) :
    captureChild fs depth child = .ok [absentRow child] := by
  have hm : metadata fs child = .ok .absent := by simp [metadata, fileMetadata, hs, Except.mapError]
  rw [captureChild, hm, captureSingleFile, hm]
  rfl

/-- An entry whose capture succeeds leads to a directory, to a file, or nowhere. -/
theorem captureChild_cases {fs : Tree} {child : String} {depth : Nat} {rows : List FileState}
    (h : captureChild fs depth child = .ok rows) :
    (∃ l a, stat fs child = .ok (l, .dir a) ∧ captureDirectoryRecursive fs depth child = .ok rows) ∨
    (∃ l d a row, stat fs child = .ok (l, .file d a) ∧ captureSingleFile fs child .bestEffort = .ok row ∧
      rows = [row]) ∨
    (stat fs child = .error .enoent ∧ rows = [absentRow child]) := by
  cases hm : metadata fs child with
  | error e =>
    rw [captureChild, hm] at h
    cases h
  | ok md =>
    rcases metadata_ok hm with ⟨l, nd, hs, _⟩ | ⟨hs, _⟩
    · cases nd with
      | dir a =>
        rw [captureChild_dir hs] at h
        exact .inl ⟨l, a, hs, h⟩
      | file d a =>
        rw [captureChild_file hs] at h
        cases hf : captureSingleFile fs child .bestEffort with
        | error e => rw [hf] at h; cases h
        | ok row =>
          rw [hf] at h
          cases h
          exact .inr (.inl ⟨l, d, a, row, hs, rfl, rfl⟩)
      | link t u g => cases stat_not_link hs
    · rw [captureChild_absent hs] at h
      cases h
      exact .inr (.inr ⟨hs, rfl⟩)

/-- Every entry's rows begin with its own. -/
theorem captureChild_path {fs : Tree} {child : String} {depth : Nat} {rows : List FileState}
    (h : captureChild fs depth child = .ok rows) : ∃ r ∈ rows, r.filePath = child := by
  rcases captureChild_cases h with ⟨l, a, hs, hr⟩ | ⟨l, d, a, row, _, hf, rfl⟩ | ⟨_, rfl⟩
  · obtain ⟨k, rest, _, rfl, _⟩ := captureDirectoryRecursive_ok hs hr
    exact ⟨_, List.mem_cons_self, rfl⟩
  · exact ⟨row, List.mem_singleton.mpr rfl, captureSingleFile_path hf⟩
  · exact ⟨_, List.mem_singleton.mpr rfl, rfl⟩

/-- A link to a file is captured as a link. -/
theorem captureSingleFile_link {fs : Tree} {path : String} {l l' : Loc} {t : String} {u g : UInt32} {d : Data}
    {a : Attr} (hl : lstat fs path = .ok (l, .link t u g)) (hs : stat fs path = .ok (l', .file d a))
    (policy : ContentPolicy) :
    captureSingleFile fs path policy = .ok (linkRow path (Text.trim t) (metadataOf (.file d a))) := by
  rw [captureSingleFile, metadata_of_stat hs]
  simp only [bind, Except.bind, readLink_of_link hl]
  rfl

/-! ## A sound capture from plain links -/

/-- The capture of a link that is not mistaken: its own row, with its target. -/
theorem captureChild_plain_link {fs : Tree} {child : String} {l : Loc} {t : String} {u g : UInt32} {depth : Nat}
    {rows : List FileState} (hl : lstat fs child = .ok (l, .link t u g)) (ht : Text.trim t = t)
    (hs : stat fs child ≠ .error .enoent)
    (hd : ∀ l' a, stat fs child = .ok (l', .dir a) → fs.children l' = [])
    (h : captureChild fs depth child = .ok rows) :
    ∃ row, rows = [row] ∧ row.filePath = child ∧ row.fileLinkTarget = some t := by
  rcases captureChild_cases h with ⟨l', a, hdir, hr⟩ | ⟨l', d, a, row, hfile, hf, rfl⟩ | ⟨hnone, _⟩
  · obtain ⟨k, rest, _, rfl, heach⟩ := captureDirectoryRecursive_ok hdir hr
    rw [hd l' a hdir] at heach
    cases heach
    exact ⟨_, rfl, rfl, by rw [directoryRow, readLink_of_link hl, ht]⟩
  · rw [captureSingleFile_link hl hfile] at hf
    cases hf
    exact ⟨_, rfl, rfl, by rw [linkRow, ht]⟩
  · exact absurd hnone hs

/-- One row at its own path, with its target where that is a link, is a sound capture of
what is no directory. -/
theorem captureSound_single {fs : Tree} {path : String} {row : FileState} (hp : row.filePath = path)
    (hdir : ∀ l a, lstat fs path ≠ .ok (l, .dir a))
    (hl : ∀ l t u g, lstat fs path = .ok (l, .link t u g) → row.fileLinkTarget = some t) :
    CaptureSound fs path [row] := by
  refine ⟨fun r hr => ?_, fun s l t u g hreal hlink => ?_⟩
  · obtain rfl := List.mem_singleton.mp hr
    refine ⟨[], hp, fun s' hne hpre => absurd (List.prefix_nil.mp hpre) hne, ?_⟩
    intro l t u g h
    rw [hp] at h
    exact hl l t u g h
  · cases s with
    | nil => exact ⟨row, List.mem_singleton.mpr rfl, hp, hl l t u g hlink⟩
    | cons n s =>
      obtain ⟨l', a, h⟩ := (realBelow_cons.mp hreal).1
      exact absurd h (hdir l' a)

/-- A directory's capture is sound if those of its entries are. -/
theorem captureSound_dir {fs : Tree} {path : String} {l : Loc} {b : Nat} {a : Attr} {row : FileState}
    {rest : List FileState} {k : Nat} (h : LeadsTo fs path l b) (hd : fs.get l = some (.dir a))
    (hp : lstat fs path = .ok (l, .dir a)) (hrow : row.filePath = path)
    (heach : captureEach (captureChild fs k) ((fs.children l).map (join path)) = .ok rest)
    (hchild : ∀ n ∈ fs.children l, ∀ rs, captureChild fs k (join path n) = .ok rs →
      CaptureSound fs (join path n) rs ∧
      ((∃ l' t u g, lstat fs (join path n) = .ok (l', .link t u g)) → ∃ r, rs = [r] ∧ r.filePath = join path n)) :
    CaptureSound fs path (row :: rest) := by
  obtain ⟨hall, hfrom⟩ := captureEach_ok heach
  refine ⟨fun r hr => ?_, fun s l' t u g hreal hlink => ?_⟩
  · rcases List.mem_cons.mp hr with rfl | hr
    · refine ⟨[], hrow, fun s' hne hpre => absurd (List.prefix_nil.mp hpre) hne, ?_⟩
      intro l' t u g hl
      rw [hrow, hp] at hl
      cases hl
    · obtain ⟨c, hc, rs, hrs, hmem⟩ := hfrom r hr
      obtain ⟨n, hn, rfl⟩ := List.mem_map.mp hc
      obtain ⟨hsound, hone⟩ := hchild n hn rs hrs
      obtain ⟨s, hpath, hbetween, hrec⟩ := hsound.above r hmem
      refine ⟨n :: s, hpath, noLinkBetween_cons (fun hne l' t u g hl => ?_) hbetween, hrec⟩
      -- below a link there is its own row only
      obtain ⟨r', rfl, hr'⟩ := hone ⟨l', t, u, g, hl⟩
      obtain rfl := List.mem_singleton.mp hmem
      rw [hr'] at hpath
      exact hne (joinAll_injective (s := []) hpath).symm
  · cases s with
    | nil =>
      rw [joinAll_nil, hp] at hlink
      cases hlink
    | cons n s =>
      have hlower := (realBelow_cons.mp hreal).2
      -- the entry is there, since its path is
      have hn : n ∈ fs.children l := by
        rw [Tree.mem_children]
        cases hnd : fs.get (l ++ [n]) with
        | some nd => rfl
        | none =>
          have hmiss : lstat fs (join path n) = .error .enoent := by rw [lstat_child h hd, hnd]
          cases s with
          | nil => rw [joinAll_cons, joinAll_nil, hmiss] at hlink; cases hlink
          | cons m s =>
            obtain ⟨l'', a'', hdir⟩ := (realBelow_cons.mp hlower).1
            rw [hmiss] at hdir
            cases hdir
      obtain ⟨rs, hrs, hsub⟩ := hall (join path n) (List.mem_map.mpr ⟨n, hn, rfl⟩)
      obtain ⟨r, hr, hpath, ht⟩ := (hchild n hn rs hrs).1.recorded s l' t u g hlower hlink
      exact ⟨r, List.mem_cons_of_mem _ (hsub hr), hpath, ht⟩

/-- An entry that a path names below a directory reached is listed there. -/
theorem mem_children_of_lstat {fs : Tree} {path : String} {l : Loc} {b : Nat} {a : Attr} (h : LeadsTo fs path l b)
    (hd : fs.get l = some (.dir a)) {n : Name} {r : Loc × Node} (hn : lstat fs (join path n) = .ok r) :
    n ∈ fs.children l ∧ ∃ nd, fs.get (l ++ [n]) = some nd ∧ r = (l ++ [n], nd) := by
  rw [lstat_child h hd] at hn
  rw [Tree.mem_children]
  cases hnd : fs.get (l ++ [n]) with
  | none => rw [hnd] at hn; cases hn
  | some nd =>
    rw [hnd] at hn
    cases hn
    exact ⟨rfl, nd, rfl, rfl⟩

/-- Whatever a longer path passes is there. -/
theorem lstat_of_dirsBelow {fs : Tree} {path : String} {s : List Name} {r : Loc × Node}
    (hbelow : DirsBelow fs path s) (h : lstat fs (joinAll path s) = .ok r) : ∃ r', lstat fs path = .ok r' := by
  cases s with
  | nil => exact ⟨r, h⟩
  | cons n s =>
    obtain ⟨l, a, hs⟩ := (dirsBelow_cons.mp hbelow).1
    rcases stat_lstat_cases fs path with hsame | ⟨l', t, u, g, hlink⟩
    · exact ⟨_, hsame ▸ hs⟩
    · exact ⟨_, hlink⟩

/-- Over plain links a directory capture is sound. The induction is on the depth; only
entries that are directories themselves go deeper. -/
theorem captureSound_of_linksPlain (fs : Tree) : ∀ (depth : Nat) (path : String) (l : Loc) (b : Nat) (a : Attr)
    (rows : List FileState), LeadsTo fs path l b → fs.get l = some (.dir a) →
    lstat fs path = .ok (l, .dir a) → LinksPlain fs path →
    captureDirectoryRecursive fs depth path = .ok rows → CaptureSound fs path rows := by
  intro depth
  induction depth with
  | zero =>
    intro path l b a rows _ _ _ _ h
    cases h
  | succ depth ih =>
    intro path l b a rows hto hd hp hplain h
    have hstat : stat fs path = .ok (l, .dir a) := by rw [stat_of_leadsTo hto, nodeAt, hd]
    obtain ⟨k, rest, hk, rfl, heach⟩ := captureDirectoryRecursive_ok hstat h
    obtain rfl : depth = k := by omega
    refine captureSound_dir hto hd hp rfl heach fun n hn rs hrs => ?_
    obtain ⟨nd, hnd⟩ := Option.isSome_iff_exists.mp ((Tree.mem_children fs l n).mp hn)
    have hl : lstat fs (join path n) = .ok (l ++ [n], nd) := by rw [lstat_child hto hd, hnd]
    cases nd with
    | dir a' =>
      have hto' := leadsTo_child_real hto hd hnd rfl
      have hs' : stat fs (join path n) = .ok (l ++ [n], .dir a') := by rw [stat_of_leadsTo hto', nodeAt, hnd]
      rw [captureChild_dir hs'] at hrs
      refine ⟨ih _ _ b a' rs hto' hnd hl (linksPlain_child hplain ⟨l, a, hp⟩) hrs, ?_⟩
      rintro ⟨l', t, u, g, hlink⟩
      rw [hl] at hlink
      cases hlink
    | file d a' =>
      have hto' := leadsTo_child_real hto hd hnd rfl
      have hs' : stat fs (join path n) = .ok (l ++ [n], .file d a') := by rw [stat_of_leadsTo hto', nodeAt, hnd]
      rw [captureChild_file hs'] at hrs
      cases hf : captureSingleFile fs (join path n) .bestEffort with
      | error e => rw [hf] at hrs; cases hrs
      | ok row =>
        rw [hf] at hrs
        cases hrs
        have hrow := captureSingleFile_path hf
        refine ⟨captureSound_single hrow ?_ ?_, fun _ => ⟨row, rfl, hrow⟩⟩
        · intro l' a'' hdir
          rw [hl] at hdir
          cases hdir
        · intro l' t u g hlink
          rw [hl] at hlink
          cases hlink
    | link t u g =>
      have hbelow : RealBelow fs path [n] := realBelow_cons.mpr ⟨⟨l, a, hp⟩, realBelow_nil _ _⟩
      obtain ⟨ht, hne, hempty⟩ := hplain [n] _ t u g hbelow hl
      obtain ⟨row, rfl, hrow, htarget⟩ := captureChild_plain_link hl ht hne (hempty (by simp)) hrs
      refine ⟨captureSound_single hrow ?_ ?_, fun _ => ⟨row, rfl, hrow⟩⟩
      · intro l' a' hdir
        rw [hl] at hdir
        cases hdir
      · intro l' t' u' g' hlink
        rw [hl] at hlink
        cases hlink
        exact htarget

/-! ## Plain links from a sound capture -/

/-- A directory's capture reaches whatever directories lead to, links to directories
included: it was captured as an entry of one. -/
theorem captureChild_of_dirsBelow (fs : Tree) : ∀ (s : List Name) (path : String) (depth : Nat) (l : Loc) (a : Attr)
    (rows : List FileState) (r : Loc × Node), stat fs path = .ok (l, .dir a) →
    captureDirectoryRecursive fs depth path = .ok rows → s ≠ [] → DirsBelow fs path s →
    lstat fs (joinAll path s) = .ok r →
    ∃ k rs, captureChild fs k (joinAll path s) = .ok rs ∧ rs ⊆ rows := by
  intro s
  induction s with
  | nil =>
    intro path depth l a rows r _ _ hne
    exact absurd rfl hne
  | cons n s ih =>
    intro path depth l a rows r hstat h _ hbelow hr
    obtain ⟨hd, b, hto⟩ := leadsTo_of_stat hstat
    obtain ⟨k, rest, _, rfl, heach⟩ := captureDirectoryRecursive_ok hstat h
    have hlower := (dirsBelow_cons.mp hbelow).2
    obtain ⟨r', hr'⟩ := lstat_of_dirsBelow hlower hr
    obtain ⟨hn, _⟩ := mem_children_of_lstat hto hd hr'
    obtain ⟨rs, hrs, hsub⟩ := (captureEach_ok heach).1 (join path n) (List.mem_map.mpr ⟨n, hn, rfl⟩)
    have hsub' : rs ⊆ directoryRow fs path a :: rest := List.Subset.trans hsub (List.subset_cons_self _ _)
    by_cases hs : s = []
    · subst hs
      exact ⟨k, rs, hrs, hsub'⟩
    · -- a longer path passes the entry, which leads to a directory then
      obtain ⟨l', a', hdir⟩ := hlower [] List.nil_prefix (fun h => hs h.symm)
      rw [joinAll_nil] at hdir
      rw [captureChild_dir hdir] at hrs
      obtain ⟨k', rs', hrs', hsub''⟩ := ih _ k _ a' rs r hdir hrs hs hlower hr
      exact ⟨k', rs', hrs', List.Subset.trans hsub'' hsub'⟩

/-- In a sound capture the links are plain that were captured as entries. -/
theorem plain_of_captureSound {fs : Tree} {path : String} {rows rs : List FileState} {s : List Name} {k : Nat}
    {l : Loc} {t : String} {u g : UInt32} (hsound : CaptureSound fs path rows) (hs : s ≠ [])
    (hl : lstat fs (joinAll path s) = .ok (l, .link t u g)) (h : captureChild fs k (joinAll path s) = .ok rs)
    (hsub : rs ⊆ rows) :
    Text.trim t = t ∧ stat fs (joinAll path s) ≠ .error .enoent ∧
      ∀ l' a, stat fs (joinAll path s) = .ok (l', .dir a) → fs.children l' = [] := by
  -- the entry's own row says where the link leads
  have hrecorded : ∀ row ∈ rows, row.filePath = joinAll path s → row.fileLinkTarget = some t := by
    intro row hrow hpath
    obtain ⟨_, _, _, hrec⟩ := hsound.above row hrow
    exact hrec l t u g (by rw [hpath]; exact hl)
  rcases captureChild_cases h with ⟨l', a, hdir, hr⟩ | ⟨l', d, a, row, hfile, hf, rfl⟩ | ⟨_, rfl⟩
  · obtain ⟨k', rest, _, rfl, heach⟩ := captureDirectoryRecursive_ok hdir hr
    have htarget := hrecorded _ (hsub List.mem_cons_self) rfl
    rw [directoryRow, readLink_of_link hl] at htarget
    refine ⟨Option.some.inj htarget, (by simp [hdir]), ?_⟩
    intro l'' a' hdir'
    rw [hdir] at hdir'
    cases hdir'
    -- an entry behind the link would have a row beyond it
    by_contra hne
    obtain ⟨m, hm⟩ := List.exists_mem_of_ne_nil _ hne
    obtain ⟨rs', hrs', hsub'⟩ := (captureEach_ok heach).1 _ (List.mem_map.mpr ⟨m, hm, rfl⟩)
    obtain ⟨r, hr', hpath⟩ := captureChild_path hrs'
    obtain ⟨s', hs', hbetween, _⟩ := hsound.above r (hsub (List.mem_cons_of_mem _ (hsub' hr')))
    have hjoin : joinAll path s' = joinAll path (s ++ [m]) := by
      rw [← hs', hpath, joinAll_append, joinAll_cons, joinAll_nil]
    obtain rfl := joinAll_injective hjoin
    exact hbetween s hs (List.prefix_append s [m]) (by simp) l t u g hl
  · rw [captureSingleFile_link hl hfile] at hf
    cases hf
    have htarget := hrecorded _ (hsub (List.mem_singleton.mpr rfl)) rfl
    refine ⟨Option.some.inj htarget, (by simp [hfile]), ?_⟩
    intro l'' a' hdir
    rw [hfile] at hdir
    cases hdir
  · have htarget := hrecorded _ (hsub (List.mem_singleton.mpr rfl)) rfl
    cases htarget

/-- A directory capture is sound exactly over plain links. -/
theorem captureDirectoryRecursive_sound_iff {fs : Tree} {path : String} {l : Loc} {a : Attr} {depth : Nat}
    {rows : List FileState} (hs : stat fs path = .ok (l, .dir a)) (hp : lstat fs path = .ok (l, .dir a))
    (h : captureDirectoryRecursive fs depth path = .ok rows) : CaptureSound fs path rows ↔ LinksPlain fs path := by
  obtain ⟨hd, b, hto⟩ := leadsTo_of_stat hs
  constructor
  · intro hsound s l' t u g hreal hlink
    by_cases hnil : s = []
    · subst hnil
      rw [joinAll_nil, hp] at hlink
      cases hlink
    · obtain ⟨k, rs, hrs, hsub⟩ := captureChild_of_dirsBelow fs s path depth l a rows _ hs h hnil
        hreal.dirsBelow hlink
      obtain ⟨ht, hne, hempty⟩ := plain_of_captureSound hsound hnil hlink hrs hsub
      exact ⟨ht, hne, fun _ => hempty⟩
  · intro hplain
    exact captureSound_of_linksPlain fs depth path l b a rows hto hd hp hplain h

/-! ## A declared path -/

/-- Where no directory stands, only the path's own link can be mistaken. -/
theorem linksPlain_of_not_dir {fs : Tree} {path : String} (hdir : ∀ l a, lstat fs path ≠ .ok (l, .dir a)) :
    LinksPlain fs path ↔ ∀ l t u g, lstat fs path = .ok (l, .link t u g) →
      Text.trim t = t ∧ stat fs path ≠ .error .enoent := by
  constructor
  · intro h l t u g hl
    obtain ⟨ht, hne, _⟩ := h [] l t u g (realBelow_nil fs path) hl
    exact ⟨ht, hne⟩
  · intro h s l t u g hreal hl
    cases s with
    | nil =>
      obtain ⟨ht, hne⟩ := h l t u g hl
      exact ⟨ht, hne, fun hs => absurd rfl hs⟩
    | cons n s =>
      obtain ⟨l', a, hp⟩ := (realBelow_cons.mp hreal).1
      exact absurd hp (hdir l' a)

/-- What no directory stands at has one row, and its capture is sound exactly if that
row has the target of a link there. -/
theorem captureSound_single_iff {fs : Tree} {path : String} {row : FileState} (hp : row.filePath = path)
    (hdir : ∀ l a, lstat fs path ≠ .ok (l, .dir a)) :
    CaptureSound fs path [row] ↔
      ∀ l t u g, lstat fs path = .ok (l, .link t u g) → row.fileLinkTarget = some t := by
  constructor
  · intro h l t u g hl
    obtain ⟨_, _, _, hrec⟩ := h.above row (List.mem_singleton.mpr rfl)
    exact hrec l t u g (by rw [hp]; exact hl)
  · exact captureSound_single hp hdir

/-- The four ways in which a declared path is captured. -/
theorem captureFileState_cases {fs : Tree} {path : String} {rows : List FileState}
    (h : captureFileState fs path = .ok rows) :
    (stat fs path = .error .enoent ∧ rows = [absentRow path]) ∨
    (∃ l t u g l' nd, lstat fs path = .ok (l, .link t u g) ∧ stat fs path = .ok (l', nd) ∧
      rows = [linkRow path (Text.trim t) (metadataOf nd)]) ∨
    (∃ l a, lstat fs path = .ok (l, .dir a) ∧ stat fs path = .ok (l, .dir a) ∧
      captureDirectoryRecursive fs (captureDepth fs) path = .ok rows) ∨
    (∃ l d a row, lstat fs path = .ok (l, .file d a) ∧ stat fs path = .ok (l, .file d a) ∧
      captureSingleFile fs path .required = .ok row ∧ rows = [row]) := by
  unfold captureFileState captureFileStateTo at h
  cases hm : metadata fs path with
  | error e =>
    rw [hm] at h
    cases h
  | ok md =>
    rw [hm] at h
    simp only [bind, Except.bind] at h
    rcases metadata_ok hm with ⟨l, nd, hs, rfl⟩ | ⟨hs, rfl⟩
    · rw [if_neg (by simp [metadataOf])] at h
      rcases stat_lstat_cases fs path with hsame | ⟨l', t, u, g, hlink⟩
      · have hl : lstat fs path = .ok (l, nd) := hsame ▸ hs
        have hnone : readLink fs path = none := by
          have hnl := stat_not_link hs
          rw [readLink, hl]
          cases nd with
          | file d a => rfl
          | dir a => rfl
          | link t u g => cases hnl
        rw [hnone] at h
        cases nd with
        | dir a => exact .inr (.inr (.inl ⟨l, a, hl, hs, h⟩))
        | link t u g => cases stat_not_link hs
        | file d a =>
          cases hf : captureSingleFile fs path .required with
          | error e =>
            rw [hf] at h
            cases h
          | ok row =>
            rw [hf] at h
            cases h
            exact .inr (.inr (.inr ⟨l, d, a, row, hl, hs, rfl, rfl⟩))
      · rw [readLink_of_link hlink] at h
        cases h
        exact .inr (.inl ⟨l', t, u, g, l, nd, hlink, hs, rfl⟩)
    · cases h
      exact .inl ⟨hs, rfl⟩

/-- Every capture ends, and one that succeeds stays above links and records every link
it meets exactly if all links at and below the declared path are plain. -/
theorem capture_ends_and_stays_above_links_iff (fs : Tree) (path : String) :
    (captureFileState fs path ≠ .error .outOfFuel ∧
      ∀ depth, captureDepth fs ≤ depth → captureFileStateTo fs depth path = captureFileState fs path) ∧
    ∀ rows, captureFileState fs path = .ok rows → (CaptureSound fs path rows ↔ LinksPlain fs path) := by
  refine ⟨captureFileState_terminates fs path, fun rows h => ?_⟩
  rcases captureFileState_cases h with
    ⟨hs, rfl⟩ | ⟨l, t, u, g, l', nd, hl, hs, rfl⟩ | ⟨l, a, hl, hs, hr⟩ | ⟨l, d, a, row, hl, hs, hf, rfl⟩
  · -- absent, or a link that leads nowhere
    have hdir : ∀ l a, lstat fs path ≠ .ok (l, .dir a) := by
      intro l a hl
      rcases stat_lstat_cases fs path with hsame | ⟨l', t, u, g, hlink⟩
      · rw [hsame, hl] at hs
        cases hs
      · rw [hl] at hlink
        cases hlink
    have hrow : (absentRow path).filePath = path := rfl
    rw [captureSound_single_iff hrow hdir, linksPlain_of_not_dir hdir]
    constructor
    · intro hrec l t u g hl
      cases hrec l t u g hl
    · intro hplain l t u g hl
      exact absurd hs (hplain l t u g hl).2
  · have hdir : ∀ l a, lstat fs path ≠ .ok (l, .dir a) := by
      intro l a hd
      rw [hl] at hd
      cases hd
    have hrow : (linkRow path (Text.trim t) (metadataOf nd)).filePath = path := rfl
    rw [captureSound_single_iff hrow hdir, linksPlain_of_not_dir hdir]
    constructor
    · intro hrec l t' u' g' hl'
      have ht := hrec l t' u' g' hl'
      rw [hl] at hl'
      cases hl'
      refine ⟨Option.some.inj ht, ?_⟩
      rw [hs]
      intro hc
      cases hc
    · intro hplain l t' u' g' hl'
      obtain ⟨ht, _⟩ := hplain l t' u' g' hl'
      rw [hl] at hl'
      cases hl'
      show some (Text.trim t) = some t
      rw [ht]
  · exact captureDirectoryRecursive_sound_iff hs hl hr
  · have hdir : ∀ l a, lstat fs path ≠ .ok (l, .dir a) := by
      intro l a hd
      rw [hl] at hd
      cases hd
    rw [captureSound_single_iff (captureSingleFile_path hf) hdir, linksPlain_of_not_dir hdir]
    constructor <;>
    · intro _ l t u g hlink
      rw [hl] at hlink
      cases hlink

theorem validName_etc : ValidName "etc" := by decide

def etc : Name := ⟨"etc", validName_etc⟩

def srv : Name := ⟨"srv", by decide⟩

/-- A directory whose one entry is a link to another that is not empty. -/
def linkedDirectory : Tree where
  root := ⟨0o755, 0, 0⟩
  entries := [
    ([etc], .dir ⟨0o755, 0, 0⟩),
    ([etc, ⟨"conf.d", by decide⟩], .link "/srv" 0 0),
    ([srv], .dir ⟨0o755, 0, 0⟩),
    ([srv, ⟨"conf", by decide⟩], .dir ⟨0o700, 0, 0⟩)]

theorem captureFileState_linkedDirectory : captureFileState linkedDirectory "/etc" = .ok [
    ⟨"/etc", none, 0o040755, 0, 0, none, some .byDesign⟩,
    ⟨"/etc/conf.d", none, 0o040755, 0, 0, some "/srv", some .byDesign⟩,
    ⟨"/etc/conf.d/conf", none, 0o040700, 0, 0, none, some .byDesign⟩] := by
  decide +kernel

/-- The capture of `/etc` goes through `/etc/conf.d` into `/srv`. -/
theorem capture_descends_link_counterexample :
    ¬ (∀ (fs : Tree) (path : String), captureFileState fs path ≠ .error .outOfFuel ∧
      ∀ rows, captureFileState fs path = .ok rows → CaptureSound fs path rows) := by
  intro h
  have hsound := (h linkedDirectory "/etc").2 _ captureFileState_linkedDirectory
  obtain ⟨s, hs, hbetween, _⟩ := hsound.above ⟨"/etc/conf.d/conf", none, 0o040700, 0, 0, none, some .byDesign⟩
    (by decide)
  have hjoin : joinAll "/etc" s = joinAll "/etc" [⟨"conf.d", by decide⟩, ⟨"conf", by decide⟩] :=
    hs.symm.trans (by decide)
  obtain rfl := joinAll_injective hjoin
  exact hbetween [⟨"conf.d", by decide⟩] (by simp) (by simp) (by simp) [⟨"etc", by decide⟩, ⟨"conf.d", by decide⟩]
    "/srv" 0 0 (by decide +kernel)

/-- Such a capture succeeds and is not sound. -/
theorem capture_not_above_links :
    ¬ CaptureSound linkedDirectory "/etc" [
      ⟨"/etc", none, 0o040755, 0, 0, none, some .byDesign⟩,
      ⟨"/etc/conf.d", none, 0o040755, 0, 0, some "/srv", some .byDesign⟩,
      ⟨"/etc/conf.d/conf", none, 0o040700, 0, 0, none, some .byDesign⟩] := by
  rw [(capture_ends_and_stays_above_links_iff linkedDirectory "/etc").2 _ captureFileState_linkedDirectory]
  intro hplain
  have hbelow : RealBelow linkedDirectory "/etc" [⟨"conf.d", by decide⟩] :=
    realBelow_cons.mpr ⟨⟨[⟨"etc", by decide⟩], ⟨0o755, 0, 0⟩, by decide +kernel⟩, realBelow_nil _ _⟩
  have hlink : lstat linkedDirectory (joinAll "/etc" [⟨"conf.d", by decide⟩]) =
      .ok ([⟨"etc", by decide⟩, ⟨"conf.d", by decide⟩], .link "/srv" 0 0) := by decide +kernel
  obtain ⟨_, _, hempty⟩ := hplain _ _ _ _ _ hbelow hlink
  have hnil := hempty (by simp) [⟨"srv", by decide⟩] ⟨0o755, 0, 0⟩ (by decide +kernel)
  revert hnil
  decide

end LinuxHardener.State
