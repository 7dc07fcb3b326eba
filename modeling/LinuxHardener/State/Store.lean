import LinuxHardener.State.CaptureLinks

/-
  Storing a captured checkpoint, loading it back, and verifying it.

  `ORDER BY file_path` leaves the rows of one path in any order, and the digest
  sorts by path alone, so it sees that order.

  What is proved:
    1. `load_of_store` — what is loaded is what was stored, up to the order.
    2. `sharedPathsCommute_iff_not_capturedTwice` — captured rows of one path are
       equal unless a link to a directory is declared and also met below another
       declared path.
    3. `stored_checkpoint_verifies_iff` — a checkpoint verifies in every order the
       database may return exactly if there is no such link.

  Correspondence (Rust ↔ Lean):
    `store_checkpoint`, `get_checkpoint` ↔ `storeRow` and `loadRow` over `DbSelect`
    `CheckpointSigner::{sign, verify}`  ↔ `Signer`
    `verify_checkpoint`                 ↔ `verifyCheckpoint`
-/
namespace LinuxHardener.State

open FileTree

/-! ## The rows of one path -/

/-- The row a directory's capture makes of a path below it. -/
def EntryRow (fs : Tree) (path : String) (row : FileState) : Prop :=
  (∃ l a, stat fs path = .ok (l, .dir a) ∧ row = directoryRow fs path a) ∨
  (∃ l d a, stat fs path = .ok (l, .file d a) ∧ captureSingleFile fs path .bestEffort = .ok row) ∨
  (stat fs path = .error .enoent ∧ row = absentRow path)

/-- A link to a directory, at a declared path, that the capture of another declared
path meets on its way down. -/
def CapturedTwice (fs : Tree) (paths : List String) : Prop :=
  ∃ p ∈ paths, ∃ q ∈ paths, ∃ s, p = joinAll q s ∧ (∃ l a, lstat fs q = .ok (l, .dir a)) ∧ DirsBelow fs q s ∧
    (∃ l t u g, lstat fs p = .ok (l, .link t u g)) ∧ ∃ l a, stat fs p = .ok (l, .dir a)

theorem EntryRow.path {fs : Tree} {path : String} {row : FileState} (h : EntryRow fs path row) :
    row.filePath = path := by
  rcases h with ⟨l, a, _, rfl⟩ | ⟨l, d, a, _, hf⟩ | ⟨_, rfl⟩
  · rfl
  · exact captureSingleFile_path hf
  · rfl

/-- A path has one such row. -/
theorem EntryRow.unique {fs : Tree} {path : String} {row row' : FileState} (h : EntryRow fs path row)
    (h' : EntryRow fs path row') : row = row' := by
  rcases h with ⟨l, a, hs, rfl⟩ | ⟨l, d, a, hs, hf⟩ | ⟨hs, rfl⟩ <;>
  rcases h' with ⟨l', a', hs', rfl⟩ | ⟨l', d', a', hs', hf'⟩ | ⟨hs', rfl⟩ <;>
  rw [hs] at hs' <;> cases hs'
  · rfl
  · rw [hf] at hf'
    exact Except.ok.inj hf'

/-- Every row of a directory's capture is that of a path directories lead to. The
induction is on the depth. -/
theorem entryRow_of_captureDirectoryRecursive (fs : Tree) : ∀ (depth : Nat) (path : String) (l : Loc) (a : Attr)
    (rows : List FileState), stat fs path = .ok (l, .dir a) → captureDirectoryRecursive fs depth path = .ok rows →
    ∀ r ∈ rows, ∃ s, DirsBelow fs path s ∧ EntryRow fs (joinAll path s) r := by
  intro depth
  induction depth with
  | zero =>
    intro path l a rows _ h
    cases h
  | succ depth ih =>
    intro path l a rows hs h r hr
    obtain ⟨k, rest, hk, rfl, heach⟩ := captureDirectoryRecursive_ok hs h
    obtain rfl : depth = k := by omega
    rcases List.mem_cons.mp hr with rfl | hr
    · exact ⟨[], dirsBelow_nil fs path, .inl ⟨l, a, hs, rfl⟩⟩
    · obtain ⟨c, hc, rs, hrs, hmem⟩ := (captureEach_ok heach).2 r hr
      obtain ⟨n, _, rfl⟩ := List.mem_map.mp hc
      have hone : DirsBelow fs path [n] := dirsBelow_cons.mpr ⟨⟨l, a, hs⟩, dirsBelow_nil _ _⟩
      rcases captureChild_cases hrs with ⟨l', a', hs', hr'⟩ | ⟨l', d, a', row, hs', hf, rfl⟩ | ⟨hs', rfl⟩
      · obtain ⟨s, hbelow, hentry⟩ := ih _ l' a' rs hs' hr' r hmem
        exact ⟨n :: s, dirsBelow_cons.mpr ⟨⟨l, a, hs⟩, hbelow⟩, hentry⟩
      · obtain rfl := List.mem_singleton.mp hmem
        exact ⟨[n], hone, .inr (.inl ⟨l', d, a', hs', hf⟩)⟩
      · obtain rfl := List.mem_singleton.mp hmem
        exact ⟨[n], hone, .inr (.inr ⟨hs', rfl⟩)⟩

/-- A file whose content could be read is captured alike under either policy. -/
theorem captureSingleFile_bestEffort {fs : Tree} {path : String} {row : FileState}
    (h : captureSingleFile fs path .required = .ok row) : captureSingleFile fs path .bestEffort = .ok row := by
  unfold captureSingleFile at h ⊢
  cases hm : metadata fs path with
  | error e =>
    rw [hm] at h
    cases h
  | ok md =>
    rw [hm] at h
    cases hl : readLink fs path with
    | some t =>
      rw [hl] at h
      exact h
    | none =>
      cases hr : readFile fs path with
      | ok s =>
        rw [hl, hr] at h
        exact h
      | error e =>
        rw [hl, hr] at h
        cases hx : md.fileExists with
        | false => simpa [bind, Except.bind, hx] using h
        | true => simp [bind, Except.bind, hx] at h

/-- The rows of a declared path: those below a directory, or one that is the path's
own, which differs from what a directory's capture would record only for a link to a
directory. -/
theorem captureFileState_row {fs : Tree} {path : String} {rows : List FileState}
    (h : captureFileState fs path = .ok rows) {r : FileState} (hr : r ∈ rows) :
    (∃ s, (∃ l a, lstat fs path = .ok (l, .dir a)) ∧ DirsBelow fs path s ∧ EntryRow fs (joinAll path s) r) ∨
    (rows = [r] ∧ (EntryRow fs path r ∨
      (∃ l t u g, lstat fs path = .ok (l, .link t u g)) ∧ ∃ l a, stat fs path = .ok (l, .dir a))) := by
  rcases captureFileState_cases h with
    ⟨hs, rfl⟩ | ⟨l, t, u, g, l', nd, hl, hs, rfl⟩ | ⟨l, a, hl, hs, hdir⟩ | ⟨l, d, a, row, hl, hs, hf, rfl⟩
  · obtain rfl := List.mem_singleton.mp hr
    exact .inr ⟨rfl, .inl (.inr (.inr ⟨hs, rfl⟩))⟩
  · obtain rfl := List.mem_singleton.mp hr
    refine .inr ⟨rfl, ?_⟩
    cases nd with
    | dir a => exact .inr ⟨⟨l, t, u, g, hl⟩, l', a, hs⟩
    | file d a => exact .inl (.inr (.inl ⟨l', d, a, hs, captureSingleFile_link hl hs _⟩))
    | link t' u' g' => cases stat_not_link hs
  · obtain ⟨s, hbelow, hentry⟩ := entryRow_of_captureDirectoryRecursive fs _ path l a rows hs hdir r hr
    exact .inl ⟨s, ⟨l, a, hl⟩, hbelow, hentry⟩
  · obtain rfl := List.mem_singleton.mp hr
    exact .inr ⟨rfl, .inl (.inr (.inl ⟨l, d, a, hs, captureSingleFile_bestEffort hf⟩))⟩

theorem captureFileState_row_path {fs : Tree} {path : String} {r : FileState}
    (h : captureFileState fs path = .ok [r]) : r.filePath = path := by
  rcases captureFileState_cases h with
    ⟨_, he⟩ | ⟨l, t, u, g, l', nd, _, _, he⟩ | ⟨l, a, _, hs, hdir⟩ | ⟨l, d, a, row, _, _, hf, he⟩
  · cases he
    rfl
  · cases he
    rfl
  · obtain ⟨k, rest, _, he, _⟩ := captureDirectoryRecursive_ok hs hdir
    cases he
    rfl
  · cases he
    exact captureSingleFile_path hf

/-- Captured rows of one path are equal where no link is captured twice. -/
theorem row_eq_of_not_capturedTwice {fs : Tree} {paths : List String} {rows : List FileState}
    (h : captureAll fs paths = .ok rows) (hn : ¬ CapturedTwice fs paths) {r r' : FileState} (hr : r ∈ rows)
    (hr' : r' ∈ rows) (hp : r.filePath = r'.filePath) : r = r' := by
  obtain ⟨_, hfrom⟩ := captureEach_ok h
  obtain ⟨p, hpm, rs, hrs, hmem⟩ := hfrom r hr
  obtain ⟨p', hpm', rs', hrs', hmem'⟩ := hfrom r' hr'
  rcases captureFileState_row hrs hmem with ⟨s, hdir, hbelow, he⟩ | ⟨rfl, hown⟩ <;>
  rcases captureFileState_row hrs' hmem' with ⟨s', hdir', hbelow', he'⟩ | ⟨rfl, hown'⟩
  · rw [he.path, he'.path] at hp
    exact he.unique (hp ▸ he')
  · have hpath := captureFileState_row_path hrs'
    have hjoin : joinAll p s = p' := by rw [← he.path, hp, hpath]
    rcases hown' with he' | ⟨hlink, hs⟩
    · exact he.unique (hjoin ▸ he')
    · exact absurd ⟨p', hpm', p, hpm, s, hjoin.symm, hdir, hbelow, hlink, hs⟩ hn
  · have hpath := captureFileState_row_path hrs
    have hjoin : joinAll p' s' = p := by rw [← he'.path, ← hp, hpath]
    rcases hown with he | ⟨hlink, hs⟩
    · exact (he'.unique (hjoin ▸ he)).symm
    · exact absurd ⟨p, hpm, p', hpm', s', hjoin.symm, hdir', hbelow', hlink, hs⟩ hn
  · have hsame : p = p' := by
      rw [← captureFileState_row_path hrs, hp, captureFileState_row_path hrs']
    subst hsame
    rw [hrs] at hrs'
    exact List.head_eq_of_cons_eq (Except.ok.inj hrs')

/-- The type bits of a directory's mode are not those of a link. -/
theorem mode_dir_ne_symlinkMode (a : Attr) : Node.mode (.dir a) ≠ symlinkMode := by
  intro h
  have hlt : a.perm.toNat < 4096 := a.perm.isLt
  have hn := congrArg UInt32.toNat h
  have hmode : (Node.mode (.dir a)).toNat = 0o040000 + a.perm.toNat := by
    show (UInt32.ofNat (0o040000 + a.perm.toNat)).toNat = _
    rw [UInt32.toNat_ofNat']
    omega
  have hlink : symlinkMode.toNat = 0o120777 := rfl
  omega

/-- The two rows of a link to a directory tell their order. -/
theorem rowBytes_not_comm (fs : Tree) (path : String) (a : Attr) (t : String) (md : FileMetadata) :
    rowBytes (directoryRow fs path a) ++ rowBytes (linkRow path t md) ≠
      rowBytes (linkRow path t md) ++ rowBytes (directoryRow fs path a) := by
  intro h
  simp only [rowBytes, directoryRow, linkRow, List.append_assoc, Option.getD_none, List.nil_append,
    List.append_cancel_left_eq] at h
  have hmode := List.append_inj_left h rfl
  exact mode_dir_ne_symlinkMode a (be32_injective hmode)

/-- Captured rows of one path commute exactly if no link is captured twice. -/
theorem sharedPathsCommute_iff_not_capturedTwice {fs : Tree} {paths : List String} {rows : List FileState}
    (h : captureAll fs paths = .ok rows) : SharedPathsCommute rows ↔ ¬ CapturedTwice fs paths := by
  constructor
  · rintro hc ⟨p, hp, q, hq, s, rfl, ⟨lq, aq, hdir⟩, hbelow, ⟨l, t, u, g, hlink⟩, l', a, hs⟩
    obtain ⟨hall, _⟩ := captureEach_ok h
    obtain ⟨rs, hrs, hsub⟩ := hall _ hp
    obtain ⟨rs', hrs', hsub'⟩ := hall q hq
    -- the row of the declared link
    have hown : linkRow (joinAll q s) (Text.trim t) (metadataOf (.dir a)) ∈ rows := by
      rcases captureFileState_cases hrs with
        ⟨hs', _⟩ | ⟨_, t', _, _, _, nd, hl', hs', rfl⟩ | ⟨_, _, hl', _, _⟩ | ⟨_, _, _, _, hl', _, _, _⟩
      · rw [hs] at hs'
        cases hs'
      · rw [hlink] at hl'
        rw [hs] at hs'
        cases hl'
        cases hs'
        exact hsub (List.mem_singleton.mpr rfl)
      · rw [hlink] at hl'
        cases hl'
      · rw [hlink] at hl'
        cases hl'
    -- the row of the entry met below the declared directory
    have hentry : directoryRow fs (joinAll q s) a ∈ rows := by
      have hsq := stat_of_lstat hdir rfl
      rcases captureFileState_cases hrs' with
        ⟨hs', _⟩ | ⟨_, _, _, _, _, _, hl', _, _⟩ | ⟨_, _, _, _, hr⟩ | ⟨_, _, _, _, hl', _, _, _⟩
      · rw [hsq] at hs'
        cases hs'
      · rw [hdir] at hl'
        cases hl'
      · have hne : s ≠ [] := by
          rintro rfl
          rw [joinAll_nil, hdir] at hlink
          cases hlink
        obtain ⟨k, rs'', hc', hsub''⟩ := captureChild_of_dirsBelow fs s q _ _ _ rs' _ hsq hr hne hbelow hlink
        rw [captureChild_dir hs] at hc'
        obtain ⟨_, rest, _, rfl, _⟩ := captureDirectoryRecursive_ok hs hc'
        exact hsub' (hsub'' List.mem_cons_self)
      · rw [hdir] at hl'
        cases hl'
    exact rowBytes_not_comm fs _ a _ _ (hc _ hentry _ hown rfl)
  · intro hn r hr r' hr' hp
    rw [row_eq_of_not_capturedTwice h hn hr hr' hp]

/-! ## Through the database -/

/-- The rows stored, as a `SELECT … ORDER BY file_path` may return them. -/
structure DbSelect (stored returned : List DbRow) : Prop where
  perm : stored.Perm returned
  sorted : returned.Pairwise (fun a b => utf8 a.filePath ≤ utf8 b.filePath)

/-- What the signing key does, as far as a checkpoint relies on it. -/
structure Signer where
  sign : Bytes → Bytes
  verify : Bytes → Bytes → Bool
  verify_sign : ∀ digest, verify digest (sign digest) = true

def verifyCheckpoint (signer : Signer) (c : Checkpoint) (rows : List FileState) : Bool :=
  signer.verify (generateDigest c rows) c.checkpointSignature

/-- The metadata row as `persist_signed_checkpoint` signs it. -/
def signCheckpoint (signer : Signer) (c : Checkpoint) (rows : List FileState) : Checkpoint :=
  { c with checkpointSignature := signer.sign (generateDigest c rows) }

/-- In every order the database may return the rows in, they are the ones stored,
their digest is the one signed, and the checkpoint verifies. -/
def RoundTrips (signer : Signer) (c : Checkpoint) (rows : List FileState) : Prop :=
  ∀ returned, DbSelect (rows.map storeRow) returned →
    rows.Perm (returned.map loadRow) ∧
    generateDigest c (returned.map loadRow) = generateDigest c rows ∧
    verifyCheckpoint signer (signCheckpoint signer c rows) (returned.map loadRow) = true

/-- What is loaded is what was stored, in some order that agrees on the paths. -/
theorem load_of_store {rows : List FileState} {returned : List DbRow}
    (h : DbSelect (rows.map storeRow) returned) : DbOrder rows (returned.map loadRow) := by
  have hload : rows = (rows.map storeRow).map loadRow := by
    rw [List.map_map]
    exact (List.map_id'' loadRow_storeRow rows).symm
  refine ⟨?_, List.pairwise_map.mpr h.sorted⟩
  conv_lhs => rw [hload]
  exact h.perm.map loadRow

/-- Each such order is one the database may return. -/
theorem store_of_dbOrder {rows dbRows : List FileState} (h : DbOrder rows dbRows) :
    ∃ returned, DbSelect (rows.map storeRow) returned ∧ returned.map loadRow = dbRows := by
  refine ⟨dbRows.map storeRow, ⟨h.perm.map storeRow, List.pairwise_map.mpr h.sorted⟩, ?_⟩
  rw [List.map_map]
  exact List.map_id'' loadRow_storeRow dbRows

/-- The signed bytes of every order the database may return. -/
def loadedBytes (c : Checkpoint) (rows : List FileState) : Set Bytes :=
  {b | ∃ returned, DbSelect (rows.map storeRow) returned ∧ b = signedBytes c (returned.map loadRow)}

/-- The order in which the rows were signed is one of them. -/
theorem signedBytes_mem_loadedBytes (c : Checkpoint) (rows : List FileState) :
    signedBytes c rows ∈ loadedBytes c rows := by
  obtain ⟨returned, hsel, hload⟩ := store_of_dbOrder (sortByPath_dbOrder rows)
  refine ⟨returned, hsel, ?_⟩
  rw [hload, signedBytes, signedBytes, sortByPath_of_pairwise (sortByPath_pairwise rows)]

/-- A captured checkpoint round trips, in every order of the rows, exactly if no
declared link to a directory is met below another declared path. -/
theorem stored_checkpoint_verifies_iff (signer : Signer) (fs : Tree) (paths : List String) (c : Checkpoint)
    (rows : List FileState) (h : captureAll fs paths = .ok rows)
    (hsha : Sha256.CollisionFreeOn (loadedBytes c rows)) :
    RoundTrips signer c rows ↔ ¬ CapturedTwice fs paths := by
  rw [← sharedPathsCommute_iff_not_capturedTwice h]
  constructor
  · intro hrt
    refine sharedPathsCommute_of_signedBytes_eq c fun dbRows hord => ?_
    obtain ⟨returned, hsel, rfl⟩ := store_of_dbOrder hord
    obtain ⟨_, hdigest, _⟩ := hrt returned hsel
    exact hsha _ ⟨returned, hsel, rfl⟩ _ (signedBytes_mem_loadedBytes c rows) hdigest
  · intro hcomm returned hsel
    have hord := load_of_store hsel
    have hdigest : generateDigest c (returned.map loadRow) = generateDigest c rows :=
      congrArg Sha256.digest (signedBytes_eq_of_dbOrder hcomm hord c)
    refine ⟨hord.perm, hdigest, ?_⟩
    show signer.verify (generateDigest c (returned.map loadRow)) (signer.sign (generateDigest c rows)) = true
    rw [hdigest]
    exact signer.verify_sign _

/-- A checkpoint header. -/
def sshHeader : Checkpoint := ⟨"cp_1_00000001", "ssh", 1#64, "root", [], "local"⟩

/-- The rows of `/etc` in `linkedDirectory`, and of the link below it, declared as well. -/
def linkedDirectoryRows : List FileState := [
  ⟨"/etc", none, 0o040755, 0, 0, none, some .byDesign⟩,
  ⟨"/etc/conf.d", none, 0o040755, 0, 0, some "/srv", some .byDesign⟩,
  ⟨"/etc/conf.d/conf", none, 0o040700, 0, 0, none, some .byDesign⟩,
  ⟨"/etc/conf.d", none, 0o120777, 0, 0, some "/srv", none⟩]

/-- The same rows, those of the link exchanged. -/
def linkedDirectoryReturned : List FileState := [
  ⟨"/etc", none, 0o040755, 0, 0, none, some .byDesign⟩,
  ⟨"/etc/conf.d", none, 0o120777, 0, 0, some "/srv", none⟩,
  ⟨"/etc/conf.d", none, 0o040755, 0, 0, some "/srv", some .byDesign⟩,
  ⟨"/etc/conf.d/conf", none, 0o040700, 0, 0, none, some .byDesign⟩]

/-- The two orders have different digests. -/
theorem round_trip_counterexample :
    ¬ (∀ (signer : Signer) (fs : Tree) (paths : List String) (c : Checkpoint) (rows : List FileState),
      captureAll fs paths = .ok rows → RoundTrips signer c rows) := by
  intro h
  have hcap : captureAll linkedDirectory ["/etc", "/etc/conf.d"] = .ok linkedDirectoryRows := by decide +kernel
  have hord : DbOrder linkedDirectoryRows linkedDirectoryReturned := ⟨by decide, by decide⟩
  obtain ⟨returned, hsel, hload⟩ := store_of_dbOrder hord
  obtain ⟨_, hdigest, _⟩ := h ⟨fun _ => [], fun _ _ => true, fun _ => rfl⟩ _ _ sshHeader _ hcap returned hsel
  rw [hload] at hdigest
  revert hdigest
  show Sha256.digest (signedBytes sshHeader linkedDirectoryReturned) ≠
    Sha256.digest (signedBytes sshHeader linkedDirectoryRows)
  decide +kernel

/-- With `/etc` alone declared, the checkpoint of that tree round trips. -/
theorem stored_checkpoint_verifies_etc : RoundTrips ⟨fun d => d, fun d s => d == s, fun _ => beq_self_eq_true _⟩
    sshHeader (linkedDirectoryRows.take 3) := by
  have hcap : captureAll linkedDirectory ["/etc"] = .ok (linkedDirectoryRows.take 3) := by decide +kernel
  have hcomm : SharedPathsCommute (linkedDirectoryRows.take 3) := sharedPathsCommute_of_nodup (by decide)
  have hsha : Sha256.CollisionFreeOn (loadedBytes sshHeader (linkedDirectoryRows.take 3)) := by
    rintro b ⟨returned, hsel, rfl⟩ b' ⟨returned', hsel', rfl⟩ _
    rw [signedBytes_eq_of_dbOrder hcomm (load_of_store hsel), signedBytes_eq_of_dbOrder hcomm (load_of_store hsel')]
  exact (stored_checkpoint_verifies_iff _ linkedDirectory ["/etc"] sshHeader _ hcap hsha).mpr
    ((sharedPathsCommute_iff_not_capturedTwice hcap).mp hcomm)

end LinuxHardener.State
