import LinuxHardener.State.Checkpoint

/-
  What the signature over a checkpoint does not see.

  `generate_digest` concatenates its fields with no lengths, feeds nothing for an
  absent column, and never reads the host key. So the signed bytes of a checkpoint
  are those of other checkpoints too, and the check in `rollback`, the host guard
  and then the signature, accepts these as well.

  What is proved:
    1. `signedBytes_hostKey` — any host key is signed alike.
    2. `rowBytes_nullToEmpty` — NULL and empty are signed alike, in the content and
       in the link target.
    3. `signedBytes_boundary` — the end of the first row's path can be moved into
       its content.
    4. `no_checkpoint_tamper_evident` — hence no stored checkpoint is tamper
       evident, and hardly any is in its rows alone.
-/
namespace LinuxHardener.State

/-- A checkpoint as the two tables hold it. -/
structure StoredCheckpoint where
  header : Checkpoint
  rows : List FileState

def StoredCheckpoint.signedBytes (s : StoredCheckpoint) : Bytes := State.signedBytes s.header s.rows

/-- The checks of `rollback` before anything is restored: the host guard, then the
signature over the recomputed digest. -/
def rollbackAccepts (verify : Bytes → Bytes → Bool) (currentHost : String) (s : StoredCheckpoint) : Bool :=
  s.header.hostKey == currentHost && verify (generateDigest s.header s.rows) s.header.checkpointSignature

/-- Two stored checkpoints say the same wherever rollback acts on it. The order of
the rows is the database's. -/
def ActsAlike (s t : StoredCheckpoint) : Prop :=
  s.header.checkpointId = t.header.checkpointId ∧ s.header.checkpointName = t.header.checkpointName ∧
  s.header.checkpointTimestamp = t.header.checkpointTimestamp ∧
  s.header.checkpointUsername = t.header.checkpointUsername ∧ s.header.hostKey = t.header.hostKey ∧
  s.rows.Perm t.rows

/-- No other checkpoint is signed alike. -/
def TamperEvident (s : StoredCheckpoint) : Prop :=
  ∀ t, ¬ ActsAlike s t → t.signedBytes ≠ s.signedBytes

/-- No other rows are signed alike under the same metadata. -/
def RowsTamperEvident (s : StoredCheckpoint) : Prop :=
  ∀ rows, ¬ s.rows.Perm rows → signedBytes s.header rows ≠ s.signedBytes

/-! ## What is signed alike -/

/-- The host key is not signed. -/
theorem signedBytes_hostKey (c : Checkpoint) (host : String) (rows : List FileState) :
    signedBytes { c with hostKey := host } rows = signedBytes c rows := rfl

/-- NULL becomes empty in the content, or else in the link target. -/
def nullToEmpty (f : FileState) : FileState :=
  if f.fileContent = none then { f with fileContent := some [] }
  else if f.fileLinkTarget = none then { f with fileLinkTarget := some "" }
  else f

@[simp] theorem nullToEmpty_path (f : FileState) : (nullToEmpty f).filePath = f.filePath := by
  unfold nullToEmpty
  split
  · rfl
  · split <;> rfl

theorem rowBytes_nullToEmpty (f : FileState) : rowBytes (nullToEmpty f) = rowBytes f := by
  unfold nullToEmpty
  split
  · next h => simp [rowBytes, h]
  · split
    · next h => simp [rowBytes, h]
    · rfl

theorem nullToEmpty_ne {f : FileState} (h : f.fileContent = none ∨ f.fileLinkTarget = none) :
    nullToEmpty f ≠ f := by
  unfold nullToEmpty
  intro he
  split at he
  · next hc =>
    have := congrArg FileState.fileContent he
    simp [hc] at this
  · next hc =>
    have hl := h.resolve_left hc
    rw [if_pos hl] at he
    have := congrArg FileState.fileLinkTarget he
    simp [hl] at this

/-- A row that is rewritten wherever it stands no longer stands among the rows. -/
theorem not_perm_replace {rows : List FileState} {f g : FileState} (hf : f ∈ rows) (hg : g ≠ f) :
    ¬ rows.Perm (rows.map (fun r => if r = f then g else r)) := by
  intro hp
  obtain ⟨r, _, hr⟩ := List.mem_map.mp (hp.subset hf)
  split at hr
  · exact hg hr
  · next hne => exact hne hr

/-- NULL against empty: one row's change that the signature does not see. -/
theorem signedBytes_nullToEmpty (c : Checkpoint) (f : FileState) (rows : List FileState) :
    signedBytes c (rows.map (fun r => if r = f then nullToEmpty f else r)) = signedBytes c rows := by
  apply signedBytes_congr
  · intro r _
    split
    · next h => rw [h]; exact nullToEmpty_path f
    · rfl
  · intro r _
    split
    · next h => rw [h]; exact rowBytes_nullToEmpty f
    · rfl

/-- The first row with the end of its path read as the beginning of its content. -/
def shiftBoundary (f : FileState) (path moved : String) : FileState :=
  { f with filePath := path, fileContent := some (utf8 moved ++ f.fileContent.getD []) }

/-- Path against content: a boundary the signature does not see. -/
theorem signedBytes_boundary (c : Checkpoint) {rows rest : List FileState} {f : FileState}
    (hs : sortByPath rows = f :: rest) {path moved : String} (hp : f.filePath = path ++ moved) :
    signedBytes c (shiftBoundary f path moved :: rest) = signedBytes c rows := by
  have hsorted : (f :: rest).Pairwise pathLe := hs ▸ sortByPath_pairwise rows
  have hle : utf8 path ≤ utf8 f.filePath := by
    rw [hp, utf8_append]
    exact List.le_append_left
  -- a shorter path still comes first
  have hfirst : (shiftBoundary f path moved :: rest).Pairwise pathLe := by
    rw [List.pairwise_cons] at hsorted ⊢
    exact ⟨fun r hr => List.le_trans hle (hsorted.1 r hr), hsorted.2⟩
  have hrow : rowBytes (shiftBoundary f path moved) = rowBytes f := by
    simp [rowBytes, shiftBoundary, hp]
  rw [signedBytes, signedBytes, hs, sortByPath_of_pairwise hfirst, List.flatMap_cons, List.flatMap_cons,
    hrow]

/-- Whatever is signed alike is accepted alike, on the host its own key names. -/
theorem rollbackAccepts_of_signedBytes (verify : Bytes → Bytes → Bool) {host host' : String}
    {s t : StoredCheckpoint} (ha : rollbackAccepts verify host s = true)
    (hb : t.signedBytes = s.signedBytes) (hh : t.header.hostKey = host')
    (hsig : t.header.checkpointSignature = s.header.checkpointSignature) :
    rollbackAccepts verify host' t = true := by
  simp only [rollbackAccepts, Bool.and_eq_true, beq_iff_eq] at ha ⊢
  refine ⟨hh, ?_⟩
  have hd : generateDigest t.header t.rows = generateDigest s.header s.rows := congrArg Sha256.digest hb
  rw [hd, hsig]
  exact ha.2

/-! ## No checkpoint is tamper evident -/

/-- For every stored checkpoint: another host key is signed alike, so it is not
tamper evident, and rollback on that other host accepts the change; under its own
metadata, changed rows are signed alike as soon as one row leaves its content or
its link target NULL, and rollback accepts them. -/
theorem no_checkpoint_tamper_evident (verify : Bytes → Bytes → Bool) (s : StoredCheckpoint) :
    ¬ TamperEvident s ∧
    (rollbackAccepts verify s.header.hostKey s = true →
      ∃ t host, ¬ ActsAlike s t ∧ t.rows = s.rows ∧ rollbackAccepts verify host t = true) ∧
    ((∃ r ∈ s.rows, r.fileContent = none ∨ r.fileLinkTarget = none) →
      ¬ RowsTamperEvident s ∧
      (rollbackAccepts verify s.header.hostKey s = true →
        ∃ t, ¬ ActsAlike s t ∧ t.header = s.header ∧
          rollbackAccepts verify s.header.hostKey t = true)) := by
  let other := s.header.hostKey ++ "x"
  have hother : s.header.hostKey ≠ other := by
    intro h
    have := congrArg String.length h
    simp [other] at this
  let t : StoredCheckpoint := ⟨{ s.header with hostKey := other }, s.rows⟩
  have hdiff : ¬ ActsAlike s t := fun h => hother h.2.2.2.2.1
  have hsame : t.signedBytes = s.signedBytes := signedBytes_hostKey s.header other s.rows
  refine ⟨fun h => h t hdiff hsame, fun ha => ?_, ?_⟩
  · exact ⟨t, other, hdiff, rfl, rollbackAccepts_of_signedBytes verify ha hsame rfl rfl⟩
  · intro hrow
    obtain ⟨r, hr, hnone⟩ := hrow
    let rows := s.rows.map (fun x => if x = r then nullToEmpty r else x)
    have hperm : ¬ s.rows.Perm rows := not_perm_replace hr (nullToEmpty_ne hnone)
    have hbytes : signedBytes s.header rows = s.signedBytes := signedBytes_nullToEmpty s.header r s.rows
    refine ⟨fun h => h rows hperm hbytes, fun ha => ?_⟩
    exact ⟨⟨s.header, rows⟩, fun h => hperm h.2.2.2.2.2, rfl,
      rollbackAccepts_of_signedBytes verify ha hbytes rfl rfl⟩

/-- A checkpoint of one file. -/
def shadowCheckpoint (path : String) (content : Bytes) : StoredCheckpoint where
  header := ⟨"cp_1_00000001", "ssh", 1#64, "root", [], "local"⟩
  rows := [⟨path, some content, 0o100600, 0, 0, none, none⟩]

/-- A restore of `/etc/ssh/sshd_config` becomes one of `/etc/ssh/sshd_confi`, with
other bytes, under one signature. -/
theorem tamper_evidence_counterexample :
    ¬ (∀ s t : StoredCheckpoint, ¬ ActsAlike s t → t.signedBytes ≠ s.signedBytes) := by
  intro h
  refine h (shadowCheckpoint "/etc/ssh/sshd_config" (utf8 "Port 22"))
    (shadowCheckpoint "/etc/ssh/sshd_confi" (utf8 "gPort 22")) ?_ (by decide)
  intro ha
  have hrows := ha.2.2.2.2.2
  simp [shadowCheckpoint] at hrows

/-- Under a verifier that accepts, a restore of `sshd_config` becomes one with an
empty link target. -/
theorem no_checkpoint_tamper_evident_sshd :
    ∃ t, ¬ ActsAlike (shadowCheckpoint "/etc/ssh/sshd_config" (utf8 "Port 22")) t ∧
      t.header = (shadowCheckpoint "/etc/ssh/sshd_config" (utf8 "Port 22")).header ∧
      rollbackAccepts (fun _ _ => true) "local" t = true := by
  obtain ⟨_, _, hrows⟩ := no_checkpoint_tamper_evident (fun _ _ => true)
    (shadowCheckpoint "/etc/ssh/sshd_config" (utf8 "Port 22"))
  exact (hrows ⟨_, List.mem_singleton.mpr rfl, .inr rfl⟩).2 rfl

end LinuxHardener.State
