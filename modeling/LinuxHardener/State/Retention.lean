import LinuxHardener.Lib.OrderBy
import LinuxHardener.State.ScanHistory

/-
  Old scan sessions deleted beyond the retention limit (`scan_manager.rs`).

  The sessions stand in the order of their row ids. The engine may read rows of one
  `started_at` in any order, and takes at most so many parameters in a statement. Every
  connection checks foreign keys, so a deleted session takes its results and their
  findings along.

  Correspondence (Rust ↔ Lean):
    `get_latest_scan`        ↔ `ScanStore.latestSession` (its first statement)
    `cleanup_old_sessions`   ↔ `cleanupOldSessions`; what its `SELECT` answers is `listing`

  What is proved:
    1. `deleteWhere_keeps` — deleting leaves the other sessions whole.
    2. `cleanupOldSessions_iff` — the sessions kept are those the reader puts first, however
       the engine orders ties, exactly under `Retainable`.
-/
namespace LinuxHardener.State

open ScanHistory (ResultRow FindingRow)

structure SessionRow where
  id : String
  startedAt : Int
  completedAt : Option Int
  totalFindings : Int
  totalPlugins : Int
  status : String
  deriving DecidableEq, Repr

/-- The sessions with what they own. -/
structure ScanStore where
  sessions : List SessionRow
  results : List ResultRow
  findings : List FindingRow
  nodup : (sessions.map SessionRow.id).Nodup
  results_owned : ∀ r ∈ results, r.sessionId ∈ sessions.map SessionRow.id
  findings_owned : ∀ f ∈ findings, f.resultId ∈ results.map ResultRow.id

/-! ## Statements -/

/-- `DELETE FROM scan_sessions WHERE ..`, with the rows that go along. -/
def ScanStore.deleteWhere (db : ScanStore) (gone : String → Bool) : ScanStore where
  sessions := db.sessions.filter fun s => !gone s.id
  results := db.results.filter fun r => !gone r.sessionId
  findings := db.findings.filter fun f => ((db.results.filter fun r => !gone r.sessionId).map ResultRow.id).contains f.resultId
  nodup := db.nodup.sublist (List.filter_sublist.map _)
  results_owned := by
    intro r hr
    obtain ⟨hr, hkept⟩ := List.mem_filter.mp hr
    obtain ⟨s, hs, he⟩ := List.mem_map.mp (db.results_owned r hr)
    exact List.mem_map.mpr ⟨s, List.mem_filter.mpr ⟨hs, by rw [he]; exact hkept⟩, he⟩
  findings_owned := by
    intro f hf
    exact List.contains_iff_mem.mp (List.mem_filter.mp hf).2

/-- `LIMIT n`: a negative limit is none. -/
def limitRows {Row : Type} (n : Int) (rows : List Row) : List Row := if n < 0 then rows else rows.take n.toNat

/-- The most recent completed session. -/
def ScanStore.latestSession (db : ScanStore) : Option SessionRow :=
  (newestFirst SessionRow.startedAt db.sessions).find? fun s => s.status == "completed"

/-- A number of rows, `as i32`. -/
def rowsAsI32 (n : Nat) : Int := (BitVec.ofNat 32 n).toInt

/-- Deletes old sessions beyond the retention limit. -/
def cleanupOldSessions (maxParameters : Nat) (listing : List SessionRow) (keepCount : Int) (db : ScanStore) :
    Except String (Int × ScanStore) :=
  let keepIds := (limitRows keepCount listing).map SessionRow.id
  if keepIds = [] then .ok (0, db)
  else if maxParameters < keepIds.length then .error "too many SQL variables"
  else
    let left := db.deleteWhere fun id => !keepIds.contains id
    .ok (rowsAsI32 (db.sessions.length - left.sessions.length), left)

/-! ## What is kept -/

variable {db left : ScanStore} {maxParameters keep : Nat} {listing : List SessionRow}

/-- The sessions with these ids are left, with all they own, and nothing else. -/
structure LeftWith (db : ScanStore) (ids : List String) (left : ScanStore) : Prop where
  sessions : left.sessions = db.sessions.filter fun s => ids.contains s.id
  results : left.results = db.results.filter fun r => ids.contains r.sessionId
  findings : left.findings = db.findings.filter fun f => (left.results.map ResultRow.id).contains f.resultId

theorem deleteWhere_keeps (db : ScanStore) (ids : List String) : LeftWith db ids (db.deleteWhere fun id => !ids.contains id) :=
  ⟨by simp [ScanStore.deleteWhere], by simp [ScanStore.deleteWhere], rfl⟩

/-- The ids of the sessions that the reader puts first. -/
def newestIds (db : ScanStore) (keep : Nat) : List String :=
  ((newestFirst SessionRow.startedAt db.sessions).take keep).map SessionRow.id

/-- The same sessions mean the same store. -/
theorem LeftWith.congr {ids ids' : List String} (h : LeftWith db ids left)
    (hsame : db.sessions.filter (fun s => ids.contains s.id) = db.sessions.filter fun s => ids'.contains s.id) :
    LeftWith db ids' left := by
  refine ⟨h.sessions.trans hsame, h.results.trans (List.filter_congr fun r hr => ?_), h.findings⟩
  obtain ⟨s, hs, he⟩ := List.mem_map.mp (db.results_owned r hr)
  rw [← he]
  exact filter_eq_filter_iff.mp hsame s hs

/-- However the engine orders ties, the newest sessions are left, and the others counted. -/
def KeepsNewest (maxParameters : Nat) (db : ScanStore) (keep : Nat) : Prop :=
  ∀ listing, Descending SessionRow.startedAt db.sessions listing → ∃ left,
    cleanupOldSessions maxParameters listing keep db = .ok (((db.sessions.length - keep : Nat) : Int), left) ∧
      LeftWith db (newestIds db keep) left

/-- Some session is kept where there is one, no second has sessions on both sides of the
limit, the ids kept fit in one statement and the number deleted in its type. -/
structure Retainable (maxParameters : Nat) (db : ScanStore) (keep : Nat) : Prop where
  keeps_some : keep = 0 → db.sessions = []
  no_tie : NoTieAt SessionRow.startedAt (newestFirst SessionRow.startedAt db.sessions) keep
  fits : min keep db.sessions.length ≤ maxParameters
  counted : db.sessions.length - keep < 2 ^ 31

theorem rowsAsI32_eq_iff {n : Nat} : rowsAsI32 n = n ↔ n < 2 ^ 31 := by
  unfold rowsAsI32
  constructor
  · intro h
    have := @BitVec.toInt_lt 32 (BitVec.ofNat 32 n)
    omega
  · intro h
    rw [BitVec.toInt_ofNat', Int.bmod_eq_of_le] <;> omega

theorem limitRows_nat {Row : Type} (keep : Nat) (rows : List Row) : limitRows keep rows = rows.take keep := by
  rw [limitRows, if_neg (by omega), Int.toNat_natCast]

/-- What a cleanup that deletes does: it keeps the ids read first. -/
theorem cleanupOldSessions_ok (hkeep : (listing.take keep).map SessionRow.id ≠ [])
    (hfits : ((listing.take keep).map SessionRow.id).length ≤ maxParameters) :
    cleanupOldSessions maxParameters listing keep db =
      .ok (rowsAsI32 (db.sessions.length - (db.deleteWhere fun id => !((listing.take keep).map SessionRow.id).contains id).sessions.length),
        db.deleteWhere fun id => !((listing.take keep).map SessionRow.id).contains id) := by
  rw [cleanupOldSessions, limitRows_nat]
  dsimp only
  rw [if_neg hkeep, if_neg (by omega)]

theorem length_deleteWhere (hl : Descending SessionRow.startedAt db.sessions listing) :
    db.sessions.length - (db.deleteWhere fun id => !((listing.take keep).map SessionRow.id).contains id).sessions.length =
      db.sessions.length - keep := by
  rw [(deleteWhere_keeps db _).sessions, length_filter_take db.nodup hl.perm]
  omega

theorem map_take_eq_nil (hl : Descending SessionRow.startedAt db.sessions listing) :
    (listing.take keep).map SessionRow.id = [] ↔ keep = 0 ∨ db.sessions = [] := by
  rw [List.map_eq_nil_iff, List.take_eq_nil_iff]
  refine or_congr_right ⟨fun h => ?_, fun h => ?_⟩
  · exact List.length_eq_zero_iff.mp (hl.perm.length_eq ▸ h ▸ rfl)
  · exact List.length_eq_zero_iff.mp (hl.perm.length_eq.trans (h ▸ rfl))

theorem length_keepIds (keep : Nat) (hl : Descending SessionRow.startedAt db.sessions listing) :
    ((listing.take keep).map SessionRow.id).length = min keep db.sessions.length := by
  rw [List.length_map, List.length_take, hl.perm.length_eq]

/-- Nothing is selected, so nothing is deleted. -/
theorem cleanupOldSessions_nothing (hkeep : (listing.take keep).map SessionRow.id = []) :
    cleanupOldSessions maxParameters listing keep db = .ok (0, db) := by
  rw [cleanupOldSessions, limitRows_nat]
  exact if_pos hkeep

/-- More ids than a statement takes are refused. -/
theorem fits_of_ok {count : Int} (hkeep : (listing.take keep).map SessionRow.id ≠ [])
    (hok : cleanupOldSessions maxParameters listing keep db = .ok (count, left)) :
    ((listing.take keep).map SessionRow.id).length ≤ maxParameters := by
  by_contra hmany
  rw [cleanupOldSessions, limitRows_nat] at hok
  dsimp only at hok
  rw [if_neg hkeep, if_pos (by omega)] at hok
  cases hok

/-- A store without sessions is left as it is. -/
theorem leftWith_nil (h : db.sessions = []) (ids : List String) : LeftWith db ids db := by
  have hno : ∀ r ∈ db.results, False := fun r hr => by
    have := db.results_owned r hr
    rw [h] at this
    exact List.not_mem_nil this
  refine ⟨by rw [h]; rfl, (List.filter_eq_self.mpr fun r hr => (hno r hr).elim).symm, ?_⟩
  exact (List.filter_eq_self.mpr fun f hf => List.contains_iff_mem.mpr (db.findings_owned f hf)).symm

theorem Retainable.keepsNewest (h : Retainable maxParameters db keep) : KeepsNewest maxParameters db keep := by
  intro listing hl
  by_cases hkeep : (listing.take keep).map SessionRow.id = []
  · have hnone : db.sessions = [] := ((map_take_eq_nil hl).mp hkeep).elim h.keeps_some id
    refine ⟨db, ?_, leftWith_nil hnone _⟩
    rw [cleanupOldSessions_nothing hkeep, hnone]
    simp
  · refine ⟨_, ?_, (deleteWhere_keeps db _).congr ((filter_take_iff db.nodup (descending_newestFirst ..)).mpr h.no_tie listing hl)⟩
    rw [cleanupOldSessions_ok hkeep (length_keepIds keep hl ▸ h.fits), length_deleteWhere hl, rowsAsI32_eq_iff.mpr h.counted]

/-- Whatever the engine answers, the sessions left are those of the newest ids. -/
theorem KeepsNewest.filter_eq (h : KeepsNewest maxParameters db keep) (hl : Descending SessionRow.startedAt db.sessions listing) :
    db.sessions.filter (fun s => ((listing.take keep).map SessionRow.id).contains s.id) =
      db.sessions.filter fun s => (newestIds db keep).contains s.id := by
  obtain ⟨left, hok, hleft⟩ := h listing hl
  by_cases hkeep : (listing.take keep).map SessionRow.id = []
  · cases (map_take_eq_nil hl).mp hkeep with
    | inl hzero => simp [newestIds, hzero]
    | inr hnone => rw [hnone]; rfl
  · rw [cleanupOldSessions_ok hkeep (fits_of_ok hkeep hok)] at hok
    have hsame := (Prod.mk.inj (Except.ok.inj hok)).2
    rw [← hleft.sessions, ← hsame]
    exact (deleteWhere_keeps db _).sessions.symm

theorem KeepsNewest.retainable (h : KeepsNewest maxParameters db keep) : Retainable maxParameters db keep := by
  have hN := descending_newestFirst SessionRow.startedAt db.sessions
  obtain ⟨left, hok, _⟩ := h _ hN
  have hlength := length_keepIds keep hN
  by_cases hkeep : ((newestFirst SessionRow.startedAt db.sessions).take keep).map SessionRow.id = []
  · rw [cleanupOldSessions_nothing hkeep] at hok
    have hcount : db.sessions.length - keep = 0 := by exact_mod_cast (Prod.mk.inj (Except.ok.inj hok)).1.symm
    rw [hkeep] at hlength
    refine ⟨fun hzero => ?_, (filter_take_iff db.nodup (descending_newestFirst ..)).mp fun l hl => h.filter_eq hl, ?_, ?_⟩
    · exact List.length_eq_zero_iff.mp (by omega)
    · exact Nat.le_trans (Nat.le_of_eq hlength.symm) (Nat.zero_le _)
    · omega
  · have hfits := fits_of_ok hkeep hok
    refine ⟨fun hzero => absurd ((map_take_eq_nil hN).mpr (.inl hzero)) hkeep,
      (filter_take_iff db.nodup (descending_newestFirst ..)).mp fun l hl => h.filter_eq hl, hlength ▸ hfits, ?_⟩
    rw [cleanupOldSessions_ok hkeep hfits, length_deleteWhere hN] at hok
    exact rowsAsI32_eq_iff.mp (Prod.mk.inj (Except.ok.inj hok)).1

theorem cleanupOldSessions_iff (maxParameters : Nat) (db : ScanStore) (keep : Nat) :
    KeepsNewest maxParameters db keep ↔ Retainable maxParameters db keep :=
  ⟨KeepsNewest.retainable, Retainable.keepsNewest⟩

/-- The latest session is left where any is. -/
theorem LeftWith.latest {s r : SessionRow} (h : LeftWith db (newestIds db keep) left) (hs : s ∈ left.sessions)
    (hr : (newestFirst SessionRow.startedAt db.sessions).head? = some r) : r ∈ left.sessions := by
  rw [h.sessions] at hs ⊢
  have hmem : r ∈ db.sessions :=
    (descending_newestFirst SessionRow.startedAt db.sessions).perm.mem_iff.mp (List.mem_of_mem_head? hr)
  obtain ⟨rest, hrest⟩ := List.head?_eq_some_iff.mp hr
  refine List.mem_filter.mpr ⟨hmem, ?_⟩
  have hid := (List.mem_filter.mp hs).2
  cases keep with
  | zero => cases hid
  | succ keep => simp [newestIds, hrest]

end LinuxHardener.State
