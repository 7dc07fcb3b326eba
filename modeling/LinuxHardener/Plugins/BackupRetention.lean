import LinuxHardener.Lib.KeepLast
import LinuxHardener.Lib.NameStamp
import LinuxHardener.Plugins.Backups

/-
  What is left in a directory after its backups were pruned (`prune_timestamped_backups` in
  `plugins/src/lib.rs`, modelled in `Plugins/Backups`).

  The directory is a list of paths; it is listed as it is, and `rm` removes what it is given.

  What is proved:
    1. `afterPrune_eq` — a prune removes the stale backups and nothing else.
    2. `newest_backups_kept_iff` — when what it keeps is the newest of what the plugins wrote.
-/
namespace LinuxHardener.Plugins.Retention

open LineText Dialogue KeepLast NameStamp

/-! ## The directory -/

/-- How a host answers that holds the directory. -/
def answer (entries : List Chars) : (q : Query) → q.Answer
  | .execute _ _ => .ok ⟨[], [], 0⟩
  | .pathExists path => .ok (decide (path ∈ entries))
  | .metadata path => .error path
  | .readFile path => .error path
  | .readDir _ => .ok entries
  | .writeFile _ _ => .ok ()
  | .checkpoint name _ => .error name

/-- What a command leaves: `rm -f --` takes away the paths behind it. -/
def react (entries : List Chars) (e : Exchange) : List Chars :=
  match e.query with
  | .execute program args =>
    if program = "rm".toList ∧ args.take 2 = ["-f".toList, "--".toList] then entries.filter fun path => path ∉ args.drop 2
    else entries
  | _ => entries

def afterPrune (stem : Chars) (keep : Nat) (entries : List Chars) : List Chars :=
  after react entries (play answer react (pruneTimestampedBackups stem keep) entries).1

theorem react_rm (entries stale : List Chars) (r : Except Chars CommandOutput) :
    react entries ⟨.execute "rm" ("-f".toList :: "--".toList :: stale), r⟩ = entries.filter fun path => path ∉ stale := by
  rw [react]
  exact if_pos ⟨rfl, rfl⟩

/-- A prune removes the stale backups and nothing else. -/
theorem afterPrune_eq {stem directory : Chars} (h : Ssh.parent stem = some directory) (keep : Nat) (entries : List Chars) :
    afterPrune stem keep entries = entries.filter fun path => path ∉ staleBackups stem keep entries := by
  obtain ⟨next, hprune, hnothing, hsome⟩ := pruneTimestampedBackups_listed h keep entries
  have hlisted : afterPrune stem keep entries = after react entries (play answer react (next (.ok entries)) entries).1 := by
    rw [afterPrune, hprune]
    rfl
  rw [hlisted]
  cases hstale : staleBackups stem keep entries with
  | nil =>
    rw [hnothing hstale]
    exact (List.filter_eq_self.mpr fun path _ => decide_eq_true List.not_mem_nil).symm
  | cons path stale =>
    rw [hsome path stale hstale]
    exact react_rm entries (path :: stale) (.ok ⟨[], [], 0⟩)

/-! ## What should be kept -/

/-- The stamp of a backup, where what stands behind the prefix is one. -/
def stampOf (stem path : Chars) : Option Stamp := (stripStart stem path).bind readStamp

def stamped (stem path : Chars) : Bool := (stampOf stem path).isSome

/-- Whatever is no backup of the plugins' stays, those that go are older than those that stay, and as
many stay as there should. -/
structure KeepsNewest (stem : Chars) (keep : Nat) (before after : List Chars) : Prop where
  others : ∀ path ∈ before, stamped stem path = false → path ∈ after
  older : ∀ r ∈ before, r ∉ after → ∀ k ∈ after, ∀ s t, stampOf stem r = some s → stampOf stem k = some t → s.moment < t.moment
  count : (after.filter (stamped stem)).length = min keep (before.filter (stamped stem)).length

/-- The paths that carry the prefix are few enough; or all of them are stamped, and wherever enough
names stand behind the one and not behind the other, and they are of different shapes, the one is
older. -/
def NamesInOrder (stem : Chars) (keep : Nat) (entries : List Chars) : Prop :=
  let copies := entries.filter fun path => stem.isPrefixOf path
  copies.length ≤ keep ∨
    (∀ path ∈ copies, stamped stem path = true) ∧
      ∀ r ∈ copies, ∀ k ∈ copies, keep ≤ behind copies r → behind copies k < keep →
        ∀ s t, stampOf stem r = some s → stampOf stem k = some t → s.shape ≠ t.shape → s.moment < t.moment

theorem prefix_of_stampOf {stem path : Chars} {s : Stamp} (h : stampOf stem path = some s) :
    ∃ text, path = stem ++ text ∧ readStamp text = some s := by
  obtain ⟨text, htext, hread⟩ := Option.bind_eq_some_iff.mp h
  exact ⟨text, stripStart_eq_some.mp htext, hread⟩

theorem isPrefixOf_of_stamped {stem path : Chars} (h : stamped stem path = true) : stem.isPrefixOf path = true := by
  obtain ⟨s, hs⟩ := Option.isSome_iff_exists.mp h
  obtain ⟨text, rfl, -⟩ := prefix_of_stampOf hs
  exact List.isPrefixOf_iff_prefix.mpr (List.prefix_append ..)

/-- Of one shape, the earlier name is the earlier backup. -/
theorem moment_lt_of_lt {stem r k : Chars} {s t : Stamp} (hr : stampOf stem r = some s) (hk : stampOf stem k = some t)
    (hshape : s.shape = t.shape) (h : r < k) : s.moment < t.moment := by
  obtain ⟨text, rfl, hread⟩ := prefix_of_stampOf hr
  obtain ⟨text', rfl, hread'⟩ := prefix_of_stampOf hk
  rcases lt_append rfl h with hstem | ⟨-, htext⟩
  · exact absurd hstem (lt_irrefl stem)
  · exact moment_lt hread hread' hshape htext

theorem staleBackups_eq (stem : Chars) (keep : Nat) (entries : List Chars) :
    staleBackups stem keep entries = surplus keep (entries.filter fun path => stem.isPrefixOf path) := rfl

/-- Only the paths that carry the prefix matter. -/
theorem keepsNewest_copies {stem : Chars} {keep : Nat} {entries copies : List Chars}
    (h : copies = entries.filter fun path => stem.isPrefixOf path) :
    KeepsNewest stem keep entries (entries.filter fun path => path ∉ staleBackups stem keep entries) ↔
      (∀ a ∈ copies, stamped stem a = false → a ∈ kept keep copies) ∧
        (∀ a ∈ copies, a ∉ kept keep copies → ∀ b ∈ kept keep copies,
          ∀ s t, stampOf stem a = some s → stampOf stem b = some t → s.moment < t.moment) ∧
        ((kept keep copies).filter (stamped stem)).length = min keep (copies.filter (stamped stem)).length := by
  rw [staleBackups_eq, ← h]
  have hcopy {path : Chars} : path ∈ copies ↔ path ∈ entries ∧ stem.isPrefixOf path = true := by
    rw [h]
    exact List.mem_filter
  have hafter {path : Chars} : path ∈ entries.filter (fun path => path ∉ surplus keep copies) ↔ path ∈ entries ∧ path ∉ surplus keep copies := by
    rw [List.mem_filter, decide_eq_true_eq]
  have hstamp {path : Chars} {s : Stamp} (h : stampOf stem path = some s) : stem.isPrefixOf path = true :=
    isPrefixOf_of_stamped (by rw [stamped, h]; rfl)
  have hcount : ((kept keep copies).filter (stamped stem)) = (entries.filter fun path => path ∉ surplus keep copies).filter (stamped stem) := by
    rw [kept]
    conv_lhs => rw [h, List.filter_filter, List.filter_filter]
    rw [List.filter_filter, ← h]
    apply List.filter_congr
    intro path _
    cases hstamped : stamped stem path with
    | false => rfl
    | true => simp [isPrefixOf_of_stamped hstamped]
  have hmarks : copies.filter (stamped stem) = entries.filter (stamped stem) := by
    rw [h, List.filter_filter]
    apply List.filter_congr
    intro path _
    cases hstamped : stamped stem path with
    | false => rfl
    | true => simp [isPrefixOf_of_stamped hstamped]
  rw [hcount, hmarks]
  constructor
  · intro h
    refine ⟨fun a ha hnot => ?_, fun a ha hgone b hb s t hs ht => ?_, h.count⟩
    · have hstays := hafter.mp (h.others a (hcopy.mp ha).1 hnot)
      exact mem_kept.mpr ⟨ha, hstays.2⟩
    · obtain ⟨hb, hstays⟩ := mem_kept.mp hb
      refine h.older a (hcopy.mp ha).1 (fun hstill => hgone ?_) b (hafter.mpr ⟨(hcopy.mp hb).1, hstays⟩) s t hs ht
      exact mem_kept.mpr ⟨ha, (hafter.mp hstill).2⟩
  · rintro ⟨hothers, holder, hkept⟩
    refine ⟨fun path hpath hnot => ?_, fun r hr hgone k hk s t hs ht => ?_, hkept⟩
    · refine hafter.mpr ⟨hpath, fun hsurplus => ?_⟩
      exact (mem_kept.mp (hothers path (surplus_subset hsurplus) hnot)).2 hsurplus
    · obtain ⟨hk, hstays⟩ := hafter.mp hk
      refine holder r (hcopy.mpr ⟨hr, hstamp hs⟩) (fun hrkept => hgone ?_) k (mem_kept.mpr ⟨hcopy.mpr ⟨hk, hstamp ht⟩, hstays⟩) s t hs ht
      exact hafter.mpr ⟨hr, (mem_kept.mp hrkept).2⟩

theorem newest_backups_kept_iff {stem directory : Chars} {keep : Nat} {entries : List Chars} (h : Ssh.parent stem = some directory)
    (hn : entries.Nodup) : KeepsNewest stem keep entries (afterPrune stem keep entries) ↔ NamesInOrder stem keep entries := by
  rw [afterPrune_eq h, keepsNewest_copies rfl, keeps_iff (hn.filter _), NamesInOrder]
  refine or_congr_right (and_congr_right fun _ => ?_)
  constructor
  · intro hall r hr k hk hbehind hfront s t hs ht _
    exact hall r hr k hk hbehind hfront s t hs ht
  · intro hmixed r hr k hk hbehind hfront s t hs ht
    by_cases hshape : s.shape = t.shape
    · refine moment_lt_of_lt hs ht hshape (lt_of_not_ge fun hge => ?_)
      exact Nat.not_le.mpr hfront (hbehind.trans (behind_anti hge))
    · exact hmixed r hr k hk hbehind hfront s t hs ht hshape

def sshdStem : Chars := "/etc/ssh/sshd_config.backup."

theorem keepsNewest_sshd :
    KeepsNewest sshdStem backupsKept ["/etc/ssh/sshd_config".toList]
        (afterPrune sshdStem backupsKept ["/etc/ssh/sshd_config".toList]) ↔
      NamesInOrder sshdStem backupsKept ["/etc/ssh/sshd_config".toList] :=
  have hparent : Ssh.parent sshdStem = some "/etc/ssh".toList := by decide
  newest_backups_kept_iff hparent (List.nodup_singleton _)

/-- An operator's own copy goes where its name comes first. -/
theorem own_copy_removed :
    ¬ ∀ stem directory entries, Ssh.parent stem = some directory → entries.Nodup →
      KeepsNewest stem backupsKept entries (afterPrune stem backupsKept entries) := by
  intro h
  have hparent : Ssh.parent sshdStem = some "/etc/ssh".toList := by decide
  let own : Chars := sshdStem ++ "2025-before-upgrade".toList
  let entries : List Chars := [own, sshdStem ++ "20260809_101500".toList, sshdStem ++ "20260810_101500".toList,
    sshdStem ++ "20260811_101500".toList]
  have hkeeps := h sshdStem "/etc/ssh" entries hparent (by decide)
  have hstays := hkeeps.others own List.mem_cons_self (by decide)
  rw [afterPrune_eq hparent] at hstays
  exact absurd hstays (by decide)

end LinuxHardener.Plugins.Retention
