import LinuxHardener.State.Checkpoint
import LinuxHardener.State.LocalExecutor

/-
  Capturing declared paths into rows.

  What is proved: `captureFileState_terminates` — every capture ends, cyclic links
  included: each level descended uses up a link or goes one name deeper.

  Correspondence (Rust ↔ Lean):
    `manager::{capture_single_file, capture_directory_entry, capture_file_state,
      capture_directory_recursive}` ↔ the functions of these names
    `for child in children`             ↔ `captureEach`
    the recursion depth                 ↔ the first argument of `captureDirectoryRecursive`
-/
namespace LinuxHardener.State

open FileTree

/-! ## The capture -/

inductive ContentPolicy where
  | required | bestEffort
  deriving DecidableEq, Repr

/-- Why a capture fails: a query did, or a declared file's content could not be read.
The last case is the model's, for a recursion that is cut off. -/
inductive CaptureError where
  | system (e : Errno)
  | unreadable (path : String)
  | outOfFuel
  deriving DecidableEq, Repr

/-- The row of a confirmed absence. -/
def absentRow (path : String) : FileState := ⟨path, none, 0, 0, 0, none, none⟩

/-- The row of a link. -/
def linkRow (path target : String) (md : FileMetadata) : FileState :=
  ⟨path, none, symlinkMode, md.uid, md.gid, some target, none⟩

def metadata (fs : Tree) (path : String) : Except CaptureError FileMetadata :=
  (fileMetadata fs path).mapError .system

def captureSingleFile (fs : Tree) (path : String) (policy : ContentPolicy) : Except CaptureError FileState := do
  let md ← metadata fs path
  if !md.fileExists then .ok (absentRow path)
  else
    match readLink fs path with
    | some target => .ok (linkRow path target md)
    | none =>
      match readFile fs path, policy with
      | .ok s, _ => .ok ⟨path, some (utf8 s), md.mode, md.uid, md.gid, none, none⟩
      | .error _, .required => .error (.unreadable path)
      | .error _, .bestEffort => .ok ⟨path, none, md.mode, md.uid, md.gid, none, some .readFailed⟩

def captureDirectoryEntry (fs : Tree) (path : String) : Except CaptureError FileState := do
  let md ← metadata fs path
  if !md.fileExists then .ok (absentRow path)
  else .ok ⟨path, none, md.mode, md.uid, md.gid, readLink fs path, some .byDesign⟩

/-- Each path in turn, the rows appended; the first failure is the whole one's. -/
def captureEach (capture : String → Except CaptureError (List FileState)) :
    List String → Except CaptureError (List FileState)
  | [] => .ok []
  | path :: paths => do
    let rows ← capture path
    let rest ← captureEach capture paths
    .ok (rows ++ rest)

def captureDirectoryRecursive (fs : Tree) : Nat → String → Except CaptureError (List FileState)
  | 0, _ => .error .outOfFuel
  | depth + 1, path => do
    let entry ← captureDirectoryEntry fs path
    let children ← (readDir fs path).mapError .system
    let rows ← captureEach
      (fun child => do
        let childMeta ← metadata fs child
        if childMeta.isDir then captureDirectoryRecursive fs depth child
        else (captureSingleFile fs child .bestEffort).map (fun row => [row]))
      children
    .ok (entry :: rows)

/-- No capture recurses deeper (`captureFileState_terminates`). -/
def captureDepth (fs : Tree) : Nat := maxSymlinks * (fs.depth + 1) + fs.depth + 1

def captureFileStateTo (fs : Tree) (depth : Nat) (path : String) : Except CaptureError (List FileState) := do
  let md ← metadata fs path
  if !md.fileExists then .ok [absentRow path]
  else
    match readLink fs path with
    | some target => .ok [linkRow path target md]
    | none =>
      if md.isDir then captureDirectoryRecursive fs depth path
      else (captureSingleFile fs path .required).map (fun row => [row])

def captureFileState (fs : Tree) (path : String) : Except CaptureError (List FileState) :=
  captureFileStateTo fs (captureDepth fs) path

/-- The rows `create_checkpoint` stores for the declared paths. -/
def captureAll (fs : Tree) (paths : List String) : Except CaptureError (List FileState) :=
  captureEach (captureFileState fs) paths

/-! ## The loop over the entries -/

theorem captureEach_congr {f g : String → Except CaptureError (List FileState)} {paths : List String}
    (h : ∀ p ∈ paths, f p = g p) : captureEach f paths = captureEach g paths := by
  induction paths with
  | nil => rfl
  | cons p paths ih =>
    rw [captureEach, captureEach, h p (by simp), ih (fun q hq => h q (by simp [hq]))]

theorem captureEach_ok {f : String → Except CaptureError (List FileState)} : ∀ {paths : List String}
    {rows : List FileState}, captureEach f paths = .ok rows →
    (∀ p ∈ paths, ∃ rs, f p = .ok rs ∧ rs ⊆ rows) ∧
    ∀ r ∈ rows, ∃ p ∈ paths, ∃ rs, f p = .ok rs ∧ r ∈ rs := by
  intro paths
  induction paths with
  | nil =>
    intro rows h
    cases h
    exact ⟨by simp, by simp⟩
  | cons p paths ih =>
    intro rows h
    rw [captureEach] at h
    cases hp : f p with
    | error e => rw [hp] at h; cases h
    | ok rs =>
      cases hrest : captureEach f paths with
      | error e => rw [hp, hrest] at h; cases h
      | ok rest =>
        rw [hp, hrest] at h
        cases h
        obtain ⟨hall, hfrom⟩ := ih hrest
        constructor
        · intro q hq
          rcases List.mem_cons.mp hq with rfl | hq
          · exact ⟨rs, hp, List.subset_append_left rs rest⟩
          · obtain ⟨rs', hq', hs⟩ := hall q hq
            exact ⟨rs', hq', List.Subset.trans hs (List.subset_append_right rs rest)⟩
        · intro r hr
          rcases List.mem_append.mp hr with hr | hr
          · exact ⟨p, by simp, rs, hp, hr⟩
          · obtain ⟨q, hq, rs', hq', hr'⟩ := hfrom r hr
            exact ⟨q, by simp [hq], rs', hq', hr'⟩

theorem captureEach_ne {f : String → Except CaptureError (List FileState)} {e : CaptureError}
    {paths : List String} (h : ∀ p ∈ paths, f p ≠ .error e) : captureEach f paths ≠ .error e := by
  induction paths with
  | nil => intro hc; cases hc
  | cons p paths ih =>
    have hrest := ih (fun q hq => h q (by simp [hq]))
    intro hc
    rw [captureEach] at hc
    cases hp : f p with
    | error e' =>
      rw [hp] at hc
      exact h p (by simp) (hp.trans hc)
    | ok rs =>
      cases hr : captureEach f paths with
      | error e' =>
        rw [hp, hr] at hc
        exact hrest (hr.trans hc)
      | ok rest => rw [hp, hr] at hc; cases hc

/-! ## One entry, one directory -/

/-- What the loop does with one entry. -/
def captureChild (fs : Tree) (depth : Nat) (child : String) : Except CaptureError (List FileState) := do
  let childMeta ← metadata fs child
  if childMeta.isDir then captureDirectoryRecursive fs depth child
  else (captureSingleFile fs child .bestEffort).map (fun row => [row])

theorem captureDirectoryRecursive_succ (fs : Tree) (depth : Nat) (path : String) :
    captureDirectoryRecursive fs (depth + 1) path = (do
      let entry ← captureDirectoryEntry fs path
      let children ← (readDir fs path).mapError .system
      let rows ← captureEach (captureChild fs depth) children
      .ok (entry :: rows)) := rfl

theorem metadata_of_stat {fs : Tree} {path : String} {l : Loc} {nd : Node} (h : stat fs path = .ok (l, nd)) :
    metadata fs path = .ok (metadataOf nd) := by
  simp [metadata, fileMetadata, h, Except.mapError]

/-- The two answers of `metadata` that are no error. -/
theorem metadata_ok {fs : Tree} {path : String} {md : FileMetadata} (h : metadata fs path = .ok md) :
    (∃ l nd, stat fs path = .ok (l, nd) ∧ md = metadataOf nd) ∨ (stat fs path = .error .enoent ∧ md = .absent) := by
  unfold metadata fileMetadata at h
  cases hs : stat fs path with
  | ok r =>
    obtain ⟨l, nd⟩ := r
    rw [hs] at h
    cases h
    exact .inl ⟨l, nd, rfl, rfl⟩
  | error e =>
    rw [hs] at h
    cases e <;> first | cases h; exact .inr ⟨rfl, rfl⟩ | cases h

/-- The row of a directory. -/
def directoryRow (fs : Tree) (path : String) (a : Attr) : FileState :=
  ⟨path, none, Node.mode (.dir a), a.uid, a.gid, readLink fs path, some .byDesign⟩

/-- The directory capture, where the path leads to a directory. -/
theorem captureDirectoryRecursive_dir {fs : Tree} {path : String} {l : Loc} {a : Attr}
    (h : stat fs path = .ok (l, .dir a)) (depth : Nat) :
    captureDirectoryRecursive fs (depth + 1) path = (do
      let rows ← captureEach (captureChild fs depth) ((fs.children l).map (join path))
      .ok (directoryRow fs path a :: rows)) := by
  rw [captureDirectoryRecursive_succ, captureDirectoryEntry, metadata_of_stat h]
  simp only [readDir, h]
  rfl

/-! ## Termination -/

/-- The links left and the names left to go deeper, as one number. -/
def captureMeasure (fs : Tree) (l : Loc) (b : Nat) : Nat := b * (fs.depth + 1) + (fs.depth - l.length)

theorem captureMeasure_lt_depth (fs : Tree) (l : Loc) {b : Nat} (hb : b ≤ maxSymlinks) :
    captureMeasure fs l b < captureDepth fs := by
  have := Nat.mul_le_mul_right (fs.depth + 1) hb
  unfold captureMeasure captureDepth
  omega

/-- An entry that leads to a directory is closer to the end. -/
theorem captureMeasure_child {fs : Tree} {path : String} {l l' : Loc} {b b' : Nat} {a a' : Attr}
    (h : LeadsTo fs path l b) (hd : fs.get l = some (.dir a)) {n : Name} (hn : n ∈ fs.children l)
    (h' : LeadsTo fs (join path n) l' b') (hd' : fs.get l' = some (.dir a')) :
    captureMeasure fs l' b' < captureMeasure fs l b := by
  obtain ⟨nd, hnd⟩ := Option.isSome_iff_exists.mp ((Tree.mem_children fs l n).mp hn)
  have hdepth := fs.length_le_depth hd'
  unfold captureMeasure
  cases hl : nd.isLink with
  | false =>
    have hreal := leadsTo_child_real h hd hnd hl
    obtain ⟨rfl, rfl⟩ : l' = l ++ [n] ∧ b' = b := by
      rw [LeadsTo, hreal] at h'
      cases h'
      exact ⟨rfl, rfl⟩
    simp only [List.length_append, List.length_singleton] at hdepth ⊢
    omega
  | true =>
    cases nd with
    | file d a => cases hl
    | dir a => cases hl
    | link t u g =>
      have hlt := leadsTo_child_link h hd hnd h'
      have hmul : b' * (fs.depth + 1) + (fs.depth + 1) ≤ b * (fs.depth + 1) := by
        have := Nat.mul_le_mul_right (fs.depth + 1) hlt
        rw [Nat.succ_mul] at this
        exact this
      omega

theorem metadata_ne_outOfFuel (fs : Tree) (path : String) : metadata fs path ≠ .error .outOfFuel := by
  intro h
  unfold metadata at h
  cases hm : fileMetadata fs path <;> rw [hm] at h <;> cases h

theorem captureSingleFile_ne_outOfFuel (fs : Tree) (path : String) (policy : ContentPolicy) :
    captureSingleFile fs path policy ≠ .error .outOfFuel := by
  intro h
  unfold captureSingleFile at h
  cases hm : metadata fs path with
  | error e =>
    rw [hm] at h
    cases h
    exact metadata_ne_outOfFuel fs path hm
  | ok md =>
    rw [hm] at h
    simp only [bind, Except.bind] at h
    split at h
    · cases h
    · split at h
      · cases h
      · split at h <;> cases h

/-- One entry, when the recursion below it is settled. -/
theorem captureChild_settled {fs : Tree} {child : String} {k m : Nat}
    (h : ∀ l a, stat fs child = .ok (l, .dir a) →
      captureDirectoryRecursive fs k child = captureDirectoryRecursive fs m child ∧
      captureDirectoryRecursive fs k child ≠ .error .outOfFuel) :
    captureChild fs k child = captureChild fs m child ∧ captureChild fs k child ≠ .error .outOfFuel := by
  unfold captureChild
  cases hm : metadata fs child with
  | error e =>
    refine ⟨rfl, fun hc => ?_⟩
    cases hc
    exact metadata_ne_outOfFuel fs child hm
  | ok md =>
    simp only [bind, Except.bind]
    by_cases hd : md.isDir = true
    · rcases metadata_ok hm with ⟨l, nd, hs, rfl⟩ | ⟨_, rfl⟩
      · cases nd with
        | dir a => simpa [hd] using h l a hs
        | file d a => cases hd
        | link t u g => cases hd
      · cases hd
    · rw [if_neg hd]
      refine ⟨by rw [if_neg hd], fun hc => ?_⟩
      cases hf : captureSingleFile fs child .bestEffort with
      | error e =>
        rw [hf] at hc
        cases hc
        exact captureSingleFile_ne_outOfFuel fs child .bestEffort hf
      | ok row =>
        rw [hf] at hc
        cases hc

/-- Deep enough, more depth changes nothing, and the recursion is not cut off. -/
theorem captureDirectoryRecursive_settled (fs : Tree) : ∀ (m : Nat) (path : String) (l : Loc) (b : Nat)
    (a : Attr), LeadsTo fs path l b → fs.get l = some (.dir a) → captureMeasure fs l b ≤ m →
    ∀ depth, m < depth →
      captureDirectoryRecursive fs depth path = captureDirectoryRecursive fs (m + 1) path ∧
      captureDirectoryRecursive fs depth path ≠ .error .outOfFuel := by
  intro m
  induction m using Nat.strong_induction_on with
  | _ m ih =>
    intro path l b a h hd hm depth hdepth
    obtain ⟨k, rfl⟩ : ∃ k, depth = k + 1 := ⟨depth - 1, by omega⟩
    have hstat : stat fs path = .ok (l, .dir a) := by rw [stat_of_leadsTo h, nodeAt, hd]
    -- an entry that leads to a directory has a smaller measure, whatever the depth
    have hchild : ∀ c ∈ (fs.children l).map (join path), captureChild fs k c = captureChild fs m c ∧
        captureChild fs k c ≠ .error .outOfFuel := by
      intro c hc
      obtain ⟨n, hn, rfl⟩ := List.mem_map.mp hc
      refine captureChild_settled fun l' a' hs => ?_
      obtain ⟨hd', b', h'⟩ := leadsTo_of_stat hs
      have hlt := captureMeasure_child h hd hn h' hd'
      obtain ⟨hk, hne⟩ := ih _ (by omega) _ l' b' a' h' hd' (Nat.le_refl _) k (by omega)
      obtain ⟨hm', _⟩ := ih _ (by omega) _ l' b' a' h' hd' (Nat.le_refl _) m (by omega)
      exact ⟨hk.trans hm'.symm, hne⟩
    have hcongr := captureEach_congr (fun c hc => (hchild c hc).1)
    have hne := captureEach_ne (fun c hc => (hchild c hc).2)
    rw [captureDirectoryRecursive_dir hstat, captureDirectoryRecursive_dir hstat]
    refine ⟨by rw [hcongr], fun hc => ?_⟩
    cases hr : captureEach (captureChild fs k) ((fs.children l).map (join path)) with
    | error e =>
      rw [hr] at hc
      cases hc
      exact hne hr
    | ok rows =>
      rw [hr] at hc
      cases hc

/-- Every capture ends: at the model's depth it is not cut off, and more depth changes
nothing. -/
theorem captureFileState_terminates (fs : Tree) (path : String) :
    captureFileState fs path ≠ .error .outOfFuel ∧
    ∀ depth, captureDepth fs ≤ depth → captureFileStateTo fs depth path = captureFileState fs path := by
  unfold captureFileState captureFileStateTo
  cases hm : metadata fs path with
  | error e =>
    refine ⟨fun hc => ?_, fun _ _ => rfl⟩
    cases hc
    exact metadata_ne_outOfFuel fs path hm
  | ok md =>
    simp only [bind, Except.bind]
    split
    · exact ⟨fun hc => (by cases hc), fun _ _ => rfl⟩
    · split
      · exact ⟨fun hc => (by cases hc), fun _ _ => rfl⟩
      · split
        · next hd =>
          rcases metadata_ok hm with ⟨l, nd, hs, rfl⟩ | ⟨_, rfl⟩
          · cases nd with
            | dir a =>
              obtain ⟨hd', b, h⟩ := leadsTo_of_stat hs
              have hb : b ≤ maxSymlinks := by
                have habs := isAbsolute_of_leadsTo h
                rw [LeadsTo, locate, if_pos habs] at h
                exact walk_budget fs true _ _ _ _ _ h
              have hlt := captureMeasure_lt_depth fs l hb
              have hset := captureDirectoryRecursive_settled fs _ path l b a h hd' (Nat.le_refl _)
              exact ⟨(hset _ hlt).2, fun depth hdepth =>
                (hset depth (by omega)).1.trans (hset _ hlt).1.symm⟩
            | file d a => cases hd
            | link t u g => cases hd
          · cases hd
        · refine ⟨fun hc => ?_, fun _ _ => rfl⟩
          cases hf : captureSingleFile fs path .required with
          | error e =>
            rw [hf] at hc
            cases hc
            exact captureSingleFile_ne_outOfFuel fs path .required hf
          | ok row =>
            rw [hf] at hc
            cases hc

end LinuxHardener.State
