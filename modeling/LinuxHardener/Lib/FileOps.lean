import LinuxHardener.Lib.PathWalk

/-
  What the file commands of a host do to its tree, run as root with the usual umask.

  Each one is its documented effect, or the reason it is refused: `chmod` and `chown`
  follow a link, `ln -sfn`, `rm -f` and a rename act on the path itself, `mkdir -p`
  makes what is missing on the way. Set-id bits are kept and cleared as the host does
  it: an octal `chmod` keeps those of a directory, `chown` clears those of a file.

  What is proved:
    1. `Tree.WF` — everything but the root stands in a directory; every command
       keeps that.
    2. `lstat_render`, `stat_render` — below no link, a location's path string
       names that location.
    3. `walk_congr` — a walk sees the kinds of the nodes and the targets of the
       links, nothing else.
    4. `stat_set_file`, `stat_updateAt` — what is put or changed at a path is found there.
-/
namespace LinuxHardener.FileTree

/-! ## Permission bits -/

def setUserId : BitVec 12 := 0o4000
def setGroupId : BitVec 12 := 0o2000
def setIds : BitVec 12 := 0o6000
def groupExec : BitVec 12 := 0o010

/-- What `chown` leaves of a file's bits: not the set-user-id bit, nor the
set-group-id bit of a file its group may execute. -/
def clearSetIds (perm : BitVec 12) : BitVec 12 :=
  if perm &&& groupExec = 0 then perm &&& ~~~setUserId else perm &&& ~~~setIds

/-- `chmod` with an octal mode of at most four digits. -/
def Node.chmod (perm : BitVec 12) : Node → Node
  | .file d a => .file d { a with perm := perm }
  | .dir a => .dir { a with perm := perm ||| (a.perm &&& setIds) }
  | .link t u g => .link t u g

def Node.chown (uid gid : UInt32) : Node → Node
  | .file d a => .file d ⟨clearSetIds a.perm, uid, gid⟩
  | .dir a => .dir { a with uid := uid, gid := gid }
  | .link t u g => .link t u g

/-! ## The commands -/

/-- The group of a new entry: root's, or that of a set-group-id directory. -/
def entryGid (fs : Tree) (l : Loc) : UInt32 :=
  match fs.get l.dropLast with
  | some (.dir a) => if a.perm &&& setGroupId = 0 then 0 else a.gid
  | _ => 0

/-- A new directory inherits the set-group-id bit. -/
def newDir (fs : Tree) (l : Loc) : Node :=
  match fs.get l.dropLast with
  | some (.dir a) => .dir ⟨0o755 ||| (a.perm &&& setGroupId), 0, entryGid fs l⟩
  | _ => .dir ⟨0o755, 0, 0⟩

/-- Change the node a path leads to. -/
def updateAt (f : Node → Node) (path : String) (fs : Tree) : Except Errno Tree :=
  match stat fs path with
  | .ok (l, n) => .ok (fs.set l (f n))
  | .error e => .error e

def chmod (perm : BitVec 12) : String → Tree → Except Errno Tree := updateAt (Node.chmod perm)

def chown (uid gid : UInt32) : String → Tree → Except Errno Tree := updateAt (Node.chown uid gid)

/-- `rm -f`: nothing to remove is no failure, a directory is one. -/
def rmForce (path : String) (fs : Tree) : Except Errno Tree :=
  match lstat fs path with
  | .ok (_, .dir _) => .error .eisdir
  | .ok (l, _) => .ok (fs.erase l)
  | .error .enoent => .ok fs
  | .error .enotdir => .ok fs
  | .error e => .error e

/-- The name `ln` gives a link it makes inside a directory. -/
def linkName (target : String) : Option Name :=
  match ((target.toList.splitOn '/').filter (fun w => w ≠ [])).getLast? with
  | some w => if h : ValidName (String.ofList w) then some ⟨String.ofList w, h⟩ else none
  | none => none

/-- `ln -sfn`: a directory gets the link inside, anything else is replaced by it. -/
def lnForce (target path : String) (fs : Tree) : Except Errno Tree :=
  if target = "" then .error .enoent
  else
    match locate fs false path with
    | .error e => .error e
    | .ok (l, _) =>
      match fs.get l with
      | some (.dir _) =>
        match linkName target with
        | none => .error .eisdir
        | some n =>
          match fs.get (l ++ [n]) with
          | some (.dir _) => .error .eisdir
          | _ => .ok (fs.set (l ++ [n]) (.link target 0 (entryGid fs (l ++ [n]))))
      | _ => .ok (fs.set l (.link target 0 (entryGid fs l)))

/-- One directory of a `mkdir -p`: there already, or made. -/
def mkdirOne (fs : Tree) (path : String) : Except Errno Tree :=
  match stat fs path with
  | .ok (_, .dir _) => .ok fs
  | .ok _ => .error .enotdir
  | .error .enoent =>
    match locate fs false path with
    | .error e => .error e
    | .ok (l, _) =>
      match fs.get l with
      | none => .ok (fs.set l (newDir fs l))
      | some _ => .error .enotdir
  | .error e => .error e

/-- The directories of a `mkdir -p`, one after the other. -/
def mkdirEach : List (List Comp) → Tree → Except Errno Tree
  | [], fs => .ok fs
  | cs :: rest, fs => (mkdirOne fs (renderComps cs)).bind (mkdirEach rest)

def mkdirParents (path : String) (fs : Tree) : Except Errno Tree := mkdirEach (parse path).inits fs

/-- A write through the path, a link followed: the file is made if it is not there. -/
def writeThrough (path content : String) (fs : Tree) : Except Errno Tree :=
  match locate fs true path with
  | .error e => .error e
  | .ok (l, _) =>
    match fs.get l with
    | some (.file _ a) => .ok (fs.set l (.file (.text content) a))
    | some _ => .error .eisdir
    | none => .ok (fs.set l (.file (.text content) ⟨0o644, 0, entryGid fs l⟩))

/-! ## Well-formed trees -/

/-- Whatever stands below a location, a directory stands there. -/
def Tree.WF (fs : Tree) : Prop :=
  ∀ (l : Loc) (n : Name) (nd : Node), fs.get (l ++ [n]) = some nd → ∃ a, fs.get l = some (.dir a)

/-- Well-formedness can be read off the entries. -/
theorem Tree.wf_of_entries {fs : Tree} (h : ∀ e ∈ fs.entries, (fs.get e.1.dropLast).map Node.isDir = some true) :
    fs.WF := by
  intro l n nd hget
  have hmem : ∃ x, (l ++ [n], x) ∈ fs.entries := by
    refine (Tree.lookup_isSome _ _).mp ?_
    rw [Tree.get, if_neg (by simp)] at hget
    rw [hget]
    rfl
  obtain ⟨x, hx⟩ := hmem
  have hdir := h _ hx
  rw [List.dropLast_concat] at hdir
  cases hl : fs.get l with
  | none => rw [hl] at hdir; cases hdir
  | some nd =>
    rw [hl] at hdir
    cases nd with
    | dir a => exact ⟨a, rfl⟩
    | file d a => cases hdir
    | link t u g => cases hdir

theorem Tree.WF.dirsAbove {fs : Tree} (h : fs.WF) : ∀ {l : Loc} {nd : Node}, fs.get l = some nd → DirsAbove fs l := by
  intro l
  induction l using List.reverseRecOn with
  | nil => exact fun _ => dirsAbove_nil fs
  | append_singleton l n ih =>
    intro nd hnd
    obtain ⟨a, ha⟩ := h l n nd hnd
    exact dirsAbove_snoc.mpr ⟨ih ha, a, ha⟩

/-- A node may be put where a directory is above it, unless it would replace a
directory by something else. -/
theorem Tree.WF.set {fs : Tree} (h : fs.WF) {l : Loc} {nd : Node} (hup : ∃ a, fs.get l.dropLast = some (.dir a))
    (hd : nd.isDir = true ∨ ∀ a, fs.get l ≠ some (.dir a)) : (fs.set l nd).WF := by
  by_cases hroot : l = [] ∧ nd.isDir = false
  · -- the root stays what it is
    obtain ⟨rfl, hnd⟩ := hroot
    have hsame : fs.set [] nd = fs := by
      cases nd with
      | file d a => rfl
      | dir a => cases hnd
      | link t u g => rfl
    rw [hsame]
    exact h
  · have hself : l = [] → nd.isDir = true := by
      intro hl
      cases hb : nd.isDir with
      | true => rfl
      | false => exact absurd ⟨hl, hb⟩ hroot
    intro k n nd' hk
    rw [Tree.get_set fs hself] at hk
    have habove : ∃ a, fs.get k = some (.dir a) := by
      split at hk
      · next he =>
        obtain rfl : k = l.dropLast := by rw [← he, List.dropLast_concat]
        exact hup
      · exact h k n nd' hk
    obtain ⟨a, ha⟩ := habove
    by_cases hkl : k = l
    · subst hkl
      rcases hd with hdir | hnot
      · rw [Tree.get_set_self fs hself]
        cases nd with
        | dir a' => exact ⟨a', rfl⟩
        | file d a' => cases hdir
        | link t u g => cases hdir
      · exact absurd ha (hnot a)
    · rw [Tree.get_set_ne fs nd hkl]
      exact ⟨a, ha⟩

theorem Tree.WF.erase {fs : Tree} (h : fs.WF) {l : Loc} (hd : ∀ a, fs.get l ≠ some (.dir a)) : (fs.erase l).WF := by
  have hl : l ≠ [] := by
    rintro rfl
    exact hd _ (Tree.get_root fs)
  intro k n nd hk
  have hne : k ++ [n] ≠ l := by
    rintro rfl
    rw [Tree.get_erase_self fs hl] at hk
    cases hk
  rw [Tree.get_erase_ne fs hne] at hk
  obtain ⟨a, ha⟩ := h k n nd hk
  have hkl : k ≠ l := by
    rintro rfl
    exact hd a ha
  exact ⟨a, by rw [Tree.get_erase_ne fs hkl, ha]⟩

/-! ## Paths below no link -/

theorem locate_render_of_dirsAbove {fs : Tree} {l : Loc} (h : DirsAbove fs l) (follow : Bool)
    (hl : follow = true → NotLink fs l) : locate fs follow (render l) = .ok (l, maxSymlinks) := by
  rw [locate, if_pos (isAbsolute_render l), parse_render]
  have hw := walk_dirs fs follow maxSymlinks l [] (by simpa [DirsAbove] using h)
    (by simpa using fun hf _ => hl hf)
  simpa using hw

theorem locate_render {fs : Tree} {l : Loc} (h : NoLinkAbove fs l) {follow : Bool} (hl : follow = true → NotLink fs l)
    {r : Loc × Nat} (hr : locate fs follow (render l) = .ok r) : r = (l, maxSymlinks) ∧ DirsAbove fs l := by
  rw [locate, if_pos (isAbsolute_render l), parse_render] at hr
  have hw := walk_plain fs follow maxSymlinks r l [] (by simpa [NoLinkAbove, NotLink] using h)
    (by simpa using fun hf _ => hl hf) hr
  simpa [DirsAbove] using hw

theorem lstat_render {fs : Tree} (hwf : fs.WF) {l : Loc} {nd : Node} (h : fs.get l = some nd) :
    lstat fs (render l) = .ok (l, nd) := by
  rw [lstat, locate_render_of_dirsAbove (hwf.dirsAbove h) false (by simp)]
  simp [Except.bind, nodeAt, h]

theorem stat_render {fs : Tree} (hwf : fs.WF) {l : Loc} {nd : Node} (h : fs.get l = some nd)
    (hl : nd.isLink = false) : stat fs (render l) = .ok (l, nd) := by
  have hnl : NotLink fs l := by
    intro t u g ht
    rw [h] at ht
    cases ht
    cases hl
  rw [stat, locate_render_of_dirsAbove (hwf.dirsAbove h) true (fun _ => hnl)]
  simp [Except.bind, nodeAt, h]

/-- What `lstat` answers about a path below no link is what stands there. -/
theorem lstat_render_ok {fs : Tree} {l : Loc} (h : NoLinkAbove fs l) {r : Loc × Node}
    (hr : lstat fs (render l) = .ok r) : r.1 = l ∧ fs.get l = some r.2 := by
  unfold lstat at hr
  cases hloc : locate fs false (render l) with
  | error e => rw [hloc] at hr; cases hr
  | ok r' =>
    obtain ⟨rfl, _⟩ := locate_render h (by simp) hloc
    rw [hloc] at hr
    simp only [Except.bind, nodeAt] at hr
    split at hr
    · next nd hnd =>
      cases hr
      exact ⟨rfl, hnd⟩
    · cases hr

/-- So does `stat`, where no link stands there either. -/
theorem stat_render_ok {fs : Tree} {l : Loc} (h : NoLinkAbove fs l) (hl : NotLink fs l) {r : Loc × Node}
    (hr : stat fs (render l) = .ok r) : r.1 = l ∧ fs.get l = some r.2 := by
  rcases stat_lstat_cases fs (render l) with hsame | ⟨l', t, u, g, hlink⟩
  · exact lstat_render_ok h (hsame ▸ hr)
  · exact absurd (lstat_render_ok h hlink).2 (hl t u g)

/-- Where nothing stands, both fail. -/
theorem lstat_render_none {fs : Tree} {l : Loc} (h : NoLinkAbove fs l) (hn : fs.get l = none) :
    ∃ e, lstat fs (render l) = .error e ∧ stat fs (render l) = .error e := by
  cases hl : lstat fs (render l) with
  | ok r =>
    obtain ⟨_, hr⟩ := lstat_render_ok h hl
    rw [hn] at hr
    cases hr
  | error e =>
    refine ⟨e, rfl, ?_⟩
    rcases stat_lstat_cases fs (render l) with hsame | ⟨l', t, u, g, hlink⟩
    · rw [hsame, hl]
    · rw [hl] at hlink
      cases hlink

/-! ## What a walk sees -/

/-- The kind of a node, and the target of a link. -/
inductive Shape where
  | file
  | dir
  | link (target : String)
  deriving DecidableEq, Repr

def Node.shape : Node → Shape
  | .file _ _ => .file
  | .dir _ => .dir
  | .link t _ _ => .link t

/-- Two trees of one shape. -/
def SameShape (fs fs' : Tree) : Prop := ∀ l, (fs.get l).map Node.shape = (fs'.get l).map Node.shape

@[simp] theorem shape_chmod (perm : BitVec 12) (n : Node) : (n.chmod perm).shape = n.shape := by cases n <;> rfl

@[simp] theorem shape_chown (uid gid : UInt32) (n : Node) : (n.chown uid gid).shape = n.shape := by cases n <;> rfl

theorem isDir_of_shape {n n' : Node} (h : n.shape = n'.shape) : n.isDir = n'.isDir := by
  cases n <;> cases n' <;> first | rfl | cases h

theorem SameShape.set {fs : Tree} {l : Loc} {n n' : Node} (h : fs.get l = some n) (hs : n'.shape = n.shape) :
    SameShape fs (fs.set l n') := by
  have hroot : l = [] → n'.isDir = true := by
    rintro rfl
    rw [Tree.get_root] at h
    cases h
    exact isDir_of_shape hs
  intro k
  rw [Tree.get_set fs hroot]
  split
  · next he =>
    subst he
    rw [h]
    simp [hs]
  · rfl

/-- One step's view of a tree. -/
theorem shape_cases {x y : Option Node} (h : x.map Node.shape = y.map Node.shape) :
    (x = none ∧ y = none) ∨ (∃ d a d' a', x = some (.file d a) ∧ y = some (.file d' a')) ∨
    (∃ a a', x = some (.dir a) ∧ y = some (.dir a')) ∨
    ∃ t u g u' g', x = some (.link t u g) ∧ y = some (.link t u' g') := by
  rcases x with _ | ⟨d, a⟩ | a | ⟨t, u, g⟩ <;> rcases y with _ | ⟨d', a'⟩ | a' | ⟨t', u', g'⟩ <;> cases h
  · exact .inl ⟨rfl, rfl⟩
  · exact .inr (.inl ⟨d, a, d', a', rfl, rfl⟩)
  · exact .inr (.inr (.inl ⟨a, a', rfl, rfl⟩))
  · exact .inr (.inr (.inr ⟨t, u, g, u', g', rfl, rfl⟩))

/-- A walk depends on the shape of the tree only. -/
theorem walk_congr {fs fs' : Tree} (h : SameShape fs fs') (follow : Bool) : ∀ (b : Nat) (cur : Loc) (cs : List Comp),
    walk fs follow b cur cs = walk fs' follow b cur cs := by
  apply walk_induction
  intro b cur cs ih ihb
  cases cs with
  | nil => simp
  | cons c rest =>
    rw [walk_cons, walk_cons]
    rcases shape_cases (h cur) with ⟨hx, hy⟩ | ⟨d, a, d', a', hx, hy⟩ | ⟨a, a', hx, hy⟩ | ⟨t, u, g, u', g', hx, hy⟩ <;>
      rw [hx, hy]
    cases c with
    | up => exact ih _ _ (by simp)
    | name n =>
      simp only
      rcases shape_cases (h (cur ++ [n])) with
        ⟨hx', hy'⟩ | ⟨d, a, d', a', hx', hy'⟩ | ⟨a, a', hx', hy'⟩ | ⟨t, u, g, u', g', hx', hy'⟩ <;> rw [hx', hy']
      · exact ih _ _ (by simp)
      · exact ih _ _ (by simp)
      · simp only
        cases b with
        | zero => rfl
        | succ b =>
          split
          · rfl
          · exact ihb b _ _ rfl

theorem locate_congr {fs fs' : Tree} (h : SameShape fs fs') (follow : Bool) (p : String) :
    locate fs follow p = locate fs' follow p := by
  rw [locate, locate, walk_congr h]

/-! ## Finding what was put at a path -/

/-- Where a walk has arrived, a file is put, in place of no directory: a walk of the same
path that follows its last component still arrives there, if it arrives at all. -/
theorem walk_set_file {fs : Tree} {l : Loc} (hl : ∀ a, fs.get l ≠ some (.dir a)) (d : Data) (a : Attr) (follow : Bool) :
    ∀ (b : Nat) (cur : Loc) (cs : List Comp) (b' : Nat) (r : Loc × Nat), walk fs follow b cur cs = .ok (l, b') →
      walk (fs.set l (.file d a)) true b cur cs = .ok r → r.1 = l := by
  have hroot : l = [] → (Node.file d a).isDir = true := by
    rintro rfl
    exact absurd (Tree.get_root fs) (hl fs.root)
  have hself : (fs.set l (.file d a)).get l = some (.file d a) := Tree.get_set_self fs hroot
  -- A walk on from the file ends there.
  have hfile : ∀ {b : Nat} {cs : List Comp} {r : Loc × Nat}, walk (fs.set l (.file d a)) true b l cs = .ok r → r.1 = l := by
    intro b cs r h
    cases cs with
    | nil =>
      rw [walk_nil] at h
      cases h
      rfl
    | cons c rest =>
      rw [walk_cons, hself] at h
      cases h
  apply walk_induction
  intro b cur cs ih ihb b' r h h'
  by_cases hcur : cur = l
  · exact hfile (hcur ▸ h')
  · cases cs with
    | nil =>
      rw [walk_nil] at h
      cases h
      exact absurd rfl hcur
    | cons c rest =>
      rw [walk_cons] at h h'
      rw [Tree.get_set_ne fs _ hcur] at h'
      cases hget : fs.get cur with
      | none => rw [hget] at h; cases h
      | some nd =>
        cases nd with
        | file d' a' => rw [hget] at h; cases h
        | link t u g => rw [hget] at h; cases h
        | dir a' =>
          rw [hget] at h h'
          cases c with
          | up => exact ih _ _ (by simp) _ _ h h'
          | name n =>
            simp only at h h'
            by_cases hn : cur ++ [n] = l
            · rw [hn, hself] at h'
              exact hfile h'
            · rw [Tree.get_set_ne fs _ hn] at h'
              cases hchild : fs.get (cur ++ [n]) with
              | none =>
                rw [hchild] at h
                simp only at h
                split at h
                · cases h
                  exact absurd rfl hn
                · cases h
              | some nd' =>
                rw [hchild] at h h'
                cases nd' with
                | file d' a'' => exact ih _ _ (by simp) _ _ h h'
                | dir a'' => exact ih _ _ (by simp) _ _ h h'
                | link t u g =>
                  simp only [Bool.true_eq_false, and_false, if_false] at h h'
                  split at h
                  · cases h
                    exact absurd rfl hn
                  · cases b with
                    | zero => cases h
                    | succ b => exact ihb b _ _ rfl _ _ h h'

/-- The same for the path itself. -/
theorem stat_set_file {fs : Tree} {path : String} {follow : Bool} {l : Loc} {b : Nat} (h : locate fs follow path = .ok (l, b))
    (hl : ∀ a, fs.get l ≠ some (.dir a)) (d : Data) (a : Attr) {r : Loc × Node}
    (hr : stat (fs.set l (.file d a)) path = .ok r) : r = (l, .file d a) := by
  have hroot : l = [] → (Node.file d a).isDir = true := by
    rintro rfl
    exact absurd (Tree.get_root fs) (hl fs.root)
  unfold locate at h
  unfold stat locate at hr
  split at h
  · next habs =>
    rw [if_pos habs] at hr
    cases hw : walk (fs.set l (.file d a)) true maxSymlinks [] (parse path) with
    | error e => rw [hw] at hr; cases hr
    | ok r' =>
      have harrives := walk_set_file hl d a follow _ _ _ _ _ h hw
      obtain ⟨l', b'⟩ := r'
      obtain rfl : l' = l := harrives
      rw [hw] at hr
      simp only [Except.bind, nodeAt, Tree.get_set_self fs hroot] at hr
      cases hr
      rfl
  · cases h

/-- A change at a path that keeps the shape is found at the path. -/
theorem stat_updateAt {f : Node → Node} {path : String} {fs fs' : Tree} {l : Loc} {n : Node} (h : stat fs path = .ok (l, n))
    (hf : (f n).shape = n.shape) (hu : updateAt f path fs = .ok fs') : stat fs' path = .ok (l, f n) := by
  rw [updateAt, h] at hu
  cases hu
  unfold stat at h ⊢
  cases hloc : locate fs true path with
  | error e => rw [hloc] at h; cases h
  | ok r =>
    rw [hloc] at h
    simp only [Except.bind, nodeAt] at h
    split at h
    · next nd hnd =>
      cases h
      have hroot : r.1 = [] → (f n).isDir = true := by
        intro hr
        rw [hr, Tree.get_root] at hnd
        cases hnd
        exact isDir_of_shape hf
      rw [← locate_congr (SameShape.set hnd hf), hloc]
      simp [Except.bind, nodeAt, Tree.get_set_self fs hroot]
    · cases h

end LinuxHardener.FileTree
