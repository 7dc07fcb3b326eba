import LinuxHardener.State.Requests

/-
  How far a rollback reaches.

  `rollback_target_refusal` judges the path, and where a link at its last component
  leads; a link above that is not looked for. So the confinement is proved for hosts
  on which no row's path passes a link, whatever the executor answers and fails at.

  What is proved:
    1. `Confined` — a change of the tree that stays within the prefixes but for
       directories made above a row, removes nothing but what a row records absent, and
       makes links at or below link rows only; changes of this kind compose.
    2. `confined_addsDirs`, `confined_ln`, `confined_rm`, `confined_update`,
       `confined_write` — every command and write of a restore is one.
    3. `rollback_confined` — so is the whole rollback, whether it succeeds or not; and
       a row refused before anything is written is neither read nor written.
-/
namespace LinuxHardener.State

open FileTree

/-! ## Prefixes -/

theorem within_mono {allowed : List String} {a b : String} (h : within allowed a = true)
    (hp : a.toList <+: b.toList) : within allowed b = true := by
  simp only [within, List.any_eq_true] at h ⊢
  obtain ⟨p, hp', hpre⟩ := h
  exact ⟨p, hp', List.isPrefixOf_iff_prefix.mpr ((List.isPrefixOf_iff_prefix.mp hpre).trans hp)⟩

/-- What stands below an allowed location is allowed. -/
theorem within_snoc {allowed : List String} {l : Loc} {n : Name} (h : within allowed (render l) = true) :
    within allowed (render (l ++ [n])) = true := by
  refine within_mono h ?_
  rw [← join_render, join]
  split <;> simp

theorem within_trimmed {allowed : List String} {p : String}
    (h : within allowed (String.ofList (Text.trimEnd p.toList)) = true) : within allowed p = true := by
  refine within_mono h ?_
  rw [String.toList_ofList, Text.trimEnd]
  have hsuf := (List.dropWhile_suffix (l := p.toList.reverse) Text.isWhitespace).reverse
  simpa using hsuf

/-! ## Confined changes -/

/-- A directory made where nothing was, above a row's path. -/
def MadeAbove (rows : List FileState) (fs fs' : Tree) (k : Loc) : Prop :=
  fs.get k = none ∧ (∃ a, fs'.get k = some (.dir a)) ∧ ∃ f ∈ rows, ∃ l, f.filePath = render l ∧ k <+: l ∧ k ≠ l

/-- A change that stays within the prefixes, but for directories made above a row,
removes nothing but what its own row records absent and may be deleted, and makes links
at or below link rows only. -/
structure Confined (allowed : List String) (rows : List FileState) (fs fs' : Tree) : Prop where
  wf : fs'.WF
  changed : ∀ k, fs'.get k ≠ fs.get k → within allowed (render k) = true ∨ MadeAbove rows fs fs' k
  removed : ∀ k nd, fs.get k = some nd → fs'.get k = none →
    ∃ f ∈ rows, f.filePath = render k ∧ SaysAbsent f ∧ f.filePath ∉ undeletableRollbackPaths
  links : ∀ k t u g, fs'.get k = some (.link t u g) → (∃ t u g, fs.get k = some (.link t u g)) ∨
    ∃ f ∈ rows, ∃ l, f.filePath = render l ∧ f.fileLinkTarget.isSome = true ∧ l <+: k

section

variable {allowed : List String} {rows : List FileState}

theorem Confined.refl {fs : Tree} (h : fs.WF) : Confined allowed rows fs fs where
  wf := h
  changed k hk := absurd rfl hk
  removed k nd hk hn := by rw [hk] at hn; cases hn
  links k t u g hk := .inl ⟨t, u, g, hk⟩

theorem Confined.trans {fs fs' fs'' : Tree} (h : Confined allowed rows fs fs')
    (h' : Confined allowed rows fs' fs'') : Confined allowed rows fs fs'' where
  wf := h'.wf
  changed k hk := by
    by_cases he : fs'.get k = fs.get k
    · refine (h'.changed k (fun hc => hk (hc.trans he))).imp id ?_
      rintro ⟨hnone, hdir⟩
      exact ⟨he ▸ hnone, hdir⟩
    · rcases h.changed k he with hin | ⟨hnone, ⟨a, hdir⟩, hrow⟩
      · exact .inl hin
      · -- a directory made stays, or its location is within the prefixes
        by_cases he' : fs''.get k = fs'.get k
        · exact .inr ⟨hnone, ⟨a, he'.trans hdir⟩, hrow⟩
        · rcases h'.changed k he' with hin | ⟨hnone', _⟩
          · exact .inl hin
          · rw [hdir] at hnone'
            cases hnone'
  removed k nd hk hn := by
    cases hm : fs'.get k with
    | none => exact h.removed k nd hk hm
    | some nd' => exact h'.removed k nd' hm hn
  links k t u g hk := by
    rcases h'.links k t u g hk with ⟨t', u', g', hm⟩ | hrow
    · exact h.links k t' u' g' hm
    · exact .inr hrow

/-- One node put somewhere, in nothing's place or in that of one that is no directory, is
confined; a link only at or below a link row. -/
theorem confined_set {fs : Tree} {k : Loc} {nd : Node} (hwf : (fs.set k nd).WF) (hself : k = [] → nd.isDir = true)
    (hin : within allowed (render k) = true)
    (hlink : nd.isLink = true → ∃ f ∈ rows, ∃ l, f.filePath = render l ∧ f.fileLinkTarget.isSome = true ∧ l <+: k) :
    Confined allowed rows fs (fs.set k nd) where
  wf := hwf
  changed k' hk' := by
    by_cases he : k' = k
    · exact .inl (he ▸ hin)
    · exact absurd (Tree.get_set_ne fs nd he) hk'
  removed k' nd' hk' hn := by
    rw [Tree.get_set fs hself] at hn
    split at hn
    · cases hn
    · rw [hk'] at hn
      cases hn
  links k' t u g hk' := by
    rw [Tree.get_set fs hself] at hk'
    split at hk'
    · next he =>
      subst he
      cases hk'
      exact .inr (hlink rfl)
    · exact .inl ⟨t, u, g, hk'⟩

theorem exists_dir_of_isDir {n : Node} (h : n.isDir = true) : ∃ a, n = .dir a := by
  cases n with
  | dir a => exact ⟨a, rfl⟩
  | file => cases h
  | link => cases h

/-- New directories on the way to a row's path are, where the path itself is within the
prefixes if it is one of them. -/
theorem confined_addsDirs {fs fs' : Tree} {q l : Loc} {f : FileState} (h : AddsDirs (·.isDir = true) fs fs' q)
    (hf : f ∈ rows) (hp : f.filePath = render l) (hq : q <+: l) (hin : within allowed (render l) = true) :
    Confined allowed rows fs fs' where
  wf := h.wf
  changed k hk := by
    rcases h.get k with he | ⟨hpre, hnone, nd, hnd, hnew⟩
    · exact absurd he hk
    · by_cases hkl : k = l
      · exact .inl (hkl ▸ hin)
      · obtain ⟨a, rfl⟩ := exists_dir_of_isDir hnd
        exact .inr ⟨hnone, ⟨a, hnew⟩, f, hf, l, hp, hpre.trans hq, hkl⟩
  removed k nd hk hn := by
    rw [h.get_of_some hk] at hn
    cases hn
  links k t u g hk := by
    rcases h.get k with he | ⟨_, _, nd, hnd, hnew⟩
    · exact .inl ⟨t, u, g, he ▸ hk⟩
    · rw [hk] at hnew
      cases hnew
      cases hnd

/-! ## The commands -/

theorem newDir_isDir (fs : Tree) (l : Loc) : (newDir fs l).isDir = true := by
  unfold newDir
  split <;> rfl

theorem noLinkAbove_of_addsDirs {fs fs' : Tree} {q l : Loc} (h : AddsDirs (·.isDir = true) fs fs' q)
    (hl : NoLinkAbove fs l) : NoLinkAbove fs' l := by
  intro p hp hne t u g ht
  rcases h.get p with he | ⟨_, _, nd, hnd, hnew⟩
  · exact hl p hp hne t u g (he ▸ ht)
  · rw [ht] at hnew
    cases hnew
    cases hnd

/-- What a `mkdir -p` leaves below no link, done in full, in part or not at all. -/
theorem mkdir_addsDirs {fs fs' : Tree} {q : Loc} (hwf : fs.WF) (hq : NoLinkAbove fs q)
    (h : (Command.mkdir (render q)).Leaves fs fs') : AddsDirs (·.isDir = true) fs fs' q := by
  have heach : ∀ {fs fs' : Tree} {p : Loc}, p <+: q → fs.WF → NoLinkAbove fs q →
      mkdirOne fs (render p) = .ok fs' → AddsDirs (·.isDir = true) fs fs' p ∧ NoLinkAbove fs' q := by
    intro fs fs' p hpq hwf hq h
    have hp : NoLinkAbove fs p := by
      intro p' hp' hne
      refine hq p' (hp'.trans hpq) ?_
      rintro rfl
      exact hne (hp'.eq_of_length (Nat.le_antisymm hp'.length_le hpq.length_le))
    have hadds : AddsDirs (·.isDir = true) fs fs' p := by
      rcases mkdirOne_cases hp h with rfl | ⟨hn, hne, hdirs, rfl⟩
      · exact AddsDirs.refl hwf p
      · exact addsDirs_set hwf hn hne hdirs (newDir_isDir fs p) (newDir_isDir fs p)
    exact ⟨hadds, noLinkAbove_of_addsDirs hadds hq⟩
  rcases h with rfl | h | ⟨dir, k, he, h⟩
  · exact AddsDirs.refl hwf q
  · rw [Command.run, mkdirParents, inits_parse_render] at h
    exact mkdirEach_adds heach q.inits (fun p hp => (List.mem_inits p q).mp hp) hwf hq h
  · cases he
    rw [take_inits_parse_render] at h
    exact mkdirEach_adds heach _ (fun p hp => (List.mem_inits p q).mp (List.mem_of_mem_take hp)) hwf hq h

/-- A link row's `ln -sfn`. -/
theorem confined_ln {fs fs' : Tree} {l : Loc} {target : String} {f : FileState} (hwf : fs.WF)
    (hl : NoLinkAbove fs l) (hin : within allowed (render l) = true) (hf : f ∈ rows) (hp : f.filePath = render l)
    (ht : f.fileLinkTarget = some target) (h : (Command.ln target (render l)).Leaves fs fs') :
    Confined allowed rows fs fs' := by
  rcases h with rfl | h | ⟨dir, k, he, _⟩
  · exact Confined.refl hwf
  · obtain ⟨hdirs, ⟨hnot, hne, rfl⟩ | ⟨a, n, g, hdir, hnot, rfl⟩⟩ := lnForce_cases hl h
    · exact confined_set (wf_set_of_dirsAbove hwf hdirs hne hnot) (fun h => absurd h hne) hin
        (fun _ => ⟨f, hf, l, hp, by rw [ht]; rfl, List.prefix_refl l⟩)
    · exact confined_set (wf_set_of_dirsAbove hwf (dirsAbove_snoc.mpr ⟨hdirs, a, hdir⟩) (by simp) hnot)
        (fun h => by simp at h) (within_snoc hin)
        (fun _ => ⟨f, hf, l, hp, by rw [ht]; rfl, List.prefix_append l [n]⟩)
  · cases he

/-- An absent row's `rm -f`. -/
theorem confined_rm {fs fs' : Tree} {l : Loc} {f : FileState} (hwf : fs.WF) (hl : NoLinkAbove fs l)
    (hin : within allowed (render l) = true) (hf : f ∈ rows) (hp : f.filePath = render l) (habs : SaysAbsent f)
    (hu : f.filePath ∉ undeletableRollbackPaths) (h : (Command.rm (render l)).Leaves fs fs') :
    Confined allowed rows fs fs' := by
  rcases h with rfl | h | ⟨dir, k, he, _⟩
  · exact Confined.refl hwf
  · obtain ⟨hwf', hnone, hother⟩ := rmForce_plain hwf hl h
    refine ⟨hwf', fun k hk => ?_, fun k nd hk hn => ?_, fun k t u g hk => ?_⟩
    · by_cases he : k = l
      · exact .inl (he ▸ hin)
      · exact absurd (hother k he) hk
    · by_cases he : k = l
      · exact ⟨f, hf, he ▸ hp, habs, hu⟩
      · rw [hother k he, hk] at hn
        cases hn
    · by_cases he : k = l
      · rw [he, hnone] at hk
        cases hk
      · exact .inl ⟨t, u, g, hother k he ▸ hk⟩
  · cases he

/-- Where writing to a path is safe: it is no link, or it leads to something within the
prefixes. -/
def SafeTarget (allowed : List String) (fs : Tree) (l : Loc) : Prop :=
  NotLink fs l ∨ ∃ k nd, stat fs (render l) = .ok (k, nd) ∧ within allowed (render k) = true

/-- What a safe path leads to is within the prefixes. -/
theorem SafeTarget.within {fs : Tree} {l k : Loc} {nd : Node} (h : SafeTarget allowed fs l) (hl : NoLinkAbove fs l)
    (hin : State.within allowed (render l) = true) (hs : stat fs (render l) = .ok (k, nd)) :
    State.within allowed (render k) = true := by
  rcases h with hn | ⟨k', nd', hs', hin'⟩
  · obtain ⟨rfl, _⟩ := stat_render_ok hl hn hs
    exact hin
  · rw [hs] at hs'
    cases hs'
    exact hin'

/-- Safety is kept where the kinds of the nodes are. -/
theorem SafeTarget.of_sameShape {fs fs' : Tree} {l : Loc} (h : SafeTarget allowed fs l) (hs : SameShape fs fs') :
    SafeTarget allowed fs' l := by
  rcases h with hn | ⟨k, nd, hst, hin⟩
  · refine .inl fun t u g ht => ?_
    rcases shape_cases (hs l) with ⟨_, hy⟩ | ⟨_, _, _, _, _, hy⟩ | ⟨_, _, _, hy⟩ | ⟨_, _, _, _, _, hx, _⟩
    · rw [ht] at hy; cases hy
    · rw [ht] at hy; cases hy
    · rw [ht] at hy; cases hy
    · exact hn _ _ _ hx
  · unfold stat at hst
    rw [locate_congr hs] at hst
    cases hloc : locate fs' true (render l) with
    | error e => rw [hloc] at hst; cases hst
    | ok r =>
      rw [hloc] at hst
      simp only [Except.bind, nodeAt] at hst
      split at hst
      · next nd' hget =>
        cases hst
        have hshape := hs r.1
        rw [hget] at hshape
        cases hget' : fs'.get r.1 with
        | none => rw [hget'] at hshape; cases hshape
        | some nd'' =>
          refine .inr ⟨r.1, nd'', ?_, hin⟩
          simp [stat, hloc, Except.bind, nodeAt, hget']
      · cases hst

theorem noLinkAbove_of_sameShape {fs fs' : Tree} {l : Loc} (h : NoLinkAbove fs l) (hs : SameShape fs fs') :
    NoLinkAbove fs' l := by
  intro p hp hne t u g ht
  rcases shape_cases (hs p) with ⟨_, hy⟩ | ⟨_, _, _, _, _, hy⟩ | ⟨_, _, _, hy⟩ | ⟨t', u', g', _, _, hx, _⟩
  · rw [ht] at hy; cases hy
  · rw [ht] at hy; cases hy
  · rw [ht] at hy; cases hy
  · exact h p hp hne t' u' g' hx

/-- The node a path leads to, changed within its kind. -/
theorem confined_shape {fs : Tree} {k : Loc} {n n' : Node} (hwf : fs.WF) (hget : fs.get k = some n)
    (hs : n'.shape = n.shape) (hlink : n.isLink = false) (hin : within allowed (render k) = true) :
    Confined allowed rows fs (fs.set k n') := by
  obtain ⟨hwf', _⟩ := wf_set_of_shape hwf hget hs
  have hdir := isDir_of_shape hs
  refine confined_set hwf' ?_ hin ?_
  · rintro rfl
    rw [Tree.get_root] at hget
    cases hget
    exact hdir
  · intro hl
    -- a node of a link's kind is a link itself
    cases n' with
    | file => cases hl
    | dir => cases hl
    | link =>
      cases n with
      | file => simp [Node.shape] at hs
      | dir => simp [Node.shape] at hs
      | link => cases hlink

/-- A row's `chmod` or `chown`. -/
theorem confined_update {fs fs' : Tree} {l : Loc} {g : Node → Node} (hwf : fs.WF) (hl : NoLinkAbove fs l)
    (hin : within allowed (render l) = true) (hsafe : SafeTarget allowed fs l) (hg : ∀ n, (g n).shape = n.shape)
    (h : fs' = fs ∨ updateAt g (render l) fs = .ok fs') :
    Confined allowed rows fs fs' ∧ SameShape fs fs' := by
  rcases h with rfl | h
  · exact ⟨Confined.refl hwf, fun _ => rfl⟩
  · unfold updateAt at h
    cases hs : stat fs (render l) with
    | error e => rw [hs] at h; cases h
    | ok r =>
      obtain ⟨k, n⟩ := r
      rw [hs] at h
      cases h
      obtain ⟨hget, _⟩ := leadsTo_of_stat hs
      exact ⟨confined_shape hwf hget (hg n) (stat_not_link hs) (hsafe.within hl hin hs), SameShape.set hget (hg n)⟩

/-- A row's write, over the path or through it. -/
theorem confined_write {fs fs' : Tree} {l : Loc} {content : String} (hwf : fs.WF) (hl : NoLinkAbove fs l)
    (hin : within allowed (render l) = true) (hsafe : SafeTarget allowed fs l)
    (h : fs' = fs ∨ updateFileAtomically (render l) content fs = .ok fs' ∨
      writeThrough (render l) content fs = .ok fs') :
    Confined allowed rows fs fs' ∧ SafeTarget allowed fs' l ∧ NoLinkAbove fs' l := by
  -- a file put at the path itself leaves no link there
  have hput : ∀ nd : Node, nd.isLink = false → DirsAbove fs l → l ≠ [] → (∀ a, fs.get l ≠ some (.dir a)) →
      Confined allowed rows fs (fs.set l nd) ∧ SafeTarget allowed (fs.set l nd) l ∧
        NoLinkAbove (fs.set l nd) l := by
    intro nd hnl hdirs hne hnot
    refine ⟨confined_set (wf_set_of_dirsAbove hwf hdirs hne hnot) (fun h => absurd h hne) hin
      (fun h => by rw [hnl] at h; cases h), .inl fun t u g ht => ?_, fun p hp hpne => ?_⟩
    · rw [Tree.get_set_self fs (fun h => absurd h hne)] at ht
      cases ht
      cases hnl
    · rw [Tree.get_set_ne fs _ hpne]
      exact hl p hp hpne
  rcases h with rfl | h | h
  · exact ⟨Confined.refl hwf, hsafe, hl⟩
  · obtain ⟨hdirs, hne, hnot, perm, rfl⟩ := updateFileAtomically_cases hl h
    exact hput _ rfl hdirs hne hnot
  · unfold writeThrough at h
    cases hloc : locate fs true (render l) with
    | error e => rw [hloc] at h; cases h
    | ok r =>
      obtain ⟨k, b⟩ := r
      rw [hloc] at h
      simp only at h
      split at h
      · next d a hget =>
        cases h
        have hs : stat fs (render l) = .ok (k, .file d a) := by simp [stat, hloc, Except.bind, nodeAt, hget]
        have hshape : SameShape fs (fs.set k (.file (.text content) a)) := SameShape.set hget rfl
        exact ⟨confined_shape hwf hget rfl rfl (hsafe.within hl hin hs), hsafe.of_sameShape hshape,
          noLinkAbove_of_sameShape hl hshape⟩
      · cases h
      · next hget =>
        cases h
        -- nothing there: the path is no link, and the file is made at it
        rcases hsafe with hn | ⟨k', nd', hs, _⟩
        · obtain ⟨he, hdirs⟩ := locate_render hl (fun _ => hn) hloc
          cases he
          have hne : l ≠ [] := by
            rintro rfl
            rw [Tree.get_root] at hget
            cases hget
          refine hput _ rfl hdirs hne fun a ha => ?_
          rw [hget] at ha
          cases ha
        · simp [stat, hloc, Except.bind, nodeAt, hget] at hs

/-! ## One row -/

variable {ex : Executor}

theorem restoreCommandRefusal_leaves (hex : ex.Contained) {c : Command} (hc : c.Operands) (h : Host) :
    c.Leaves h.fs (restoreCommandRefusal ex c h).2.fs := hex.command h.fs hc

/-- A directory asked for, on the way to a row's path. -/
theorem ensureDirectory_addsDirs (hex : ex.Contained) {h : Host} {q : Loc} (hwf : h.fs.WF)
    (hq : NoLinkAbove h.fs q) :
    AddsDirs (·.isDir = true) h.fs (ensureDirectory ex (render q) h).2.fs q := by
  unfold ensureDirectory
  split
  · exact AddsDirs.refl hwf q
  · exact mkdir_addsDirs hwf hq (restoreCommandRefusal_leaves hex (c := .mkdir (render q)) trivial _)

theorem noLinkAbove_of_isPrefix {fs : Tree} {q l : Loc} (h : NoLinkAbove fs l) (hq : q <+: l) : NoLinkAbove fs q := by
  intro p hp hne
  refine h p (hp.trans hq) ?_
  rintro rfl
  exact hne (hp.eq_of_length (Nat.le_antisymm hp.length_le hq.length_le))

/-- New directories on the way leave a safe path safe. -/
theorem SafeTarget.of_addsDirs {fs fs' : Tree} {l : Loc} (h : SafeTarget allowed fs l) (hwf : fs.WF)
    (ha : AddsDirs (·.isDir = true) fs fs' l) : SafeTarget allowed fs' l := by
  cases hget : fs.get l with
  | none =>
    refine .inl fun t u g ht => ?_
    rcases ha.get l with he | ⟨_, _, nd, hnd, hnew⟩
    · rw [ht, hget] at he
      cases he
    · rw [ht] at hnew
      cases hnew
      cases hnd
  | some n =>
    -- everything on the way is there already
    refine h.of_sameShape fun k => ?_
    rcases ha.get k with he | ⟨hpre, hnone, _⟩
    · rw [he]
    · by_cases hkl : k = l
      · rw [hkl, hget] at hnone
        cases hnone
      · obtain ⟨a, hdir⟩ := hwf.dirsAbove hget k hpre hkl
        rw [hdir] at hnone
        cases hnone

theorem restoreLink_confined (hex : ex.Contained) {f : FileState} {l : Loc} {target : String} {h : Host}
    (hwf : h.fs.WF) (hf : f ∈ rows) (hp : f.filePath = render l) (hl : NoLinkAbove h.fs l)
    (hin : within allowed (render l) = true) (ht : f.fileLinkTarget = some target)
    (hop : target.toList.head? ≠ some '-') :
    Confined allowed rows h.fs (restoreLink ex target f.filePath h).2.fs := by
  have hln : ∀ h' : Host, h'.fs.WF → NoLinkAbove h'.fs l →
      Confined allowed rows h'.fs (restoreCommandRefusal ex (.ln target f.filePath) h').2.fs := by
    intro h' hwf' hl'
    rw [hp]
    exact confined_ln hwf' hl' hin hf hp ht (restoreCommandRefusal_leaves hex (c := .ln target (render l)) hop h')
  unfold restoreLink
  rcases parentPath_cases l with ⟨_, hnone⟩ | ⟨q, n, hq, hsome⟩
  · rw [hp, hnone, ← hp]
    exact hln h hwf hl
  · have hql : q <+: l := hq ▸ List.prefix_append q [n]
    have hadds := ensureDirectory_addsDirs hex hwf (noLinkAbove_of_isPrefix hl hql)
    have hmade : Confined allowed rows h.fs _ := confined_addsDirs hadds hf hp hql hin
    rw [hp, hsome, ← hp]
    simp only
    split
    · exact hmade
    · exact hmade.trans (hln _ hadds.wf (noLinkAbove_of_addsDirs hadds hl))

theorem removeOrRefuse_confined (hex : ex.Contained) {f : FileState} {l : Loc} {h : Host} (hwf : h.fs.WF)
    (hf : f ∈ rows) (hp : f.filePath = render l) (hl : NoLinkAbove h.fs l)
    (hin : within allowed (render l) = true) (habs : SaysAbsent f) :
    Confined allowed rows h.fs (removeOrRefuse ex f.filePath h).2.fs := by
  unfold removeOrRefuse
  split
  · next hu =>
    have hleaves := restoreCommandRefusal_leaves hex (c := .rm (render l)) trivial h
    rw [hp]
    exact confined_rm hwf hl hin hf hp habs hu hleaves
  · split <;> exact Confined.refl hwf

theorem restoreInPlace_confined (hex : ex.Contained) {f : FileState} {l : Loc} {h : Host} (hwf : h.fs.WF)
    (hf : f ∈ rows) (hp : f.filePath = render l) (hl : NoLinkAbove h.fs l)
    (hin : within allowed (render l) = true) (hsafe : SafeTarget allowed h.fs l) :
    Confined allowed rows h.fs (restoreInPlace ex f h).2.fs := by
  -- between the steps: still confined, still safe to write to, still no link above
  have hdir : Confined allowed rows h.fs (restoreDirectory ex f h).2.fs ∧
      SafeTarget allowed (restoreDirectory ex f h).2.fs l ∧ NoLinkAbove (restoreDirectory ex f h).2.fs l := by
    unfold restoreDirectory
    split
    · have hadds := ensureDirectory_addsDirs hex hwf hl
      rw [hp]
      exact ⟨confined_addsDirs hadds hf hp (List.prefix_refl l) hin, hsafe.of_addsDirs hwf hadds,
        noLinkAbove_of_addsDirs hadds hl⟩
    · exact ⟨Confined.refl hwf, hsafe, hl⟩
  have hwrite : ∀ h' : Host, h'.fs.WF → NoLinkAbove h'.fs l → SafeTarget allowed h'.fs l →
      Confined allowed rows h'.fs (restoreContent ex f h').2.fs ∧
      SafeTarget allowed (restoreContent ex f h').2.fs l ∧ NoLinkAbove (restoreContent ex f h').2.fs l := by
    intro h' hwf' hl' hsafe'
    unfold restoreContent
    cases f.fileContent with
    | none => exact ⟨Confined.refl hwf', hsafe', hl'⟩
    | some content =>
      have hw := hex.write f.filePath (ofUtf8Lossy content) h'.fs
      rw [hp] at hw
      have hconf : Confined allowed rows h'.fs _ ∧ _ := confined_write hwf' hl' hin hsafe' hw
      simp only
      rw [hp]
      split <;> exact hconf
  have hmode : ∀ (h' : Host) (c : Command) (g : Node → Node), h'.fs.WF → NoLinkAbove h'.fs l →
      SafeTarget allowed h'.fs l → (∀ n, (g n).shape = n.shape) → c.Operands → (∀ dir, c ≠ .mkdir dir) →
      c.run h'.fs = updateAt g (render l) h'.fs →
      Confined allowed rows h'.fs (restoreCommandRefusal ex c h').2.fs ∧
      SafeTarget allowed (restoreCommandRefusal ex c h').2.fs l ∧
      NoLinkAbove (restoreCommandRefusal ex c h').2.fs l := by
    intro h' c g hwf' hl' hsafe' hg hop hmk hrun
    have hleaves : (restoreCommandRefusal ex c h').2.fs = h'.fs ∨
        updateAt g (render l) h'.fs = .ok (restoreCommandRefusal ex c h').2.fs := by
      rcases restoreCommandRefusal_leaves hex hop h' with he | he | ⟨dir, _, he, _⟩
      · exact .inl he
      · exact .inr (hrun ▸ he)
      · exact absurd he (hmk dir)
    obtain ⟨hconf, hshape⟩ := confined_update hwf' hl' hin hsafe' hg hleaves
    exact ⟨hconf, hsafe'.of_sameShape hshape, noLinkAbove_of_sameShape hl' hshape⟩
  obtain ⟨hc1, hs1, hl1⟩ := hdir
  obtain ⟨hc2, hs2, hl2⟩ := hwrite _ hc1.wf hl1 hs1
  obtain ⟨hc3, hs3, hl3⟩ := hmode (restoreContent ex f (restoreDirectory ex f h).2).2
    (.chmod f.restoreMode f.filePath) _ hc2.wf hl2 hs2 (shape_chmod (BitVec.ofNat 12 f.restoreMode.toNat)) trivial
    (fun _ h => by cases h) (hp ▸ rfl)
  obtain ⟨hc4, _, _⟩ := hmode
    (restoreCommandRefusal ex (.chmod f.restoreMode f.filePath) (restoreContent ex f (restoreDirectory ex f h).2).2).2
    (.chown f.fileOwnerUid f.fileOwnerGid f.filePath) _ hc3.wf hl3 hs3 (shape_chown f.fileOwnerUid f.fileOwnerGid)
    trivial (fun _ h => by cases h) (hp ▸ rfl)
  unfold restoreInPlace
  simp only
  split
  · exact hc1
  · split
    · exact hc1.trans hc2
    · exact ((hc1.trans hc2).trans hc3).trans hc4

/-- What the refusal lets pass is safe to write to. -/
theorem safeTarget_of_admitted (hex : ex.Contained) {f : FileState} {l : Loc} {h : Host} (hwf : h.fs.WF)
    (hp : f.filePath = render l) (ht : f.fileLinkTarget = none) (habs : recordedAbsent f = false)
    (hr : (rollbackTargetRefusal ex allowed f h).1 = none) : SafeTarget allowed h.fs l := by
  rcases (rollbackTargetRefusal_none ex hr).2 ht habs with hprobe | ⟨resolved, hprobe, hin⟩
  · refine .inl fun t u g hget => ?_
    have hl := lstat_render hwf hget
    rw [← hp] at hl
    exact hex.notLink hprobe l t u g hl
  · obtain ⟨k, nd, hs, rfl⟩ := hex.resolved hprobe
    rw [hp] at hs
    exact .inr ⟨k, nd, hs, within_trimmed hin⟩

/-- The restore of a row, whatever comes of it. -/
theorem restoreFileStateTracked_confined (hex : ex.Contained) {f : FileState} {l : Loc} {h : Host} (hwf : h.fs.WF)
    (hf : f ∈ rows) (hp : f.filePath = render l) (hl : NoLinkAbove h.fs l)
    (hop : ∀ t, f.fileLinkTarget = some t → t.toList.head? ≠ some '-') :
    Confined allowed rows h.fs (restoreFileStateTracked ex allowed f h).2.fs := by
  have hfs := rollbackTargetRefusal_fs ex allowed f h
  cases hr : (rollbackTargetRefusal ex allowed f h).1 with
  | some reason =>
    rw [restoreFileStateTracked_refused ex hr, hfs]
    exact Confined.refl hwf
  | none =>
    have hin : within allowed (render l) = true := by
      have hout := (rollbackTargetRefusal_none ex hr).1
      rw [hp, outsideAllowed, Bool.or_eq_false_iff] at hout
      simpa using hout.2
    unfold restoreFileStateTracked
    simp only [hr]
    rw [← hfs] at hwf hl
    conv => arg 3; rw [← hfs]
    cases ht : f.fileLinkTarget with
    | some target => exact restoreLink_confined hex hwf hf hp hl hin ht (hop target ht)
    | none =>
      simp only
      cases habs : recordedAbsent f with
      | true =>
        rw [if_pos rfl]
        exact removeOrRefuse_confined hex hwf hf hp hl hin ⟨ht, habs⟩
      | false =>
        rw [if_neg Bool.false_ne_true]
        refine restoreInPlace_confined hex hwf hf hp hl hin ?_
        rw [hfs]
        exact safeTarget_of_admitted hex (hfs ▸ hwf) hp ht habs hr

/-! ## The run -/

/-- No link row lies above another row. -/
def LinksLast (rows : List FileState) : Prop :=
  ∀ f ∈ rows, ∀ g ∈ rows, ∀ l l', f.filePath = render l → g.filePath = render l' → f.fileLinkTarget.isSome = true →
    l <+: l' → l = l'

/-- A confined change puts no link above a row. -/
theorem Confined.noLinkAbove {now fs : Tree} (h : Confined allowed rows now fs) (hlast : LinksLast rows)
    {f : FileState} {l : Loc} (hf : f ∈ rows) (hp : f.filePath = render l) (hl : NoLinkAbove now l) :
    NoLinkAbove fs l := by
  intro p hpre hne t u g ht
  rcases h.links p t u g ht with ⟨t', u', g', hnow⟩ | ⟨f', hf', l', hp', hlink, hpre'⟩
  · exact hl p hpre hne t' u' g' hnow
  · -- the link row below which it was made would lie above this row
    have he := hlast f' hf' f hf l' l hp' hp hlink (hpre'.trans hpre)
    rw [he] at hpre'
    exact hne (hpre.eq_of_length (Nat.le_antisymm hpre.length_le hpre'.length_le))

/-- So is the restore of row after row: the invariant is that the change so far is
confined. -/
theorem restoreEach_confined (hex : ex.Contained) {now : Tree} (hlast : LinksLast rows)
    (hrow : ∀ f ∈ rows, ∃ l, f.filePath = render l ∧ NoLinkAbove now l)
    (hop : ∀ f ∈ rows, ∀ t, f.fileLinkTarget = some t → t.toList.head? ≠ some '-') :
    ∀ (todo : List FileState) (h : Host), todo ⊆ rows → Confined allowed rows now h.fs →
      Confined allowed rows now (restoreEach ex allowed todo h).2.fs := by
  intro todo
  induction todo with
  | nil => exact fun h _ hc => hc
  | cons f todo ih =>
    intro h hsub hc
    obtain ⟨hf, hsub⟩ := List.cons_subset.mp hsub
    obtain ⟨l, hp, hl⟩ := hrow f hf
    have hstep : Confined allowed rows h.fs (restoreFileStateTracked ex allowed f h).2.fs :=
      restoreFileStateTracked_confined hex hc.wf hf hp (hc.noLinkAbove hlast hf hp hl) (hop f hf)
    rw [restoreEach]
    exact ih _ hsub (hc.trans hstep)

/-! ## The rollback -/

end

/-- The rows the refusal lets pass on the host as it is. -/
def admitted (ex : Executor) (allowed : List String) (h : Host) (rows : List FileState) : List FileState :=
  rows.filter (fun f => (rollbackTargetRefusal ex allowed f h).1.isNone)

/-- What a rollback may do: change what is within the prefixes, or make directories above
an admitted row; remove what an admitted row of its own records absent and may be deleted;
and ask, once the link probes are done, for admitted rows alone. -/
structure RollbackConfined (ex : Executor) (allowed : List String) (rows : List FileState) (h h' : Host) : Prop where
  changed : ∀ k, h'.fs.get k ≠ h.fs.get k →
    within allowed (render k) = true ∨ MadeAbove (admitted ex allowed h rows) h.fs h'.fs k
  removed : ∀ k nd, h.fs.get k = some nd → h'.fs.get k = none → ∃ f ∈ admitted ex allowed h rows,
    f.filePath = render k ∧ SaysAbsent f ∧ f.filePath ∉ undeletableRollbackPaths
  calls : ∃ probes later, h'.calls = h.calls ++ probes ++ later ∧
    (∀ c ∈ probes, ∃ f ∈ rows, c = .linkProbe f.filePath) ∧
    ∀ c ∈ later, ∃ f ∈ admitted ex allowed h rows, Asks f c

/-- A row refused when its turn comes is left as it is, too. -/
def RefusedUntouched (ex : Executor) (allowed : List String) (f : FileState) : Prop :=
  ∀ h : Host, (rollbackTargetRefusal ex allowed f h).1.isSome = true →
    (restoreFileStateTracked ex allowed f h).2.fs = h.fs ∧
    Asked (· = .linkProbe f.filePath) h (restoreFileStateTracked ex allowed f h).2

theorem refusedUntouched (ex : Executor) (allowed : List String) (f : FileState) : RefusedUntouched ex allowed f := by
  intro h hr
  obtain ⟨reason, hr⟩ := Option.isSome_iff_exists.mp hr
  rw [restoreFileStateTracked_refused ex hr]
  exact ⟨rollbackTargetRefusal_fs ex allowed f h, rollbackTargetRefusal_asked ex allowed f h⟩

/-- A rollback is its probes, its snapshot and the restores of the rows admitted; or a
first part of that. -/
theorem rollback_cases (ex : Executor) (m : CheckpointManager) (host : String) (c : Checkpoint)
    (rows : List FileState) (h : Host) :
    (rollback ex m host c rows h).2 = h ∨
    (rollback ex m host c rows h).2 = (sortTargets ex m.allowedRollbackPrefixes rows h).2 ∨
    let sorted := sortTargets ex m.allowedRollbackPrefixes rows h
    let snap := snapshotCurrentState ex sorted.1.1 sorted.2
    (rollback ex m host c rows h).2 = snap.2 ∨
      (rollback ex m host c rows h).2 = (restoreEach ex m.allowedRollbackPrefixes sorted.1.1 snap.2).2 := by
  unfold rollback
  split
  · exact .inl rfl
  · split
    · exact .inl rfl
    · simp only
      split
      · exact .inr (.inl rfl)
      · split
        · exact .inr (.inr (.inl rfl))
        · split
          · exact .inr (.inr (.inl rfl))
          · exact .inr (.inr (.inr rfl))

/-- Rows captured beyond no link: no link row lies above another. -/
theorem linksLast_of_captured {before : Tree} {paths : List String} {rows : List FileState} (hwf : before.WF)
    (hcap : captureAll before paths = .ok rows)
    (hbefore : ∀ f ∈ rows, ∃ l, f.filePath = render l ∧ NoLinkAbove before l) : LinksLast rows := by
  intro f hf g hg l l' hp hp' hlink hpre
  obtain ⟨k, hk, hl⟩ := hbefore f hf
  obtain rfl := loc_unique hp hk
  obtain ⟨k', hk', hl'⟩ := hbefore g hg
  obtain rfl := loc_unique hp' hk'
  obtain ⟨t, u, gid, hget⟩ := describes_link (describes_of_captured hwf hcap hf hp hl) hlink
  by_contra hne
  exact hl' l hpre hne t u gid hget

/-- A rollback stays confined on a host where no row's path passes a link, whatever the
executor answers and wherever it stops. -/
theorem rollback_confined (ex : Executor) (hex : ex.Contained) (m : CheckpointManager) (host : String)
    (c : Checkpoint) (before : Tree) (paths : List String) (rows dbRows : List FileState) (h : Host)
    (hcap : captureAll before paths = .ok rows) (hord : DbOrder rows dbRows) (hwf : before.WF) (hwf' : h.fs.WF)
    (hplain : ∀ f ∈ rows, ∃ l, f.filePath = render l ∧ NoLinkAbove before l ∧ NoLinkAbove h.fs l)
    (hop : ∀ f ∈ rows, ∀ t, f.fileLinkTarget = some t → t.toList.head? ≠ some '-') :
    RollbackConfined ex m.allowedRollbackPrefixes dbRows h (rollback ex m host c dbRows h).2 ∧
      ∀ f ∈ dbRows, RefusedUntouched ex m.allowedRollbackPrefixes f := by
  refine ⟨?_, fun f _ => refusedUntouched ex _ f⟩
  let sorted := sortTargets ex m.allowedRollbackPrefixes dbRows h
  let snap := snapshotCurrentState ex sorted.1.1 sorted.2
  have hadm : sorted.1.1 = admitted ex m.allowedRollbackPrefixes h dbRows :=
    sortTargets_admitted ex _ dbRows h h rfl
  have hsub : sorted.1.1 ⊆ rows := by
    rw [hadm]
    exact List.Subset.trans (List.filter_subset_self _) hord.perm.symm.subset
  have hsorted : sorted.2.fs = h.fs := sortTargets_fs ex _ dbRows h
  have hsnap : snap.2.fs = h.fs := (snapshotCurrentState_fs ex _ _).trans hsorted
  -- what the tree becomes, and what is asked, at each of the points it can stop at
  have hlast : LinksLast sorted.1.1 := by
    intro f hf g hg
    refine linksLast_of_captured hwf hcap (fun f hf => ?_) f (hsub hf) g (hsub hg)
    obtain ⟨l, hp, hl, _⟩ := hplain f hf
    exact ⟨l, hp, hl⟩
  have hrun : Confined m.allowedRollbackPrefixes sorted.1.1 h.fs
      (restoreEach ex m.allowedRollbackPrefixes sorted.1.1 snap.2).2.fs := by
    refine restoreEach_confined hex hlast (fun f hf => ?_) (fun f hf => hop f (hsub hf)) _ _
      (List.Subset.refl _) (by rw [hsnap]; exact Confined.refl hwf')
    obtain ⟨l, hp, _, hl⟩ := hplain f (hsub hf)
    exact ⟨l, hp, hl⟩
  have hprobes := sortTargets_asked ex m.allowedRollbackPrefixes dbRows h
  have hreads := snapshotCurrentState_asked ex sorted.1.1 sorted.2
  have hwrites := restoreEach_asked ex m.allowedRollbackPrefixes sorted.1.1 snap.2
  have hassemble : ∀ h' : Host, Confined m.allowedRollbackPrefixes sorted.1.1 h.fs h'.fs →
      (h' = h ∨ Asked (fun c => ∃ f ∈ sorted.1.1, Asks f c) sorted.2 h') →
      RollbackConfined ex m.allowedRollbackPrefixes dbRows h h' := by
    intro h' hc ha
    refine ⟨hadm ▸ hc.changed, hadm ▸ hc.removed, ?_⟩
    rcases ha with rfl | ⟨later, hlater, hasks⟩
    · exact ⟨[], [], by simp, by simp, by simp⟩
    · obtain ⟨probes, he, hprobe⟩ := hprobes
      exact ⟨probes, later, by rw [hlater, he], hprobe, hadm ▸ hasks⟩
  have hsame : ∀ h' : Host, h'.fs = h.fs → Confined m.allowedRollbackPrefixes sorted.1.1 h.fs h'.fs :=
    fun h' he => by rw [he]; exact Confined.refl hwf'
  rcases rollback_cases ex m host c dbRows h with he | he | he | he <;> rw [he]
  · exact hassemble h (hsame h rfl) (.inl rfl)
  · exact hassemble _ (hsame _ hsorted) (.inr (Asked.refl _ _))
  · exact hassemble _ (hsame _ hsnap) (.inr hreads)
  · exact hassemble _ hrun (.inr (hreads.trans hwrites))

/-- A host whose `/etc/ssh` is given, with a file's entry below it, and a `/srv`. -/
def etcSsh (ssh : Node) (config : Option Node) : Tree where
  root := ⟨0o755, 0, 0⟩
  entries := [([etc], .dir ⟨0o755, 0, 0⟩), ([etc, ⟨"ssh", by decide⟩], ssh), ([srv], .dir ⟨0o755, 0, 0⟩)] ++
    config.toList.map (fun n => ([etc, ⟨"ssh", by decide⟩, ⟨"sshd_config", by decide⟩], n))

def sshdConfigRow : FileState := ⟨"/etc/ssh/sshd_config", some (utf8 "Port 22"), 0o100600, 0, 0, none, none⟩

/-- The host the row is captured on. -/
def etcSshPlain : Tree := etcSsh (.dir ⟨0o755, 0, 0⟩) (some (.file (.text "Port 22") ⟨0o600, 0, 0⟩))

theorem captureAll_etcSsh : captureAll etcSshPlain ["/etc/ssh/sshd_config"] = .ok [sshdConfigRow] := by
  decide +kernel

/-- Where `/etc/ssh` has become a link to `/srv`, the file is written below `/srv`. -/
theorem rollback_confinement_counterexample :
    ¬ (∀ (before : Tree) (paths : List String) (rows : List FileState) (h : Host),
      captureAll before paths = .ok rows → (∀ p ∈ paths, ∃ l, p = render l ∧ NoLinkAbove before l) →
      ∀ k, (rollback localExecutor sshManager "local" sshHeader rows h).2.fs.get k ≠ h.fs.get k →
        within sshManager.allowedRollbackPrefixes (render k) = true ∨
          MadeAbove rows h.fs (rollback localExecutor sshManager "local" sshHeader rows h).2.fs k) := by
  intro hall
  have hbefore : ∀ p ∈ ["/etc/ssh/sshd_config"], ∃ l, p = render l ∧ NoLinkAbove etcSshPlain l := by
    intro p hp
    obtain rfl := List.mem_singleton.mp hp
    refine ⟨[⟨"etc", by decide⟩, ⟨"ssh", by decide⟩, ⟨"sshd_config", by decide⟩], by decide, ?_⟩
    apply PlainAbove.noLinkAbove
    decide +kernel
  have hout := hall etcSshPlain _ [sshdConfigRow] ⟨etcSsh (.link "/srv" 0 0) none, []⟩ captureAll_etcSsh hbefore
    [⟨"srv", by decide⟩, ⟨"sshd_config", by decide⟩] (by decide +kernel)
  rcases hout with hin | ⟨_, ⟨a, hdir⟩, _⟩
  · revert hin
    decide
  · have hfile : (rollback localExecutor sshManager "local" sshHeader [sshdConfigRow]
        ⟨etcSsh (.link "/srv" 0 0) none, []⟩).2.fs.get [⟨"srv", by decide⟩, ⟨"sshd_config", by decide⟩] =
        some (.file (.text "Port 22") ⟨0o600, 0, 0⟩) := by decide +kernel
    rw [hfile] at hdir
    cases hdir

/-- Where `/etc/ssh` is a directory, the rollback is confined. -/
theorem rollback_confined_etcSsh :
    RollbackConfined localExecutor sshManager.allowedRollbackPrefixes [sshdConfigRow]
      ⟨etcSsh (.dir ⟨0o755, 0, 0⟩) none, []⟩
      (rollback localExecutor sshManager "local" sshHeader [sshdConfigRow]
        ⟨etcSsh (.dir ⟨0o755, 0, 0⟩) none, []⟩).2 ∧
      ∀ f ∈ [sshdConfigRow], RefusedUntouched localExecutor sshManager.allowedRollbackPrefixes f := by
  have hord : DbOrder [sshdConfigRow] [sshdConfigRow] := ⟨List.Perm.refl _, by decide⟩
  have hwf : etcSshPlain.WF := Tree.wf_of_entries (by decide +kernel)
  have hwf' : (etcSsh (.dir ⟨0o755, 0, 0⟩) none).WF := Tree.wf_of_entries (by decide +kernel)
  have hplain : ∀ f ∈ [sshdConfigRow], ∃ l, f.filePath = render l ∧ NoLinkAbove etcSshPlain l ∧
      NoLinkAbove (etcSsh (.dir ⟨0o755, 0, 0⟩) none) l := by
    intro f hf
    obtain rfl := List.mem_singleton.mp hf
    refine ⟨[⟨"etc", by decide⟩, ⟨"ssh", by decide⟩, ⟨"sshd_config", by decide⟩], by decide, ?_, ?_⟩ <;>
      apply PlainAbove.noLinkAbove <;> decide +kernel
  have hop : ∀ f ∈ [sshdConfigRow], ∀ t, f.fileLinkTarget = some t → t.toList.head? ≠ some '-' := by
    intro f hf t ht
    obtain rfl := List.mem_singleton.mp hf
    cases ht
  exact rollback_confined localExecutor localExecutor_contained sshManager "local" sshHeader etcSshPlain
    ["/etc/ssh/sshd_config"] [sshdConfigRow] [sshdConfigRow] ⟨etcSsh (.dir ⟨0o755, 0, 0⟩) none, []⟩ captureAll_etcSsh
    hord hwf hwf' hplain hop

end LinuxHardener.State
