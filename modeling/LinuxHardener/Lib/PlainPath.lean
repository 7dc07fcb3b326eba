import LinuxHardener.Lib.FileOps

/-
  The file commands on plain paths: no link on the way, and no directory on the way
  whose entries inherit its group.

  On such a path a command changes the node at the location the path spells, and
  `mkdir -p` adds new directories above it; nothing else moves.
-/
namespace LinuxHardener.FileTree

/-- Neither a link nor a directory whose entries inherit its group. -/
def PlainAt (fs : Tree) (l : Loc) : Prop :=
  NotLink fs l ∧ ∀ a, fs.get l = some (.dir a) → a.perm &&& setGroupId = 0

/-- Every location properly above this one is plain. -/
def PlainAbove (fs : Tree) (l : Loc) : Prop := ∀ p, p <+: l → p ≠ l → PlainAt fs p

/-- Whether what stands somewhere is plain. -/
def plainNode : Option Node → Bool
  | some (.link _ _ _) => false
  | some (.dir a) => a.perm &&& setGroupId == 0
  | _ => true

theorem plainAt_iff {fs : Tree} {l : Loc} : plainNode (fs.get l) = true ↔ PlainAt fs l := by
  unfold PlainAt NotLink
  rcases fs.get l with _ | ⟨d, a⟩ | a | ⟨t, u, g⟩ <;> simp [plainNode]

instance (fs : Tree) (l : Loc) : Decidable (PlainAt fs l) := decidable_of_iff _ plainAt_iff

theorem plainAbove_iff {fs : Tree} {l : Loc} : (∀ p ∈ l.inits, p ≠ l → PlainAt fs p) ↔ PlainAbove fs l := by
  simp only [List.mem_inits, PlainAbove]

instance (fs : Tree) (l : Loc) : Decidable (PlainAbove fs l) := decidable_of_iff _ plainAbove_iff

/-- A directory as `mkdir` makes it. -/
def freshDir : Node := .dir ⟨0o755, 0, 0⟩

theorem PlainAbove.noLinkAbove {fs : Tree} {l : Loc} (h : PlainAbove fs l) : NoLinkAbove fs l :=
  fun p hp hne => (h p hp hne).1

theorem PlainAbove.of_isPrefix {fs : Tree} {p l : Loc} (h : PlainAbove fs l) (hp : p <+: l) : PlainAbove fs p := by
  intro q hq hne
  refine h q (hq.trans hp) ?_
  rintro rfl
  exact hne (hq.eq_of_length (Nat.le_antisymm hq.length_le hp.length_le))

theorem dropLast_isProperPrefix {l : Loc} (hl : l ≠ []) : l.dropLast <+: l ∧ l.dropLast ≠ l := by
  refine ⟨List.dropLast_prefix l, fun h => ?_⟩
  have hlen := congrArg List.length h
  rw [List.length_dropLast] at hlen
  have := List.length_pos_iff.mpr hl
  omega

theorem entryGid_plain {fs : Tree} {l : Loc} (h : PlainAbove fs l) (hl : l ≠ []) : entryGid fs l = 0 := by
  obtain ⟨hp, hne⟩ := dropLast_isProperPrefix hl
  obtain ⟨_, hsgid⟩ := h _ hp hne
  unfold entryGid
  split
  · next a ha => rw [if_pos (hsgid a ha)]
  · rfl

theorem newDir_plain {fs : Tree} {l : Loc} (h : PlainAbove fs l) (hl : l ≠ []) : newDir fs l = freshDir := by
  obtain ⟨hp, hne⟩ := dropLast_isProperPrefix hl
  obtain ⟨_, hsgid⟩ := h _ hp hne
  unfold newDir
  split
  · next a ha =>
    rw [entryGid_plain h hl, hsgid a ha]
    rfl
  · rfl

theorem plainAt_freshDir {fs : Tree} {l : Loc} (h : fs.get l = some freshDir) : PlainAt fs l := by
  constructor
  · intro t u g ht
    rw [h] at ht
    cases ht
  · intro a ha
    rw [h] at ha
    cases ha
    rfl

/-! ## One command -/

theorem updateAt_plain {fs fs' : Tree} {l : Loc} (hl : NoLinkAbove fs l) (hn : NotLink fs l) {f : Node → Node}
    (h : updateAt f (render l) fs = .ok fs') : ∃ n, fs.get l = some n ∧ fs' = fs.set l (f n) := by
  unfold updateAt at h
  cases hs : stat fs (render l) with
  | error e => rw [hs] at h; cases h
  | ok r =>
    obtain ⟨l', n⟩ := r
    obtain ⟨rfl, hget⟩ := stat_render_ok hl hn hs
    rw [hs] at h
    cases h
    exact ⟨n, hget, rfl⟩

/-- `rm -f` leaves nothing at the path, and everything else. -/
theorem rmForce_plain {fs fs' : Tree} {l : Loc} (hwf : fs.WF) (hl : NoLinkAbove fs l)
    (h : rmForce (render l) fs = .ok fs') : fs'.WF ∧ fs'.get l = none ∧ ∀ k, k ≠ l → fs'.get k = fs.get k := by
  unfold rmForce at h
  cases hg : fs.get l with
  | some nd =>
    rw [lstat_render hwf hg] at h
    have hnotdir : ∀ a, fs.get l ≠ some (.dir a) := by
      intro a ha
      rw [hg] at ha
      cases ha
      cases h
    have hfs : fs' = fs.erase l := by
      cases nd with
      | dir a => exact absurd hg (hnotdir a)
      | file d a => cases h; rfl
      | link t u g => cases h; rfl
    have hne : l ≠ [] := by
      rintro rfl
      exact hnotdir _ (Tree.get_root fs)
    subst hfs
    exact ⟨hwf.erase hnotdir, Tree.get_erase_self fs hne, fun k hk => Tree.get_erase_ne fs hk⟩
  | none =>
    obtain ⟨e, he, _⟩ := lstat_render_none hl hg
    rw [he] at h
    have hfs : fs' = fs := by
      cases e <;> cases h <;> rfl
    subst hfs
    exact ⟨hwf, hg, fun _ _ => rfl⟩

/-- `ln -sfn` puts the link at the path, or inside the directory there. -/
theorem lnForce_cases {fs fs' : Tree} {l : Loc} {target : String} (hl : NoLinkAbove fs l)
    (h : lnForce target (render l) fs = .ok fs') :
    DirsAbove fs l ∧
    (((∀ a, fs.get l ≠ some (.dir a)) ∧ l ≠ [] ∧ fs' = fs.set l (.link target 0 (entryGid fs l))) ∨
      ∃ a n g, fs.get l = some (.dir a) ∧ (∀ a', fs.get (l ++ [n]) ≠ some (.dir a')) ∧
        fs' = fs.set (l ++ [n]) (.link target 0 g)) := by
  unfold lnForce at h
  split at h
  · cases h
  · cases hloc : locate fs false (render l) with
    | error e => rw [hloc] at h; cases h
    | ok r =>
      obtain ⟨rfl, hdirs⟩ := locate_render hl (by simp) hloc
      rw [hloc] at h
      simp only at h
      refine ⟨hdirs, ?_⟩
      split at h
      · next a ha =>
        split at h
        · cases h
        · next n hn =>
          split at h
          · cases h
          · next hnot =>
            cases h
            exact .inr ⟨a, n, _, ha, hnot, rfl⟩
      · next hnot =>
        have hne : l ≠ [] := by
          rintro rfl
          exact hnot _ (Tree.get_root fs)
        cases h
        exact .inl ⟨hnot, hne, rfl⟩

/-! ## New directories on the way -/

/-- New nodes of one sort at or above a location, and no other change. -/
structure AddsDirs (new : Node → Prop) (fs fs' : Tree) (q : Loc) : Prop where
  wf : fs'.WF
  get : ∀ k, fs'.get k = fs.get k ∨ (k <+: q ∧ fs.get k = none ∧ ∃ nd, new nd ∧ fs'.get k = some nd)

theorem AddsDirs.refl {new : Node → Prop} {fs : Tree} (h : fs.WF) (q : Loc) : AddsDirs new fs fs q :=
  ⟨h, fun _ => .inl rfl⟩

theorem AddsDirs.trans {new : Node → Prop} {fs fs' fs'' : Tree} {q : Loc} (h : AddsDirs new fs fs' q)
    (h' : AddsDirs new fs' fs'' q) : AddsDirs new fs fs'' q := by
  refine ⟨h'.wf, fun k => ?_⟩
  rcases h.get k with hk | ⟨hp, hn, nd, hnd, hk⟩ <;> rcases h'.get k with hk' | ⟨hp', hn', nd', hnd', hk'⟩
  · exact .inl (hk'.trans hk)
  · exact .inr ⟨hp', hk ▸ hn', nd', hnd', hk'⟩
  · exact .inr ⟨hp, hn, nd, hnd, hk'.trans hk⟩
  · rw [hk] at hn'
    cases hn'

theorem AddsDirs.mono {new : Node → Prop} {fs fs' : Tree} {p q : Loc} (h : AddsDirs new fs fs' p) (hp : p <+: q) :
    AddsDirs new fs fs' q :=
  ⟨h.wf, fun k => (h.get k).imp id (fun ⟨hk, h⟩ => ⟨hk.trans hp, h⟩)⟩

/-- One directory of a `mkdir -p`, below no link. -/
theorem mkdirOne_cases {fs fs' : Tree} {p : Loc} (hp : NoLinkAbove fs p)
    (h : mkdirOne fs (render p) = .ok fs') :
    fs' = fs ∨ (fs.get p = none ∧ p ≠ [] ∧ DirsAbove fs p ∧ fs' = fs.set p (newDir fs p)) := by
  unfold mkdirOne at h
  split at h
  · cases h
    exact .inl rfl
  · cases h
  · cases hloc : locate fs false (render p) with
    | error e => rw [hloc] at h; cases h
    | ok r =>
      obtain ⟨rfl, hdirs⟩ := locate_render hp (by simp) hloc
      rw [hloc] at h
      simp only at h
      split at h
      · next hnone =>
        cases h
        refine .inr ⟨hnone, ?_, hdirs, rfl⟩
        rintro rfl
        rw [Tree.get_root] at hnone
        cases hnone
      · cases h
  · cases h

/-- One new directory is an addition. -/
theorem addsDirs_set {new : Node → Prop} {fs : Tree} {p : Loc} {nd : Node} (hwf : fs.WF) (hn : fs.get p = none)
    (hne : p ≠ []) (hdirs : DirsAbove fs p) (hd : nd.isDir = true) (hnew : new nd) :
    AddsDirs new fs (fs.set p nd) p := by
  obtain ⟨hpre, hproper⟩ := dropLast_isProperPrefix hne
  refine ⟨hwf.set (hdirs _ hpre hproper) (.inl hd), fun k => ?_⟩
  by_cases hk : k = p
  · subst hk
    exact .inr ⟨List.prefix_refl k, hn, nd, hnew, Tree.get_set_self fs (fun h => absurd h hne)⟩
  · exact .inl (Tree.get_set_ne fs _ hk)

/-- The directories of a `mkdir -p`, whatever invariant makes each of them an addition. -/
theorem mkdirEach_adds {new : Node → Prop} {q : Loc} {P : Tree → Prop}
    (hone : ∀ {fs fs' : Tree} {p : Loc}, p <+: q → fs.WF → P fs → mkdirOne fs (render p) = .ok fs' →
      AddsDirs new fs fs' p ∧ P fs') :
    ∀ (ps : List Loc) {fs fs' : Tree}, (∀ p ∈ ps, p <+: q) → fs.WF → P fs →
      mkdirEach (ps.map (List.map Comp.name)) fs = .ok fs' → AddsDirs new fs fs' q := by
  intro ps
  induction ps with
  | nil =>
    intro fs fs' _ hwf _ h
    cases h
    exact AddsDirs.refl hwf q
  | cons p ps ih =>
    intro fs fs' hps hwf hP h
    have hpq := hps p (by simp)
    rw [List.map_cons, mkdirEach, show renderComps (p.map Comp.name) = render p from rfl] at h
    cases hmk : mkdirOne fs (render p) with
    | error e =>
      rw [hmk] at h
      cases h
    | ok mid =>
      rw [hmk] at h
      obtain ⟨hadds, hP'⟩ := hone hpq hwf hP hmk
      exact (hadds.mono hpq).trans (ih (fun p' hp' => hps p' (by simp [hp'])) hadds.wf hP' h)

theorem inits_parse_render (q : Loc) : (parse (render q)).inits = q.inits.map (List.map Comp.name) := by
  rw [parse_render, List.map_inits]

/-- A part of the directories of a `mkdir -p` is a list of them. -/
theorem take_inits_parse_render (q : Loc) (k : Nat) :
    (parse (render q)).inits.take k = (q.inits.take k).map (List.map Comp.name) := by
  rw [inits_parse_render, List.map_take]

/-! ## On plain paths -/

/-- What stands already stays. -/
theorem AddsDirs.get_of_some {new : Node → Prop} {fs fs' : Tree} {q k : Loc} {nd : Node} (h : AddsDirs new fs fs' q)
    (hk : fs.get k = some nd) : fs'.get k = some nd := by
  rcases h.get k with he | ⟨_, hn, _⟩
  · rw [he, hk]
  · rw [hk] at hn
    cases hn

/-- New directories as `mkdir` makes them below no directory whose group is inherited. -/
abbrev AddsFresh := AddsDirs (· = freshDir)

theorem AddsDirs.plainAt {fs fs' : Tree} {q k : Loc} (h : AddsFresh fs fs' q) (hk : PlainAt fs k) :
    PlainAt fs' k := by
  rcases h.get k with he | ⟨_, _, nd, rfl, hnew⟩
  · unfold PlainAt NotLink at hk ⊢
    rw [he]
    exact hk
  · exact plainAt_freshDir hnew

theorem AddsDirs.notLink {fs fs' : Tree} {q k : Loc} (h : AddsFresh fs fs' q) (hk : NotLink fs k) :
    NotLink fs' k := by
  rcases h.get k with he | ⟨_, _, nd, rfl, hnew⟩
  · unfold NotLink at hk ⊢
    rw [he]
    exact hk
  · exact (plainAt_freshDir hnew).1

theorem AddsDirs.plainAbove {fs fs' : Tree} {q l : Loc} (h : AddsFresh fs fs' q) (hl : PlainAbove fs l) :
    PlainAbove fs' l := fun p hp hne => h.plainAt (hl p hp hne)

/-- `mkdir -p` adds new directories on the way, and changes nothing else. -/
theorem mkdirParents_plain {fs fs' : Tree} {q : Loc} (hwf : fs.WF) (hq : PlainAbove fs q)
    (h : mkdirParents (render q) fs = .ok fs') : AddsFresh fs fs' q := by
  rw [mkdirParents, inits_parse_render] at h
  refine mkdirEach_adds (P := fun fs => PlainAbove fs q) ?_ q.inits (fun p hp => (List.mem_inits p q).mp hp) hwf hq h
  intro fs fs' p hpq hwf hq h
  have hp := hq.of_isPrefix hpq
  have hadds : AddsFresh fs fs' p := by
    rcases mkdirOne_cases hp.noLinkAbove h with rfl | ⟨hn, hne, hdirs, rfl⟩
    · exact AddsDirs.refl hwf p
    · rw [newDir_plain hp hne]
      exact addsDirs_set hwf hn hne hdirs rfl rfl
  exact ⟨hadds, hadds.plainAbove hq⟩

end LinuxHardener.FileTree
