import LinuxHardener.Lib.FileTree

/-
  Path resolution over a file tree, with a budget of links.

  `walk` is structural twice over: on the number of links still allowed, and for
  each of these on the components left, so it evaluates. What is proved:
    1. `walk_append` — walking a longer path is walking its tail from where the
       head, followed to its end, arrived, with the links left over.
    2. `walk_budget`, `walk_sound` — a walk never gains links, passes directories
       only, and does not end on a link when it follows its last component.
    3. `walk_dirs`, `walk_plain` — over names with no link above the last one the
       walk arrives at those very names, and only if directories lead there.
-/
namespace LinuxHardener.FileTree

inductive Errno where
  | enoent | enotdir | eloop | eisdir | einval | eilseq
  deriving DecidableEq, Repr

/-- Links the kernel follows in one resolution before it answers `ELOOP`. -/
def maxSymlinks : Nat := 40

/-- Walk with `b` links left, handing a link that is to be followed to `onLink`. -/
def walkWith (fs : Tree) (follow : Bool) (b : Nat) (onLink : Loc → List Comp → Except Errno (Loc × Nat)) :
    Loc → List Comp → Except Errno (Loc × Nat)
  | cur, [] => .ok (cur, b)
  | cur, c :: rest =>
    match fs.get cur with
    | some (.dir _) =>
      match c with
      | .up => walkWith fs follow b onLink cur.dropLast rest
      | .name n =>
        match fs.get (cur ++ [n]) with
        | none => if rest = [] then .ok (cur ++ [n], b) else .error .enoent
        | some (.link t _ _) =>
          if rest = [] ∧ follow = false then .ok (cur ++ [n], b)
          else onLink (if isAbsolute t then [] else cur) (parse t ++ rest)
        | some _ => walkWith fs follow b onLink (cur ++ [n]) rest
    | some _ => .error .enotdir
    | none => .error .enoent

/-- Walk from `cur`; `follow` says whether a link at the last component is followed. -/
def walk (fs : Tree) (follow : Bool) : Nat → Loc → List Comp → Except Errno (Loc × Nat)
  | 0 => walkWith fs follow 0 (fun _ _ => .error .eloop)
  | b + 1 => walkWith fs follow (b + 1) (walk fs follow b)

/-- Where an absolute path string leads, and the links left over. -/
def locate (fs : Tree) (follow : Bool) (p : String) : Except Errno (Loc × Nat) :=
  if isAbsolute p then walk fs follow maxSymlinks [] (parse p) else .error .einval

/-- The node a located path names. -/
def nodeAt (fs : Tree) (r : Loc × Nat) : Except Errno (Loc × Node) :=
  match fs.get r.1 with
  | some n => .ok (r.1, n)
  | none => .error .enoent

/-- `stat(2)`: follows a link at the last component. -/
def stat (fs : Tree) (p : String) : Except Errno (Loc × Node) :=
  (locate fs true p).bind (nodeAt fs)

/-- `lstat(2)`: does not. -/
def lstat (fs : Tree) (p : String) : Except Errno (Loc × Node) :=
  (locate fs false p).bind (nodeAt fs)

/-! ## One step, and appending paths -/

/-- What a walk with `b` links left does on meeting one it follows. -/
def onLink (fs : Tree) (follow : Bool) : Nat → Loc → List Comp → Except Errno (Loc × Nat)
  | 0 => fun _ _ => .error .eloop
  | b + 1 => walk fs follow b

theorem walk_eq (fs : Tree) (follow : Bool) (b : Nat) :
    walk fs follow b = walkWith fs follow b (onLink fs follow b) := by
  cases b <;> rfl

@[simp] theorem walk_nil (fs : Tree) (follow : Bool) (b : Nat) (cur : Loc) :
    walk fs follow b cur [] = .ok (cur, b) := by
  rw [walk_eq]; rfl

theorem walk_cons (fs : Tree) (follow : Bool) (b : Nat) (cur : Loc) (c : Comp) (rest : List Comp) :
    walk fs follow b cur (c :: rest) =
      match fs.get cur with
      | some (.dir _) =>
        match c with
        | .up => walk fs follow b cur.dropLast rest
        | .name n =>
          match fs.get (cur ++ [n]) with
          | none => if rest = [] then .ok (cur ++ [n], b) else .error .enoent
          | some (.link t _ _) =>
            if rest = [] ∧ follow = false then .ok (cur ++ [n], b)
            else onLink fs follow b (if isAbsolute t then [] else cur) (parse t ++ rest)
          | some _ => walk fs follow b (cur ++ [n]) rest
      | some _ => .error .enotdir
      | none => .error .enoent := by
  simp only [walk_eq]; rfl

/-- Nothing is found below a location where nothing stands. -/
theorem walk_missing {fs : Tree} {cur : Loc} (h : fs.get cur = none) (follow : Bool) (b : Nat)
    {cs : List Comp} (hcs : cs ≠ []) : walk fs follow b cur cs = .error .enoent := by
  cases cs with
  | nil => exact absurd rfl hcs
  | cons c rest => rw [walk_cons, h]

/-- Induction on the links left, then on the components left. -/
theorem walk_induction {P : Nat → Loc → List Comp → Prop}
    (h : ∀ b cur cs, (∀ cur' cs', cs'.length < cs.length → P b cur' cs') →
      (∀ b' cur' cs', b = b' + 1 → P b' cur' cs') → P b cur cs) :
    ∀ b cur cs, P b cur cs := by
  intro b
  induction b with
  | zero =>
    intro cur cs
    induction hn : cs.length using Nat.strong_induction_on generalizing cur cs with
    | _ n ih =>
      subst hn
      exact h 0 cur cs (fun cur' cs' hl => ih _ hl cur' cs' rfl) (fun b' _ _ hb => by omega)
  | succ b ihb =>
    intro cur cs
    induction hn : cs.length using Nat.strong_induction_on generalizing cur cs with
    | _ n ih =>
      subst hn
      refine h (b + 1) cur cs (fun cur' cs' hl => ih _ hl cur' cs' rfl) (fun b' cur' cs' hb => ?_)
      obtain rfl : b = b' := by omega
      exact ihb cur' cs'

/-- Walking a longer path: follow its head to the end, then walk its tail. -/
theorem walk_append (fs : Tree) (follow : Bool) {ys : List Comp} (hys : ys ≠ []) :
    ∀ (b : Nat) (cur : Loc) (xs : List Comp),
    walk fs follow b cur (xs ++ ys) = (walk fs true b cur xs).bind (fun r => walk fs follow r.2 r.1 ys) := by
  apply walk_induction
  intro b cur xs ih ihb
  cases xs with
  | nil => simp [Except.bind]
  | cons c xs =>
    rw [List.cons_append, walk_cons, walk_cons]
    cases hcur : fs.get cur with
    | none => rfl
    | some nd =>
      cases nd with
      | file d a => rfl
      | link t u g => rfl
      | dir a =>
        cases c with
        | up => exact ih _ _ (by simp)
        | name n =>
          simp only
          cases hn : fs.get (cur ++ [n]) with
          | none =>
            by_cases hx : xs = []
            · subst hx
              simp [Except.bind, hys, walk_missing hn follow b hys]
            · simp [Except.bind, hx]
          | some nd' =>
            cases nd' with
            | file d a => exact ih _ _ (by simp)
            | dir a => exact ih _ _ (by simp)
            | link t u g =>
              simp only [List.append_eq_nil_iff, hys, and_false, false_and, if_false, Bool.true_eq_false]
              cases b with
              | zero => rfl
              | succ b =>
                simp only [onLink, ← List.append_assoc]
                exact ihb b _ _ rfl

/-! ## What a walk that succeeds says -/

/-- A walk never gains links. -/
theorem walk_budget (fs : Tree) (follow : Bool) : ∀ (b : Nat) (cur : Loc) (cs : List Comp) (l : Loc)
    (b' : Nat), walk fs follow b cur cs = .ok (l, b') → b' ≤ b := by
  apply walk_induction
  intro b cur cs ih ihb l b' h
  cases cs with
  | nil =>
    rw [walk_nil] at h
    cases h
    exact Nat.le_refl _
  | cons c rest =>
    rw [walk_cons] at h
    split at h
    · split at h
      · exact ih _ _ (by simp) _ _ h
      · split at h
        · split at h
          · cases h; exact Nat.le_refl _
          · cases h
        · split at h
          · cases h; exact Nat.le_refl _
          · cases b with
            | zero => cases h
            | succ b => exact Nat.le_succ_of_le (ihb b _ _ rfl _ _ h)
        · exact ih _ _ (by simp) _ _ h
    · cases h
    · cases h

/-- Every location properly above this one is a directory. -/
def DirsAbove (fs : Tree) (l : Loc) : Prop :=
  ∀ p, p <+: l → p ≠ l → ∃ a, fs.get p = some (.dir a)

/-- No location properly above this one is a link. -/
def NoLinkAbove (fs : Tree) (l : Loc) : Prop :=
  ∀ p, p <+: l → p ≠ l → ∀ t u g, fs.get p ≠ some (.link t u g)

/-- The node here is not a link. -/
def NotLink (fs : Tree) (l : Loc) : Prop := ∀ t u g, fs.get l ≠ some (.link t u g)

theorem prefix_snoc {p l : Loc} {n : Name} : p <+: l ++ [n] ↔ p <+: l ∨ p = l ++ [n] := by
  rw [List.prefix_concat_iff]
  exact or_comm

theorem ne_snoc_of_isPrefix {p l : Loc} {n : Name} (h : p <+: l) : p ≠ l ++ [n] := by
  rintro rfl
  have := h.length_le
  rw [List.length_append, List.length_singleton] at this
  omega

theorem dirsAbove_nil (fs : Tree) : DirsAbove fs [] := by
  intro p hp hne
  exact absurd (List.prefix_nil.mp hp) hne

theorem dirsAbove_snoc {fs : Tree} {l : Loc} {n : Name} :
    DirsAbove fs (l ++ [n]) ↔ DirsAbove fs l ∧ ∃ a, fs.get l = some (.dir a) := by
  constructor
  · intro h
    refine ⟨fun p hp _ => h p (prefix_snoc.mpr (.inl hp)) (ne_snoc_of_isPrefix hp), ?_⟩
    exact h l (List.prefix_append l _) (ne_snoc_of_isPrefix (List.prefix_refl l))
  · rintro ⟨h, hl⟩ p hp hne
    rcases prefix_snoc.mp hp with hp | hp
    · by_cases hpl : p = l
      · exact hpl ▸ hl
      · exact h p hp hpl
    · exact absurd hp hne

theorem dirsAbove_dropLast {fs : Tree} {l : Loc} (h : DirsAbove fs l) : DirsAbove fs l.dropLast := by
  intro p hp hne
  refine h p (hp.trans (List.dropLast_prefix l)) ?_
  rintro rfl
  have := hp.length_le
  rw [List.length_dropLast] at this
  have hnil : p = [] := List.eq_nil_of_length_eq_zero (by omega)
  exact hne (by rw [hnil]; rfl)

theorem DirsAbove.noLinkAbove {fs : Tree} {l : Loc} (h : DirsAbove fs l) : NoLinkAbove fs l := by
  intro p hp hne t u g hl
  obtain ⟨a, ha⟩ := h p hp hne
  rw [ha] at hl
  cases hl

/-- A walk that starts below directories ends below directories, and, when it
follows its last component, not on a link. -/
theorem walk_sound (fs : Tree) (follow : Bool) : ∀ (b : Nat) (cur : Loc) (cs : List Comp) (l : Loc) (b' : Nat),
    DirsAbove fs cur → NotLink fs cur → walk fs follow b cur cs = .ok (l, b') →
    DirsAbove fs l ∧ (follow = true → NotLink fs l) := by
  apply walk_induction
  intro b cur cs ih ihb l b' hcur hnl h
  cases cs with
  | nil =>
    rw [walk_nil] at h
    cases h
    exact ⟨hcur, fun _ => hnl⟩
  | cons c rest =>
    rw [walk_cons] at h
    split at h
    · next a hdir =>
      split at h
      · have hup : DirsAbove fs cur.dropLast := dirsAbove_dropLast hcur
        refine ih _ _ (by simp) _ _ hup ?_ h
        intro t u g hl
        by_cases he : cur.dropLast = cur
        · rw [he, hdir] at hl
          cases hl
        · obtain ⟨a', ha'⟩ := hcur _ (List.dropLast_prefix cur) he
          rw [ha'] at hl
          cases hl
      · next n =>
        have hbelow : DirsAbove fs (cur ++ [n]) := dirsAbove_snoc.mpr ⟨hcur, a, hdir⟩
        split at h
        · next hn =>
          split at h
          · cases h
            exact ⟨hbelow, fun _ t u g hl => by rw [hn] at hl; cases hl⟩
          · cases h
        · split at h
          · next hf =>
            cases h
            exact ⟨hbelow, fun ht => absurd hf.2 (by simp [ht])⟩
          · cases b with
            | zero => cases h
            | succ b =>
              split at h
              · exact ihb b _ _ rfl _ _ (dirsAbove_nil fs) (by intro t u g hl; cases hl) h
              · exact ihb b _ _ rfl _ _ hcur hnl h
        · next nd hnd hn =>
          refine ih _ _ (by simp) _ _ hbelow ?_ h
          intro t u g hl
          rw [hn] at hl
          exact hnd t u g (Option.some.inj hl)
    · cases h
    · cases h

/-- Following the last component or not makes a difference only on a link. -/
theorem walk_follow_cases (fs : Tree) : ∀ (b : Nat) (cur : Loc) (cs : List Comp),
    walk fs true b cur cs = walk fs false b cur cs ∨
    ∃ l b' t u g, walk fs false b cur cs = .ok (l, b') ∧ fs.get l = some (.link t u g) := by
  apply walk_induction
  intro b cur cs ih ihb
  cases cs with
  | nil => exact .inl (by simp)
  | cons c rest =>
    rw [walk_cons, walk_cons]
    cases hcur : fs.get cur with
    | none => exact .inl rfl
    | some nd =>
      cases nd with
      | file d a => exact .inl rfl
      | link t u g => exact .inl rfl
      | dir a =>
        cases c with
        | up => exact ih _ _ (by simp)
        | name n =>
          simp only
          cases hn : fs.get (cur ++ [n]) with
          | none => exact .inl rfl
          | some nd' =>
            cases nd' with
            | file d a => exact ih _ _ (by simp)
            | dir a => exact ih _ _ (by simp)
            | link t u g =>
              by_cases hr : rest = []
              · subst hr
                exact .inr ⟨cur ++ [n], b, t, u, g, by simp, hn⟩
              · simp only [hr, false_and, if_false]
                cases b with
                | zero => exact .inl rfl
                | succ b => exact ihb b _ _ rfl

theorem stat_lstat_cases (fs : Tree) (p : String) :
    stat fs p = lstat fs p ∨ ∃ l t u g, lstat fs p = .ok (l, .link t u g) := by
  unfold stat lstat locate
  split
  · rcases walk_follow_cases fs maxSymlinks [] (parse p) with h | ⟨l, b', t, u, g, h, hl⟩
    · exact .inl (by rw [h])
    · exact .inr ⟨l, t, u, g, by simp [h, Except.bind, nodeAt, hl]⟩
  · exact .inl rfl

/-! ## Walking plain names -/

/-- Over names whose walk passes directories only, the walk arrives at those names. -/
theorem walk_dirs (fs : Tree) (follow : Bool) (b : Nat) : ∀ (l cur : Loc),
    (∀ p, p <+: l → p ≠ l → ∃ a, fs.get (cur ++ p) = some (.dir a)) →
    (follow = true → l ≠ [] → NotLink fs (cur ++ l)) →
    walk fs follow b cur (l.map .name) = .ok (cur ++ l, b) := by
  intro l
  induction l with
  | nil => intro cur _ _; simp
  | cons n l ih =>
    intro cur hdirs hlast
    obtain ⟨a, ha⟩ := hdirs [] (List.nil_prefix) (by simp)
    rw [List.append_nil] at ha
    rw [List.map_cons, walk_cons, ha]
    have hrest : ∀ p, p <+: l → p ≠ l → ∃ a, fs.get (cur ++ [n] ++ p) = some (.dir a) := by
      intro p hp hne
      have := hdirs (n :: p) (List.cons_prefix_cons.mpr ⟨rfl, hp⟩) (by simpa using hne)
      simpa using this
    by_cases hl : l = []
    · subst hl
      cases hn : fs.get (cur ++ [n]) with
      | none => simp [hn]
      | some nd =>
        cases nd with
        | file d at' => simp [hn]
        | dir at' => simp [hn]
        | link t u g =>
          cases follow with
          | false => simp [hn]
          | true => exact absurd hn (hlast rfl (by simp) t u g)
    · obtain ⟨a', ha'⟩ := hrest [] (List.nil_prefix) (fun h => hl h.symm)
      rw [List.append_nil] at ha'
      simp only [ha']
      rw [ih (cur ++ [n]) hrest (fun hf _ => by simpa using hlast hf (by simp))]
      simp

/-- Over names with no link above the last one, the walk arrives at those names or
not at all, and only if directories lead there. -/
theorem walk_plain (fs : Tree) (follow : Bool) (b : Nat) (r : Loc × Nat) : ∀ (l cur : Loc),
    (∀ p, p <+: l → p ≠ l → NotLink fs (cur ++ p)) →
    (follow = true → l ≠ [] → NotLink fs (cur ++ l)) →
    walk fs follow b cur (l.map .name) = .ok r →
    r = (cur ++ l, b) ∧ ∀ p, p <+: l → p ≠ l → ∃ a, fs.get (cur ++ p) = some (.dir a) := by
  intro l
  induction l with
  | nil =>
    intro cur _ _ h
    rw [List.map_nil, walk_nil] at h
    cases h
    refine ⟨by simp, fun p hp hne => absurd (List.prefix_nil.mp hp) hne⟩
  | cons n l ih =>
    intro cur hlinks hlast h
    rw [List.map_cons, walk_cons] at h
    have hrest : ∀ p, p <+: l → p ≠ l → NotLink fs (cur ++ [n] ++ p) := by
      intro p hp hne
      have := hlinks (n :: p) (List.cons_prefix_cons.mpr ⟨rfl, hp⟩) (by simpa using hne)
      simpa using this
    have hlast' : follow = true → l ≠ [] → NotLink fs (cur ++ [n] ++ l) := by
      intro hf _
      simpa using hlast hf (by simp)
    split at h
    · next a hdir =>
      have hhead : ∀ p, p <+: n :: l → p ≠ n :: l →
          (∀ q, q <+: l → q ≠ l → ∃ a, fs.get (cur ++ [n] ++ q) = some (.dir a)) →
          ∃ a, fs.get (cur ++ p) = some (.dir a) := by
        intro p hp hne hq
        cases p with
        | nil => exact ⟨a, by simpa using hdir⟩
        | cons m q =>
          obtain ⟨rfl, hql⟩ := List.cons_prefix_cons.mp hp
          simpa using hq q hql (by simpa using hne)
      simp only at h
      split at h
      · split at h
        · next hmap =>
          obtain rfl : l = [] := List.map_eq_nil_iff.mp hmap
          cases h
          refine ⟨rfl, fun p hp hne => hhead p hp hne ?_⟩
          intro q hq hne'
          exact absurd (List.prefix_nil.mp hq) hne'
        · cases h
      · next t u g hl =>
        split at h
        · next hc =>
          obtain rfl : l = [] := List.map_eq_nil_iff.mp hc.1
          cases h
          refine ⟨rfl, fun p hp hne => hhead p hp hne ?_⟩
          intro q hq hne'
          exact absurd (List.prefix_nil.mp hq) hne'
        · next hc =>
          exfalso
          by_cases hnil : l = []
          · subst hnil
            cases follow with
            | false => simp at hc
            | true => exact hlast rfl (by simp) t u g hl
          · exact hrest [] List.nil_prefix (fun h => hnil h.symm) t u g (by simpa using hl)
      · obtain ⟨hr, hdirs⟩ := ih (cur ++ [n]) hrest hlast' h
        exact ⟨by simpa using hr, fun p hp hne => hhead p hp hne hdirs⟩
    · cases h
    · cases h

end LinuxHardener.FileTree
