import LinuxHardener.Ssh.Walk
import Mathlib.Logic.Relation

/-
  How sshd reads its configuration.

  An `Include` is replaced, in place, by the files its arguments name: glob(7), in the
  order of their names. Keyword and argument are separated by blanks or by one `=`. The
  first definition of a directive outside any `Match` block is its value; a block runs to
  the end of its file.

  A finite reading of a file is an `IncludeTree`, and `Reading` says which tree the host's
  files are. What is proved: `reading_unique` — there is at most one;
  `not_describes_of_cyclic` — where a file includes itself there is none.
-/
namespace LinuxHardener.Ssh

open Text LineText Glob Common

/-- The arguments of an `Include` line. -/
def includeArgs (line : Chars) : Option (List Chars) :=
  let trimmed := trim line
  if isComment trimmed then none
  else if eqIgnoreCase (splitDirective trimmed).1 includeKeyword then some (words (splitDirective trimmed).2)
  else none

theorem includeArgs_some_iff {line : Chars} {args : List Chars} :
    includeArgs line = some args ↔ isComment (trim line) = false ∧
      eqIgnoreCase (splitDirective (trim line)).1 includeKeyword = true ∧ words (splitDirective (trim line)).2 = args := by
  unfold includeArgs
  dsimp only
  cases isComment (trim line) with
  | true => simp
  | false => cases eqIgnoreCase (splitDirective (trim line)).1 includeKeyword <;> simp

/-! ## The files a pattern names -/

/-- The paths an absolute pattern names, wildcards in a directory component included. -/
inductive PatternNames (reader : Reader) : FilePath → FilePath → Prop where
  | literal {p : FilePath} (hp : hasWildcard p = false) (h : reader.pathExists p = .ok true) : PatternNames reader p p
  | entry {p dir name n : Chars} {names : List Chars} (hp : splitLast p = some (dir, name))
      (hn : hasWildcard name = true) (hd : hasWildcard dir = false) (hl : reader.readDir dir = .ok names)
      (hmem : n ∈ names) (h : Glob.Names name n) : PatternNames reader p (joinPath dir n)
  | deepEntry {p dir name d n : Chars} {names : List Chars} (hp : splitLast p = some (dir, name))
      (hn : hasWildcard name = true) (hd : hasWildcard dir = true) (h' : PatternNames reader dir d)
      (hl : reader.readDir d = .ok names) (hmem : n ∈ names) (h : Glob.Names name n) :
      PatternNames reader p (joinPath d n)
  | deepLiteral {p dir name d : Chars} (hp : splitLast p = some (dir, name)) (hn : hasWildcard name = false)
      (hd : hasWildcard dir = true) (h' : PatternNames reader dir d)
      (h : reader.pathExists (joinPath d name) = .ok true) : PatternNames reader p (joinPath d name)

/-- What a pattern expands to: the paths it names, in order. -/
structure Expands (reader : Reader) (pattern : FilePath) (files : List FilePath) : Prop where
  sorted : files.Pairwise (· < ·)
  mem : ∀ f, f ∈ files ↔ PatternNames reader pattern f

/-- An argument as an absolute pattern. A relative one stands below sshd's configuration
directory, which for the administrator's files is `/etc/ssh`. -/
def sshdPattern (sysconfdir including : FilePath) (arg : Chars) : FilePath :=
  if isAbsolute arg then arg
  else joinPath (if "/etc/".toList.isPrefixOf including then sshConfigDir else sysconfdir) arg

/-! ## Trees of files -/

/-- A file as it is read: its lines, and in place of an Include the files it names. -/
inductive IncludeTree where
  | done
  | line (path : FilePath) (text : Chars) (rest : IncludeTree)
  | file (included rest : IncludeTree)

namespace IncludeTree

/-- How many files deep the tree is. -/
def levels : IncludeTree → Nat
  | done => 1
  | line _ _ rest => rest.levels
  | file included rest => max (included.levels + 1) rest.levels

theorem levels_pos (t : IncludeTree) : 1 ≤ t.levels := by
  induction t with
  | done => exact Nat.le_refl 1
  | line _ _ _ ih => exact ih
  | file _ _ _ ih => exact ih.trans (le_max_right _ _)

/-- The lines outside any `Match` block, the included ones in place. -/
def globals : IncludeTree → List Chars
  | done => []
  | line _ text rest => if opensMatch text then [] else text :: rest.globals
  | file included rest => included.globals ++ rest.globals

/-- The first definition of a directive outside any `Match` block. -/
def first (t : IncludeTree) (directive : Chars) : Option Chars := t.globals.findSome? (definition directive)

@[simp] theorem first_done (d : Chars) : first .done d = none := rfl

theorem first_line (p l : Chars) (t : IncludeTree) (d : Chars) :
    first (.line p l t) d = if opensMatch l then none else (definition d l).or (t.first d) := by
  unfold first
  rw [globals]
  split
  · rfl
  · rw [List.findSome?_cons]
    cases definition d l <;> rfl

theorem first_file (a t : IncludeTree) (d : Chars) : first (.file a t) d = (a.first d).or (t.first d) := by
  unfold first
  rw [globals, List.findSome?_append]

end IncludeTree

/-- The tree that a file's remaining lines and pending includes are on this host. -/
inductive Reading (reader : Reader) (sysconfdir : FilePath) : FilePath → List Work → IncludeTree → Prop where
  | done {p : FilePath} : Reading reader sysconfdir p [] .done
  | line {p : FilePath} {l : Chars} {ws : List Work} {t : IncludeTree} (h : includeArgs l = none)
      (ht : Reading reader sysconfdir p ws t) : Reading reader sysconfdir p (.line l :: ws) (.line p l t)
  | expand {p : FilePath} {l : Chars} {args : List Chars} {files : List (List FilePath)} {ws : List Work}
      {t : IncludeTree} (h : includeArgs l = some args)
      (hf : List.Forall₂ (fun arg => Expands reader (sshdPattern sysconfdir p arg)) args files)
      (ht : Reading reader sysconfdir p (files.flatten.map Work.file ++ ws) t) :
      Reading reader sysconfdir p (.line l :: ws) t
  | file {p f : FilePath} {content : Chars} {ws : List Work} {a t : IncludeTree}
      (h : reader.readFile f = .ok content) (ha : Reading reader sysconfdir f ((lines content).map Work.line) a)
      (ht : Reading reader sysconfdir p ws t) : Reading reader sysconfdir p (.file f :: ws) (.file a t)

/-- The include tree of a file with this content. -/
def Describes (reader : Reader) (sysconfdir path : FilePath) (content : Chars) (t : IncludeTree) : Prop :=
  Reading reader sysconfdir path ((lines content).map Work.line) t

/-- A file with its content includes another. -/
def Includes (reader : Reader) (sysconfdir : FilePath) (x y : FilePath × Chars) : Prop :=
  ∃ l ∈ lines x.2, ∃ args, includeArgs l = some args ∧ ∃ arg ∈ args,
    PatternNames reader (sshdPattern sysconfdir x.1 arg) y.1 ∧ reader.readFile y.1 = .ok y.2

/-- The files sshd meets from one file on, whether or not there is an end to them. -/
def Met (reader : Reader) (sysconfdir : FilePath) : FilePath × Chars → FilePath × Chars → Prop :=
  Relation.ReflTransGen (Includes reader sysconfdir)

/-- A file met includes itself, through others or not. -/
def Cyclic (reader : Reader) (sysconfdir : FilePath) (main : FilePath × Chars) : Prop :=
  ∃ x, Met reader sysconfdir main x ∧ Relation.TransGen (Includes reader sysconfdir) x x

/-- No Include inside a `Match` block. -/
def IncludesAboveMatch (ls : List Chars) : Prop :=
  ls.Pairwise (fun l m => opensMatch l = true → includeArgs m = none)

instance (ls : List Chars) : Decidable (IncludesAboveMatch ls) := inferInstanceAs (Decidable (List.Pairwise _ _))

/-! ## One reading -/

theorem Expands.unique {reader : Reader} {p : FilePath} {fs gs : List FilePath} (hf : Expands reader p fs)
    (hg : Expands reader p gs) : fs = gs := by
  have hmem : ∀ f, f ∈ fs ↔ f ∈ gs := fun f => (hf.mem f).trans (hg.mem f).symm
  have hnodup : ∀ {l : List FilePath}, l.Pairwise (· < ·) → l.Nodup := fun h => h.imp (fun hlt => ne_of_lt hlt)
  have hperm : fs.Perm gs := (List.perm_ext_iff_of_nodup (hnodup hf.sorted) (hnodup hg.sorted)).mpr hmem
  exact hperm.eq_of_pairwise (fun a b _ _ hab hba => absurd hab (not_lt_of_gt hba)) hf.sorted hg.sorted

theorem expands_unique {reader : Reader} {sysconfdir p : FilePath} {args : List Chars} {fs gs : List (List FilePath)}
    (hf : List.Forall₂ (fun arg => Expands reader (sshdPattern sysconfdir p arg)) args fs)
    (hg : List.Forall₂ (fun arg => Expands reader (sshdPattern sysconfdir p arg)) args gs) : fs = gs := by
  induction hf generalizing gs with
  | nil =>
    cases hg
    rfl
  | cons ha _ ih =>
    cases hg with
    | cons hb hg => rw [ha.unique hb, ih hg]

/-- A host's files are read in one way. -/
theorem reading_unique {reader : Reader} {sysconfdir p : FilePath} {ws : List Work} {t t' : IncludeTree}
    (h : Reading reader sysconfdir p ws t) (h' : Reading reader sysconfdir p ws t') : t = t' := by
  induction h generalizing t' with
  | done =>
    cases h'
    rfl
  | line hl _ ih =>
    cases h' with
    | line _ ht' => rw [ih ht']
    | expand hl' => rw [hl] at hl'; cases hl'
  | expand hl hf _ ih =>
    cases h' with
    | line hl' => rw [hl] at hl'; cases hl'
    | expand hl' hf' ht' =>
      rw [hl] at hl'
      cases hl'
      rw [expands_unique hf hf'] at ih
      exact ih ht'
  | file hr _ _ iha iht =>
    cases h' with
    | file hr' ha' ht' =>
      rw [hr] at hr'
      cases hr'
      rw [iha ha', iht ht']

/-! ## A cycle has no finite reading -/

section

variable {reader : Reader} {sysconfdir : FilePath}

/-- A pending file is read, one level down. -/
theorem Reading.of_file {p f : FilePath} {ws : List Work} {t : IncludeTree} {c : Chars}
    (h : Reading reader sysconfdir p ws t) (hf : Work.file f ∈ ws) (hc : reader.readFile f = .ok c) :
    ∃ a, Describes reader sysconfdir f c a ∧ a.levels < t.levels := by
  induction h with
  | done => cases hf
  | line _ _ ih =>
    rcases List.mem_cons.mp hf with he | hf
    · cases he
    · exact ih hf
  | expand _ _ _ ih =>
    rcases List.mem_cons.mp hf with he | hf
    · cases he
    · exact ih (List.mem_append_right _ hf)
  | file hr ha _ _ ih =>
    rcases List.mem_cons.mp hf with he | hf
    · cases he
      rw [hr] at hc
      cases hc
      exact ⟨_, ha, lt_of_lt_of_le (Nat.lt_succ_self _) (le_max_left _ _)⟩
    · obtain ⟨a, ha, hlt⟩ := ih hf
      exact ⟨a, ha, lt_of_lt_of_le hlt (le_max_right _ _)⟩

theorem mem_flatten_of_expands {p : FilePath} {args : List Chars} {files : List (List FilePath)} {arg : Chars} {f : FilePath}
    (hf : List.Forall₂ (fun arg => Expands reader (sshdPattern sysconfdir p arg)) args files) (harg : arg ∈ args)
    (hn : PatternNames reader (sshdPattern sysconfdir p arg) f) : f ∈ files.flatten := by
  induction hf with
  | nil => cases harg
  | cons he _ ih =>
    rw [List.flatten_cons, List.mem_append]
    rcases List.mem_cons.mp harg with rfl | harg
    · exact .inl ((he.mem f).mpr hn)
    · exact .inr (ih harg)

theorem Reading.of_line {p f : FilePath} {ws : List Work} {t : IncludeTree} {l c arg : Chars} {args : List Chars}
    (h : Reading reader sysconfdir p ws t) (hl : Work.line l ∈ ws) (ha : includeArgs l = some args) (harg : arg ∈ args)
    (hn : PatternNames reader (sshdPattern sysconfdir p arg) f) (hc : reader.readFile f = .ok c) :
    ∃ a, Describes reader sysconfdir f c a ∧ a.levels < t.levels := by
  induction h with
  | done => cases hl
  | line hnone _ ih =>
    rcases List.mem_cons.mp hl with he | hl
    · cases he
      rw [ha] at hnone
      cases hnone
    · exact ih hl hn
  | expand hsome hf ht ih =>
    rcases List.mem_cons.mp hl with he | hl
    · cases he
      rw [ha] at hsome
      cases hsome
      refine ht.of_file (List.mem_append_left _ ?_) hc
      exact List.mem_map_of_mem (mem_flatten_of_expands hf harg hn)
    · exact ih (List.mem_append_right _ hl) hn
  | file _ _ _ _ ih =>
    rcases List.mem_cons.mp hl with he | hl
    · cases he
    · obtain ⟨a, ha, hlt⟩ := ih hl hn
      exact ⟨a, ha, lt_of_lt_of_le hlt (le_max_right _ _)⟩

theorem describes_included {x y : FilePath × Chars} {t : IncludeTree} (h : Describes reader sysconfdir x.1 x.2 t)
    (hxy : Includes reader sysconfdir x y) : ∃ a, Describes reader sysconfdir y.1 y.2 a ∧ a.levels < t.levels := by
  obtain ⟨l, hl, args, ha, arg, harg, hn, hc⟩ := hxy
  exact Reading.of_line h (List.mem_map_of_mem hl) ha harg hn hc

theorem describes_met {x y : FilePath × Chars} {t : IncludeTree} (h : Describes reader sysconfdir x.1 x.2 t)
    (hxy : Met reader sysconfdir x y) : ∃ a, Describes reader sysconfdir y.1 y.2 a := by
  induction hxy with
  | refl => exact ⟨t, h⟩
  | tail _ hstep ih =>
    obtain ⟨a, ha⟩ := ih
    obtain ⟨b, hb, _⟩ := describes_included ha hstep
    exact ⟨b, hb⟩

theorem describes_below {x y : FilePath × Chars} {t : IncludeTree} (h : Describes reader sysconfdir x.1 x.2 t)
    (hxy : Relation.TransGen (Includes reader sysconfdir) x y) :
    ∃ a, Describes reader sysconfdir y.1 y.2 a ∧ a.levels < t.levels := by
  induction hxy with
  | single hstep => exact describes_included h hstep
  | tail _ hstep ih =>
    obtain ⟨a, ha, hlt⟩ := ih
    obtain ⟨b, hb, hlt'⟩ := describes_included ha hstep
    exact ⟨b, hb, hlt'.trans hlt⟩

/-- A cyclic configuration is no finite tree. -/
theorem not_describes_of_cyclic {path : FilePath} {content : Chars} (h : Cyclic reader sysconfdir (path, content))
    (t : IncludeTree) : ¬ Describes reader sysconfdir path content t := by
  intro ht
  obtain ⟨x, hmet, hloop⟩ := h
  obtain ⟨a, ha⟩ := describes_met ht hmet
  obtain ⟨b, hb, hlt⟩ := describes_below ha hloop
  rw [reading_unique hb ha] at hlt
  exact absurd hlt (lt_irrefl _)

end

end LinuxHardener.Ssh
