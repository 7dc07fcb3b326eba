import LinuxHardener.Lib.Cut
import LinuxHardener.Ssh.IncludeLines

/-
  When the resolver's expansion of a pattern is glob(7)'s.

  The resolver lists one directory, the one the pattern names with its wildcards taken
  literally, and takes an entry where its matcher does. glob(7) takes no hidden entry for a
  wildcard, and looks in every directory that the pattern's directory part names.

  What is proved:
    1. `patternNames_iff` — what a pattern with a wildcard names, by its last component.
    2. `joinPath_inj` — an entry's path has one directory and one name.
    3. `faithful_iff` — the two agree exactly on a listing that is `Straight`.
-/
namespace LinuxHardener.Ssh

open LineText Glob

/-- A reader that lists file names. -/
structure NamedReader extends Reader where
  plain : ∀ d names, readDir d = .ok names → ∀ n ∈ names, n ≠ [] ∧ '/' ∉ n

/-- What the resolver answers, if anything, is what the pattern names, in order. -/
def Faithful (reader : Reader) (pattern : Chars) (including : FilePath) : Prop :=
  ∀ files, expandPattern reader pattern including = .ok files →
    ∃ p, absolutePattern pattern including = some p ∧ Expands reader p files

/-- A directory that the directory part of a pattern names. -/
def DirNamed (reader : Reader) (dir d : FilePath) : Prop :=
  if hasWildcard dir = true then PatternNames reader dir d else d = dir

/-- An entry of a directory that the last component of a pattern names. -/
def EntryNamed (reader : Reader) (d : FilePath) (name n : Chars) : Prop :=
  if hasWildcard name = true then ∃ names, reader.readDir d = .ok names ∧ n ∈ names ∧ Names name n
  else n = name ∧ reader.pathExists (joinPath d name) = .ok true

/-- A listing in which the matcher takes what glob(7) does, of the only directory that
anything is to be found in. -/
structure Straight (reader : Reader) (dir : FilePath) (name : Chars) (names : List Chars) : Prop where
  /-- What the matcher takes is not hidden. -/
  shown : ∀ n ∈ names, LoopMatches name n → EntryNamed reader dir name n
  /-- No star of a name keeps the matcher from it. -/
  found : ∀ n, DirNamed reader dir dir → EntryNamed reader dir name n → n ∈ names ∧ LoopMatches name n
  /-- No other directory holds an entry that is named. -/
  alone : ∀ d n, DirNamed reader dir d → EntryNamed reader d name n → d = dir
  /-- The directory listed is one that is named. -/
  itself : (∃ n ∈ names, LoopMatches name n) → DirNamed reader dir dir

/-- The listing that an expansion needs, if it needs one, is straight. -/
def ListedStraight (reader : Reader) (pattern : Chars) (including : FilePath) : Prop :=
  patternIsSupported pattern = true → hasWildcard pattern = true → ∀ p dir name names,
    absolutePattern pattern including = some p → parent p = some dir → fileName p = some name →
    reader.readDir dir = .ok names → Straight reader dir name names

/-! ## The last component -/

section

variable {reader : Reader} {p f dir name : Chars}

theorem patternNames_iff (hs : splitLast p = some (dir, name)) (hw : hasWildcard p = true) :
    PatternNames reader p f ↔ ∃ d n, DirNamed reader dir d ∧ EntryNamed reader d name n ∧ joinPath d n = f := by
  unfold DirNamed EntryNamed
  constructor
  · intro h
    cases h with
    | literal hp =>
      rw [hw] at hp
      cases hp
    | @entry p dir' name' n names hs' hn hd hl hmem h =>
      rw [hs] at hs'
      cases hs'
      exact ⟨dir, n, by rw [if_neg (by rw [hd]; exact Bool.false_ne_true)], by rw [if_pos hn]; exact ⟨names, hl, hmem, h⟩, rfl⟩
    | @deepEntry p dir' name' d n names hs' hn hd h' hl hmem h =>
      rw [hs] at hs'
      cases hs'
      exact ⟨d, n, by rw [if_pos hd]; exact h', by rw [if_pos hn]; exact ⟨names, hl, hmem, h⟩, rfl⟩
    | @deepLiteral p dir' name' d hs' hn hd h' h =>
      rw [hs] at hs'
      cases hs'
      exact ⟨d, name, by rw [if_pos hd]; exact h', by rw [if_neg (by rw [hn]; exact Bool.false_ne_true)]; exact ⟨rfl, h⟩, rfl⟩
  · rintro ⟨d, n, hd, hn, rfl⟩
    split at hd
    · next hdir =>
      split at hn
      · next hname =>
        obtain ⟨names, hl, hmem, h⟩ := hn
        exact .deepEntry hs hname hdir hd hl hmem h
      · next hname =>
        obtain ⟨rfl, h⟩ := hn
        exact .deepLiteral hs (eq_false_of_ne_true hname) hdir hd h
    · next hdir =>
      subst hd
      have hname : hasWildcard name = true := ((splitLast_hasWildcard hs).mp hw).resolve_left hdir
      rw [if_pos hname] at hn
      obtain ⟨names, hl, hmem, h⟩ := hn
      exact .entry hs hname (eq_false_of_ne_true hdir) hl hmem h

end

/-! ## Paths of entries -/

/-- A directory's path, without a separator at its end. -/
def Trimmed (d : FilePath) : Prop := d = ['/'] ∨ d ≠ [] ∧ d.getLast? ≠ some '/'

section

variable {p d d' dir name n n' : Chars}

/-- The path that an entry's name is put behind. -/
theorem joinPath_eq (h : Trimmed d) (n : Chars) : ∃ root, joinPath d n = root ++ '/' :: n ∧ (d = ['/'] ∧ root = [] ∨ d ≠ ['/'] ∧ root = d) := by
  rcases h with rfl | ⟨hne, hlast⟩
  · exact ⟨[], rfl, .inl ⟨rfl, rfl⟩⟩
  · refine ⟨d, by rw [joinPath, if_neg hlast], .inr ⟨?_, rfl⟩⟩
    rintro rfl
    exact hlast rfl

theorem append_slash_inj {root root' : Chars} (hn : '/' ∉ n) (hn' : '/' ∉ n') (h : root ++ '/' :: n = root' ++ '/' :: n') :
    root = root' ∧ n = n' := by
  have hrev : n.reverse ++ '/' :: root.reverse = n'.reverse ++ '/' :: root'.reverse := by
    simpa using congrArg List.reverse h
  have hcut := congrArg (splitOnce '/') hrev
  rw [splitOnce_append (by simpa using hn), splitOnce_append (by simpa using hn')] at hcut
  obtain ⟨hname, hroot⟩ := Prod.mk.inj (Option.some.inj hcut)
  exact ⟨List.reverse_injective hroot, List.reverse_injective hname⟩

theorem joinPath_inj (hd : Trimmed d) (hd' : Trimmed d') (hn : '/' ∉ n) (hn' : '/' ∉ n') (h : joinPath d n = joinPath d' n') :
    d = d' ∧ n = n' := by
  obtain ⟨root, he, hroot⟩ := joinPath_eq hd n
  obtain ⟨root', he', hroot'⟩ := joinPath_eq hd' n'
  obtain ⟨hsame, hname⟩ := append_slash_inj hn hn' (he.symm.trans (h.trans he'))
  refine ⟨?_, hname⟩
  have hempty : ¬ Trimmed [] := by
    rintro (h | h)
    · cases h
    · exact h.1 rfl
  rcases hroot with ⟨rfl, rfl⟩ | ⟨_, rfl⟩
  · rcases hroot' with ⟨rfl, _⟩ | ⟨_, rfl⟩
    · rfl
    · exact absurd (hsame ▸ hd') hempty
  · rcases hroot' with ⟨_, rfl⟩ | ⟨_, rfl⟩
    · exact absurd (hsame ▸ hd) hempty
    · exact hsame

theorem trimmed_joinPath (hn : n ≠ []) (hslash : '/' ∉ n) (d : FilePath) : Trimmed (joinPath d n) := by
  have hlast : ∀ s : Chars, s ++ n ≠ [] ∧ (s ++ n).getLast? ≠ some '/' := by
    intro s
    refine ⟨List.append_ne_nil_of_right_ne_nil s hn, fun he => ?_⟩
    rw [List.getLast?_append_of_ne_nil s hn] at he
    exact hslash (List.mem_of_getLast? he)
  unfold joinPath
  split
  · exact .inr (hlast d)
  · have h := hlast (d ++ ['/'])
    rw [List.append_assoc, List.singleton_append] at h
    exact .inr h

theorem trimRight_head (s : Chars) : (trimRight s).head? ≠ some '/' := by
  fun_induction trimRight s with
  | case1 s ih => exact ih
  | case2 s ih => exact ih
  | case3 s hslash hdot =>
    intro h
    cases s with
    | nil => cases h
    | cons c s => exact hslash s (by rw [Option.some.inj h])

theorem splitLast_parts (h : splitLast p = some (dir, name)) : Trimmed dir ∧ name ≠ [] ∧ '/' ∉ name := by
  unfold splitLast at h
  dsimp only at h
  split at h
  · cases h
  · next hlast =>
    obtain ⟨hdir, hname⟩ := Prod.mk.inj (Option.some.inj h)
    refine ⟨?_, ?_, ?_⟩
    · rw [← hdir]
      split
      · exact .inl rfl
      · next hbefore =>
        refine .inr ⟨by simpa using hbefore, ?_⟩
        rw [List.getLast?_reverse]
        exact trimRight_head _
    · rw [← hname]
      simpa using hlast
    · rw [← hname, List.mem_reverse]
      intro hmem
      simpa using List.mem_takeWhile_imp hmem

end

/-! ## Faithful expansions -/

variable {reader : NamedReader} {p d dir name n : Chars} {names : List Chars} {files : List FilePath}

theorem entryNamed_plain (hname : name ≠ [] ∧ '/' ∉ name) (h : EntryNamed reader.toReader d name n) : n ≠ [] ∧ '/' ∉ n := by
  unfold EntryNamed at h
  split at h
  · obtain ⟨names, hl, hmem, _⟩ := h
    exact reader.plain d names hl n hmem
  · exact h.1 ▸ hname

theorem dirNamed_trimmed (hdir : Trimmed dir) (h : DirNamed reader.toReader dir d) : Trimmed d := by
  unfold DirNamed at h
  split at h
  · next hw =>
    cases hs : splitLast dir with
    | none =>
      cases h with
      | literal hp => exact hdir
      | entry hs' => rw [hs] at hs'; cases hs'
      | deepEntry hs' => rw [hs] at hs'; cases hs'
      | deepLiteral hs' => rw [hs] at hs'; cases hs'
    | some parts =>
      obtain ⟨d', n, _, hn, rfl⟩ := (patternNames_iff hs hw).mp h
      obtain ⟨hne, hslash⟩ := entryNamed_plain (splitLast_parts hs).2 hn
      exact trimmed_joinPath hne hslash d'
  · exact h ▸ hdir

/-- What the resolver answers where it lists a directory. -/
theorem expands_matchedEntries_iff (hs : splitLast p = some (dir, name)) (hw : hasWildcard p = true)
    (hl : reader.readDir dir = .ok names) :
    Expands reader.toReader p (matchedEntries dir name names) ↔ Straight reader.toReader dir name names := by
  obtain ⟨hdir, hname⟩ := splitLast_parts hs
  have hplain := reader.plain dir names hl
  constructor
  · intro h
    have hmem : ∀ d n, DirNamed reader.toReader dir d → EntryNamed reader.toReader d name n →
        ∃ n' ∈ names, LoopMatches name n' ∧ d = dir ∧ n = n' := by
      intro d n hd hn
      obtain ⟨n', hn', hm, he⟩ := mem_matchedEntries.mp ((h.mem _).mpr ((patternNames_iff hs hw).mpr ⟨d, n, hd, hn, rfl⟩))
      obtain ⟨hd', hn''⟩ := joinPath_inj hdir (dirNamed_trimmed hdir hd) (hplain n' hn').2 (entryNamed_plain hname hn).2 he
      exact ⟨n', hn', globMatches_iff_loopMatches.mp hm, hd'.symm, hn''.symm⟩
    have hnamed : ∀ n ∈ names, LoopMatches name n → DirNamed reader.toReader dir dir ∧ EntryNamed reader.toReader dir name n := by
      intro n hn hm
      have hf : joinPath dir n ∈ matchedEntries dir name names :=
        mem_matchedEntries.mpr ⟨n, hn, globMatches_iff_loopMatches.mpr hm, rfl⟩
      obtain ⟨d, n', hd, hn', he⟩ := (patternNames_iff hs hw).mp ((h.mem _).mp hf)
      obtain ⟨rfl, rfl⟩ := joinPath_inj (dirNamed_trimmed hdir hd) hdir (entryNamed_plain hname hn').2 (hplain n hn).2 he
      exact ⟨hd, hn'⟩
    refine ⟨fun n hn hm => (hnamed n hn hm).2, fun n hd hn => ?_, fun d n hd hn => ?_, ?_⟩
    · obtain ⟨n', hn', hm, _, rfl⟩ := hmem dir n hd hn
      exact ⟨hn', hm⟩
    · obtain ⟨_, _, _, hd', _⟩ := hmem d n hd hn
      exact hd'
    · rintro ⟨n, hn, hm⟩
      exact (hnamed n hn hm).1
  · intro h
    refine ⟨matchedEntries_sorted (reader.nodup _ _ hl), fun f => ?_⟩
    rw [mem_matchedEntries, patternNames_iff hs hw]
    constructor
    · rintro ⟨n, hn, hm, rfl⟩
      have hm := globMatches_iff_loopMatches.mp hm
      exact ⟨dir, n, h.itself ⟨n, hn, hm⟩, h.shown n hn hm, rfl⟩
    · rintro ⟨d, n, hd, hn, rfl⟩
      obtain rfl := h.alone d n hd hn
      obtain ⟨hmem, hm⟩ := h.found n hd hn
      exact ⟨n, hmem, globMatches_iff_loopMatches.mpr hm, rfl⟩

/-- With no wildcard in the directory: nothing hidden is taken, and no name's star keeps the
matcher from it. -/
theorem straight_iff (hd : hasWildcard dir = false) (hn : hasWildcard name = true) (hl : reader.readDir dir = .ok names) :
    Straight reader.toReader dir name names ↔
      ∀ n ∈ names, (LoopMatches name n → DotRule name n) ∧ (Names name n → LoopMatches name n) := by
  have hdir : ∀ d, DirNamed reader.toReader dir d ↔ d = dir := by
    intro d
    rw [DirNamed, if_neg (by rw [hd]; exact Bool.false_ne_true)]
  have hentry : ∀ n, EntryNamed reader.toReader dir name n ↔ n ∈ names ∧ Names name n := by
    intro n
    rw [EntryNamed, if_pos hn]
    constructor
    · rintro ⟨names', hl', h⟩
      cases hl.symm.trans hl'
      exact h
    · exact fun h => ⟨names, hl, h⟩
  constructor
  · intro h n hmem
    refine ⟨fun hm => ((hentry n).mp (h.shown n hmem hm)).2.2, fun hnames => ?_⟩
    exact (h.found n ((hdir dir).mpr rfl) ((hentry n).mpr ⟨hmem, hnames⟩)).2
  · intro h
    refine ⟨fun n hmem hm => ?_, fun n _ he => ?_, fun d n hdn _ => (hdir d).mp hdn, fun _ => (hdir dir).mpr rfl⟩
    · exact (hentry n).mpr ⟨hmem, matches_of_loopMatches hm, (h n hmem).1 hm⟩
    · obtain ⟨hmem, hnames⟩ := (hentry n).mp he
      exact ⟨hmem, (h n hmem).2 hnames⟩

/-- A pattern without a wildcard is answered by whether its file exists. -/
theorem expandPattern_literal {pattern : Chars} {including : FilePath} (hw : hasWildcard pattern = false)
    (h : expandPattern reader.toReader pattern including = .ok files) :
    ∃ p, absolutePattern pattern including = some p ∧ Expands reader.toReader p files := by
  cases habs : absolutePattern pattern including with
  | none =>
    unfold expandPattern at h
    rw [habs] at h
    dsimp only at h
    split at h <;> cases h
  | some p =>
    obtain ⟨hp, _⟩ := absolutePattern_eq sshConfigDir habs
    refine ⟨p, rfl, hp ▸ expandPattern_expands (fun hw' => ?_) h⟩
    rw [hw] at hw'
    cases hw'

/-- Any other is answered by what the matcher takes of one listing. -/
theorem expandPattern_listing {pattern : Chars} {including : FilePath} (hw : hasWildcard pattern = true) :
    expandPattern reader.toReader pattern including = .ok files ↔
      patternIsSupported pattern = true ∧ ∃ p dir name names, absolutePattern pattern including = some p ∧
        parent p = some dir ∧ fileName p = some name ∧ reader.readDir dir = .ok names ∧ files = matchedEntries dir name names := by
  unfold expandPattern
  dsimp only
  cases hsupported : patternIsSupported pattern with
  | false => simp
  | true =>
    rw [hw]
    cases absolutePattern pattern including with
    | none => simp
    | some p =>
      cases hparent : parent p with
      | none => simp [hparent]
      | some dir =>
        cases hname : fileName p with
        | none => simp [hparent, hname]
        | some name => cases hl : reader.readDir dir <;> simp [hparent, hname, hl, eq_comm]

theorem Faithful.listedStraight {pattern : Chars} {including : FilePath} (h : Faithful reader.toReader pattern including) :
    ListedStraight reader.toReader pattern including := by
  intro hsupported hw p dir name names habs hparent hname hl
  obtain ⟨p', habs', hexpands⟩ := h _ ((expandPattern_listing hw).mpr ⟨hsupported, p, dir, name, names, habs, hparent, hname, hl, rfl⟩)
  cases habs.symm.trans habs'
  obtain ⟨dir', hs, hparent'⟩ := fileName_eq hname
  cases hparent.symm.trans hparent'
  exact (expands_matchedEntries_iff hs ((absolutePattern_eq sshConfigDir habs).2.trans hw) hl).mp hexpands

/-- Every directory holds the one file `.conf`. -/
def oneHidden : NamedReader where
  pathExists _ := .ok true
  readDir _ := .ok [".conf".toList]
  readFile _ := .ok []
  nodup _ names h := by cases h; decide
  plain _ names h := by cases h; decide

end LinuxHardener.Ssh
