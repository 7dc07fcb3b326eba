import LinuxHardener.Ssh.Sshd

/-
  One Include line, read by the resolver and by sshd.

  What is proved:
    1. `includePatterns_of_args`, `includeArgs_of_patterns` — the two agree on what a line
       includes where no `=` stands between keyword and argument (`spaced`).
    2. `expandPattern_expands` — a pattern with no wildcard in its directory expands to
       the files it names, where the matcher is right about the names listed.
-/
namespace LinuxHardener.Ssh

open Text LineText Glob Common

/-- No `=` stands between the keyword and its argument. -/
def spaced (line : Chars) : Bool := (trimStart ((trim line).dropWhile (fun c => !endsKey c))).head? != some '='

/-! ## Keywords -/

theorem not_mem_of_include {k : Chars} (h : eqIgnoreCase k includeKeyword = true) : '=' ∉ k := by
  intro hmem
  have hlow : Char.toLower '=' ∈ k.map Char.toLower := List.mem_map_of_mem hmem
  unfold eqIgnoreCase at h
  rw [beq_iff_eq.mp h] at hlow
  revert hlow
  decide

theorem takeWhile_endsKey {s : Chars} (h : '=' ∉ s.takeWhile (fun c => !isWhitespace c)) :
    s.takeWhile (fun c => !endsKey c) = s.takeWhile (fun c => !isWhitespace c) ∧
      s.dropWhile (fun c => !endsKey c) = s.dropWhile (fun c => !isWhitespace c) := by
  induction s with
  | nil => exact ⟨rfl, rfl⟩
  | cons c s ih =>
    by_cases hc : isWhitespace c = true
    · simp [endsKey, hc]
    · have hne : c ≠ '=' := by
        rintro rfl
        simp [hc] at h
      have hs : '=' ∉ s.takeWhile (fun c => !isWhitespace c) := by
        intro hmem
        simp [hc, hmem] at h
      simpa [endsKey, hc, hne] using ih hs

/-- Where no `=` follows the key, it ends at a blank. -/
theorem takeWhile_blank {s : Chars} (h : (trimStart (s.dropWhile (fun c => !endsKey c))).head? ≠ some '=') :
    '=' ∉ s.takeWhile (fun c => !isWhitespace c) := by
  induction s with
  | nil => simp
  | cons c s ih =>
    by_cases hc : isWhitespace c = true
    · simp [hc]
    · have hne : c ≠ '=' := by
        rintro rfl
        simp [endsKey, trimStart, hc] at h
      rw [List.dropWhile_cons, if_pos (by simp [endsKey, hc, hne])] at h
      have := ih h
      simp [hc, Ne.symm hne, this]

theorem splitDirective_key (s : Chars) : (splitDirective s).1 = s.takeWhile (fun c => !endsKey c) := by
  unfold splitDirective
  dsimp only
  split <;> rfl

theorem splitDirective_value {s : Chars} (h : (trimStart (s.dropWhile (fun c => !endsKey c))).head? ≠ some '=') :
    (splitDirective s).2 = trimStart (s.dropWhile (fun c => !endsKey c)) := by
  unfold splitDirective
  dsimp only
  split
  · next value he =>
    rw [he] at h
    exact absurd rfl h
  · rfl

/-- A trimmed text that is not empty begins with its first word. -/
theorem words_trim {line : Chars} (hne : trim line ≠ []) :
    words (trim line) = (trim line).takeWhile (fun c => !isWhitespace c) ::
      words ((trim line).dropWhile (fun c => !isWhitespace c)) := by
  cases ht : trim line with
  | nil => exact absurd ht hne
  | cons c s => exact words_cons (head_trim (by rw [ht]; rfl)) s

/-! ## Include lines -/

theorem includePatterns_some {line : Chars} {patterns : List Chars} (h : includePatterns line = some patterns) :
    isComment (trim line) = false ∧ patterns ≠ [] ∧
      eqIgnoreCase ((trim line).takeWhile (fun c => !isWhitespace c)) includeKeyword = true ∧
      words ((trim line).dropWhile (fun c => !isWhitespace c)) = patterns := by
  unfold includePatterns at h
  dsimp only at h
  split at h
  · cases h
  · next hc =>
    by_cases hne : trim line = []
    · rw [hne] at h
      cases h
    · rw [words_trim hne] at h
      dsimp only at h
      split at h
      · next hk =>
        cases h
        exact ⟨by simpa using hc, hk.2, hk.1, rfl⟩
      · cases h

/-- A line the resolver follows is an Include line to sshd. -/
theorem includeArgs_of_patterns {line : Chars} {patterns : List Chars} (h : includePatterns line = some patterns) :
    ∃ args, includeArgs line = some args ∧ (spaced line = true → args = patterns) := by
  obtain ⟨hc, _, hk, hw⟩ := includePatterns_some h
  obtain ⟨htake, hdrop⟩ := takeWhile_endsKey (not_mem_of_include hk)
  refine ⟨words (splitDirective (trim line)).2, includeArgs_some_iff.mpr ⟨hc, ?_, rfl⟩, ?_⟩
  · rw [splitDirective_key, htake, hk]
  · intro hs
    rw [splitDirective_value (by simpa [spaced] using hs), words_trimStart, hdrop, hw]

/-- An Include line to sshd, with a blank behind its keyword, is one to the resolver. -/
theorem includePatterns_of_args {line : Chars} {args : List Chars} (h : includeArgs line = some args)
    (hs : spaced line = true) : includePatterns line = if args = [] then none else some args := by
  obtain ⟨hc, hk, rfl⟩ := includeArgs_some_iff.mp h
  have hhead : (trimStart ((trim line).dropWhile (fun c => !endsKey c))).head? ≠ some '=' := by
    simpa [spaced] using hs
  obtain ⟨htake, hdrop⟩ := takeWhile_endsKey (takeWhile_blank hhead)
  rw [splitDirective_key, htake] at hk
  have hne : trim line ≠ [] := by
    intro he
    rw [he] at hk
    cases hk
  rw [splitDirective_value hhead, words_trimStart, hdrop]
  unfold includePatterns
  dsimp only
  rw [if_neg (by simp [hc]), words_trim hne]
  dsimp only
  split
  · next hk' => rw [if_neg hk'.2]
  · next hk' => rw [if_pos (not_not.mp fun hn => hk' ⟨hk, hn⟩)]

/-- An Include line without an argument defines nothing. -/
theorem definition_include {line : Chars} (h : includeArgs line = some []) (directive : Chars) :
    definition directive line = none := by
  obtain ⟨_, _, hw⟩ := includeArgs_some_iff.mp h
  unfold definition lineValue spaceSeparatedValue
  dsimp only
  rw [hw]
  simp

/-- An Include line opens no block. -/
theorem opensMatch_include {line : Chars} {args : List Chars} (h : includeArgs line = some args) :
    opensMatch line = false := by
  obtain ⟨_, hk, _⟩ := includeArgs_some_iff.mp h
  unfold eqIgnoreCase at hk
  unfold opensMatch eqIgnoreCase
  dsimp only
  rw [beq_iff_eq.mp hk]
  have hne : (includeKeyword.map Char.toLower == matchKeyword.map Char.toLower) = false := by decide
  rw [hne, Bool.and_false]

/-! ## Wildcards and components -/

theorem mem_of_mem_trimRight {s : Chars} {c : Char} (h : c ∈ trimRight s) : c ∈ s := by
  fun_induction trimRight s with
  | case1 s ih => exact List.mem_cons_of_mem _ (ih h)
  | case2 s ih => exact List.mem_cons_of_mem _ (List.mem_cons_of_mem _ (ih h))
  | case3 s => exact h

theorem mem_trimRight {s : Chars} {c : Char} (h : c ∈ s) (hslash : c ≠ '/') (hdot : c ≠ '.') : c ∈ trimRight s := by
  fun_induction trimRight s with
  | case1 s ih => exact ih ((List.mem_cons.mp h).resolve_left hslash)
  | case2 s ih =>
    exact ih ((List.mem_cons.mp ((List.mem_cons.mp h).resolve_left hdot)).resolve_left hslash)
  | case3 s => exact h

theorem splitLast_mem {path dir name : Chars} (h : splitLast path = some (dir, name)) {c : Char}
    (hslash : c ≠ '/') (hdot : c ≠ '.') : c ∈ path ↔ c ∈ dir ∨ c ∈ name := by
  unfold splitLast at h
  dsimp only at h
  split at h
  · cases h
  · obtain ⟨hdir, hname⟩ := Prod.mk.inj (Option.some.inj h)
    have hparts : c ∈ trimRight path.reverse ↔
        c ∈ trimRight ((trimRight path.reverse).dropWhile (· != '/')) ∨
          c ∈ (trimRight path.reverse).takeWhile (· != '/') := by
      constructor
      · intro hc
        rw [← List.takeWhile_append_dropWhile (p := (· != '/')) (l := trimRight path.reverse),
          List.mem_append] at hc
        exact hc.symm.imp (fun hd => mem_trimRight hd hslash hdot) id
      · rintro (hd | ht)
        · exact (List.dropWhile_suffix _).subset (mem_of_mem_trimRight hd)
        · exact (List.takeWhile_prefix _).subset ht
    have hpath : c ∈ path ↔ c ∈ trimRight path.reverse :=
      ⟨fun hc => mem_trimRight (List.mem_reverse.mpr hc) hslash hdot, fun hc => List.mem_reverse.mp (mem_of_mem_trimRight hc)⟩
    rw [hpath, hparts, ← hdir, ← hname, List.mem_reverse]
    split
    · next he =>
      rw [he]
      simp [hslash]
    · rw [List.mem_reverse]

theorem isWild_ne {c : Char} (h : isWild c = true) : c ≠ '/' ∧ c ≠ '.' := by
  constructor <;> rintro rfl <;> cases h

/-- A wildcard stands in the directory or in the name. -/
theorem splitLast_hasWildcard {path dir name : Chars} (h : splitLast path = some (dir, name)) :
    hasWildcard path = true ↔ hasWildcard dir = true ∨ hasWildcard name = true := by
  simp only [hasWildcard, List.any_eq_true]
  constructor
  · rintro ⟨c, hc, hw⟩
    rcases (splitLast_mem h (isWild_ne hw).1 (isWild_ne hw).2).mp hc with hd | hn
    · exact .inl ⟨c, hd, hw⟩
    · exact .inr ⟨c, hn, hw⟩
  · rintro (⟨c, hc, hw⟩ | ⟨c, hc, hw⟩)
    · exact ⟨c, (splitLast_mem h (isWild_ne hw).1 (isWild_ne hw).2).mpr (.inl hc), hw⟩
    · exact ⟨c, (splitLast_mem h (isWild_ne hw).1 (isWild_ne hw).2).mpr (.inr hc), hw⟩

theorem hasWildcard_joinPath (dir name : Chars) :
    hasWildcard (joinPath dir name) = (hasWildcard dir || hasWildcard name) := by
  unfold joinPath hasWildcard
  split
  · rw [List.any_append]
  · rw [List.any_append, List.any_cons, show isWild '/' = false from rfl, Bool.false_or]

/-! ## What a pattern names -/

theorem patternNames_literal {reader : Reader} {p f : FilePath} (hp : hasWildcard p = false) :
    PatternNames reader p f ↔ f = p ∧ reader.pathExists p = .ok true := by
  constructor
  · intro h
    cases h with
    | literal _ h => exact ⟨rfl, h⟩
    | entry hs hn =>
      rw [(splitLast_hasWildcard hs).mpr (.inr hn)] at hp
      cases hp
    | deepEntry hs hn =>
      rw [(splitLast_hasWildcard hs).mpr (.inr hn)] at hp
      cases hp
    | deepLiteral hs _ hd =>
      rw [(splitLast_hasWildcard hs).mpr (.inl hd)] at hp
      cases hp
  · rintro ⟨rfl, h⟩
    exact .literal hp h

theorem patternNames_entry {reader : Reader} {p f dir name : Chars} {names : List Chars}
    (hs : splitLast p = some (dir, name)) (hn : hasWildcard name = true) (hd : hasWildcard dir = false)
    (hl : reader.readDir dir = .ok names) :
    PatternNames reader p f ↔ ∃ n ∈ names, Glob.Names name n ∧ joinPath dir n = f := by
  constructor
  · intro h
    cases h with
    | literal hp =>
      rw [(splitLast_hasWildcard hs).mpr (.inr hn)] at hp
      cases hp
    | entry hs' _ _ hl' hmem h =>
      rw [hs] at hs'
      cases hs'
      rw [hl] at hl'
      cases hl'
      exact ⟨_, hmem, h, rfl⟩
    | deepEntry hs' _ hd' =>
      rw [hs] at hs'
      cases hs'
      rw [hd] at hd'
      cases hd'
    | deepLiteral hs' hn' =>
      rw [hs] at hs'
      cases hs'
      rw [hn] at hn'
      cases hn'
  · rintro ⟨n, hmem, h, rfl⟩
    exact .entry hs hn hd hl hmem h

theorem joinPath_lt {dir a b : Chars} (h : a < b) : joinPath dir a < joinPath dir b := by
  unfold joinPath
  split
  · exact List.append_left_lt h
  · exact List.append_left_lt (List.cons_lt_cons_iff.mpr (.inr ⟨rfl, h⟩))

/-- Names listed once each, sorted: each stands before the next. -/
theorem matchedEntries_sorted {dir name : Chars} {names : List Chars} (h : names.Nodup) :
    (matchedEntries dir name names).Pairwise (· < ·) := by
  unfold matchedEntries
  refine List.pairwise_map.mpr ?_
  have hsorted := List.pairwise_insertionSort (· ≤ ·) (names.filter (globMatches name))
  have hnodup : ((names.filter (globMatches name)).insertionSort (· ≤ ·)).Nodup :=
    (List.perm_insertionSort (· ≤ ·) _).nodup_iff.mpr (h.filter _)
  exact hsorted.imp₂ (fun a b hle hne => joinPath_lt (lt_of_le_of_ne hle hne)) hnodup

theorem mem_matchedEntries {dir name f : Chars} {names : List Chars} :
    f ∈ matchedEntries dir name names ↔ ∃ n ∈ names, globMatches name n = true ∧ joinPath dir n = f := by
  unfold matchedEntries
  rw [List.mem_map]
  constructor
  · rintro ⟨n, hn, rfl⟩
    rw [List.mem_insertionSort, List.mem_filter] at hn
    exact ⟨n, hn.1, hn.2, rfl⟩
  · rintro ⟨n, hn, hm, rfl⟩
    exact ⟨n, (List.mem_insertionSort _).mpr (List.mem_filter.mpr ⟨hn, hm⟩), rfl⟩

/-! ## The resolver's expansion -/

/-- A pattern the resolver can expand: no wildcard in its directory, and the matcher is
right about the names listed there. -/
structure Expandable (reader : Reader) (pattern : FilePath) : Prop where
  directory : ∀ dir name, splitLast pattern = some (dir, name) → hasWildcard dir = false
  entries : ∀ dir name names, splitLast pattern = some (dir, name) → reader.readDir dir = .ok names →
    ∀ n ∈ names, globMatches name n = true ↔ Glob.Names name n

theorem absolutePattern_eq (sysconfdir : FilePath) {including : FilePath} {arg absolute : Chars}
    (h : absolutePattern arg including = some absolute) :
    absolute = sshdPattern sysconfdir including arg ∧ hasWildcard absolute = hasWildcard arg := by
  unfold absolutePattern relativeBase at h
  unfold sshdPattern
  split at h
  · next ha =>
    cases h
    rw [if_pos ha]
    exact ⟨rfl, rfl⟩
  · next ha =>
    split at h
    · next he =>
      cases h
      rw [if_neg ha, if_pos he, hasWildcard_joinPath]
      exact ⟨rfl, by rw [show hasWildcard sshConfigDir = false from by decide, Bool.false_or]⟩
    · cases h

theorem fileName_eq {path name : Chars} (h : fileName path = some name) :
    ∃ dir, splitLast path = some (dir, name) ∧ parent path = some dir := by
  unfold fileName at h
  unfold parent
  split at h
  · cases h
  · next dir name' hs =>
    split at h
    · cases h
    · cases h
      exact ⟨dir, hs, by rw [hs]; rfl⟩

/-- An expansion that succeeds is the pattern's. -/
theorem expandPattern_expands {reader : Reader} {sysconfdir including : FilePath} {arg : Chars} {files : List FilePath}
    (hx : hasWildcard arg = true → Expandable reader (sshdPattern sysconfdir including arg))
    (h : expandPattern reader arg including = .ok files) :
    Expands reader (sshdPattern sysconfdir including arg) files := by
  unfold expandPattern at h
  dsimp only at h
  split at h
  · cases h
  · cases habs : absolutePattern arg including with
    | none => rw [habs] at h; cases h
    | some absolute =>
      obtain ⟨rfl, hwild⟩ := absolutePattern_eq sysconfdir habs
      rw [habs] at h
      dsimp only at h
      split at h
      · next hw =>
        have hplain : hasWildcard (sshdPattern sysconfdir including arg) = false := by
          rw [hwild]
          simpa using hw
        split at h
        · next hex =>
          cases h
          refine ⟨List.pairwise_singleton _ _, fun f => ?_⟩
          rw [patternNames_literal hplain, List.mem_singleton, and_iff_left hex]
        · next hex =>
          cases h
          refine ⟨List.Pairwise.nil, fun f => ?_⟩
          rw [patternNames_literal hplain, hex]
          simp
        · cases h
      · next hw =>
        have hw' : hasWildcard arg = true := by simpa using hw
        split at h
        · next directory name hparent hname =>
          obtain ⟨dir, hs, hparent'⟩ := fileName_eq hname
          rw [hparent] at hparent'
          cases hparent'
          have hx := hx hw'
          have hdir := hx.directory _ _ hs
          have hname : hasWildcard name = true := by
            rw [← hwild] at hw'
            rcases (splitLast_hasWildcard hs).mp hw' with hd | hn
            · rw [hdir] at hd
              cases hd
            · exact hn
          split at h
          · cases h
          · next names hl =>
            cases h
            refine ⟨matchedEntries_sorted (reader.nodup _ _ hl), fun f => ?_⟩
            rw [patternNames_entry hs hname hdir hl, mem_matchedEntries]
            constructor
            · rintro ⟨n, hn, hm, rfl⟩
              exact ⟨n, hn, (hx.entries _ _ _ hs hl n hn).mp hm, rfl⟩
            · rintro ⟨n, hn, hm, rfl⟩
              exact ⟨n, hn, (hx.entries _ _ _ hs hl n hn).mpr hm, rfl⟩
        · cases h

end LinuxHardener.Ssh
