import LinuxHardener.Lib.Cut
import LinuxHardener.Lib.Shell

/-
  The command an SSH write sends (`hardener-core`, `executor/ssh.rs`).

  Correspondence (Rust ↔ Lean):
    `shell_escape`      ↔ `shellEscape`
    `unique_delimiter`  ↔ `uniqueDelimiter`; its loop is `extendDelimiter`
    `tee_command`       ↔ `teeCommand`

  What is proved:
    1. `not_infix_uniqueDelimiter` — the search ends, with a text the content does not have.
    2. `lex_teeCommand`, `parse_teeCommand` — what a shell makes of the command.
    3. `teeCommand_exact` — one pipeline of `sudo tee` and the path, fed the content with its
       last line ended.
    4. `teeCommand_adds_newline` — content without a final newline gains one.
-/
namespace LinuxHardener.Core.Ssh

open LineText (Chars contains contains_iff)
open Shell

/-- A character as it stands between the quotes; a quote closes them and opens them again. -/
def escapeChar (c : Char) : Chars := if c = '\'' then ['\'', '\\', '\'', '\''] else [c]

def shellEscape (s : Chars) : Chars := '\'' :: (s.flatMap escapeChar ++ ['\''])

/-- The loop: an `X` more as long as the content has the text. -/
def extendDelimiter (content delim : Chars) : Chars :=
  if contains content delim then extendDelimiter content (delim ++ ['X']) else delim
termination_by content.length + 1 - delim.length
decreasing_by
  next h =>
    have := (contains_iff.mp h).length_le
    simp only [List.length_append, List.length_singleton]
    omega

def uniqueDelimiter (content : Chars) : Chars := extendDelimiter content "HARDENER_EOF".toList

/-- The newline put between the content and the delimiter. -/
def separator (content : Chars) : Chars := if content.isEmpty || content.getLast? == some '\n' then [] else ['\n']

def teeCommand (path content : Chars) : Chars :=
  "sudo tee ".toList ++ shellEscape path ++ " > /dev/null << '".toList ++ uniqueDelimiter content ++ "'\n".toList ++ content ++
    separator content ++ uniqueDelimiter content

/-! ## The delimiter -/

theorem not_infix_extendDelimiter (content delim : Chars) : ¬ extendDelimiter content delim <:+: content := by
  fun_induction extendDelimiter content delim with
  | case1 delim _ ih => exact ih
  | case2 delim h => exact mt contains_iff.mpr h

/-- The delimiter is nowhere in the content. -/
theorem not_infix_uniqueDelimiter (content : Chars) : ¬ uniqueDelimiter content <:+: content :=
  not_infix_extendDelimiter content _

theorem mem_extendDelimiter {content delim : Chars} {c : Char} (h : c ∈ extendDelimiter content delim) : c ∈ delim ∨ c = 'X' := by
  fun_induction extendDelimiter content delim with
  | case1 delim _ ih => simpa [or_assoc] using ih h
  | case2 delim _ => exact .inl h

/-- It holds no quote and no newline. -/
theorem plain_uniqueDelimiter (content : Chars) : '\'' ∉ uniqueDelimiter content ∧ '\n' ∉ uniqueDelimiter content := by
  constructor <;>
  · intro h
    have := mem_extendDelimiter h
    revert this
    decide

/-- The content's last line is ended. -/
def closed (content : Chars) : Chars := content ++ separator content

theorem closed_cases (content : Chars) : closed content = [] ∨ (closed content).getLast? = some '\n' := by
  unfold closed separator
  by_cases h : content = []
  · simp [h]
  · by_cases hn : content.getLast? = some '\n'
    · simp [hn]
    · simp [h, hn]

theorem not_infix_closed (content : Chars) : ¬ uniqueDelimiter content <:+: closed content := by
  have hnot := not_infix_uniqueDelimiter content
  have hplain := (plain_uniqueDelimiter content).2
  unfold closed separator
  split
  · simpa using hnot
  · intro hin
    -- What ends with the newline has it, and what does not is in the content.
    obtain ⟨before, after, heq⟩ := hin
    rcases List.eq_nil_or_concat after with rfl | ⟨after', c, rfl⟩
    · rw [List.append_nil] at heq
      have hlast : (before ++ uniqueDelimiter content).getLast? = some '\n' := by simp [heq]
      cases hd : uniqueDelimiter content with
      | nil => exact hnot (by simp [hd])
      | cons d ds =>
        rw [List.getLast?_append, hd] at hlast
        have hmem : '\n' ∈ d :: ds := by
          cases hl : (d :: ds).getLast? with
          | none => simp at hl
          | some x =>
            rw [hl] at hlast
            obtain rfl := Option.some.inj hlast
            exact List.mem_of_getLast? hl
        exact hplain (hd ▸ hmem)
    · have : before ++ uniqueDelimiter content ++ after' ++ [c] = content ++ ['\n'] := by simpa using heq
      exact hnot ⟨before, after', (List.append_inj' this rfl).1⟩

/-! ## What a shell reads -/

/-- Between the quotes the path comes out as it is. -/
theorem run_escape (path : Chars) (s : State) (hs : s.mode = .single) (w : Word) (hw : s.word = some w)
    (hq : s.wordQuoted = true) : run s (path.flatMap escapeChar) = some { s with word := some (w ++ quoted path) } := by
  induction path generalizing s w with
  | nil =>
    obtain ⟨tokens, word, wordQuoted, mode, awaits, pending, docs⟩ := s
    obtain rfl := hw
    simp [run, quoted]
  | cons c path ih =>
    have hc : run s (escapeChar c) = some (s.push ⟨c, true⟩) := by
      by_cases hquote : c = '\''
      · subst hquote
        obtain ⟨tokens, word, wordQuoted, mode, awaits, pending, docs⟩ := s
        obtain rfl := hs
        obtain rfl := hw
        obtain rfl := hq
        rfl
      · have hstep : step s c = some (s.push ⟨c, true⟩) := by simp [step, hs, hquote]
        rw [escapeChar, if_neg hquote, run_cons, hstep]
        rfl
    rw [List.flatMap_cons, run_append_of hc, ih (s.push ⟨c, true⟩) hs (w ++ [⟨c, true⟩]) (by simp [State.push, hw]) hq]
    simp [State.push, quoted]

/-- The path as the shell reads it: one more part of a word, all of it quoted. -/
theorem run_shellEscape (path : Chars) (s : State) (hs : s.mode = .plain) :
    run s (shellEscape path) = some { s with word := some (s.word.getD [] ++ quoted path), wordQuoted := true } := by
  have hopen : run s ['\''] = some (s.quote .single) := by
    rw [run_cons, step_open hs]
    rfl
  have hpath := run_escape path (s.quote .single) rfl (s.word.getD []) rfl rfl
  change run s (['\''] ++ (path.flatMap escapeChar ++ ['\''])) = _
  rw [run_append_of hopen, run_append_of hpath, run_cons, step_close rfl]
  obtain ⟨tokens, word, wordQuoted, mode, awaits, pending, docs⟩ := s
  obtain rfl := hs
  rfl

/-- The words and operators of the command's first line. -/
def firstLine (path delim : Chars) : List Token :=
  [.word (unquoted "sudo".toList), .word (unquoted "tee".toList), .word (quoted path), .operator ['>'],
    .word (unquoted "/dev/null".toList), .operator ['<', '<'], .word (quoted delim)]

/-- Behind the first line the here-document begins. -/
theorem run_firstLine (path : Chars) {delim : Chars} (hdelim : '\'' ∉ delim) :
    run .init ("sudo tee ".toList ++ shellEscape path ++ " > /dev/null << '".toList ++ delim ++ "'\n".toList) =
      some ⟨firstLine path delim, none, false, .body [] [], none, [⟨delim, false⟩], []⟩ := by
  have hsudo : run .init "sudo tee ".toList =
      some ⟨[.word (unquoted "sudo".toList), .word (unquoted "tee".toList)], none, false, .plain, none, [], []⟩ := by rfl
  have hredirect : ∀ w : Word, run ⟨[.word (unquoted "sudo".toList), .word (unquoted "tee".toList)], some w, true, .plain, none, [], []⟩
      " > /dev/null << '".toList =
      some ⟨[.word (unquoted "sudo".toList), .word (unquoted "tee".toList), .word w, .operator ['>'],
        .word (unquoted "/dev/null".toList), .operator ['<', '<']], some [], true, .single, some false, [], []⟩ := fun w => by rfl
  rw [List.append_assoc, List.append_assoc, List.append_assoc, run_append_of hsudo, run_append_of (run_shellEscape path _ rfl)]
  rw [run_append_of (hredirect _), run_append_of (run_single _ rfl rfl hdelim)]
  have htext : text (quoted delim) = delim := by simp [text, quoted, Function.comp_def]
  change run ⟨_, some (quoted delim), true, .single, some false, [], []⟩ ['\'', '\n'] = _
  simp [run, step, stepPlain, operators, State.endWord, State.newline, htext, firstLine]

/-- The command is one line of words and operators with one here-document. -/
theorem lex_teeCommand (path content : Chars) :
    lex (teeCommand path content) = some (firstLine path (uniqueDelimiter content) ++ [.newline [closed content]]) := by
  obtain ⟨hquote, hnewline⟩ := plain_uniqueDelimiter content
  obtain ⟨line, lines, hrun, hread, hline⟩ := run_body (p := ⟨uniqueDelimiter content, false⟩) rfl hnewline (closed content)
    ⟨firstLine path (uniqueDelimiter content), none, false, .body [] [], none, [⟨uniqueDelimiter content, false⟩], []⟩ [] [] rfl rfl
    (by simp) (by simpa using not_infix_closed content)
  -- The body ends with a newline, so its last line is empty.
  have hlast : line = [] := by
    rcases List.eq_nil_or_concat line with rfl | ⟨front, c, rfl⟩
    · rfl
    · rcases closed_cases content with hnil | hlast
      · simp [hnil] at hread
      · rw [List.nil_append, List.nil_append] at hread
        rw [← hread] at hlast
        have hc : c = '\n' := by simpa using hlast
        simp [hc] at hline
  subst hlast
  obtain rfl : lines = closed content := by simpa using hread
  have hbody := finish_body (p := ⟨uniqueDelimiter content, false⟩) rfl
    (s := ⟨firstLine path (uniqueDelimiter content), none, false, .body [] (closed content), none,
      [⟨uniqueDelimiter content, false⟩], []⟩) rfl rfl hnewline
  have hcommand : teeCommand path content = "sudo tee ".toList ++ shellEscape path ++ " > /dev/null << '".toList ++
      uniqueDelimiter content ++ "'\n".toList ++ closed content ++ uniqueDelimiter content := by
    unfold teeCommand closed
    simp only [List.append_assoc]
  rw [lex, hcommand, List.append_assoc, run_append_of (run_firstLine path hquote), run_append_of hrun]
  exact hbody

/-- The pipeline of a privileged write: no word, redirection or command beside these. -/
def teePipeline (path stdin : Chars) : Pipeline :=
  ⟨[⟨[unquoted "sudo".toList, unquoted "tee".toList, quoted path],
    [.file [] ['>'] (unquoted "/dev/null".toList), .here [] stdin]⟩], ['\n']⟩

theorem parse_teeCommand (path content : Chars) :
    parse (teeCommand path content) = some [teePipeline path (closed content)] := by
  rw [parse, lex_teeCommand]
  rfl

/-- A line stands in the text it is a line of. -/
theorem infix_of_mem_splitOn {text line : Chars} (h : line ∈ text.splitOn '\n') : line <:+: text := by
  have hinfix : ∀ l : List Chars, line ∈ l → line <:+: ['\n'].intercalate l := by
    intro l
    induction l with
    | nil => simp
    | cons first rest ih =>
      intro hmem
      cases rest with
      | nil => simp [List.mem_singleton.mp hmem]
      | cons second rest =>
        rw [List.intercalate_cons_cons]
        rcases List.mem_cons.mp hmem with rfl | hmem
        · exact ⟨[], ['\n'] ++ ['\n'].intercalate (second :: rest), by simp⟩
        · exact (ih hmem).trans (List.suffix_append _ _).isInfix
  simpa using hinfix _ h

/-- The command runs `sudo tee` with the path, which is quoted throughout, as its one
argument, and feeds it the content with its last line ended; no line of the content is
the delimiter. -/
theorem teeCommand_exact (path content : Chars) :
    parse (teeCommand path content) = some [teePipeline path (closed content)] ∧
      (content = [] ∨ content.getLast? = some '\n' → closed content = content) ∧
      (content ≠ [] ∧ content.getLast? ≠ some '\n' → closed content = content ++ ['\n']) ∧
      ∀ line ∈ content.splitOn '\n', line ≠ uniqueDelimiter content := by
  refine ⟨parse_teeCommand path content, ?_, ?_, ?_⟩
  · rintro (rfl | h)
    · rfl
    · simp [closed, separator, h]
  · rintro ⟨hne, hlast⟩
    simp [closed, separator, hne, hlast]
  · rintro line hline rfl
    exact not_infix_uniqueDelimiter content (infix_of_mem_splitOn hline)

/-- A content of one character comes in with a newline behind it. -/
theorem teeCommand_adds_newline :
    parse (teeCommand "/etc/motd".toList "x".toList) ≠ some [teePipeline "/etc/motd".toList "x".toList] := by
  rw [parse_teeCommand]
  decide

end LinuxHardener.Core.Ssh
