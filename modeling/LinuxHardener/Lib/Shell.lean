import Mathlib.Data.List.Basic

/-
  A shell's token recognition, and its parser for pipelines of simple commands.

  Both are after the shell command language of POSIX (sections 2.2, 2.3, 2.7, 2.10). A
  text gives `none` where it has an expansion (an unquoted or double-quoted `$` or
  backquote, a here-document whose delimiter is not quoted), a compound command, an
  unfinished quote or a syntax error. The last line of a here-document may lack its
  newline, as shells have it.

  A word keeps of each character whether it was quoted: only an unquoted one can be part
  of a pattern, a tilde prefix, an assignment or a reserved word.

  What is proved:
    1. `run_append` — a text is read piece by piece.
    2. `run_plain`, `run_single` — what plain characters and a quoted text add to a word;
       `run_word`, `run_operator`, `finish_word` — what stands between blanks.
    3. `run_body`, `finish_body` — a here-document is read up to its delimiter.
    4. `parseTokens_separated` — a command of words, and the separator that ends it.
-/
namespace LinuxHardener.Shell

/-! ## Words and tokens -/

/-- A character of a word, and whether it stood in quotes. -/
structure Mark where
  char : Char
  quoted : Bool
  deriving DecidableEq, Repr

abbrev Word : Type := List Mark

def unquoted (cs : List Char) : Word := cs.map fun c => ⟨c, false⟩

def quoted (cs : List Char) : Word := cs.map fun c => ⟨c, true⟩

def text (w : Word) : List Char := w.map Mark.char

inductive Token where
  | word (w : Word)
  /-- Digits right before a redirection. -/
  | ioNumber (digits : List Char)
  | operator (o : List Char)
  /-- A newline, with the here-documents that began there. -/
  | newline (docs : List (List Char))
  deriving DecidableEq, Repr

def operators : List (List Char) :=
  ["&&", "||", ";;", "<<", ">>", "<&", ">&", "<>", "<<-", ">|", "&", "|", ";", "<", ">", "(", ")"].map String.toList

/-! ## Token recognition -/

inductive Mode where
  | plain
  | single
  | double
  /-- After a backslash, in double quotes or not. -/
  | escaped (inDouble : Bool)
  | comment
  | operator (o : List Char)
  /-- In a here-document: the line so far, and the lines before it. -/
  | body (line lines : List Char)
  deriving DecidableEq, Repr

/-- A here-document whose body is still to come; `strip` is that of `<<-`. -/
structure Pending where
  delimiter : List Char
  strip : Bool
  deriving DecidableEq, Repr

structure State where
  tokens : List Token
  /-- The word being read, if one has begun. -/
  word : Option Word
  /-- Some part of that word was quoted. -/
  wordQuoted : Bool
  mode : Mode
  /-- The word to come is the delimiter of a here-document. -/
  awaits : Option Bool
  pending : List Pending
  docs : List (List Char)
  deriving DecidableEq, Repr

def State.init : State := ⟨[], none, false, .plain, none, [], []⟩

def State.push (s : State) (m : Mark) : State := { s with word := some (s.word.getD [] ++ [m]) }

/-- A quote opens, which begins a word where none has begun. -/
def State.quote (s : State) (mode : Mode) : State :=
  { s with word := some (s.word.getD []), wordQuoted := true, mode := mode }

/-- The word ends here. As a delimiter it has to be quoted. -/
def State.endWord (s : State) : Option State :=
  match s.word with
  | none => some s
  | some w =>
    match s.awaits with
    | none => some { s with tokens := s.tokens ++ [.word w], word := none, wordQuoted := false }
    | some strip =>
      if s.wordQuoted then
        some { s with
          tokens := s.tokens ++ [.word w], word := none, wordQuoted := false, awaits := none,
          pending := s.pending ++ [⟨text w, strip⟩] }
      else none

/-- The word ends before an operator; digits before a redirection are its number. -/
def State.endWordBefore (s : State) (c : Char) : Option State :=
  match s.word with
  | some w =>
    if (c = '<' ∨ c = '>') ∧ w ≠ [] ∧ w.all (fun m => m.char.isDigit && !m.quoted) ∧ !s.wordQuoted ∧ s.awaits.isNone then
      some { s with tokens := s.tokens ++ [.ioNumber (text w)], word := none }
    else s.endWord
  | none => some s

def State.emit (s : State) (o : List Char) : Option State :=
  if s.awaits.isSome then none
  else some { s with
    tokens := s.tokens ++ [.operator o], mode := .plain,
    awaits := if o = ['<', '<'] then some false else if o = ['<', '<', '-'] then some true else none }

/-- A newline token; the here-documents that are pending begin behind it. -/
def State.newline (s : State) : Option State :=
  if s.awaits.isSome then none
  else match s.pending with
    | [] => some { s with tokens := s.tokens ++ [.newline []], mode := .plain }
    | _ :: _ => some { s with mode := .body [] [] }

def stepPlain (s : State) (c : Char) : Option State :=
  if c = '\'' then some (s.quote .single)
  else if c = '"' then some (s.quote .double)
  else if c = '\\' then some { s with mode := .escaped false }
  else if c = '$' ∨ c = '\x60' then none
  else if operators.contains [c] then (s.endWordBefore c).map fun s => { s with mode := .operator [c] }
  else if c = '\n' then s.endWord.bind State.newline
  else if c = ' ' ∨ c = '\t' then s.endWord
  else if c = '#' ∧ s.word.isNone then some { s with mode := .comment }
  else some (s.push ⟨c, false⟩)

def stepEscaped (inDouble : Bool) (s : State) (c : Char) : State :=
  let back := { s with mode := if inDouble then .double else .plain }
  if c = '\n' then back
  else if !inDouble ∨ c = '$' ∨ c = '\x60' ∨ c = '"' ∨ c = '\\' then { back.push ⟨c, true⟩ with wordQuoted := true }
  else (back.push ⟨'\\', true⟩).push ⟨c, true⟩

def Pending.strips (p : Pending) (line : List Char) : List Char := if p.strip then line.dropWhile (· = '\t') else line

/-- The here-document has ended: the next one begins, or the newline is complete. -/
def State.endBody (s : State) (rest : List Pending) (lines : List Char) : State :=
  match rest with
  | [] => { s with tokens := s.tokens ++ [.newline (s.docs ++ [lines])], mode := .plain, pending := [], docs := [] }
  | _ :: _ => { s with mode := .body [] [], pending := rest, docs := s.docs ++ [lines] }

def stepBody (s : State) (line lines : List Char) (c : Char) : Option State :=
  match s.pending with
  | [] => none
  | p :: rest =>
    if c = '\n' then
      if p.strips line = p.delimiter then some (s.endBody rest lines)
      else some { s with mode := .body [] (lines ++ p.strips line ++ ['\n']) }
    else some { s with mode := .body (line ++ [c]) lines }

def step (s : State) (c : Char) : Option State :=
  match s.mode with
  | .plain => stepPlain s c
  | .single => if c = '\'' then some { s with mode := .plain } else some (s.push ⟨c, true⟩)
  | .double =>
    if c = '"' then some { s with mode := .plain }
    else if c = '$' ∨ c = '\x60' then none
    else if c = '\\' then some { s with mode := .escaped true }
    else some (s.push ⟨c, true⟩)
  | .escaped inDouble => some (stepEscaped inDouble s c)
  | .comment => if c = '\n' then { s with mode := .plain }.newline else some s
  | .operator o =>
    if operators.contains (o ++ [c]) then some { s with mode := .operator (o ++ [c]) }
    else (s.emit o).bind fun s => stepPlain s c
  | .body line lines => stepBody s line lines c

def run (s : State) (cs : List Char) : Option State := cs.foldlM step s

/-- The tokens, where the text ends. -/
def finish (s : State) : Option (List Token) :=
  let ended (s : State) : Option (List Token) :=
    s.endWord.bind fun s => if s.awaits.isSome ∨ s.pending ≠ [] then none else some s.tokens
  match s.mode with
  | .plain | .comment => ended s
  | .operator o => (s.emit o).bind ended
  | .body line lines =>
    match s.pending with
    | [p] => if p.strips line = p.delimiter then some (s.endBody [] lines).tokens else none
    | _ => none
  | _ => none

def lex (cs : List Char) : Option (List Token) := (run .init cs).bind finish

/-! ## Reading piece by piece -/

theorem run_append (s : State) (cs ds : List Char) : run s (cs ++ ds) = (run s cs).bind fun s' => run s' ds :=
  List.foldlM_append

theorem run_cons (s : State) (c : Char) (cs : List Char) : run s (c :: cs) = (step s c).bind fun s' => run s' cs := rfl

/-- What was read so far and what comes. -/
theorem run_append_of {s s' : State} {cs : List Char} (h : run s cs = some s') (ds : List Char) :
    run s (cs ++ ds) = run s' ds := by rw [run_append, h, Option.bind_some]

/-- A quoted text is part of a word, whatever it holds but a quote. -/
theorem run_single (s : State) (hs : s.mode = .single) {w : Word} (hw : s.word = some w) {cs : List Char} (hcs : '\'' ∉ cs) :
    run s cs = some { s with word := some (w ++ quoted cs) } := by
  induction cs generalizing s w with
  | nil =>
    obtain ⟨tokens, word, wordQuoted, mode, awaits, pending, docs⟩ := s
    obtain rfl := hw
    simp [run, quoted]
  | cons c cs ih =>
    obtain ⟨hc, hcs⟩ := not_or.mp (mt List.mem_cons.mpr hcs)
    have hstep : step s c = some (s.push ⟨c, true⟩) := by
      simp [step, hs, Ne.symm hc]
    rw [run_cons, hstep, Option.bind_some, ih (s.push ⟨c, true⟩) hs (w := w ++ [⟨c, true⟩]) (by simp [State.push, hw]) hcs]
    simp [State.push, quoted]

/-- The quote that closes. -/
theorem step_close {s : State} (hs : s.mode = .single) : step s '\'' = some { s with mode := .plain } := by
  simp [step, hs]

/-- The quote that opens. -/
theorem step_open {s : State} (hs : s.mode = .plain) : step s '\'' = some (s.quote .single) := by
  simp [step, hs, stepPlain]

/-! ## Words -/

/-- A character that means nothing but itself, a comment's first apart. -/
def isPlain (c : Char) : Bool :=
  !(['\'', '"', '\\', '$', '\x60', '&', '|', ';', '<', '>', '(', ')', '\n', ' ', '\t'].contains c)

theorem stepPlain_plain {s : State} {c : Char} (hc : isPlain c = true) (hcomment : c = '#' → s.word ≠ none) :
    stepPlain s c = some (s.push ⟨c, false⟩) := by
  simp only [isPlain, List.contains_cons, List.contains_nil, Bool.or_false, Bool.not_eq_true', Bool.or_eq_false_iff, beq_eq_false_iff_ne,
    ne_eq] at hc
  obtain ⟨h1, h2, h3, h4, h5, h6, h7, h8, h9, h10, h11, h12, h13, h14, h15⟩ := hc
  have hop : ¬ operators.contains [c] = true := by
    simp [operators, h6, h7, h8, h9, h10, h11, h12]
  have hword : ¬ (c = '#' ∧ s.word.isNone = true) := by
    rintro ⟨rfl, hnone⟩
    exact hcomment rfl (Option.isNone_iff_eq_none.mp hnone)
  rw [stepPlain, if_neg h1, if_neg h2, if_neg h3, if_neg (not_or.mpr ⟨h4, h5⟩), if_neg hop, if_neg h13,
    if_neg (not_or.mpr ⟨h14, h15⟩), if_neg hword]

/-- Plain characters go to the word as they are. -/
theorem run_plain {cs : List Char} (hcs : cs.all isPlain = true) : ∀ {s : State}, s.mode = .plain →
    (cs.head? = some '#' → s.word ≠ none) → cs ≠ [] →
    run s cs = some { s with word := some (s.word.getD [] ++ unquoted cs) } := by
  induction cs with
  | nil => exact fun _ _ hne => absurd rfl hne
  | cons c cs ih =>
    intro s hs hcomment _
    rw [List.all_cons, Bool.and_eq_true] at hcs
    have hstep : step s c = some (s.push ⟨c, false⟩) := by
      simpa [step, hs] using stepPlain_plain hcs.1 fun hc => hcomment (by simp [hc])
    rw [run_cons, hstep, Option.bind_some]
    cases cs with
    | nil => rfl
    | cons d cs =>
      rw [ih hcs.2 (s := s.push ⟨c, false⟩) hs (fun _ => by simp [State.push]) (by simp)]
      simp [State.push, unquoted]

/-- Between two words. -/
def between (tokens : List Token) : State := ⟨tokens, none, false, .plain, none, [], []⟩

theorem init_eq : State.init = between [] := rfl

/-- A word and the blank that ends it. -/
theorem run_word {cs : List Char} (hcs : cs.all isPlain = true) (hcomment : cs.head? ≠ some '#') (hne : cs ≠ []) (tokens : List Token) :
    run (between tokens) (cs ++ [' ']) = some (between (tokens ++ [.word (unquoted cs)])) := by
  rw [run_append_of (run_plain hcs rfl (fun h => absurd h hcomment) hne)]
  rfl

/-- An operator between blanks. -/
theorem run_operator {c : Char} (hc : c = '&' ∨ c = '|') (tokens : List Token) :
    run (between tokens) [c, c, ' '] = some (between (tokens ++ [.operator [c, c]])) := by
  rcases hc with rfl | rfl <;> rfl

/-- The text ends with a word. -/
theorem finish_word {cs : List Char} (hcs : cs.all isPlain = true) (hcomment : cs.head? ≠ some '#') (hne : cs ≠ []) (tokens : List Token) :
    (run (between tokens) cs).bind finish = some (tokens ++ [.word (unquoted cs)]) := by
  rw [run_plain hcs rfl (fun h => absurd h hcomment) hne]
  rfl

/-! ## Here-documents -/

/-- As long as the delimiter does not come up, the body is what is read, line by line. -/
theorem run_body {p : Pending} (hp : p.strip = false) (hdelim : '\n' ∉ p.delimiter) {rest : List Pending} (cs : List Char) :
    ∀ (s : State) (line lines : List Char), s.mode = .body line lines → s.pending = p :: rest → '\n' ∉ line →
      ¬ p.delimiter <:+: line ++ cs →
      ∃ line' lines', run s cs = some { s with mode := .body line' lines' } ∧ lines' ++ line' = lines ++ line ++ cs ∧ '\n' ∉ line' := by
  induction cs with
  | nil =>
    intro s line lines hs _ hline _
    refine ⟨line, lines, ?_, by simp, hline⟩
    rw [← hs]
    rfl
  | cons c cs ih =>
    intro s line lines hs hpending hline hnot
    by_cases hc : c = '\n'
    · subst hc
      have hstrips : p.strips line = line := by simp [Pending.strips, hp]
      have hne : line ≠ p.delimiter := by
        intro he
        refine hnot ?_
        rw [← he]
        exact (List.prefix_append line _).isInfix
      have hstep : step s '\n' = some { s with mode := .body [] (lines ++ line ++ ['\n']) } := by
        simp only [step, hs, stepBody, hpending, hstrips, if_true, if_neg hne]
      have hnot' : ¬ p.delimiter <:+: [] ++ cs := by
        intro hin
        refine hnot (hin.trans ?_)
        exact (List.suffix_append (line ++ ['\n']) cs).isInfix.trans (by simp)
      obtain ⟨line', lines', hrun, hread, hline'⟩ := ih { s with mode := .body [] (lines ++ line ++ ['\n']) } [] _ rfl hpending
        (by simp) hnot'
      refine ⟨line', lines', ?_, ?_, hline'⟩
      · rw [run_cons, hstep, Option.bind_some, hrun]
      · rw [hread]
        simp
    · have hstep : step s c = some { s with mode := .body (line ++ [c]) lines } := by
        simp [step, hs, stepBody, hpending, hc]
      obtain ⟨line', lines', hrun, hread, hline'⟩ := ih { s with mode := .body (line ++ [c]) lines } (line ++ [c]) lines rfl hpending
        (by simp [hline, Ne.symm hc]) (by simpa using hnot)
      refine ⟨line', lines', ?_, ?_, hline'⟩
      · rw [run_cons, hstep, Option.bind_some, hrun]
      · rw [hread]
        simp

/-- The delimiter as the last line ends the last here-document. -/
theorem finish_body {p : Pending} (hp : p.strip = false) {s : State} {lines : List Char} (hs : s.mode = .body [] lines)
    (hpending : s.pending = [p]) (hdelim : '\n' ∉ p.delimiter) :
    (run s p.delimiter).bind finish = some (s.tokens ++ [.newline (s.docs ++ [lines])]) := by
  have hread : ∀ (cs line : List Char) (s : State), s.mode = .body line lines → s.pending = [p] → '\n' ∉ cs →
      run s cs = some { s with mode := .body (line ++ cs) lines } := by
    intro cs
    induction cs with
    | nil =>
      intro line s hs _ _
      rw [List.append_nil, ← hs]
      rfl
    | cons c cs ih =>
      intro line s hs hpending hcs
      obtain ⟨hc, hcs⟩ := not_or.mp (mt List.mem_cons.mpr hcs)
      have hstep : step s c = some { s with mode := .body (line ++ [c]) lines } := by
        simp [step, hs, stepBody, hpending, Ne.symm hc]
      rw [run_cons, hstep, Option.bind_some, ih _ { s with mode := .body (line ++ [c]) lines } rfl hpending hcs]
      simp
  rw [hread p.delimiter [] s hs hpending hdelim, Option.bind_some]
  simp [finish, hpending, Pending.strips, hp, State.endBody]

/-! ## Pipelines -/

inductive Redirect where
  | file (number : List Char) (operator : List Char) (target : Word)
  | here (number : List Char) (body : List Char)
  deriving DecidableEq, Repr

structure Command where
  words : List Word
  redirects : List Redirect
  deriving DecidableEq, Repr

def Command.empty : Command := ⟨[], []⟩

/-- Commands with a `|` between each two, and what ends them. -/
structure Pipeline where
  commands : List Command
  terminator : List Char
  deriving DecidableEq, Repr

def reserved : List (List Char) :=
  ["!", "\x7b", "\x7d", "case", "do", "done", "elif", "else", "esac", "fi", "for", "if", "in", "then", "until", "while"].map
    String.toList

structure Parser where
  pipelines : List Pipeline
  commands : List Command
  command : Command
  /-- The bodies not yet given to their redirection. -/
  docs : List (List Char)

def Parser.addWord (p : Parser) (w : Word) : Option Parser :=
  if p.command.words = [] ∧ w.all (fun m => !m.quoted) ∧ reserved.contains (text w) then none
  else some { p with command := { p.command with words := p.command.words ++ [w] } }

def Parser.redirect (p : Parser) (number o : List Char) (w : Word) : Option Parser :=
  if o = ['<', '<'] ∨ o = ['<', '<', '-'] then
    match p.docs with
    | [] => none
    | body :: rest =>
      some { p with command := { p.command with redirects := p.command.redirects ++ [.here number body] }, docs := rest }
  else some { p with command := { p.command with redirects := p.command.redirects ++ [.file number o w] } }

/-- The pipeline ends. -/
def Parser.close (p : Parser) (terminator : List Char) : Option Parser :=
  if p.command = .empty then none
  else some { p with pipelines := p.pipelines ++ [⟨p.commands ++ [p.command], terminator⟩], commands := [], command := .empty }

def isRedirection (o : List Char) : Bool :=
  (["<", ">", "<<", ">>", "<&", ">&", "<>", "<<-", ">|"].map String.toList).contains o

def isSeparator (o : List Char) : Bool := (["&&", "||", ";", "&"].map String.toList).contains o

def parseTokens : List Token → Parser → Option Parser
  | [], p => if p.commands = [] ∧ p.command = .empty then some p else p.close []
  | .word w :: rest, p => (p.addWord w).bind (parseTokens rest)
  | .ioNumber number :: .operator o :: .word w :: rest, p =>
    if isRedirection o then (p.redirect number o w).bind (parseTokens rest) else none
  | .operator o :: .word w :: rest, p =>
    if isRedirection o then (p.redirect [] o w).bind (parseTokens rest)
    else if o = ['|'] then
      if p.command = .empty then none
      else ({ p with commands := p.commands ++ [p.command], command := .empty }.addWord w).bind (parseTokens rest)
    else if isSeparator o then ((p.close o).bind (·.addWord w)).bind (parseTokens rest)
    else none
  | .operator o :: rest, p =>
    if o = ['|'] then
      if p.command = .empty then none else parseTokens rest { p with commands := p.commands ++ [p.command], command := .empty }
    else if isSeparator o then (p.close o).bind (parseTokens rest)
    else none
  | .newline _ :: rest, p =>
    -- After a `|` a newline does not end the pipeline.
    if p.command = .empty then parseTokens rest p else (p.close ['\n']).bind (parseTokens rest)
  | .ioNumber _ :: _, _ => none

def Token.docs : Token → List (List Char)
  | .newline docs => docs
  | _ => []

/-- The pipelines of a text. -/
def parse (cs : List Char) : Option (List Pipeline) :=
  (lex cs).bind fun tokens =>
    (parseTokens tokens ⟨[], [], .empty, tokens.flatMap Token.docs⟩).map Parser.pipelines

/-- Behind its first word a command takes every word. -/
theorem parseTokens_words {p : Parser} (hp : p.command.words ≠ []) (ws : List Word) (rest : List Token) :
    parseTokens (ws.map .word ++ rest) p =
      parseTokens rest { p with command := { p.command with words := p.command.words ++ ws } } := by
  induction ws generalizing p with
  | nil => simp
  | cons w ws ih =>
    have hadd : p.addWord w = some { p with command := { p.command with words := p.command.words ++ [w] } } := by
      simp [Parser.addWord, hp]
    rw [List.map_cons, List.cons_append, parseTokens, hadd, Option.bind_some, ih (by simp)]
    simp

/-- A first word that is not reserved, and the words behind it. -/
theorem parseTokens_first {p : Parser} (hp : p.command = .empty) {w : Word} (hw : reserved.contains (text w) = false) (ws : List Word)
    (rest : List Token) :
    parseTokens (.word w :: (ws.map .word ++ rest)) p = parseTokens rest { p with command := ⟨w :: ws, []⟩ } := by
  have hadd : p.addWord w = some { p with command := ⟨[w], []⟩ } := by
    rw [Parser.addWord, hp, if_neg (by simp only [hw, Bool.false_eq_true, and_false, not_false_iff])]
    rfl
  rw [parseTokens, hadd, Option.bind_some, parseTokens_words (by simp)]
  rfl

/-- A command of words only, and the separator that ends it. -/
theorem parseTokens_separated {p : Parser} (hp : p.command = .empty) {w : Word} (hw : reserved.contains (text w) = false)
    (ws : List Word) {o : List Char} (ho : isSeparator o = true ∧ isRedirection o = false ∧ o ≠ ['|']) (w' : Word) (rest : List Token) :
    parseTokens (.word w :: (ws.map .word ++ .operator o :: .word w' :: rest)) p =
      parseTokens (.word w' :: rest)
        { p with pipelines := p.pipelines ++ [⟨p.commands ++ [⟨w :: ws, []⟩], o⟩], commands := [], command := .empty } := by
  obtain ⟨hsep, hredirect, hpipe⟩ := ho
  rw [parseTokens_first hp hw]
  simp [parseTokens, hredirect, hpipe, hsep, Parser.close, Command.empty]

end LinuxHardener.Shell
