import LinuxHardener.Lib.Cut
import Mathlib.Data.List.DropRight

/-
  Unit files as systemd reads them: `systemd.syntax(7)` for the file, `systemd.service(5)`
  for a command line.

  A line ends at `\n`, `\r` or a NUL, of which a run without a repetition is one end. A line
  whose last backslash is not itself escaped goes on with the next one. A command line has its
  specifiers expanded, is split into words, where quotes and C escapes are undone, and
  has its `$` forms replaced.

  Left out: the numeric C escapes, which stand for a refusal here, and the `;` that
  separates commands, unless it is all there is to the first word.

  What is proved:
    1. `unitLines_unlines` — lines written with `\n` are read back.
    2. `readLine_setting` — a setting's line is read as the setting.
    3. `expandWord_of_unexpanded`, `unexpanded_of_flatMap` — the words that no environment
       changes.
-/
namespace LinuxHardener.SystemdUnit

open LineText

def isBlank (c : Char) : Bool := c == ' ' || c == '\t' || c == '\n' || c == '\r'

def strip (s : Chars) : Chars := (s.dropWhile isBlank).rdropWhile isBlank

/-! ## Lines -/

def endsLine (c : Char) : Bool := c == '\n' || c == '\r' || c == '\x00'

/-- In a line, or in a run of line ends. -/
inductive LineState
  | reading (line : Chars)
  | ended (seen : List Char)

def unitLines : LineState → Chars → List Chars
  | .reading line, [] => if line = [] then [] else [line]
  | .ended _, [] => []
  | .reading line, c :: cs =>
    if endsLine c then line :: unitLines (.ended [c]) cs else unitLines (.reading (line ++ [c])) cs
  | .ended seen, c :: cs =>
    if endsLine c then
      (if c ∈ seen then [] :: unitLines (.ended [c]) cs else unitLines (.ended (c :: seen)) cs)
    else unitLines (.reading [c]) cs

/-- Lines as they are written. -/
def unlines (ls : List Chars) : Chars := ls.flatMap (· ++ ['\n'])

/-! ## Settings -/

structure Setting where
  heading : Chars
  key : Chars
  value : Chars
  deriving DecidableEq, Repr

inductive Line
  | heading (name : Chars)
  | setting (key value : Chars)
  | other
  | broken

def parseLine (line : Chars) : Line :=
  match strip line with
  | [] => .other
  | '[' :: rest => if rest.getLast? = some ']' then .heading rest.dropLast else .broken
  | l =>
    match splitOnce '=' l with
    | none => .other
    | some (key, value) => .setting (strip key) (strip value)

/-- Whether the text ends in a backslash that is not itself escaped. -/
def endsEscaped : Bool → Chars → Bool
  | escaped, [] => escaped
  | true, _ :: cs => endsEscaped false cs
  | false, c :: cs => endsEscaped (c == '\\') cs

/-- The lines waiting for their continuation, and the section read. -/
structure Reader where
  continued : Chars
  heading : Option Chars
  deriving DecidableEq, Repr

/-- Takes a whole line; a setting outside of a section is ignored. -/
def Reader.take (r : Reader) (line : Chars) : Option (Reader × List Setting) :=
  match parseLine line with
  | .heading name => some (⟨[], some name⟩, [])
  | .setting key value => some (⟨[], r.heading⟩, (r.heading.map fun heading => ⟨heading, key, value⟩).toList)
  | .other => some (⟨[], r.heading⟩, [])
  | .broken => none

def readLine (r : Reader) (line : Chars) : Option (Reader × List Setting) :=
  let line := line.dropWhile isBlank
  if line.head? = some '#' ∨ line.head? = some ';' then some (r, [])
  else
    let joined := r.continued ++ line
    if endsEscaped false joined then some (⟨joined.dropLast ++ [' '], r.heading⟩, []) else r.take joined

def readLines (r : Reader) : List Chars → Option (Reader × List Setting)
  | [] => some (r, [])
  | line :: ls => do
    let (r, read) ← readLine r line
    let (r, rest) ← readLines r ls
    return (r, read ++ rest)

/-- The settings of a unit file. -/
def readUnit (text : Chars) : Option (List Setting) := do
  let (r, read) ← readLines ⟨[], none⟩ (unitLines (.reading []) text)
  let (_, last) ← r.take r.continued
  return read ++ last

/-! ## Command lines -/

/-- What a backslash and a character stand for. -/
def unescape (c : Char) : Option Char :=
  [('a', '\x07'), ('b', '\x08'), ('f', '\x0c'), ('n', '\n'), ('r', '\r'), ('t', '\t'), ('v', '\x0b'), ('\\', '\\'),
    ('"', '"'), ('\'', '\''), ('s', ' ')].lookup c

/-- Where a word stands, with what is read of it. -/
inductive WordState
  | between
  | plain (word : Chars)
  | quoted (quote : Char) (word : Chars)
  | escaped (quote : Option Char) (word : Chars)

/-- A character of a word, outside of quotes. -/
def plainChar (word : Chars) (c : Char) : WordState :=
  if c = '"' ∨ c = '\'' then .quoted c word else if c = '\\' then .escaped none word else .plain (word ++ [c])

/-- Back to where the escape stood. -/
def resume (word : Chars) : Option Char → WordState
  | none => .plain word
  | some quote => .quoted quote word

def wordsFrom : WordState → Chars → Option (List Chars)
  | .between, [] => some []
  | .plain word, [] => some [word]
  | .quoted .., [] => none
  | .escaped .., [] => none
  | .between, c :: cs => if isBlank c then wordsFrom .between cs else wordsFrom (plainChar [] c) cs
  | .plain word, c :: cs =>
    if isBlank c then (wordsFrom .between cs).map (word :: ·) else wordsFrom (plainChar word c) cs
  | .quoted quote word, c :: cs =>
    if c = quote then wordsFrom (.plain word) cs
    else if c = '\\' then wordsFrom (.escaped (some quote) word) cs
    else wordsFrom (.quoted quote (word ++ [c])) cs
  | .escaped quote word, c :: cs => (unescape c).bind fun d => wordsFrom (resume (word ++ [d]) quote) cs

/-- `%` and a character stand for a text of the manager's, `%%` for `%`. -/
def expandSpecifiers (specifier : Char → Option Chars) : Chars → Chars
  | [] => []
  | '%' :: '%' :: cs => '%' :: expandSpecifiers specifier cs
  | '%' :: c :: cs => (specifier c).getD ['%', c] ++ expandSpecifiers specifier cs
  | c :: cs => c :: expandSpecifiers specifier cs

/-- What `${NAME}` in a word and `$NAME` as a word stand for. -/
structure Environment where
  text : Chars → Chars
  list : Chars → List Chars

/-- No variable is set. -/
def Environment.unset : Environment := ⟨fun _ => [], fun _ => []⟩

inductive EnvState
  | text
  | dollar
  | name (begun : Chars)

/-- Each `${NAME}` replaced, and `$$` by `$`; a `:` in the braces leaves them as they stand. -/
def replaceEnv (env : Environment) : EnvState → Chars → Chars
  | .text, [] => []
  | .dollar, [] => ['$']
  | .name begun, [] => '$' :: '{' :: begun
  | .text, c :: cs => if c = '$' then replaceEnv env .dollar cs else c :: replaceEnv env .text cs
  | .dollar, c :: cs =>
    if c = '{' then replaceEnv env (.name []) cs
    else if c = '$' then '$' :: replaceEnv env .text cs
    else '$' :: c :: replaceEnv env .text cs
  | .name begun, c :: cs =>
    if c = '}' then env.text begun ++ replaceEnv env .text cs
    else if c = ':' then '$' :: '{' :: begun ++ ':' :: replaceEnv env .text cs
    else replaceEnv env (.name (begun ++ [c])) cs

/-- A word that is `$` and a name. -/
def isVariable : Chars → Bool
  | '$' :: rest => rest.head? != some '{' && rest.head? != some '$'
  | _ => false

def expandWord (env : Environment) (word : Chars) : List Chars :=
  if isVariable word then env.list word.tail else [replaceEnv env .text word]

/-- The manager: its specifiers, and what it takes as an executable (an absolute path, or a
file name). -/
structure Manager where
  specifier : Char → Option Chars
  executable : Chars → Bool

/-- The characters that have a meaning of their own before an executable. -/
def isSpecial (c : Char) : Bool := "@-:+!|".toList.contains c

structure Command where
  special : Chars
  arguments : List Chars
  deriving DecidableEq, Repr

def readCommand (m : Manager) (env : Environment) (value : Chars) : Option Command :=
  match wordsFrom .between (expandSpecifiers m.specifier value) with
  | none => none
  | some [] => none
  | some (first :: rest) =>
    let executable := first.dropWhile isSpecial
    if first = [';'] ∨ m.executable executable = false then none
    else some ⟨first.takeWhile isSpecial, (executable :: rest).flatMap (expandWord env)⟩

/-! ## Lines read back -/

variable {l rest acc : Chars} {c : Char}

/-- No character of the text ends a line. -/
def OneLine (l : Chars) : Prop := ∀ c ∈ l, endsLine c = false

instance (l : Chars) : Decidable (OneLine l) := List.decidableBAll _ l

theorem OneLine.append (hl : OneLine l) (hr : OneLine rest) : OneLine (l ++ rest) := by
  intro c hc
  cases List.mem_append.mp hc with
  | inl hc => exact hl c hc
  | inr hc => exact hr c hc

theorem OneLine.cons (hc : endsLine c = false) (hl : OneLine l) : OneLine (c :: l) := List.forall_mem_cons.mpr ⟨hc, hl⟩

theorem unitLines_line (hl : OneLine l) (hc : endsLine c = true) (acc rest : Chars) :
    unitLines (.reading acc) (l ++ c :: rest) = (acc ++ l) :: unitLines (.ended [c]) rest := by
  induction l generalizing acc with
  | nil => rw [List.nil_append, unitLines, if_pos hc, List.append_nil]
  | cons d l ih =>
    have hd : endsLine d = false := hl d List.mem_cons_self
    rw [List.cons_append, unitLines, if_neg (by rw [hd]; exact Bool.false_ne_true),
      ih (fun c hc => hl c (List.mem_cons_of_mem _ hc)), List.append_assoc, List.singleton_append]

/-- After a `\n`, a text that goes on with no other line end is read afresh. -/
theorem unitLines_ended (h : ∀ d, rest.head? = some d → endsLine d = true → d = '\n') :
    unitLines (.ended ['\n']) rest = unitLines (.reading []) rest := by
  cases rest with
  | nil => rfl
  | cons d rest =>
    rw [unitLines, unitLines]
    cases hd : endsLine d with
    | false => rfl
    | true =>
      have hn : d = '\n' := h d rfl hd
      rw [if_pos rfl, if_pos (by rw [hn]; exact List.mem_singleton_self _), if_pos rfl]

theorem unitLines_unlines (rest : Chars) {ls : List Chars} (hls : ∀ l ∈ ls, OneLine l)
    (h : ∀ d, rest.head? = some d → endsLine d = true → d = '\n') :
    unitLines (.reading []) (unlines ls ++ rest) = ls ++ unitLines (.reading []) rest := by
  induction ls with
  | nil => rfl
  | cons l ls ih =>
    have hrest := ih fun l hl => hls l (List.mem_cons_of_mem _ hl)
    have hnext : ∀ d, (unlines ls ++ rest).head? = some d → endsLine d = true → d = '\n' := by
      cases ls with
      | nil => exact h
      | cons m ls =>
        intro d hd hend
        cases m with
        | nil => exact (Option.some.inj hd).symm
        | cons e m =>
          have he : e = d := Option.some.inj hd
          have hline := hls (e :: m) (List.mem_cons_of_mem _ List.mem_cons_self) e List.mem_cons_self
          rw [he, hend] at hline
          cases hline
    calc unitLines (.reading []) (unlines (l :: ls) ++ rest)
        = unitLines (.reading []) (l ++ '\n' :: (unlines ls ++ rest)) := by simp [unlines]
      _ = l :: unitLines (.ended ['\n']) (unlines ls ++ rest) :=
          unitLines_line (hls l List.mem_cons_self) rfl [] _
      _ = l :: (ls ++ unitLines (.reading []) rest) := by rw [unitLines_ended hnext, hrest]

theorem unlines_middle (ls : List Chars) (l : Chars) (ms : List Chars) :
    unlines (ls ++ l :: ms) = unlines ls ++ (l ++ '\n' :: unlines ms) := by
  rw [unlines, List.flatMap_append, List.flatMap_cons, List.append_assoc, List.singleton_append]
  rfl

theorem readLines_append (r : Reader) (ls ms : List Chars) :
    readLines r (ls ++ ms) = (readLines r ls).bind fun read =>
      (readLines read.1 ms).map fun rest => (rest.1, read.2 ++ rest.2) := by
  induction ls generalizing r with
  | nil => simp [readLines]
  | cons l ls ih =>
    rw [List.cons_append, readLines, readLines]
    cases readLine r l with
    | none => rfl
    | some read =>
      simp only [Option.bind_eq_bind, Option.bind_some, ih, Option.bind_assoc, Option.pure_def]
      cases readLines read.1 ls with
      | none => rfl
      | some rest =>
        simp only [Option.bind_some]
        cases readLines rest.1 ms with
        | none => rfl
        | some last => simp

/-! ## A setting's line -/

theorem rdropWhile_append_cons {p : Char → Bool} {d : Char} (hd : p d = false) (a x : Chars) :
    (a ++ d :: x).rdropWhile p = a ++ d :: x.rdropWhile p := by
  induction x using List.reverseRecOn with
  | nil =>
    rw [List.rdropWhile_concat_neg _ _ _ (by rw [hd]; exact Bool.false_ne_true)]
    rfl
  | append_singleton x e ih =>
    rw [← List.cons_append, ← List.append_assoc]
    cases he : p e with
    | true => rw [List.rdropWhile_concat_pos _ _ _ he, List.rdropWhile_concat_pos _ _ _ he, ih]
    | false =>
      rw [List.rdropWhile_concat_neg _ _ _ (by rw [he]; exact Bool.false_ne_true),
        List.rdropWhile_concat_neg _ _ _ (by rw [he]; exact Bool.false_ne_true), List.append_assoc, List.cons_append]

theorem endsEscaped_append (escaped : Bool) (a b : Chars) : endsEscaped escaped (a ++ b) = endsEscaped (endsEscaped escaped a) b := by
  induction a generalizing escaped with
  | nil => rfl
  | cons c a ih => cases escaped <;> exact ih _

theorem endsEscaped_of_not_mem (h : '\\' ∉ l) : endsEscaped false l = false := by
  induction l with
  | nil => rfl
  | cons c l ih =>
    have hc : (c == '\\') = false := beq_eq_false_iff_ne.mpr fun he => h (he ▸ List.mem_cons_self)
    rw [endsEscaped, hc]
    exact ih fun hm => h (List.mem_cons_of_mem _ hm)

/-- A key is a word of letters. -/
structure IsKey (key : Chars) : Prop where
  nonempty : key ≠ []
  letters : ∀ c ∈ key, c.isAlpha = true

section

variable {key x : Chars} {d : Char}

theorem not_isBlank_of_isAlpha (h : c.isAlpha = true) : isBlank c = false := by
  have hno : ∀ blank, blank.isAlpha = false → (c == blank) = false := fun blank hblank =>
    beq_eq_false_iff_ne.mpr fun he => by rw [he, hblank] at h; cases h
  rw [isBlank, hno ' ' (by decide), hno '\t' (by decide), hno '\n' (by decide), hno '\r' (by decide)]
  rfl

/-- Stripped text that begins with a visible character. -/
theorem strip_cons (hd : isBlank d = false) (x : Chars) : strip (d :: x) = d :: x.rdropWhile isBlank := by
  unfold strip
  rw [List.dropWhile_cons_of_neg (by rw [hd]; exact Bool.false_ne_true)]
  exact rdropWhile_append_cons hd [] x

theorem strip_key (h : IsKey key) : strip key = key := by
  have hvisible : ∀ c ∈ key, isBlank c = false := fun c hc => not_isBlank_of_isAlpha (h.letters c hc)
  have hstart : key.dropWhile isBlank = key :=
    List.dropWhile_eq_self_iff.mpr fun hl => by rw [hvisible _ (List.getElem_mem hl)]; exact Bool.false_ne_true
  rw [strip, hstart, List.rdropWhile_eq_self_iff]
  intro hne
  rw [hvisible _ (List.getLast_mem hne)]
  exact Bool.false_ne_true

theorem parseLine_setting (h : IsKey key) (hd : isBlank d = false) (x : Chars) :
    parseLine (key ++ '=' :: d :: x) = .setting key (d :: x.rdropWhile isBlank) := by
  obtain ⟨k, key, rfl⟩ := List.exists_cons_of_ne_nil h.nonempty
  have hk : k.isAlpha = true := h.letters k List.mem_cons_self
  have hstrip : strip (k :: key ++ '=' :: d :: x) = k :: key ++ '=' :: d :: x.rdropWhile isBlank := by
    rw [List.cons_append, strip_cons (not_isBlank_of_isAlpha hk)]
    have hvalue := rdropWhile_append_cons hd (key ++ ['=']) x
    rw [List.append_assoc, List.append_assoc, List.singleton_append, List.singleton_append] at hvalue
    rw [hvalue]
    rfl
  have hcut : splitOnce '=' (k :: key ++ '=' :: d :: x.rdropWhile isBlank) = some (k :: key, d :: x.rdropWhile isBlank) :=
    splitOnce_append (fun hm => absurd (h.letters '=' hm) (by decide)) _
  have hbracket : k ≠ '[' := by
    rintro rfl
    exact absurd hk (by decide)
  unfold parseLine
  rw [hstrip]
  split
  · next he => cases he
  · next he => exact absurd (List.cons.inj he).1 hbracket
  · rw [hcut]
    dsimp only
    rw [strip_key h, strip_cons hd, List.rdropWhile_idempotent]

theorem readLine_setting (h : IsKey key) (hd : isBlank d = false) (heading : Chars) (hopen : endsEscaped false (d :: x) = false) :
    readLine ⟨[], some heading⟩ (key ++ '=' :: d :: x) =
      some (⟨[], some heading⟩, [⟨heading, key, d :: x.rdropWhile isBlank⟩]) := by
  have hparse := parseLine_setting h hd x
  obtain ⟨k, key, rfl⟩ := List.exists_cons_of_ne_nil h.nonempty
  have hk : k.isAlpha = true := h.letters k List.mem_cons_self
  have hstart : (k :: key ++ '=' :: d :: x).dropWhile isBlank = k :: key ++ '=' :: d :: x :=
    List.dropWhile_cons_of_neg (by rw [not_isBlank_of_isAlpha hk]; exact Bool.false_ne_true)
  have hcomment : ¬ ((k :: key ++ '=' :: d :: x).head? = some '#' ∨ (k :: key ++ '=' :: d :: x).head? = some ';') := by
    rintro (he | he)
    · exact absurd hk (by rw [Option.some.inj he]; decide)
    · exact absurd hk (by rw [Option.some.inj he]; decide)
  have hwhole : endsEscaped false (k :: key ++ '=' :: d :: x) = false := by
    have hplain : '\\' ∉ k :: key := fun hm => absurd (h.letters _ hm) (by decide)
    rw [endsEscaped_append, endsEscaped_of_not_mem hplain]
    exact hopen
  unfold readLine
  rw [hstart]
  dsimp only
  rw [if_neg hcomment, List.nil_append, hwhole, if_neg Bool.false_ne_true, Reader.take, hparse]
  rfl

end

/-! ## Words that no environment changes -/

/-- Whether anything is replaced in a word. -/
def replaces : EnvState → Chars → Bool
  | _, [] => false
  | .text, c :: cs => if c = '$' then replaces .dollar cs else replaces .text cs
  | .dollar, c :: cs => if c = '{' then replaces (.name []) cs else if c = '$' then true else replaces .text cs
  | .name begun, c :: cs => if c = '}' then true else if c = ':' then replaces .text cs else replaces (.name begun) cs

/-- What the state has read and not yet written. -/
def EnvState.pending : EnvState → Chars
  | .text => []
  | .dollar => ['$']
  | .name begun => '$' :: '{' :: begun

theorem replaces_name (begun begun' cs : Chars) : replaces (.name begun) cs = replaces (.name begun') cs := by
  induction cs generalizing begun begun' with
  | nil => rfl
  | cons c cs ih => rw [replaces, replaces, ih begun begun']

/-- What is not replaced is read as it stands. -/
theorem replaceEnv_of_not_replaces (env : Environment) {state : EnvState} {cs : Chars} (h : replaces state cs = false) :
    replaceEnv env state cs = state.pending ++ cs := by
  induction cs generalizing state with
  | nil => cases state <;> simp [replaceEnv, EnvState.pending]
  | cons c cs ih =>
    cases state with
    | text =>
      rw [replaces] at h
      rw [replaceEnv]
      split
      · next hc => rw [if_pos hc] at h; rw [ih h, hc]; rfl
      · next hc => rw [if_neg hc] at h; rw [ih h]; rfl
    | dollar =>
      rw [replaces] at h
      rw [replaceEnv]
      split
      · next hc => rw [if_pos hc] at h; rw [ih h, hc]; rfl
      · next hc =>
        rw [if_neg hc] at h
        split
        · next hd => rw [if_pos hd] at h; cases h
        · next hd => rw [if_neg hd] at h; rw [ih h]; rfl
    | name begun =>
      rw [replaces] at h
      rw [replaceEnv]
      split
      · next hc => rw [if_pos hc] at h; cases h
      · next hc =>
        rw [if_neg hc] at h
        split
        · next hd => rw [if_pos hd] at h; rw [ih h, hd]; rfl
        · next hd =>
          rw [if_neg hd] at h
          rw [ih (replaces_name begun _ cs ▸ h)]
          simp [EnvState.pending]

/-- With no variable set a text never gets longer, and shorter where something is replaced. -/
theorem length_replaceEnv_unset (state : EnvState) (cs : Chars) :
    (replaceEnv .unset state cs).length + (if replaces state cs then 1 else 0) ≤ state.pending.length + cs.length := by
  induction cs generalizing state with
  | nil => cases state <;> simp [replaceEnv, replaces, EnvState.pending]
  | cons c cs ih =>
    cases state with
    | text =>
      rw [replaceEnv, replaces]
      split
      · have := ih .dollar
        simp only [EnvState.pending, List.length_cons, List.length_nil] at this ⊢
        omega
      · have := ih .text
        simp only [EnvState.pending, List.length_cons, List.length_nil] at this ⊢
        omega
    | dollar =>
      have htext := ih .text
      have hname := ih (.name [])
      rw [replaceEnv, replaces]
      simp only [EnvState.pending, List.length_cons, List.length_nil] at htext hname ⊢
      split
      · omega
      · split
        · simp only [List.length_cons, if_true]
          split at htext <;> omega
        · simp only [List.length_cons]
          omega
    | name begun =>
      have htext := ih .text
      have hname := ih (.name (begun ++ [c]))
      rw [replaces_name _ begun] at hname
      rw [replaceEnv, replaces]
      simp only [EnvState.pending, List.length_cons, List.length_nil, List.length_append] at htext hname ⊢
      split
      · simp only [Environment.unset, List.nil_append, if_true]
        simp only [Environment.unset] at htext
        split at htext <;> omega
      · split
        · simp only [List.length_cons, List.length_append]
          omega
        · omega

/-- A word that is read as it stands in every environment. -/
structure Unexpanded (word : Chars) : Prop where
  no_variable : isVariable word = false
  no_braces : replaces .text word = false

theorem expandWord_of_unexpanded {word : Chars} (h : Unexpanded word) (env : Environment) : expandWord env word = [word] := by
  rw [expandWord, if_neg (by rw [h.no_variable]; exact Bool.false_ne_true), replaceEnv_of_not_replaces env h.no_braces]
  rfl

theorem unexpanded_of_unset {word : Chars} (h : expandWord .unset word = [word]) : Unexpanded word := by
  unfold expandWord at h
  split at h
  · cases h
  · next hvariable =>
    refine ⟨eq_false_of_ne_true hvariable, ?_⟩
    have hlength := length_replaceEnv_unset .text word
    rw [(List.cons.inj h).1] at hlength
    by_contra hreplaced
    rw [eq_true_of_ne_false hreplaced, if_pos rfl, EnvState.pending, List.length_nil] at hlength
    omega

theorem length_expandWord_unset (word : Chars) : (expandWord .unset word).length ≤ 1 := by
  unfold expandWord
  split
  · exact Nat.zero_le 1
  · exact le_refl 1

/-- Words that come back as they stand with no variable set are unexpanded, each of them. -/
theorem unexpanded_of_flatMap {words : List Chars} (h : words.flatMap (expandWord .unset) = words) :
    ∀ word ∈ words, Unexpanded word := by
  have hle : ∀ ws : List Chars, (ws.flatMap (expandWord .unset)).length ≤ ws.length := by
    intro ws
    induction ws with
    | nil => exact le_refl 0
    | cons w ws ih =>
      rw [List.flatMap_cons, List.length_append, List.length_cons]
      have := length_expandWord_unset w
      omega
  induction words with
  | nil => exact fun _ hw => absurd hw List.not_mem_nil
  | cons w ws ih =>
    rw [List.flatMap_cons] at h
    cases hw : expandWord .unset w with
    | nil =>
      rw [hw, List.nil_append] at h
      have hlength := hle ws
      rw [h, List.length_cons] at hlength
      omega
    | cons first more =>
      have hmore : more = [] := by
        have hlength := length_expandWord_unset w
        rw [hw] at hlength
        exact List.length_eq_zero_iff.mp (by simpa using hlength)
      rw [hw, hmore] at h
      obtain ⟨hfirst, hrest⟩ := List.cons.inj h
      intro word hword
      cases List.mem_cons.mp hword with
      | inl he => exact he ▸ unexpanded_of_unset (by rw [hw, hmore, hfirst])
      | inr hm => exact ih hrest word hm

end LinuxHardener.SystemdUnit
