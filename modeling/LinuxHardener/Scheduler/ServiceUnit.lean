import LinuxHardener.Lib.SystemdUnit

/-
  The service unit of a scheduled scan (`hardener-scheduler`, `systemd.rs`).

  Correspondence (Rust ↔ Lean):
    `exec_word`        ↔ `execWord`
    `SystemdGenerator` ↔ the same, with `new`, `withConfig`, `withUserMode`
    `generate_service` ↔ `generateService`, written line by line

  What is proved:
    1. `readCommand_execStart` — quotes, backslashes and specifiers are undone.
    2. `carriesPaths_iff` — the paths that arrive as they are: they have no line end and no
       `$` form, and the binary's is one that systemd takes as it stands.
-/
namespace LinuxHardener.Scheduler

open LineText (Chars replaceChar replaceChar_cons replaceChar_append mem_replaceChar)
open SystemdUnit

/-- Renders one path as a single `ExecStart` word. -/
def execWord (path : Chars) : Chars :=
  let escaped := replaceChar '%' ['%', '%'] (replaceChar '"' ['\\', '"'] (replaceChar '\\' ['\\', '\\'] path))
  '"' :: escaped ++ ['"']

structure SystemdGenerator where
  binaryPath : Chars
  configPath : Option Chars
  calendar : Chars
  description : Chars
  userMode : Bool

namespace SystemdGenerator

def new (binaryPath calendar : Chars) : SystemdGenerator :=
  ⟨binaryPath, none, calendar, "Linux Hardener scheduled security scan".toList, false⟩

def withConfig (g : SystemdGenerator) (configPath : Chars) : SystemdGenerator := { g with configPath := some configPath }

def withUserMode (g : SystemdGenerator) (user : Bool) : SystemdGenerator := { g with userMode := user }

def execStart (g : SystemdGenerator) : Chars :=
  let binary := execWord g.binaryPath
  match g.configPath with
  | some cfg => binary ++ " --config ".toList ++ execWord cfg ++ " daemon run-once".toList
  | none => binary ++ " daemon run-once".toList

/-- User services cannot use privileged sandboxing directives. -/
def security (g : SystemdGenerator) : List Chars :=
  if g.userMode then ["NoNewPrivileges=true".toList]
  else ["# Security hardening".toList, "NoNewPrivileges=true".toList, "ProtectSystem=strict".toList,
    "ProtectHome=read-only".toList, "PrivateTemp=true".toList, "ReadWritePaths=/var/lib/linux-hardener".toList]

def wantedBy (g : SystemdGenerator) : Chars := if g.userMode then "default.target".toList else "multi-user.target".toList

/-- Generates the `.service` unit file content. -/
def generateService (g : SystemdGenerator) : Chars :=
  unlines <|
    ["[Unit]".toList, "Description=".toList ++ g.description,
      "Documentation=https://github.com/tidynest/linux-hardener".toList, "After=network.target".toList, [],
      "[Service]".toList, "Type=oneshot".toList] ++
    ("ExecStart=".toList ++ g.execStart) ::
    (["StandardOutput=journal".toList, "StandardError=journal".toList] ++ g.security ++
      [[], "[Install]".toList, "WantedBy=".toList ++ g.wantedBy])

end SystemdGenerator

/-- The generator as the command line sets it up. -/
def generatorFor (binary : Chars) (config : Option Chars) (calendar : Chars) (user : Bool) : SystemdGenerator :=
  let g := (SystemdGenerator.new binary calendar).withUserMode user
  match config with
  | some cfg => g.withConfig cfg
  | none => g

/-! ## What the unit should say -/

/-- The settings above the command. -/
def settingsAbove : List Setting :=
  [⟨"Unit".toList, "Description".toList, "Linux Hardener scheduled security scan".toList⟩,
    ⟨"Unit".toList, "Documentation".toList, "https://github.com/tidynest/linux-hardener".toList⟩,
    ⟨"Unit".toList, "After".toList, "network.target".toList⟩, ⟨"Service".toList, "Type".toList, "oneshot".toList⟩]

/-- The settings below the command. -/
def settingsBelow (user : Bool) : List Setting :=
  [⟨"Service".toList, "StandardOutput".toList, "journal".toList⟩,
    ⟨"Service".toList, "StandardError".toList, "journal".toList⟩,
    ⟨"Service".toList, "NoNewPrivileges".toList, "true".toList⟩] ++
  (if user then [⟨"Install".toList, "WantedBy".toList, "default.target".toList⟩]
  else [⟨"Service".toList, "ProtectSystem".toList, "strict".toList⟩,
    ⟨"Service".toList, "ProtectHome".toList, "read-only".toList⟩, ⟨"Service".toList, "PrivateTemp".toList, "true".toList⟩,
    ⟨"Service".toList, "ReadWritePaths".toList, "/var/lib/linux-hardener".toList⟩,
    ⟨"Install".toList, "WantedBy".toList, "multi-user.target".toList⟩])

/-- The binary, `--config` and the configuration where there is one, `daemon run-once`. -/
def argumentVector (binary : Chars) (config : Option Chars) : List Chars :=
  binary :: (config.toList.flatMap fun cfg => ["--config".toList, cfg]) ++ ["daemon".toList, "run-once".toList]

/-- The command is read as its arguments in every environment, and the other settings as they are written. -/
def CarriesPaths (m : Manager) (binary : Chars) (config : Option Chars) (calendar : Chars) (user : Bool) : Prop :=
  ∃ value,
    readUnit (generatorFor binary config calendar user).generateService =
      some (settingsAbove ++ ⟨"Service".toList, "ExecStart".toList, value⟩ :: settingsBelow user) ∧
    ∀ env, readCommand m env value = some ⟨[], argumentVector binary config⟩

/-- Paths that a command line carries. -/
structure Representable (m : Manager) (binary : Chars) (config : Option Chars) : Prop where
  executable : m.executable binary = true
  no_special : binary.head?.all fun c => !isSpecial c
  no_separator : binary ≠ [';']
  one_line : ∀ path ∈ binary :: config.toList, OneLine path
  unexpanded : ∀ path ∈ binary :: config.toList, Unexpanded path

/-! ## One word -/

variable {m : Manager} {binary s t u w rest : Chars} {config : Option Chars} {calendar : Chars} {user : Bool}

/-- What is inside the quotes, before the specifiers are doubled. -/
def quoteEscape (s : Chars) : Chars := replaceChar '"' ['\\', '"'] (replaceChar '\\' ['\\', '\\'] s)

def doublePercent (s : Chars) : Chars := replaceChar '%' ['%', '%'] s

theorem execWord_eq (path : Chars) : execWord path = '"' :: doublePercent (quoteEscape path) ++ ['"'] := rfl

theorem quoteEscape_cons (c : Char) (s : Chars) :
    quoteEscape (c :: s) =
      (if c = '\\' then ['\\', '\\'] else if c = '"' then ['\\', '"'] else [c]) ++ quoteEscape s := by
  rw [quoteEscape, replaceChar_cons, replaceChar_append, ← quoteEscape]
  congr 1
  split
  · rfl
  · rw [replaceChar_cons]
    exact List.append_nil _

theorem expandSpecifiers_cons {specifier : Char → Option Chars} {c : Char} (h : c ≠ '%') (s : Chars) :
    expandSpecifiers specifier (c :: s) = c :: expandSpecifiers specifier s := by
  rw [expandSpecifiers]
  all_goals simp [h]

theorem expandSpecifiers_double (specifier : Char → Option Chars) (s rest : Chars) :
    expandSpecifiers specifier (doublePercent s ++ rest) = s ++ expandSpecifiers specifier rest := by
  induction s with
  | nil => rfl
  | cons c s ih =>
    rw [doublePercent, replaceChar_cons, ← doublePercent, List.append_assoc]
    split
    · next hc =>
      rw [hc, List.cons_append, List.cons_append, List.nil_append, expandSpecifiers, ih]
      rfl
    · next hc =>
      rw [List.singleton_append, expandSpecifiers_cons hc, ih]
      rfl

theorem expandSpecifiers_plain (specifier : Char → Option Chars) (h : '%' ∉ s) (rest : Chars) :
    expandSpecifiers specifier (s ++ rest) = s ++ expandSpecifiers specifier rest := by
  induction s with
  | nil => rfl
  | cons c s ih =>
    rw [List.cons_append, expandSpecifiers_cons fun hc => h (hc ▸ List.mem_cons_self),
      ih fun hm => h (List.mem_cons_of_mem _ hm), List.cons_append]

/-- A doubled text cut anywhere expands to the text cut somewhere. -/
theorem expandSpecifiers_of_prefix_text (specifier : Char → Option Chars) (h : u <+: doublePercent s) :
    expandSpecifiers specifier u <+: s := by
  induction s generalizing u with
  | nil =>
    rw [List.prefix_nil.mp h]
    exact List.nil_prefix
  | cons c s ih =>
    rw [doublePercent, replaceChar_cons, ← doublePercent] at h
    split at h
    · next hc =>
      match u, h with
      | [], _ => exact List.nil_prefix
      | [d], h =>
        have hd : d = '%' := (List.cons_prefix_cons.mp h).1
        rw [hd, hc]
        exact (List.cons_prefix_cons).mpr ⟨rfl, List.nil_prefix⟩
      | d :: e :: u, h =>
        obtain ⟨hd, h⟩ := List.cons_prefix_cons.mp h
        obtain ⟨he, h⟩ := List.cons_prefix_cons.mp h
        rw [hd, he, expandSpecifiers, hc]
        exact List.cons_prefix_cons.mpr ⟨rfl, ih h⟩
    · next hc =>
      cases u with
      | nil => exact List.nil_prefix
      | cons d u =>
        obtain ⟨hd, h⟩ := List.cons_prefix_cons.mp h
        rw [hd, expandSpecifiers_cons hc]
        exact List.cons_prefix_cons.mpr ⟨rfl, ih h⟩

/-- In quotes, what was escaped is read back up to the closing quote. -/
theorem wordsFrom_quoteEscape (w s rest : Chars) :
    wordsFrom (.quoted '"' w) (quoteEscape s ++ '"' :: rest) = wordsFrom (.plain (w ++ s)) rest := by
  induction s generalizing w with
  | nil => rw [List.append_nil]; rfl
  | cons c s ih =>
    rw [quoteEscape_cons, List.append_assoc]
    have hstep : wordsFrom (.quoted '"' w) ((if c = '\\' then ['\\', '\\'] else if c = '"' then ['\\', '"'] else [c]) ++
        (quoteEscape s ++ '"' :: rest)) = wordsFrom (.quoted '"' (w ++ [c])) (quoteEscape s ++ '"' :: rest) := by
      split
      · next hc => rw [hc]; rfl
      · next hc =>
        split
        · next hq => rw [hq]; rfl
        · next hq => rw [List.singleton_append, wordsFrom, if_neg hq, if_neg hc]
    rw [hstep, ih, List.append_assoc]
    rfl

/-- A quote that is never closed is no word. -/
theorem wordsFrom_open (w : Chars) (h : u <+: quoteEscape s) : wordsFrom (.quoted '"' w) u = none := by
  induction s generalizing u w with
  | nil =>
    rw [List.prefix_nil.mp h]
    rfl
  | cons c s ih =>
    rw [quoteEscape_cons] at h
    have hpair : ∀ d, unescape d = some d → u <+: ['\\', d] ++ quoteEscape s → wordsFrom (.quoted '"' w) u = none := by
      intro d hunescape h
      match u, h with
      | [], _ => rfl
      | [e], h =>
        rw [(List.cons_prefix_cons.mp h).1]
        rfl
      | e :: f :: u, h =>
        obtain ⟨he, h⟩ := List.cons_prefix_cons.mp h
        obtain ⟨hf, h⟩ := List.cons_prefix_cons.mp h
        rw [he, hf, wordsFrom, if_neg (by decide), if_pos rfl, wordsFrom, hunescape]
        exact ih (w ++ [d]) h
    split at h
    · exact hpair '\\' (by decide) h
    · next hc =>
      split at h
      · exact hpair '"' (by decide) h
      · next hq =>
        cases u with
        | nil => rfl
        | cons d u =>
          obtain ⟨hd, h⟩ := List.cons_prefix_cons.mp h
          rw [hd, wordsFrom, if_neg hq, if_neg hc]
          exact ih (w ++ [c]) h

theorem endsEscaped_escaped (s : Chars) : endsEscaped false (doublePercent (quoteEscape s)) = false := by
  induction s with
  | nil => rfl
  | cons c s ih =>
    rw [quoteEscape_cons, doublePercent, replaceChar_append, ← doublePercent, ← doublePercent, endsEscaped_append]
    have hunit : endsEscaped false (doublePercent (if c = '\\' then ['\\', '\\'] else if c = '"' then ['\\', '"'] else [c])) = false := by
      split
      · decide
      · next hc =>
        split
        · decide
        · by_cases hp : c = '%'
          · rw [hp]
            decide
          · rw [doublePercent, replaceChar_cons, if_neg hp]
            exact beq_eq_false_iff_ne.mpr hc
    rw [hunit]
    exact ih

theorem oneLine_escaped (h : OneLine s) : OneLine (doublePercent (quoteEscape s)) := by
  intro c hc
  have hwritten : OneLine ['%', '\\', '"'] := by decide
  rcases (mem_replaceChar hc).imp_right fun hc => (mem_replaceChar hc).imp_right mem_replaceChar with hp | hq | hb | hs
  · exact hwritten c (by simp at hp; simp [hp])
  · exact hwritten c (by simp at hq; rcases hq with rfl | rfl <;> simp)
  · exact hwritten c (by simp at hb; simp [hb])
  · exact h c hs

/-! ## The command line -/

/-- What stands behind the binary's opening quote. -/
def execTail (binary : Chars) (config : Option Chars) : Chars :=
  doublePercent (quoteEscape binary) ++ '"' ::
    ((config.toList.flatMap fun cfg => " --config ".toList ++ execWord cfg) ++ " daemon run-once".toList)

theorem execStart_eq (binary : Chars) (config : Option Chars) (calendar : Chars) (user : Bool) :
    (generatorFor binary config calendar user).execStart = '"' :: execTail binary config := by
  cases config with
  | none => simp [generatorFor, SystemdGenerator.new, SystemdGenerator.withUserMode, SystemdGenerator.execStart, execTail, execWord_eq]
  | some cfg =>
    simp [generatorFor, SystemdGenerator.new, SystemdGenerator.withUserMode, SystemdGenerator.withConfig,
      SystemdGenerator.execStart, execTail, execWord_eq]

/-- A word in quotes, read to its end. -/
theorem wordsFrom_execWord (specifier : Char → Option Chars) (path rest : Chars) :
    wordsFrom .between (expandSpecifiers specifier ('"' :: (doublePercent (quoteEscape path) ++ '"' :: rest))) =
      wordsFrom (.plain path) (expandSpecifiers specifier rest) := by
  rw [expandSpecifiers_cons (by decide), expandSpecifiers_double, expandSpecifiers_cons (by decide)]
  exact wordsFrom_quoteEscape [] path _

theorem wordsFrom_option (specifier : Char → Option Chars) (word rest : Chars) :
    wordsFrom (.plain word) (expandSpecifiers specifier (" --config ".toList ++ rest)) =
      (wordsFrom .between (expandSpecifiers specifier rest)).map fun words => word :: "--config".toList :: words := by
  rw [expandSpecifiers_plain specifier (by decide)]
  have hread : wordsFrom (.plain word) (" --config ".toList ++ expandSpecifiers specifier rest) =
      ((wordsFrom .between (expandSpecifiers specifier rest)).map ("--config".toList :: ·)).map (word :: ·) := rfl
  rw [hread, Option.map_map]
  rfl

theorem wordsFrom_command (specifier : Char → Option Chars) (word : Chars) :
    wordsFrom (.plain word) (expandSpecifiers specifier " daemon run-once".toList) =
      some [word, "daemon".toList, "run-once".toList] := by
  have hplain := expandSpecifiers_plain specifier (s := " daemon run-once".toList) (by decide) []
  rw [List.append_nil] at hplain
  rw [hplain]
  rfl

theorem wordsFrom_execTail (specifier : Char → Option Chars) (binary : Chars) (config : Option Chars) :
    wordsFrom .between (expandSpecifiers specifier ('"' :: execTail binary config)) = some (argumentVector binary config) := by
  rw [execTail, wordsFrom_execWord]
  cases config with
  | none => exact wordsFrom_command specifier binary
  | some cfg =>
    have hshape : ((some cfg).toList.flatMap fun cfg => " --config ".toList ++ execWord cfg) ++ " daemon run-once".toList =
        " --config ".toList ++ ('"' :: (doublePercent (quoteEscape cfg) ++ '"' :: " daemon run-once".toList)) := by
      simp [execWord_eq]
    rw [hshape, wordsFrom_option, wordsFrom_execWord, wordsFrom_command]
    rfl

/-- The command as it is read, before anything is said about its paths. -/
theorem readCommand_execTail (m : Manager) (env : Environment) (binary : Chars) (config : Option Chars) :
    readCommand m env ('"' :: execTail binary config) =
      if binary = [';'] ∨ m.executable (binary.dropWhile isSpecial) = false then none
      else some ⟨binary.takeWhile isSpecial,
        (binary.dropWhile isSpecial :: (argumentVector binary config).tail).flatMap (expandWord env)⟩ := by
  unfold readCommand
  rw [wordsFrom_execTail]
  rfl

/-! ## The file -/

def linesAbove : List Chars :=
  ["[Unit]".toList, "Description=Linux Hardener scheduled security scan".toList,
    "Documentation=https://github.com/tidynest/linux-hardener".toList, "After=network.target".toList, [],
    "[Service]".toList, "Type=oneshot".toList]

def linesBelow (user : Bool) : List Chars :=
  ["StandardOutput=journal".toList, "StandardError=journal".toList] ++
    (generatorFor [] none [] user).security ++ [[], "[Install]".toList, "WantedBy=".toList ++ (generatorFor [] none [] user).wantedBy]

def execLine (binary : Chars) (config : Option Chars) : Chars := "ExecStart".toList ++ '=' :: '"' :: execTail binary config

theorem generateService_eq (binary : Chars) (config : Option Chars) (calendar : Chars) (user : Bool) :
    (generatorFor binary config calendar user).generateService =
      unlines (linesAbove ++ execLine binary config :: linesBelow user) := by
  rw [SystemdGenerator.generateService, execStart_eq]
  cases config <;> rfl

theorem readLines_above : readLines ⟨[], none⟩ linesAbove = some (⟨[], some "Service".toList⟩, settingsAbove) := by decide +kernel

theorem readLines_below (user : Bool) :
    readLines ⟨[], some "Service".toList⟩ (linesBelow user) = some (⟨[], some "Install".toList⟩, settingsBelow user) := by
  cases user <;> decide +kernel

theorem oneLine_above : ∀ l ∈ linesAbove, OneLine l := by decide

theorem oneLine_below : ∀ l ∈ linesBelow user, OneLine l := by cases user <;> decide

theorem isKey_execStart : IsKey "ExecStart".toList := ⟨by decide, List.all_eq_true.mp (by decide)⟩

/-- The setting read off the command's line, or off its first part. -/
theorem readLine_exec {x : Chars} (hopen : endsEscaped false ('"' :: x) = false) :
    readLine ⟨[], some "Service".toList⟩ ("ExecStart".toList ++ '=' :: '"' :: x) =
      some (⟨[], some "Service".toList⟩, [⟨"Service".toList, "ExecStart".toList, '"' :: x.rdropWhile isBlank⟩]) :=
  readLine_setting isKey_execStart (by decide) _ hopen

theorem endsEscaped_execTail (binary : Chars) (config : Option Chars) : endsEscaped false ('"' :: execTail binary config) = false := by
  have hlast : ∀ a, endsEscaped false (a ++ " daemon run-once".toList) = false := by
    intro a
    rw [endsEscaped_append]
    cases endsEscaped false a <;> decide
  rw [execTail, ← List.cons_append, ← List.cons_append, ← List.append_assoc]
  exact hlast _

theorem execTail_stripped (binary : Chars) (config : Option Chars) :
    (execTail binary config).rdropWhile isBlank = execTail binary config := by
  have hend : " daemon run-once".toList = " daemon run-onc".toList ++ ['e'] := by decide
  rw [execTail, hend, ← List.append_assoc, ← List.cons_append, ← List.append_assoc]
  exact rdropWhile_append_cons (by decide) _ []

theorem oneLine_execLine (h : ∀ path ∈ binary :: config.toList, OneLine path) : OneLine (execLine binary config) := by
  have hconfig : OneLine (config.toList.flatMap fun cfg => " --config ".toList ++ execWord cfg) := by
    cases config with
    | none => decide
    | some cfg =>
      have hcfg := oneLine_escaped (h cfg (List.mem_cons_of_mem _ (List.mem_singleton_self cfg)))
      rw [Option.toList_some, List.flatMap_singleton, execWord_eq]
      exact OneLine.append (by decide) (.append (.cons (by decide) hcfg) (by decide))
  have hbinary := oneLine_escaped (h binary List.mem_cons_self)
  exact OneLine.append (by decide)
    (.cons (by decide) (.cons (by decide) (hbinary.append (.cons (by decide) (hconfig.append (by decide))))))

/-- With no line end in a path, the command is one line of the file. -/
theorem readUnit_of_oneLine (h : ∀ path ∈ binary :: config.toList, OneLine path) (calendar : Chars) (user : Bool) :
    readUnit (generatorFor binary config calendar user).generateService =
      some (settingsAbove ++ ⟨"Service".toList, "ExecStart".toList, '"' :: execTail binary config⟩ :: settingsBelow user) := by
  have hlines : ∀ l ∈ linesAbove ++ execLine binary config :: linesBelow user, OneLine l := by
    intro l hl
    rcases List.mem_append.mp hl with hl | hl
    · exact oneLine_above l hl
    · cases List.mem_cons.mp hl with
      | inl he => exact he ▸ oneLine_execLine h
      | inr hl => exact oneLine_below l hl
  have hread := unitLines_unlines [] hlines (fun d hd => by cases hd)
  rw [List.append_nil] at hread
  have hexec : readLine ⟨[], some "Service".toList⟩ (execLine binary config) = _ := readLine_exec (endsEscaped_execTail binary config)
  rw [execTail_stripped] at hexec
  rw [generateService_eq, readUnit, hread, show unitLines (.reading []) [] = [] from rfl, List.append_nil, readLines_append,
    readLines_above, Option.bind_some, readLines, hexec]
  simp only [Option.bind_eq_bind, Option.bind_some, readLines_below, Option.pure_def, Option.map_some]
  simp [Reader.take, parseLine, strip]

/-! ## A line end in a path -/

/-- A command cut inside a path: its line reads as no command. -/
structure CutAt (m : Manager) (x : Chars) : Prop where
  one_line : OneLine x
  whole : endsEscaped false ('"' :: x) = false
  no_command : ∀ env, readCommand m env ('"' :: x.rdropWhile isBlank) = none

theorem exists_lineEnd (h : ¬ OneLine s) : ∃ before c after, s = before ++ c :: after ∧ OneLine before ∧ endsLine c = true := by
  induction s with
  | nil => exact absurd (fun _ hc => absurd hc List.not_mem_nil) h
  | cons c s ih =>
    cases hc : endsLine c with
    | true => exact ⟨[], c, s, rfl, fun _ hd => absurd hd List.not_mem_nil, hc⟩
    | false =>
      obtain ⟨before, d, after, he, hone, hd⟩ := ih fun hs => h (OneLine.cons hc hs)
      exact ⟨c :: before, d, after, by rw [he, List.cons_append], OneLine.cons hc hone, hd⟩

theorem escaped_cut {c : Char} (hc : endsLine c = true) (before after : Chars) :
    doublePercent (quoteEscape (before ++ c :: after)) =
      doublePercent (quoteEscape before) ++ c :: doublePercent (quoteEscape after) := by
  have hplain : c ≠ '\\' ∧ c ≠ '"' ∧ c ≠ '%' := by
    refine ⟨?_, ?_, ?_⟩ <;> rintro rfl <;> exact absurd hc (by decide)
  have hunit : quoteEscape (before ++ c :: after) = quoteEscape before ++ c :: quoteEscape after := by
    have happend : ∀ a b, quoteEscape (a ++ b) = quoteEscape a ++ quoteEscape b := by
      intro a b
      rw [quoteEscape, replaceChar_append, replaceChar_append]
      rfl
    rw [happend, quoteEscape_cons, if_neg hplain.1, if_neg hplain.2.1]
    rfl
  rw [hunit, doublePercent, replaceChar_append, replaceChar_cons, if_neg hplain.2.2]
  rfl

/-- Whatever is left of an open word after stripping is open. -/
theorem wordsFrom_cut (specifier : Char → Option Chars) (before : Chars) :
    wordsFrom .between (expandSpecifiers specifier ('"' :: (doublePercent (quoteEscape before)).rdropWhile isBlank)) = none := by
  rw [expandSpecifiers_cons (by decide)]
  exact wordsFrom_open [] (expandSpecifiers_of_prefix_text specifier (List.rdropWhile_prefix isBlank _))

theorem cutAt_binary (m : Manager) {before : Chars} (h : OneLine before) : CutAt m (doublePercent (quoteEscape before)) where
  one_line := oneLine_escaped h
  whole := endsEscaped_escaped before
  no_command env := by rw [readCommand, wordsFrom_cut]

theorem cutAt_config (m : Manager) {before : Chars} (hbinary : OneLine binary) (h : OneLine before) :
    CutAt m (doublePercent (quoteEscape binary) ++ '"' :: (" --config ".toList ++ '"' :: doublePercent (quoteEscape before))) := by
  refine ⟨?_, ?_, fun env => ?_⟩
  · exact (oneLine_escaped hbinary).append (.cons (by decide) (OneLine.append (by decide) (.cons (by decide) (oneLine_escaped h))))
  · have hopen : endsEscaped false ('"' :: doublePercent (quoteEscape binary)) = false := endsEscaped_escaped binary
    rw [← List.cons_append, endsEscaped_append, hopen]
    have hoption : endsEscaped false ('"' :: (" --config ".toList ++ ['"'])) = false := by decide
    have hsplit : '"' :: (" --config ".toList ++ '"' :: doublePercent (quoteEscape before)) =
        '"' :: (" --config ".toList ++ ['"']) ++ doublePercent (quoteEscape before) := by simp
    rw [hsplit, endsEscaped_append, hoption]
    exact endsEscaped_escaped before
  · have hstrip := rdropWhile_append_cons (p := isBlank) (d := '"') (by decide)
      (doublePercent (quoteEscape binary) ++ '"' :: " --config ".toList) (doublePercent (quoteEscape before))
    rw [List.append_assoc, List.cons_append, List.append_assoc, List.cons_append] at hstrip
    rw [hstrip, readCommand, wordsFrom_execWord, wordsFrom_option, wordsFrom_cut]
    rfl

/-- The first line end in a path cuts the command. -/
theorem exists_cut (m : Manager) (h : ¬ ∀ path ∈ binary :: config.toList, OneLine path) :
    ∃ x c y, execTail binary config = x ++ c :: y ∧ endsLine c = true ∧ CutAt m x := by
  by_cases hbinary : OneLine binary
  · obtain ⟨cfg, hcfg⟩ : ∃ cfg, config = some cfg := by
      cases config with
      | none => exact absurd (List.forall_mem_cons.mpr ⟨hbinary, fun _ hp => absurd hp List.not_mem_nil⟩) h
      | some cfg => exact ⟨cfg, rfl⟩
    rw [hcfg, Option.toList_some] at h
    obtain ⟨before, c, after, rfl, hone, hc⟩ := exists_lineEnd fun hline =>
      h (List.forall_mem_cons.mpr ⟨hbinary, List.forall_mem_cons.mpr ⟨hline, fun _ hp => absurd hp List.not_mem_nil⟩⟩)
    refine ⟨_, c, doublePercent (quoteEscape after) ++ '"' :: " daemon run-once".toList, ?_, hc, cutAt_config m hbinary hone⟩
    rw [hcfg, execTail, Option.toList_some, List.flatMap_singleton, execWord_eq, escaped_cut hc]
    simp
  · obtain ⟨before, c, after, rfl, hone, hc⟩ := exists_lineEnd hbinary
    have hshape := execTail.eq_1 (before ++ c :: after) config
    rw [escaped_cut hc, List.append_assoc, List.cons_append] at hshape
    exact ⟨_, c, _, hshape, hc, cutAt_binary m hone⟩

theorem head_of_execStart {d : Char} (h : ("ExecStart".toList ++ s ++ t).head? = some d) : 'E' = d := by
  have hkey : "ExecStart".toList = 'E' :: "xecStart".toList := by decide
  rw [hkey] at h
  exact Option.some.inj h

/-- The cut line is the unit's command, whatever follows. -/
theorem readUnit_of_cut {x y : Chars} {c : Char} (he : execTail binary config = x ++ c :: y) (hc : endsLine c = true)
    (hcut : CutAt m x) {settings : List Setting}
    (h : readUnit (generatorFor binary config calendar user).generateService = some settings) :
    settingsAbove ++ [⟨"Service".toList, "ExecStart".toList, '"' :: x.rdropWhile isBlank⟩] <+: settings := by
  have hline : OneLine ("ExecStart".toList ++ '=' :: '"' :: x) :=
    OneLine.append (by decide) (.cons (by decide) (.cons (by decide) hcut.one_line))
  have htext : unlines (linesAbove ++ execLine binary config :: linesBelow user) =
      unlines linesAbove ++ (("ExecStart".toList ++ '=' :: '"' :: x) ++ c :: (y ++ '\n' :: unlines (linesBelow user))) := by
    have hsplit : ∀ key below : Chars, key ++ '=' :: '"' :: (x ++ c :: y) ++ '\n' :: below =
        (key ++ '=' :: '"' :: x) ++ c :: (y ++ '\n' :: below) := by simp
    have hexec : execLine binary config = "ExecStart".toList ++ '=' :: '"' :: (x ++ c :: y) :=
      congrArg (fun tail => "ExecStart".toList ++ '=' :: '"' :: tail) he
    calc unlines (linesAbove ++ execLine binary config :: linesBelow user)
        = unlines linesAbove ++ (execLine binary config ++ '\n' :: unlines (linesBelow user)) :=
          unlines_middle linesAbove (execLine binary config) (linesBelow user)
      _ = _ := congrArg (unlines linesAbove ++ ·) (hexec ▸ hsplit "ExecStart".toList (unlines (linesBelow user)))
  have hlines := unitLines_unlines (("ExecStart".toList ++ '=' :: '"' :: x) ++ c :: (y ++ '\n' :: unlines (linesBelow user)))
    oneLine_above (fun d hd hend => absurd hend (by rw [← head_of_execStart hd]; decide))
  rw [unitLines_line hline hc, List.nil_append] at hlines
  rw [readUnit, generateService_eq, htext, hlines, readLines_append, readLines_above, Option.bind_some, readLines,
    readLine_exec hcut.whole] at h
  simp only [Option.bind_eq_bind, Option.bind_some, Option.pure_def] at h
  cases hrest : readLines ⟨[], some "Service".toList⟩ (unitLines (.ended [c]) (y ++ '\n' :: unlines (linesBelow user))) with
  | none =>
    rw [hrest] at h
    cases h
  | some rest =>
    rw [hrest] at h
    simp only [Option.bind_some, Option.map_some, Option.bind_eq_some_iff] at h
    obtain ⟨last, _, hsettings⟩ := h
    exact ⟨rest.2 ++ last.2, by rw [← Option.some.inj hsettings]; simp⟩

/-! ## The paths that arrive -/

theorem CarriesPaths.one_line (h : CarriesPaths m binary config calendar user) : ∀ path ∈ binary :: config.toList, OneLine path := by
  by_contra hno
  obtain ⟨x, c, y, he, hc, hcut⟩ := exists_cut m hno
  obtain ⟨value, hread, hcommand⟩ := h
  obtain ⟨rest, hrest⟩ := readUnit_of_cut he hc hcut hread
  rw [List.append_assoc] at hrest
  have hvalue := (List.cons.inj (List.append_cancel_left hrest)).1
  have hsome := hcommand .unset
  rw [← (Setting.mk.inj hvalue).2.2, hcut.no_command] at hsome
  cases hsome

/-- Where the command is one line of the file, the unit carries its paths as the command does. -/
theorem carriesPaths_iff_command (h : ∀ path ∈ binary :: config.toList, OneLine path) :
    CarriesPaths m binary config calendar user ↔
      ∀ env, readCommand m env ('"' :: execTail binary config) = some ⟨[], argumentVector binary config⟩ := by
  have hread := readUnit_of_oneLine h calendar user
  constructor
  · rintro ⟨value, hvalue, hcommand⟩
    have hsame := (List.cons.inj (List.append_cancel_left (Option.some.inj (hread.symm.trans hvalue)))).1
    rw [(Setting.mk.inj hsame).2.2]
    exact hcommand
  · exact fun hcommand => ⟨_, hread, hcommand⟩

theorem takeWhile_isSpecial_eq_nil : binary.takeWhile isSpecial = [] ↔ (binary.head?.all fun c => !isSpecial c) = true := by
  cases binary with
  | nil => simp
  | cons c binary => cases hc : isSpecial c <;> simp [hc]

theorem dropWhile_isSpecial (h : (binary.head?.all fun c => !isSpecial c) = true) : binary.dropWhile isSpecial = binary := by
  cases binary with
  | nil => rfl
  | cons c binary => exact List.dropWhile_cons_of_neg (by simpa using h)

theorem mem_argumentVector_of_path {path : Chars} (h : path ∈ binary :: config.toList) : path ∈ argumentVector binary config := by
  cases List.mem_cons.mp h with
  | inl he => exact he ▸ List.mem_cons_self
  | inr hconfig =>
    have hcfg : path ∈ config.toList.flatMap fun cfg => ["--config".toList, cfg] :=
      List.mem_flatMap.mpr ⟨path, hconfig, List.mem_cons_of_mem _ (List.mem_singleton_self path)⟩
    exact List.mem_append_left _ (List.mem_cons_of_mem _ hcfg)

/-- The words that are not paths are read as they stand. -/
theorem unexpanded_arguments (h : ∀ path ∈ binary :: config.toList, Unexpanded path) :
    ∀ word ∈ argumentVector binary config, Unexpanded word := by
  have hplain : ∀ word ∈ ["--config".toList, "daemon".toList, "run-once".toList], Unexpanded word := by
    have hread : ∀ word ∈ ["--config".toList, "daemon".toList, "run-once".toList],
        isVariable word = false ∧ replaces .text word = false := by decide
    exact fun word hword => ⟨(hread word hword).1, (hread word hword).2⟩
  intro word hword
  by_cases hpath : word ∈ binary :: config.toList
  · exact h word hpath
  · refine hplain word ?_
    cases config <;> simp_all [argumentVector]

theorem CarriesPaths.representable (h : CarriesPaths m binary config calendar user) : Representable m binary config := by
  have hcommand := (carriesPaths_iff_command h.one_line).mp h .unset
  rw [readCommand_execTail] at hcommand
  split at hcommand
  · cases hcommand
  · next hrefused =>
    obtain ⟨hspecial, harguments⟩ := Command.mk.inj (Option.some.inj hcommand)
    have hno := takeWhile_isSpecial_eq_nil.mp hspecial
    rw [dropWhile_isSpecial hno] at hrefused harguments
    obtain ⟨hseparator, hexecutable⟩ := not_or.mp hrefused
    exact ⟨eq_true_of_ne_false hexecutable, hno, hseparator, h.one_line, fun path hpath =>
      unexpanded_of_flatMap harguments path (mem_argumentVector_of_path hpath)⟩

theorem Representable.carriesPaths (h : Representable m binary config) (calendar : Chars) (user : Bool) :
    CarriesPaths m binary config calendar user := by
  refine (carriesPaths_iff_command h.one_line).mpr fun env => ?_
  have hunexpanded : (argumentVector binary config).flatMap (expandWord env) = argumentVector binary config := by
    have hwords := unexpanded_arguments h.unexpanded
    calc (argumentVector binary config).flatMap (expandWord env)
        = (argumentVector binary config).flatMap fun word => [word] :=
          List.flatMap_congr fun word hword => expandWord_of_unexpanded (hwords word hword) env
      _ = argumentVector binary config := List.flatMap_singleton' _
  rw [readCommand_execTail, dropWhile_isSpecial h.no_special, takeWhile_isSpecial_eq_nil.mpr h.no_special,
    if_neg (not_or.mpr ⟨h.no_separator, by rw [h.executable]; exact Bool.noConfusion⟩)]
  exact congrArg (fun arguments => some (Command.mk [] arguments)) hunexpanded

/-- The unit carries its paths exactly where a command line can. -/
theorem carriesPaths_iff (m : Manager) (binary : Chars) (config : Option Chars) (calendar : Chars) (user : Bool) :
    CarriesPaths m binary config calendar user ↔ Representable m binary config :=
  ⟨CarriesPaths.representable, fun h => h.carriesPaths calendar user⟩

/-- A manager that takes absolute paths, with no specifier. -/
def absoluteOnly : Manager := ⟨fun _ => none, fun path => path.head? == some '/'⟩

/-- `/etc/a$$b.toml` arrives as `/etc/a$b.toml`. -/
theorem carriesPaths_dollars :
    ¬ CarriesPaths absoluteOnly "/usr/bin/hardener".toList (some "/etc/a$$b.toml".toList) "daily".toList false := by
  intro h
  have hbraces := (h.representable.unexpanded "/etc/a$$b.toml".toList (by decide)).no_braces
  revert hbraces
  decide

end LinuxHardener.Scheduler
