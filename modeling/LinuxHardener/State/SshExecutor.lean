import LinuxHardener.Core.SshCommands
import LinuxHardener.Lib.Cut
import LinuxHardener.Permissions.Apply
import LinuxHardener.State.Executor

/-
  The executor that works through an SSH session.

  A session takes a text for the remote shell, or a program with its arguments, and may
  fail as it likes. `SshSession.Faithful` is what the remote programs are documented to
  do where they report success, given what a shell makes of the text.

  What is proved: what a shell makes of the texts sent (`parse_catCommand`,
  `parse_existsCommand`, `parse_metadataProbeCommand`; the write's is in `SshCommands`).

  Correspondence (Rust ↔ Lean):
    `SshExecutor::run_command`, `execute_command` ↔ `SshSession.runCommand`
    `SshExecutor::{file_metadata, path_exists, read_file, write_file}` ↔ the fields of `sshExecutor`
    `metadata_probe_command`, `parse_stat_fields`, `parse_metadata_probe`,
      `parse_path_exists_probe`, `parse_link_probe` ↔ the functions of these names
    `SystemExecutor::read_link`, `link_target_as_writer` ↔ `SshSession.readLink`, `SshSession.linkTargetAsWriter`
  Of an error's text the outermost context is kept, and no escape of `{:?}`.
-/
namespace LinuxHardener.State

open FileTree
open LineText (Chars lines contains rsplitOnce stripStart parseUnsigned decimal)
open Core.Ssh
open Shell (Pipeline Redirect unquoted quoted between)

/-! ## Sessions -/

/-- The arguments as they are passed. -/
def Command.args : Command → List String
  | .chmod mode path => [String.ofList (Nat.toDigits 8 mode.toNat), path]
  | .chown uid gid path => [String.ofList (decimal uid.toNat ++ ':' :: decimal gid.toNat), path]
  | .ln target path => ["-sfn", target, path]
  | .mkdir dir => ["-p", dir]
  | .rm path => ["-f", path]

inductive SshRequest where
  /-- A text for the remote shell. -/
  | raw (text : Chars)
  /-- A program and its arguments, each passed as it is. -/
  | command (program : String) (args : List String)
  deriving DecidableEq, Repr

def SshRequest.text : SshRequest → String
  | .raw text => String.ofList text
  | .command program args => program ++ " " ++ String.intercalate " " args

/-- What a remote process printed, and the code it exited with, if it did. -/
structure SshOutput where
  stdout : Bytes
  stderr : Bytes
  code : Option Int
  deriving DecidableEq, Repr

/-- `none` is a request that could not be carried out. -/
structure SshSession where
  run : SshRequest → Tree → Tree × Option SshOutput

/-- The output as text. -/
structure RemoteOutput where
  stdout : Chars
  stderr : Chars
  exitCode : Int
  deriving DecidableEq, Repr

def SshOutput.decode (out : SshOutput) : RemoteOutput :=
  ⟨(ofUtf8Lossy out.stdout).toList, (ofUtf8Lossy out.stderr).toList, out.code.getD (-1)⟩

def SshSession.runCommand (s : SshSession) (r : SshRequest) (fs : Tree) : Tree × Except String RemoteOutput :=
  let done := s.run r fs
  (done.1, match done.2 with
    | some out => .ok out.decode
    | none => .error ("SSH command failed: " ++ r.text))

/-! ## The texts sent -/

def catCommand (path : Chars) : Chars := "cat ".toList ++ shellEscape path

def existsCommand (path : Chars) : Chars := "test -e ".toList ++ shellEscape path ++ " && echo yes || echo no".toList

def metadataProbeCommand (path : Chars) : Chars :=
  "test -e ".toList ++ shellEscape path ++ " && echo E || echo N; LC_ALL=C stat -c '%F %a %s %u %g' ".toList ++
    shellEscape path ++ " 2>/dev/null || true".toList

/-- `LINK_PROBE_SCRIPT` -/
def linkProbeScript : String :=
  "PATH=/usr/bin:/usr/sbin:/bin:/sbin:/usr/local/bin:/usr/local/sbin\n" ++
  "export PATH\n" ++
  "inner='d=$(dirname -- \"$1\")\n" ++
  "readlink -e -n -- \"$d\" >/dev/null 2>&1 || \x7b printf UNDETERMINED; exit 0; \x7d\n" ++
  "if test -h \"$1\"; then\n" ++
  "  t=$(readlink -e -n -- \"$1\") && printf \"LINK %s\" \"$t\" || printf UNDETERMINED\n" ++
  "else\n" ++
  "  printf NOTLINK\n" ++
  "fi'\n" ++
  "if [ \"$(id -u)\" -eq 0 ]; then E=\"\"; else E=\"$2\"; fi\n" ++
  "answer=$($E sh -c \"$inner\" _ \"$1\")\n" ++
  "printf '%s' \"$answer\""

/-! ## What is made of the answers -/

def parsePathExistsProbe (stdout : Chars) : Option Bool :=
  let answer := LineText.trim stdout
  if answer = "yes".toList then some true else if answer = "no".toList then some false else none

/-- One line of `stat`, its fields taken from the end: the type may hold blanks. -/
def parseStatFields (line : Chars) : Option FileMetadata := do
  let (line, gid) ← rsplitOnce ' ' line
  let (line, uid) ← rsplitOnce ' ' line
  let (line, _) ← rsplitOnce ' ' line
  let (fileType, bits) ← rsplitOnce ' ' line
  let isDir := contains fileType "directory".toList
  let permissionBits := UInt32.ofBitVec ((Permissions.parseOctal bits).getD 0)
  let typeBit : UInt32 := if isDir then 0o040000 else 0o100000
  some ⟨true, contains fileType "regular".toList, isDir, typeBit ||| permissionBits,
    UInt32.ofNat ((parseUnsigned (2 ^ 32) uid).getD 0), UInt32.ofNat ((parseUnsigned (2 ^ 32) gid).getD 0)⟩

/-- A line of `stat` counts for more than the marker. -/
def parseMetadataProbe (stdout : Chars) : Option FileMetadata :=
  let ls := lines (LineText.trim stdout)
  let marker := LineText.trim (ls.headD [])
  let statLine := LineText.trim (ls.tail.headD [])
  if statLine ≠ [] then parseStatFields statLine
  else if marker = ['N'] then some .absent
  else none

def parseLinkProbe (stdout : Chars) : Except String (Option String) :=
  let answer := LineText.trim stdout
  let undetermined : Except String (Option String) :=
    .error ("Executor error: could not determine whether the path is a symlink; the probe said \"" ++ String.ofList answer ++ "\"")
  if answer = "NOTLINK".toList then .ok none
  else match stripStart "LINK ".toList answer with
    | some target => if target ≠ [] then .ok (some (String.ofList target)) else undetermined
    | none => undetermined

/-! ## The executor -/

/-- Exit code 1 is the answer that it is no link. -/
def SshSession.readLink (s : SshSession) (fs : Tree) (path : String) : Except String (Option String) := do
  let out ← (s.runCommand (.command "readlink" ["-n", "--", path]) fs).2
  if out.exitCode = 0 then .ok (some (String.ofList (LineText.trim out.stdout)))
  else if out.exitCode = 1 then .ok none
  else .error ("Executor error: readlink " ++ path ++ " exited " ++ toString out.exitCode ++ ": " ++
    String.ofList (LineText.trim out.stderr))

def SshSession.linkTargetAsWriter (s : SshSession) (fs : Tree) (path : String) : Except String (Option String) := do
  let normalised ← normaliseProbePath path
  let out ← (s.runCommand (.command "sh" ["-c", linkProbeScript, "_", normalised, "sudo -n"]) fs).2
  if out.exitCode ≠ 0 then
    .error ("Executor error: the link probe exited " ++ toString out.exitCode ++ ": " ++ String.ofList (LineText.trim out.stderr))
  else parseLinkProbe out.stdout

def sshExecutor (s : SshSession) : Executor where
  fileMetadata fs path := do
    let out ← (s.runCommand (.raw (metadataProbeCommand path.toList)) fs).2
    match parseMetadataProbe out.stdout with
    | some md => .ok md
    | none => .error ("Failed to determine metadata for " ++ path)
  pathExists fs path := do
    let out ← (s.runCommand (.raw (existsCommand path.toList)) fs).2
    match parsePathExistsProbe out.stdout with
    | some b => .ok b
    | none => .error ("Failed to determine whether " ++ path ++ " exists")
  readFile fs path := do
    let out ← (s.runCommand (.raw (catCommand path.toList)) fs).2
    if out.exitCode = 0 then .ok (String.ofList out.stdout)
    else .error ("Failed to read " ++ path ++ ": " ++ String.ofList out.stderr)
  readLink := s.readLink
  linkTargetAsWriter := s.linkTargetAsWriter
  writeFile path content fs :=
    let done := s.runCommand (.raw (teeCommand path.toList content.toList)) fs
    (done.1, done.2.bind fun out =>
      if out.exitCode = 0 then .ok () else .error ("Failed to write " ++ path ++ ": " ++ String.ofList out.stderr))
  executeCommand c fs :=
    let done := s.runCommand (.command c.program c.args) fs
    (done.1, done.2.map fun out => ⟨String.ofList out.stderr, out.exitCode⟩)

/-! ## What a shell makes of the texts -/

/-- One command and what ends it. -/
def simple (words : List Shell.Word) (redirects : List Redirect) (terminator : String) : Pipeline :=
  ⟨[⟨words, redirects⟩], terminator.toList⟩

def bare (word : String) : Shell.Word := unquoted word.toList

def catPipelines (path : Chars) : List Pipeline := [simple [bare "cat", quoted path] [] ""]

def existsPipelines (path : Chars) : List Pipeline :=
  [simple [bare "test", bare "-e", quoted path] [] "&&", simple [bare "echo", bare "yes"] [] "||",
    simple [bare "echo", bare "no"] [] ""]

def metadataPipelines (path : Chars) : List Pipeline :=
  [simple [bare "test", bare "-e", quoted path] [] "&&", simple [bare "echo", bare "E"] [] "||",
    simple [bare "echo", bare "N"] [] ";",
    simple [bare "LC_ALL=C", bare "stat", bare "-c", quoted "%F %a %s %u %g".toList, quoted path]
      [.file ['2'] ['>'] (bare "/dev/null")] "||",
    simple [bare "true"] [] ""]

/-- A path between two words. -/
theorem run_quoted (path : Chars) (tokens : List Shell.Token) :
    Shell.run (between tokens) (shellEscape path ++ [' ']) = some (between (tokens ++ [.word (quoted path)])) := by
  rw [Shell.run_append_of (run_shellEscape path _ rfl)]
  rfl

/-- A word between two words. -/
theorem run_bare (word : String) (hplain : word.toList.all Shell.isPlain = true) (hcomment : word.toList.head? ≠ some '#')
    (hne : word.toList ≠ []) (tokens : List Shell.Token) (rest : Chars) :
    Shell.run (between tokens) (word.toList ++ ' ' :: rest) = Shell.run (between (tokens ++ [.word (bare word)])) rest := by
  have hword := Shell.run_word hplain hcomment hne tokens
  rw [← List.singleton_append, ← List.append_assoc, Shell.run_append_of hword]
  rfl

theorem finish_bare (word : String) (hplain : word.toList.all Shell.isPlain = true) (hcomment : word.toList.head? ≠ some '#')
    (hne : word.toList ≠ []) (tokens : List Shell.Token) :
    (Shell.run (between tokens) word.toList).bind Shell.finish = some (tokens ++ [.word (bare word)]) :=
  Shell.finish_word hplain hcomment hne tokens

theorem run_path (path : Chars) (tokens : List Shell.Token) (rest : Chars) :
    Shell.run (between tokens) (shellEscape path ++ ' ' :: rest) = Shell.run (between (tokens ++ [.word (quoted path)])) rest := by
  rw [← List.singleton_append, ← List.append_assoc, Shell.run_append_of (run_quoted path tokens)]

theorem parse_catCommand (path : Chars) : Shell.parse (catCommand path) = some (catPipelines path) := by
  have htext : catCommand path = "cat".toList ++ ' ' :: shellEscape path := by rfl
  rw [Shell.parse, Shell.lex, htext, Shell.init_eq, run_bare "cat" (by decide) (by decide) (by decide), run_shellEscape path _ rfl]
  rfl

theorem parse_existsCommand (path : Chars) : Shell.parse (existsCommand path) = some (existsPipelines path) := by
  have htext : ∀ test answers : Chars, test = "test".toList ++ ' ' :: ("-e".toList ++ [' ']) →
      answers = ' ' :: (['&', '&', ' '] ++ ("echo".toList ++ ' ' :: ("yes".toList ++ ' ' ::
        (['|', '|', ' '] ++ ("echo".toList ++ ' ' :: "no".toList))))) →
      test ++ shellEscape path ++ answers = "test".toList ++ ' ' :: ("-e".toList ++ ' ' :: (shellEscape path ++ ' ' ::
        (['&', '&', ' '] ++ ("echo".toList ++ ' ' :: ("yes".toList ++ ' ' ::
        (['|', '|', ' '] ++ ("echo".toList ++ ' ' :: "no".toList))))))) := by
    intro test answers htest hanswers
    rw [htest, hanswers]
    simp only [List.append_assoc, List.cons_append, List.nil_append]
  unfold Shell.parse Shell.lex existsCommand
  rw [htext "test -e ".toList " && echo yes || echo no".toList (by rfl) (by rfl), Shell.init_eq, run_bare "test" (by decide) (by decide) (by decide),
    run_bare "-e" (by decide) (by decide) (by decide), run_path, Shell.run_append_of (Shell.run_operator (.inl rfl) _),
    run_bare "echo" (by decide) (by decide) (by decide), run_bare "yes" (by decide) (by decide) (by decide),
    Shell.run_append_of (Shell.run_operator (.inr rfl) _), run_bare "echo" (by decide) (by decide) (by decide),
    finish_bare "no" (by decide) (by decide) (by decide)]
  rfl

/-- The tokens behind the existence marker: `stat`, its errors dropped. -/
def statTokens (path : Chars) : List Shell.Token :=
  .word (bare "LC_ALL=C") :: ([bare "stat", bare "-c", quoted "%F %a %s %u %g".toList, quoted path].map .word ++
    [.ioNumber ['2'], .operator ['>'], .word (bare "/dev/null"), .operator ['|', '|'], .word (bare "true")])

def metadataTokens (path : Chars) : List Shell.Token :=
  .word (bare "test") :: ([bare "-e", quoted path].map .word ++ .operator ['&', '&'] ::
    .word (bare "echo") :: ([bare "E"].map .word ++ .operator ['|', '|'] ::
    .word (bare "echo") :: ([bare "N"].map .word ++ .operator [';'] :: statTokens path)))

theorem lex_metadataProbeCommand (path : Chars) : Shell.lex (metadataProbeCommand path) = some (metadataTokens path) := by
  have htext : ∀ test probe ignored : Chars, test = "test".toList ++ ' ' :: ("-e".toList ++ [' ']) →
      probe = ' ' :: (['&', '&', ' '] ++ ("echo".toList ++ ' ' :: ("E".toList ++ ' ' :: (['|', '|', ' '] ++
        ("echo".toList ++ ' ' :: (['N', ';', ' '] ++ ("LC_ALL=C".toList ++ ' ' :: ("stat".toList ++ ' ' :: ("-c".toList ++ ' ' ::
        (shellEscape "%F %a %s %u %g".toList ++ [' '])))))))))) →
      ignored = ' ' :: ("2>/dev/null ".toList ++ (['|', '|', ' '] ++ "true".toList)) →
      test ++ shellEscape path ++ probe ++ shellEscape path ++ ignored =
        "test".toList ++ ' ' :: ("-e".toList ++ ' ' :: (shellEscape path ++ ' ' :: (['&', '&', ' '] ++
        ("echo".toList ++ ' ' :: ("E".toList ++ ' ' :: (['|', '|', ' '] ++ ("echo".toList ++ ' ' :: (['N', ';', ' '] ++
        ("LC_ALL=C".toList ++ ' ' :: ("stat".toList ++ ' ' :: ("-c".toList ++ ' ' :: (shellEscape "%F %a %s %u %g".toList ++ ' ' ::
        (shellEscape path ++ ' ' :: ("2>/dev/null ".toList ++ (['|', '|', ' '] ++ "true".toList))))))))))))))) := by
    intro test probe ignored htest hprobe hignored
    rw [htest, hprobe, hignored]
    simp only [List.append_assoc, List.cons_append, List.nil_append]
  have hends : ∀ tokens, Shell.run (between tokens) ['N', ';', ' '] =
      some (between (tokens ++ [.word (bare "N")] ++ [.operator [';']])) := fun _ => by rfl
  have hignored : ∀ tokens, Shell.run (between tokens) "2>/dev/null ".toList =
      some (between (tokens ++ [.ioNumber ['2']] ++ [.operator ['>']] ++ [.word (bare "/dev/null")])) := fun _ => by rfl
  unfold Shell.lex metadataProbeCommand
  rw [htext "test -e ".toList " && echo E || echo N; LC_ALL=C stat -c '%F %a %s %u %g' ".toList " 2>/dev/null || true".toList
      (by rfl) (by rfl) (by rfl), Shell.init_eq, run_bare "test" (by decide) (by decide) (by decide),
    run_bare "-e" (by decide) (by decide) (by decide), run_path, Shell.run_append_of (Shell.run_operator (.inl rfl) _),
    run_bare "echo" (by decide) (by decide) (by decide), run_bare "E" (by decide) (by decide) (by decide),
    Shell.run_append_of (Shell.run_operator (.inr rfl) _), run_bare "echo" (by decide) (by decide) (by decide),
    Shell.run_append_of (hends _), run_bare "LC_ALL=C" (by decide) (by decide) (by decide),
    run_bare "stat" (by decide) (by decide) (by decide), run_bare "-c" (by decide) (by decide) (by decide), run_path, run_path,
    Shell.run_append_of (hignored _), Shell.run_append_of (Shell.run_operator (.inr rfl) _),
    finish_bare "true" (by decide) (by decide) (by decide)]
  simp only [metadataTokens, statTokens, List.map_cons, List.map_nil, List.cons_append, List.nil_append]

theorem parse_metadataProbeCommand (path : Chars) :
    Shell.parse (metadataProbeCommand path) = some (metadataPipelines path) := by
  have hand : Shell.isSeparator ['&', '&'] = true ∧ Shell.isRedirection ['&', '&'] = false ∧ ['&', '&'] ≠ ['|'] := by decide
  have hor : Shell.isSeparator ['|', '|'] = true ∧ Shell.isRedirection ['|', '|'] = false ∧ ['|', '|'] ≠ ['|'] := by decide
  have hthen : Shell.isSeparator [';'] = true ∧ Shell.isRedirection [';'] = false ∧ [';'] ≠ ['|'] := by decide
  have hrest : Shell.parseTokens [.ioNumber ['2'], .operator ['>'], .word (bare "/dev/null"), .operator ['|', '|'], .word (bare "true")]
      ⟨(metadataPipelines path).take 3, [], ⟨[bare "LC_ALL=C", bare "stat", bare "-c", quoted "%F %a %s %u %g".toList, quoted path], []⟩, []⟩ =
      some ⟨metadataPipelines path, [], .empty, []⟩ := by rfl
  rw [Shell.parse, lex_metadataProbeCommand, Option.bind_some, metadataTokens, Shell.parseTokens_separated rfl (by decide) _ hand,
    Shell.parseTokens_separated rfl (by decide) _ hor, statTokens, Shell.parseTokens_separated rfl (by decide) _ hthen,
    Shell.parseTokens_first rfl (by decide)]
  exact congrArg (Option.map Shell.Parser.pipelines) hrest

/-! ## Sessions that do what they report -/

/-- Whether something stands at the path, as `test -e` says it. -/
def answers (fs : Tree) (path : String) : Bool :=
  match stat fs path with
  | .ok _ => true
  | .error _ => false

/-- What the remote programs do where they report success. A probe may be cut short
before it prints anything. -/
structure SshSession.Faithful (s : SshSession) : Prop where
  cat : ∀ {text : Chars} {path : String} {fs fs' : Tree} {out : SshOutput}, Shell.parse text = some (catPipelines path.toList) →
    isAbsolute path = true → s.run (.raw text) fs = (fs', some out) → out.code = some 0 →
    ∃ l d a, stat fs path = .ok (l, .file d a) ∧ out.stdout = d.bytes
  tee : ∀ {text stdin : Chars} {path : String} {fs fs' : Tree} {out : SshOutput},
    Shell.parse text = some [teePipeline path.toList stdin] → isAbsolute path = true → s.run (.raw text) fs = (fs', some out) →
    out.code = some 0 → writeThrough path (String.ofList stdin) fs = .ok fs'
  test : ∀ {text : Chars} {path : String} {fs fs' : Tree} {out : SshOutput},
    Shell.parse text = some (existsPipelines path.toList) → isAbsolute path = true → s.run (.raw text) fs = (fs', some out) →
    out.stdout = [] ∨ out.stdout = utf8 (if answers fs path then "yes\n" else "no\n")
  metadata : ∀ {text : Chars} {path : String} {fs fs' : Tree} {out : SshOutput},
    Shell.parse text = some (metadataPipelines path.toList) → isAbsolute path = true → s.run (.raw text) fs = (fs', some out) →
    out.stdout = [] ∨ ∃ line : String, out.stdout = utf8 ((if answers fs path then "E\n" else "N\n") ++ line)
  readlink : ∀ {path : String} {fs fs' : Tree} {out : SshOutput}, isAbsolute path = true →
    s.run (.command "readlink" ["-n", "--", path]) fs = (fs', some out) → out.code = some 0 →
    ∃ l t u g, lstat fs path = .ok (l, .link t u g) ∧ out.stdout = utf8 t
  command : ∀ {c : Command} {fs fs' : Tree} {out : SshOutput}, c.Operands → isAbsolute c.path = true →
    s.run (.command c.program c.args) fs = (fs', some out) → out.code = some 0 → c.run fs = .ok fs'

end LinuxHardener.State
