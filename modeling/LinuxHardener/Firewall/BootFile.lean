import LinuxHardener.Firewall.Refused
import LinuxHardener.Lib.HookedScript

/-
  The ruleset that boots (`firewall/nftables.rs`).

  nft is a parameter: what the commands of a text are, what each does, and which files the glob of
  the include line names. A text is one transaction, and an include is read in its place. A path
  stands for the file it resolves to.

  Correspondence (Rust ↔ Lean):
    `apply_rules`, `ensure_include_line`, `with_include_line` ↔ those of `Nftables`
    what the executor does with the host's files              ↔ `react`, answered by `Honest`

  What is proved:
    1. `run_applied` — what an apply leaves in the files, and loads.
    2. `loadAt_included` — what the boot file loads then, against what the old text alone loads.
    3. `boots_as_applied` — where the include works in the boot file, what was applied boots.
    4. `flushed_at_boot` — a flush behind the include line undoes it, and the apply says nothing.
-/
namespace LinuxHardener.Firewall.Boot

open LineText Plugins Dialogue HookedScript

/-! ## nft -/

abbrev Files : Type := Chars → Option Chars

/-- The tables of a ruleset, by family and name. -/
abbrev Tables (Content : Type) : Type := Chars → Option Content

structure Nft where
  Command : Type
  Symbols : Type
  Content : Type
  noSymbols : Symbols
  /-- The commands of a text in their order, and where it includes the glob; none where the text is refused. -/
  commands : Chars → Option (List (Piece Command))
  exec : Files → Command → Symbols × Tables Content → Option (Symbols × Tables Content)
  /-- The files that the glob names. -/
  matching : Files → List Chars
  /-- On a line of its own after the text a command can begin: none is being continued. -/
  ready : Chars → Prop

namespace Nft

variable (nft : Nft)

abbrev State : Type := nft.Symbols × Tables nft.Content

/-- A text run, its includes up to a depth. -/
def loadAt : Nat → Files → Chars → nft.State → Option nft.State
  | 0, _, _, _ => none
  | depth + 1, files, text, s =>
    (nft.commands text).bind fun pieces =>
      run (nft.exec files)
        (fun s => (nft.matching files).foldlM (fun s path => loadAt depth files ((files path).getD []) s) s) pieces s

/-- `MAX_INCLUDE_DEPTH` -/
def maxDepth : Nat := 16

def load (files : Files) (text : Chars) (tables : Tables nft.Content) : Option (Tables nft.Content) :=
  (nft.loadAt maxDepth files text (nft.noSymbols, tables)).map Prod.snd

def noTables : Tables nft.Content := fun _ => none

end Nft

def hardenerTable : Chars := "inet ".toList ++ nftablesTable

/-- The table that is replaced. -/
def put {Symbols Content : Type} (content : Content) (s : Symbols × Tables Content) : Symbols × Tables Content :=
  (s.1, Function.update s.2 hardenerTable (some content))

theorem put_put {Symbols Content : Type} (content : Content) (s : Symbols × Tables Content) :
    put content (put content s) = put content s := by
  rw [put, put, Function.update_idem]

theorem put_hardenerTable {Symbols Content : Type} (content : Content) (s : Symbols × Tables Content) :
    (put content s).2 hardenerTable = some content := by
  rw [put]
  exact Function.update_self hardenerTable (some content) s.2

/-- `/etc/linux-hardener/nftables/*.nft` -/
def InGlob (path : Chars) : Prop :=
  ∃ name, '/' ∉ name ∧ name.head? ≠ some '.' ∧ path = hardenerRulesetDir ++ '/' :: name ++ ".nft".toList

/-- What stands between a text and the line appended to it. -/
def separator (text : Chars) : Chars := if text = [] ∨ text.getLast? = some '\n' then [] else ['\n']

/-- A text that nft can go on after goes on with the include; what the plugin renders replaces its
own table whatever is there, and nothing else; and the glob names the fragment where that is the
one file it can name. -/
structure Nft.Lawful (nft : Nft) : Prop where
  append : ∀ {text : Chars} {pieces : List (Piece nft.Command)}, nft.commands text = some pieces → nft.ready text →
    nft.commands (text ++ separator text ++ hardenerIncludeLine ++ ['\n']) = some (pieces ++ [.hook])
  fragment : ∀ {config : PluginConfig} {ruleset : Chars} {depth : Nat} {files : Files} {s s' : nft.State},
    renderRuleset (buildRules config).1 = .ok ruleset → nft.loadAt (depth + 1) files ruleset s = some s' →
    ∃ content, ∀ depth files s, nft.loadAt (depth + 1) files ruleset s = some (put content s)
  matching : ∀ {files : Files}, (∀ path, InGlob path → (files path).isSome → path = hardenerRulesetPath) →
    nft.matching files = if (files hardenerRulesetPath).isSome then [hardenerRulesetPath] else []

/-! ## The include line -/

theorem whole_separated (text : Chars) : Whole (text ++ separator text) := by
  unfold separator
  split
  · next h =>
    rw [List.append_nil]
    exact h
  · exact .inr List.getLast?_concat

def HasInclude (text : Chars) : Prop := (lines text).any (fun line => LineText.trim line == hardenerIncludeLine) = true

theorem withIncludeLine_eq (text : Chars) : withIncludeLine text hardenerIncludeLine =
    if (lines text).any (fun line => LineText.trim line == hardenerIncludeLine) then text
    else text ++ separator text ++ hardenerIncludeLine ++ ['\n'] := rfl

theorem hasInclude_withIncludeLine (text : Chars) : HasInclude (withIncludeLine text hardenerIncludeLine) := by
  rw [withIncludeLine_eq]
  split
  · assumption
  · have hline : lines (hardenerIncludeLine ++ ['\n']) = [hardenerIncludeLine] := by decide
    rw [HasInclude, List.append_assoc, lines_append (whole_separated text), hline, List.any_append]
    have htrim : LineText.trim hardenerIncludeLine = hardenerIncludeLine := by decide
    simp [htrim]

/-! ## The host -/

variable {nft : Nft}

/-- `nft -f` loads a file; the other commands of an apply change no file and no table. -/
def tools (nft : Nft) : Tools (Tables nft.Content) where
  turnedOn _ h := h
  other program args h :=
    match args with
    | [flag, path] =>
      if program = "nft".toList ∧ flag = "-f".toList then
        match (h.file path).bind fun text => nft.load h.file text h.loaded with
        | some tables => { h with loaded := tables }
        | none => h
      else h
    | _ => h

abbrev NftHost (nft : Nft) : Type := Host (Tables nft.Content)

/-- Answers about files that are so, and a load that succeeds only where nft accepts the file. -/
def Honest (nft : Nft) (h : NftHost nft) : Exchange → Prop
  | ⟨.pathExists path, .ok exists'⟩ => exists' = (h.file path).isSome
  | ⟨.readFile path, .ok text⟩ => h.file path = some text
  | ⟨.execute program args, .ok output⟩ =>
    ∀ path, program = "nft".toList → args = ["-f".toList, path] → output.success = true →
      ((h.file path).bind fun text => nft.load h.file text h.loaded).isSome = true
  | _ => True

def HonestRun (nft : Nft) : NftHost nft → List Exchange → Prop
  | _, [] => True
  | h, e :: es => Honest nft h e ∧ HonestRun nft (react (tools nft) h e) es

theorem honestRun_append {h : NftHost nft} {es es' : List Exchange} :
    HonestRun nft h (es ++ es') ↔ HonestRun nft h es ∧ HonestRun nft (after (react (tools nft)) h es) es' := by
  induction es generalizing h with
  | nil => exact ⟨fun he => ⟨trivial, he⟩, And.right⟩
  | cons e es ih =>
    rw [List.cons_append, HonestRun, HonestRun, ih, after_cons, and_assoc]

/-- A host whose tables are the same, and whose files are but for the scratch file. -/
structure SameButScratch (h h' : NftHost nft) : Prop where
  loaded : h'.loaded = h.loaded
  file : ∀ path, path ≠ nftablesCheckPath → h'.file path = h.file path

theorem file_setFile_ne {h : NftHost nft} {path other : Chars} (hne : other ≠ path) (content : Option Chars) :
    (h.setFile path content).file other = h.file other := Function.update_of_ne hne ..

theorem react_removed (h : NftHost nft) (removed : Except Chars CommandOutput) :
    SameButScratch h (react (tools nft) h ⟨.execute "rm" ["-f", nftablesCheckPath], removed⟩) := by
  cases removed with
  | error e => exact ⟨rfl, fun _ _ => rfl⟩
  | ok output =>
    rw [react]
    split
    · exact ⟨rfl, fun path hne => file_setFile_ne hne _⟩
    · exact ⟨rfl, fun _ _ => rfl⟩

/-- The dry run. -/
theorem run_checked {ruleset : Chars} {es : List Exchange} (hr : Run (refuseARulesetNftWillNotParse ruleset) es (.ok ()))
    (h : NftHost nft) : SameButScratch h (after (react (tools nft)) h es) := by
  obtain ⟨written, es₁, rfl, h₁⟩ := run_writeFile.mp hr
  cases written with
  | error e => cases (run_pure.mp h₁).2
  | ok u =>
    obtain ⟨checked, es₂, rfl, h₂⟩ := run_execute.mp h₁
    obtain ⟨removed, es₃, rfl, h₃⟩ := run_execute.mp h₂
    have hes₃ : es₃ = [] := by
      cases checked with
      | error e => cases (run_pure.mp h₃).2
      | ok output =>
        dsimp only at h₃
        split at h₃
        · exact (run_pure.mp h₃).1
        · cases (run_pure.mp h₃).2
    subst hes₃
    have hchecked : ∀ h : NftHost nft, react (tools nft) h ⟨.execute "nft" ["--check", "--file", nftablesCheckPath], checked⟩ = h :=
      react_inert rfl
    rw [after_cons, after_cons, after_cons, after_nil, hchecked]
    have hwritten : SameButScratch h (react (tools nft) h ⟨.writeFile nftablesCheckPath ruleset, .ok u⟩) :=
      ⟨rfl, fun path hne => file_setFile_ne hne _⟩
    have hremoved := react_removed (h.setFile nftablesCheckPath (some ruleset)) removed
    exact ⟨hremoved.loaded.trans hwritten.loaded, fun path hne => (hremoved.file path hne).trans (hwritten.file path hne)⟩

/-! ## What a run leaves -/

/-- The text of a boot file; an absent one is empty. -/
def bootText (h : NftHost nft) (path : Chars) : Chars := (h.file path).getD []

/-- The boot file with the include line in it. -/
def included (h : NftHost nft) (path : Chars) : Chars := withIncludeLine (bootText h path) hardenerIncludeLine

theorem included_ne_nil (h : NftHost nft) (path : Chars) : included h path ≠ [] := by
  intro hnil
  have hinclude := hasInclude_withIncludeLine (bootText h path)
  rw [← included, hnil] at hinclude
  cases hinclude

theorem run_readBootFile {path text : Chars} {es : List Exchange} (hr : Run (readBootFile path) es (.ok text)) {h : NftHost nft}
    (hh : HonestRun nft h es) : after (react (tools nft)) h es = h ∧ text = bootText h path := by
  obtain ⟨found, es₁, rfl, h₁⟩ := run_ask.mp hr
  have hfound : react (tools nft) h ⟨.pathExists path, found⟩ = h := by cases found <;> rfl
  obtain ⟨hexists, hrest⟩ := hh
  rw [hfound] at hrest
  rw [after_cons, hfound]
  have hread : ∀ {es : List Exchange}, Run (readFile path) es (.ok text) → HonestRun nft h es →
      after (react (tools nft)) h es = h ∧ text = bootText h path := by
    intro es hr hh
    obtain ⟨answer, es', rfl, h'⟩ := run_ask.mp hr
    obtain ⟨rfl, rfl⟩ := run_done.mp h'
    have hfile : h.file path = some text := hh.1
    exact ⟨rfl, by rw [bootText, hfile]; rfl⟩
  cases found with
  | error e => exact hread h₁ hrest
  | ok found =>
    cases found with
    | true => exact hread h₁ hrest
    | false =>
      obtain ⟨rfl, heq⟩ := run_pure.mp h₁
      cases heq
      have habsent : h.file path = none := Option.not_isSome_iff_eq_none.mp (Bool.eq_false_iff.mp hexists.symm)
      exact ⟨rfl, by rw [bootText, habsent]; rfl⟩

theorem run_ensureIncludeLine {path : Chars} {es : List Exchange} (hr : Run (ensureIncludeLine path) es (.ok ()))
    {h : NftHost nft} (hh : HonestRun nft h es) : after (react (tools nft)) h es = h.setFile path (some (included h path)) := by
  obtain ⟨es₁, read, es₂, rfl, h₁, h₂⟩ := run_bind.mp hr
  cases read with
  | error e => cases (run_pure.mp h₂).2
  | ok text =>
    obtain ⟨hread, rfl⟩ := run_readBootFile h₁ (honestRun_append.mp hh).1
    rw [after_append, hread]
    dsimp only at h₂
    split at h₂
    · next hsame =>
      obtain ⟨rfl, -⟩ := run_pure.mp h₂
      refine (Host.setFile_eq_self.mpr ?_).symm
      -- The line is there already, so the file is.
      have hsame : included h path = bootText h path := hsame
      cases hfile : h.file path with
      | none =>
        rw [bootText, hfile] at hsame
        exact absurd hsame (included_ne_nil h path)
      | some text =>
        rw [hsame, bootText, hfile]
        exact hfile
    · obtain ⟨written, es₃, rfl, h₃⟩ := run_writeFile.mp h₂
      cases written with
      | error e => cases (run_pure.mp h₃).2
      | ok u =>
        obtain ⟨rfl, -⟩ := run_pure.mp h₃
        rfl

theorem run_makeDirectories {directories : List Chars} {es : List Exchange} (hr : Run (makeDirectories directories) es (.ok ()))
    (h : NftHost nft) : after (react (tools nft)) h es = h := by
  induction directories generalizing es with
  | nil =>
    obtain ⟨rfl, -⟩ := run_pure.mp hr
    rfl
  | cons directory directories ih =>
    obtain ⟨made, es₁, rfl, h₁⟩ := run_execute.mp hr
    cases made with
    | error e => cases (run_pure.mp h₁).2
    | ok output =>
      have hmade : react (tools nft) h ⟨.execute "mkdir" ["-p", directory], .ok output⟩ = h := by
        rw [react]
        split <;> rfl
      rw [after_cons, hmade]
      exact ih h₁

/-- A load changes no file. -/
theorem file_loaded {path : Chars} (h : NftHost nft) : (runCommand (tools nft) "nft" ["-f", path] h).file = h.file := by
  change (match (h.file path).bind fun text => nft.load h.file text h.loaded with
    | some tables => { h with loaded := tables }
    | none => h).file = h.file
  cases (h.file path).bind fun text => nft.load h.file text h.loaded <;> rfl

/-- A load that succeeded. -/
theorem run_load {path stdout : Chars} {es : List Exchange} (hr : Run (executeNft ["-f", path]) es (.ok stdout))
    {h : NftHost nft} (hh : HonestRun nft h es) :
    ∃ text tables, h.file path = some text ∧ nft.load h.file text h.loaded = some tables ∧
      after (react (tools nft)) h es = { h with loaded := tables } := by
  obtain ⟨output, rfl, hs, -⟩ := run_outputOf hr
  have hloads : ((h.file path).bind fun text => nft.load h.file text h.loaded).isSome = true := hh.1 path rfl rfl hs
  obtain ⟨tables, hbind⟩ := Option.isSome_iff_exists.mp hloads
  obtain ⟨text, htext, hload⟩ := Option.bind_eq_some_iff.mp hbind
  refine ⟨text, tables, htext, hload, ?_⟩
  rw [after_cons, after_nil, react, if_pos hs]
  change (match (h.file path).bind fun text => nft.load h.file text h.loaded with
    | some tables => { h with loaded := tables }
    | none => h) = _
  rw [hbind]

/-- The host with the fragment and the include line in place. -/
def installedFiles (h : NftHost nft) (bootPath ruleset : Chars) : NftHost nft :=
  let h₁ := h.setFile hardenerRulesetPath (some ruleset)
  h₁.setFile bootPath (some (included h₁ bootPath))

theorem run_installRuleset {bootPath ruleset : Chars} {es : List Exchange} (hr : Run (installRuleset bootPath ruleset) es (.ok ()))
    {h : NftHost nft} (hh : HonestRun nft h es) :
    ∃ text tables, (installedFiles h bootPath ruleset).file hardenerRulesetPath = some text ∧
      nft.load (installedFiles h bootPath ruleset).file text h.loaded = some tables ∧
      after (react (tools nft)) h es = { installedFiles h bootPath ruleset with loaded := tables } := by
  obtain ⟨es₁, made, es₂, rfl, h₁, h₂⟩ := run_bind.mp hr
  cases made with
  | error e => cases (run_pure.mp h₂).2
  | ok u =>
    have hh₂ := (honestRun_append.mp hh).2
    rw [run_makeDirectories h₁ h] at hh₂
    rw [after_append, run_makeDirectories h₁ h]
    obtain ⟨written, es₃, rfl, h₃⟩ := run_writeFile.mp h₂
    cases written with
    | error e => cases (run_pure.mp h₃).2
    | ok u =>
      obtain ⟨es₄, ensured, es₅, rfl, h₄, h₅⟩ := run_bind.mp h₃
      cases ensured with
      | error e => cases (run_pure.mp h₅).2
      | ok u =>
        obtain ⟨hh₄, hh₅⟩ := honestRun_append.mp hh₂.2
        have hensured := run_ensureIncludeLine h₄ hh₄
        rw [hensured] at hh₅
        rw [after_cons, after_append, hensured]
        obtain ⟨es₆, loaded, es₇, rfl, h₆, h₇⟩ := run_bind.mp h₅
        cases loaded with
        | error e => cases (run_pure.mp h₇).2
        | ok stdout =>
          obtain ⟨rfl, -⟩ := run_pure.mp h₇
          rw [List.append_nil] at hh₅ ⊢
          exact run_load h₆ hh₅

theorem run_executeNftFromString {ruleset : Chars} {es : List Exchange} (hr : Run (executeNftFromString ruleset) es (.ok ()))
    (h : NftHost nft) {path : Chars} (hpath : path ≠ nftablesCheckPath) :
    (after (react (tools nft)) h es).file path = h.file path := by
  obtain ⟨written, es₁, rfl, h₁⟩ := run_writeFile.mp hr
  cases written with
  | error e => cases (run_pure.mp h₁).2
  | ok u =>
    obtain ⟨es₂, loaded, es₃, rfl, h₂, h₃⟩ := run_bind.mp h₁
    obtain ⟨removed, es₄, rfl, h₄⟩ := run_execute.mp h₃
    cases loaded with
    | error e => cases (run_pure.mp h₄).2
    | ok stdout =>
      obtain ⟨rfl, -⟩ := run_pure.mp h₄
      obtain ⟨output, rfl, -, -⟩ := run_outputOf h₂
      have hload : ∀ h : NftHost nft, (react (tools nft) h ⟨.execute "nft" ["-f", nftablesCheckPath], .ok output⟩).file = h.file := by
        intro h
        rw [react]
        split
        · exact file_loaded h
        · rfl
      rw [after_cons, after_append, after_cons, after_nil, after_cons, after_nil, (react_removed _ removed).file path hpath, hload]
      exact file_setFile_ne hpath _

/-! ## The file the unit names -/

def showQuery : Query := .execute "systemctl" ["show", "nftables.service", "-p", "ExecStart", "-p", "ConditionPathExists"]

/-- systemd said which file the unit loads. -/
def NamesBootFile (es : List Exchange) (path : Chars) : Prop :=
  ∃ output : CommandOutput, ⟨showQuery, .ok output⟩ ∈ es ∧ output.success = true ∧
    (parseBootRuleset (property output.stdout "ExecStart") (property output.stdout "ConditionPathExists")).loads = .ok path

theorem namesBootFile_append {es es' : List Exchange} {path : Chars} :
    NamesBootFile (es ++ es') path ↔ NamesBootFile es path ∨ NamesBootFile es' path := by
  simp only [NamesBootFile, List.mem_append, or_and_right, exists_or]

theorem not_namesBootFile {α : Type} {p : Session α} (hp : Asks (· ≠ showQuery) p) {es : List Exchange} {a : α} (hr : Run p es a)
    (path : Chars) : ¬ NamesBootFile es path := fun ⟨_, hmem, _⟩ => hp.of_run hr _ hmem rfl

theorem run_bootRuleset {es : List Exchange} {ruleset : BootRuleset} (hr : Run bootRuleset es ruleset) (path : Chars) :
    NamesBootFile es path ↔ ruleset.loads = .ok path := by
  obtain ⟨shown, es₁, rfl, h₁⟩ := run_execute.mp hr
  cases shown with
  | error e =>
    obtain ⟨rfl, rfl⟩ := run_pure.mp h₁
    refine iff_of_false ?_ nofun
    rintro ⟨output, hmem, -⟩
    cases List.mem_singleton.mp hmem
  | ok output =>
    dsimp only at h₁
    split at h₁
    · next hs =>
      obtain ⟨rfl, rfl⟩ := run_pure.mp h₁
      constructor
      · rintro ⟨output', hmem, -, hloads⟩
        cases List.mem_singleton.mp hmem
        exact hloads
      · exact fun hloads => ⟨output, List.mem_cons_self, hs, hloads⟩
    · next hs =>
      obtain ⟨rfl, rfl⟩ := run_pure.mp h₁
      refine iff_of_false ?_ nofun
      rintro ⟨output', hmem, hs', -⟩
      cases List.mem_singleton.mp hmem
      exact hs hs'

theorem asks_refuseARuleset (ruleset : Chars) : Asks (· ≠ showQuery) (refuseARulesetNftWillNotParse ruleset) := by
  refine (asks_ask nofun).bind fun written => ?_
  cases written with
  | error e => trivial
  | ok u =>
    refine (asks_ask nofun).bind fun checked => (asks_ask nofun).bind fun removed => ?_
    cases checked with
    | error e => trivial
    | ok output => dsimp only; split <;> trivial

theorem asks_existingInputRules {P : Query → Prop} (h : P (.execute "nft" ["list", "chain", "inet", nftablesTable, "input"])) :
    Asks P existingInputRules := by
  refine (asks_outputOf h).bind fun answer => ?_
  cases answer <;> trivial

theorem asks_makeDirectories (directories : List Chars) : Asks (· ≠ showQuery) (makeDirectories directories) := by
  induction directories with
  | nil => trivial
  | cons directory directories ih =>
    refine (asks_ask nofun).bind fun made => ?_
    cases made with
    | error e => trivial
    | ok output => exact ih

theorem asks_ensureIncludeLine (path : Chars) : Asks (· ≠ showQuery) (ensureIncludeLine path) := by
  have hread : Asks (· ≠ showQuery) (readBootFile path) := by
    refine (asks_ask nofun).bind fun found => ?_
    split
    · trivial
    · exact asks_ask nofun
  refine hread.bind fun read => ?_
  cases read with
  | error e => trivial
  | ok text =>
    dsimp only
    split
    · trivial
    · refine (asks_ask nofun).bind fun written => ?_
      cases written <;> trivial

theorem asks_load (path : Chars) : Asks (· ≠ showQuery) (executeNft ["-f", path]) := asks_outputOf nofun

theorem asks_installRuleset (bootPath ruleset : Chars) : Asks (· ≠ showQuery) (installRuleset bootPath ruleset) := by
  refine (asks_makeDirectories _).bind fun made => ?_
  cases made with
  | error e => trivial
  | ok u =>
    refine (asks_ask nofun).bind fun written => ?_
    cases written with
    | error e => trivial
    | ok u =>
      refine (asks_ensureIncludeLine bootPath).bind fun ensured => ?_
      cases ensured with
      | error e => trivial
      | ok u =>
        refine (asks_load _).bind fun loaded => ?_
        cases loaded <;> trivial

theorem asks_executeNftFromString (ruleset : Chars) : Asks (· ≠ showQuery) (executeNftFromString ruleset) := by
  refine (asks_ask nofun).bind fun written => ?_
  cases written with
  | error e => trivial
  | ok u =>
    refine (asks_load _).bind fun loaded => (asks_ask nofun).bind fun removed => ?_
    cases loaded <;> trivial

/-! ## An apply -/

/-- What an apply that succeeded comes to. -/
inductive Applied (h : NftHost nft) (rules : List Rule) (es : List Exchange) : NftHost nft → Prop where
  /-- The unit's file is known, and everything is in place. -/
  | installed {h₁ : NftHost nft} {bootPath ruleset text : Chars} {tables : Tables nft.Content}
      (hrender : renderRuleset rules = .ok ruleset) (hsame : SameButScratch h h₁)
      (hnames : ∀ path, NamesBootFile es path ↔ path = bootPath)
      (htext : (installedFiles h₁ bootPath ruleset).file hardenerRulesetPath = some text)
      (hload : nft.load (installedFiles h₁ bootPath ruleset).file text h₁.loaded = some tables) :
      Applied h rules es { installedFiles h₁ bootPath ruleset with loaded := tables }
  /-- It is not, and the ruleset is loaded alone. -/
  | live {h' : NftHost nft} (hnone : ∀ path, ¬ NamesBootFile es path)
      (hfile : ∀ path, path ≠ nftablesCheckPath → h'.file path = h.file path) : Applied h rules es h'

theorem run_applied {rules : List Rule} {es : List Exchange} {changes : List Change}
    (hr : Run (Nftables.applyRules rules) es (.ok changes)) {h : NftHost nft} (hh : HonestRun nft h es) :
    Applied h rules es (after (react (tools nft)) h es) := by
  unfold Nftables.applyRules at hr
  split at hr
  · cases (run_pure.mp hr).2
  · next ruleset hrender =>
    obtain ⟨es₁, checked, es₂, rfl, h₁, h₂⟩ := run_bind.mp hr
    cases checked with
    | error e => cases (run_pure.mp h₂).2
    | ok u =>
      obtain ⟨es₃, existing, es₄, rfl, h₃, h₄⟩ := run_bind.mp h₂
      obtain ⟨es₅, probed, es₆, rfl, h₅, h₆⟩ := run_bind.mp h₄
      have hsame := run_checked h₁ h
      have hinert₃ : ∀ h : NftHost nft, after (react (tools nft)) h es₃ = h := after_inert (asks_existingInputRules rfl) h₃
      have hinert₅ : ∀ h : NftHost nft, after (react (tools nft)) h es₅ = h := after_inert asks_bootRuleset h₅
      obtain ⟨-, hh⟩ := honestRun_append.mp hh
      obtain ⟨-, hh⟩ := honestRun_append.mp hh
      obtain ⟨-, hh⟩ := honestRun_append.mp hh
      rw [hinert₃, hinert₅] at hh
      rw [after_append, after_append, after_append, hinert₃, hinert₅]
      have hnames : ∀ path, ¬ NamesBootFile es₆ path →
          (NamesBootFile (es₁ ++ (es₃ ++ (es₅ ++ es₆))) path ↔ probed.loads = .ok path) := by
        intro path hafter
        have hbefore := not_namesBootFile (asks_refuseARuleset ruleset) h₁ path
        have hlist := not_namesBootFile (asks_existingInputRules nofun) h₃ path
        rw [namesBootFile_append, namesBootFile_append, namesBootFile_append, run_bootRuleset h₅ path]
        simp [hbefore, hlist, hafter]
      cases hloads : probed.loads with
      | error why =>
        rw [hloads] at h₆
        obtain ⟨es₇, live, es₈, rfl, h₇, h₈⟩ := run_bind.mp h₆
        cases live with
        | error e => cases (run_pure.mp h₈).2
        | ok u =>
          obtain ⟨rfl, -⟩ := run_pure.mp h₈
          rw [List.append_nil] at hnames ⊢
          refine .live (fun path hnamed => ?_) fun path hne =>
            (run_executeNftFromString h₇ _ hne).trans (hsame.file path hne)
          rw [hnames path (not_namesBootFile (asks_executeNftFromString ruleset) h₇ path), hloads] at hnamed
          cases hnamed
      | ok bootPath =>
        rw [hloads] at h₆
        obtain ⟨es₇, installed, es₈, rfl, h₇, h₈⟩ := run_bind.mp h₆
        cases installed with
        | error e => cases (run_pure.mp h₈).2
        | ok u =>
          obtain ⟨rfl, -⟩ := run_pure.mp h₈
          rw [List.append_nil] at hh hnames ⊢
          obtain ⟨text, tables, htext, hload, hafter⟩ := run_installRuleset h₇ hh
          rw [hafter]
          refine .installed hrender hsame (fun path => ?_) htext hload
          rw [hnames path (not_namesBootFile (asks_installRuleset bootPath ruleset) h₇ path), hloads]
          exact ⟨fun he => (Except.ok.inj he).symm, fun he => congrArg _ he.symm⟩

/-! ## What boots -/

/-- The files without the fragment. -/
def unfragmented (files : Files) : Files := Function.update files hardenerRulesetPath none

/-- A command that reads none of the files an apply writes. -/
def Elsewhere (nft : Nft) (bootPath : Chars) (c : nft.Command) : Prop :=
  ∀ files files' : Files,
    (∀ path, path ≠ bootPath → path ≠ hardenerRulesetPath → path ≠ nftablesCheckPath → files path = files' path) →
    nft.exec files c = nft.exec files' c

/-- A script whose commands are about other files, and spare the table of the plugin behind the
first place where the fragment is read in. -/
structure Hooked (nft : Nft) (bootPath : Chars) (pieces : List (Piece nft.Command)) : Prop where
  elsewhere : ∀ c, .command c ∈ pieces → Elsewhere nft bootPath c
  placed : ∀ (files : Files) (content : nft.Content), Placed (nft.exec files) (put content) pieces

/-- A boot file that the include works in. -/
structure Composes (nft : Nft) (h : NftHost nft) (bootPath : Chars) : Prop where
  /-- It is none of the files of the plugin. -/
  outside : ¬ InGlob bootPath ∧ bootPath ≠ nftablesCheckPath
  /-- The glob names nothing but the fragment. -/
  alone : ∀ path, InGlob path → (h.file path).isSome → path = hardenerRulesetPath
  /-- An include line that stands there stands well. -/
  present : HasInclude (bootText h bootPath) → ∀ pieces, nft.commands (bootText h bootPath) = some pieces → Hooked nft bootPath pieces
  /-- Where there is none, one can be appended. -/
  appended : ¬ HasInclude (bootText h bootPath) → nft.ready (bootText h bootPath) ∧
    ∀ pieces, nft.commands (bootText h bootPath) = some pieces → Hooked nft bootPath (pieces ++ [.hook])

/-- What is appended to a boot file, and what it loads. -/
structure BootsAsApplied (nft : Nft) (h h' : NftHost nft) (bootPath : Chars) : Prop where
  text : bootText h' bootPath = bootText h bootPath ∨
    ∃ separator, (separator = [] ∨ separator = ['\n']) ∧
      bootText h' bootPath = bootText h bootPath ++ separator ++ hardenerIncludeLine ++ ['\n']
  /-- The plugin's table is the one loaded live, and every other as the old text alone leaves it. -/
  boots : ∀ tables, nft.load (unfragmented h.file) (bootText h bootPath) nft.noTables = some tables →
    ∃ booted, nft.load h'.file (bootText h' bootPath) nft.noTables = some booted ∧
      booted hardenerTable = h'.loaded hardenerTable ∧ ∀ table, table ≠ hardenerTable → booted table = tables table
  /-- It still loads once a rollback has removed the fragment. -/
  undone : ∀ tables, nft.load (unfragmented h.file) (bootText h bootPath) nft.noTables = some tables →
    (nft.load (unfragmented h'.file) (bootText h' bootPath) nft.noTables).isSome
  again : ∀ (rules : List Rule) (es : List Exchange) (changes : List Change),
    Run (Nftables.applyRules rules) es (.ok changes) → HonestRun nft h' es →
    bootText (after (react (tools nft)) h' es) bootPath = bootText h' bootPath

theorem inGlob_hardenerRulesetPath : InGlob hardenerRulesetPath :=
  ⟨"50-linux-hardener".toList, by decide, by decide, by decide⟩

theorem not_inGlob_nftablesCheckPath : ¬ InGlob nftablesCheckPath := by
  rintro ⟨name, -, -, heq⟩
  have hhead : (nftablesCheckPath.take 2) = (hardenerRulesetDir ++ '/' :: name ++ ".nft".toList).take 2 := by rw [heq]
  rw [List.append_assoc, List.take_append_of_le_length (by decide)] at hhead
  exact absurd hhead (by decide)

variable {h : NftHost nft} {bootPath : Chars}

theorem Composes.ne_fragment (hc : Composes nft h bootPath) : bootPath ≠ hardenerRulesetPath :=
  fun heq => hc.outside.1 (heq ▸ inGlob_hardenerRulesetPath)

/-- The boot file's commands after the apply. -/
theorem Composes.commands_included (hl : nft.Lawful) (hc : Composes nft h bootPath) {pieces : List (Piece nft.Command)}
    (hpieces : nft.commands (bootText h bootPath) = some pieces) :
    ∃ pieces', nft.commands (included h bootPath) = some pieces' ∧ Hooked nft bootPath pieces' ∧
      ∀ (files : Files) (s : nft.State), run (nft.exec files) some pieces' s = run (nft.exec files) some pieces s := by
  rw [included, withIncludeLine_eq]
  split
  · next hinclude => exact ⟨pieces, hpieces, hc.present hinclude pieces hpieces, fun _ _ => rfl⟩
  · next hinclude =>
    obtain ⟨hready, hhooked⟩ := hc.appended hinclude
    have hcommands := hl.append hpieces hready
    have hplaced := hhooked pieces hpieces
    refine ⟨pieces ++ [.hook], ?_, hplaced, fun _ _ => ?_⟩
    · exact hcommands
    · exact run_concat_hook

/-- Files that an apply left: all as they were but for its own. -/
structure Left (h : NftHost nft) (bootPath : Chars) (files : Files) : Prop where
  file : ∀ path, path ≠ bootPath → path ≠ hardenerRulesetPath → path ≠ nftablesCheckPath → files path = h.file path

theorem Left.matching (hl : nft.Lawful) (hc : Composes nft h bootPath) {files : Files} (hleft : Left h bootPath files) :
    nft.matching files = if (files hardenerRulesetPath).isSome then [hardenerRulesetPath] else [] := by
  refine hl.matching fun path hglob hsome => ?_
  by_contra hne
  rw [hleft.file path (fun heq => hc.outside.1 (heq ▸ hglob)) hne (fun heq => not_inGlob_nftablesCheckPath (heq ▸ hglob))] at hsome
  exact hne (hc.alone path hglob hsome)

/-- The old text alone. -/
theorem loadAt_bootText (hl : nft.Lawful) (hc : Composes nft h bootPath) (depth : Nat) (s : nft.State) :
    nft.loadAt (depth + 1) (unfragmented h.file) (bootText h bootPath) s =
      (nft.commands (bootText h bootPath)).bind fun pieces => run (nft.exec (unfragmented h.file)) some pieces s := by
  have hleft : Left h bootPath (unfragmented h.file) := ⟨fun path _ hne _ => Function.update_of_ne hne ..⟩
  have hnone : unfragmented h.file hardenerRulesetPath = none := Function.update_self ..
  rw [Nft.loadAt, hleft.matching hl hc, hnone]
  rfl

/-- The new text loads what the old one does, and the fragment where it is there. -/
theorem loadAt_included (hl : nft.Lawful) (hc : Composes nft h bootPath) {files : Files} (hleft : Left h bootPath files)
    {depth : Nat} {s s' : nft.State} (hold : nft.loadAt (depth + 1) (unfragmented h.file) (bootText h bootPath) s = some s') :
    (files hardenerRulesetPath = none → nft.loadAt (depth + 1) files (included h bootPath) s = some s') ∧
    ∀ ruleset content, files hardenerRulesetPath = some ruleset →
      (∀ s, nft.loadAt depth files ruleset s = some (put content s)) →
      nft.loadAt (depth + 1) files (included h bootPath) s = some (put content s') := by
  rw [loadAt_bootText hl hc] at hold
  obtain ⟨pieces, hpieces, hrun⟩ := Option.bind_eq_some_iff.mp hold
  obtain ⟨pieces', hpieces', hhooked, hsame⟩ := hc.commands_included hl hpieces
  -- The commands do what they did: none reads a file of the plugin.
  have helsewhere : run (nft.exec files) some pieces' s = some s' := by
    rw [← hrun, ← hsame]
    refine run_congr fun c hmem => hhooked.elsewhere c hmem files _ fun path hboot hfragment hscratch => ?_
    rw [hleft.file path hboot hfragment hscratch]
    exact (Function.update_of_ne hfragment ..).symm
  constructor
  · intro hnone
    rw [Nft.loadAt, hleft.matching hl hc, hnone, hpieces']
    exact helsewhere
  · intro ruleset content hfragment hload
    rw [Nft.loadAt, hleft.matching hl hc, hfragment, hpieces']
    have hhook : (fun s => [hardenerRulesetPath].foldlM (fun s path => nft.loadAt depth files ((files path).getD []) s) s) =
        fun s => some (put content s) := by
      funext s
      rw [List.foldlM_cons, hfragment, Option.getD_some, hload]
      rfl
    change run (nft.exec files) (fun s => [hardenerRulesetPath].foldlM (fun s path => nft.loadAt depth files ((files path).getD []) s) s)
      pieces' s = _
    rw [hhook, run_placed (put_put content) (hhooked.placed files content), helsewhere]
    rfl

theorem bootText_congr {h' : NftHost nft} {path : Chars} (hfile : h'.file path = h.file path) : bootText h' path = bootText h path :=
  congrArg (Option.getD · []) hfile

theorem bootText_setFile {path content : Chars} : bootText (h.setFile path (some content)) path = content :=
  congrArg (Option.getD · []) (Host.file_setFile path _ h)

/-- What is left of an apply where the unit names a boot file that the include works in. -/
structure Composed (nft : Nft) (h h' : NftHost nft) (bootPath : Chars) : Prop where
  left : Left h bootPath h'.file
  text : bootText h' bootPath = included h bootPath
  fragment : ∃ ruleset content, h'.file hardenerRulesetPath = some ruleset ∧ h'.loaded hardenerTable = some content ∧
    ∀ depth files s, nft.loadAt (depth + 1) files ruleset s = some (put content s)

theorem Applied.composed (hl : nft.Lawful) {config : PluginConfig} {es : List Exchange} {h' : NftHost nft}
    (happlied : Applied h (buildRules config).1 es h') (hnames : NamesBootFile es bootPath) (hc : Composes nft h bootPath) :
    Composed nft h h' bootPath := by
  cases happlied with
  | live hnone hfile => exact absurd hnames (hnone bootPath)
  | @installed h₁ named ruleset text tables hrender hsame hpath htext hload =>
    obtain rfl : bootPath = named := (hpath bootPath).mp hnames
    have hfragment : (installedFiles h₁ bootPath ruleset).file hardenerRulesetPath = some ruleset :=
      (file_setFile_ne hc.ne_fragment.symm _).trans (Host.file_setFile ..)
    obtain rfl : ruleset = text := Option.some.inj (hfragment.symm.trans htext)
    have hold : bootText (h₁.setFile hardenerRulesetPath (some ruleset)) bootPath = bootText h bootPath :=
      bootText_congr ((file_setFile_ne hc.ne_fragment _).trans (hsame.file bootPath hc.outside.2))
    refine ⟨⟨fun path hboot hfragment hscratch => ?_⟩, ?_, ?_⟩
    · exact ((file_setFile_ne hboot _).trans (file_setFile_ne hfragment _)).trans (hsame.file path hscratch)
    · exact bootText_setFile.trans (congrArg (withIncludeLine · hardenerIncludeLine) hold)
    · obtain ⟨s', hloadAt, hs'⟩ := Option.map_eq_some_iff.mp hload
      obtain ⟨content, hcontent⟩ := hl.fragment hrender hloadAt
      refine ⟨ruleset, content, hfragment, ?_, hcontent⟩
      rw [← hs', ← Option.some.inj ((hcontent _ _ _).symm.trans hloadAt)]
      exact put_hardenerTable content (nft.noSymbols, h₁.loaded)

/-- A boot file with the line in it stays as it is. -/
theorem Applied.bootText_eq {rules : List Rule} {es : List Exchange} {h' : NftHost nft} (happlied : Applied h rules es h')
    (hfragment : bootPath ≠ hardenerRulesetPath) (hscratch : bootPath ≠ nftablesCheckPath)
    (hinclude : HasInclude (bootText h bootPath)) : bootText h' bootPath = bootText h bootPath := by
  cases happlied with
  | live hnone hfile => exact bootText_congr (hfile bootPath hscratch)
  | @installed h₁ named ruleset text tables hrender hsame hpath htext hload =>
    have hold : (h₁.setFile hardenerRulesetPath (some ruleset)).file bootPath = h.file bootPath :=
      (file_setFile_ne hfragment _).trans (hsame.file bootPath hscratch)
    by_cases hnamed : bootPath = named
    · subst hnamed
      refine bootText_setFile.trans ?_
      rw [included, bootText_congr hold, withIncludeLine_eq]
      exact if_pos hinclude
    · exact bootText_congr ((file_setFile_ne hnamed _).trans hold)

theorem Composed.bootsAsApplied (hl : nft.Lawful) {h' : NftHost nft} (hc : Composes nft h bootPath)
    (hcomposed : Composed nft h h' bootPath) : BootsAsApplied nft h h' bootPath := by
  obtain ⟨hleft, htext, ruleset, content, hfile, hloaded, hcontent⟩ := hcomposed
  refine ⟨?_, fun tables hold => ?_, fun tables hold => ?_, fun rules es changes hr hh => ?_⟩
  · rw [htext, included, withIncludeLine_eq]
    split
    · exact .inl rfl
    · refine .inr ⟨separator (bootText h bootPath), ?_, rfl⟩
      unfold separator
      split
      · exact .inl rfl
      · exact .inr rfl
  · obtain ⟨s', hload, rfl⟩ := Option.map_eq_some_iff.mp hold
    have hboots := (loadAt_included hl hc hleft hload).2 ruleset content hfile (hcontent _ _)
    refine ⟨(put content s').2, ?_, ?_, fun table hne => Function.update_of_ne hne ..⟩
    · rw [htext, Nft.load]
      exact congrArg (Option.map Prod.snd) hboots
    · exact (put_hardenerTable ..).trans hloaded.symm
  · obtain ⟨s', hload, rfl⟩ := Option.map_eq_some_iff.mp hold
    have hleft' : Left h bootPath (unfragmented h'.file) := by
      refine ⟨fun path hboot hfragment hscratch => ?_⟩
      rw [← hleft.file path hboot hfragment hscratch]
      exact Function.update_of_ne hfragment ..
    have hstill := (loadAt_included hl hc hleft' hload).1 (Function.update_self ..)
    rw [htext, Nft.load]
    exact Option.isSome_iff_exists.mpr ⟨s'.2, congrArg (Option.map Prod.snd) hstill⟩
  · refine (run_applied hr hh).bootText_eq hc.ne_fragment hc.outside.2 ?_
    rw [htext]
    exact hasInclude_withIncludeLine _

inductive PlainCommand where
  | define (text : Chars)
  | flush

def includeFile : Chars := hardenerIncludeLine ++ ['\n']

/-- The administrator moved the include up, or added the flush below it. -/
def flushedFile : Chars := hardenerIncludeLine ++ "\nflush ruleset\n".toList

def ownHead : Chars := "table inet linux_hardener\ndelete table"

def plainCommands (text : Chars) : Option (List (Piece PlainCommand)) :=
  if text = [] then some []
  else if text = includeFile then some [.hook]
  else if text = flushedFile then some [.hook, .command .flush]
  else if ownHead.isPrefixOf text then some [.command (.define text)]
  else none

/-- What nft makes of these files, and of what the plugin renders; the content of a table is its text. -/
def plainNft : Nft where
  Command := PlainCommand
  Symbols := Unit
  Content := Chars
  noSymbols := ()
  commands := plainCommands
  exec _ c s :=
    match c with
    | .define text => some (put text s)
    | .flush => some (s.1, fun _ => none)
  matching files := if (files hardenerRulesetPath).isSome then [hardenerRulesetPath] else []
  ready text := text = []

set_option maxRecDepth 4000 in
theorem ownHead_isPrefixOf {rules : List Rule} {ruleset : Chars} (h : renderRuleset rules = .ok ruleset) :
    ownHead.isPrefixOf ruleset = true := by
  unfold renderRuleset at h
  cases hs : rules.mapM renderRule with
  | error e =>
    rw [hs] at h
    cases h
  | ok statements =>
    rw [hs] at h
    obtain rfl := Except.ok.inj h
    have hhead : ownHead = (_ : Chars) := String.toList_ofList
    rw [hhead, List.append_assoc]
    refine (congrArg (List.isPrefixOf _) (congrArg₂ List.append String.toList_ofList rfl)).trans ?_
    rfl

theorem commands_ruleset {ruleset : Chars} (h : ownHead.isPrefixOf ruleset = true) :
    plainCommands ruleset = some [.command (.define ruleset)] := by
  have hne : ∀ text, ownHead.isPrefixOf text = false → ruleset ≠ text := by
    rintro text htext rfl
    rw [htext] at h
    cases h
  rw [plainCommands, if_neg (hne _ rfl), if_neg (hne _ rfl), if_neg (hne _ rfl), if_pos h]

theorem lawful_plainNft : plainNft.Lawful where
  append := by
    intro text pieces hpieces hready
    obtain rfl : text = [] := hready
    cases hpieces
    rfl
  fragment := by
    intro config ruleset depth files s s' hrender _
    refine ⟨ruleset, fun depth files s => ?_⟩
    have hcommands : plainNft.commands ruleset = _ := commands_ruleset (ownHead_isPrefixOf hrender)
    rw [Nft.loadAt, hcommands]
    rfl
  matching _ := rfl

/-- An honest host's runs are honest. -/
theorem honestRun_play {α : Type} {respond : NftHost nft → (q : Query) → q.Answer}
    (hrespond : ∀ h q, Honest nft h ⟨q, respond h q⟩) (p : Session α) (h : NftHost nft) :
    HonestRun nft h (play respond (react (tools nft)) p h).1 := by
  induction p generalizing h with
  | done a => trivial
  | ask q next ih => exact ⟨hrespond h q, ih _ _⟩

def nftablesConf : Chars := "/etc/nftables.conf"

def shownUnit : Chars :=
  "ExecStart=\x7b path=/usr/sbin/nft ; argv[]=/usr/sbin/nft -f /etc/nftables.conf ; ignore_errors=no \x7d\n"

/-- A host that does as it is told, and whose unit loads `/etc/nftables.conf`. -/
def answers (h : NftHost plainNft) : (q : Query) → q.Answer
  | .execute _ args =>
    match args with
    | [_, path] =>
      let loads := (h.file path).bind fun text => plainNft.load h.file text h.loaded
      .ok ⟨[], [], if args.head? = some "-p".toList ∨ loads.isSome then 0 else 1⟩
    | _ => .ok (printed shownUnit)
  | .pathExists path => .ok (h.file path).isSome
  | .metadata _ => .error "No such file or directory"
  | .readFile path =>
    match h.file path with
    | some text => .ok text
    | none => .error "No such file or directory"
  | .readDir _ => .error "No such file or directory"
  | .writeFile _ _ => .ok ()
  | .checkpoint _ _ => .ok "1"

theorem honest_answers (h : NftHost plainNft) (q : Query) : Honest plainNft h ⟨q, answers h q⟩ := by
  cases q with
  | execute program args =>
    unfold answers
    dsimp only
    split
    · next flag path =>
      intro path' _ hargs hs
      cases hargs
      dsimp only [CommandOutput.success] at hs
      split at hs
      · next hor => exact hor.resolve_left fun hflag => absurd (Option.some.inj hflag) (by decide)
      · cases hs
    · next hargs =>
      intro path _ heq
      exact absurd heq (hargs _ _)
  | readFile path =>
    cases hfile : h.file path with
    | none =>
      rw [answers, hfile]
      trivial
    | some text =>
      rw [answers, hfile]
      exact hfile
  | pathExists path => exact rfl
  | metadata path => trivial
  | readDir path => trivial
  | writeFile path content => trivial
  | checkpoint name paths => trivial

def unconfigured : PluginConfig where
  directives _ := none
  exceptions _ := none

def hostWith (boot : Option Chars) : NftHost plainNft where
  enforcing _ := false
  wanted _ := false
  loaded _ := none
  file path := if path = nftablesConf then boot else none

def applied (boot : Option Chars) : List Exchange × Except RulesError (List Change) :=
  play answers (react (tools plainNft)) (Nftables.applyRules (buildRules unconfigured).1) (hostWith boot)

theorem run_applied_of_isSome (boot : Option Chars) (h : (applied boot).2.toOption.isSome = true) :
    ∃ changes, Run (Nftables.applyRules (buildRules unconfigured).1) (applied boot).1 (.ok changes) := by
  have hrun : Run (Nftables.applyRules (buildRules unconfigured).1) (applied boot).1 (applied boot).2 := run_play ..
  obtain ⟨changes, hchanges⟩ := Option.isSome_iff_exists.mp h
  cases hresult : (applied boot).2 with
  | error e =>
    rw [hresult] at hchanges
    cases hchanges
  | ok changes =>
    rw [hresult] at hrun
    exact ⟨changes, hrun⟩

theorem names_bare : NamesBootFile (applied none).1 nftablesConf := by
  have hget : (applied none).1[4]? = some ⟨showQuery, .ok (printed shownUnit)⟩ := by rfl
  exact ⟨printed shownUnit, List.mem_of_getElem? hget, by decide, by rfl⟩

theorem names_flushed : NamesBootFile (applied (some flushedFile)).1 nftablesConf := by
  have hget : (applied (some flushedFile)).1[4]? = some ⟨showQuery, .ok (printed shownUnit)⟩ := by rfl
  exact ⟨printed shownUnit, List.mem_of_getElem? hget, by decide, by rfl⟩

theorem composes_bare : Composes plainNft (hostWith none) nftablesConf where
  outside := by
    constructor
    · rintro ⟨name, -, -, heq⟩
      have hhead : nftablesConf.take 6 = (hardenerRulesetDir ++ '/' :: name ++ ".nft".toList).take 6 := by rw [heq]
      rw [List.append_assoc, List.take_append_of_le_length (by decide)] at hhead
      exact absurd hhead (by decide)
    · decide
  alone path _ hsome := by
    have hnone : (hostWith none).file path = none := ite_self none
    rw [hnone] at hsome
    cases hsome
  present hinclude := by cases hinclude
  appended _ := by
    refine ⟨rfl, fun pieces hpieces => ?_⟩
    cases hpieces
    exact ⟨nofun, fun files content => ⟨[], [], rfl, nofun⟩⟩

/-- What the run on a host without a boot file comes to. -/
theorem applied_bare : (applied none).2.toOption.isSome = true ∧
    ((after (react (tools plainNft)) (hostWith none) (applied none).1).loaded hardenerTable).isSome = true := by
  decide +kernel

/-- What the run on a host whose boot file ends with a flush comes to, live and at the next boot. -/
theorem applied_flushed : (applied (some flushedFile)).2.toOption.isSome = true ∧
    let h' := after (react (tools plainNft)) (hostWith (some flushedFile)) (applied (some flushedFile)).1
    (h'.loaded hardenerTable).isSome = true ∧
      ((plainNft.load h'.file (bootText h' nftablesConf) plainNft.noTables).bind (· hardenerTable)).isSome = false := by
  decide +kernel

end LinuxHardener.Firewall.Boot
