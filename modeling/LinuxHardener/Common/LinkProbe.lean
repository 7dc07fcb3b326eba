import LinuxHardener.Lib.Cut

/-
  The link probes (`hardener-common`, `executor/mod.rs`): where a path leads, asked through the
  shell.

  What the kernel tells a user of a path, by `lstat` and by `realpath`, is a parameter; so is
  whether the probe can be elevated and whether it runs to its end. The scripts are written
  out: what each command prints, and what a command substitution leaves of it.

  Correspondence (Rust and shell ↔ Lean):
    `normalise_probe_path`              ↔ `normaliseProbePath`
    `LINK_PROBE_SCRIPT`, its `inner`    ↔ `linkProbe`, `innerProbe`
    `$(...)`, `dirname`, `readlink -e -n`, `readlink -n` ↔ `substitution`, `dirname`, `readlinkExisting`, `readlinkStored`
    `parse_link_probe`                  ↔ `parseLinkProbe`
    `read_link`, `link_target_as_writer` ↔ `readLink`, `linkTargetAsWriter`

  What is proved:
    1. `parse_link` — what comes back of a target that went through two substitutions and the
       parser.
    2. `innerProbe_cases` — what is so of a path that the inner script answers about.
    3. `linkProbes_answer` — what an answer of either probe says of the path.
-/
namespace LinuxHardener.Common.LinkProbe

open LineText
open Text (isWhitespace trimStart trimEnd)

/-! ## The host -/

/-- What `lstat` tells a user. A path whose directory the user may not search is refused. -/
inductive Lstat where
  | link (target : Chars)
  | other
  | absent
  | refused
  deriving DecidableEq, Repr

/-- What the kernel tells one user of paths. -/
structure Answers where
  lstat : Chars → Lstat
  realpath : Chars → Option Chars
  absolute : ∀ {path resolved}, realpath path = some resolved → resolved.head? = some '/'

structure Output where
  stdout : Chars
  stderr : Chars
  exitCode : Int
  deriving DecidableEq, Repr

/-- A command that does not run to its end: no session, or an exit code that is none of its own. -/
inductive Failure where
  | transport (message : Chars)
  | exited (output : Output) (h : output.exitCode ≠ 0 ∧ output.exitCode ≠ 1)

structure Host where
  isRemote : Bool
  isRoot : Bool
  /-- `sudo -n` runs what it is given. -/
  elevates : Bool
  user : Answers
  root : Answers
  failure : Option Failure

def Host.execute (host : Host) (output : Output) : Except Chars Output :=
  match host.failure with
  | none => .ok output
  | some (.transport message) => .error message
  | some (.exited output _) => .ok output

/-! ## Commands -/

/-- `$(...)`: the line breaks at the end are dropped. -/
def substitution (s : Chars) : Chars := (s.reverse.dropWhile (· = '\n')).reverse

def trimEndSlashes (s : Chars) : Chars := (s.reverse.dropWhile (· = '/')).reverse

def dirname (path : Chars) : Chars :=
  match rsplitOnce '/' (trimEndSlashes path) with
  | some (dir, _) => if trimEndSlashes dir = [] then ['/'] else trimEndSlashes dir
  | none => if path.head? = some '/' then ['/'] else ['.']

/-- `readlink -n --` -/
def readlinkStored (answers : Answers) (path : Chars) : Output :=
  match answers.lstat path with
  | .link target => ⟨target, [], 0⟩
  | _ => ⟨[], [], 1⟩

/-- `readlink -e -n --` -/
def readlinkExisting (answers : Answers) (path : Chars) : Output :=
  match answers.realpath path with
  | some resolved => ⟨resolved, [], 0⟩
  | none => ⟨[], [], 1⟩

/-- `test -h` -/
def testLink (answers : Answers) (path : Chars) : Bool :=
  match answers.lstat path with
  | .link _ => true
  | _ => false

/-! ## The scripts -/

def undetermined : Chars := "UNDETERMINED".toList

def innerProbe (answers : Answers) (path : Chars) : Chars :=
  let d := substitution (dirname path ++ ['\n'])
  if (readlinkExisting answers d).exitCode ≠ 0 then undetermined
  else if testLink answers path then
    let t := readlinkExisting answers path
    if t.exitCode = 0 then "LINK ".toList ++ substitution t.stdout else undetermined
  else "NOTLINK".toList

/-- Who the inner script runs as, if it runs. -/
def Host.writer (host : Host) : Option Answers :=
  if host.isRoot then some host.root else if host.isRemote then (if host.elevates then some host.root else none) else some host.user

def linkProbe (host : Host) (path : Chars) : Output :=
  match host.writer with
  | some answers => ⟨substitution (innerProbe answers path), [], 0⟩
  | none => ⟨[], [], 0⟩

/-! ## The probes -/

def parseLinkProbe (stdout : Chars) : Except Chars (Option Chars) :=
  let answer := trim stdout
  if answer = "NOTLINK".toList then .ok none
  else match (stripStart "LINK ".toList answer).filter fun target => !target.isEmpty with
    | some target => .ok (some target)
    | none => .error ("could not determine whether the path is a symlink; the probe said ".toList ++ answer)

def normaliseProbePath (path : Chars) : Except Chars Chars :=
  let trimmed := trimEndSlashes path
  if trimmed = [] then .ok ['/']
  else
    let final := (trimmed.splitOn '/').getLast?.getD trimmed
    if final = ['.'] ∨ final = ['.', '.'] then
      .error ("the link probe refuses ".toList ++ trimmed ++
        ": a path whose final component is . or .. names no final component the probe can answer about".toList)
    else .ok trimmed

def linkTargetAsWriter (host : Host) (path : Chars) : Except Chars (Option Chars) := do
  let normalised ← normaliseProbePath path
  let output ← host.execute (linkProbe host normalised)
  if output.exitCode ≠ 0 then throw ("the link probe exited ".toList ++ signed output.exitCode ++ ": ".toList ++ trim output.stderr)
  parseLinkProbe output.stdout

def readLink (host : Host) (path : Chars) : Except Chars (Option Chars) := do
  let output ← host.execute (readlinkStored host.user path)
  if output.exitCode = 0 then return some (trim output.stdout)
  else if output.exitCode = 1 then return none
  else throw ("readlink ".toList ++ path ++ " exited ".toList ++ signed output.exitCode ++ ": ".toList ++ trim output.stderr)

/-! ## What comes back -/

theorem dropWhile_dropWhile {p q : Char → Bool} (h : ∀ c, p c = true → q c = true) (s : Chars) :
    (s.dropWhile p).dropWhile q = s.dropWhile q := by
  induction s with
  | nil => rfl
  | cons c s ih =>
    by_cases hc : p c = true
    · rw [List.dropWhile_cons_of_pos hc, ih, List.dropWhile_cons_of_pos (h c hc)]
    · rw [List.dropWhile_cons_of_neg hc]

theorem trimEnd_substitution (s : Chars) : trimEnd (substitution s) = trimEnd s := by
  have hblank : ∀ c, decide (c = '\n') = true → isWhitespace c = true := by
    intro c hc
    rw [of_decide_eq_true hc]
    rfl
  unfold trimEnd substitution
  rw [List.reverse_reverse, dropWhile_dropWhile hblank]

theorem trimEnd_ne_nil {resolved : Chars} (h : resolved.head? = some '/') : trimEnd resolved ≠ [] := by
  intro hnil
  obtain ⟨tail, rfl⟩ : ∃ tail, resolved = '/' :: tail := List.head?_eq_some_iff.mp h
  have hhead := head_trim_cons (c := '/') rfl tail
  rw [trim, trimStart_eq_self (fun c hc => by cases hc; rfl), hnil] at hhead
  cases hhead

/-- A target that has gone through both substitutions and the parser has lost the blanks at its end. -/
theorem parse_link {resolved : Chars} (h : resolved.head? = some '/') :
    parseLinkProbe (substitution ("LINK ".toList ++ substitution resolved)) = .ok (some (trimEnd resolved)) := by
  have hne := trimEnd_ne_nil h
  have hend : trimEnd (substitution ("LINK ".toList ++ substitution resolved)) = "LINK ".toList ++ trimEnd resolved := by
    rw [trimEnd_substitution, trimEnd_append (by rw [trimEnd_substitution]; exact hne), trimEnd_substitution]
  have hhead : ∀ c, (substitution ("LINK ".toList ++ substitution resolved)).head? = some c → isWhitespace c = false := by
    intro c hc
    obtain ⟨rest, hrest⟩ := trimEnd_isPrefix (substitution ("LINK ".toList ++ substitution resolved))
    rw [← hrest, hend] at hc
    cases hc
    rfl
  unfold parseLinkProbe
  rw [trim, trimStart_eq_self hhead, hend]
  have hstrip : stripStart "LINK ".toList ("LINK ".toList ++ trimEnd resolved) = some (trimEnd resolved) :=
    if_pos (List.isPrefixOf_iff_prefix.mpr (List.prefix_append _ _))
  have hfilter : (some (trimEnd resolved)).filter (fun target => !target.isEmpty) = some (trimEnd resolved) := by
    rw [Option.filter_some, List.isEmpty_eq_false_iff.mpr hne]
    rfl
  dsimp only
  rw [hstrip, hfilter]
  exact if_neg fun he => by cases he

/-! ## The answers -/

variable {host : Host} {path : Chars}

/-- A text that does not end in a line break comes out of a substitution as it is. -/
theorem substitution_line {s : Chars} (h : s.getLast? ≠ some '\n') : substitution (s ++ ['\n']) = s := by
  unfold substitution
  rw [List.reverse_append, List.reverse_singleton, List.singleton_append, List.dropWhile_cons_of_pos (by decide)]
  rw [← List.head?_reverse] at h
  cases hs : s.reverse with
  | nil => rw [List.reverse_eq_nil_iff.mp hs]; rfl
  | cons c rest =>
    have hc : c ≠ '\n' := fun he => h (by rw [hs, he]; rfl)
    rw [List.dropWhile_cons_of_neg (by simpa using hc), ← hs, List.reverse_reverse]

theorem testLink_iff {answers : Answers} : testLink answers path = true ↔ ∃ target, answers.lstat path = .link target := by
  unfold testLink
  cases answers.lstat path <;> simp

/-- What the parser makes of what the inner script prints. -/
theorem innerProbe_cases {answers : Answers} {result : Option Chars}
    (h : parseLinkProbe (substitution (innerProbe answers path)) = .ok result) :
    (answers.realpath (substitution (dirname path ++ ['\n']))).isSome = true ∧
      ((result = none ∧ ∀ target, answers.lstat path ≠ .link target) ∨
        ∃ target resolved, answers.lstat path = .link target ∧ answers.realpath path = some resolved ∧ result = some (trimEnd resolved)) := by
  have hundetermined : parseLinkProbe (substitution undetermined) ≠ .ok result := by
    intro he
    have hfixed : parseLinkProbe (substitution undetermined) =
        .error ("could not determine whether the path is a symlink; the probe said ".toList ++ undetermined) := by decide
    rw [hfixed] at he
    cases he
  unfold innerProbe readlinkExisting at h
  dsimp only at h
  cases hgate : answers.realpath (substitution (dirname path ++ ['\n'])) with
  | none =>
    rw [hgate] at h
    exact absurd h hundetermined
  | some resolvedDir =>
    rw [hgate, if_neg fun hexit => hexit rfl] at h
    refine ⟨rfl, ?_⟩
    split at h
    · next hlink =>
      obtain ⟨target, htarget⟩ := testLink_iff.mp hlink
      cases hresolved : answers.realpath path with
      | none =>
        rw [hresolved, if_neg (by decide)] at h
        exact absurd h hundetermined
      | some resolved =>
        rw [hresolved, if_pos rfl, parse_link (answers.absolute hresolved)] at h
        exact .inr ⟨target, resolved, htarget, rfl, (Except.ok.inj h).symm⟩
    · next hlink =>
      have hnot : parseLinkProbe (substitution "NOTLINK".toList) = .ok none := by decide
      rw [hnot] at h
      exact .inl ⟨(Except.ok.inj h).symm, fun target htarget => hlink (testLink_iff.mpr ⟨target, htarget⟩)⟩

theorem linkTarget_ok {result : Option Chars} (h : linkTargetAsWriter host path = .ok result) :
    ∃ p answers, normaliseProbePath path = .ok p ∧ host.writer = some answers ∧
      parseLinkProbe (substitution (innerProbe answers p)) = .ok result := by
  obtain ⟨p, hp, h⟩ := bind_eq_ok.mp h
  obtain ⟨output, houtput, h⟩ := bind_eq_ok.mp h
  split at h
  · cases h
  · next hexit =>
    unfold Host.execute at houtput
    split at houtput
    · cases houtput
      unfold linkProbe at h
      split at h
      · next answers hanswers => exact ⟨p, answers, hp, hanswers, h⟩
      · have hsilent : parseLinkProbe [] = .error "could not determine whether the path is a symlink; the probe said ".toList := by decide
        change parseLinkProbe [] = _ at h
        rw [hsilent] at h
        cases h
    · cases houtput
    · next output' hcode _ =>
      cases houtput
      exact absurd hcode.1 hexit

theorem readLink_ok {result : Option Chars} (h : readLink host path = .ok result) :
    (result = none ∧ ∀ target, host.user.lstat path ≠ .link target) ∨
      ∃ target, host.user.lstat path = .link target ∧ result = some (trim target) := by
  obtain ⟨output, houtput, h⟩ := bind_eq_ok.mp h
  unfold Host.execute at houtput
  split at houtput
  · cases houtput
    unfold readlinkStored at h
    cases hlstat : host.user.lstat path with
    | link target =>
      rw [hlstat] at h
      exact .inr ⟨target, rfl, (Except.ok.inj h).symm⟩
    | other | absent | refused =>
      rw [hlstat] at h
      exact .inl ⟨(Except.ok.inj h).symm, fun _ he => by cases he⟩
  · cases houtput
  · next output' hcode _ =>
    cases houtput
    rw [if_neg hcode.1, if_neg hcode.2] at h
    cases h

/-- What an answer of either probe says. The asker may have been refused a look at a path that is
not called a link, and what has blanks at an end may have lost them. -/
theorem linkProbes_answer (host : Host) (path : Chars) :
    (∀ result, linkTargetAsWriter host path = .ok result →
      ∃ p answers, normaliseProbePath path = .ok p ∧ host.writer = some answers ∧
        ((result = none ∧ (answers.lstat p = .other ∨ (answers.lstat p = .absent ∨ answers.lstat p = .refused) ∧
            ((dirname p).getLast? ≠ some '\n' → (answers.realpath (dirname p)).isSome = true))) ∨
          ∃ t target resolved, result = some t ∧ answers.lstat p = .link target ∧ answers.realpath p = some resolved ∧
            (trimEnd resolved = resolved → t = resolved))) ∧
    ∀ result, readLink host path = .ok result →
      (result = none ∧ (host.user.lstat path ≠ .refused → host.user.lstat path = .other ∨ host.user.lstat path = .absent)) ∨
        ∃ t target, result = some t ∧ host.user.lstat path = .link target ∧ (trim target = target → t = target) := by
  constructor
  · intro result h
    obtain ⟨p, answers, hp, hanswers, hparse⟩ := linkTarget_ok h
    obtain ⟨hgate, hcases⟩ := innerProbe_cases hparse
    refine ⟨p, answers, hp, hanswers, ?_⟩
    rcases hcases with ⟨rfl, hnot⟩ | ⟨target, resolved, htarget, hresolved, rfl⟩
    · have hparent : (dirname p).getLast? ≠ some '\n' → (answers.realpath (dirname p)).isSome = true := by
        intro hline
        rwa [substitution_line hline] at hgate
      refine .inl ⟨rfl, ?_⟩
      cases hlstat : answers.lstat p with
      | link target => exact absurd hlstat (hnot target)
      | other => exact .inl rfl
      | absent => exact .inr ⟨.inl rfl, hparent⟩
      | refused => exact .inr ⟨.inr rfl, hparent⟩
    · exact .inr ⟨_, target, resolved, rfl, htarget, hresolved, fun hends => hends⟩
  · intro result h
    rcases readLink_ok h with ⟨rfl, hnot⟩ | ⟨target, htarget, rfl⟩
    · refine .inl ⟨rfl, fun hseen => ?_⟩
      cases hlstat : host.user.lstat path with
      | link target => exact absurd hlstat (hnot target)
      | other => exact .inl rfl
      | absent => exact .inr rfl
      | refused => exact absurd hlstat hseen
    · exact .inr ⟨_, target, rfl, htarget, fun hends => hends⟩

/-- A user who may not search `/locked`, and a link whose target ends in a blank. -/
def oddAnswers : Answers where
  lstat path :=
    if path = "/locked/link".toList then .refused else if path = "/odd".toList then .link "/target ".toList else .other
  realpath path := if path = "/odd".toList then some "/target ".toList else if path = "/".toList ∨ path = "/locked".toList then some path else none
  absolute {path resolved} h := by
    split at h
    · cases h
      rfl
    · split at h
      · next hpath =>
        cases h
        rcases hpath with rfl | rfl <;> rfl
      · cases h

def oddHost : Host := ⟨false, false, false, oddAnswers, oddAnswers, none⟩

theorem linkProbes_answer_odd : linkTargetAsWriter oddHost "/plain".toList = .ok none ∧
    ∃ p answers, normaliseProbePath "/plain".toList = .ok p ∧ oddHost.writer = some answers ∧ ∀ target, answers.lstat p ≠ .link target := by
  have hanswer : linkTargetAsWriter oddHost "/plain".toList = .ok none := by decide
  obtain ⟨p, answers, hp, hanswers, hcases⟩ := (linkProbes_answer oddHost "/plain".toList).1 none hanswer
  refine ⟨hanswer, p, answers, hp, hanswers, fun target htarget => ?_⟩
  rcases hcases with ⟨-, hother | ⟨hlstat, -⟩⟩ | ⟨t, _, _, he, -⟩
  · rw [htarget] at hother
    cases hother
  · rcases hlstat with hlstat | hlstat <;> rw [htarget] at hlstat <;> cases hlstat
  · cases he

/-- Where the asker may not look the answer is "not a link", and a target is cut. -/
theorem probes_overanswer :
    (linkTargetAsWriter oddHost "/locked/link".toList = .ok none ∧ oddHost.user.lstat "/locked/link".toList = .refused) ∧
      (linkTargetAsWriter oddHost "/odd".toList = .ok (some "/target".toList) ∧ oddHost.user.realpath "/odd".toList = some "/target ".toList) ∧
      (readLink oddHost "/locked/link".toList = .ok none) := by
  decide

end LinuxHardener.Common.LinkProbe
