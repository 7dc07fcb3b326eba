import LinuxHardener.Common.FileUtils
import LinuxHardener.Ssh.GlobMatches
import Mathlib.Data.List.Sort

/-
  Resolving `Include` directives in sshd_config (`hardener-plugins`, `ssh/include.rs`).

  | Source                                | Here                               |
  |---------------------------------------|------------------------------------|
  | `ResolvedConfig::effective`           | `ResolvedConfig.effective`         |
  | `ResolvedConfig::effective_without`   | `ResolvedConfig.effectiveWithout`  |
  | `ResolvedConfig::first_value`         | `ResolvedConfig.firstValue`        |
  | `include_patterns`                    | `includePatterns`                  |
  | `pattern_is_supported`                | `patternIsSupported`               |
  | `relative_base`, `absolute_pattern`   | `relativeBase`, `absolutePattern`  |
  | `expand_pattern`                      | `expandPattern`                    |
  | `resolve`, `expand_into`              | `resolve`, `expandInto`            |
  | `Path::parent`, `Path::file_name`     | `parent`, `fileName`               |
-/
namespace LinuxHardener.Ssh

open Text LineText Glob Common

abbrev FilePath := Chars

/-- The part of an executor that only reads. A directory is listed by the names of its
entries, each of them once. -/
structure Reader where
  pathExists : FilePath → Except String Bool
  readDir : FilePath → Except String (List Chars)
  readFile : FilePath → Except String Chars
  nodup : ∀ d names, readDir d = .ok names → names.Nodup

/-! ## Paths -/

/-- A path read from its end, without the separators and `.` components there. -/
def trimRight : Chars → Chars
  | '/' :: cs => trimRight cs
  | '.' :: '/' :: cs => trimRight cs
  | cs => cs

/-- The last component of an absolute path, and what stands before it. -/
def splitLast (path : FilePath) : Option (FilePath × Chars) :=
  let reversed := trimRight path.reverse
  let last := reversed.takeWhile (· != '/')
  if last = [] then none
  else
    let before := trimRight (reversed.dropWhile (· != '/'))
    some (if before = [] then ['/'] else before.reverse, last.reverse)

/-- `Path::parent`, of an absolute path. -/
def parent (path : FilePath) : Option FilePath := (splitLast path).map (·.1)

/-- `Path::file_name`, of an absolute path. -/
def fileName (path : FilePath) : Option Chars :=
  match splitLast path with
  | none => none
  | some (_, name) => if name = "..".toList then none else some name

/-- `Path::join`, of a relative path. -/
def joinPath (dir name : Chars) : FilePath :=
  if dir.getLast? = some '/' then dir ++ name else dir ++ '/' :: name

/-! ## Resolved configurations -/

/-- sshd stops following nested includes at this depth. -/
def maxIncludeDepth : Nat := 16

/-- Relative include paths are resolved against this directory. -/
def sshConfigDir : FilePath := "/etc/ssh".toList

/-- Where one directive's effective value comes from. -/
structure EffectiveValue where
  value : Chars
  source : FilePath
  deriving DecidableEq, Repr

/-- A file's path, and the part of its text between two of its Include lines. -/
abbrev Segment := FilePath × Chars

/-- sshd_config as sshd processes it: the main file with each `Include` replaced, in
place, by the files it names. -/
structure ResolvedConfig where
  segments : List Segment
  deriving DecidableEq, Repr

/-- What one segment supplies for a directive. -/
def segmentValue (directive : Chars) (segment : Segment) : Option EffectiveValue :=
  (scopedValue directive segment.2).map (fun value => ⟨value, segment.1⟩)

/-- The first segment satisfying `considered` that supplies the directive. -/
def ResolvedConfig.firstValue (resolved : ResolvedConfig) (directive : Chars) (considered : FilePath → Bool) :
    Option EffectiveValue :=
  (resolved.segments.filter (fun segment => considered segment.1)).findSome? (segmentValue directive)

/-- The effective global value for a directive, and the file it comes from. -/
def ResolvedConfig.effective (resolved : ResolvedConfig) (directive : Chars) : Option EffectiveValue :=
  resolved.firstValue directive (fun _ => true)

/-- The effective global value a directive would have if one file were not there. -/
def ResolvedConfig.effectiveWithout (resolved : ResolvedConfig) (directive : Chars) (ignored : FilePath) :
    Option EffectiveValue :=
  resolved.firstValue directive (fun path => path != ignored)

/-! ## Include lines -/

def includeKeyword : Chars := "Include".toList

/-- The `Include` patterns on a line, or `none` when it is not a live `Include`. -/
def includePatterns (line : Chars) : Option (List Chars) :=
  let trimmed := trim line
  if isComment trimmed then none
  else
    match words trimmed with
    | [] => none
    | keyword :: patterns =>
      if eqIgnoreCase keyword includeKeyword ∧ patterns ≠ [] then some patterns else none

/-- Whether this module can expand a pattern faithfully. -/
def patternIsSupported (pattern : Chars) : Bool := !pattern.contains '[' && !pattern.contains ']'

/-- Whether a relative include can be resolved for the file containing it. -/
def relativeBase (including : FilePath) : Option FilePath :=
  if "/etc/".toList.isPrefixOf including then some sshConfigDir else none

def isAbsolute (path : Chars) : Bool := path.head? == some '/'

/-- Absolute form of an include pattern. -/
def absolutePattern (pattern : Chars) (including : FilePath) : Option FilePath :=
  if isAbsolute pattern then some pattern else (relativeBase including).map (joinPath · pattern)

/-- The entries of a directory a pattern matches, in lexical order. The paths share
their directory, so their order is that of the names. -/
def matchedEntries (dir : FilePath) (filePattern : Chars) (names : List Chars) : List FilePath :=
  ((names.filter (globMatches filePattern)).insertionSort (· ≤ ·)).map (joinPath dir)

/-- The files a pattern names, in the lexical order sshd processes them. -/
def expandPattern (reader : Reader) (pattern : Chars) (including : FilePath) : Except String (List FilePath) :=
  let patternText := String.ofList pattern
  let includingText := String.ofList including
  if !patternIsSupported pattern then
    .error s!"Include pattern {patternText} uses a character class, which this tool cannot expand; check it by hand with `sshd -T`"
  else
    match absolutePattern pattern including with
    | none =>
      .error s!"The relative Include pattern {patternText} in {includingText} resolves against sshd's compiled sysconfdir, which this tool cannot read for a file outside /etc; check it by hand with `sshd -T`"
    | some absolute =>
      let absoluteText := String.ofList absolute
      if !hasWildcard pattern then
        match reader.pathExists absolute with
        | .ok true => .ok [absolute]
        | .ok false => .ok []
        | .error e => .error s!"Cannot determine whether the included file {absoluteText} exists: {e}"
      else
        match parent absolute, fileName absolute with
        | some directory, some name =>
          let directoryText := String.ofList directory
          match reader.readDir directory with
          | .error e => .error s!"Cannot list {directoryText} to expand the Include pattern {patternText}: {e}"
          | .ok entries => .ok (matchedEntries directory name entries)
        | _, _ => .error s!"Include pattern {patternText} has no directory to search"

/-! ## The walk -/

section

variable (reader : Reader) (below : FilePath → Chars → Except String (List Segment))

/-- Appends one included file and everything it includes. -/
def appendFile (segments : List Segment) (file : FilePath) : Except String (List Segment) := do
  let fileText := String.ofList file
  let content ← (reader.readFile file).mapError (fun e => s!"Cannot read the included file {fileText}: {e}")
  let included ← below file content
  return segments ++ included

/-- Appends the files one pattern names. -/
def appendPattern (path : FilePath) (segments : List Segment) (pattern : Chars) : Except String (List Segment) := do
  let included ← expandPattern reader pattern path
  included.foldlM (appendFile reader below) segments

/-- The lines above an Include become a segment of their own. -/
def flush (path : FilePath) (pending : Chars) (segments : List Segment) : List Segment :=
  if pending = [] then segments else segments ++ [(path, pending)]

/-- A line joins the lines above it, or is replaced by the files it names. -/
def expandLine (path : FilePath) (state : List Segment × Chars) (line : Chars) :
    Except String (List Segment × Chars) :=
  match includePatterns line with
  | none => .ok (state.1, state.2 ++ (line ++ ['\n']))
  | some patterns => do
    let segments ← patterns.foldlM (appendPattern reader below path) (flush path state.2 state.1)
    return (segments, [])

end

/-- Appends this file and, in place, everything it includes. -/
def expandInto (reader : Reader) : Nat → FilePath → Chars → Except String (List Segment)
  | 0, path, _ =>
    let pathText := String.ofList path
    .error s!"Include nesting exceeded {maxIncludeDepth} levels at {pathText}; this is a loop rather than a configuration"
  | depth + 1, path, content => do
    let state ← (lines content).foldlM (expandLine reader (expandInto reader depth) path) ([], [])
    return flush path state.2 state.1

/-- Reads sshd_config and every file it includes, in sshd's processing order. -/
def resolve (reader : Reader) (mainPath : FilePath) (mainContent : Chars) : Except String ResolvedConfig := do
  let segments ← expandInto reader maxIncludeDepth mainPath mainContent
  return ⟨segments⟩

end LinuxHardener.Ssh
