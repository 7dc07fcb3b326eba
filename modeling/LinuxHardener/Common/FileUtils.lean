import LinuxHardener.Lib.LineText

/-
  Reading and setting directives in configuration files (`hardener-common`,
  `file_utils.rs`).

  | Source                   | Here                  |
  |--------------------------|-----------------------|
  | `split_directive`        | `splitDirective`      |
  | `global_scope`           | `globalScope`         |
  | `parse_config_value`     | `parseConfigValue`    |
  | `strip_prefix_with_case` | `stripPrefixWithCase` |
  | `set_config_directive`   | `setConfigDirective`  |
  | `line_terminator`        | `lineTerminator`      |

  What is proved:
    1. `parse_globalScope` — a directive read from the global scope is its first
       definition above the first live `Match` line.
    2. `scopedValue_pending` — the same of a text put together line by line.
-/
namespace LinuxHardener.Common

open Text LineText

/-- Configuration file format for parsing. -/
inductive ConfigFormat where
  | spaceSeparated
  | keyValue
  | auto
  deriving DecidableEq, Repr

/-- Whether a second definition of the same directive is meaningful in this file. -/
inductive Duplicates where
  | keep
  | remove
  deriving DecidableEq, Repr

def matchKeyword : Chars := "Match".toList

/-- Where a key ends. -/
def endsKey (c : Char) : Bool := isWhitespace c || c == '='

/-- A configuration line as its key and the text of its value. -/
def splitDirective (line : Chars) : Chars × Chars :=
  let key := line.takeWhile (fun c => !endsKey c)
  let rest := trimStart (line.dropWhile (fun c => !endsKey c))
  match rest with
  | '=' :: value => (key, trimStart value)
  | rest => (key, rest)

/-- A commented line, blanks in front of the `#` or not. -/
def isComment (trimmed : Chars) : Bool := trimmed.head? == some '#'

/-- A live `Match` line. -/
def opensMatch (line : Chars) : Bool :=
  let trimmed := trim line
  !isComment trimmed && eqIgnoreCase (splitDirective trimmed).1 matchKeyword

/-- The part of an sshd_config that applies to every connection: everything above the
first live `Match` line. -/
def globalScope (content : Chars) : Chars :=
  ((splitInclusive content).takeWhile (fun line => !opensMatch line)).flatten

/-- Strips a name from the front of a line, under the chosen comparison. -/
def stripPrefixWithCase (s name : Chars) (caseSensitive : Bool) : Option Chars :=
  if caseSensitive then
    (if name.isPrefixOf s then some (s.drop name.length) else none)
  else if name.length ≤ s.length ∧ eqIgnoreCase (s.take name.length) name then some (s.drop name.length)
  else none

/-- Whether a key is the directive asked for. -/
def keyMatches (caseSensitive : Bool) (key name : Chars) : Bool :=
  if caseSensitive then key == name else eqIgnoreCase key name

/-- The value a `Key Value` line gives a directive. -/
def spaceSeparatedValue (caseSensitive : Bool) (name trimmed : Chars) : Option Chars :=
  let (key, valueText) := splitDirective trimmed
  if keyMatches caseSensitive key name then (words valueText).head? else none

/-- The value a `Key = Value` line gives a directive. -/
def keyValueValue (caseSensitive : Bool) (name trimmed : Chars) : Option Chars :=
  match stripPrefixWithCase trimmed name caseSensitive with
  | none => none
  | some stripped =>
    match trimStart stripped with
    | '=' :: value => some (trim value)
    | _ => if stripped.head?.any isWhitespace then (words stripped).head? else none

/-- What a live line gives a directive. -/
def lineValue (value : Chars → Option Chars) (line : Chars) : Option Chars :=
  let trimmed := trim line
  if trimmed = [] ∨ isComment trimmed then none else value trimmed

/-- A directive's value in a file's content. `auto` tries `Key = Value` first, once it
meets a live line. -/
def parseConfigValue (content name : Chars) (format : ConfigFormat) (caseSensitive : Bool) : Option Chars :=
  match format with
  | .spaceSeparated => (lines content).findSome? (lineValue (spaceSeparatedValue caseSensitive name))
  | .keyValue => (lines content).findSome? (lineValue (keyValueValue caseSensitive name))
  | .auto =>
    match (lines content).findSome? (lineValue (keyValueValue caseSensitive name)) with
    | some v => some v
    | none => (lines content).findSome? (lineValue (spaceSeparatedValue caseSensitive name))

/-! ## The writer -/

/-- The terminator a line carries: CRLF, LF, or nothing at all. -/
def lineTerminator (line : Chars) : Chars :=
  if line.getLast? = some '\n' then
    (if line.dropLast.getLast? = some '\r' then ['\r', '\n'] else ['\n'])
  else []

/-- What the scan over a file has found of a directive. -/
structure Occurrences where
  live : Option Nat
  commented : Option Nat
  extra : List Nat
  boundary : Option Nat
  deriving DecidableEq, Repr

/-- A line as the writer looks at it: `none` when it names no key. -/
def lineKey (line : Chars) : Option (Bool × Chars) :=
  let trimmed := trim line
  if trimmed = [] then none
  else
    let first := (splitDirective (trim (trimmed.dropWhile (· == '#')))).1
    if first = [] then none else some (isComment trimmed, first)

/-- The scan for a directive, up to the first live `Match` line. -/
def scan (caseSensitive : Bool) (name : Chars) : List Chars → Nat → Occurrences → Occurrences
  | [], _, seen => seen
  | line :: ls, index, seen =>
    match lineKey line with
    | none => scan caseSensitive name ls (index + 1) seen
    | some (comment, first) =>
      if !comment && eqIgnoreCase first matchKeyword then { seen with boundary := some index }
      else if !keyMatches caseSensitive first name then scan caseSensitive name ls (index + 1) seen
      else if comment then
        scan caseSensitive name ls (index + 1) { seen with commented := seen.commented.or (some index) }
      else
        match seen.live with
        | none => scan caseSensitive name ls (index + 1) { seen with live := some index }
        | some _ => scan caseSensitive name ls (index + 1) { seen with extra := seen.extra ++ [index] }

/-- The line a format writes. -/
def newLine (format : ConfigFormat) (name value : Chars) : Chars :=
  match format with
  | .spaceSeparated | .auto => name ++ ' ' :: value
  | .keyValue => name ++ " = ".toList ++ value

/-- A text that ends in `\n`. -/
def closeLine (s : Chars) : Chars := if s.getLast? = some '\n' then s else s ++ ['\n']

/-- The line put at the end of a file, which takes the ending of the line it follows. -/
def appendLine (lines : List Chars) (newLine : Chars) : List Chars :=
  match lines.getLast? with
  | none => [newLine ++ ['\n']]
  | some last => lines.dropLast ++ [closeLine last, newLine ++ lineTerminator last]

/-- The lines with the directive rewritten, inserted or appended. -/
def placeLine (lines : List Chars) (newLine : Chars) (seen : Occurrences) : List Chars :=
  match seen.live.or seen.commented, seen.boundary with
  | some index, _ => lines.modify index (fun old => newLine ++ lineTerminator old)
  | none, some index =>
    let terminator := match lineTerminator (lines.getD index []) with
      | [] => ['\n']
      | terminator => terminator
    lines.insertIdx index (newLine ++ terminator)
  | none, none => appendLine lines newLine

/-- Sets or updates a directive in a file's content. -/
def setConfigDirective (content name value : Chars) (format : ConfigFormat) (caseSensitive : Bool)
    (duplicates : Duplicates) : Chars :=
  let ls := splitInclusive content
  let seen := scan caseSensitive name ls 0 ⟨none, none, [], none⟩
  let placed := placeLine ls (newLine format name value) seen
  let kept := match duplicates with
    | .keep => placed
    | .remove => seen.extra.reverse.foldl List.eraseIdx placed
  closeLine kept.flatten

/-! ## Reading -/

/-- A directive read from the global scope, as sshd's files are read. -/
def scopedValue (name content : Chars) : Option Chars :=
  parseConfigValue (globalScope content) name .spaceSeparated false

/-- What a live line gives a directive of sshd_config. -/
def definition (name line : Chars) : Option Chars := lineValue (spaceSeparatedValue false name) line

/-- The first definition above the first live `Match` line. -/
def firstGlobal (name : Chars) (ls : List Chars) : Option Chars :=
  (ls.takeWhile (fun line => !opensMatch line)).findSome? (definition name)

@[simp] theorem firstGlobal_nil (name : Chars) : firstGlobal name [] = none := rfl

theorem firstGlobal_cons (name line : Chars) (ls : List Chars) :
    firstGlobal name (line :: ls) =
      if opensMatch line then none else (definition name line).or (firstGlobal name ls) := by
  unfold firstGlobal
  rw [List.takeWhile_cons]
  cases opensMatch line with
  | true => rfl
  | false =>
    rw [if_pos (by rfl), if_neg (by simp), List.findSome?_cons]
    cases definition name line <;> rfl

theorem firstGlobal_append {name : Chars} {ls : List Chars} (h : ∀ l ∈ ls, opensMatch l = false)
    (ms : List Chars) : firstGlobal name (ls ++ ms) = (firstGlobal name ls).or (firstGlobal name ms) := by
  induction ls with
  | nil => simp
  | cons l ls ih =>
    rw [List.cons_append, firstGlobal_cons, firstGlobal_cons, h l (by simp),
      ih (fun m hm => h m (by simp [hm])), if_neg (by simp), if_neg (by simp), Option.or_assoc]

/-- Nothing below a live `Match` line is global. -/
theorem firstGlobal_append_of_match {name : Chars} {ls : List Chars} (h : ∃ l ∈ ls, opensMatch l = true)
    (ms : List Chars) : firstGlobal name (ls ++ ms) = firstGlobal name ls := by
  induction ls with
  | nil => simp at h
  | cons l ls ih =>
    rw [List.cons_append, firstGlobal_cons, firstGlobal_cons]
    split
    · rfl
    · next hl =>
      obtain ⟨m, hm, hmatch⟩ := h
      rcases List.mem_cons.mp hm with rfl | hm
      · exact absurd hmatch hl
      · rw [ih ⟨m, hm, hmatch⟩]

theorem opensMatch_stripTerminator (l : Chars) : opensMatch (stripTerminator l) = opensMatch l := by
  unfold opensMatch
  rw [trim_stripTerminator]

theorem lineValue_stripTerminator (value : Chars → Option Chars) (l : Chars) :
    lineValue value (stripTerminator l) = lineValue value l := by
  unfold lineValue
  rw [trim_stripTerminator]

theorem opensMatch_terminated (l : Chars) : opensMatch (l ++ ['\n']) = opensMatch l := by
  unfold opensMatch
  rw [trim_concat isWhitespace_newline]

theorem definition_terminated (name l : Chars) : definition name (l ++ ['\n']) = definition name l := by
  unfold definition lineValue
  rw [trim_concat isWhitespace_newline]

theorem chunks_takeWhile (p : Chars → Bool) {ls : List Chars} (h : Chunks ls) : Chunks (ls.takeWhile p) := by
  induction ls with
  | nil => trivial
  | cons l ls ih =>
    rw [List.takeWhile_cons]
    split
    · cases ls with
      | nil => exact h
      | cons m ls => exact chunks_cons h.1 (ih h.2)
    · trivial

/-- The lines a reader gets from a text, for what depends on a line trimmed. -/
theorem findSome_lines (value : Chars → Option Chars) (content : Chars) :
    (lines content).findSome? (lineValue value) = (splitInclusive content).findSome? (lineValue value) := by
  rw [lines, List.findSome?_map]
  exact congrArg (fun f => (splitInclusive content).findSome? f) (funext (lineValue_stripTerminator value))

theorem parse_globalScope (name content : Chars) :
    scopedValue name content = firstGlobal name (splitInclusive content) := by
  unfold scopedValue parseConfigValue firstGlobal
  rw [findSome_lines, globalScope, splitInclusive_flatten (chunks_takeWhile _ (chunks_splitInclusive content))]
  rfl

/-! ## A text put together line by line -/

/-- Lines, each closed by `\n`. -/
def pendingText (ls : List Chars) : Chars := ls.flatMap (· ++ ['\n'])

theorem splitInclusive_pending {ls : List Chars} (h : ∀ l ∈ ls, '\n' ∉ l) :
    splitInclusive (pendingText ls) = ls.map (· ++ ['\n']) := by
  induction ls with
  | nil => rfl
  | cons l ls ih =>
    rw [pendingText, List.flatMap_cons, splitInclusive_cons ⟨l, rfl, h l (by simp)⟩, List.map_cons]
    rw [← ih (fun m hm => h m (by simp [hm]))]
    rfl

theorem firstGlobal_map_terminated (name : Chars) (ls : List Chars) :
    firstGlobal name (ls.map (· ++ ['\n'])) = firstGlobal name ls := by
  induction ls with
  | nil => rfl
  | cons l ls ih =>
    rw [List.map_cons, firstGlobal_cons, firstGlobal_cons, opensMatch_terminated, definition_terminated, ih]

/-- What is read from a text put together line by line. -/
theorem scopedValue_pending {ls : List Chars} (h : ∀ l ∈ ls, '\n' ∉ l) (name : Chars) :
    scopedValue name (pendingText ls) = firstGlobal name ls := by
  rw [parse_globalScope, splitInclusive_pending h, firstGlobal_map_terminated]

theorem firstGlobal_lines (name content : Chars) :
    firstGlobal name (lines content) = firstGlobal name (splitInclusive content) := by
  unfold lines
  induction splitInclusive content with
  | nil => rfl
  | cons l ls ih =>
    rw [List.map_cons, firstGlobal_cons, firstGlobal_cons, opensMatch_stripTerminator, definition,
      lineValue_stripTerminator, ih]
    rfl

end LinuxHardener.Common
