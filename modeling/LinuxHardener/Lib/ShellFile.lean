import LinuxHardener.Lib.Cut
import LinuxHardener.Lib.Trimmed
import Mathlib.Data.List.Infix

/-
  A file of settings as `sh` sources it: blank lines, comments, and assignments of words that need
  no expansion.

  The text of a word and its value are two readings of one list of marked characters (`marked`):
  the quotes that open and close its parts are the marked ones.

  What is proved:
    1. `source_eq_last` — a variable has the value of its last assignment.
    2. `text_eq_marked`, `value_eq_marked` — the two readings of a word.
-/
namespace LinuxHardener.ShellFile

open LineText Trimmed

def isBlank (c : Char) : Bool := c == ' ' || c == '\t'

def isNameStart (c : Char) : Bool := c.isAlpha || c == '_'

def isNameChar (c : Char) : Bool := c.isAlphanum || c == '_'

/-- What the shell takes for the name of a variable. -/
def isName : Chars → Bool
  | [] => false
  | c :: s => isNameStart c && s.all isNameChar

/-- A character that stands for itself outside quotes. -/
def isPlain (c : Char) : Bool := !" \t\n\"'\\$`;&|<>()".toList.contains c

/-- A character that stands for itself inside double quotes. -/
def isPlainDouble (c : Char) : Bool := !"\n\"\\$`".toList.contains c

def isPlainSingle (c : Char) : Bool := c != '\n' && c != '\''

/-- Unquoted text in which the shell may look for file names. -/
def opensPattern (text : Chars) : Bool := text.any "*?[".toList.contains

inductive Part where
  | bare (text : Chars) (plain : text.all isPlain = true)
  | single (text : Chars) (plain : text.all isPlainSingle = true)
  | double (text : Chars) (plain : text.all isPlainDouble = true)

abbrev Word := List Part

def Part.text : Part → Chars
  | bare text _ => text
  | single text _ => '\'' :: text ++ ['\'']
  | double text _ => '"' :: text ++ ['"']

def Part.value : Part → Chars
  | bare text _ => text
  | single text _ => text
  | double text _ => text

/-- Whether file names are looked for, in a word that is not the value of an assignment of its own. -/
def Part.opensPattern : Part → Bool
  | bare text _ => ShellFile.opensPattern text
  | single _ _ => false
  | double _ _ => false

/-- The characters of a part, each with whether it stands outside quotes. -/
def Part.unquoted : Part → List (Char × Bool)
  | bare text _ => text.map fun c => (c, true)
  | single text _ => ('\'' :: text ++ ['\'']).map fun c => (c, false)
  | double text _ => ('"' :: text ++ ['"']).map fun c => (c, false)

/-- Whether the shell looks for a home directory: behind the `=`, or behind a colon. -/
def opensTilde (word : Word) : Bool :=
  let cs := word.flatMap Part.unquoted
  cs.head? == some ('~', true) || decide ([(':', true), ('~', true)] <:+: cs)

def wordText (word : Word) : Chars := word.flatMap Part.text

def wordValue (word : Word) : Chars := word.flatMap Part.value

/-- `NAME=word`, maybe exported, with a comment behind it where a blank stands between. -/
structure Assignment where
  indent : Chars
  exported : Option Chars
  name : Chars
  word : Word
  blanks : Chars
  remark : Option Chars
  indent_blank : indent.all isBlank = true
  exported_blank : ∀ between, exported = some between → between ≠ [] ∧ between.all isBlank = true
  exported_word : exported ≠ none → word.all (fun part => !part.opensPattern) = true
  name_valid : isName name = true
  word_plain : opensTilde word = false
  blanks_blank : blanks.all isBlank = true
  remark_apart : remark ≠ none → blanks ≠ []
  remark_line : ∀ text, remark = some text → '\n' ∉ text

inductive Line where
  | blank (blanks : Chars) (blank : blanks.all isBlank = true)
  | comment (indent text : Chars) (blank : indent.all isBlank = true) (line : '\n' ∉ text)
  | assignment (a : Assignment)

def Assignment.value (a : Assignment) : Chars := wordValue a.word

/-- What stands before the name. -/
def Assignment.keyword (a : Assignment) : Chars :=
  match a.exported with
  | none => []
  | some between => "export".toList ++ between

/-- What stands behind the word. -/
def Assignment.tail (a : Assignment) : Chars :=
  match a.remark with
  | none => a.blanks
  | some text => a.blanks ++ '#' :: text

def Assignment.text (a : Assignment) : Chars := a.indent ++ (a.keyword ++ (a.name ++ '=' :: (wordText a.word ++ a.tail)))

def Line.text : Line → Chars
  | blank blanks _ => blanks
  | comment indent text _ _ => indent ++ '#' :: text
  | assignment a => a.text

/-- Lines one under the other; the last is empty where the file ends in a newline. -/
def fileText (file : List Line) : Chars := ['\n'].intercalate (file.map Line.text)

/-! ## Sourcing -/

abbrev Env := Chars → Option Chars

def Line.run (env : Env) : Line → Env
  | blank _ _ => env
  | comment _ _ _ _ => env
  | assignment a => fun key => if a.name = key then some a.value else env key

/-- The variables after the file has been sourced where none was set. -/
def source (file : List Line) : Env := file.foldl Line.run fun _ => none

/-- The assignment a line makes to a variable. -/
def Line.assignment? (key : Chars) : Line → Option Assignment
  | blank _ _ => none
  | comment _ _ _ _ => none
  | assignment a => if a.name = key then some a else none

theorem run_eq (env : Env) (line : Line) (key : Chars) : line.run env key = ((line.assignment? key).map Assignment.value).or (env key) := by
  cases line with
  | blank => rfl
  | comment => rfl
  | assignment a =>
    rw [Line.run, Line.assignment?]
    dsimp only
    by_cases h : a.name = key
    · rw [if_pos h, if_pos h]
      rfl
    · rw [if_neg h, if_neg h]
      rfl

theorem foldl_run (env : Env) (file : List Line) (key : Chars) :
    file.foldl Line.run env key = ((file.filterMap (Line.assignment? key)).getLast?.map Assignment.value).or (env key) := by
  induction file generalizing env with
  | nil => rfl
  | cons line file ih =>
    rw [List.foldl_cons, ih, run_eq]
    cases hline : line.assignment? key with
    | none =>
      rw [List.filterMap_cons_none hline]
      rfl
    | some a =>
      rw [List.filterMap_cons_some hline, List.getLast?_cons]
      cases (file.filterMap (Line.assignment? key)).getLast? <;> rfl

/-- A variable has the value of its last assignment. -/
theorem source_eq_last (file : List Line) (key : Chars) :
    source file key = (file.filterMap (Line.assignment? key)).getLast?.map Assignment.value := by
  rw [source, foldl_run, Option.or_none]

/-! ## Words -/

def isQuote (c : Char) : Bool := c == '"' || c == '\''

def plainly (text : Chars) : List (Char × Bool) := text.map fun c => (c, false)

def Part.marked : Part → List (Char × Bool)
  | bare text _ => plainly text
  | single text _ => ('\'', true) :: plainly text ++ [('\'', true)]
  | double text _ => ('"', true) :: plainly text ++ [('"', true)]

/-- The characters of a word, those that quote marked. -/
def marked (word : Word) : List (Char × Bool) := word.flatMap Part.marked

theorem map_plainly (text : Chars) : (plainly text).map Prod.fst = text := by
  rw [plainly, List.map_map]
  exact List.map_id _

theorem withoutMarks_plainly (text : Chars) : withoutMarks (plainly text) = text := by
  have hplain : ∀ m ∈ plainly text, m.2 = false := by
    intro m hm
    obtain ⟨c, -, rfl⟩ := List.mem_map.mp hm
    rfl
  rw [withoutMarks_eq_map.mpr hplain, map_plainly]

theorem withoutMarks_enclosed (c d : Char) (text : Chars) : withoutMarks ((c, true) :: plainly text ++ [(d, true)]) = text := by
  rw [List.cons_append, ← List.singleton_append, withoutMarks_append, withoutMarks_append, withoutMarks_plainly]
  exact List.append_nil _

theorem Part.text_eq_marked (part : Part) : part.marked.map Prod.fst = part.text := by
  cases part with
  | bare text => exact map_plainly text
  | single text => simp [Part.marked, Part.text, map_plainly]
  | double text => simp [Part.marked, Part.text, map_plainly]

theorem Part.value_eq_marked (part : Part) : withoutMarks part.marked = part.value := by
  cases part with
  | bare text => exact withoutMarks_plainly text
  | single text => exact withoutMarks_enclosed _ _ text
  | double text => exact withoutMarks_enclosed _ _ text

theorem text_eq_marked (word : Word) : (marked word).map Prod.fst = wordText word := by
  induction word with
  | nil => rfl
  | cons part word ih =>
    rw [wordText, List.flatMap_cons, ← Part.text_eq_marked, marked, List.flatMap_cons, List.map_append]
    exact congrArg _ ih

theorem value_eq_marked (word : Word) : withoutMarks (marked word) = wordValue word := by
  induction word with
  | nil => rfl
  | cons part word ih =>
    rw [wordValue, List.flatMap_cons, ← Part.value_eq_marked, marked, List.flatMap_cons, withoutMarks_append]
    exact congrArg _ ih

/-- Only quotes are marked. -/
theorem isQuote_of_marked {word : Word} {m : Char × Bool} (hm : m ∈ marked word) (h : m.2 = true) : isQuote m.1 = true := by
  obtain ⟨part, -, hmem⟩ := List.mem_flatMap.mp hm
  have hplainly {text : Chars} : m ∉ plainly text := by
    intro hin
    obtain ⟨c, -, rfl⟩ := List.mem_map.mp hin
    cases h
  cases part with
  | bare text => exact absurd hmem hplainly
  | single text =>
    simp only [Part.marked, List.cons_append, List.mem_cons, List.mem_append, List.not_mem_nil, or_false] at hmem
    obtain rfl | hin | rfl := hmem
    · rfl
    · exact absurd hin hplainly
    · rfl
  | double text =>
    simp only [Part.marked, List.cons_append, List.mem_cons, List.mem_append, List.not_mem_nil, or_false] at hmem
    obtain rfl | hin | rfl := hmem
    · rfl
    · exact absurd hin hplainly
    · rfl

/-- A word and its value differ by quotes. -/
theorem filter_wordValue {q : Char → Bool} (h : ∀ c, isQuote c = true → q c = false) (word : Word) :
    (wordValue word).filter q = (wordText word).filter q := by
  rw [← value_eq_marked, ← text_eq_marked, withoutMarks, List.filter_map, List.filter_map, List.filter_filter]
  congr 1
  apply List.filter_congr
  intro m hm
  cases hmark : m.2 with
  | false => simp
  | true => simp [h m.1 (isQuote_of_marked hm hmark)]

end LinuxHardener.ShellFile
