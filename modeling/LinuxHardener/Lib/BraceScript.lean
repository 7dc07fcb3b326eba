import LinuxHardener.Lib.LineText

/-
  Scripts of statements and blocks: words between blanks, statements that a line end or a `;`
  closes, and blocks in braces, which may stand in each other. `#` opens a comment that the
  line ends, and what stands in quotes is one word.

  What a word is written with is a parameter. A character that is neither of a word nor of
  the script's own is refused.

  What is proved:
    1. `run_append` — a script is read part by part.
    2. `run_closed`, `run_opening`, `run_closing` — a statement, a block's head, a block's end.
    3. `run_statements` — lines of plain words are as many statements, in their order.
-/
namespace LinuxHardener.BraceScript

open LineText

inductive Item where
  | statement (words : List Chars)
  | block (head : List Chars) (body : List Item)

inductive Mode where
  | code
  | comment
  | quote
  deriving DecidableEq, Repr

/-- How far a script has been read: the word, the statement and the block that are open, and the
blocks around that one, each with its head and what stands before it. -/
structure Reader where
  mode : Mode
  word : Chars
  words : List Chars
  items : List Item
  outer : List (List Chars × List Item)

namespace Reader

/-- At the start of a statement of a block. -/
def inBlock (items : List Item) (outer : List (List Chars × List Item)) : Reader := ⟨.code, [], [], items, outer⟩

def endWord (r : Reader) : Reader :=
  if r.word = [] then r else { r with word := [], words := r.words ++ [r.word] }

/-- An empty statement is none. -/
def endStatement (r : Reader) : Reader :=
  if r.words = [] then r else { r with words := [], items := r.items ++ [.statement r.words] }

def openBlock (r : Reader) : Reader := inBlock [] ((r.words, r.items) :: r.outer)

/-- A statement is closed before its block is. -/
def closeBlock (r : Reader) : Option Reader :=
  if r.words ≠ [] then none
  else
    match r.outer with
    | [] => none
    | (head, items) :: outer => some (inBlock (items ++ [.block head r.items]) outer)

end Reader

variable (isWordChar : Char → Bool)

/-- One character between words. -/
def separate (r : Reader) (c : Char) : Option Reader :=
  if c = ' ' ∨ c = '\t' then some r
  else if c = '\n' ∨ c = ';' then some r.endStatement
  else if c = '#' then some { r with mode := .comment }
  else if c = '"' then some { r with mode := .quote }
  else if c = '\x7b' then some r.openBlock
  else if c = '\x7d' then r.closeBlock
  else none

def step (r : Reader) (c : Char) : Option Reader :=
  match r.mode with
  | .code => if isWordChar c then some { r with word := r.word ++ [c] } else separate r.endWord c
  | .comment => if c = '\n' then some { r with mode := .code }.endStatement else some r
  | .quote =>
    if c = '"' then some { r with mode := .code, word := [], words := r.words ++ [r.word] }
    else some { r with word := r.word ++ [c] }

def run (r : Reader) (text : Chars) : Option Reader := text.foldlM (step isWordChar) r

/-- The items of a reader that has nothing open. -/
def Reader.finish (r : Reader) : Option (List Item) :=
  if r.mode = .quote ∨ r.outer ≠ [] then none else some r.endWord.endStatement.items

def read (text : Chars) : Option (List Item) := (run isWordChar (Reader.inBlock [] []) text).bind Reader.finish

/-! ## Reading part by part -/

variable {isWordChar : Char → Bool} {r : Reader} {items : List Item} {outer : List (List Chars × List Item)}

theorem run_append (r : Reader) (a b : Chars) :
    run isWordChar r (a ++ b) = (run isWordChar r a).bind fun r => run isWordChar r b := List.foldlM_append

theorem run_cons (r : Reader) (c : Char) (text : Chars) :
    run isWordChar r (c :: text) = (step isWordChar r c).bind fun r => run isWordChar r text := List.foldlM_cons

theorem read_of_run {text : Chars} (h : run isWordChar (Reader.inBlock [] []) text = some (Reader.inBlock items [])) :
    read isWordChar text = some items := by
  rw [read, h]
  rfl

/-- Characters of a word go on with the word. -/
theorem run_word {word : Chars} (h : word.all isWordChar = true) (written : Chars) (words : List Chars) :
    run isWordChar ⟨.code, written, words, items, outer⟩ word = some ⟨.code, written ++ word, words, items, outer⟩ := by
  induction word generalizing written with
  | nil =>
    rw [List.append_nil]
    rfl
  | cons c word ih =>
    rw [List.all_cons, Bool.and_eq_true] at h
    have hstep : step isWordChar ⟨.code, written, words, items, outer⟩ c =
        some ⟨.code, written ++ [c], words, items, outer⟩ := if_pos h.1
    rw [run_cons, hstep, Option.bind_some, ih h.2, List.append_assoc, List.singleton_append]

/-- What a word may be for it to be read back. -/
def IsWord (isWordChar : Char → Bool) (word : Chars) : Prop := word ≠ [] ∧ word.all isWordChar = true

section Separators

variable (hblank : isWordChar ' ' = false) (hend : isWordChar '\n' = false)
include hblank

theorem run_blanks (items : List Item) (outer : List (List Chars × List Item)) (n : Nat) (words : List Chars) :
    run isWordChar ⟨.code, [], words, items, outer⟩ (List.replicate n ' ') = some ⟨.code, [], words, items, outer⟩ := by
  have hstep : step isWordChar ⟨.code, [], words, items, outer⟩ ' ' = some ⟨.code, [], words, items, outer⟩ :=
    if_neg (by rw [hblank]; exact Bool.false_ne_true)
  induction n with
  | zero => rfl
  | succ n ih => rw [List.replicate_succ, run_cons, hstep, Option.bind_some, ih]

/-- Words are read as far as what stands behind them. -/
theorem run_words {word : Chars} {more : List Chars} (h : ∀ w ∈ word :: more, IsWord isWordChar w) (words : List Chars)
    {c : Char} (hc : isWordChar c = false) (rest : Chars) :
    run isWordChar ⟨.code, [], words, items, outer⟩ ([' '].intercalate (word :: more) ++ c :: rest) =
      (separate ⟨.code, [], words ++ word :: more, items, outer⟩ c).bind fun r => run isWordChar r rest := by
  induction more generalizing word words with
  | nil =>
    obtain ⟨hne, hall⟩ := h word List.mem_cons_self
    have hstep : step isWordChar ⟨.code, word, words, items, outer⟩ c = separate ⟨.code, [], words ++ [word], items, outer⟩ c := by
      rw [step]
      dsimp only
      rw [if_neg (by rw [hc]; exact Bool.false_ne_true), Reader.endWord, if_neg hne]
    rw [List.intercalate_singleton, run_append, run_word hall, Option.bind_some, List.nil_append, run_cons, hstep]
  | cons next more ih =>
    obtain ⟨hne, hall⟩ := h word List.mem_cons_self
    have hstep : step isWordChar ⟨.code, word, words, items, outer⟩ ' ' =
        some ⟨.code, [], words ++ [word], items, outer⟩ := by
      rw [step]
      dsimp only
      rw [if_neg (by rw [hblank]; exact Bool.false_ne_true), Reader.endWord, if_neg hne]
      rfl
    rw [List.intercalate_cons_cons, List.append_assoc, List.append_assoc, run_append, run_word hall, Option.bind_some, List.nil_append,
      List.singleton_append, run_cons, hstep, Option.bind_some, ih (fun w hw => h w (List.mem_cons_of_mem _ hw)),
      List.append_assoc, List.singleton_append]

/-- Words a `;` or the line's end closes are a statement. -/
theorem run_closed {words : List Chars} (hne : words ≠ []) (h : ∀ w ∈ words, IsWord isWordChar w) {c : Char}
    (hc : isWordChar c = false) (hcloses : c = '\n' ∨ c = ';') (n : Nat) (rest : Chars) :
    run isWordChar (Reader.inBlock items outer) (List.replicate n ' ' ++ ([' '].intercalate words ++ c :: rest)) =
      run isWordChar (Reader.inBlock (items ++ [.statement words]) outer) rest := by
  obtain ⟨word, more, rfl⟩ := List.exists_cons_of_ne_nil hne
  have hblanks := run_blanks hblank items outer n []
  have hseparate : separate ⟨.code, [], word :: more, items, outer⟩ c =
      some (Reader.inBlock (items ++ [.statement (word :: more)]) outer) := by
    obtain rfl | rfl := hcloses <;> rfl
  rw [run_append, Reader.inBlock, hblanks, Option.bind_some, run_words hblank h _ hc, List.nil_append, hseparate]
  rfl

include hend

/-- Words before a brace are a block's head. -/
theorem run_opening {words : List Chars} (hne : words ≠ []) (h : ∀ w ∈ words, IsWord isWordChar w)
    (hbrace : isWordChar '\x7b' = false) (n : Nat) (rest : Chars) :
    run isWordChar (Reader.inBlock items outer)
        (List.replicate n ' ' ++ ([' '].intercalate words ++ ' ' :: '\x7b' :: '\n' :: rest)) =
      run isWordChar (Reader.inBlock [] ((words, items) :: outer)) rest := by
  obtain ⟨word, more, rfl⟩ := List.exists_cons_of_ne_nil hne
  have hblanks := run_blanks hblank items outer n []
  have hopen : step isWordChar ⟨.code, [], word :: more, items, outer⟩ '\x7b' =
      some (Reader.inBlock [] ((word :: more, items) :: outer)) := if_neg (by rw [hbrace]; exact Bool.false_ne_true)
  have hnewline : step isWordChar (Reader.inBlock [] ((word :: more, items) :: outer)) '\n' =
      some (Reader.inBlock [] ((word :: more, items) :: outer)) := if_neg (by rw [hend]; exact Bool.false_ne_true)
  have hseparate : separate ⟨.code, [], word :: more, items, outer⟩ ' ' = some ⟨.code, [], word :: more, items, outer⟩ := rfl
  rw [run_append, Reader.inBlock, hblanks, Option.bind_some, run_words hblank h _ hblank, List.nil_append, hseparate,
    Option.bind_some, run_cons, hopen, Option.bind_some, run_cons, hnewline, Option.bind_some]

theorem run_closing (hbrace : isWordChar '\x7d' = false) (head : List Chars) (before : List Item) (n : Nat) (rest : Chars) :
    run isWordChar (Reader.inBlock items ((head, before) :: outer)) (List.replicate n ' ' ++ '\x7d' :: '\n' :: rest) =
      run isWordChar (Reader.inBlock (before ++ [.block head items]) outer) rest := by
  have hblanks := run_blanks hblank items ((head, before) :: outer) n []
  have hclose : step isWordChar (Reader.inBlock items ((head, before) :: outer)) '\x7d' =
      some (Reader.inBlock (before ++ [.block head items]) outer) := if_neg (by rw [hbrace]; exact Bool.false_ne_true)
  have hnewline : step isWordChar (Reader.inBlock (before ++ [.block head items]) outer) '\n' =
      some (Reader.inBlock (before ++ [.block head items]) outer) := if_neg (by rw [hend]; exact Bool.false_ne_true)
  rw [Reader.inBlock] at hclose
  rw [run_append, Reader.inBlock, hblanks, Option.bind_some, run_cons, hclose, Option.bind_some, run_cons, hnewline, Option.bind_some]

/-- An indented line of words is one statement. -/
theorem run_statement {words : List Chars} (hne : words ≠ []) (h : ∀ w ∈ words, IsWord isWordChar w) (n : Nat) :
    run isWordChar (Reader.inBlock items outer) (List.replicate n ' ' ++ [' '].intercalate words ++ ['\n']) =
      some (Reader.inBlock (items ++ [.statement words]) outer) := by
  rw [List.append_assoc, run_closed hblank hne h hend (.inl rfl)]
  rfl

omit hblank in
/-- A line's end alone says nothing. -/
theorem run_newline : run isWordChar (Reader.inBlock items outer) ['\n'] = some (Reader.inBlock items outer) := by
  have hstep : step isWordChar (Reader.inBlock items outer) '\n' = some (Reader.inBlock items outer) :=
    if_neg (by rw [hend]; exact Bool.false_ne_true)
  rw [run_cons, hstep]
  rfl

/-- Indented lines of words are as many statements. -/
theorem run_statements {statements : List (List Chars)} (h : ∀ words ∈ statements, words ≠ [] ∧ ∀ w ∈ words, IsWord isWordChar w)
    (n : Nat) : run isWordChar (Reader.inBlock items outer)
        (['\n'].intercalate (statements.map fun words => List.replicate n ' ' ++ [' '].intercalate words) ++ ['\n']) =
      some (Reader.inBlock (items ++ statements.map .statement) outer) := by
  induction statements generalizing items with
  | nil =>
    rw [List.map_nil, List.map_nil, List.append_nil]
    exact run_newline hend
  | cons words statements ih =>
    obtain ⟨hne, hwords⟩ := h words List.mem_cons_self
    have hline := @run_statement isWordChar items outer hblank hend words hne hwords n
    cases statements with
    | nil =>
      rw [List.map_singleton, List.intercalate_singleton]
      exact hline
    | cons next statements =>
      have hrest := @ih (items ++ [.statement words]) fun words hw => h words (List.mem_cons_of_mem _ hw)
      rw [List.map_cons] at hrest
      rw [List.map_cons, List.map_cons, List.intercalate_cons_cons, List.append_assoc _ _ ['\n'], run_append, hline,
        Option.bind_some, hrest, List.map_cons, List.append_assoc, List.singleton_append]
      rfl

end Separators

end LinuxHardener.BraceScript
