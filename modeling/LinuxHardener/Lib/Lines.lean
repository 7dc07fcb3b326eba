import LinuxHardener.Lib.Bytes

/-
  A file read line by line.

  `lines` splits at `\n` and takes one `\r` off the end of a terminated line; a
  last line without `\n` counts unless it is empty. What is proved:
    1. `lines_cons` — a terminated line is the first line, whatever follows.
    2. `lines_last` — a last line with no `\n` is a line.
    3. `lines_fileOf`, `lines_fileOf_open` — a file written line by line reads back
       line by line, also when its last `\n` is missing.
-/
namespace LinuxHardener.Lines

/-- `\n` -/
def newline : UInt8 := 10
/-- `\r` -/
def carriage : UInt8 := 13

/-- A terminated line without its `\r`. -/
def stripCarriage (l : Bytes) : Bytes := if l.getLast? = some carriage then l.dropLast else l

/-- The lines of the words between the `\n`: the last word was not terminated. -/
def ofWords : List Bytes → List Bytes
  | [] => []
  | [last] => if last = [] then [] else [last]
  | w :: v :: ws => stripCarriage w :: ofWords (v :: ws)

def lines (b : Bytes) : List Bytes := ofWords (b.splitOn newline)

/-- A line a writer may terminate and a reader gets back. -/
structure IsLine (l : Bytes) : Prop where
  newline_free : newline ∉ l
  no_carriage : l.getLast? ≠ some carriage
  nonempty : l ≠ []

/-- The file that holds these lines, each terminated. -/
def fileOf (ls : List Bytes) : Bytes := ls.flatMap (fun l => l ++ [newline])

@[simp] theorem lines_nil : lines [] = [] := rfl

@[simp] theorem fileOf_nil : fileOf [] = [] := rfl

@[simp] theorem fileOf_append (ls ms : List Bytes) : fileOf (ls ++ ms) = fileOf ls ++ fileOf ms := by
  simp [fileOf]

theorem fileOf_cons (l : Bytes) (ls : List Bytes) : fileOf (l :: ls) = l ++ newline :: fileOf ls := by
  simp [fileOf]

theorem fileOf_snoc (ls : List Bytes) (l : Bytes) : fileOf (ls ++ [l]) = fileOf ls ++ (l ++ [newline]) := by
  simp [fileOf]

theorem stripCarriage_eq {l : Bytes} (h : l.getLast? ≠ some carriage) : stripCarriage l = l := if_neg h

theorem splitOn_ne_nil (b : Bytes) : b.splitOn newline ≠ [] := by
  simp [List.splitOn_ne_nil]

/-- The first line ends at the first `\n`. -/
theorem lines_cons {l : Bytes} (h : IsLine l) (rest : Bytes) :
    lines (l ++ newline :: rest) = l :: lines rest := by
  unfold lines
  rw [List.splitOn_append_cons_self_of_not_mem h.newline_free]
  cases hs : rest.splitOn newline with
  | nil => exact absurd hs (splitOn_ne_nil rest)
  | cons w ws => rw [ofWords, stripCarriage_eq h.no_carriage]

/-- A last line without `\n`. -/
theorem lines_last {l : Bytes} (hn : newline ∉ l) (hne : l ≠ []) : lines l = [l] := by
  rw [lines, List.splitOn_eq_singleton hn, ofWords, if_neg hne]

theorem lines_fileOf_append {ls : List Bytes} (h : ∀ l ∈ ls, IsLine l) (rest : Bytes) :
    lines (fileOf ls ++ rest) = ls ++ lines rest := by
  induction ls with
  | nil => simp
  | cons l ls ih =>
    rw [fileOf_cons, List.append_assoc, List.cons_append, lines_cons (h l (by simp)),
      ih (fun m hm => h m (by simp [hm]))]
    simp

theorem lines_fileOf {ls : List Bytes} (h : ∀ l ∈ ls, IsLine l) : lines (fileOf ls) = ls := by
  have := lines_fileOf_append h []
  simpa using this

/-- The last `\n` may be missing. -/
theorem lines_fileOf_open {ls : List Bytes} {l : Bytes} (h : ∀ m ∈ ls, IsLine m) (hl : IsLine l) :
    lines (fileOf ls ++ l) = ls ++ [l] := by
  rw [lines_fileOf_append h, lines_last hl.newline_free hl.nonempty]

/-- Whether a file ends where a line may begin. -/
def atLineStart (b : Bytes) : Bool := b.isEmpty || b.getLast? == some newline

theorem not_atLineStart_open {ls : List Bytes} {l : Bytes} (hl : IsLine l) :
    atLineStart (fileOf ls ++ l) = false := by
  have hlast : (fileOf ls ++ l).getLast? = l.getLast? := List.getLast?_append_of_ne_nil _ hl.nonempty
  have hne : l.getLast? ≠ some newline := fun h => hl.newline_free (List.mem_of_getLast? h)
  simp [atLineStart, hlast, hne, hl.nonempty]

theorem validUtf8_fileOf {ls : List Bytes} (h : ∀ l ∈ ls, validUtf8 l = true) : validUtf8 (fileOf ls) = true := by
  induction ls with
  | nil => exact validUtf8_utf8 ""
  | cons l ls ih =>
    have hnl : validUtf8 [newline] = true := validUtf8_utf8 "\n"
    have hrest := ih (fun m hm => h m (by simp [hm]))
    rw [fileOf_cons, ← List.singleton_append]
    exact validUtf8_append (h l (by simp)) (validUtf8_append hnl hrest)

end LinuxHardener.Lines
