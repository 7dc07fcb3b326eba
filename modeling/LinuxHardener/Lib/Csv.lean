import LinuxHardener.Lib.LineText

/-
  Comma-separated records: a reader, and what a writer may put down for it to read a cell.

  A cell stands bare or between quotes. Bare, it has no quote, comma or line break of either
  kind; between quotes a quote stands twice and all else for itself. A record ends with a
  line feed.

  What is proved:
    1. `read_records` — records of cells that stand as they may are read as those cells.
    2. `read_breaks` — with a carriage return outside quotes nothing of them is read.
-/
namespace LinuxHardener.Csv

open LineText (Chars)

/-- Where in a cell the reader is: at its start, in a bare one, between quotes, or at a quote
that ends the cell or is the first of two. -/
inductive Mode where
  | start
  | bare
  | quoted
  | closing
  deriving DecidableEq, Repr

structure Reader where
  mode : Mode
  cell : Chars
  record : List Chars
  records : List (List Chars)
  deriving DecidableEq, Repr

namespace Reader

/-- Before the first cell of a record. -/
def between (records : List (List Chars)) : Reader := ⟨.start, [], [], records⟩

def endCell (r : Reader) : Reader := ⟨.start, [], r.record ++ [r.cell], r.records⟩

def endRecord (r : Reader) : Reader := ⟨.start, [], [], r.records ++ [r.record ++ [r.cell]]⟩

def add (r : Reader) (mode : Mode) (c : Char) : Reader := { r with mode := mode, cell := r.cell ++ [c] }

def step (r : Reader) (c : Char) : Option Reader :=
  match r.mode with
  | .quoted => if c = '"' then some { r with mode := .closing } else some (r.add .quoted c)
  | .closing =>
    if c = '"' then some (r.add .quoted c)
    else if c = ',' then some r.endCell
    else if c = '\n' then some r.endRecord
    else none
  | .start =>
    if c = '"' then some { r with mode := .quoted }
    else if c = ',' then some r.endCell
    else if c = '\n' then some r.endRecord
    else if c = '\r' then none
    else some (r.add .bare c)
  | .bare =>
    if c = '"' then none
    else if c = ',' then some r.endCell
    else if c = '\n' then some r.endRecord
    else if c = '\r' then none
    else some (r.add .bare c)

def run (r : Reader) : Chars → Option Reader
  | [] => some r
  | c :: text => (r.step c).bind fun r' => r'.run text

/-- The text ends with a record, or its last record has no line feed. -/
def close (r : Reader) : Option (List (List Chars)) :=
  match r.mode with
  | .quoted => none
  | .start => if r.record.isEmpty then some r.records else some r.endRecord.records
  | .bare => some r.endRecord.records
  | .closing => some r.endRecord.records

theorem run_append (r : Reader) (s t : Chars) : r.run (s ++ t) = (r.run s).bind fun r' => r'.run t := by
  induction s generalizing r with
  | nil => rfl
  | cons c s ih =>
    rw [List.cons_append, run, run]
    cases r.step c with
    | none => rfl
    | some r' => exact ih r'

end Reader

def read (text : Chars) : Option (List (List Chars)) := ((Reader.between []).run text).bind Reader.close

/-! ## Cells -/

/-- May stand bare. -/
def IsBare (text : Chars) : Prop := ∀ c ∈ text, c ≠ '"' ∧ c ≠ ',' ∧ c ≠ '\n' ∧ c ≠ '\r'

instance (text : Chars) : Decidable (IsBare text) :=
  decidable_of_iff (text.all fun c => decide (c ≠ '"' ∧ c ≠ ',' ∧ c ≠ '\n' ∧ c ≠ '\r') = true) (by simp [IsBare])

def doubled (text : Chars) : Chars := text.flatMap fun c => if c = '"' then ['"', '"'] else [c]

def quote (text : Chars) : Chars := '"' :: doubled text ++ ['"']

/-- What stands for a cell. -/
def Stands (written cell : Chars) : Prop := (written = cell ∧ IsBare cell) ∨ written = quote cell

open Reader

variable (record : List Chars) (records : List (List Chars)) {cell : Chars}

theorem run_bare {text : Chars} (h : IsBare text) {mode : Mode} (hm : mode = .start ∨ mode = .bare) (cell : Chars) :
    ∃ mode', (mode' = .start ∨ mode' = .bare) ∧
      (Reader.mk mode cell record records).run text = some ⟨mode', cell ++ text, record, records⟩ := by
  induction text generalizing mode cell with
  | nil => exact ⟨mode, hm, by rw [run, List.append_nil]⟩
  | cons c text ih =>
    obtain ⟨hquote, hcomma, hline, hreturn⟩ := h c List.mem_cons_self
    obtain ⟨mode', hm', hrun⟩ := ih (fun c' hc' => h c' (List.mem_cons_of_mem _ hc')) (.inr rfl) (cell ++ [c])
    refine ⟨mode', hm', ?_⟩
    have hstep : (Reader.mk mode cell record records).step c = some ⟨.bare, cell ++ [c], record, records⟩ := by
      rcases hm with rfl | rfl <;> simp [step, hquote, hcomma, hline, hreturn, add]
    rw [run, hstep, Option.bind_some, hrun, List.append_assoc]
    rfl

theorem run_doubled (cell text : Chars) :
    (Reader.mk .quoted cell record records).run (doubled text) = some ⟨.quoted, cell ++ text, record, records⟩ := by
  induction text generalizing cell with
  | nil => rw [doubled, List.flatMap_nil, run, List.append_nil]
  | cons c text ih =>
    rw [doubled, List.flatMap_cons]
    have hrest := ih (cell ++ [c])
    rw [List.append_assoc, List.singleton_append, doubled] at hrest
    by_cases hc : c = '"'
    · subst hc
      exact hrest
    · rw [if_neg hc, List.singleton_append, run, step, if_neg hc, Option.bind_some]
      exact hrest

/-- A cell that stands as it may is read up to where it ends. -/
theorem run_stands {written : Chars} (h : Stands written cell) :
    ∃ mode, mode ≠ .quoted ∧ (Reader.mk .start [] record records).run written = some ⟨mode, cell, record, records⟩ := by
  rcases h with ⟨rfl, hbare⟩ | rfl
  · obtain ⟨mode, hm, hrun⟩ := run_bare record records hbare (.inl rfl) []
    refine ⟨mode, ?_, hrun⟩
    rcases hm with rfl | rfl <;> decide
  · refine ⟨.closing, by decide, ?_⟩
    have hopen : (Reader.mk .start [] record records).step '"' = some ⟨.quoted, [], record, records⟩ := rfl
    rw [quote, List.cons_append, run, hopen, Option.bind_some, run_append, run_doubled]
    rfl

theorem step_comma {mode : Mode} (h : mode ≠ .quoted) :
    (Reader.mk mode cell record records).step ',' = some ⟨.start, [], record ++ [cell], records⟩ := by
  cases mode with
  | quoted => exact absurd rfl h
  | start => rfl
  | bare => rfl
  | closing => rfl

theorem step_lineFeed {mode : Mode} (h : mode ≠ .quoted) :
    (Reader.mk mode cell record records).step '\n' = some (between (records ++ [record ++ [cell]])) := by
  cases mode with
  | quoted => exact absurd rfl h
  | start => rfl
  | bare => rfl
  | closing => rfl

/-! ## Records -/

/-- A record as it is written. -/
def line : List Chars → Chars
  | [] => ['\n']
  | [written] => written ++ ['\n']
  | written :: rest => written ++ ',' :: line rest

/-- Each stands for the cell in its place. -/
def AllStand (written cells : List Chars) : Prop := List.Forall₂ Stands written cells

theorem run_line {written cells : List Chars} (h : AllStand written cells) (hne : cells ≠ []) (record : List Chars)
    (records : List (List Chars)) :
    (Reader.mk .start [] record records).run (line written) = some (between (records ++ [record ++ cells])) := by
  induction h generalizing record with
  | nil => exact absurd rfl hne
  | @cons w cell ws cells hw hrest ih =>
    obtain ⟨mode, hmode, hrun⟩ := run_stands record records hw
    cases hrest with
    | nil =>
      rw [line, run_append, hrun, Option.bind_some, run, step_lineFeed _ _ hmode]
      rfl
    | @cons w' cell' ws' cells' hw' hrest' =>
      have hnext := ih (List.cons_ne_nil _ _) (record ++ [cell])
      rw [List.append_assoc, List.singleton_append] at hnext
      rw [line, run_append, hrun, Option.bind_some, run, step_comma _ _ hmode, Option.bind_some, hnext]
      exact List.cons_ne_nil _ _

/-- A text of records is read as their cells. -/
theorem run_records {written cells : List (List Chars)} (h : List.Forall₂ AllStand written cells) (hne : ∀ r ∈ cells, r ≠ [])
    (records : List (List Chars)) : (between records).run (written.flatMap line) = some (between (records ++ cells)) := by
  induction h generalizing records with
  | nil => rw [List.flatMap_nil, run, List.append_nil]
  | @cons w r ws rs hw _ ih =>
    have hfirst := run_line hw (hne r List.mem_cons_self) [] records
    have hrest := ih (fun r' hr' => hne r' (List.mem_cons_of_mem _ hr')) (records ++ [r])
    rw [List.append_assoc, List.singleton_append] at hrest
    rw [List.flatMap_cons, run_append, between, hfirst, Option.bind_some, List.nil_append, hrest]

theorem read_records {written cells : List (List Chars)} (h : List.Forall₂ AllStand written cells) (hne : ∀ r ∈ cells, r ≠ []) :
    read (written.flatMap line) = some cells := by
  rw [read, run_records h hne []]
  rfl

/-! ## A bare carriage return -/

/-- Nothing to quote before its first carriage return. -/
def Breaks (written : Chars) : Prop := ∃ s rest, IsBare s ∧ written = s ++ '\r' :: rest

theorem run_breaks {written : Chars} (h : Breaks written) (rest : Chars) :
    (Reader.mk .start [] record records).run (written ++ rest) = none := by
  obtain ⟨s, rest', hbare, rfl⟩ := h
  obtain ⟨mode, hm, hrun⟩ := run_bare record records hbare (.inl rfl) []
  rw [List.append_assoc, run_append, hrun, Option.bind_some, List.cons_append, run]
  rcases hm with rfl | rfl <;> rfl

theorem not_breaks {written : Chars} (h : Stands written cell) : ¬ Breaks written := by
  intro hbreaks
  obtain ⟨mode, -, hrun⟩ := run_stands [] [] h
  have hnone := run_breaks [] [] hbreaks []
  rw [List.append_nil, hrun] at hnone
  cases hnone

theorem not_breaks_of_allStand {written cells : List Chars} (h : AllStand written cells) : ∀ w ∈ written, ¬ Breaks w := by
  induction h with
  | nil => exact fun _ hw => absurd hw List.not_mem_nil
  | cons hw _ ih =>
    intro w hmem
    rcases List.mem_cons.mp hmem with rfl | hrest
    · exact not_breaks hw
    · exact ih w hrest

theorem run_line_breaks {written : List Chars} (h : ∀ w ∈ written, (∃ cell, Stands w cell) ∨ Breaks w) (hb : ∃ w ∈ written, Breaks w)
    (record : List Chars) (records : List (List Chars)) (rest : Chars) :
    (Reader.mk .start [] record records).run (line written ++ rest) = none := by
  induction written generalizing record with
  | nil =>
    obtain ⟨w, hw, -⟩ := hb
    cases hw
  | cons w ws ih =>
    cases ws with
    | nil =>
      obtain ⟨w', hw', hbreaks⟩ := hb
      cases List.mem_singleton.mp hw'
      rw [line, List.append_assoc]
      exact run_breaks record records hbreaks _
    | cons w' ws =>
      rw [line, List.append_assoc]
      · rcases h w List.mem_cons_self with ⟨cell, hstands⟩ | hbreaks
        · obtain ⟨mode, hmode, hrun⟩ := run_stands record records hstands
          rw [run_append, hrun, Option.bind_some, List.cons_append, run, step_comma _ _ hmode, Option.bind_some]
          refine ih (fun w'' hw'' => h w'' (List.mem_cons_of_mem _ hw'')) ?_ _
          obtain ⟨w'', hw'', hbreaks⟩ := hb
          rcases List.mem_cons.mp hw'' with rfl | hrest
          · exact absurd hbreaks (not_breaks hstands)
          · exact ⟨w'', hrest, hbreaks⟩
        · exact run_breaks record records hbreaks _
      · exact List.cons_ne_nil _ _

/-- Each of the record's cells stands as it may, or one of them breaks. -/
def Written (written cells : List Chars) : Prop :=
  AllStand written cells ∨ ((∀ w ∈ written, (∃ cell, Stands w cell) ∨ Breaks w) ∧ ∃ w ∈ written, Breaks w)

/-- Where any cell breaks, nothing at all is read. -/
theorem read_breaks {written cells : List (List Chars)} (h : List.Forall₂ Written written cells) (hne : ∀ r ∈ cells, r ≠ [])
    (hb : ∃ ws ∈ written, ∃ w ∈ ws, Breaks w) : read (written.flatMap line) = none := by
  have hrun : ∀ records, (between records).run (written.flatMap line) = none := by
    induction h with
    | nil =>
      obtain ⟨ws, hws, -⟩ := hb
      cases hws
    | @cons ws r rest rs hw _ ih =>
      intro records
      rw [List.flatMap_cons]
      rcases hw with hstand | ⟨hall, hbreaks⟩
      · rw [run_append, between, run_line hstand (hne r List.mem_cons_self) [] records, Option.bind_some]
        refine ih (fun r' hr' => hne r' (List.mem_cons_of_mem _ hr')) ?_ _
        obtain ⟨ws', hws', w, hmem, hbreaks⟩ := hb
        rcases List.mem_cons.mp hws' with rfl | htail
        · exact absurd hbreaks (not_breaks_of_allStand hstand w hmem)
        · exact ⟨ws', htail, w, hmem, hbreaks⟩
      · exact run_line_breaks hall hbreaks [] records _
  rw [read, hrun]
  rfl

end LinuxHardener.Csv
