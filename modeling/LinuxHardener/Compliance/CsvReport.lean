import LinuxHardener.Compliance.Report
import LinuxHardener.Lib.Csv
import LinuxHardener.Lib.Cut

/-
  The report as comma-separated records, and what a reader of them gets.

  What is proved:
    1. `formatAll_reads_back_iff` — the records of any reports are read as their rows,
       exactly if no text has a carriage return outside quotes.
    2. `no_formula_read` — whatever was read, no cell of it begins as a formula does.
    3. `formatAll_faithful` — where both read back, reports with the same records have the
       same rows.

  Correspondence (Rust ↔ Lean):
    `ComplianceFramework::{fmt, full_name, description}`, `ComplianceProfile::fmt` ↔ `display`, `fullName`,
                              `description`, `display`
    `escape_csv_field`        ↔ `escapeCsvField`
    `write_report_rows`       ↔ `writeReportRows`
    `CsvFormatter::{format, format_all}` ↔ `CsvFormatter.{format, formatAll}`
-/
namespace LinuxHardener.Compliance

open LineText (Chars decimal)
open Csv (Stands IsBare Breaks AllStand Written quote doubled)

namespace ComplianceFramework

def display : ComplianceFramework → Chars
  | .cis => "CIS".toList
  | .hipaa => "HIPAA".toList
  | .iso27001 => "ISO27001".toList
  | .nist => "NIST".toList
  | .pcidss => "PCIDSS".toList
  | .stig => "STIG".toList
  | .gdpr => "GDPR".toList
  | .soc2 => "SOC 2".toList
  | .nist800171 => "NIST 800-171".toList
  | .fedRAMP => "FedRAMP".toList

def fullName : ComplianceFramework → Chars
  | .cis => "CIS Benchmark".toList
  | .hipaa => "HIPAA Security Rule".toList
  | .iso27001 => "ISO/IEC 27001".toList
  | .nist => "NIST 800-53".toList
  | .pcidss => "PCI-DSS v4.0".toList
  | .stig => "DISA STIG".toList
  | .gdpr => "GDPR Article 32".toList
  | .soc2 => "SOC 2 Trust Services Criteria".toList
  | .nist800171 => "NIST SP 800-171".toList
  | .fedRAMP => "FedRAMP Moderate Baseline".toList

def description : ComplianceFramework → Chars
  | .cis => "Center for Internet Security Benchmarks for Linux".toList
  | .hipaa => "Health Insurance Portability and Accountability Act".toList
  | .iso27001 => "International Organisation for Standardisation 27001".toList
  | .nist => "National Institute of Standards and Technology Special Publication 800-53".toList
  | .pcidss => "Payment Card Industry Data Security Standard".toList
  | .stig => "Defense Information Systems Agency Security Technical Implementation Guides".toList
  | .gdpr => "European Union General Data Protection Regulation".toList
  | .soc2 => "AICPA Trust Services Criteria (2017, with 2022 points of focus)".toList
  | .nist800171 => "NIST SP 800-171 Revision 3 protection of Controlled Unclassified Information".toList
  | .fedRAMP => "FedRAMP Moderate baseline (Rev 5) of NIST SP 800-53 controls for federal cloud authorisation".toList

end ComplianceFramework

def ComplianceProfile.display : ComplianceProfile → Chars
  | .generic => "generic".toList
  | .rhel10 => "rhel10".toList

/-! ## The formatter -/

namespace CsvFormatter

def formulaChars : List Char := ['=', '+', '-', '@', '\t', '\r']

/-- A spreadsheet may take the text for a formula. -/
def needsFormulaGuard (field : Chars) : Bool := field.head?.any formulaChars.contains

def isQuoted (field : Chars) : Bool := needsFormulaGuard field || field.contains ',' || field.contains '"' || field.contains '\n'

def escapeCsvField (field : Chars) : Chars :=
  if isQuoted field then
    if needsFormulaGuard field then '"' :: '\t' :: doubled field ++ ['"'] else '"' :: doubled field ++ ['"']
  else field

def statusStr : ControlStatus → Chars
  | .pass => "PASS".toList
  | .fail => "FAIL".toList
  | .notApplicable => "N/A".toList
  | .manualReview => "MANUAL".toList

def isPolicyExcepted (f : Finding) : Bool :=
  match f.findingException with
  | .applied _ => true
  | _ => false

def liveFindings (control : ControlResult) : Nat := control.controlFindings.countP fun f => !isPolicyExcepted f

def writeReportRows (report : ComplianceReport) : Chars :=
  report.reportControls.flatMap fun control => Csv.line
    [escapeCsvField report.reportFramework.display, escapeCsvField report.reportFramework.fullName,
      escapeCsvField report.reportFramework.description, escapeCsvField control.controlId.toList,
      escapeCsvField control.controlTitle.toList, escapeCsvField control.controlSection.toList,
      statusStr control.controlStatus, decimal (liveFindings control), escapeCsvField report.reportProfile.display]

def csvHeader : Chars :=
  ("Framework,Framework Name,Framework Description,Control ID,Control Title,Section,Status," ++ "Finding Count,Profile\n").toList

def formatAll (reports : List ComplianceReport) : Chars := csvHeader ++ reports.flatMap writeReportRows

def format (report : ComplianceReport) : Chars := csvHeader ++ writeReportRows report

/-! ## Cells -/

/-- The text as a reader has it: with a tab before it where it was guarded. -/
def guarded (field : Chars) : Chars := if needsFormulaGuard field then '\t' :: field else field

/-- The text has no carriage return outside quotes. -/
def Readable (field : Chars) : Prop := '\r' ∈ field → isQuoted field = true

instance (field : Chars) : Decidable (Readable field) :=
  decidable_of_iff (field.contains '\r' = false ∨ isQuoted field = true) (by rw [Readable, imp_iff_not_or]; simp)

theorem unquoted_chars {field : Chars} (h : isQuoted field = false) : ∀ c ∈ field, c ≠ '"' ∧ c ≠ ',' ∧ c ≠ '\n' := by
  intro c hc
  simp only [isQuoted, Bool.or_eq_false_iff] at h
  obtain ⟨⟨⟨-, hcomma⟩, hquote⟩, hline⟩ := h
  refine ⟨?_, ?_, ?_⟩ <;> rintro rfl
  · rw [List.contains_iff_mem.mpr hc] at hquote
    cases hquote
  · rw [List.contains_iff_mem.mpr hc] at hcomma
    cases hcomma
  · rw [List.contains_iff_mem.mpr hc] at hline
    cases hline

theorem doubled_cons {c : Char} (hc : c ≠ '"') (field : Chars) : doubled (c :: field) = c :: doubled field := by
  rw [doubled, List.flatMap_cons, if_neg hc]
  rfl

theorem stands_escape {field : Chars} (h : Readable field) : Stands (escapeCsvField field) (guarded field) := by
  rw [escapeCsvField, guarded]
  cases hq : isQuoted field with
  | true =>
    refine .inr ?_
    rw [if_pos rfl]
    split
    · rw [quote, doubled_cons (by decide)]
    · rw [quote]
  | false =>
    have hguard : needsFormulaGuard field = false := by
      rw [isQuoted] at hq
      simp only [Bool.or_eq_false_iff] at hq
      exact hq.1.1.1
    have hreturn : '\r' ∉ field := fun hmem => by
      rw [h hmem] at hq
      cases hq
    rw [if_neg (by decide), hguard, if_neg (by decide)]
    refine .inl ⟨rfl, fun c hc => ?_⟩
    obtain ⟨hquote, hcomma, hline⟩ := unquoted_chars hq c hc
    exact ⟨hquote, hcomma, hline, fun heq => hreturn (heq ▸ hc)⟩

theorem breaks_escape {field : Chars} (h : ¬ Readable field) : Breaks (escapeCsvField field) := by
  rw [Readable, Classical.not_imp, Bool.not_eq_true] at h
  obtain ⟨hmem, hq⟩ := h
  obtain ⟨s, rest, hsplit, hfirst⟩ := List.eq_append_cons_of_mem hmem
  refine ⟨s, rest, fun c hc => ?_, ?_⟩
  · obtain ⟨hquote, hcomma, hline⟩ := unquoted_chars hq c (by rw [hsplit]; exact List.mem_append_left _ hc)
    exact ⟨hquote, hcomma, hline, fun heq => hfirst (heq ▸ hc)⟩
  · rw [escapeCsvField, hq, if_neg (by decide), hsplit]

theorem stands_or_breaks (field : Chars) : (∃ cell, Stands (escapeCsvField field) cell) ∨ Breaks (escapeCsvField field) := by
  by_cases h : Readable field
  · exact .inl ⟨_, stands_escape h⟩
  · exact .inr (breaks_escape h)

theorem isBare_statusStr (status : ControlStatus) : IsBare (statusStr status) := by
  cases status <;> decide

theorem isBare_decimal (n : Nat) : IsBare (decimal n) := by
  intro c hc
  have hdigit := LineText.isDigit_decimal hc
  refine ⟨?_, ?_, ?_, ?_⟩ <;> rintro rfl <;> exact absurd hdigit (by decide)

theorem readable_framework (framework : ComplianceFramework) :
    Readable framework.display ∧ Readable framework.fullName ∧ Readable framework.description := by
  cases framework <;> decide +kernel

theorem readable_profile (profile : ComplianceProfile) : Readable profile.display := by
  cases profile <;> decide

/-! ## Rows -/

/-- The three texts of a row that are the control's own. -/
def texts (control : ControlResult) : List Chars := [control.controlId.toList, control.controlTitle.toList, control.controlSection.toList]

/-- The row as it is written. -/
def writtenRow (report : ComplianceReport) (control : ControlResult) : List Chars :=
  [escapeCsvField report.reportFramework.display, escapeCsvField report.reportFramework.fullName,
    escapeCsvField report.reportFramework.description, escapeCsvField control.controlId.toList,
    escapeCsvField control.controlTitle.toList, escapeCsvField control.controlSection.toList,
    statusStr control.controlStatus, decimal (liveFindings control), escapeCsvField report.reportProfile.display]

/-- The row as a reader has it. -/
def row (report : ComplianceReport) (control : ControlResult) : List Chars :=
  [guarded report.reportFramework.display, guarded report.reportFramework.fullName, guarded report.reportFramework.description,
    guarded control.controlId.toList, guarded control.controlTitle.toList, guarded control.controlSection.toList,
    statusStr control.controlStatus, decimal (liveFindings control), guarded report.reportProfile.display]

theorem written_row (report : ComplianceReport) (control : ControlResult) :
    Written (writtenRow report control) (row report control) ∧
      ((∃ w ∈ writtenRow report control, Breaks w) ↔ ∃ t ∈ texts control, ¬ Readable t) := by
  obtain ⟨hdisplay, hname, hdescription⟩ := readable_framework report.reportFramework
  have hprofile := readable_profile report.reportProfile
  have hstatus : Stands (statusStr control.controlStatus) (statusStr control.controlStatus) := .inl ⟨rfl, isBare_statusStr _⟩
  have hcount : Stands (decimal (liveFindings control)) (decimal (liveFindings control)) := .inl ⟨rfl, isBare_decimal _⟩
  have hbreaks : (∃ w ∈ writtenRow report control, Breaks w) ↔ ∃ t ∈ texts control, ¬ Readable t := by
    have htext : ∀ field, Breaks (escapeCsvField field) ↔ ¬ Readable field :=
      fun field => ⟨fun hb hr => Csv.not_breaks (stands_escape hr) hb, breaks_escape⟩
    simp only [writtenRow, texts, List.mem_cons, List.not_mem_nil, or_false, exists_eq_or_imp, exists_eq_left, htext, hdisplay,
      hname, hdescription, hprofile, not_true, Csv.not_breaks hstatus, Csv.not_breaks hcount, false_or]
  refine ⟨?_, hbreaks⟩
  by_cases hall : ∀ t ∈ texts control, Readable t
  · have hid := hall control.controlId.toList (by simp [texts])
    have htitle := hall control.controlTitle.toList (by simp [texts])
    have hsection := hall control.controlSection.toList (by simp [texts])
    exact .inl (.cons (stands_escape hdisplay) (.cons (stands_escape hname) (.cons (stands_escape hdescription)
      (.cons (stands_escape hid) (.cons (stands_escape htitle) (.cons (stands_escape hsection)
        (.cons hstatus (.cons hcount (.cons (stands_escape hprofile) .nil)))))))))
  · refine .inr ⟨fun w hw => ?_, hbreaks.mpr (by simpa using hall)⟩
    simp only [writtenRow, List.mem_cons, List.not_mem_nil, or_false] at hw
    rcases hw with rfl | rfl | rfl | rfl | rfl | rfl | rfl | rfl | rfl
    case inr.inr.inr.inr.inr.inr.inl => exact .inl ⟨_, hstatus⟩
    case inr.inr.inr.inr.inr.inr.inr.inl => exact .inl ⟨_, hcount⟩
    all_goals exact stands_or_breaks _

def headerCells : List Chars :=
  ["Framework".toList, "Framework Name".toList, "Framework Description".toList, "Control ID".toList, "Control Title".toList,
    "Section".toList, "Status".toList, "Finding Count".toList, "Profile".toList]

theorem csvHeader_eq : csvHeader = Csv.line headerCells := by decide +kernel

theorem written_header : AllStand headerCells headerCells := by
  have hbare : ∀ cell ∈ headerCells, IsBare cell := by decide +kernel
  exact List.forall₂_same.mpr fun cell hcell => .inl ⟨rfl, hbare cell hcell⟩

/-- The controls of the reports, each with its report. -/
def entries (reports : List ComplianceReport) : List (ComplianceReport × ControlResult) :=
  reports.flatMap fun report => report.reportControls.map fun control => (report, control)

theorem formatAll_eq (reports : List ComplianceReport) :
    formatAll reports = (headerCells :: (entries reports).map fun e => writtenRow e.1 e.2).flatMap Csv.line := by
  rw [formatAll, csvHeader_eq, List.flatMap_cons, entries, List.map_flatMap, List.flatMap_assoc]
  refine congrArg _ (List.flatMap_congr fun report _ => ?_)
  rw [List.map_map, List.flatMap_map]
  rfl

/-- What a reader of the reports should get. -/
def records (reports : List ComplianceReport) : List (List Chars) := headerCells :: (entries reports).map fun e => row e.1 e.2

theorem records_ne_nil (reports : List ComplianceReport) : ∀ r ∈ records reports, r ≠ [] := by
  intro r hr
  rcases List.mem_cons.mp hr with rfl | hrest
  · exact List.cons_ne_nil _ _
  · obtain ⟨e, -, rfl⟩ := List.mem_map.mp hrest
    exact List.cons_ne_nil _ _

theorem forall₂_entries {R : List Chars → List Chars → Prop} (reports : List ComplianceReport) (hheader : R headerCells headerCells)
    (hrow : ∀ e ∈ entries reports, R (writtenRow e.1 e.2) (row e.1 e.2)) :
    List.Forall₂ R (headerCells :: (entries reports).map fun e => writtenRow e.1 e.2) (records reports) :=
  .cons hheader (List.forall₂_map_left_iff.mpr (List.forall₂_map_right_iff.mpr (List.forall₂_same.mpr hrow)))

theorem read_formatAll {reports : List ComplianceReport} (h : ∀ e ∈ entries reports, ∀ t ∈ texts e.2, Readable t) :
    Csv.read (formatAll reports) = some (records reports) := by
  rw [formatAll_eq]
  refine Csv.read_records (forall₂_entries reports written_header fun e he => ?_) (records_ne_nil reports)
  obtain ⟨hwritten, hbreaks⟩ := written_row e.1 e.2
  rcases hwritten with hstand | ⟨-, hb⟩
  · exact hstand
  · obtain ⟨t, ht, hnot⟩ := hbreaks.mp hb
    exact absurd (h e he t ht) hnot

theorem read_formatAll_none {reports : List ComplianceReport} (h : ¬ ∀ e ∈ entries reports, ∀ t ∈ texts e.2, Readable t) :
    Csv.read (formatAll reports) = none := by
  simp only [not_forall] at h
  obtain ⟨e, he, t, ht, hnot⟩ := h
  obtain ⟨w, hw, hbreaks⟩ := (written_row e.1 e.2).2.mpr ⟨t, ht, hnot⟩
  rw [formatAll_eq]
  exact Csv.read_breaks (forall₂_entries reports (.inl written_header) fun e _ => (written_row e.1 e.2).1) (records_ne_nil reports)
    ⟨_, List.mem_cons_of_mem _ (List.mem_map_of_mem he), w, hw, hbreaks⟩

/-- The records are read as the reports' rows exactly if no control's text has a carriage return
that is written outside quotes; otherwise nothing is read. -/
theorem formatAll_reads_back_iff (reports : List ComplianceReport) :
    (Csv.read (formatAll reports) = some (records reports) ↔ ∀ e ∈ entries reports, ∀ t ∈ texts e.2, Readable t) ∧
      (Csv.read (formatAll reports) = none ↔ ∃ e ∈ entries reports, ∃ t ∈ texts e.2, ¬ Readable t) := by
  by_cases h : ∀ e ∈ entries reports, ∀ t ∈ texts e.2, Readable t
  · have hread := read_formatAll h
    refine ⟨iff_of_true hread h, iff_of_false ?_ ?_⟩
    · rw [hread]
      exact Option.some_ne_none _
    · simpa using h
  · have hnone := read_formatAll_none h
    refine ⟨iff_of_false ?_ h, iff_of_true hnone (by simpa using h)⟩
    rw [hnone]
    exact Option.some_ne_none _ ∘ Eq.symm

/-! ## Formulas -/

/-- No spreadsheet takes the cell for a formula. -/
def IsText (cell : Chars) : Prop := ∀ c, cell.head? = some c → c ∉ ['=', '+', '-', '@', '\r']

theorem isText_guarded (field : Chars) : IsText (guarded field) := by
  intro c hc
  rw [guarded] at hc
  split at hc
  · cases hc
    decide
  · next hguard =>
    rw [needsFormulaGuard, hc, Option.any_some, List.contains_iff_mem] at hguard
    intro hmem
    simp only [formulaChars, List.mem_cons, List.not_mem_nil, or_false, not_or] at hguard hmem
    rcases hmem with rfl | rfl | rfl | rfl | rfl <;> simp at hguard

theorem isText_row (report : ComplianceReport) (control : ControlResult) : ∀ cell ∈ row report control, IsText cell := by
  have hstatus : IsText (statusStr control.controlStatus) := by
    intro c hc
    cases hs : control.controlStatus <;> rw [hs] at hc <;> cases hc <;> decide
  have hcount : IsText (decimal (liveFindings control)) := by
    intro c hc hmem
    have hdigit := LineText.isDigit_decimal (List.mem_of_mem_head? hc)
    simp only [List.mem_cons, List.not_mem_nil, or_false] at hmem
    rcases hmem with rfl | rfl | rfl | rfl | rfl <;> exact absurd hdigit (by decide)
  intro cell hcell
  simp only [row, List.mem_cons, List.not_mem_nil, or_false] at hcell
  rcases hcell with rfl | rfl | rfl | rfl | rfl | rfl | rfl | rfl | rfl
  case inr.inr.inr.inr.inr.inr.inl => exact hstatus
  case inr.inr.inr.inr.inr.inr.inr.inl => exact hcount
  all_goals exact isText_guarded _

/-- A control whose title a spreadsheet would take for a formula, and has all there is to quote. -/
def accessControl : ControlResult := ⟨"CC6.1", "=HYPERLINK(\"x\",1)\n", "Access", .fail, []⟩

def formulaReport (controls : List ControlResult) : ComplianceReport where
  reportFramework := .soc2
  reportProfile := .generic
  reportControls := controls
  reportSummary := ⟨1, 0, 1, 0, 0, 0⟩
  reportCoverageNote := none

theorem readable_accessControl : ∀ t ∈ texts accessControl, Readable t := by
  intro t ht
  simp only [texts, List.mem_cons, List.not_mem_nil, or_false] at ht
  rcases ht with rfl | rfl | rfl <;> decide +kernel

theorem readable_formulaReport : ∀ e ∈ entries [formulaReport [accessControl]], ∀ t ∈ texts e.2, Readable t := by
  intro e he
  cases List.mem_singleton.mp he
  exact readable_accessControl

/-- What a row is about. -/
structure Facts where
  framework : ComplianceFramework
  profile : ComplianceProfile
  controlId : String
  controlTitle : String
  controlSection : String
  controlStatus : ControlStatus
  live : Nat
  deriving DecidableEq, Repr

def facts (e : ComplianceReport × ControlResult) : Facts where
  framework := e.1.reportFramework
  profile := e.1.reportProfile
  controlId := e.2.controlId
  controlTitle := e.2.controlTitle
  controlSection := e.2.controlSection
  controlStatus := e.2.controlStatus
  live := liveFindings e.2

theorem guarded_injective : Function.Injective guarded := by
  have hhead : ∀ field, needsFormulaGuard field = false → field.head? ≠ some '\t' := by
    intro field h hhead
    rw [needsFormulaGuard, hhead] at h
    exact absurd h (by decide)
  intro s t h
  rw [guarded, guarded] at h
  cases hs : needsFormulaGuard s <;> cases ht : needsFormulaGuard t <;> rw [hs, ht] at h <;> simp only [if_true, Bool.false_eq_true, if_false] at h
  · exact h
  · exact absurd (by rw [h]; rfl) (hhead s hs)
  · exact absurd (by rw [← h]; rfl) (hhead t ht)
  · exact (List.cons.inj h).2

theorem display_injective : Function.Injective ComplianceFramework.display := by
  intro a b h
  cases a <;> cases b <;> first | rfl | exact absurd h (by decide)

theorem display_profile_injective : Function.Injective ComplianceProfile.display := by
  intro a b h
  cases a <;> cases b <;> first | rfl | exact absurd h (by decide)

theorem statusStr_injective : Function.Injective statusStr := by
  intro a b h
  cases a <;> cases b <;> first | rfl | exact absurd h (by decide)

theorem facts_eq_of_row {e e' : ComplianceReport × ControlResult} (h : row e.1 e.2 = row e'.1 e'.2) : facts e = facts e' := by
  simp only [row, List.cons.injEq, and_true] at h
  obtain ⟨hframework, -, -, hid, htitle, hsection, hstatus, hcount, hprofile⟩ := h
  rw [facts, facts, display_injective (guarded_injective hframework), display_profile_injective (guarded_injective hprofile),
    String.toList_injective (guarded_injective hid), String.toList_injective (guarded_injective htitle),
    String.toList_injective (guarded_injective hsection), statusStr_injective hstatus, LineText.decimal_injective hcount]

/-- Where both read back, the same records are of the same rows: frameworks, profiles, controls and
their counts. -/
theorem formatAll_faithful {reports reports' : List ComplianceReport} (h : ∀ e ∈ entries reports, ∀ t ∈ texts e.2, Readable t)
    (h' : ∀ e ∈ entries reports', ∀ t ∈ texts e.2, Readable t) (heq : formatAll reports = formatAll reports') :
    (entries reports).map facts = (entries reports').map facts := by
  have hread := read_formatAll h
  rw [heq, read_formatAll h'] at hread
  have hrows : (entries reports).map (fun e => row e.1 e.2) = (entries reports').map fun e => row e.1 e.2 :=
    (List.cons.inj (Option.some.inj hread)).2.symm
  have hlength := congrArg List.length hrows
  rw [List.length_map, List.length_map] at hlength
  refine List.ext_getElem (by rw [List.length_map, List.length_map, hlength]) fun n hn hn' => ?_
  rw [List.length_map] at hn hn'
  have hrow := List.getElem_of_eq hrows (by rwa [List.length_map])
  rw [List.getElem_map, List.getElem_map] at hrow ⊢
  exact facts_eq_of_row hrow

/-- Two reports of a control each, and one of both. -/
theorem formatAll_faithful_formulaReport :
    (entries [formulaReport [accessControl], formulaReport [accessControl]]).map facts =
      (entries [formulaReport [accessControl, accessControl]]).map facts :=
  have h : ∀ e ∈ entries [formulaReport [accessControl], formulaReport [accessControl]], ∀ t ∈ texts e.2, Readable t := by
    intro e he
    rcases List.mem_cons.mp he with rfl | hlast
    · exact readable_accessControl
    · cases List.mem_singleton.mp hlast
      exact readable_accessControl
  have h' : ∀ e ∈ entries [formulaReport [accessControl, accessControl]], ∀ t ∈ texts e.2, Readable t := by
    intro e he
    rcases List.mem_cons.mp he with rfl | hlast
    · exact readable_accessControl
    · cases List.mem_singleton.mp hlast
      exact readable_accessControl
  formatAll_faithful h h' rfl

end CsvFormatter

end LinuxHardener.Compliance
