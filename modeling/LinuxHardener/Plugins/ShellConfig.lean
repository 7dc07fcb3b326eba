import LinuxHardener.Lib.ShellFile

/-
  Reading a shell-sourced configuration file (`shell_config.rs`).

  Correspondence (Rust ↔ Lean):
    `shell_value` ↔ `shellValue`, its closure over a line `lineValue`
    `str::trim_matches` ↔ `trimMatches`

  What is proved:
    1. `seen_eq_value` — when a line is read for the value that the shell gives it.
    2. `shellValue_eq_source` — when a file is read as the shell sources it.
-/
namespace LinuxHardener.ShellConfig

open LineText ShellFile Trimmed
open Text hiding trim

/-- The name and the value of a line, as they stand around its `=`. -/
def nameAndValue (line : Chars) : Option (Chars × Chars) :=
  splitOnce '=' ((stripStart "export " (LineText.trim line)).getD (LineText.trim line))

def lineValue (key line : Chars) : Option Chars :=
  (nameAndValue line).bind fun cut =>
    if LineText.trim cut.1 = key then some (trimMatches isQuote (LineText.trim cut.2)) else none

def shellValue (content key : Chars) : Option Chars := ((lines content).filterMap (lineValue key)).getLast?

/-! ## Lines -/

theorem trim_eq (s : Chars) : LineText.trim s = trimMatches isWhitespace s := rfl

theorem isWhitespace_of_isBlank {c : Char} (h : isBlank c = true) : isWhitespace c = true := by
  rw [isBlank, Bool.or_eq_true, beq_iff_eq, beq_iff_eq] at h
  obtain rfl | rfl := h <;> rfl

theorem blanks_whitespace {blanks : Chars} (h : blanks.all isBlank = true) : ∀ c ∈ blanks, isWhitespace c = true :=
  fun c hc => isWhitespace_of_isBlank (List.all_eq_true.mp h c hc)

theorem newline_not_mem_blanks {blanks : Chars} (h : blanks.all isBlank = true) : '\n' ∉ blanks :=
  fun hmem => absurd (List.all_eq_true.mp h _ hmem) (by decide)

/-- A line is read as it is trimmed. -/
theorem lineValue_of_trim {key l m : Chars} (h : LineText.trim l = LineText.trim m) : lineValue key l = lineValue key m := by
  rw [lineValue, nameAndValue, h]
  rfl

/-- The lines of a file, each as it was written. -/
theorem filterMap_lines (key : Chars) {ls : List Chars} (h : ∀ l ∈ ls, '\n' ∉ l) :
    (lines (['\n'].intercalate ls)).filterMap (lineValue key) = ls.filterMap (lineValue key) := by
  induction ls with
  | nil => rfl
  | cons l ls ih =>
    have hl := h l List.mem_cons_self
    cases ls with
    | nil =>
      rw [List.intercalate_singleton]
      cases l with
      | nil => rfl
      | cons c l =>
        rw [lines, splitInclusive_open hl (List.cons_ne_nil c l), List.map_singleton, List.filterMap_cons, List.filterMap_cons,
          lineValue_of_trim (trim_stripTerminator _)]
    | cons m ls =>
      have hline : lineValue key (stripTerminator (l ++ ['\n'])) = lineValue key l :=
        lineValue_of_trim ((trim_stripTerminator _).trans (trim_concat isWhitespace_newline l))
      rw [List.intercalate_cons_cons, List.append_assoc, List.singleton_append, lines_cons hl, List.filterMap_cons,
        List.filterMap_cons, hline, ih fun k hk => h k (List.mem_cons_of_mem _ hk)]

theorem newline_not_mem_of_all {p : Char → Bool} {text : Chars} (hp : p '\n' = false) (h : text.all p = true) : '\n' ∉ text := by
  intro hmem
  have htrue := List.all_eq_true.mp h _ hmem
  rw [hp] at htrue
  cases htrue

theorem newline_not_mem_word (word : Word) : '\n' ∉ wordText word := by
  intro hmem
  obtain ⟨part, -, hpart⟩ := List.mem_flatMap.mp hmem
  cases part with
  | bare text plain => exact newline_not_mem_of_all (by decide) plain hpart
  | single text plain =>
    have htext : '\n' ∉ text := newline_not_mem_of_all (by decide) plain
    simp [Part.text, htext] at hpart
  | double text plain =>
    have htext : '\n' ∉ text := newline_not_mem_of_all (by decide) plain
    simp [Part.text, htext] at hpart

theorem isNameChar_of_mem {name : Chars} (h : isName name = true) : ∀ c ∈ name, isNameChar c = true := by
  cases name with
  | nil => cases h
  | cons d name =>
    rw [isName, Bool.and_eq_true] at h
    refine List.forall_mem_cons.mpr ⟨?_, List.all_eq_true.mp h.2⟩
    have hstart := h.1
    rw [isNameStart, Bool.or_eq_true] at hstart
    rw [isNameChar, Char.isAlphanum, Bool.or_eq_true, Bool.or_eq_true]
    exact hstart.imp_left .inl

/-- No name holds such a character. -/
theorem not_mem_name {name : Chars} (h : isName name = true) {c : Char} (hc : isNameChar c = false) : c ∉ name := by
  intro hmem
  rw [isNameChar_of_mem h c hmem] at hc
  cases hc

theorem newline_not_mem_text (line : Line) : '\n' ∉ line.text := by
  cases line with
  | blank blanks blank => exact newline_not_mem_blanks blank
  | comment indent text blank line =>
    have hindent := newline_not_mem_blanks blank
    simp [Line.text, hindent, line]
  | assignment a =>
    have hindent := newline_not_mem_blanks a.indent_blank
    have hname := not_mem_name a.name_valid (c := '\n') rfl
    have hword := newline_not_mem_word a.word
    have hkeyword : '\n' ∉ a.keyword := by
      rw [Assignment.keyword]
      cases hexported : a.exported with
      | none =>
        intro hmem
        cases hmem
      | some between =>
        have hbetween := newline_not_mem_blanks (a.exported_blank between hexported).2
        simp [hbetween]
    have htail : '\n' ∉ a.tail := by
      have hblanks := newline_not_mem_blanks a.blanks_blank
      rw [Assignment.tail]
      cases hremark : a.remark with
      | none => exact hblanks
      | some text =>
        have hline := a.remark_line text hremark
        simp [hblanks, hline]
    simp [Line.text, Assignment.text, hindent, hname, hword, hkeyword, htail]

/-! ## A line, read -/

theorem isWhitespace_of_isNameChar {c : Char} (h : isNameChar c = true) : isWhitespace c = false := by
  rw [isNameChar, Bool.or_eq_true, beq_iff_eq] at h
  obtain h | rfl := h
  · exact not_whitespace_of_isAlphanum h
  · rfl

/-- The white space before a solid character and all that stands behind the last one is taken off. -/
theorem trim_indented {indent s : Chars} {c : Char} (h : indent.all isBlank = true) (hc : isWhitespace c = false) :
    LineText.trim (indent ++ c :: s) = trimEnd (c :: s) := by
  rw [LineText.trim, trimStart, Trimmed.dropWhile_append_of_all (blanks_whitespace h), List.dropWhile_cons, if_neg (by simp [hc])]

theorem trim_trimEnd (s : Chars) : LineText.trim (trimEnd s) = LineText.trim s := by
  obtain ⟨stop, hstop, hblank, -⟩ := exists_dropWhile isWhitespace s.reverse
  have hs : s = trimEnd s ++ stop.reverse := by
    rw [trimEnd, ← List.reverse_append, ← hstop, List.reverse_reverse]
  conv_rhs => rw [hs]
  rw [trim_eq, trim_eq, trimMatches_append fun c hc => hblank c (List.mem_reverse.mp hc)]

/-- What is made of the text behind the `=`. -/
def stripQuotes (text : Chars) : Chars := trimMatches isQuote (LineText.trim text)

/-- `export` with a tab behind it, which is not taken off. -/
def behindTab (a : Assignment) : Bool := a.exported.bind List.head? == some '\t'

/-- The name a line is read for. -/
def nameRead (a : Assignment) : Chars := if behindTab a then a.keyword ++ a.name else a.name

/-- The value that is read. -/
def seen (a : Assignment) : Chars := stripQuotes (wordText a.word ++ a.tail)

/-- The name and the value a line is read for. -/
def lineRead : Line → Option (Chars × Chars)
  | .blank _ _ => none
  | .comment _ text _ _ => (splitOnce '=' text).map fun cut => ('#' :: trimEnd cut.1, stripQuotes cut.2)
  | .assignment a => some (nameRead a, seen a)

/-- Behind a name stands the `=`, and no blank. -/
theorem stripStart_export {name s : Chars} (h : isName name = true) : stripStart "export " (name ++ '=' :: s) = none := by
  cases hstrip : stripStart "export ".toList (name ++ '=' :: s) with
  | none => rfl
  | some rest =>
    have heq : name ++ '=' :: s = "export".toList ++ ' ' :: rest := (stripStart_eq_some.mp hstrip).trans rfl
    have hname := congrArg (List.takeWhile isNameChar) heq
    rw [List.takeWhile_append_of_pos (isNameChar_of_mem h),
      List.takeWhile_append_of_pos (forall_mem_of_all (by decide))] at hname
    have hsame : name = "export".toList := by simpa [isNameChar] using hname
    rw [hsame] at heq
    cases List.append_cancel_left heq

theorem stripStart_export_tab (s : Chars) : stripStart "export " ("export\t".toList ++ s) = none := by
  cases hstrip : stripStart "export ".toList ("export\t".toList ++ s) with
  | none => rfl
  | some rest =>
    have heq := congrArg (fun l => l[6]?) (stripStart_eq_some.mp hstrip)
    cases heq

/-- What the name and the value of a line are made into. -/
def readCut (cut : Chars × Chars) : Chars × Chars := (LineText.trim cut.1, trimMatches isQuote (LineText.trim cut.2))

theorem lineValue_eq (key line : Chars) :
    lineValue key line = ((nameAndValue line).map readCut).bind fun cut => if cut.1 = key then some cut.2 else none := by
  rw [lineValue]
  cases nameAndValue line <;> rfl

theorem trim_name {name : Chars} (h : isName name = true) : LineText.trim name = name := by
  refine trim_eq_self (fun c hc => ?_) fun c hc => ?_
  · exact isWhitespace_of_isNameChar (isNameChar_of_mem h c (List.mem_of_mem_head? hc))
  · exact isWhitespace_of_isNameChar (isNameChar_of_mem h c (List.mem_of_getLast? hc))

/-- The line of an assignment, once trimmed, is its name and what stands behind it. -/
theorem read_assignment (a : Assignment) : (nameAndValue a.text).map readCut = some (nameRead a, seen a) := by
  have hname := a.name_valid
  have hequals : '=' ∉ a.name := not_mem_name hname rfl
  have hvalue : trimMatches isQuote (LineText.trim (trimEnd (wordText a.word ++ a.tail))) = seen a := by
    rw [trim_trimEnd]
    rfl
  obtain ⟨c, rest, hcons⟩ : ∃ c rest, a.name = c :: rest := by
    cases hn : a.name with
    | nil =>
      rw [hn] at hname
      cases hname
    | cons c rest => exact ⟨c, rest, rfl⟩
  have hsolid : ∀ d ∈ a.name, isWhitespace d = false := fun d hd => isWhitespace_of_isNameChar (isNameChar_of_mem hname d hd)
  have hbehind : trimEnd (a.name ++ '=' :: (wordText a.word ++ a.tail)) = a.name ++ '=' :: trimEnd (wordText a.word ++ a.tail) := by
    rw [trimEnd_append_of_solid hsolid, trimEnd_cons rfl]
  have hcut {before : Chars} (hbefore : '=' ∉ before) (htrim : LineText.trim before = nameRead a)
      (hline : (stripStart "export " (LineText.trim a.text)).getD (LineText.trim a.text) =
        before ++ '=' :: trimEnd (wordText a.word ++ a.tail)) :
      (nameAndValue a.text).map readCut = some (nameRead a, seen a) := by
    rw [nameAndValue, hline, splitOnce_append hbefore, Option.map_some, readCut, htrim, hvalue]
  cases hexported : a.exported with
  | none =>
    have htrim : LineText.trim a.text = a.name ++ '=' :: trimEnd (wordText a.word ++ a.tail) := by
      rw [Assignment.text, Assignment.keyword, hexported, List.nil_append, hcons, List.cons_append,
        trim_indented a.indent_blank (hsolid c (hcons ▸ List.mem_cons_self)), ← List.cons_append, ← hcons, hbehind]
    refine hcut hequals ?_ ?_
    · have hspaced : behindTab a = false := by rw [behindTab, hexported]; rfl
      rw [trim_name hname, nameRead, hspaced, if_neg Bool.false_ne_true]
    · rw [htrim, stripStart_export hname, Option.getD_none]
  | some between =>
    have hbetween := a.exported_blank between hexported
    have htrim : LineText.trim a.text = "export".toList ++ between ++ (a.name ++ '=' :: trimEnd (wordText a.word ++ a.tail)) := by
      have hindented := trim_indented (c := 'e')
        (s := "xport".toList ++ between ++ (a.name ++ '=' :: (wordText a.word ++ a.tail))) a.indent_blank rfl
      rw [Assignment.text, Assignment.keyword, hexported]
      refine hindented.trans ?_
      change trimEnd ("export".toList ++ between ++ (a.name ++ '=' :: (wordText a.word ++ a.tail))) = _
      rw [trimEnd_append (by rw [hbehind, hcons]; nofun), hbehind]
    obtain ⟨d, between, rfl⟩ := List.exists_cons_of_ne_nil hbetween.1
    have hblank := List.all_eq_true.mp hbetween.2
    have hspace : between.all isBlank = true := List.all_eq_true.mpr fun e he => hblank e (List.mem_cons_of_mem _ he)
    have hequals' : '=' ∉ between ++ a.name := by
      intro hmem
      obtain hmem | hmem := List.mem_append.mp hmem
      · exact absurd (List.all_eq_true.mp hspace _ hmem) (by decide)
      · exact hequals hmem
    have hd := hblank d List.mem_cons_self
    rw [isBlank, Bool.or_eq_true, beq_iff_eq, beq_iff_eq] at hd
    obtain rfl | rfl := hd
    · refine hcut hequals' ?_ ?_
      · have hspaced : behindTab a = false := by rw [behindTab, hexported]; rfl
        rw [nameRead, hspaced, if_neg Bool.false_ne_true, trim_eq, ← List.append_nil (between ++ a.name),
          trimMatches_surround (blanks_whitespace hspace) (List.forall_mem_nil _), ← trim_eq, trim_name hname]
      · rw [htrim]
        change (stripStart "export " ("export ".toList ++ between ++ _)).getD _ = _
        rw [List.append_assoc, stripStart_append, Option.getD_some, List.append_assoc]
    · have hread : nameRead a = "export\t".toList ++ (between ++ a.name) := by
        have htabbed : behindTab a = true := by rw [behindTab, hexported]; rfl
        rw [nameRead, htabbed, if_pos rfl, Assignment.keyword, hexported]
        exact List.append_assoc ..
      have hbefore : '=' ∉ "export\t".toList ++ (between ++ a.name) := fun hmem =>
        (List.mem_append.mp hmem).elim (by decide) hequals'
      refine hcut hbefore ?_ ?_
      · rw [hread]
        refine trim_eq_self (fun e he => ?_) fun e he => ?_
        · cases he
          rfl
        · have hlast : a.name.getLast? = some e := by
            rw [← List.append_assoc, List.getLast?_append_of_ne_nil _ (by rw [hcons]; nofun)] at he
            exact he
          exact hsolid e (List.mem_of_getLast? hlast)
      · rw [htrim]
        change (stripStart "export " ("export\t".toList ++ between ++ _)).getD ("export\t".toList ++ between ++ _) = _
        rw [List.append_assoc, stripStart_export_tab, Option.getD_none]
        simp only [List.append_assoc]

theorem read_blank {blanks : Chars} (h : blanks.all isBlank = true) : nameAndValue blanks = none := by
  have htrim : LineText.trim blanks = [] := by
    rw [trim_eq, ← List.nil_append blanks, trimMatches_append (blanks_whitespace h)]
    rfl
  rw [nameAndValue, htrim]
  rfl

/-- A comment is read like any other line, for the name behind its `#`. -/
theorem read_comment {indent text : Chars} (h : indent.all isBlank = true) :
    (nameAndValue (indent ++ '#' :: text)).map readCut =
      (splitOnce '=' text).map fun cut => ('#' :: trimEnd cut.1, stripQuotes cut.2) := by
  have hstrip : stripStart "export ".toList ('#' :: trimEnd text) = none := if_neg (by simp)
  rw [nameAndValue, trim_indented h rfl, trimEnd_cons rfl, hstrip, Option.getD_none, splitOnce, if_neg (by decide)]
  cases hcut : splitOnce '=' text with
  | none =>
    have hnone : splitOnce '=' (trimEnd text) = none := by
      obtain ⟨rest, hrest⟩ := trimEnd_isPrefix text
      exact splitOnce_none.mpr fun hmem => splitOnce_none.mp hcut (hrest ▸ List.mem_append_left _ hmem)
    rw [hnone]
    rfl
  | some cut =>
    obtain ⟨before, behind⟩ := cut
    obtain ⟨rfl, hbefore⟩ := splitOnce_some hcut
    have hend : trimEnd (before ++ '=' :: behind) = before ++ '=' :: trimEnd behind := by
      rw [trimEnd_append (by rw [trimEnd_cons rfl]; exact List.cons_ne_nil _ _), trimEnd_cons rfl]
    have hname : LineText.trim ('#' :: before) = '#' :: trimEnd before := by
      rw [← List.nil_append ('#' :: before), trim_indented rfl rfl, trimEnd_cons rfl]
    rw [hend, splitOnce_append hbefore, Option.map_some, Option.map_some, Option.map_some, readCut, hname, trim_trimEnd]
    rfl

theorem lineValue_text (key : Chars) (line : Line) :
    lineValue key line.text = (lineRead line).bind fun cut => if cut.1 = key then some cut.2 else none := by
  rw [lineValue_eq]
  cases line with
  | blank blanks blank => rw [Line.text, read_blank blank]; rfl
  | comment indent text blank => rw [Line.text, read_comment blank]; rfl
  | assignment a => rw [Line.text, read_assignment]; rfl

/-! ## A value, read -/

/-- An assignment that is read for its value: no comment behind it, no white space at the ends of its
text, and its quotes are the quotes at the two ends and no others. -/
structure Plain (a : Assignment) : Prop where
  bare : a.remark = none
  solid : LineText.trim (wordText a.word) = wordText a.word
  quoted : MarkedEnds isQuote (marked a.word)

def isSolid (c : Char) : Bool := !isWhitespace c && !isQuote c

theorem isWhitespace_of_isQuote {c : Char} (h : isQuote c = true) : isWhitespace c = false := by
  rw [isQuote, Bool.or_eq_true, beq_iff_eq, beq_iff_eq] at h
  obtain rfl | rfl := h <;> rfl

/-- What is neither white space nor a quote is read, wherever it stands. -/
theorem filter_stripQuotes (text : Chars) : (stripQuotes text).filter isSolid = text.filter isSolid := by
  rw [stripQuotes, filter_trimMatches fun c hc => by simp [isSolid, hc], trim_eq, filter_trimMatches fun c hc => by simp [isSolid, hc]]

theorem remark_eq_none_of_seen {a : Assignment} (h : seen a = a.value) : a.remark = none := by
  cases hremark : a.remark with
  | none => rfl
  | some text =>
    have hsolid := congrArg (List.filter isSolid) h
    rw [seen, filter_stripQuotes, Assignment.value, filter_wordValue fun c hc => by simp [isSolid, hc], List.filter_append,
      List.append_right_eq_self, Assignment.tail, hremark] at hsolid
    exact absurd (List.filter_eq_nil_iff.mp hsolid '#' (by simp)) (by decide)

theorem trim_tail {a : Assignment} (h : a.remark = none) :
    LineText.trim (wordText a.word ++ a.tail) = LineText.trim (wordText a.word) := by
  rw [Assignment.tail, h, trim_eq, trim_eq, trimMatches_append (blanks_whitespace a.blanks_blank)]

/-- White space that is trimmed away was part of the value. -/
theorem trim_wordText_of_seen {a : Assignment} (h : seen a = a.value) : LineText.trim (wordText a.word) = wordText a.word := by
  have hbare := remark_eq_none_of_seen h
  have hunquoted := congrArg (List.filter fun c => !isQuote c) h
  rw [seen, stripQuotes, trim_tail hbare, filter_trimMatches fun c hc => by simp [hc], Assignment.value,
    filter_wordValue fun c hc => by simp [hc]] at hunquoted
  obtain ⟨lead, trail, hword, hlead, htrail, -⟩ := exists_trimMatches isWhitespace (wordText a.word)
  rw [← trim_eq] at hword
  have hself {ends : Chars} (hends : ∀ c ∈ ends, isWhitespace c = true) : ends.filter (fun c => !isQuote c) = ends := by
    refine List.filter_eq_self.mpr fun c hc => ?_
    cases hquote : isQuote c with
    | false => rfl
    | true =>
      have hsolid := isWhitespace_of_isQuote hquote
      rw [hends c hc] at hsolid
      cases hsolid
  have hlength := congrArg List.length hunquoted
  conv_rhs at hlength => rw [hword]
  rw [List.filter_append, List.filter_append, hself hlead, hself htrail, List.length_append, List.length_append] at hlength
  have hlead' : lead = [] := List.length_eq_zero_iff.mp (by omega)
  have htrail' : trail = [] := List.length_eq_zero_iff.mp (by omega)
  rw [hlead', htrail', List.nil_append, List.append_nil] at hword
  exact hword.symm

/-- A line is read for the value that the shell gives it exactly where it is plain. -/
theorem seen_eq_value (a : Assignment) : seen a = a.value ↔ Plain a := by
  have hends (hbare : a.remark = none) (hsolid : LineText.trim (wordText a.word) = wordText a.word) :
      seen a = a.value ↔ MarkedEnds isQuote (marked a.word) := by
    rw [seen, stripQuotes, trim_tail hbare, hsolid, Assignment.value, ← text_eq_marked, ← value_eq_marked]
    exact trimMatches_erase fun m hm => isQuote_of_marked hm
  constructor
  · intro h
    have hbare := remark_eq_none_of_seen h
    have hsolid := trim_wordText_of_seen h
    exact ⟨hbare, hsolid, (hends hbare hsolid).mp h⟩
  · intro h
    exact (hends h.bare h.solid).mpr h.quoted

/-! ## Files -/

/-- The assignment to a variable whose name is read. -/
def assignmentRead? (key : Chars) (line : Line) : Option Assignment := (line.assignment? key).filter fun a => !behindTab a

/-- When the last assignment to a variable is read for its value. One that is exported behind a tab
is passed over, and the one above it that is read must say the same. -/
def ReadAlike (file : List Line) (key : Chars) : Prop :=
  match (file.filterMap (Line.assignment? key)).getLast? with
  | none => ∀ line ∈ file, (lineRead line).map Prod.fst ≠ some key
  | some a =>
    if behindTab a then ∃ b, (file.filterMap (assignmentRead? key)).getLast? = some b ∧ stripQuotes (wordText b.word ++ b.tail) = a.value
    else Plain a

theorem tab_mem_keyword {a : Assignment} (h : behindTab a = true) : '\t' ∈ a.keyword := by
  obtain ⟨between, hexported, hhead⟩ := Option.bind_eq_some_iff.mp (beq_iff_eq.mp h)
  rw [Assignment.keyword, hexported]
  exact List.mem_append_right _ (List.mem_of_mem_head? hhead)

/-- A name is read only where a line assigns to it. -/
theorem lineRead_name {key : Chars} (hkey : isName key = true) (line : Line) :
    ((lineRead line).bind fun cut => if cut.1 = key then some cut.2 else none) = (assignmentRead? key line).map seen := by
  cases line with
  | blank blanks => rfl
  | comment indent text =>
    rw [lineRead]
    cases splitOnce '=' text with
    | none => rfl
    | some cut =>
      have hne : '#' :: trimEnd cut.1 ≠ key := fun heq => not_mem_name hkey (c := '#') rfl (heq ▸ List.mem_cons_self)
      exact if_neg hne
  | assignment a =>
    rw [lineRead, Option.bind_some, assignmentRead?, Line.assignment?, nameRead]
    cases htab : behindTab a with
    | true =>
      have hne : a.keyword ++ a.name ≠ key := by
        intro heq
        have hmem : '\t' ∈ a.keyword ++ a.name := List.mem_append_left _ (tab_mem_keyword htab)
        exact not_mem_name hkey rfl (heq ▸ hmem)
      rw [if_pos rfl, if_neg hne]
      by_cases hname : a.name = key
      · rw [if_pos hname, Option.filter_some, htab]
        rfl
      · rw [if_neg hname]
        rfl
    | false =>
      rw [if_neg Bool.false_ne_true]
      by_cases hname : a.name = key
      · rw [if_pos hname, if_pos hname, Option.filter_some, htab]
        rfl
      · rw [if_neg hname, if_neg hname]
        rfl

theorem shellValue_fileText (file : List Line) (key : Chars) :
    shellValue (fileText file) key =
      (file.filterMap fun line => (lineRead line).bind fun cut => if cut.1 = key then some cut.2 else none).getLast? := by
  rw [shellValue, fileText, filterMap_lines key, List.filterMap_map]
  · congr 2
    funext line
    exact lineValue_text key line
  · intro l hl
    obtain ⟨line, -, rfl⟩ := List.mem_map.mp hl
    exact newline_not_mem_text line

theorem name_of_assigned {file : List Line} {key : Chars} {a : Assignment} (h : a ∈ file.filterMap (Line.assignment? key)) : a.name = key := by
  obtain ⟨line, -, hline⟩ := List.mem_filterMap.mp h
  cases line with
  | blank => cases hline
  | comment => cases hline
  | assignment b =>
    rw [Line.assignment?] at hline
    split at hline
    · next hname =>
      cases hline
      exact hname
    · cases hline

theorem getLast?_filter {α : Type} {p : α → Bool} {l : List α} {a : α} (h : l.getLast? = some a) (ha : p a = true) :
    (l.filter p).getLast? = some a := by
  obtain ⟨start, rfl⟩ := List.getLast?_eq_some_iff.mp h
  rw [List.filter_append, List.filter_cons_of_pos ha, List.filter_nil, List.getLast?_concat]

/-- A file is read as the shell sources it exactly where its last assignment is read for its value. -/
theorem shellValue_eq_source (file : List Line) (key : Chars) :
    shellValue (fileText file) key = source file key ↔ ReadAlike file key := by
  rw [shellValue_fileText, source_eq_last, ReadAlike]
  cases hlast : (file.filterMap (Line.assignment? key)).getLast? with
  | none =>
    rw [Option.map_none, List.getLast?_eq_none_iff, List.filterMap_eq_nil_iff]
    refine forall₂_congr fun line _ => ?_
    cases lineRead line with
    | none => exact iff_of_true rfl nofun
    | some cut => simp
  | some a =>
    have hassigned := name_of_assigned (List.mem_of_getLast? hlast)
    have hkey : isName key = true := hassigned ▸ a.name_valid
    have hread : (file.filterMap fun line => (lineRead line).bind fun cut => if cut.1 = key then some cut.2 else none) =
        (file.filterMap (assignmentRead? key)).map seen := by
      rw [List.map_filterMap]
      congr 1
      funext line
      exact lineRead_name hkey line
    have hfilter : file.filterMap (assignmentRead? key) = (file.filterMap (Line.assignment? key)).filter fun a => !behindTab a := by
      rw [List.filter_filterMap]
      rfl
    rw [hread, List.getLast?_map, Option.map_some]
    dsimp only
    cases htab : behindTab a with
    | true =>
      rw [if_pos rfl, Option.map_eq_some_iff]
      rfl
    | false =>
      rw [if_neg Bool.false_ne_true, hfilter, getLast?_filter hlast (by rw [htab]; rfl), Option.map_some, Option.some_inj]
      exact seen_eq_value a

/-- A comment behind the value is read as part of it. -/
def remarked : Assignment where
  indent := []
  exported := none
  name := "ENABLED"
  word := [.bare "yes" rfl]
  blanks := [' ']
  remark := some " on"
  indent_blank := rfl
  exported_blank := nofun
  exported_word := nofun
  name_valid := rfl
  word_plain := by decide
  blanks_blank := rfl
  remark_apart := nofun
  remark_line _ h := by
    cases h
    decide

theorem remark_read : ¬ ∀ file key, shellValue (fileText file) key = source file key := by
  intro h
  have hread := h [.assignment remarked] "ENABLED"
  exact absurd hread (by decide)

end LinuxHardener.ShellConfig
