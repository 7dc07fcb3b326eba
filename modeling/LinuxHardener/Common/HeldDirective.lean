import LinuxHardener.Common.WriterFrame

/-
  A directive that a file holds: in its global scope one live line, spelled as the writer
  spells it.

  What is proved:
    1. `splitInclusive_set` — the lines of a text that was written, each of them closed.
    2. `holds_set`, `holds_set_other` — an edit makes its own directive held and leaves the
       others as they were, and what is read of them (`parse_set`, `parse_set_other`).
    3. `linesWithText_set_of_holds`, `holds_of_linesWithText_set` — where setting the directive
       changes no line with text in it: it is held, and no carriage return stands open at the end.
-/
namespace LinuxHardener.Common

open Text hiding trim
open LineText

/-- The live lines of a directive in the global scope. -/
def liveAbove (cs : Bool) (name : Chars) (ls : List Chars) : List Chars :=
  (ls.takeWhile fun l => !opensMatch l).filter (isLive cs name)

/-- One live line, as the writer spells it. -/
def Holds (cs : Bool) (format : ConfigFormat) (content name value : Chars) : Prop :=
  (liveAbove cs name (splitInclusive content)).map stripTerminator = [newLine format name value]

/-- The lines of a text that are not blank. -/
def linesWithText (text : Chars) : List Chars := (lines text).filter fun l => !(trim l).isEmpty

section

variable {cs cs' : Bool} {name other value content : Chars} {format : ConfigFormat} {duplicates : Duplicates}
  {a b above below ls : List Chars} {l x t : Chars}

/-! ## Closed lines -/

theorem closeLine_idem (l : Chars) : closeLine (closeLine l) = closeLine l := by
  unfold closeLine
  split <;> simp_all

theorem closeLast_eq_map (h : Chunks ls) : closeLast ls = ls.map closeLine := by
  induction ls with
  | nil => rfl
  | cons l ls ih =>
    cases ls with
    | nil => rfl
    | cons m ls => rw [closeLast, ih h.2, List.map_cons, List.map_cons, List.map_cons, closeLine_eq_self h.1]

theorem stripTerminator_closeLine (h : l.getLast? ≠ some '\r') : stripTerminator (closeLine l) = stripTerminator l := by
  unfold closeLine
  split
  · rfl
  · next hopen => simp [stripTerminator, hopen, h]

/-- A new line without its terminator. -/
theorem stripTerminator_terminator {new : Chars} (hline : '\n' ∉ new) (hlast : new.getLast? ≠ some '\r') (ht : Terminator t) :
    stripTerminator (closeLine (new ++ t)) = new := by
  have hopen : new.getLast? ≠ some '\n' := fun h => hline (List.mem_of_getLast? h)
  rcases ht with rfl | rfl | rfl
  · simp [closeLine, hopen, stripTerminator, hlast]
  · simp [closeLine, stripTerminator, hlast]
  · simp [closeLine, stripTerminator]

/-- Only the end of a text can be a carriage return that stands open. -/
theorem getLast_chunk (h : content.getLast? ≠ some '\r') (hl : l ∈ splitInclusive content) : l.getLast? ≠ some '\r' := by
  obtain ⟨front, back, hsplit⟩ := List.append_of_mem hl
  have hchunks := hsplit ▸ chunks_splitInclusive content
  obtain ⟨-, hfrom⟩ := chunks_append_cons.mp hchunks
  have hcontent : content = front.flatten ++ (l ++ back.flatten) := by
    rw [← flatten_splitInclusive content, hsplit]
    simp
  cases back with
  | nil =>
    intro hlast
    apply h
    rw [hcontent, List.flatten_nil, List.append_nil, List.getLast?_append, hlast]
    rfl
  | cons m back =>
    obtain ⟨body, rfl, -⟩ := hfrom.1
    simp

theorem carriage_not_last_newLine (hv : SingleToken value) : (newLine format name value).getLast? ≠ some '\r' := by
  obtain ⟨mid, heq, -⟩ := newLine_eq format name value
  rw [heq, List.getLast?_append]
  intro hlast
  cases hc : value.getLast? with
  | none => exact hv.ne_nil (List.getLast?_eq_none_iff.mp hc)
  | some c =>
    rw [hc, Option.some_or] at hlast
    have hblank := hv.no_blank c (List.mem_of_getLast? hc)
    rw [Option.some.inj hlast, isWhitespace_carriage] at hblank
    cases hblank

theorem newline_not_mem_token (hv : SingleToken value) : '\n' ∉ value := by
  intro h
  exact absurd (hv.no_blank _ h) (by decide)

/-! ## The live lines -/

theorem liveAbove_append (habove : ∀ l ∈ above, opensMatch l = false) (hbelow : ∀ l ∈ below.head?, opensMatch l = true) :
    liveAbove cs name (above ++ below) = above.filter (isLive cs name) := by
  unfold liveAbove
  rw [takeWhile_above habove, takeWhile_below hbelow, List.append_nil]

theorem liveAbove_map_closeLine (cs : Bool) (name : Chars) (ls : List Chars) :
    liveAbove cs name (ls.map closeLine) = (liveAbove cs name ls).map closeLine := by
  have hopens : (fun l => !opensMatch l) ∘ closeLine = fun l => !opensMatch l := by
    funext l
    simp [opensMatch_closeLine]
  have hlive : isLive cs name ∘ closeLine = isLive cs name := by
    funext l
    simp [isLive_closeLine]
  unfold liveAbove
  rw [List.takeWhile_map, hopens, List.filter_map, hlive]

/-- The lines of a text that was written. -/
theorem splitInclusive_set (hn : DirectiveName name) (hv : '\n' ∉ value)
    (hedit : Edit cs name (newLine format name value) duplicates (splitInclusive content) ls) :
    splitInclusive (closeLine ls.flatten) = ls.map closeLine := by
  have hnew : newLine format name value ≠ [] ∧ '\n' ∉ newLine format name value := by
    refine ⟨?_, newline_not_mem_newLine hn hv⟩
    obtain ⟨mid, hmid, -⟩ := newLine_eq format name value
    rw [hmid]
    simp
  have hchunks := hedit.chunks hnew (chunks_splitInclusive content)
  rw [splitInclusive_closeLine hchunks ?_, closeLast_eq_map hchunks]
  obtain ⟨front, taken, back, below, t, -, -, -, -, -, -, -, rfl⟩ := hedit.parts (chunks_splitInclusive content)
  simp

/-- The live lines of any directive once another, or itself, is set: those of `front`, the new
line and those of `back`. -/
theorem liveAbove_set (hn : DirectiveName name) (hm : eqIgnoreCase name matchKeyword = false) (hv : '\n' ∉ value)
    (content : Chars) (format : ConfigFormat) (cs : Bool) (duplicates : Duplicates) :
    ∃ (front : List Chars) (taken : Option Chars) (back : List Chars) (t : Chars), Terminator t ∧
      (∀ l ∈ front, isLive cs name l = false) ∧ (∀ x ∈ taken, isLive cs name x = true ∨ isCommented cs name x = true) ∧
      ∀ cs' other, liveAbove cs' other (splitInclusive content) = (front ++ taken.toList ++ back).filter (isLive cs' other) ∧
        liveAbove cs' other (splitInclusive (setConfigDirective content name value format cs duplicates)) =
          ((front ++ (newLine format name value ++ t) :: laterLines cs name duplicates back).filter
            (isLive cs' other)).map closeLine := by
  obtain ⟨ls, hedit, heq⟩ := setConfigDirective_edits content name value format cs duplicates
  have hchunks := chunks_splitInclusive content
  obtain ⟨front, taken, back, below, t, hsplit, habove, hbelow, hfront, htaken, -, ht, rfl⟩ := hedit.parts hchunks
  have hclosed : closeLast front = front.map closeLine := by
    apply closeLast_eq_map
    apply Chunks.sublist _ hchunks
    rw [hsplit]
    simp
  have hidem : closeLine ∘ closeLine = closeLine := funext closeLine_idem
  have hafter : ∀ l ∈ front ++ (newLine format name value ++ t) :: laterLines cs name duplicates back, opensMatch l = false := by
    intro l hl
    rcases List.mem_append.mp hl with hl | hl
    · exact habove l (by simp [hl])
    · rcases List.mem_cons.mp hl with rfl | hl
      · exact opensMatch_newLine hn hm ht
      · exact habove l (by simp [(mem_laterLines hl).1])
  refine ⟨front, taken, back, t, ht, hfront, htaken, fun cs' other => ⟨?_, ?_⟩⟩
  · rw [hsplit, liveAbove_append habove hbelow]
  · rw [heq, splitInclusive_set hn hv hedit, hclosed]
    have hmap : (front.map closeLine ++ (newLine format name value ++ t) :: laterLines cs name duplicates back ++ below).map closeLine =
        (front ++ (newLine format name value ++ t) :: laterLines cs name duplicates back ++ below).map closeLine := by
      simp [hidem]
    rw [hmap, liveAbove_map_closeLine, liveAbove_append hafter hbelow]

/-! ## Held -/

/-- A directive that is set is held. -/
theorem holds_set (hn : DirectiveName name) (hm : eqIgnoreCase name matchKeyword = false) (hv : SingleToken value) :
    Holds cs format (setConfigDirective content name value format cs .remove) name value := by
  obtain ⟨front, taken, back, t, ht, hfront, -, hlines⟩ :=
    liveAbove_set hn hm (newline_not_mem_token hv) content format cs .remove
  have hback : (laterLines cs name .remove back).filter (isLive cs name) = [] := by
    simp [laterLines]
  have hnone : front.filter (isLive cs name) = [] := by
    simpa using hfront
  unfold Holds
  rw [(hlines cs name).2, List.filter_append, hnone, List.filter_cons_of_pos (isLive_newLine hn ht), hback]
  show [stripTerminator (closeLine (newLine format name value ++ t))] = _
  rw [stripTerminator_terminator (newline_not_mem_newLine hn (newline_not_mem_token hv)) (carriage_not_last_newLine hv) ht]

/-- The live lines of another directive stay. -/
theorem liveAbove_set_other (hn : DirectiveName name) (hm : eqIgnoreCase name matchKeyword = false) (hv : '\n' ∉ value)
    (ho : DirectiveName other) (hdiffer : keyMatches (cs && cs') name other = false) :
    liveAbove cs' other (splitInclusive (setConfigDirective content name value format cs duplicates)) =
      (liveAbove cs' other (splitInclusive content)).map closeLine := by
  obtain ⟨front, taken, back, t, ht, -, htaken, hlines⟩ := liveAbove_set hn hm hv content format cs duplicates
  have hnew : isLive cs' other (newLine format name value ++ t) = false := not_isLive_newLine hn ho hdiffer ht value format
  have hold : taken.toList.filter (isLive cs' other) = [] := by
    apply List.filter_eq_nil_iff.mpr
    intro x hx
    rw [not_isLive_other hn ho hdiffer (htaken x (Option.mem_toList.mp hx))]
    exact Bool.false_ne_true
  have hlater : (laterLines cs name duplicates back).filter (isLive cs' other) = back.filter (isLive cs' other) := by
    cases duplicates with
    | keep => rfl
    | remove =>
      rw [laterLines, List.filter_filter]
      apply List.filter_congr
      intro l _
      cases hl : isLive cs name l with
      | false => simp
      | true => simp [not_isLive_other hn ho hdiffer (.inl hl)]
  obtain ⟨hbefore, hafter⟩ := hlines cs' other
  rw [hbefore, hafter, List.filter_append, List.filter_cons_of_neg (by simp [hnew]), hlater, List.filter_append,
    List.filter_append, hold, List.append_nil]

theorem holds_set_other (hn : DirectiveName name) (hm : eqIgnoreCase name matchKeyword = false) (hv : '\n' ∉ value)
    (ho : DirectiveName other) (hdiffer : keyMatches (cs && cs') name other = false) {held : Chars} {heldFormat : ConfigFormat}
    (hheld : SingleToken held) (h : Holds cs' heldFormat content other held) :
    Holds cs' heldFormat (setConfigDirective content name value format cs duplicates) other held := by
  unfold Holds at h ⊢
  rw [liveAbove_set_other hn hm hv ho hdiffer, List.map_map, ← h]
  apply List.map_congr_left
  intro l hl
  have hline : stripTerminator l = newLine heldFormat other held := by
    have hmem := List.mem_map_of_mem (f := stripTerminator) hl
    rw [h] at hmem
    exact List.mem_singleton.mp hmem
  apply stripTerminator_closeLine
  intro hcr
  -- A line that ends in a carriage return keeps it.
  have hsame : stripTerminator l = l := by simp [stripTerminator, hcr]
  rw [hsame] at hline
  exact carriage_not_last_newLine hheld (hline ▸ hcr)

/-! ## Read -/

theorem trim_newLine (hn : DirectiveName name) (hv : SingleToken value) :
    trim (newLine format name value) = newLine format name value := by
  obtain ⟨mid, heq, -⟩ := newLine_eq format name value
  have happ : newLine format name value = name ++ (' ' :: mid ++ value) := by
    rw [heq]
    simp
  rw [happ, trim_name_append hn]
  congr 1
  apply trimEnd_eq_self
  intro c hc
  rw [List.getLast?_append] at hc
  cases hl : value.getLast? with
  | none => exact absurd (List.getLast?_eq_none_iff.mp hl) hv.ne_nil
  | some d =>
    rw [hl, Option.some_or] at hc
    exact hv.last.2 c (by rw [hl, hc])

/-- What is held is read, in every format. -/
theorem parse_of_holds (hn : DirectiveName name) (hv : SingleToken value) (h : Holds cs format content name value)
    (readFormat : ConfigFormat) : parseConfigValue content name readFormat cs = some value := by
  obtain ⟨x, hx, hline⟩ := List.map_eq_singleton_iff.mp h
  obtain ⟨a, b, hab, ha, hlive, -⟩ := List.filter_eq_cons_iff.mp hx
  have hnone : a.findSome? (lineValue (directiveValue readFormat cs name)) = none := by
    apply List.findSome?_eq_none_iff.mpr
    intro l hl
    exact lineValue_of_not_isLive hn (Bool.eq_false_iff.mpr (ha l hl)) readFormat
  have hvalue : lineValue (directiveValue readFormat cs name) x = some value := by
    rw [lineValue_of_isLive hn hlive, ← trim_stripTerminator, hline, trim_newLine hn hv, directiveValue_newLine hn hv]
  have hfirst : ((splitInclusive content).takeWhile fun l => !opensMatch l).findSome?
      (lineValue (directiveValue readFormat cs name)) = some value := by
    rw [hab, List.findSome?_append, hnone, List.findSome?_cons, hvalue]
    rfl
  rw [parse_eq hn, ← List.takeWhile_append_dropWhile (p := fun l => !opensMatch l) (l := splitInclusive content),
    List.findSome?_append, hfirst]
  rfl

/-- What is read of another directive stays. -/
theorem parse_set_other (hn : DirectiveName name) (hv : '\n' ∉ value) (ho : DirectiveName other)
    (hdiffer : keyMatches (cs && cs') name other = false) (readFormat : ConfigFormat) :
    parseConfigValue (setConfigDirective content name value format cs duplicates) other readFormat cs' =
      parseConfigValue content other readFormat cs' := by
  obtain ⟨ls, hedit, heq⟩ := setConfigDirective_edits content name value format cs duplicates
  obtain ⟨front, taken, back, below, t, hsplit, -, -, -, htaken, -, ht, hls⟩ := hedit.parts (chunks_splitInclusive content)
  have hclose : ∀ f : Chars → Option Chars, (ls.map closeLine).findSome? (lineValue f) = ls.findSome? (lineValue f) := by
    intro f
    rw [List.findSome?_map]
    congr 1
    funext l
    exact lineValue_closeLine f l
  rw [heq, parse_eq ho, parse_eq ho, splitInclusive_set hn hv hedit, hclose, hls, hsplit, List.findSome?_append,
    findSome_edited hn ho hdiffer ht htaken front back value format readFormat duplicates, ← List.findSome?_append]

/-! ## Lines with text -/

theorem linesWithText_eq (content : Chars) :
    linesWithText content = ((splitInclusive content).filter fun l => !(trim l).isEmpty).map stripTerminator := by
  unfold linesWithText lines
  rw [List.filter_map]
  congr 2
  funext l
  simp [trim_stripTerminator]

theorem linesWithText_set (hn : DirectiveName name) (hv : '\n' ∉ value)
    (hedit : Edit cs name (newLine format name value) duplicates (splitInclusive content) ls) :
    linesWithText (closeLine ls.flatten) =
      (ls.filter fun l => !(trim l).isEmpty).map fun l => stripTerminator (closeLine l) := by
  rw [linesWithText_eq, splitInclusive_set hn hv hedit, List.filter_map, List.map_map]
  congr 2
  funext l
  simp [trim_closeLine]

/-- Setting a directive that is held changes no line, unless a carriage return stands open at
the end of the text. -/
theorem linesWithText_set_of_holds (hn : DirectiveName name) (hv : SingleToken value)
    (hend : content.getLast? ≠ some '\r') (h : Holds cs format content name value) :
    linesWithText (setConfigDirective content name value format cs .remove) = linesWithText content := by
  obtain ⟨ls, hedit, heq⟩ := setConfigDirective_edits content name value format cs .remove
  have hclosed : ∀ l ∈ splitInclusive content, stripTerminator (closeLine l) = stripTerminator l :=
    fun l hl => stripTerminator_closeLine (getLast_chunk hend hl)
  have hheld : ∀ {above below : List Chars}, splitInclusive content = above ++ below → (∀ l ∈ above, opensMatch l = false) →
      (∀ l ∈ below.head?, opensMatch l = true) →
      ∃ x, above.filter (isLive cs name) = [x] ∧ stripTerminator x = newLine format name value := by
    intro above below hsplit habove hbelow
    obtain ⟨x, hx, hline⟩ := List.map_eq_singleton_iff.mp h
    rw [hsplit, liveAbove_append habove hbelow] at hx
    exact ⟨x, hx, hline⟩
  have hnone : ∀ {above below : List Chars}, splitInclusive content = above ++ below → (∀ l ∈ above, opensMatch l = false) →
      (∀ l ∈ below.head?, opensMatch l = true) → ¬ ∀ l ∈ above, isLive cs name l = false := by
    intro above below hsplit habove hbelow hdead
    obtain ⟨x, hx, -⟩ := hheld hsplit habove hbelow
    have hmem : x ∈ above.filter (isLive cs name) := by
      rw [hx]
      exact List.mem_singleton_self x
    obtain ⟨hin, hlive⟩ := List.mem_filter.mp hmem
    rw [hdead x hin] at hlive
    exact absurd hlive Bool.false_ne_true
  rw [heq, linesWithText_set hn (newline_not_mem_token hv) hedit, linesWithText_eq]
  generalize hsplit : splitInclusive content = before at hedit hclosed hheld hnone
  cases hedit with
  | @live a b below x ha hx habove hbelow =>
    obtain ⟨x', hfilter, hline⟩ := hheld rfl habove hbelow
    have hdead : a.filter (isLive cs name) = [] := by simpa using ha
    rw [List.filter_append, hdead, List.nil_append, List.filter_cons_of_pos hx] at hfilter
    obtain ⟨rfl, hrest⟩ := List.cons.inj hfilter
    have hlater : laterLines cs name .remove b = b := by
      apply List.filter_eq_self.mpr
      intro l hl
      simp [List.filter_eq_nil_iff.mp hrest l hl]
    have hnew : stripTerminator (closeLine (newLine format name value ++ lineTerminator x)) = stripTerminator x := by
      rw [hline]
      exact stripTerminator_terminator (newline_not_mem_newLine hn (newline_not_mem_token hv)) (carriage_not_last_newLine hv)
        (terminator_lineTerminator x)
    have hxsome : (trim x).isEmpty = false := by simpa using trim_ne_nil_of_isLive hn.ne_nil hx
    have htext : (trim (newLine format name value ++ lineTerminator x)).isEmpty = false := by
      rw [trim_terminator (terminator_lineTerminator x), ← hline, trim_stripTerminator, hxsome]
    have hsame : ∀ part : List Chars, (∀ l ∈ part, l ∈ a ++ x :: b ++ below) →
        (part.filter fun l => !(trim l).isEmpty).map (fun l => stripTerminator (closeLine l)) =
          (part.filter fun l => !(trim l).isEmpty).map stripTerminator := by
      intro part hpart
      apply List.map_congr_left
      intro l hl
      exact hclosed l (hpart l (List.mem_of_mem_filter hl))
    rw [hlater]
    simp only [List.filter_append, List.map_append, List.filter_cons, htext, hxsome, Bool.not_false, if_true, List.map_cons, hnew]
    rw [hsame a fun l hl => by simp [hl], hsame b fun l hl => by simp [hl], hsame below fun l hl => by simp [hl]]
  | @commented a b below x hlive ha hx habove hbelow => exact absurd hlive (hnone rfl habove hbelow)
  | @inserted above below m hdead habove hm => exact absurd hdead (hnone rfl habove (by simpa using hm))
  | appended hdead habove => exact absurd hdead (hnone (List.append_nil _).symm habove (by simp))

theorem isEmpty_trim_newLine (hn : DirectiveName name) (ht : Terminator t) :
    (trim (newLine format name value ++ t)).isEmpty = false := by
  have hlive : isLive true name (newLine format name value ++ t) = true := isLive_newLine hn ht
  have hne := trim_ne_nil_of_isLive hn.ne_nil hlive
  simpa using hne

/-- Where no line with text changes, the one that a new line was put in the place of was that line,
those before it being closed. -/
theorem replaced_eq (hn : DirectiveName name) (hv : SingleToken value) {a rest rest' : List Chars} {x t : Chars}
    (ha : ∀ l ∈ a, Terminated l) (hx : trim x ≠ []) (ht : Terminator t)
    (heq : ((a ++ (newLine format name value ++ t) :: rest').filter fun l => !(trim l).isEmpty).map
        (fun l => stripTerminator (closeLine l)) =
      ((a ++ x :: rest).filter fun l => !(trim l).isEmpty).map stripTerminator) :
    stripTerminator x = newLine format name value := by
  have hsame : (a.filter fun l => !(trim l).isEmpty).map (fun l => stripTerminator (closeLine l)) =
      (a.filter fun l => !(trim l).isEmpty).map stripTerminator := by
    apply List.map_congr_left
    intro l hl
    rw [closeLine_eq_self (ha l (List.mem_of_mem_filter hl))]
  have hx' : (!(trim x).isEmpty) = true := by simpa using hx
  have hnew : (!(trim (newLine format name value ++ t)).isEmpty) = true := by rw [isEmpty_trim_newLine hn ht]; rfl
  rw [List.filter_append, List.map_append, hsame, List.filter_append, List.map_append] at heq
  have hrest := List.append_cancel_left heq
  rw [List.filter_cons, if_pos hnew, List.filter_cons, if_pos hx'] at hrest
  rw [← (List.cons.inj hrest).1]
  exact stripTerminator_terminator (newline_not_mem_newLine hn (newline_not_mem_token hv)) (carriage_not_last_newLine hv) ht

/-- The live lines are among those with text. -/
theorem countP_add_live (hn : name ≠ []) (c : List Chars) :
    (c.filter fun l => !isLive cs name l).countP (fun l => !(trim l).isEmpty) + (c.filter (isLive cs name)).length =
      c.countP fun l => !(trim l).isEmpty := by
  induction c with
  | nil => rfl
  | cons l c ih =>
    cases hl : isLive cs name l with
    | false =>
      simp only [List.filter_cons, hl, Bool.not_false, if_true, Bool.false_eq_true, if_false, List.countP_cons]
      omega
    | true =>
      have hne : (trim l).isEmpty = false := by simpa using trim_ne_nil_of_isLive hn hl
      simp only [List.filter_cons, hl, Bool.not_true, Bool.false_eq_true, if_false, if_true, List.countP_cons, hne,
        Bool.not_false, List.length_cons]
      omega

/-- Where setting a directive changes no line with text in it, it is held. -/
theorem holds_of_linesWithText_set (hn : DirectiveName name) (hv : SingleToken value)
    (h : linesWithText (setConfigDirective content name value format cs .remove) = linesWithText content) :
    Holds cs format content name value := by
  obtain ⟨ls, hedit, heq⟩ := setConfigDirective_edits content name value format cs .remove
  rw [heq, linesWithText_set hn (newline_not_mem_token hv) hedit, linesWithText_eq] at h
  have hchunks := chunks_splitInclusive content
  -- The new line has text, so where it does not replace one there is a line more.
  have hcount := congrArg List.length h
  rw [List.length_map, List.length_map] at hcount
  unfold Holds
  generalize splitInclusive content = before at *
  cases hedit with
  | @live a b below x ha hx habove hbelow =>
    have hxtext := trim_ne_nil_of_isLive hn.ne_nil hx
    have hterm : ∀ l ∈ a, Terminated l := (chunks_append_cons.mp (by simpa using hchunks)).1
    rw [List.append_assoc, List.cons_append, List.append_assoc, List.cons_append] at h
    have hline := replaced_eq hn hv hterm hxtext (terminator_lineTerminator x) h
    have hdead : a.filter (isLive cs name) = [] := by simpa using ha
    have hnew : (trim (newLine format name value ++ lineTerminator x)).isEmpty = false :=
      isEmpty_trim_newLine hn (terminator_lineTerminator x)
    have hxsome : (trim x).isEmpty = false := by simpa using hxtext
    -- No further live line was taken out, since each has text.
    have hrest : b.filter (isLive cs name) = [] := by
      have hb := @countP_add_live cs name hn.ne_nil b
      simp only [laterLines, List.filter_append, List.length_append, List.filter_cons, hnew, hxsome, Bool.not_false, if_true,
        List.length_cons, ← List.countP_eq_length_filter] at hcount
      apply List.length_eq_zero_iff.mp
      omega
    rw [liveAbove_append habove hbelow, List.filter_append, hdead, List.nil_append, List.filter_cons_of_pos hx, hrest]
    exact congrArg (fun l => [l]) hline
  | @commented a b below x hlive ha hx habove hbelow =>
    have hcomment := isComment_of_isCommented hx
    have hxtext : trim x ≠ [] := by
      intro he
      rw [he] at hcomment
      cases hcomment
    have hterm : ∀ l ∈ a, Terminated l := (chunks_append_cons.mp (by simpa using hchunks)).1
    rw [List.append_assoc, List.cons_append, List.append_assoc, List.cons_append] at h
    have hline := replaced_eq hn hv hterm hxtext (terminator_lineTerminator x) h
    rw [← trim_stripTerminator, hline, isComment_newLine hn] at hcomment
    cases hcomment
  | @inserted above below m hnone habove hm =>
    have hnew : (trim (newLine format name value ++ terminatorAbove m)).isEmpty = false :=
      isEmpty_trim_newLine hn (terminator_terminatorAbove m)
    simp only [List.filter_append, List.length_append, List.filter_cons, hnew, Bool.not_false, if_true, List.length_cons] at hcount
    omega
  | appended hnone habove =>
    unfold appendLine at hcount
    cases hlast : before.getLast? with
    | none =>
      have hnew : (trim (newLine format name value ++ ['\n'])).isEmpty = false := isEmpty_trim_newLine hn (.inr (.inl rfl))
      obtain rfl := List.getLast?_eq_none_iff.mp hlast
      simp [hnew] at hcount
    | some last =>
      obtain ⟨front, rfl⟩ := List.getLast?_eq_some_iff.mp hlast
      have hnew : (trim (newLine format name value ++ lineTerminator last)).isEmpty = false :=
        isEmpty_trim_newLine hn (terminator_lineTerminator last)
      simp only [hlast, List.dropLast_concat, List.filter_append, List.length_append, List.filter_cons, trim_closeLine, hnew,
        Bool.not_false, if_true, List.filter_nil] at hcount
      split at hcount <;> simp only [List.length_cons, List.length_nil] at hcount <;> omega

end

end LinuxHardener.Common
