import LinuxHardener.Lib.Text
import Mathlib.Data.Char
import Mathlib.Data.List.Lex
import Mathlib.Data.List.TakeWhile

/-
  Texts as `str` cuts them: into lines that keep their terminator, into lines
  without it, into words.

  What is proved:
    1. `splitInclusive_flatten`, `flatten_splitInclusive` — a text and its lines
       determine each other, as long as every line but the last is terminated.
    2. `trim_stripTerminator` — trimming does not see the terminator.
-/
namespace LinuxHardener.LineText

open Text

abbrev Chars := List Char

instance : LawfulBEq Chars := inferInstance

/-- `str::trim` -/
def trim (s : Chars) : Chars := trimEnd (trimStart s)

/-- `split_inclusive('\n')` -/
def splitInclusive : Chars → List Chars
  | [] => []
  | c :: cs =>
    if c = '\n' then [c] :: splitInclusive cs
    else
      match splitInclusive cs with
      | [] => [[c]]
      | l :: ls => (c :: l) :: ls

/-- A line as `str::lines` hands it out: without `\n` and, before a `\n`, without `\r`. -/
def stripTerminator (l : Chars) : Chars :=
  if l.getLast? = some '\n' then
    (if l.dropLast.getLast? = some '\r' then l.dropLast.dropLast else l.dropLast)
  else l

/-- `str::lines` -/
def lines (s : Chars) : List Chars := (splitInclusive s).map stripTerminator

/-- `split_whitespace`, with the word begun so far. -/
def wordsFrom (word : Chars) : Chars → List Chars
  | [] => if word = [] then [] else [word]
  | c :: cs =>
    if isWhitespace c then (if word = [] then wordsFrom [] cs else word :: wordsFrom [] cs)
    else wordsFrom (word ++ [c]) cs

/-- `str::split_whitespace` -/
def words (s : Chars) : List Chars := wordsFrom [] s

/-- `eq_ignore_ascii_case` -/
def eqIgnoreCase (s t : Chars) : Bool := s.map Char.toLower == t.map Char.toLower

/-! ## Lines -/

/-- A line with its `\n`. -/
def Terminated (l : Chars) : Prop := ∃ body, l = body ++ ['\n'] ∧ '\n' ∉ body

/-- Lines a text may be cut into: all but the last are terminated, and none is empty. -/
def Chunks : List Chars → Prop
  | [] => True
  | [l] => Terminated l ∨ (l ≠ [] ∧ '\n' ∉ l)
  | l :: m :: ls => Terminated l ∧ Chunks (m :: ls)

theorem splitInclusive_terminated {body : Chars} (h : '\n' ∉ body) (rest : Chars) :
    splitInclusive (body ++ '\n' :: rest) = (body ++ ['\n']) :: splitInclusive rest := by
  induction body with
  | nil => simp [splitInclusive]
  | cons c body ih =>
    have hc : c ≠ '\n' := fun he => h (by simp [he])
    have hb : '\n' ∉ body := fun hm => h (by simp [hm])
    rw [List.cons_append, splitInclusive, if_neg hc, ih hb]
    rfl

theorem splitInclusive_open {l : Chars} (h : '\n' ∉ l) (hne : l ≠ []) : splitInclusive l = [l] := by
  induction l with
  | nil => exact absurd rfl hne
  | cons c l ih =>
    have hc : c ≠ '\n' := fun he => h (by simp [he])
    have hl : '\n' ∉ l := fun hm => h (by simp [hm])
    rw [splitInclusive, if_neg hc]
    cases l with
    | nil => rfl
    | cons d l => rw [ih hl (by simp)]

theorem splitInclusive_cons {l : Chars} (h : Terminated l) (rest : Chars) :
    splitInclusive (l ++ rest) = l :: splitInclusive rest := by
  obtain ⟨body, rfl, hb⟩ := h
  rw [List.append_assoc, List.singleton_append]
  exact splitInclusive_terminated hb rest

theorem splitInclusive_flatten {ls : List Chars} (h : Chunks ls) : splitInclusive ls.flatten = ls := by
  induction ls with
  | nil => rfl
  | cons l ls ih =>
    cases ls with
    | nil =>
      rw [List.flatten_cons, List.flatten_nil]
      rcases h with ht | ⟨hne, hn⟩
      · rw [splitInclusive_cons ht]
        rfl
      · rw [List.append_nil, splitInclusive_open hn hne]
    | cons m ls => rw [List.flatten_cons, splitInclusive_cons h.1, ih h.2]

theorem flatten_splitInclusive (s : Chars) : (splitInclusive s).flatten = s := by
  induction s with
  | nil => rfl
  | cons c s ih =>
    rw [splitInclusive]
    split
    · rw [List.flatten_cons, ih]
      rfl
    · cases hs : splitInclusive s with
      | nil =>
        rw [hs] at ih
        rw [← ih]
        rfl
      | cons l ls =>
        rw [hs, List.flatten_cons] at ih
        rw [List.flatten_cons, List.cons_append, ih]

theorem chunks_cons {l : Chars} (hl : Terminated l) {ls : List Chars} (h : Chunks ls) : Chunks (l :: ls) := by
  cases ls with
  | nil => exact .inl hl
  | cons m ls => exact ⟨hl, h⟩

theorem Chunks.tail {l : Chars} {ls : List Chars} (h : Chunks (l :: ls)) : Chunks ls := by
  cases ls with
  | nil => trivial
  | cons m ls => exact h.2

theorem chunks_splitInclusive (s : Chars) : Chunks (splitInclusive s) := by
  induction s with
  | nil => trivial
  | cons c s ih =>
    rw [splitInclusive]
    split
    · next hc => exact chunks_cons ⟨[], by simp [hc], by simp⟩ ih
    · next hc =>
      have grow : ∀ {l : Chars}, Terminated l → Terminated (c :: l) := by
        rintro l ⟨body, rfl, hb⟩
        exact ⟨c :: body, rfl, by simp [hb, Ne.symm hc]⟩
      cases hs : splitInclusive s with
      | nil => exact .inr ⟨by simp, by simp [Ne.symm hc]⟩
      | cons l ls =>
        rw [hs] at ih
        cases ls with
        | nil =>
          rcases ih with ht | ⟨hne, hn⟩
          · exact .inl (grow ht)
          · exact .inr ⟨by simp, by simp [hn, Ne.symm hc]⟩
        | cons m ls => exact ⟨grow ih.1, ih.2⟩

/-- Every line of a text is terminated, or is the last one and holds no `\n`. -/
theorem mem_chunks {l : Chars} {ls : List Chars} (h : Chunks ls) (hl : l ∈ ls) :
    Terminated l ∨ (l ≠ [] ∧ '\n' ∉ l) := by
  induction ls with
  | nil => cases hl
  | cons m ls ih =>
    cases ls with
    | nil =>
      rw [List.mem_singleton] at hl
      exact hl ▸ h
    | cons k ls =>
      rcases List.mem_cons.mp hl with rfl | hl
      · exact .inl h.1
      · exact ih h.2 hl

/-- The lines of a text that starts with a whole line. -/
theorem lines_cons {l : Chars} (h : '\n' ∉ l) (rest : Chars) :
    lines (l ++ '\n' :: rest) = stripTerminator (l ++ ['\n']) :: lines rest := by
  rw [lines, splitInclusive_terminated h, List.map_cons]
  rfl

theorem newline_not_mem_stripTerminator {s l : Chars} (h : l ∈ lines s) : '\n' ∉ l := by
  obtain ⟨chunk, hchunk, rfl⟩ := List.mem_map.mp h
  rcases mem_chunks (chunks_splitInclusive s) hchunk with ⟨body, rfl, hb⟩ | ⟨_, hn⟩
  · intro hmem
    refine hb ?_
    unfold stripTerminator at hmem
    rw [List.dropLast_concat, if_pos List.getLast?_concat] at hmem
    split at hmem
    · exact List.dropLast_subset _ hmem
    · exact hmem
  · unfold stripTerminator
    split
    · next hlast => exact absurd (List.mem_of_getLast? hlast) hn
    · exact hn

/-- A text of whole lines: nothing is open at its end. -/
def Whole (s : Chars) : Prop := s = [] ∨ s.getLast? = some '\n'

instance (s : Chars) : Decidable (Whole s) := inferInstanceAs (Decidable (_ ∨ _))

theorem Whole.append {s t : Chars} (hs : Whole s) (ht : Whole t) : Whole (s ++ t) := by
  rcases ht with rfl | ht
  · rwa [List.append_nil]
  · exact .inr (by rw [List.getLast?_append, ht]; rfl)

theorem whole_flatMap {α : Type} {l : List α} {f : α → Chars} (h : ∀ a ∈ l, Whole (f a)) : Whole (l.flatMap f) := by
  induction l with
  | nil => exact .inl rfl
  | cons a l ih =>
    rw [List.flatMap_cons]
    exact (h a List.mem_cons_self).append (ih fun b hb => h b (List.mem_cons_of_mem _ hb))

theorem splitInclusive_append {s : Chars} (hs : Whole s) (t : Chars) : splitInclusive (s ++ t) = splitInclusive s ++ splitInclusive t := by
  rcases hs with rfl | hs
  · rfl
  · obtain ⟨body, rfl⟩ := List.getLast?_eq_some_iff.mp hs
    clear hs
    induction body with
    | nil => simp [splitInclusive]
    | cons c body ih =>
      rw [List.cons_append, List.cons_append, splitInclusive, splitInclusive]
      split
      · rw [ih]
        rfl
      · rw [ih]
        have hne : splitInclusive (body ++ ['\n']) ≠ [] := by
          intro h
          have hflat := flatten_splitInclusive (body ++ ['\n'])
          rw [h] at hflat
          simp at hflat
        cases hsplit : splitInclusive (body ++ ['\n']) with
        | nil => exact absurd hsplit hne
        | cons l ls => rfl

theorem lines_append {s : Chars} (hs : Whole s) (t : Chars) : lines (s ++ t) = lines s ++ lines t := by
  rw [lines, splitInclusive_append hs, List.map_append]
  rfl

theorem lines_flatMap {α : Type} {l : List α} {f : α → Chars} (h : ∀ a ∈ l, Whole (f a)) :
    lines (l.flatMap f) = l.flatMap fun a => lines (f a) := by
  induction l with
  | nil => rfl
  | cons a l ih =>
    rw [List.flatMap_cons, lines_append (h a List.mem_cons_self), ih fun b hb => h b (List.mem_cons_of_mem _ hb)]
    rfl

/-! ## Trimming -/

theorem isWhitespace_newline : isWhitespace '\n' = true := by decide

theorem isWhitespace_carriage : isWhitespace '\r' = true := by decide

theorem trim_concat {c : Char} (hc : isWhitespace c = true) (s : Chars) : trim (s ++ [c]) = trim s := by
  unfold trim trimStart trimEnd
  rw [List.dropWhile_append]
  split
  · next he =>
    rw [List.isEmpty_iff] at he
    simp [List.dropWhile, hc, he]
  · rw [List.reverse_append, List.reverse_singleton, List.singleton_append, List.dropWhile_cons, if_pos hc]

theorem trim_stripTerminator (l : Chars) : trim (stripTerminator l) = trim l := by
  have keep : ∀ {m : Chars} {c : Char}, m.getLast? = some c → isWhitespace c = true → trim m.dropLast = trim m := by
    intro m c hlast hc
    obtain ⟨body, rfl⟩ := List.getLast?_eq_some_iff.mp hlast
    rw [List.dropLast_concat, trim_concat hc]
  unfold stripTerminator
  split
  · next hn =>
    split
    · next hr => rw [keep hr isWhitespace_carriage, keep hn isWhitespace_newline]
    · exact keep hn isWhitespace_newline
  · rfl

theorem trimEnd_isPrefix (s : Chars) : trimEnd s <+: s := by
  unfold trimEnd
  rw [← List.reverse_suffix, List.reverse_reverse]
  exact List.dropWhile_suffix _

/-- A trimmed text does not begin with a blank. -/
theorem head_trim {s : Chars} {c : Char} (h : (trim s).head? = some c) : isWhitespace c = false := by
  unfold trim at h
  obtain ⟨t, ht⟩ := trimEnd_isPrefix (trimStart s)
  have hhead : (trimStart s).head? = some c := by
    rw [← ht, List.head?_append, h]
    rfl
  unfold trimStart at hhead
  have hne : s.dropWhile isWhitespace ≠ [] := by
    intro he
    rw [he] at hhead
    cases hhead
  have hnot := List.head_dropWhile_not isWhitespace hne
  rw [List.head?_eq_some_head hne] at hhead
  rwa [Option.some.inj hhead] at hnot

theorem trimEnd_eq_self {s : Chars} (h : ∀ c, s.getLast? = some c → isWhitespace c = false) : trimEnd s = s := by
  unfold trimEnd
  cases hr : s.reverse with
  | nil => simpa using hr.symm
  | cons c r =>
    have hlast : s.getLast? = some c := by rw [← List.head?_reverse, hr]; rfl
    rw [List.dropWhile_cons, if_neg (by simp [h c hlast]), ← hr, List.reverse_reverse]

theorem trimStart_eq_self {s : Chars} (h : ∀ c, s.head? = some c → isWhitespace c = false) : trimStart s = s := by
  unfold trimStart
  cases s with
  | nil => rfl
  | cons c s => rw [List.dropWhile_cons, if_neg (by simp [h c rfl])]

theorem getLast_trimEnd {s : Chars} {c : Char} (h : (trimEnd s).getLast? = some c) : isWhitespace c = false := by
  unfold trimEnd at h
  rw [List.getLast?_reverse] at h
  have hne : s.reverse.dropWhile isWhitespace ≠ [] := by
    intro he
    rw [he] at h
    cases h
  have hnot := List.head_dropWhile_not isWhitespace hne
  rw [List.head?_eq_some_head hne] at h
  rwa [Option.some.inj h] at hnot

theorem trim_eq_self {s : Chars} (hh : ∀ c, s.head? = some c → isWhitespace c = false)
    (hl : ∀ c, s.getLast? = some c → isWhitespace c = false) : trim s = s := by
  rw [trim, trimStart_eq_self hh, trimEnd_eq_self hl]

@[simp] theorem trim_trim (s : Chars) : trim (trim s) = trim s :=
  trim_eq_self (fun _ h => head_trim h) (fun _ h => getLast_trimEnd h)

/-- A text that does not begin with a blank begins as it is trimmed. -/
theorem head_trim_cons {c : Char} (hc : isWhitespace c = false) (s : Chars) : (trim (c :: s)).head? = some c := by
  unfold trim trimStart
  rw [List.dropWhile_cons, if_neg (by simp [hc])]
  obtain ⟨t, ht⟩ := trimEnd_isPrefix (c :: s)
  cases hend : trimEnd (c :: s) with
  | nil =>
    exfalso
    unfold trimEnd at hend
    rw [List.reverse_eq_nil_iff, List.dropWhile_eq_nil_iff] at hend
    have := hend c (List.mem_reverse.mpr List.mem_cons_self)
    rw [hc] at this
    cases this
  | cons d ds =>
    rw [hend, List.cons_append] at ht
    exact congrArg some (List.cons.inj ht).1

/-! ## Text put before text -/

theorem splitInclusive_ne_nil {s : Chars} (h : s ≠ []) : splitInclusive s ≠ [] := by
  intro he
  refine h ?_
  rw [← flatten_splitInclusive s, he]
  rfl

theorem splitInclusive_prepend {start s l : Chars} {ls : List Chars} (h : '\n' ∉ start) (hs : splitInclusive s = l :: ls) :
    splitInclusive (start ++ s) = (start ++ l) :: ls := by
  induction start with
  | nil => exact hs
  | cons c start ih =>
    have hc : c ≠ '\n' := fun he => h (by simp [he])
    rw [List.cons_append, splitInclusive, if_neg hc, ih fun hm => h (by simp [hm])]
    rfl

/-- What is put before a text stands on its first line; the other lines are the text's own. -/
theorem lines_prepend {c : Char} (hc : isWhitespace c = false) {start s : Chars} (h : '\n' ∉ c :: start) (hs : s ≠ []) :
    ∃ l, lines (c :: start ++ s) = l :: (lines s).tail ∧ (trim l).head? = some c := by
  cases hsplit : splitInclusive s with
  | nil => exact absurd hsplit (splitInclusive_ne_nil hs)
  | cons l ls =>
    refine ⟨stripTerminator (c :: start ++ l), ?_, ?_⟩
    · rw [lines, splitInclusive_prepend h hsplit, List.map_cons, lines, hsplit]
      rfl
    · rw [trim_stripTerminator]
      exact head_trim_cons hc (start ++ l)

/-! ## Words -/

@[simp] theorem words_nil : words [] = [] := rfl

theorem words_blank {c : Char} (hc : isWhitespace c = true) (s : Chars) : words (c :: s) = words s := by
  simp [words, wordsFrom, hc]

theorem wordsFrom_eq {w : Chars} (hw : w ≠ []) (s : Chars) :
    wordsFrom w s = (w ++ s.takeWhile (fun c => !isWhitespace c)) :: words (s.dropWhile (fun c => !isWhitespace c)) := by
  induction s generalizing w with
  | nil => simp [wordsFrom, hw]
  | cons c s ih =>
    rw [wordsFrom]
    split
    · next hc =>
      rw [List.takeWhile_cons, List.dropWhile_cons, if_neg (by simp [hc]), if_neg (by simp [hc]),
        words_blank hc, List.append_nil]
      rfl
    · next hc => simp [hc, ih (List.append_ne_nil_of_right_ne_nil w (List.cons_ne_nil c []))]

/-- The first word of a text that does not begin with a blank. -/
theorem words_cons {c : Char} (hc : isWhitespace c = false) (s : Chars) :
    words (c :: s) = (c :: s).takeWhile (fun c => !isWhitespace c) :: words ((c :: s).dropWhile (fun c => !isWhitespace c)) := by
  rw [words, wordsFrom, if_neg (by simp [hc]), List.nil_append, wordsFrom_eq (List.cons_ne_nil c [])]
  simp [hc]

theorem words_trimStart (s : Chars) : words (trimStart s) = words s := by
  induction s with
  | nil => rfl
  | cons c s ih =>
    unfold trimStart at ih ⊢
    rw [List.dropWhile_cons]
    split
    · next hc => rw [ih, words_blank hc]
    · rfl

end LinuxHardener.LineText
