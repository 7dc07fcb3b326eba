import LinuxHardener.Common.Readers

/-
  What the writer writes, the readers read.

  A file that has been edited has the directive's new line above any other live line of
  it, with its own terminator, and every line of the file is terminated; such a file the
  writer leaves as it is.

  What is proved:
    1. `edited` — the lines of the text that is written.
    2. `setConfigDirective_fixed` — a file of that shape is a fixed point.
    3. `set_and_read` — the value is read back in every format, from the whole file and
       from its global scope, and setting it again changes nothing.
-/
namespace LinuxHardener.Common

open Text hiding trim
open LineText

/-- A value that a line can hold after its key. -/
structure SingleToken (value : Chars) : Prop where
  ne_nil : value ≠ []
  no_blank : ∀ c ∈ value, isWhitespace c = false
  no_equals : value.head? ≠ some '='

/-! ## Closing the last line -/

/-- The lines of a text once it is closed. -/
def closeLast : List Chars → List Chars
  | [] => []
  | [l] => [closeLine l]
  | l :: m :: ls => l :: closeLast (m :: ls)

@[simp] theorem closeLast_append (a : List Chars) (x : Chars) (b : List Chars) :
    closeLast (a ++ x :: b) = a ++ closeLast (x :: b) := by
  induction a with
  | nil => rfl
  | cons l a ih =>
    cases a with
    | nil => rfl
    | cons m a =>
      rw [List.cons_append, List.cons_append, closeLast, ← List.cons_append, ih]
      rfl

theorem closeLine_append {s t : Chars} (h : t ≠ []) : closeLine (s ++ t) = s ++ closeLine t := by
  unfold closeLine
  rw [List.getLast?_append]
  cases ht : t.getLast? with
  | none => exact absurd (List.getLast?_eq_none_iff.mp ht) h
  | some c =>
    rw [Option.some_or]
    split <;> simp

theorem chunks_ne_nil {l : Chars} {ls : List Chars} (h : Chunks ls) (hl : l ∈ ls) : l ≠ [] := by
  rcases mem_chunks h hl with ⟨body, rfl, _⟩ | ⟨hne, _⟩
  · simp
  · exact hne

theorem closeLine_flatten {ls : List Chars} (h : Chunks ls) (hne : ls ≠ []) : closeLine ls.flatten = (closeLast ls).flatten := by
  induction ls with
  | nil => exact absurd rfl hne
  | cons l ls ih =>
    cases ls with
    | nil => simp [closeLast]
    | cons m ls =>
      have hflat : (m :: ls).flatten ≠ [] := by
        have := chunks_ne_nil h.2 (List.mem_cons_self)
        simp [this]
      rw [List.flatten_cons, closeLine_append hflat, ih h.2 (by simp), closeLast, List.flatten_cons]

theorem terminated_closeLine {l : Chars} (h : Terminated l ∨ (l ≠ [] ∧ '\n' ∉ l)) : Terminated (closeLine l) := by
  unfold closeLine
  rcases h with ⟨body, rfl, hbody⟩ | ⟨_, hopen⟩
  · rw [if_pos (by simp)]
    exact ⟨body, rfl, hbody⟩
  · rw [if_neg]
    · exact ⟨l, rfl, hopen⟩
    · intro hlast
      exact hopen (List.mem_of_getLast? hlast)

theorem terminated_closeLast {ls : List Chars} (h : Chunks ls) : ∀ l ∈ closeLast ls, Terminated l := by
  induction ls with
  | nil => simp [closeLast]
  | cons l ls ih =>
    cases ls with
    | nil =>
      intro k hk
      rw [List.mem_singleton.mp hk]
      exact terminated_closeLine h
    | cons m ls =>
      intro k hk
      rcases List.mem_cons.mp hk with rfl | hk
      · exact h.1
      · exact ih h.2 k hk

theorem chunks_of_terminated {ls : List Chars} (h : ∀ l ∈ ls, Terminated l) : Chunks ls := by
  induction ls with
  | nil => trivial
  | cons l ls ih => exact chunks_cons (h l (by simp)) (ih fun k hk => h k (by simp [hk]))

/-- The lines of a closed text. -/
theorem splitInclusive_closeLine {ls : List Chars} (h : Chunks ls) (hne : ls ≠ []) :
    splitInclusive (closeLine ls.flatten) = closeLast ls := by
  rw [closeLine_flatten h hne, splitInclusive_flatten (chunks_of_terminated (terminated_closeLast h))]

theorem closeLine_eq_self {l : Chars} (h : Terminated l) : closeLine l = l := by
  obtain ⟨body, rfl, _⟩ := h
  simp [closeLine]

theorem closeLast_eq_self {ls : List Chars} (h : ∀ l ∈ ls, Terminated l) : closeLast ls = ls := by
  induction ls with
  | nil => rfl
  | cons l ls ih =>
    cases ls with
    | nil => rw [closeLast, closeLine_eq_self (h l (by simp))]
    | cons m ls => rw [closeLast, ih fun k hk => h k (by simp [hk])]

theorem closeLine_of_terminated {ls : List Chars} (h : ∀ l ∈ ls, Terminated l) (hne : ls ≠ []) :
    closeLine ls.flatten = ls.flatten := by
  rw [closeLine_flatten (chunks_of_terminated h) hne, closeLast_eq_self h]

/-- What holds of the lines up to a point still holds once the last is closed. -/
theorem takeWhile_closeLast {p q : Chars → Bool} (hp : ∀ l, p (closeLine l) = p l) (hq : ∀ l, q (closeLine l) = q l)
    {ls : List Chars} (h : ∀ l ∈ ls.takeWhile p, q l = false) : ∀ l ∈ (closeLast ls).takeWhile p, q l = false := by
  induction ls with
  | nil => simp [closeLast]
  | cons l ls ih =>
    cases ls with
    | nil =>
      intro k hk
      simp only [closeLast, List.takeWhile_cons, hp, List.takeWhile_nil] at hk h
      split at hk
      · next hl =>
        rw [List.mem_singleton.mp hk, hq]
        exact h l (by simp [hl])
      · cases hk
    | cons m ls =>
      intro k hk
      rw [closeLast, List.takeWhile_cons] at hk
      rw [List.takeWhile_cons] at h
      split at hk
      · next hl =>
        rw [if_pos hl] at h
        rcases List.mem_cons.mp hk with rfl | hk
        · exact h k (by simp)
        · exact ih (fun k hk => h k (List.mem_cons_of_mem _ hk)) k hk
      · cases hk

theorem forall_closeLast {p : Chars → Prop} (hp : ∀ l, p l → p (closeLine l)) {ls : List Chars} (h : ∀ l ∈ ls, p l) :
    ∀ l ∈ closeLast ls, p l := by
  induction ls with
  | nil => simp [closeLast]
  | cons l ls ih =>
    cases ls with
    | nil =>
      intro k hk
      rw [List.mem_singleton.mp hk]
      exact hp l (h l (by simp))
    | cons m ls =>
      intro k hk
      rcases List.mem_cons.mp hk with rfl | hk
      · exact h k (by simp)
      · exact ih (fun k hk => h k (List.mem_cons_of_mem _ hk)) k hk

theorem trim_closeLine (l : Chars) : trim (closeLine l) = trim l := by
  unfold closeLine
  split
  · rfl
  · exact trim_concat isWhitespace_newline l

theorem opensMatch_closeLine (l : Chars) : opensMatch (closeLine l) = opensMatch l := by
  unfold opensMatch
  rw [trim_closeLine]

theorem lineKey_closeLine (l : Chars) : lineKey (closeLine l) = lineKey l := by
  unfold lineKey
  rw [trim_closeLine]

theorem isLive_closeLine (cs : Bool) (name l : Chars) : isLive cs name (closeLine l) = isLive cs name l := by
  unfold isLive
  rw [lineKey_closeLine]

/-! ## The new line -/

/-- What ends a line of the file that is written. -/
def Terminator (t : Chars) : Prop := t = [] ∨ t = ['\n'] ∨ t = ['\r', '\n']

theorem terminator_lineTerminator (l : Chars) : Terminator (lineTerminator l) := by
  unfold lineTerminator Terminator
  split
  · split <;> simp
  · simp

theorem terminator_terminatorAbove (l : Chars) : Terminator (terminatorAbove l) := by
  unfold terminatorAbove
  split
  · exact .inr (.inl rfl)
  · exact terminator_lineTerminator l

theorem lineTerminator_ne_nil {l : Chars} (h : Terminated l) : lineTerminator l ≠ [] := by
  obtain ⟨body, rfl, _⟩ := h
  unfold lineTerminator
  rw [if_pos (by simp)]
  split <;> simp

theorem terminatorAbove_ne_nil (l : Chars) : terminatorAbove l ≠ [] := by
  unfold terminatorAbove
  split
  · simp
  · next h => exact h

theorem trim_terminator {t : Chars} (h : Terminator t) (s : Chars) : trim (s ++ t) = trim s := by
  rcases h with rfl | rfl | rfl
  · rw [List.append_nil]
  · exact trim_concat isWhitespace_newline s
  · have happ : s ++ ['\r', '\n'] = s ++ ['\r'] ++ ['\n'] := by simp
    rw [happ, trim_concat isWhitespace_newline, trim_concat isWhitespace_carriage]

theorem terminated_append {s t : Chars} (hs : '\n' ∉ s) (ht : Terminator t) (hne : t ≠ []) : Terminated (s ++ t) := by
  rcases ht with rfl | rfl | rfl
  · exact absurd rfl hne
  · exact ⟨s, rfl, hs⟩
  · exact ⟨s ++ ['\r'], by simp, by simp [hs]⟩

section

variable {name value : Chars} {format : ConfigFormat} {cs : Bool} {duplicates : Duplicates}

theorem newLine_eq (format : ConfigFormat) (name value : Chars) :
    ∃ mid, newLine format name value = name ++ ' ' :: mid ++ value ∧ (mid = [] ∨ mid = ['=', ' ']) := by
  cases format with
  | keyValue => exact ⟨['=', ' '], by simp [newLine], .inr rfl⟩
  | spaceSeparated => exact ⟨[], by simp [newLine], .inl rfl⟩
  | auto => exact ⟨[], by simp [newLine], .inl rfl⟩

theorem newline_not_mem_newLine (hn : DirectiveName name) (hv : '\n' ∉ value) : '\n' ∉ newLine format name value := by
  have hname : '\n' ∉ name := by
    intro h
    exact absurd (hn.no_end _ h) (by decide)
  obtain ⟨mid, heq, hmid⟩ := newLine_eq format name value
  rw [heq]
  rcases hmid with rfl | rfl <;> simp [hname, hv]

theorem keyOf_append (hn : DirectiveName name) (rest : Chars) : keyOf (name ++ ' ' :: rest) = name := by
  unfold keyOf
  rw [List.takeWhile_append_of_pos]
  · have : endsKey ' ' = true := by decide
    simp [this]
  · intro c hc
    simp [hn.no_end c hc]

theorem behindKey_append (hn : DirectiveName name) (rest : Chars) : behindKey (name ++ ' ' :: rest) = ' ' :: rest := by
  unfold behindKey
  rw [List.dropWhile_append_of_pos]
  · have : endsKey ' ' = true := by decide
    simp [this]
  · intro c hc
    simp [hn.no_end c hc]

/-- A line that begins with the name keeps it when it is trimmed. -/
theorem trim_name_append (hn : DirectiveName name) (s : Chars) : trim (name ++ s) = name ++ trimEnd s := by
  have hclean : ∀ c ∈ name, isWhitespace c = false := by
    intro c hc
    have := hn.no_end c hc
    cases hw : isWhitespace c with
    | true => simp [endsKey, hw] at this
    | false => rfl
  have hstart : trimStart (name ++ s) = name ++ s := by
    apply trimStart_eq_self
    intro c hc
    apply hclean c
    cases hname : name with
    | nil => exact absurd hname hn.ne_nil
    | cons d name' =>
      rw [hname] at hc
      cases hc
      simp
  rw [trim, hstart]
  unfold trimEnd
  rw [List.reverse_append, List.dropWhile_append]
  split
  · next hnil =>
    have hrest : name.reverse.dropWhile isWhitespace = name.reverse := by
      rw [List.dropWhile_eq_self_iff]
      intro hlen
      rw [hclean _ (List.mem_reverse.mp (List.getElem_mem hlen))]
      simp
    rw [hrest, List.isEmpty_iff.mp hnil]
    simp
  · simp

/-- The new line, whatever its value, has the name for its key. -/
theorem keyOf_newLine (hn : DirectiveName name) (value : Chars) (format : ConfigFormat) :
    keyOf (trim (newLine format name value)) = name := by
  obtain ⟨mid, heq, _⟩ := newLine_eq format name value
  have happ : newLine format name value = name ++ ' ' :: (mid ++ value) := by rw [heq]; simp
  rw [happ, trim_name_append hn]
  obtain ⟨more, hmore⟩ := trimEnd_isPrefix (' ' :: (mid ++ value))
  cases hend : trimEnd (' ' :: (mid ++ value)) with
  | nil =>
    rw [List.append_nil]
    apply List.takeWhile_eq_self_iff.mpr
    intro c hc
    rw [hn.no_end c hc]
    rfl
  | cons c rest =>
    rw [hend, List.cons_append] at hmore
    rw [(List.cons.inj hmore).1]
    exact keyOf_append hn rest

theorem isComment_newLine (hn : DirectiveName name) (value : Chars) (format : ConfigFormat) :
    isComment (trim (newLine format name value)) = false := by
  obtain ⟨mid, heq, _⟩ := newLine_eq format name value
  have happ : newLine format name value = name ++ ' ' :: (mid ++ value) := by rw [heq]; simp
  rw [happ, trim_name_append hn]
  have hlive := hn.live
  unfold isComment at hlive ⊢
  cases hname : name with
  | nil => exact absurd hname hn.ne_nil
  | cons c name' =>
    rw [hname] at hlive
    exact hlive

section

variable {t : Chars}

theorem isLive_newLine (hn : DirectiveName name) (ht : Terminator t) : isLive cs name (newLine format name value ++ t) = true := by
  rw [isLive_iff hn.ne_nil, trim_terminator ht, isComment_newLine hn, keyOf_newLine hn]
  exact ⟨rfl, keyMatches_refl cs name⟩

theorem opensMatch_newLine (hn : DirectiveName name) (hm : eqIgnoreCase name matchKeyword = false) (ht : Terminator t) :
    opensMatch (newLine format name value ++ t) = false := by
  unfold opensMatch
  dsimp only
  rw [trim_terminator ht, isComment_newLine hn, splitDirective_fst, keyOf_newLine hn, hm]
  rfl

end

theorem SingleToken.last (hv : SingleToken value) :
    value ≠ [] ∧ ∀ c, value.getLast? = some c → isWhitespace c = false :=
  ⟨hv.ne_nil, fun c hc => hv.no_blank c (List.mem_of_getLast? hc)⟩

theorem trimStart_token (hv : SingleToken value) : trimStart value = value := by
  apply trimStart_eq_self
  intro c hc
  exact hv.no_blank c (List.mem_of_head? hc)

theorem words_token (hv : SingleToken value) : words value = [value] := by
  cases hval : value with
  | nil => exact absurd hval hv.ne_nil
  | cons c rest =>
    have hall : ∀ d ∈ c :: rest, (!isWhitespace d) = true := by
      intro d hd
      rw [hv.no_blank d (hval ▸ hd)]
      rfl
    rw [words_cons (hv.no_blank c (by simp [hval])), List.takeWhile_eq_self_iff.mpr hall, List.dropWhile_eq_nil_iff.mpr hall]
    rfl

theorem trim_token (hv : SingleToken value) : trim (' ' :: value) = value := by
  have hstart : trimStart (' ' :: value) = value := by
    have hblank : isWhitespace ' ' = true := by decide
    have := trimStart_token hv
    unfold trimStart at this ⊢
    rw [List.dropWhile_cons, if_pos hblank, this]
  rw [trim, hstart]
  exact trimEnd_eq_self hv.last.2

/-- The new line gives the directive its value, in either reading. -/
theorem directiveValue_newLine (hn : DirectiveName name) (hv : SingleToken value) (readFormat : ConfigFormat) :
    directiveValue readFormat cs name (newLine format name value) = some value := by
  have hblank : isWhitespace ' ' = true := by decide
  have hequals : isWhitespace '=' = false := by decide
  have hstart : trimStart (' ' :: value) = value := by
    have := trimStart_token hv
    unfold trimStart at this ⊢
    rw [List.dropWhile_cons, if_pos hblank, this]
  obtain ⟨mid, heq, hmid⟩ := newLine_eq format name value
  have happ : newLine format name value = name ++ ' ' :: (mid ++ value) := by rw [heq]; simp
  have hkey : keyOf (newLine format name value) = name := by rw [happ, keyOf_append hn]
  have hbehind : behindKey (newLine format name value) = ' ' :: (mid ++ value) := by rw [happ, behindKey_append hn]
  have hspace : spaceSeparatedValue cs name (newLine format name value) = some value := by
    have hsplit : (splitDirective (newLine format name value)).2 = value := by
      unfold behindKey at hbehind
      simp only [splitDirective, hbehind]
      rcases hmid with rfl | rfl
      · rw [List.nil_append, hstart]
        cases hval : value with
        | nil => rfl
        | cons c rest =>
          have hne : c ≠ '=' := fun he => hv.no_equals (by rw [hval, he]; rfl)
          simp [hne]
      · have hopen : trimStart (' ' :: (['=', ' '] ++ value)) = '=' :: ' ' :: value := by
          simp [trimStart, hblank, hequals]
        rw [hopen]
        exact hstart
    rw [spaceSeparatedValue_eq, hkey, if_pos (keyMatches_refl cs name), hsplit, words_token hv]
    rfl
  have hkv : keyValueValue cs name (newLine format name value) = some value := by
    rw [keyValueValue_eq hn, hkey, if_pos (keyMatches_refl cs name), hbehind]
    unfold behindValue
    rcases hmid with rfl | rfl
    · rw [List.nil_append, hstart]
      have hwords : (words (' ' :: value)).head? = some value := by
        rw [words_blank hblank, words_token hv]
        rfl
      rw [hwords]
      cases hval : value with
      | nil => rfl
      | cons c rest =>
        have hne : c ≠ '=' := fun he => hv.no_equals (by rw [hval, he]; rfl)
        simp [hne]
    · have hopen : trimStart (' ' :: (['=', ' '] ++ value)) = '=' :: ' ' :: value := by
        simp [trimStart, hblank, hequals]
      rw [hopen]
      exact congrArg some (trim_token hv)
  cases readFormat with
  | spaceSeparated => exact hspace
  | keyValue => exact hkv
  | auto => exact hkv

end

/-! ## The lines of the edited file -/

theorem chunks_append_cons {a : List Chars} {x : Chars} {b : List Chars} :
    Chunks (a ++ x :: b) ↔ (∀ l ∈ a, Terminated l) ∧ Chunks (x :: b) := by
  induction a with
  | nil => simp
  | cons l a ih =>
    have hcons : Chunks (l :: (a ++ x :: b)) ↔ Terminated l ∧ Chunks (a ++ x :: b) := by
      cases a <;> rfl
    rw [List.cons_append, hcons, ih]
    simp [and_assoc]

theorem Chunks.sublist {ls ls' : List Chars} (h : ls'.Sublist ls) (hls : Chunks ls) : Chunks ls' := by
  induction h with
  | slnil => trivial
  | cons l _ ih => exact ih hls.tail
  | @cons_cons ls' ls l hsub ih =>
    cases ls with
    | nil =>
      rw [List.sublist_nil.mp hsub]
      exact hls
    | cons m ls => exact chunks_cons hls.1 (ih hls.2)

section

variable {new t : Chars} {a rest : List Chars}

/-- A line rewritten with its own terminator. -/
theorem chunks_rewrite {x : Chars} {rest' : List Chars} (hnew : new ≠ [] ∧ '\n' ∉ new) (h : Chunks (a ++ x :: rest))
    (hsub : rest'.Sublist rest) : Chunks (a ++ (new ++ lineTerminator x) :: rest') := by
  obtain ⟨ha, hx⟩ := chunks_append_cons.mp h
  refine chunks_append_cons.mpr ⟨ha, ?_⟩
  cases rest with
  | nil =>
    rw [List.sublist_nil.mp hsub]
    rcases hx with hterm | ⟨_, hopen⟩
    · exact .inl (terminated_append hnew.2 (terminator_lineTerminator x) (lineTerminator_ne_nil hterm))
    · have hnone : lineTerminator x = [] := by
        unfold lineTerminator
        rw [if_neg fun hlast => hopen (List.mem_of_getLast? hlast)]
      rw [hnone, List.append_nil]
      exact .inr hnew
  | cons y rest =>
    exact chunks_cons (terminated_append hnew.2 (terminator_lineTerminator x) (lineTerminator_ne_nil hx.1))
      (Chunks.sublist hsub hx.2)

/-- Closing a file closes the new line, if it is the last. -/
theorem closeLast_newLine (hnew : '\n' ∉ new) (ht : Terminator t) (h : Chunks (a ++ (new ++ t) :: rest)) :
    ∃ t', Terminator t' ∧ t' ≠ [] ∧ closeLast (a ++ (new ++ t) :: rest) = a ++ (new ++ t') :: closeLast rest := by
  obtain ⟨_, hx⟩ := chunks_append_cons.mp h
  rw [closeLast_append]
  cases rest with
  | cons y rest =>
    refine ⟨t, ht, ?_, rfl⟩
    rintro rfl
    obtain ⟨body, heq, _⟩ := hx.1
    apply hnew
    rw [List.append_nil] at heq
    simp [heq]
  | nil =>
    rcases ht with rfl | rfl | rfl
    · refine ⟨['\n'], .inr (.inl rfl), by simp, ?_⟩
      have hopen : ¬ new.getLast? = some '\n' := fun hlast => hnew (List.mem_of_getLast? hlast)
      simp [closeLast, closeLine, hopen]
    · exact ⟨['\n'], .inr (.inl rfl), by simp, by simp [closeLast, closeLine]⟩
    · exact ⟨['\r', '\n'], .inr (.inr rfl), by simp, by simp [closeLast, closeLine]⟩

theorem takeWhile_below {below : List Chars} (h : ∀ l ∈ below.head?, opensMatch l = true) :
    below.takeWhile (fun l => !opensMatch l) = [] := by
  cases below with
  | nil => rfl
  | cons m below => simp [h m rfl]

theorem takeWhile_above {above : List Chars} (h : ∀ l ∈ above, opensMatch l = false) (below : List Chars) :
    (above ++ below).takeWhile (fun l => !opensMatch l) = above ++ below.takeWhile fun l => !opensMatch l := by
  apply List.takeWhile_append_of_pos
  intro l hl
  rw [h l hl]
  rfl

theorem mem_laterLines {cs : Bool} {name l : Chars} {duplicates : Duplicates} {b : List Chars}
    (h : l ∈ laterLines cs name duplicates b) : l ∈ b ∧ (duplicates = .remove → isLive cs name l = false) := by
  cases duplicates with
  | keep => exact ⟨h, fun hd => by cases hd⟩
  | remove =>
    obtain ⟨hb, hlive⟩ := List.mem_filter.mp h
    exact ⟨hb, fun _ => by simpa using hlive⟩

theorem sublist_laterLines (cs : Bool) (name : Chars) (duplicates : Duplicates) (b : List Chars) :
    (laterLines cs name duplicates b).Sublist b := by
  cases duplicates with
  | keep => exact List.Sublist.refl b
  | remove => exact List.filter_sublist

end

/-- The lines of a file whose directive is set: its new line stands above every other live
line of it, and, where duplicates go, is the only one of the global scope. -/
structure Settled (cs : Bool) (name new : Chars) (duplicates : Duplicates) (a : List Chars) (t : Chars)
    (rest : List Chars) : Prop where
  terminated : ∀ l ∈ a ++ (new ++ t) :: rest, Terminated l
  terminator : Terminator t ∧ t ≠ []
  above : ∀ l ∈ a, isLive cs name l = false ∧ opensMatch l = false
  later : duplicates = .remove → ∀ l ∈ rest.takeWhile (fun l => !opensMatch l), isLive cs name l = false

section

variable {cs : Bool} {name new : Chars} {duplicates : Duplicates}

/-- An edit that leaves the new line between `a` and `rest`, before the last line is closed. -/
theorem settled_closeLast {a rest : List Chars} {t : Chars} (hnew : '\n' ∉ new) (ht : Terminator t)
    (hchunks : Chunks (a ++ (new ++ t) :: rest)) (ha : ∀ l ∈ a, isLive cs name l = false ∧ opensMatch l = false)
    (hlater : duplicates = .remove → ∀ l ∈ rest.takeWhile (fun l => !opensMatch l), isLive cs name l = false) :
    ∃ t', closeLast (a ++ (new ++ t) :: rest) = a ++ (new ++ t') :: closeLast rest ∧
      Settled cs name new duplicates a t' (closeLast rest) := by
  obtain ⟨t', ht', hne, heq⟩ := closeLast_newLine hnew ht hchunks
  refine ⟨t', heq, ?_, ⟨ht', hne⟩, ha, ?_⟩
  · rw [← heq]
    exact terminated_closeLast hchunks
  · intro hd
    apply takeWhile_closeLast _ (isLive_closeLine cs name) (hlater hd)
    intro l
    rw [opensMatch_closeLine]

/-- An edit leaves lines a text may be cut into. -/
theorem Edit.chunks (hnew : new ≠ [] ∧ '\n' ∉ new) {before ls : List Chars} (h : Edit cs name new duplicates before ls)
    (hchunks : Chunks before) : Chunks ls := by
  cases h with
  | @live a b below x ha hx habove hbelow =>
    rw [List.append_assoc, List.cons_append]
    have hall : Chunks (a ++ x :: (b ++ below)) := by simpa using hchunks
    exact chunks_rewrite hnew hall ((sublist_laterLines cs name duplicates b).append_right below)
  | @commented a b below x hlive ha hx habove hbelow =>
    rw [List.append_assoc, List.cons_append]
    have hall : Chunks (a ++ x :: (b ++ below)) := by simpa using hchunks
    exact chunks_rewrite hnew hall (List.Sublist.refl _)
  | @inserted above below m hnone habove hm =>
    obtain ⟨ha, hx⟩ := chunks_append_cons.mp hchunks
    exact chunks_append_cons.mpr
      ⟨ha, chunks_cons (terminated_append hnew.2 (terminator_terminatorAbove m) (terminatorAbove_ne_nil m)) hx⟩
  | appended hnone habove =>
    unfold appendLine
    cases hlast : before.getLast? with
    | none => exact .inl (terminated_append hnew.2 (.inr (.inl rfl)) (by simp))
    | some last =>
      obtain ⟨front, rfl⟩ := List.getLast?_eq_some_iff.mp hlast
      obtain ⟨hfront, hopen⟩ := chunks_append_cons.mp hchunks
      have happ : (front ++ [last]).dropLast ++ [closeLine last, new ++ lineTerminator last] =
          (front ++ [closeLine last]) ++ (new ++ lineTerminator last) :: [] := by simp
      dsimp only
      rw [happ]
      have hclosed : Chunks (front ++ [closeLine last] ++ [last]) := by
        refine chunks_append_cons.mpr ⟨?_, hopen⟩
        intro l hl
        rcases List.mem_append.mp hl with hl | hl
        · exact hfront l hl
        · rw [List.mem_singleton.mp hl]
          exact terminated_closeLine hopen
      exact chunks_rewrite hnew hclosed (List.Sublist.refl _)

/-- The edit as one: a line of the directive is taken out, or none, and the new line stands
in its place, or at the end of the global scope. -/
theorem Edit.parts {before ls : List Chars} (h : Edit cs name new duplicates before ls) (hchunks : Chunks before) :
    ∃ (front : List Chars) (taken : Option Chars) (back below : List Chars) (t : Chars),
      before = front ++ taken.toList ++ back ++ below ∧
      (∀ l ∈ front ++ taken.toList ++ back, opensMatch l = false) ∧ (∀ l ∈ below.head?, opensMatch l = true) ∧
      (∀ l ∈ front, isLive cs name l = false) ∧
      (∀ x ∈ taken, isLive cs name x = true ∨ isCommented cs name x = true) ∧ (taken = none → back = []) ∧
      Terminator t ∧ ls = closeLast front ++ (new ++ t) :: laterLines cs name duplicates back ++ below := by
  cases h with
  | @live a b below x ha hx habove hbelow =>
    have hfront : closeLast a = a := closeLast_eq_self (chunks_append_cons.mp (by simpa using hchunks)).1
    refine ⟨a, some x, b, below, _, by simp, by simpa using habove, hbelow, ha, ?_, by simp, terminator_lineTerminator x, ?_⟩
    · intro y hy
      cases hy
      exact .inl hx
    · rw [hfront]
  | @commented a b below x hlive ha hx habove hbelow =>
    have hfront : closeLast a = a := closeLast_eq_self (chunks_append_cons.mp (by simpa using hchunks)).1
    have hlater : laterLines cs name duplicates b = b := by
      cases duplicates with
      | keep => rfl
      | remove =>
        apply List.filter_eq_self.mpr
        intro l hl
        simp [hlive l (by simp [hl])]
    refine ⟨a, some x, b, below, _, by simp, by simpa using habove, hbelow, fun l hl => hlive l (by simp [hl]), ?_, by simp,
      terminator_lineTerminator x, ?_⟩
    · intro y hy
      cases hy
      exact .inr hx
    · rw [hfront, hlater]
  | @inserted above below m hnone habove hm =>
    have hfront : closeLast above = above := closeLast_eq_self (chunks_append_cons.mp hchunks).1
    refine ⟨above, none, [], m :: below, _, by simp, by simpa using habove, by simpa using hm, hnone, by simp, by simp,
      terminator_terminatorAbove m, ?_⟩
    rw [hfront]
    cases duplicates <;> simp [laterLines]
  | appended hnone habove =>
    have hlater : laterLines cs name duplicates [] = [] := by cases duplicates <;> rfl
    unfold appendLine
    cases hlast : before.getLast? with
    | none =>
      obtain rfl := List.getLast?_eq_none_iff.mp hlast
      refine ⟨[], none, [], [], _, by simp, by simp, by simp, by simp, by simp, by simp, .inr (.inl rfl), ?_⟩
      rw [hlater]
      rfl
    | some last =>
      obtain ⟨front, rfl⟩ := List.getLast?_eq_some_iff.mp hlast
      refine ⟨front ++ [last], none, [], [], _, by simp, by simpa using habove, by simp, hnone, by simp, by simp,
        terminator_lineTerminator last, ?_⟩
      rw [hlater, closeLast_append]
      simp [closeLast]

/-- The lines of the text that is written. -/
theorem edited (hnew : new ≠ [] ∧ '\n' ∉ new) {s : Chars} {ls : List Chars}
    (h : Edit cs name new duplicates (splitInclusive s) ls) :
    ∃ a t rest, splitInclusive (closeLine ls.flatten) = a ++ (new ++ t) :: rest ∧
      Settled cs name new duplicates a t rest := by
  have hchunks := h.chunks hnew (chunks_splitInclusive s)
  obtain ⟨front, taken, back, below, t, _, habove, hbelow, hfront, _, _, ht, rfl⟩ := h.parts (chunks_splitInclusive s)
  rw [List.append_assoc, List.cons_append] at hchunks ⊢
  have hclosed : ∀ l ∈ closeLast front, isLive cs name l = false ∧ opensMatch l = false :=
    forall_closeLast (p := fun l => isLive cs name l = false ∧ opensMatch l = false)
      (fun l hl => by rwa [isLive_closeLine, opensMatch_closeLine])
      fun l hl => ⟨hfront l hl, habove l (by simp [hl])⟩
  have hlater : duplicates = .remove →
      ∀ l ∈ (laterLines cs name duplicates back ++ below).takeWhile (fun l => !opensMatch l), isLive cs name l = false := by
    intro hd l hl
    have hback : ∀ k ∈ laterLines cs name duplicates back, opensMatch k = false :=
      fun k hk => habove k (by simp [(mem_laterLines hk).1])
    rw [takeWhile_above hback, takeWhile_below hbelow, List.append_nil] at hl
    exact (mem_laterLines hl).2 hd
  obtain ⟨t', heq, hsettled⟩ := settled_closeLast hnew.2 ht hchunks hclosed hlater
  exact ⟨_, t', _, by rw [splitInclusive_closeLine hchunks (by simp), heq], hsettled⟩

end

/-! ## Setting it again -/

/-- Where the first element with a property stands is where it stands. -/
theorem first_unique {p : Chars → Bool} {a a' b b' : List Chars} {x x' : Chars} (h : a ++ x :: b = a' ++ x' :: b')
    (ha : ∀ l ∈ a, p l = false) (hx : p x = true) (ha' : ∀ l ∈ a', p l = false) (hx' : p x' = true) :
    a = a' ∧ x = x' ∧ b = b' := by
  induction a generalizing a' with
  | nil =>
    cases a' with
    | nil => simpa using h
    | cons l a' =>
      obtain ⟨rfl, _⟩ := List.cons.inj h
      rw [ha' x (by simp)] at hx
      cases hx
  | cons l a ih =>
    cases a' with
    | nil =>
      obtain ⟨rfl, _⟩ := List.cons.inj h
      rw [ha l (by simp)] at hx'
      cases hx'
    | cons l' a' =>
      obtain ⟨rfl, htail⟩ := List.cons.inj h
      obtain ⟨rfl, rfl, rfl⟩ := ih htail (fun k hk => ha k (by simp [hk])) fun k hk => ha' k (by simp [hk])
      exact ⟨rfl, rfl, rfl⟩

section

variable {cs : Bool} {name value : Chars} {format : ConfigFormat} {duplicates : Duplicates} {a rest : List Chars} {t : Chars}

theorem lineTerminator_newLine {new : Chars} (hnew : new.getLast? ≠ some '\r') (ht : Terminator t) (hne : t ≠ []) :
    lineTerminator (new ++ t) = t := by
  rcases ht with rfl | rfl | rfl
  · exact absurd rfl hne
  · simp [lineTerminator, hnew]
  · simp [lineTerminator]

/-- The new line stands above the first live `Match` line, so no edit overlooks it. -/
theorem edit_settled (hn : DirectiveName name) (hm : eqIgnoreCase name matchKeyword = false) (hv : SingleToken value)
    {ls : List Chars} (hs : Settled cs name (newLine format name value) duplicates a t rest)
    (h : Edit cs name (newLine format name value) duplicates (a ++ (newLine format name value ++ t) :: rest) ls) :
    ls = a ++ (newLine format name value ++ t) :: rest := by
  have hlive : isLive cs name (newLine format name value ++ t) = true := isLive_newLine hn hs.terminator.1
  have hopens : opensMatch (newLine format name value ++ t) = false := opensMatch_newLine hn hm hs.terminator.1
  have hmem : ∀ above below : List Chars, a ++ (newLine format name value ++ t) :: rest = above ++ below →
      (∀ l ∈ above, opensMatch l = false) → (∀ l ∈ below.head?, opensMatch l = true) →
      newLine format name value ++ t ∈ above := by
    intro above below heq habove hbelow
    have htake := takeWhile_above habove below
    rw [takeWhile_below hbelow, List.append_nil, ← heq, takeWhile_above fun l hl => (hs.above l hl).2] at htake
    rw [← htake]
    simp [hopens]
  generalize hall : a ++ (newLine format name value ++ t) :: rest = before at h
  cases h with
  | @live a' b below x ha hx habove hbelow =>
    rw [List.append_assoc, List.cons_append] at hall
    obtain ⟨rfl, rfl, rfl⟩ := first_unique hall (fun l hl => (hs.above l hl).1) hlive ha hx
    have hlast : (newLine format name value).getLast? ≠ some '\r' := by
      obtain ⟨mid, heq, _⟩ := newLine_eq format name value
      rw [heq, List.getLast?_append]
      cases hl : value.getLast? with
      | none => exact absurd (List.getLast?_eq_none_iff.mp hl) hv.ne_nil
      | some c =>
        rw [Option.some_or]
        intro he
        have := hv.no_blank c (List.mem_of_getLast? hl)
        rw [Option.some.inj he, isWhitespace_carriage] at this
        cases this
    have hlater : laterLines cs name duplicates b = b := by
      cases duplicates with
      | keep => rfl
      | remove =>
        apply List.filter_eq_self.mpr
        intro l hl
        have := hs.later rfl l (by
          rw [takeWhile_above fun k hk => habove k (by simp [hk])]
          exact List.mem_append_left _ hl)
        simp [this]
    rw [lineTerminator_newLine hlast hs.terminator.1 hs.terminator.2, hlater]
  | @commented a' b below x hnone _ _ habove hbelow =>
    have := hnone _ (hmem _ _ hall habove hbelow)
    rw [hlive] at this
    cases this
  | @inserted above below m hnone habove hm' =>
    have := hnone _ (hmem _ _ hall habove (by simpa using hm'))
    rw [hlive] at this
    cases this
  | appended hnone habove =>
    have := hnone (newLine format name value ++ t) (by rw [← hall]; simp)
    rw [hlive] at this
    cases this

/-- A file whose directive is set is left as it is. -/
theorem setConfigDirective_fixed (hn : DirectiveName name) (hm : eqIgnoreCase name matchKeyword = false)
    (hv : SingleToken value) {content : Chars}
    (hsplit : splitInclusive content = a ++ (newLine format name value ++ t) :: rest)
    (hs : Settled cs name (newLine format name value) duplicates a t rest) :
    setConfigDirective content name value format cs duplicates = content := by
  obtain ⟨ls, hedit, heq⟩ := setConfigDirective_edits content name value format cs duplicates
  rw [hsplit] at hedit
  have hls := edit_settled hn hm hv hs hedit
  rw [heq, hls, closeLine_of_terminated hs.terminated (by simp), ← hsplit, flatten_splitInclusive]

/-! ## Reading it back -/

/-- The lines down to the first live `Match` line, read. -/
theorem parse_globalScope_eq (hn : DirectiveName name) (content : Chars) (readFormat : ConfigFormat) :
    parseConfigValue (globalScope content) name readFormat cs =
      ((splitInclusive content).takeWhile fun l => !opensMatch l).findSome? (lineValue (directiveValue readFormat cs name)) := by
  rw [parse_eq hn, globalScope, splitInclusive_flatten (chunks_takeWhile _ (chunks_splitInclusive content))]

/-- The new line is the first that gives the directive a value. -/
theorem findSome_settled (hn : DirectiveName name) (hv : SingleToken value)
    (hs : Settled cs name (newLine format name value) duplicates a t rest) (readFormat : ConfigFormat) (more : List Chars) :
    (a ++ (newLine format name value ++ t) :: more).findSome? (lineValue (directiveValue readFormat cs name)) = some value := by
  have htrim : trim (newLine format name value ++ t) = newLine format name value := by
    obtain ⟨mid, heq, _⟩ := newLine_eq format name value
    have happ : newLine format name value = name ++ (' ' :: mid ++ value) := by rw [heq]; simp
    have hend : trimEnd (' ' :: mid ++ value) = ' ' :: mid ++ value := by
      apply trimEnd_eq_self
      intro c hc
      rw [List.getLast?_append] at hc
      cases hl : value.getLast? with
      | none => exact absurd (List.getLast?_eq_none_iff.mp hl) hv.ne_nil
      | some d =>
        rw [hl, Option.some_or] at hc
        exact hv.last.2 c (by rw [hl, hc])
    rw [trim_terminator hs.terminator.1, happ, trim_name_append hn, hend]
  have hnone : a.findSome? (lineValue (directiveValue readFormat cs name)) = none := by
    apply List.findSome?_eq_none_iff.mpr
    intro l hl
    exact lineValue_of_not_isLive hn (hs.above l hl).1 readFormat
  have hvalue : lineValue (directiveValue readFormat cs name) (newLine format name value ++ t) = some value := by
    rw [lineValue_of_isLive hn (isLive_newLine hn hs.terminator.1), htrim, directiveValue_newLine hn hv]
  rw [List.findSome?_append, hnone, List.findSome?_cons, hvalue]
  rfl

end

/-- Whatever the file, the value set is the value read, from all of it and from its global
scope, in every format; setting it again changes nothing; and the file ends its last line. -/
theorem set_and_read (content name value : Chars) (format readFormat : ConfigFormat) (cs : Bool) (duplicates : Duplicates)
    (hn : DirectiveName name) (hm : eqIgnoreCase name matchKeyword = false) (hv : SingleToken value) :
    parseConfigValue (setConfigDirective content name value format cs duplicates) name readFormat cs = some value ∧
      parseConfigValue (globalScope (setConfigDirective content name value format cs duplicates)) name readFormat cs =
        some value ∧
      setConfigDirective (setConfigDirective content name value format cs duplicates) name value format cs duplicates =
        setConfigDirective content name value format cs duplicates ∧
      (setConfigDirective content name value format cs duplicates).getLast? = some '\n' := by
  have hvalue : '\n' ∉ value := by
    intro h
    exact absurd (hv.no_blank _ h) (by decide)
  have hnew : newLine format name value ≠ [] ∧ '\n' ∉ newLine format name value := by
    refine ⟨?_, newline_not_mem_newLine hn hvalue⟩
    obtain ⟨mid, heq, _⟩ := newLine_eq format name value
    rw [heq]
    simp
  obtain ⟨ls, hedit, heq⟩ := setConfigDirective_edits content name value format cs duplicates
  obtain ⟨a, t, rest, hsplit, hs⟩ := edited hnew hedit
  rw [heq]
  refine ⟨?_, ?_, ?_, ?_⟩
  · rw [parse_eq hn, hsplit, findSome_settled hn hv hs]
  · rw [parse_globalScope_eq hn, hsplit, takeWhile_above fun l hl => (hs.above l hl).2, List.takeWhile_cons,
      opensMatch_newLine hn hm hs.terminator.1, Bool.not_false, if_pos rfl, findSome_settled hn hv hs]
  · exact setConfigDirective_fixed hn hm hv hsplit hs
  · unfold closeLine
    split
    · next hlast => exact hlast
    · simp

/-- A text has no character of a kind, by going through its characters. -/
theorem eq_false_of_all {p : Char → Bool} {cs : Chars} (h : (cs.all fun c => !p c) = true) : ∀ c ∈ cs, p c = false := by
  simpa using h

theorem set_and_read_permitRootLogin :
    parseConfigValue (setConfigDirective "#PermitRootLogin yes\r\nMatch User deploy\r\n  PermitRootLogin yes".toList
      "PermitRootLogin".toList "no".toList .spaceSeparated false .keep) "PermitRootLogin".toList .auto false =
      some "no".toList := by
  have hname : DirectiveName "PermitRootLogin".toList := ⟨by decide, eq_false_of_all (by decide), by decide⟩
  have hvalue : SingleToken "no".toList := ⟨by decide, eq_false_of_all (by decide), by decide⟩
  exact (set_and_read _ _ _ .spaceSeparated .auto false .keep hname (by decide) hvalue).1

end LinuxHardener.Common
