import LinuxHardener.Lib.Cut

/-
  Texts read as runs of characters of one kind, and `str::replace` of texts of that kind.

  What is proved:
    1. `replaceText_append` — a text of one kind is replaced run by run.
    2. `replaceText_of_not_infix` — a text that does not occur is not replaced.
    3. `IsRun.of_append`, `IsRun.of_cons` — the runs of what stands behind are runs of the whole.
-/
namespace LinuxHardener.TextRuns

open LineText

variable {p : Char → Bool} {pat new u v w s : Chars}

/-- `str::replace` at a text that is not empty. -/
def replaceText (pat new s : Chars) : Chars :=
  match s with
  | [] => []
  | c :: s => if pat.isPrefixOf (c :: s) then new ++ replaceText pat new (s.drop (pat.length - 1)) else c :: replaceText pat new s
termination_by s.length
decreasing_by
  · rw [List.length_drop, List.length_cons]
    omega
  · exact Nat.lt_succ_self _

@[simp] theorem replaceText_nil : replaceText pat new [] = [] := by rw [replaceText]

theorem replaceText_cons {c : Char} (h : ¬ pat <+: c :: s) : replaceText pat new (c :: s) = c :: replaceText pat new s := by
  rw [replaceText, if_neg fun hprefix => h (List.isPrefixOf_iff_prefix.mp hprefix)]

theorem replaceText_prefix (hne : pat ≠ []) : replaceText pat new (pat ++ s) = new ++ replaceText pat new s := by
  obtain ⟨c, rest, rfl⟩ := List.exists_cons_of_ne_nil hne
  have hprefix : (c :: rest).isPrefixOf (c :: (rest ++ s)) = true :=
    List.isPrefixOf_iff_prefix.mpr (List.prefix_append (c :: rest) s)
  rw [List.cons_append, replaceText, if_pos hprefix, List.length_cons, Nat.add_sub_cancel, List.drop_left]

/-- Nothing that could begin with another character than the first of the text is replaced. -/
theorem replaceText_skip (h : ∀ t, t ≠ [] → t <:+ u → ¬ pat <+: t ++ v) :
    replaceText pat new (u ++ v) = u ++ replaceText pat new v := by
  induction u with
  | nil => rfl
  | cons c u ih =>
    have hnot : ¬ pat <+: c :: (u ++ v) := h (c :: u) nofun (List.suffix_refl _)
    rw [List.cons_append, replaceText_cons hnot, ih fun t hne ht => h t hne (ht.trans (List.suffix_cons ..))]
    rfl

theorem replaceText_of_not_infix (h : ¬ pat <:+: s) : replaceText pat new s = s := by
  have hskip : replaceText pat new (s ++ []) = s ++ replaceText pat new [] := by
    apply replaceText_skip
    intro t _ ht hstarts
    rw [List.append_nil] at hstarts
    exact h (List.IsInfix.trans hstarts.isInfix ht.isInfix)
  rwa [replaceText_nil, List.append_nil] at hskip

/-- A text of one kind that stands before a character of another kind stands before it already. -/
theorem prefix_append_iff (hpat : ∀ c ∈ pat, p c = true) (hv : ∀ c, v.head? = some c → p c = false) : pat <+: u ++ v ↔ pat <+: u := by
  constructor
  · intro h
    rcases Nat.le_total pat.length u.length with hle | hle
    · exact List.prefix_of_prefix_length_le h (List.prefix_append ..) hle
    · obtain ⟨rest, rfl⟩ := List.prefix_of_prefix_length_le (List.prefix_append u v) h hle
      cases rest with
      | nil =>
        exact ⟨[], by rw [List.append_nil, List.append_nil]⟩
      | cons c rest =>
        obtain ⟨behind, rfl⟩ := (List.prefix_append_right_inj u).mp h
        have hc := hpat c (List.mem_append_right _ List.mem_cons_self)
        rw [hv c rfl] at hc
        cases hc
  · exact fun h => h.trans (List.prefix_append ..)

/-- A text of one kind is replaced run by run. -/
theorem replaceText_append (hne : pat ≠ []) (hpat : ∀ c ∈ pat, p c = true) (hv : ∀ c, v.head? = some c → p c = false) :
    replaceText pat new (u ++ v) = replaceText pat new u ++ replaceText pat new v := by
  induction hn : u.length using Nat.strong_induction_on generalizing u with
  | _ n ih =>
    subst hn
    cases u with
    | nil =>
      rw [replaceText_nil]
      rfl
    | cons c u =>
      by_cases hprefix : pat <+: c :: u
      · obtain ⟨rest, hrest⟩ := hprefix
        have hshorter : rest.length < (c :: u).length := by
          have hlength := congrArg List.length hrest
          have hpos := List.length_pos_iff.mpr hne
          rw [List.length_append] at hlength
          omega
        rw [← hrest, List.append_assoc, replaceText_prefix hne, replaceText_prefix hne, ih _ hshorter rfl, List.append_assoc]
      · have hnot : ¬ pat <+: c :: (u ++ v) := fun h => hprefix ((prefix_append_iff (u := c :: u) hpat hv).mp h)
        rw [List.cons_append, replaceText_cons hnot, replaceText_cons hprefix, ih u.length (Nat.lt_succ_self _) rfl]
        rfl

theorem replaceText_cons_of_kind {c : Char} (hne : pat ≠ []) (hpat : ∀ d ∈ pat, p d = true) (hc : p c = false) :
    replaceText pat new (c :: s) = c :: replaceText pat new s := by
  refine replaceText_cons fun h => ?_
  obtain ⟨e, rest, rfl⟩ := List.exists_cons_of_ne_nil hne
  obtain ⟨rfl, -⟩ := List.cons_prefix_cons.mp h
  rw [hpat e List.mem_cons_self] at hc
  cases hc

/-- What is of another kind at the front stays there. -/
theorem head_replaceText (hne : pat ≠ []) (hpat : ∀ c ∈ pat, p c = true) (hv : ∀ c, v.head? = some c → p c = false) :
    ∀ c, (replaceText pat new v).head? = some c → p c = false := by
  cases v with
  | nil =>
    rw [replaceText_nil]
    nofun
  | cons d v =>
    rw [replaceText_cons_of_kind hne hpat (hv d rfl)]
    exact hv

theorem mem_replaceText {c : Char} (h : c ∈ replaceText pat new s) : c ∈ new ∨ c ∈ s := by
  induction hn : s.length using Nat.strong_induction_on generalizing s with
  | _ n ih =>
    subst hn
    cases s with
    | nil =>
      rw [replaceText_nil] at h
      cases h
    | cons d s =>
      rw [replaceText] at h
      split at h
      · obtain h | h := List.mem_append.mp h
        · exact .inl h
        · have hshorter : (s.drop (pat.length - 1)).length < (d :: s).length := by
            rw [List.length_drop, List.length_cons]
            omega
          exact (ih _ hshorter h rfl).imp_right fun hmem => List.mem_cons_of_mem _ (List.mem_of_mem_drop hmem)
      · obtain rfl | h := List.mem_cons.mp h
        · exact .inr List.mem_cons_self
        · exact (ih s.length (Nat.lt_succ_self _) h rfl).imp_right (List.mem_cons_of_mem _)

/-! ## Runs -/

/-- A stretch of characters of one kind, between others or the ends. -/
structure IsRun (p : Char → Bool) (w s : Chars) : Prop where
  ne_nil : w ≠ []
  all : ∀ c ∈ w, p c = true
  stands : ∃ before behind, s = before ++ w ++ behind ∧ (∀ c, before.getLast? = some c → p c = false) ∧
    ∀ c, behind.head? = some c → p c = false

theorem IsRun.of_cons {c : Char} (hc : p c = false) (h : IsRun p w s) : IsRun p w (c :: s) := by
  obtain ⟨hne, hall, before, behind, rfl, hbefore, hbehind⟩ := h
  refine ⟨hne, hall, c :: before, behind, rfl, fun d hd => ?_, hbehind⟩
  rw [List.getLast?_cons] at hd
  cases hlast : before.getLast? with
  | none =>
    rw [hlast] at hd
    cases hd
    exact hc
  | some e =>
    rw [hlast] at hd
    cases hd
    exact hbefore _ hlast

theorem IsRun.of_append (hv : ∀ c, v.head? = some c → p c = false) (h : IsRun p w v) : IsRun p w (u ++ v) := by
  obtain ⟨hne, hall, before, behind, rfl, hbefore, hbehind⟩ := h
  refine ⟨hne, hall, u ++ before, behind, by simp only [List.append_assoc], fun d hd => ?_, hbehind⟩
  cases before with
  | nil =>
    obtain ⟨c, rest, rfl⟩ := List.exists_cons_of_ne_nil hne
    have hc := hv c rfl
    rw [hall c List.mem_cons_self] at hc
    cases hc
  | cons c before =>
    rw [List.getLast?_append_of_ne_nil _ (List.cons_ne_nil c before)] at hd
    exact hbefore d hd

theorem IsRun.tail {c : Char} (hc : p c = false) (h : IsRun p w (c :: s)) : IsRun p w s := by
  obtain ⟨hne, hall, before, behind, hs, hbefore, hbehind⟩ := h
  cases before with
  | nil =>
    obtain ⟨d, rest, rfl⟩ := List.exists_cons_of_ne_nil hne
    cases hs
    rw [hall c List.mem_cons_self] at hc
    cases hc
  | cons d before =>
    cases hs
    refine ⟨hne, hall, before, behind, rfl, fun e he => ?_, hbehind⟩
    refine hbefore e ?_
    rw [List.getLast?_cons, he]
    rfl

/-- No run stands across a place where another kind begins. -/
theorem IsRun.split (hv : ∀ c, v.head? = some c → p c = false) (h : IsRun p w (u ++ v)) : IsRun p w u ∨ IsRun p w v := by
  obtain ⟨hne, hall, before, behind, hs, hbefore, hbehind⟩ := h
  obtain ⟨a, hu, rfl⟩ | ⟨a, rfl, hrest⟩ := List.append_eq_append_iff.mp hs
  · obtain ⟨b, rfl, rfl⟩ | ⟨b, rfl, rfl⟩ := List.append_eq_append_iff.mp hu
    · cases a with
      | nil => exact .inl ⟨hne, hall, before, [], by simp, hbefore, nofun⟩
      | cons c a =>
        have hc := hall c (List.mem_append_right _ List.mem_cons_self)
        rw [hv c rfl] at hc
        cases hc
    · refine .inr ⟨hne, hall, b, behind, rfl, fun c hc => hbefore c ?_, hbehind⟩
      rw [List.getLast?_append, hc]
      rfl
  · refine .inl ⟨hne, hall, before, a, rfl, hbefore, fun c hc => hbehind c ?_⟩
    rw [hrest, List.head?_append, hc]
    rfl

theorem head_dropWhile (s : Chars) : ∀ c, (s.dropWhile p).head? = some c → p c = false := by
  intro c hc
  have hhead := List.head?_dropWhile_not p s
  rw [hc] at hhead
  exact hhead

theorem takeWhile_run (hw : ∀ c ∈ w, p c = true) (hv : ∀ c, v.head? = some c → p c = false) : (w ++ v).takeWhile p = w := by
  rw [List.takeWhile_append_of_pos hw]
  cases v with
  | nil => rw [List.takeWhile_nil, List.append_nil]
  | cons c v => rw [List.takeWhile_cons_of_neg (Bool.eq_false_iff.mp (hv c rfl)), List.append_nil]

theorem dropWhile_run (hw : ∀ c ∈ w, p c = true) (hv : ∀ c, v.head? = some c → p c = false) : (w ++ v).dropWhile p = v := by
  rw [List.dropWhile_append_of_pos hw]
  cases v with
  | nil => rfl
  | cons c v => rw [List.dropWhile_cons_of_neg (Bool.eq_false_iff.mp (hv c rfl))]

/-- A text is a run and what is left, which begins with another character. -/
theorem exists_run (p : Char → Bool) (s : Chars) :
    ∃ w v, s = w ++ v ∧ (∀ c ∈ w, p c = true) ∧ ∀ c, v.head? = some c → p c = false :=
  ⟨s.takeWhile p, s.dropWhile p, List.takeWhile_append_dropWhile.symm, fun _ hc => List.mem_takeWhile_imp hc, head_dropWhile s⟩

/-- The run a text begins with. -/
theorem isRun_takeWhile {c : Char} (hc : p c = true) : IsRun p ((c :: s).takeWhile p) (c :: s) where
  ne_nil := by
    rw [List.takeWhile_cons_of_pos hc]
    nofun
  all _ hd := List.mem_takeWhile_imp hd
  stands := ⟨[], (c :: s).dropWhile p, by rw [List.nil_append, List.takeWhile_append_dropWhile], nofun, head_dropWhile _⟩

end LinuxHardener.TextRuns
