import LinuxHardener.Lib.Glob
import Mathlib.Data.List.Forall2

/-
  The glob matcher of the Include resolver (`include.rs`, `glob_matches`): two
  pointers, and the place to resume from when a star needs one more character.

  What is proved: `globMatches_iff_loopMatches` — what the matcher decides, which is
  `Glob.Matches` on a name that holds no star of its own (`globMatches_iff`). On one that
  does it may not be: `globMatches_star_name`.
-/
namespace LinuxHardener.Ssh

open LineText Glob

/-- The variables of the loop. The pointers are kept as what is left of the pattern and
of the name; `star` is the pattern behind the last star and the name from where the
last try of it began. -/
structure GlobState where
  pattern : Chars
  name : Chars
  star : Option (Chars × Chars)
  /-- The pointers never stand before the place to resume from. -/
  ahead : ∀ rest resume, star = some (rest, resume) →
    pattern.length ≤ rest.length ∧ name.length ≤ resume.length

namespace GlobState

/-- A `*` needs to consume one more character. -/
def retry (star : Option (Chars × Chars)) : GlobState ⊕ Bool :=
  match star with
  | none => .inr false
  | some (rest, resume) =>
    .inl ⟨rest, resume.tail, some (rest, resume.tail), fun _ _ h => by
      obtain ⟨rfl, rfl⟩ := Prod.mk.inj (Option.some.inj h)
      exact ⟨Nat.le_refl _, Nat.le_refl _⟩⟩

/-- One turn of the loop, or what the function returns. -/
def next : GlobState → GlobState ⊕ Bool
  | ⟨pattern, [], _, _⟩ => .inr (pattern.all (· == '*'))
  | ⟨[], _ :: _, star, _⟩ => retry star
  | ⟨q :: pattern, c :: name, star, ahead⟩ =>
    if q = '?' ∨ q = c then
      .inl ⟨pattern, name, star, fun rest resume h => by
        have := ahead rest resume h
        simp only [List.length_cons] at this
        omega⟩
    else if q = '*' then
      .inl ⟨pattern, c :: name, some (pattern, c :: name), fun _ _ h => by
        obtain ⟨rfl, rfl⟩ := Prod.mk.inj (Option.some.inj h)
        exact ⟨Nat.le_refl _, Nat.le_refl _⟩⟩
    else retry star

/-- What a turn makes smaller: the pattern behind the last star, the name left to try it
on, the pattern left in this try. -/
def rank (s : GlobState) : Nat × Nat × Nat :=
  match s.star with
  | none => (s.pattern.length + 1, 0, s.pattern.length)
  | some (rest, resume) => (rest.length, resume.length, s.pattern.length)

theorem next_rank {s s' : GlobState} (h : s.next = .inl s') :
    Prod.Lex (· < ·) (Prod.Lex (· < ·) (· < ·)) s'.rank s.rank := by
  obtain ⟨pattern, name, star, ahead⟩ := s
  -- A retry keeps the pattern behind the star and shortens the name it is tried on.
  have retried : name ≠ [] → retry star = .inl s' →
      Prod.Lex (· < ·) (Prod.Lex (· < ·) (· < ·)) s'.rank (⟨pattern, name, star, ahead⟩ : GlobState).rank := by
    intro hne hr
    cases star with
    | none => cases hr
    | some r =>
      obtain ⟨rest, resume⟩ := r
      cases hr
      have hlen := (ahead rest resume rfl).2
      have := List.length_pos_iff.mpr hne
      refine Prod.Lex.right _ (Prod.Lex.left _ _ ?_)
      rw [List.length_tail]
      omega
  cases name with
  | nil => cases h
  | cons c name =>
    cases pattern with
    | nil => exact retried (by simp) h
    | cons q pattern =>
      rw [next] at h
      split at h
      · cases h
        cases star with
        | none => exact Prod.Lex.left _ _ (by simp)
        | some r => exact Prod.Lex.right _ (Prod.Lex.right _ (by simp))
      · split at h
        · cases h
          cases star with
          | none => exact Prod.Lex.left _ _ (by dsimp only [List.length_cons]; omega)
          | some r =>
            have hlen := (ahead r.1 r.2 rfl).1
            rw [List.length_cons] at hlen
            exact Prod.Lex.left _ _ hlen
        · exact retried (by simp) h

/-- The loop. -/
def run (s : GlobState) : Bool :=
  match _h : s.next with
  | .inr b => b
  | .inl s' => run s'
termination_by s.rank
decreasing_by exact next_rank _h

end GlobState

/-- Whether a filename matches a glob(7) pattern containing `*` and `?`. -/
def globMatches (pattern name : Chars) : Bool :=
  GlobState.run ⟨pattern, name, none, fun _ _ h => by cases h⟩

/-! ## What the loop decides -/

/-- A pattern character that takes a character of the name as it stands. -/
def Takes (q c : Char) : Prop := q = '?' ∨ q = c

/-- As the loop reads them: a star that meets a star stands for that one alone, and any
other star for any run. -/
def LoopMatches : Chars → Chars → Prop
  | [], n => n = []
  | q :: p, [] => q = '*' ∧ LoopMatches p []
  | q :: p, c :: n => (Takes q c → LoopMatches p n) ∧ (¬ Takes q c → q = '*' ∧ ∃ m, m <:+ c :: n ∧ LoopMatches p m)

section

variable {p n m : Chars} {q c : Char}

theorem loopMatches_takes (h : Takes q c) : LoopMatches (q :: p) (c :: n) ↔ LoopMatches p n := by
  rw [LoopMatches]
  exact ⟨fun hm => hm.1 h, fun hm => ⟨fun _ => hm, fun hno => absurd h hno⟩⟩

theorem loopMatches_not_takes (h : ¬ Takes q c) :
    LoopMatches (q :: p) (c :: n) ↔ q = '*' ∧ ∃ m, m <:+ c :: n ∧ LoopMatches p m := by
  rw [LoopMatches]
  exact ⟨fun hm => hm.2 h, fun hm => ⟨fun hyes => absurd hyes h, fun _ => hm⟩⟩

theorem loopMatches_empty : LoopMatches p [] ↔ p.all (· == '*') = true := by
  induction p with
  | nil => simp [LoopMatches]
  | cons q p ih => rw [LoopMatches, ih, List.all_cons, Bool.and_eq_true, beq_iff_eq]

/-- Whatever is read behind a first character is read of a later part of the name. -/
theorem exists_suffix_of_cons (h : LoopMatches (q :: p) n) : ∃ m, m <:+ n ∧ LoopMatches p m := by
  cases n with
  | nil => exact ⟨[], List.suffix_rfl, h.2⟩
  | cons c n =>
    by_cases ht : Takes q c
    · exact ⟨n, List.suffix_cons c n, (loopMatches_takes ht).mp h⟩
    · exact ((loopMatches_not_takes ht).mp h).2

/-- The loop's reading is one of glob(7)'s. -/
theorem matches_of_loopMatches (h : LoopMatches p n) : Matches p n := by
  induction p generalizing n with
  | nil => exact matches_nil_iff.mpr h
  | cons q p ih =>
    cases n with
    | nil =>
      obtain ⟨rfl, hrest⟩ := h
      exact .skip (ih hrest)
    | cons c n =>
      by_cases ht : Takes q c
      · have hm := ih ((loopMatches_takes ht).mp h)
        by_cases hq : q = '*'
        · exact hq ▸ .take (.skip hm)
        · exact (matches_cons_iff hq).mpr ⟨ht, hm⟩
      · obtain ⟨rfl, m, hsuffix, hm⟩ := (loopMatches_not_takes ht).mp h
        exact matches_star_iff.mpr ⟨m, hsuffix, ih hm⟩

/-- On a name without a star it is the only one. -/
theorem loopMatches_of_matches (hn : '*' ∉ n) (h : Matches p n) : LoopMatches p n := by
  induction p generalizing n with
  | nil => exact matches_nil_iff.mp h
  | cons q p ih =>
    by_cases hq : q = '*'
    · obtain ⟨m, hsuffix, hm⟩ := matches_star_iff.mp (hq ▸ h)
      have hrest := ih (fun hstar => hn (hsuffix.subset hstar)) hm
      cases n with
      | nil => exact ⟨hq, List.suffix_nil.mp hsuffix ▸ hrest⟩
      | cons c n =>
        have hno : ¬ Takes q c := by
          rintro (he | he)
          · rw [hq] at he
            cases he
          · exact hn (he ▸ hq ▸ List.mem_cons_self)
        exact (loopMatches_not_takes hno).mpr ⟨hq, m, hsuffix, hrest⟩
    · cases n with
      | nil =>
        rw [matches_empty_iff, List.all_cons, Bool.and_eq_true, beq_iff_eq] at h
        exact absurd h.1 hq
      | cons c n =>
        obtain ⟨ht, hm⟩ := (matches_cons_iff hq).mp h
        exact (loopMatches_takes ht).mpr (ih (fun hstar => hn (List.mem_cons_of_mem c hstar)) hm)

end

/-! ## What the loop keeps -/

namespace GlobState

/-- What has been tried since the last star was met or moved on: a part of its pattern, each
character of which took the name's as it stood. -/
def Tried (s : GlobState) : Prop :=
  ∀ rest resume, s.star = some (rest, resume) →
    ∃ lit eaten, rest = lit ++ s.pattern ∧ resume = eaten ++ s.name ∧ List.Forall₂ Takes lit eaten

/-- What is still to be tried: the rest as it stands, or the last star one character on. -/
def Open (s : GlobState) : Prop :=
  LoopMatches s.pattern s.name ∨ ∃ rest resume, s.star = some (rest, resume) ∧ ∃ m, m <:+ resume.tail ∧ LoopMatches rest m

/-- Wherever the last star is tried, the pattern left reads a part of the name left: no try
gets ahead of the first. -/
theorem later_suffix {lit eaten p n m : Chars} (ht : List.Forall₂ Takes lit eaten) (hs : m <:+ eaten ++ n)
    (hm : LoopMatches (lit ++ p) m) : ∃ m', m' <:+ n ∧ LoopMatches p m' := by
  induction ht generalizing m with
  | nil => exact ⟨m, hs, hm⟩
  | @cons q c lit eaten hq _ ih =>
    rw [List.cons_append] at hs hm
    rcases List.suffix_cons_iff.mp hs with rfl | hs
    · exact ih List.suffix_rfl ((loopMatches_takes hq).mp hm)
    · obtain ⟨k, hk, hm⟩ := exists_suffix_of_cons hm
      exact ih (hk.trans hs) hm

/-- A part of a list from its end is the list or a part of its tail. -/
theorem exists_suffix_iff {n : Chars} {P : Chars → Prop} : (∃ m, m <:+ n ∧ P m) ↔ P n ∨ ∃ m, m <:+ n.tail ∧ P m := by
  constructor
  · rintro ⟨m, hm, hP⟩
    cases n with
    | nil => exact .inl (List.suffix_nil.mp hm ▸ hP)
    | cons c n =>
      rcases List.suffix_cons_iff.mp hm with rfl | hm
      · exact .inl hP
      · exact .inr ⟨m, hm, hP⟩
  · rintro (hP | ⟨m, hm, hP⟩)
    · exact ⟨n, List.suffix_rfl, hP⟩
    · exact ⟨m, hm.trans (List.tail_suffix n), hP⟩

/-- A star just met, or just moved on: it may stand for any run. -/
theorem fresh {pattern name : Chars} {ahead} :
    Tried ⟨pattern, name, some (pattern, name), ahead⟩ ∧
      (Open ⟨pattern, name, some (pattern, name), ahead⟩ ↔ ∃ m, m <:+ name ∧ LoopMatches pattern m) := by
  refine ⟨fun rest resume he => ?_, ?_⟩
  · cases he
    exact ⟨[], [], rfl, rfl, .nil⟩
  · rw [exists_suffix_iff]
    refine or_congr Iff.rfl ⟨?_, fun h => ⟨pattern, name, rfl, h⟩⟩
    rintro ⟨_, _, he, h⟩
    cases he
    exact h

theorem retry_inl {s s' : GlobState} (hdead : ¬ LoopMatches s.pattern s.name) (h : retry s.star = .inl s') :
    s'.Tried ∧ (s'.Open ↔ s.Open) := by
  unfold retry at h
  split at h
  · cases h
  · next rest resume hstar =>
    cases h
    refine ⟨fresh.1, fresh.2.trans ⟨fun hm => .inr ⟨rest, resume, hstar, hm⟩, ?_⟩⟩
    rintro (hm | ⟨rest', resume', he, hm⟩)
    · exact absurd hm hdead
    · rw [hstar] at he
      cases he
      exact hm

/-- A turn keeps what has been tried, and what is still to be tried. -/
theorem next_inl {s s' : GlobState} (ht : s.Tried) (h : s.next = .inl s') : s'.Tried ∧ (s'.Open ↔ s.Open) := by
  obtain ⟨pattern, name, star, ahead⟩ := s
  cases name with
  | nil => cases h
  | cons c name =>
    cases pattern with
    | nil => exact retry_inl (List.cons_ne_nil c name) h
    | cons q pattern =>
      rw [next] at h
      split at h
      · next hq =>
        cases h
        refine ⟨fun rest resume he => ?_, or_congr (loopMatches_takes hq).symm Iff.rfl⟩
        obtain ⟨lit, eaten, rfl, rfl, hlit⟩ := ht rest resume he
        exact ⟨lit ++ [q], eaten ++ [c], by simp, by simp, List.rel_append hlit (.cons hq .nil)⟩
      · next hq =>
        split at h
        · next hstar =>
          subst hstar
          cases h
          refine ⟨fresh.1, fresh.2.trans ?_⟩
          have hhere : LoopMatches ('*' :: pattern) (c :: name) ↔ ∃ m, m <:+ c :: name ∧ LoopMatches pattern m := by
            rw [loopMatches_not_takes hq, and_iff_right rfl]
          refine ⟨fun hm => .inl (hhere.mpr hm), ?_⟩
          rintro (hm | ⟨rest, resume, he, m, hm, hrest⟩)
          · exact hhere.mp hm
          · -- The star before this one can do no more than this one.
            obtain ⟨lit, eaten, rfl, rfl, hlit⟩ := ht rest resume he
            obtain ⟨k, hk, hstar⟩ := later_suffix hlit (hm.trans (List.tail_suffix _)) hrest
            obtain ⟨j, hj, hpattern⟩ := exists_suffix_of_cons hstar
            exact ⟨j, hj.trans hk, hpattern⟩
        · next hstar =>
          exact retry_inl (fun hm => hstar ((loopMatches_not_takes hq).mp hm).1) h

/-- What the loop ends with is whether anything was left to be tried. -/
theorem next_inr {s : GlobState} {b : Bool} (ht : s.Tried) (h : s.next = .inr b) : b = true ↔ s.Open := by
  -- Nothing is left where the rest does not match and there is no star.
  have dead : ¬ LoopMatches s.pattern s.name → retry s.star = .inr b → (b = true ↔ s.Open) := by
    intro hm hr
    unfold retry at hr
    split at hr
    · next hstar =>
      cases hr
      constructor
      · intro hf
        cases hf
      · rintro (h | ⟨_, _, he, _⟩)
        · exact absurd h hm
        · rw [hstar] at he
          cases he
    · cases hr
  obtain ⟨pattern, name, star, ahead⟩ := s
  cases name with
  | nil =>
    cases h
    rw [← loopMatches_empty]
    constructor
    · exact .inl
    · rintro (hm | ⟨rest, resume, he, m, hm, hrest⟩)
      · exact hm
      · obtain ⟨lit, eaten, rfl, rfl, hlit⟩ := ht rest resume he
        obtain ⟨k, hk, hpattern⟩ := later_suffix hlit (hm.trans (List.tail_suffix _)) hrest
        exact List.suffix_nil.mp hk ▸ hpattern
  | cons c name =>
    cases pattern with
    | nil => exact dead (List.cons_ne_nil c name) h
    | cons q pattern =>
      rw [next] at h
      split at h
      · cases h
      · next hq =>
        split at h
        · cases h
        · next hstar => exact dead (fun hm => hstar ((loopMatches_not_takes hq).mp hm).1) h

theorem run_iff {s : GlobState} (ht : s.Tried) : s.run = true ↔ s.Open := by
  induction s using run.induct with
  | case1 s b h =>
    rw [run, h]
    exact next_inr ht h
  | case2 s s' h ih =>
    obtain ⟨ht', hopen⟩ := next_inl ht h
    rw [run, h, ← hopen]
    exact ih ht'

end GlobState

theorem globMatches_iff_loopMatches {pattern name : Chars} : globMatches pattern name = true ↔ LoopMatches pattern name := by
  rw [globMatches, GlobState.run_iff fun _ _ he => by cases he]
  constructor
  · rintro (hm | ⟨_, _, he, _⟩)
    · exact hm
    · cases he
  · exact .inl

/-- On a name without a star of its own, the matcher is the pattern's meaning. -/
theorem globMatches_iff {pattern name : Chars} (h : '*' ∉ name) :
    globMatches pattern name = true ↔ Matches pattern name :=
  globMatches_iff_loopMatches.trans ⟨matches_of_loopMatches, loopMatches_of_matches h⟩

/-- A star in the name is taken for the star in the pattern, and not tried again. -/
theorem globMatches_star_name : ¬ (globMatches "*b".toList "*ab".toList = true ↔ Matches "*b".toList "*ab".toList) := by
  have hcode : globMatches "*b".toList "*ab".toList = false := by
    simp [globMatches, GlobState.run, GlobState.next, GlobState.retry]
  rw [hcode]
  have hm : Matches "*b".toList "*ab".toList := .take (.take (.skip (.char (by decide) (by decide) .nil)))
  exact fun h => Bool.noConfusion (h.mpr hm)

end LinuxHardener.Ssh
