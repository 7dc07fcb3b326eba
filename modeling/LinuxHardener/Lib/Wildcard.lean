import Mathlib.Data.List.Forall2
import Mathlib.Data.Prod.Lex
import Mathlib.Tactic.Common

/-
  Patterns of stars and single places, and the scan that tries them from left to right.

  The scan keeps the last star it met, with the text that star was last tried from: where the
  pattern does not go on, the star takes one more. An earlier star is never tried again.

  What is proved:
    1. `step_decreases` — every step comes nearer to the end, so the scan ends.
    2. `run_eq_true_iff` — it answers whether the pattern matches.
-/
namespace LinuxHardener.Wildcard

variable {α : Type}

/-- A run of anything, or one place with what it admits. -/
inductive Piece (α : Type) where
  | star
  | one (admits : α → Bool)

def Piece.isStar : Piece α → Bool
  | star => true
  | one _ => false

inductive Matches : List (Piece α) → List α → Prop where
  | nil : Matches [] []
  | skip {ps : List (Piece α)} {text : List α} : Matches ps text → Matches (.star :: ps) text
  | take {ps : List (Piece α)} {text : List α} {a : α} : Matches (.star :: ps) text → Matches (.star :: ps) (a :: text)
  | one {ps : List (Piece α)} {text : List α} {a : α} {admits : α → Bool} (h : admits a = true) :
      Matches ps text → Matches (.one admits :: ps) (a :: text)

theorem matches_nil {ps : List (Piece α)} : Matches ps [] ↔ ps.all Piece.isStar = true := by
  induction ps with
  | nil => exact iff_of_true .nil rfl
  | cons p ps ih =>
    cases p with
    | star =>
      rw [List.all_cons, Piece.isStar, Bool.true_and, ← ih]
      constructor
      · intro h
        cases h with
        | skip h => exact h
      · exact .skip
    | one admits => exact iff_of_false nofun nofun

/-- A star takes whatever is put before its text. -/
theorem Matches.take_all {ps : List (Piece α)} {text : List α} (h : Matches (.star :: ps) text) (before : List α) :
    Matches (.star :: ps) (before ++ text) := by
  induction before with
  | nil => exact h
  | cons a before ih => exact .take ih

/-- Single places, each with its own. -/
def Fits (ps : List (Piece α)) (text : List α) : Prop := List.Forall₂ (fun p a => ∃ admits, p = .one admits ∧ admits a = true) ps text

/-- Single places that fit take what they fit. -/
theorem Fits.matches_append {ps ps' : List (Piece α)} {text text' : List α} (h : Fits ps text) :
    Matches (ps ++ ps') (text ++ text') ↔ Matches ps' text' := by
  induction h with
  | nil => rfl
  | cons hfit _ ih =>
    obtain ⟨admits, rfl, ha⟩ := hfit
    rw [List.cons_append, List.cons_append, ← ih]
    constructor
    · intro h
      cases h with
      | one _ h => exact h
    · exact .one ha

/-- They take no less. -/
theorem Fits.exists_suffix {ps ps' : List (Piece α)} {text : List α} (h : Fits ps text) {rest : List α}
    (hm : Matches (ps ++ ps') rest) : ∃ chunk rest', rest = chunk ++ rest' ∧ chunk.length = text.length ∧ Matches ps' rest' := by
  induction h generalizing rest with
  | nil => exact ⟨[], rest, rfl, rfl, hm⟩
  | cons hfit _ ih =>
    obtain ⟨admits, rfl, _⟩ := hfit
    cases hm with
    | one _ hm =>
      obtain ⟨chunk, rest', rfl, hlen, hm⟩ := ih hm
      exact ⟨_ :: chunk, rest', rfl, congrArg Nat.succ hlen, hm⟩

theorem Matches.exists_suffix {ps : List (Piece α)} {text : List α} (h : Matches (.star :: ps) text) :
    ∃ rest, rest <:+ text ∧ Matches ps rest := by
  induction text with
  | nil =>
    cases h with
    | skip h => exact ⟨[], List.suffix_refl _, h⟩
  | cons a text ih =>
    cases h with
    | skip h => exact ⟨a :: text, List.suffix_refl _, h⟩
    | take h =>
      obtain ⟨rest, hsuffix, hm⟩ := ih h
      exact ⟨rest, hsuffix.trans (List.suffix_cons ..), hm⟩

/-- Behind single places that fit, what follows them matches some end of the text. -/
theorem Fits.matches_behind {ps ps' : List (Piece α)} {taken text : List α} (h : Fits ps taken)
    (hm : Matches (.star :: (ps ++ ps')) (taken ++ text)) : ∃ rest, rest <:+ text ∧ Matches ps' rest := by
  obtain ⟨_, ⟨front, hfront⟩, hm⟩ := hm.exists_suffix
  obtain ⟨chunk, rest, rfl, hlen, hm⟩ := h.exists_suffix hm
  refine ⟨rest, ?_, hm⟩
  -- Both are ends of one text, and this is the shorter one.
  have hrest : rest <:+ taken ++ text := ⟨front ++ chunk, by rw [List.append_assoc, hfront]⟩
  refine List.suffix_of_suffix_length_le hrest (List.suffix_append ..) ?_
  have hlength := congrArg List.length hfront
  simp only [List.length_append] at hlength
  omega

/-! ## The scan -/

/-- Where a scan stands: what is left of the pattern and of the text, and what is left of both from
the last star on, which has no less text before it. -/
structure Scan (α : Type) where
  pieces : List (Piece α)
  text : List α
  star : Option (List (Piece α) × List α)
  behind : ∀ s ∈ star, text.length ≤ s.2.length

namespace Scan

/-- The last star takes one more. -/
def retry (s : Scan α) : Bool ⊕ Scan α :=
  match s.star with
  | some (pieces, _ :: text) => .inr ⟨pieces, text, some (pieces, text), by simp⟩
  | _ => .inl false

def step (s : Scan α) : Bool ⊕ Scan α :=
  match ht : s.text with
  | [] => .inl (s.pieces.all Piece.isStar)
  | a :: text =>
    match s.pieces with
    | .one admits :: pieces =>
      if admits a then
        .inr ⟨pieces, text, s.star, fun t hmem => (Nat.le_succ _).trans (by simpa [ht] using s.behind t hmem)⟩
      else s.retry
    | .star :: pieces => .inr ⟨pieces, a :: text, some (pieces, a :: text), by simp⟩
    | [] => s.retry

/-- How far the scan can still be thrown back. -/
def reach (s : Scan α) : Nat :=
  match s.star with
  | none => s.text.length + 1
  | some (_, text) => text.length

/-- Nearer to the end: the scan cannot be thrown back as far, or it stands further on. -/
def Nearer (s' s : Scan α) : Prop :=
  s'.reach < s.reach ∨ s'.reach = s.reach ∧
    (s'.text.length < s.text.length ∨ s'.text.length = s.text.length ∧ s'.pieces.length < s.pieces.length)

theorem retry_decreases {s s' : Scan α} (h : s.retry = .inr s') : Nearer s' s := by
  unfold retry at h
  split at h
  · next pieces a text hstar =>
    cases h
    left
    rw [reach, reach, hstar]
    exact Nat.lt_succ_self _
  · cases h

theorem step_decreases {s s' : Scan α} (h : s.step = .inr s') : Nearer s' s := by
  unfold step at h
  split at h
  · cases h
  · next a text htext =>
    split at h
    · next admits pieces hpieces =>
      split at h
      · cases h
        -- The place is taken: what the star can still take is as it was.
        rcases Option.eq_none_or_eq_some s.star with hstar | ⟨t, hstar⟩
        · left
          simp [reach, hstar, htext]
        · right
          simp [reach, hstar, htext]
      · exact retry_decreases h
    · next pieces hpieces =>
      cases h
      cases hstar : s.star with
      | none =>
        left
        simp [reach, hstar, htext]
      | some t =>
        have hbehind := s.behind t hstar
        rw [htext] at hbehind
        rcases Nat.lt_or_eq_of_le hbehind with hlt | heq
        · left
          simpa [reach, hstar] using hlt
        · right
          simp [reach, hstar, htext, hpieces, ← heq]
    · exact retry_decreases h

/-- The scan to its end. -/
def run (s : Scan α) : Bool :=
  match _h : s.step with
  | .inl answer => answer
  | .inr s' => s'.run
termination_by (s.reach, s.text.length, s.pieces.length)
decreasing_by
  have hnearer := step_decreases _h
  simp only [Prod.lex_def]
  exact hnearer

def start (pieces : List (Piece α)) (text : List α) : Scan α := ⟨pieces, text, none, nofun⟩

theorem run_inl {s : Scan α} {answer : Bool} (h : s.step = .inl answer) : s.run = answer := by
  rw [run]
  split
  · next h' =>
    rw [h] at h'
    cases h'
    rfl
  · next h' =>
    rw [h] at h'
    cases h'

theorem run_inr {s s' : Scan α} (h : s.step = .inr s') : s.run = s'.run := by
  rw [run]
  split
  · next h' =>
    rw [h] at h'
    cases h'
  · next h' =>
    rw [h] at h'
    cases h'
    rfl

/-- What is proved of the last step, and passed back by every other, is proved of the run. -/
theorem run_induction {motive : Scan α → Bool → Prop} (last : ∀ s answer, s.step = .inl answer → motive s answer)
    (back : ∀ s s' answer, s.step = .inr s' → motive s' answer → motive s answer) (s : Scan α) : motive s s.run := by
  induction s using run.induct with
  | case1 s answer h =>
    rw [run_inl h]
    exact last s answer h
  | case2 s s' h ih =>
    rw [run_inr h]
    exact back s s' _ h ih

/-! ## What the scan answers -/

/-- The text can be matched from here, or from the last star on. -/
def Open (s : Scan α) : Prop := Matches s.pieces s.text ∨ ∃ t ∈ s.star, Matches (.star :: t.1) t.2

/-- The pattern matches only if it matches from here: with a star behind, everything since the star
is single places that fit. -/
def Live (s : Scan α) : Prop :=
  match s.star with
  | none => Matches s.pieces s.text
  | some (pieces, text) => ∃ ps taken, pieces = ps ++ s.pieces ∧ text = taken ++ s.text ∧ Fits ps taken ∧ Matches (.star :: pieces) text

theorem retry_open {s s' : Scan α} (h : s.retry = .inr s') (ho : s'.Open) : s.Open := by
  unfold retry at h
  split at h
  · next pieces a text hstar =>
    cases h
    right
    refine ⟨(pieces, a :: text), hstar, ?_⟩
    rcases ho with hm | ⟨t, ht, hm⟩
    · exact .take (.skip hm)
    · cases ht
      exact .take hm
  · cases h

theorem retry_inl {s : Scan α} {answer : Bool} (h : s.retry = .inl answer) : answer = false := by
  unfold retry at h
  split at h
  · cases h
  · cases h
    rfl

theorem step_open {s s' : Scan α} (h : s.step = .inr s') (ho : s'.Open) : s.Open := by
  unfold step at h
  split at h
  · cases h
  · next a text htext =>
    split at h
    · next admits pieces hpieces =>
      split at h
      · next ha =>
        cases h
        refine ho.imp (fun hm => ?_) id
        rw [hpieces, htext]
        exact .one ha hm
      · exact retry_open h ho
    · next pieces hpieces =>
      cases h
      left
      rw [hpieces, htext]
      rcases ho with hm | ⟨t, ht, hm⟩
      · exact .skip hm
      · cases ht
        exact hm
    · exact retry_open h ho

theorem step_answer {s : Scan α} (h : s.step = .inl true) : s.Open := by
  unfold step at h
  split at h
  · next htext =>
    left
    rw [htext]
    exact matches_nil.mpr (Sum.inl.inj h)
  · split at h
    · split at h
      · cases h
      · cases retry_inl h
    · cases h
    · cases retry_inl h

theorem open_of_run {s : Scan α} (h : s.run = true) : s.Open := by
  refine run_induction (motive := fun s answer => answer = true → s.Open) ?_ ?_ s h
  · rintro s answer hstep rfl
    exact step_answer hstep
  · exact fun s s' answer hstep ih hanswer => step_open hstep (ih hanswer)

/-- Where the pattern does not go on, the star has to take one more. -/
theorem retry_live {s : Scan α} (hl : s.Live) (hno : ¬ Matches s.pieces s.text) (hne : s.text ≠ []) :
    ∃ s', s.retry = .inr s' ∧ s'.Live := by
  unfold Live at hl
  split at hl
  · exact absurd hl hno
  · next pieces text hstar =>
    obtain ⟨ps, taken, rfl, rfl, hfits, hm⟩ := hl
    cases htext : taken ++ s.text with
    | nil => exact absurd (List.append_eq_nil_iff.mp htext).2 hne
    | cons a rest =>
      refine ⟨⟨ps ++ s.pieces, rest, some (ps ++ s.pieces, rest), by simp⟩, ?_, [], [], rfl, rfl, .nil, ?_⟩
      · unfold retry
        rw [hstar, htext]
      · rw [htext] at hm
        cases hm with
        | skip hm =>
          rw [← htext, hfits.matches_append] at hm
          exact absurd hm hno
        | take hm => exact hm

/-- A step keeps the scan live, and a live scan does not end in vain. -/
theorem step_live {s : Scan α} (hl : s.Live) : s.step = .inl true ∨ ∃ s', s.step = .inr s' ∧ s'.Live := by
  unfold step
  split
  · next htext =>
    left
    refine congrArg Sum.inl (matches_nil.mp ?_)
    unfold Live at hl
    split at hl
    · rwa [htext] at hl
    · obtain ⟨ps, taken, rfl, rfl, hfits, hm⟩ := hl
      obtain ⟨rest, hsuffix, hm⟩ := hfits.matches_behind hm
      rw [htext, List.suffix_nil] at hsuffix
      rwa [hsuffix] at hm
  · next a text htext =>
    have hne : s.text ≠ [] := by
      rw [htext]
      exact List.cons_ne_nil a text
    right
    split
    · next admits pieces hpieces =>
      split
      · next ha =>
        refine ⟨_, rfl, ?_⟩
        unfold Live at hl ⊢
        split at hl
        · next hstar =>
          rw [hpieces, htext] at hl
          dsimp only
          rw [hstar]
          cases hl with
          | one _ hm => exact hm
        · next hstar =>
          obtain ⟨ps, taken, rfl, rfl, hfits, hm⟩ := hl
          dsimp only
          rw [hstar]
          refine ⟨ps ++ [.one admits], taken ++ [a], ?_, ?_, ?_, hm⟩
          · rw [hpieces, List.append_assoc, List.singleton_append]
          · rw [htext, List.append_assoc, List.singleton_append]
          · exact List.rel_append hfits (.cons ⟨admits, rfl, ha⟩ .nil)
      · next ha =>
        refine retry_live hl (fun hm => ?_) hne
        rw [hpieces, htext] at hm
        cases hm with
        | one ha' _ => exact ha ha'
    · next pieces hpieces =>
      refine ⟨_, rfl, [], [], rfl, rfl, .nil, ?_⟩
      unfold Live at hl
      split at hl
      · rwa [hpieces, htext] at hl
      · obtain ⟨ps, taken, rfl, rfl, hfits, hm⟩ := hl
        obtain ⟨rest, ⟨front, hfront⟩, hm⟩ := hfits.matches_behind hm
        rw [hpieces] at hm
        rw [← htext, ← hfront]
        exact hm.take_all front
    · next hpieces =>
      refine retry_live hl (fun hm => ?_) hne
      rw [hpieces, htext] at hm
      cases hm

theorem run_of_live {s : Scan α} (hl : s.Live) : s.run = true := by
  refine run_induction (motive := fun s answer => s.Live → answer = true) ?_ ?_ s hl
  · intro s answer hstep hl
    rcases step_live hl with h | ⟨s', h, _⟩
    · exact Sum.inl.inj (hstep.symm.trans h)
    · cases hstep.symm.trans h
  · intro s s' answer hstep ih hl
    rcases step_live hl with h | ⟨s'', h, hl'⟩
    · cases hstep.symm.trans h
    · exact ih (Sum.inr.inj (hstep.symm.trans h) ▸ hl')

end Scan

/-- The scan answers whether the pattern matches. -/
theorem run_eq_true_iff {pieces : List (Piece α)} {text : List α} : (Scan.start pieces text).run = true ↔ Matches pieces text := by
  constructor
  · intro h
    rcases Scan.open_of_run h with hm | ⟨t, ht, _⟩
    · exact hm
    · cases ht
  · exact fun hm => Scan.run_of_live (s := Scan.start pieces text) hm

end LinuxHardener.Wildcard
