import LinuxHardener.Lib.Cut
import Mathlib.Algebra.GroupWithZero.Nat

/-
  Texts indexed by the bytes of their UTF-8, as `str` is. An index that is no character's
  boundary, or lies behind the end, cuts nothing: there `str` panics.

  Correspondence (Rust ↔ Lean):
    `str::len`                ↔ `len`
    `&s[n..]`, `&s[a..b]`     ↔ `sliceFrom`, `slice`
    `str::find`               ↔ `find`
    `String::replace_range`   ↔ `replaceRange`

  What is proved:
    1. `splitAt_eq_some` — a cut is a way to write the text as two.
    2. `find_eq` — what is found stands where it is cut off.
-/
namespace LinuxHardener.ByteText

open LineText

def len (s : Chars) : Nat := (s.map Char.utf8Size).sum

@[simp] theorem len_nil : len [] = 0 := rfl

@[simp] theorem len_cons (c : Char) (s : Chars) : len (c :: s) = c.utf8Size + len s := rfl

@[simp] theorem len_append (s t : Chars) : len (s ++ t) = len s + len t := by simp [len]

/-- A text of ASCII is as long as it has characters. -/
theorem len_eq_length {s : Chars} (h : ∀ c ∈ s, c.utf8Size = 1) : len s = s.length := by
  induction s with
  | nil => rfl
  | cons c s ih =>
    rw [len_cons, h c List.mem_cons_self, ih fun d hd => h d (List.mem_cons_of_mem _ hd), List.length_cons, Nat.add_comm]

def splitAt : Nat → Chars → Option (Chars × Chars)
  | 0, s => some ([], s)
  | _ + 1, [] => none
  | n + 1, c :: s =>
    if c.utf8Size ≤ n + 1 then (splitAt (n + 1 - c.utf8Size) s).map fun cut => (c :: cut.1, cut.2) else none

theorem splitAt_append (s t : Chars) : splitAt (len s) (s ++ t) = some (s, t) := by
  induction s with
  | nil =>
    cases t <;> rfl
  | cons c s ih =>
    obtain ⟨n, hn⟩ : ∃ n, len (c :: s) = n + 1 := by
      have hsize := Char.utf8Size_pos c
      exact ⟨len (c :: s) - 1, by rw [len_cons]; omega⟩
    have hle : c.utf8Size ≤ n + 1 := by
      rw [← hn, len_cons]
      omega
    have hrest : n + 1 - c.utf8Size = len s := by
      rw [← hn, len_cons]
      omega
    rw [hn, List.cons_append, splitAt, if_pos hle, hrest, ih]
    rfl

/-- A cut is a way to write the text as two. -/
theorem splitAt_eq_some {n : Nat} {s before behind : Chars} :
    splitAt n s = some (before, behind) ↔ s = before ++ behind ∧ n = len before := by
  constructor
  · intro h
    induction s generalizing n before with
    | nil =>
      cases n with
      | zero =>
        cases h
        exact ⟨rfl, rfl⟩
      | succ n => cases h
    | cons c s ih =>
      cases n with
      | zero =>
        cases h
        exact ⟨rfl, rfl⟩
      | succ n =>
        rw [splitAt] at h
        split at h
        · next hle =>
          obtain ⟨cut, hcut, heq⟩ := Option.map_eq_some_iff.mp h
          cases heq
          obtain ⟨rfl, hlen⟩ := ih hcut
          refine ⟨rfl, ?_⟩
          rw [len_cons, ← hlen]
          omega
        · cases h
  · rintro ⟨rfl, rfl⟩
    exact splitAt_append before behind

def sliceFrom (s : Chars) (n : Nat) : Option Chars := (splitAt n s).map Prod.snd

def slice (s : Chars) (a b : Nat) : Option Chars := (splitAt b s).bind fun cut => sliceFrom cut.1 a

@[simp] theorem sliceFrom_append (s t : Chars) : sliceFrom (s ++ t) (len s) = some t := by
  rw [sliceFrom, splitAt_append]
  rfl

theorem slice_append (s t u : Chars) : slice (s ++ t ++ u) (len s) (len s + len t) = some t := by
  rw [slice, ← len_append, splitAt_append]
  exact sliceFrom_append s t

/-- The bytes from `a` on and before `b` are replaced. -/
def replaceRange (s : Chars) (a b : Nat) (new : Chars) : Option Chars :=
  (splitAt b s).bind fun behind => (splitAt a behind.1).map fun before => before.1 ++ new ++ behind.2

theorem replaceRange_append (s t u new : Chars) : replaceRange (s ++ t ++ u) (len s) (len s + len t) new = some (s ++ new ++ u) := by
  rw [replaceRange, ← len_append, splitAt_append]
  change (splitAt (len s) (s ++ t)).map _ = _
  rw [splitAt_append]
  rfl

theorem len_replaceRange {s new s' : Chars} {a b : Nat} (h : replaceRange s a b new = some s') :
    a ≤ b ∧ b ≤ len s ∧ len s' = a + len new + (len s - b) := by
  obtain ⟨behind, hbehind, hmap⟩ := Option.bind_eq_some_iff.mp h
  obtain ⟨before, hbefore, rfl⟩ := Option.map_eq_some_iff.mp hmap
  obtain ⟨rfl, rfl⟩ := splitAt_eq_some.mp hbehind
  obtain ⟨heq, rfl⟩ := splitAt_eq_some.mp hbefore
  have hlen := congrArg len heq
  rw [len_append] at hlen
  rw [len_append, len_append, len_append]
  omega

/-! ## Searching -/

def find (needle : Chars) : Chars → Option Nat
  | [] => none
  | c :: s => if needle.isPrefixOf (c :: s) then some 0 else (find needle s).map (c.utf8Size + ·)

/-- What is found stands where the text is cut off. -/
theorem find_eq {needle : Chars} (s : Chars) : find needle s = (splitOnceAt needle s).map fun cut => len cut.1 := by
  induction s with
  | nil => rfl
  | cons c s ih =>
    rw [find, splitOnceAt]
    split
    · rfl
    · rw [ih, Option.map_map, Option.map_map]
      rfl

end LinuxHardener.ByteText
