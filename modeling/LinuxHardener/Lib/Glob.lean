import LinuxHardener.Lib.LineText
import Mathlib.Data.List.Infix

/-
  glob(7) for one name: `*` stands for any run of characters, `?` for one, and a
  leading dot is only matched by a dot.
-/
namespace LinuxHardener.Glob

open LineText

/-- A name without regard to a leading dot. -/
inductive Matches : Chars → Chars → Prop where
  | nil : Matches [] []
  | skip {p n : Chars} : Matches p n → Matches ('*' :: p) n
  | take {p n : Chars} {c : Char} : Matches ('*' :: p) n → Matches ('*' :: p) (c :: n)
  | any {p n : Chars} {c : Char} : Matches p n → Matches ('?' :: p) (c :: n)
  | char {p n : Chars} {c : Char} (h : c ≠ '*') (h' : c ≠ '?') : Matches p n → Matches (c :: p) (c :: n)

/-- A wildcard. -/
def isWild (c : Char) : Bool := c == '*' || c == '?'

def hasWildcard (p : Chars) : Bool := p.any isWild

/-- A leading dot stands in the name only where it stands in the pattern. -/
def DotRule (p n : Chars) : Prop := n.head? = some '.' → p.head? = some '.'

instance (p n : Chars) : Decidable (DotRule p n) := inferInstanceAs (Decidable (_ → _))

/-- glob(7) -/
def Names (p n : Chars) : Prop := Matches p n ∧ DotRule p n

theorem matches_nil_iff {n : Chars} : Matches [] n ↔ n = [] := by
  constructor
  · intro h
    cases h
    rfl
  · rintro rfl
    exact .nil

/-- Nothing but stars is left to match the empty name. -/
theorem matches_empty_iff {p : Chars} : Matches p [] ↔ p.all (· == '*') = true := by
  induction p with
  | nil => simp [Matches.nil]
  | cons c p ih =>
    rw [List.all_cons, Bool.and_eq_true, ← ih, beq_iff_eq]
    constructor
    · intro h
      cases h with
      | skip h => exact ⟨rfl, h⟩
    · rintro ⟨rfl, h⟩
      exact .skip h

/-- A star takes a prefix of any length. -/
theorem matches_star_iff {p n : Chars} : Matches ('*' :: p) n ↔ ∃ s, s <:+ n ∧ Matches p s := by
  constructor
  · intro h
    induction n with
    | nil =>
      cases h with
      | skip h => exact ⟨[], List.suffix_refl _, h⟩
    | cons c n ih =>
      cases h with
      | skip h => exact ⟨c :: n, List.suffix_refl _, h⟩
      | take h =>
        obtain ⟨s, hs, hm⟩ := ih h
        exact ⟨s, hs.trans (List.suffix_cons c n), hm⟩
      | char hc => exact absurd rfl hc
  · rintro ⟨s, ⟨t, rfl⟩, hm⟩
    induction t with
    | nil => exact .skip hm
    | cons c t ih => exact .take ih

/-- A pattern character that is no star takes one character. -/
theorem matches_cons_iff {q c : Char} {p n : Chars} (hq : q ≠ '*') :
    Matches (q :: p) (c :: n) ↔ (q = '?' ∨ q = c) ∧ Matches p n := by
  constructor
  · intro h
    cases h with
    | skip => exact absurd rfl hq
    | take => exact absurd rfl hq
    | any h => exact ⟨.inl rfl, h⟩
    | char _ _ h => exact ⟨.inr rfl, h⟩
  · rintro ⟨h, hm⟩
    by_cases hq' : q = '?'
    · exact hq' ▸ .any hm
    · obtain rfl := h.resolve_left hq'
      exact .char hq hq' hm

end LinuxHardener.Glob
