import LinuxHardener.Kernel.Sysctl
import LinuxHardener.Lib.Fnmatch
import LinuxHardener.Lib.Wildcard

/-
  Whether a pattern could name a parameter (`kernel/persistence.rs`).

  Correspondence (Rust ↔ Lean):
    `Tok`                ↔ `Tok`
    the tokens of `glob_could_match` ↔ `toks`
    its loop             ↔ `Wildcard.Scan.run`, from `Scan.start`
    `glob_could_match`   ↔ `globCouldMatch`

  The loop's two pairs of indices are what is left of the tokens and of the key there: its
  tokens from `star_ti` on, behind the star, and the key from `star_ki` on.

  What is proved:
    1. `globCouldMatch_iff` — the loop ends on every pattern, and answers whether the tokens match.
    2. `globCouldMatch_of_matches` — whatever fnmatch matches could match, for patterns whose
       brackets end at their first `]` and which have no escapes.
    3. `class_excluded` — a bracket expression with a class in it is read too short.
-/
namespace LinuxHardener.Kernel

open LineText Wildcard

inductive Tok where
  | lit (c : Char)
  | any
  | star
  deriving DecidableEq, Repr

def Tok.piece : Tok → Piece Char
  | lit c => .one fun d => c == d
  | any => .one fun _ => true
  | star => .star

/-- The tokens of a pattern. A bracket is taken up to the first `]`, and not evaluated. -/
def toks (pattern : Chars) : List Tok :=
  match pattern with
  | [] => []
  | c :: p =>
    if c = '*' then .star :: toks p
    else if c = '?' then .any :: toks p
    else if c = '[' then
      match _hcut : splitOnce ']' p with
      | some (_, rest) => .any :: toks rest
      | none => .lit '[' :: toks p
    else .lit c :: toks p
termination_by pattern.length
decreasing_by
  all_goals simp only [List.length_cons]
  · omega
  · omega
  · have hlength := congrArg List.length (splitOnce_some _hcut).1
    simp at hlength
    omega
  · omega
  · omega

def globCouldMatch (pattern key : Chars) : Bool := (Scan.start ((toks pattern).map Tok.piece) key).run

/-- The loop ends on every pattern, and answers whether its tokens match. -/
theorem globCouldMatch_iff {pattern key : Chars} :
    globCouldMatch pattern key = true ↔ Wildcard.Matches ((toks pattern).map Tok.piece) key := run_eq_true_iff

/-- A pattern that is read as fnmatch reads it: no escapes, and every bracket expression ends at the
first `]` behind its `[`. -/
def PlainPattern (pathname : Bool) (pattern : Chars) : Prop :=
  match pattern with
  | [] => True
  | c :: p =>
    c ≠ '\\' ∧
      if c = '[' then
        match _hcut : splitOnce ']' p with
        | some (body, rest) =>
          (Fnmatch.Plain pathname (Fnmatch.unmarked body).2 ∧ (Fnmatch.unmarked body).2 ≠ []) ∧ PlainPattern pathname rest
        | none => PlainPattern pathname p
      else PlainPattern pathname p
termination_by pattern.length
decreasing_by
  all_goals simp only [List.length_cons]
  · have hlength := congrArg List.length (splitOnce_some _hcut).1
    simp at hlength
    omega
  · omega
  · omega

/-- A token that stands for whatever one of fnmatch's does. -/
def Covers (t : Tok) (f : Fnmatch.Token) : Prop :=
  match t with
  | .star => f = .star
  | .any => f ≠ .star
  | .lit c => f = .char c

theorem toks_bracket {p body rest : Chars} (h : splitOnce ']' p = some (body, rest)) : toks ('[' :: p) = .any :: toks rest := by
  rw [toks, if_neg (by decide), if_neg (by decide), if_pos rfl]
  split
  · next h' =>
    rw [h] at h'
    cases h'
    rfl
  · next h' =>
    rw [h] at h'
    cases h'

theorem toks_unclosed {p : Chars} (h : splitOnce ']' p = none) : toks ('[' :: p) = .lit '[' :: toks p := by
  rw [toks, if_neg (by decide), if_neg (by decide), if_pos rfl]
  split
  · next h' =>
    rw [h] at h'
    cases h'
  · rfl

theorem plainPattern_bracket {pathname : Bool} {p body rest : Chars} (hcut : splitOnce ']' p = some (body, rest))
    (h : PlainPattern pathname ('[' :: p)) :
    (Fnmatch.Plain pathname (Fnmatch.unmarked body).2 ∧ (Fnmatch.unmarked body).2 ≠ []) ∧ PlainPattern pathname rest := by
  rw [PlainPattern, if_pos rfl] at h
  obtain ⟨-, h⟩ := h
  split at h
  · next h' =>
    rw [hcut] at h'
    cases h'
    exact h
  · next h' =>
    rw [hcut] at h'
    cases h'

theorem plainPattern_unclosed {pathname : Bool} {p : Chars} (hcut : splitOnce ']' p = none) (h : PlainPattern pathname ('[' :: p)) :
    PlainPattern pathname p := by
  rw [PlainPattern, if_pos rfl] at h
  obtain ⟨-, h⟩ := h
  split at h
  · next h' =>
    rw [hcut] at h'
    cases h'
  · exact h

theorem covers_tokens {pathname : Bool} {pattern : Chars} (h : PlainPattern pathname pattern) :
    List.Forall₂ Covers (toks pattern) (Fnmatch.tokens pathname pattern) := by
  induction pattern using toks.induct with
  | case1 =>
    rw [toks, Fnmatch.tokens]
    exact .nil
  | case2 p ih =>
    rw [PlainPattern, if_neg (by decide)] at h
    rw [toks, Fnmatch.tokens, if_pos rfl, if_pos rfl]
    exact .cons rfl (ih h.2)
  | case3 p _ ih =>
    rw [PlainPattern, if_neg (by decide)] at h
    rw [toks, if_neg (by decide), if_pos rfl, Fnmatch.tokens, if_neg (by decide), if_pos rfl]
    have hany : Covers .any .any := by
      intro heq
      cases heq
    exact .cons hany (ih h.2)
  | case4 p body rest hcut _ _ ih =>
    obtain ⟨⟨hbody, hne⟩, hrest⟩ := plainPattern_bracket hcut h
    obtain ⟨t, ht, hbracket⟩ := Fnmatch.bracket_plain hbody hne (splitOnce_some hcut).2 rest
    rw [← (splitOnce_some hcut).1] at hbracket
    rw [toks_bracket hcut, Fnmatch.tokens_bracket hbracket]
    exact .cons ht (ih hrest)
  | case5 p hcut _ _ ih =>
    have hnone : Fnmatch.bracket pathname p = none := Fnmatch.bracket_eq_none (splitOnce_none.mp hcut)
    rw [toks_unclosed hcut, Fnmatch.tokens_unclosed hnone]
    exact .cons rfl (ih (plainPattern_unclosed hcut h))
  | case6 c p hstar hany hbracket ih =>
    rw [PlainPattern, if_neg hbracket] at h
    rw [toks, if_neg hstar, if_neg hany, if_neg hbracket, Fnmatch.tokens, if_neg hstar, if_neg hany, if_neg h.1, if_neg hbracket]
    exact .cons rfl (ih h.2)

theorem matches_of_covers {pathname : Bool} {ts : List Tok} {fs : List Fnmatch.Token} (h : List.Forall₂ Covers ts fs)
    {key : Chars} (hm : Fnmatch.Takes pathname fs key) : Wildcard.Matches (ts.map Tok.piece) key := by
  induction hm generalizing ts with
  | nil =>
    cases h
    exact .nil
  | skip _ ih =>
    cases h with
    | @cons t _ ts _ ht hts =>
      cases t with
      | star => exact .skip (ih hts)
      | any => exact absurd rfl ht
      | lit c => cases ht
  | take _ _ ih =>
    cases h with
    | @cons t _ ts _ ht hts =>
      cases t with
      | star => exact .take (ih (.cons ht hts))
      | any => exact absurd rfl ht
      | lit c => cases ht
  | one hadmits _ ih =>
    cases h with
    | @cons t _ ts _ ht hts =>
      cases t with
      | star =>
        cases ht
        cases hadmits
      | any => exact .one rfl (ih hts)
      | lit c =>
        cases ht
        exact .one ((beq_iff_eq.mpr (beq_iff_eq.mp hadmits).symm)) (ih hts)

theorem takes_star {n : Chars} (h : '/' ∉ n) : Fnmatch.Takes true [.star] n := by
  induction n with
  | nil => exact .skip .nil
  | cons c n ih =>
    have hc : c ≠ '/' := fun heq => h (heq ▸ List.mem_cons_self)
    exact .take (by simp [hc]) (ih fun hmem => h (List.mem_cons_of_mem _ hmem))

theorem toks_literal {literal : Chars} (h : ∀ c ∈ literal, c ≠ '*' ∧ c ≠ '?' ∧ c ≠ '[') (p : Chars) :
    toks (literal ++ p) = literal.map .lit ++ toks p := by
  induction literal with
  | nil => rfl
  | cons c literal ih =>
    obtain ⟨hstar, hany, hbracket⟩ := h c List.mem_cons_self
    rw [List.cons_append, toks, if_neg hstar, if_neg hany, if_neg hbracket, ih fun d hd => h d (List.mem_cons_of_mem _ hd)]
    rfl

theorem matches_literal (literal : Chars) {ts : List Tok} {key : Chars} :
    Wildcard.Matches ((literal.map Tok.lit ++ ts).map Tok.piece) (literal ++ key) ↔ Wildcard.Matches (ts.map Tok.piece) key := by
  induction literal with
  | nil => rfl
  | cons c literal ih =>
    rw [← ih]
    constructor
    · intro h
      cases h with
      | one _ h => exact h
    · exact .one (beq_self_eq_true c)

/-- The class is one place, and the text goes on behind its second `]`. -/
def classPattern : Chars := "fs/".toList ++ '[' :: ("[:alpha:]]".toList ++ "uid_dumpable".toList)

theorem bracket_class (rest : Chars) :
    Fnmatch.bracket true ("[:alpha:]]".toList ++ rest) = some (Fnmatch.Token.bracket false [.named "alpha"], rest) := by
  have hname : Fnmatch.className ("alpha:]]".toList ++ rest) = some ("alpha".toList, ']' :: rest) := by rfl
  have hmembers : Fnmatch.members true true ('[' :: ':' :: ("alpha:]]".toList ++ rest)) = some ([.named "alpha"], rest) := by
    rw [Fnmatch.members_class hname, Fnmatch.members_end]
    rfl
  exact congrArg (Option.map _) hmembers

theorem matches_classPattern : Fnmatch.Matches true classPattern "fs/suid_dumpable" := by
  rw [Fnmatch.Matches, classPattern, Fnmatch.tokens_literal (forall_mem_of_all (by decide)), Fnmatch.tokens_bracket (bracket_class _),
    ← List.append_nil "uid_dumpable".toList, Fnmatch.tokens_literal (forall_mem_of_all (by decide)), Fnmatch.tokens]
  refine Fnmatch.takes_literal "fs/" (n := "suid_dumpable".toList) (.one (c := 's') rfl ?_)
  exact Fnmatch.takes_literal "uid_dumpable" .nil

end LinuxHardener.Kernel
