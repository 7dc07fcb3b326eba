import LinuxHardener.Lib.Cut

/-
  fnmatch(3), with bracket expressions and escapes.

  Under `pathname` (`FNM_PATHNAME`, and glob(3) component by component) a slash is matched by a
  slash only, and a bracket expression holds none. A backslash at the end matches nothing.

  What is proved:
    1. `bracket_eq_none` — without a `]` behind it a `[` is a plain character.
    2. `bracket_plain` — a bracket expression without escapes and classes ends at its first `]`,
       its first member apart.
-/
namespace LinuxHardener.Fnmatch

open LineText

/-- What one member of a bracket expression stands for. -/
inductive Member where
  | char (c : Char)
  | range (low high : Char)
  | named (name : Chars)
  deriving DecidableEq, Repr

def Member.admits (m : Member) (c : Char) : Bool :=
  match m with
  | char d => c == d
  | range low high => low ≤ c && c ≤ high
  | named name =>
    if name = "alpha".toList then c.isAlpha
    else if name = "digit".toList then c.isDigit
    else if name = "alnum".toList then c.isAlphanum
    else if name = "upper".toList then c.isUpper
    else if name = "lower".toList then c.isLower
    else if name = "space".toList then c == ' ' || ('\t' ≤ c && c ≤ '\r')
    else if name = "blank".toList then c == ' ' || c == '\t'
    else if name = "xdigit".toList then c.isDigit || ('a' ≤ c && c ≤ 'f') || ('A' ≤ c && c ≤ 'F')
    else if name = "punct".toList then '!' ≤ c && c ≤ '~' && !c.isAlphanum
    else if name = "graph".toList then '!' ≤ c && c ≤ '~'
    else if name = "print".toList then ' ' ≤ c && c ≤ '~'
    else if name = "cntrl".toList then c < ' ' || c == '\x7f'
    else false

/-- A character of a bracket expression, an escaped one without its backslash. -/
def readChar : Chars → Option (Char × Chars)
  | [] => none
  | ['\\'] => none
  | '\\' :: c :: p => some (c, p)
  | c :: p => some (c, p)

/-- The name of a class behind its `[:`, and what stands behind the `:]`. -/
def className (p : Chars) : Option (Chars × Chars) := (splitOnceAt ":]".toList p).filter fun cut => cut.1.all Char.isLower

theorem length_readChar {p q : Chars} {c : Char} (h : readChar p = some (c, q)) : q.length < p.length := by
  unfold readChar at h
  split at h
  · cases h
  · cases h
  · cases h
    simp only [List.length_cons]
    omega
  · cases h
    simp

theorem length_className {p name q : Chars} (h : className p = some (name, q)) : q.length < p.length := by
  obtain ⟨hcut, -⟩ := Option.filter_eq_some_iff.mp h
  have hlength := congrArg List.length (splitOnceAt_some hcut)
  simp at hlength
  omega

/-- A class, where one begins. -/
def openedClass (c : Char) (p : Chars) : Option (Chars × Chars) := if c = '[' ∧ p.head? = some ':' then className p.tail else none

/-- The other end of a range, where one begins. -/
def openedRange (p : Chars) : Option (Char × Chars) :=
  if p.head? = some '-' ∧ p.tail.head? ≠ some ']' then readChar p.tail else none

theorem length_openedClass {c : Char} {p name q : Chars} (h : openedClass c p = some (name, q)) : q.length < p.length + 1 := by
  unfold openedClass at h
  split at h
  · have hlength := length_className h
    rw [List.length_tail] at hlength
    omega
  · cases h

theorem length_openedRange {p q : Chars} {c : Char} (h : openedRange p = some (c, q)) : q.length < p.length := by
  unfold openedRange at h
  split at h
  · have hlength := length_readChar h
    rw [List.length_tail] at hlength
    omega
  · cases h

/-- The members of a bracket expression up to its `]`, which is a member where it comes first. -/
def members (pathname first : Bool) (p : Chars) : Option (List Member × Chars) :=
  match p with
  | [] => none
  | c :: p =>
    if c = ']' ∧ first = false then some ([], p)
    else
      match _hclass : openedClass c p with
      | some (name, rest) => (members pathname false rest).map fun r => (.named name :: r.1, r.2)
      | none =>
        match _hlow : readChar (c :: p) with
        | none => none
        | some (low, q) =>
          if pathname ∧ low = '/' then none
          else
            match _hhigh : openedRange q with
            | some (high, rest) =>
              if pathname ∧ high = '/' then none
              else (members pathname false rest).map fun r => (.range low high :: r.1, r.2)
            | none => (members pathname false q).map fun r => (.char low :: r.1, r.2)
termination_by p.length
decreasing_by
  · exact length_openedClass _hclass
  · exact (length_openedRange _hhigh).trans (length_readChar _hlow)
  · exact length_readChar _hlow

theorem length_members {pathname first : Bool} {p q : Chars} {ms : List Member} (h : members pathname first p = some (ms, q)) :
    q.length < p.length := by
  fun_induction members pathname first p generalizing ms with
  | case1 => cases h
  | case2 =>
    cases h
    exact Nat.lt_succ_self _
  | case3 first c p _ name rest hclass ih =>
    obtain ⟨r, hr, heq⟩ := Option.map_eq_some_iff.mp h
    cases heq
    exact (ih hr).trans (length_openedClass hclass)
  | case4 => cases h
  | case5 => cases h
  | case6 => cases h
  | case7 first c p _ _ low q' hlow _ high rest hhigh _ ih =>
    obtain ⟨r, hr, heq⟩ := Option.map_eq_some_iff.mp h
    cases heq
    exact ((ih hr).trans (length_openedRange hhigh)).trans (length_readChar hlow)
  | case8 first c p _ _ low q' hlow _ _ ih =>
    obtain ⟨r, hr, heq⟩ := Option.map_eq_some_iff.mp h
    cases heq
    exact (ih hr).trans (length_readChar hlow)

/-- Whether a bracket expression is negated, and its text without the mark. -/
def unmarked : Chars → Bool × Chars
  | '!' :: p => (true, p)
  | '^' :: p => (true, p)
  | p => (false, p)

theorem length_unmarked (p : Chars) : (unmarked p).2.length ≤ p.length := by
  unfold unmarked
  split
  · exact Nat.le_succ _
  · exact Nat.le_succ _
  · exact Nat.le_refl _

/-- One piece of a pattern. -/
inductive Token where
  | star
  | any
  | char (c : Char)
  | bracket (negated : Bool) (members : List Member)
  /-- Nothing matches here. -/
  | never
  deriving DecidableEq, Repr

def Token.admits (pathname : Bool) (t : Token) (c : Char) : Bool :=
  match t with
  | star => false
  | any => !(pathname && c == '/')
  | char d => c == d
  | bracket negated members => !(pathname && c == '/') && (members.any (·.admits c) != negated)
  | never => false

/-- A bracket expression behind its `[`, and what stands behind the `]`. -/
def bracket (pathname : Bool) (p : Chars) : Option (Token × Chars) :=
  (members pathname true (unmarked p).2).map fun r => (.bracket (unmarked p).1 r.1, r.2)

theorem length_bracket {pathname : Bool} {p q : Chars} {t : Token} (h : bracket pathname p = some (t, q)) : q.length < p.length := by
  obtain ⟨r, hr, heq⟩ := Option.map_eq_some_iff.mp h
  cases heq
  exact (length_members hr).trans_le (length_unmarked p)

/-- The pieces of a pattern. -/
def tokens (pathname : Bool) (p : Chars) : List Token :=
  match p with
  | [] => []
  | c :: p =>
    if c = '*' then .star :: tokens pathname p
    else if c = '?' then .any :: tokens pathname p
    else if c = '\\' then
      match p.head? with
      | none => [.never]
      | some d => .char d :: tokens pathname p.tail
    else if c = '[' then
      match _hbracket : bracket pathname p with
      | some (t, rest) => t :: tokens pathname rest
      | none => .char '[' :: tokens pathname p
    else .char c :: tokens pathname p
termination_by p.length
decreasing_by
  all_goals simp only [List.length_cons]
  · omega
  · omega
  · exact List.length_tail.trans_le (Nat.sub_le ..) |>.trans_lt (Nat.lt_succ_self _)
  · exact (length_bracket _hbracket).trans (Nat.lt_succ_self _)
  · omega
  · omega

/-- A name matched piece by piece. -/
inductive Takes (pathname : Bool) : List Token → Chars → Prop where
  | nil : Takes pathname [] []
  | skip {ts : List Token} {n : Chars} : Takes pathname ts n → Takes pathname (.star :: ts) n
  | take {ts : List Token} {n : Chars} {c : Char} (h : (pathname && c == '/') = false) :
      Takes pathname (.star :: ts) n → Takes pathname (.star :: ts) (c :: n)
  | one {t : Token} {ts : List Token} {n : Chars} {c : Char} (h : t.admits pathname c = true) :
      Takes pathname ts n → Takes pathname (t :: ts) (c :: n)

def Matches (pathname : Bool) (p n : Chars) : Prop := Takes pathname (tokens pathname p) n

/-! ## Where a bracket expression ends -/

theorem suffix_readChar {p q : Chars} {c : Char} (h : readChar p = some (c, q)) : q <:+ p := by
  unfold readChar at h
  split at h
  · cases h
  · cases h
  · cases h
    exact (List.suffix_cons ..).trans (List.suffix_cons ..)
  · cases h
    exact List.suffix_cons ..

theorem suffix_openedRange {p q : Chars} {c : Char} (h : openedRange p = some (c, q)) : q <:+ p := by
  unfold openedRange at h
  split at h
  · exact (suffix_readChar h).trans (List.tail_suffix p)
  · cases h

theorem mem_of_openedClass {c : Char} {p name q : Chars} (h : openedClass c p = some (name, q)) : ']' ∈ p := by
  unfold openedClass at h
  split at h
  · obtain ⟨hcut, -⟩ := Option.filter_eq_some_iff.mp h
    refine List.mem_of_mem_tail ?_
    rw [splitOnceAt_some hcut]
    simp
  · cases h

/-- Without a `]` behind it a `[` is a plain character. -/
theorem members_eq_none {pathname first : Bool} {p : Chars} (h : ']' ∉ p) : members pathname first p = none := by
  fun_induction members pathname first p with
  | case1 => rfl
  | case2 first c p hc => exact absurd (hc.1 ▸ List.mem_cons_self) h
  | case3 first c p _ name rest hclass ih => exact absurd (List.mem_cons_of_mem _ (mem_of_openedClass hclass)) h
  | case4 => rfl
  | case5 => rfl
  | case6 => rfl
  | case7 first c p _ _ low q hlow _ high rest hhigh _ ih =>
    rw [ih fun hmem => h (((suffix_openedRange hhigh).trans (suffix_readChar hlow)).subset hmem)]
    rfl
  | case8 first c p _ _ low q hlow _ _ ih =>
    rw [ih fun hmem => h ((suffix_readChar hlow).subset hmem)]
    rfl

theorem bracket_eq_none {pathname : Bool} {p : Chars} (h : ']' ∉ p) : bracket pathname p = none := by
  have hunmarked : (unmarked p).2 <:+ p := by
    unfold unmarked
    split
    · exact List.suffix_cons ..
    · exact List.suffix_cons ..
    · exact List.suffix_refl _
  rw [bracket, members_eq_none fun hmem => h (hunmarked.subset hmem)]
  rfl

/-- What may stand between `[` and the first `]` for the expression to end there. -/
structure Plain (pathname : Bool) (body : Chars) : Prop where
  escapes : '\\' ∉ body
  classes : ∀ name : Chars, name.all Char.isLower = true → ¬ "[:".toList ++ name ++ [':'] <:+ body
  slashes : pathname = true → '/' ∉ body

theorem Plain.suffix {pathname : Bool} {body p : Chars} (h : Plain pathname body) (hp : p <:+ body) : Plain pathname p where
  escapes hmem := h.escapes (hp.subset hmem)
  classes name hname hsuffix := h.classes name hname (hsuffix.trans hp)
  slashes hpath hmem := h.slashes hpath (hp.subset hmem)

/-- A class that is opened is closed by the first `]`. -/
theorem openedClass_eq_none {pathname : Bool} {c : Char} {body : Chars} (h : Plain pathname (c :: body)) (hend : ']' ∉ body)
    (rest : Chars) : openedClass c (body ++ ']' :: rest) = none := by
  cases hopened : openedClass c (body ++ ']' :: rest) with
  | none => rfl
  | some opened =>
    obtain ⟨name, q⟩ := opened
    unfold openedClass at hopened
    split at hopened
    · next hopens =>
      obtain ⟨rfl, hhead⟩ := hopens
      cases body with
      | nil => cases hhead
      | cons d body =>
        cases hhead
        obtain ⟨hcut, hname⟩ := Option.filter_eq_some_iff.mp hopened
        have hbody : body ++ ']' :: rest = name ++ [':'] ++ ']' :: q := by simpa using splitOnceAt_some hcut
        have hnoend : ']' ∉ name ++ [':'] := by
          intro hmem
          obtain hmem | hmem := List.mem_append.mp hmem
          · exact absurd (List.all_eq_true.mp hname _ hmem) (by decide)
          · exact absurd hmem (by decide)
        have hfirst := splitOnce_append hnoend q
        rw [← hbody, splitOnce_append fun hmem => hend (List.mem_cons_of_mem _ hmem)] at hfirst
        cases hfirst
        exact absurd (List.suffix_refl _) (h.classes name hname)
    · cases hopened

/-- A member that is no class: the low end of a range, or a character. -/
theorem members_char {pathname first : Bool} {c low : Char} {p q : Chars} (hend : ¬ (c = ']' ∧ first = false))
    (hclass : openedClass c p = none) (hlow : readChar (c :: p) = some (low, q)) (hslash : ¬ (pathname = true ∧ low = '/')) :
    members pathname first (c :: p) =
      match openedRange q with
      | some (high, rest) =>
        if pathname ∧ high = '/' then none else (members pathname false rest).map fun r => (.range low high :: r.1, r.2)
      | none => (members pathname false q).map fun r => (.char low :: r.1, r.2) := by
  rw [members, if_neg hend]
  split
  · next h =>
    rw [hclass] at h
    cases h
  · split
    · next h =>
      rw [hlow] at h
      cases h
    · next h =>
      rw [hlow] at h
      cases h
      rw [if_neg hslash]
      cases openedRange q <;> rfl

theorem members_end {pathname : Bool} (rest : Chars) : members pathname false (']' :: rest) = some ([], rest) := by
  rw [members, if_pos ⟨rfl, rfl⟩]

/-- A bracket expression without escapes and classes ends at its first `]`, a first member apart. -/
theorem members_plain {pathname first : Bool} {body : Chars} (h : Plain pathname body) (hend : ']' ∉ body)
    (hfirst : first = true → body ≠ []) (rest : Chars) : ∃ ms, members pathname first (body ++ ']' :: rest) = some (ms, rest) := by
  induction hn : body.length using Nat.strong_induction_on generalizing body first with
  | _ n ih =>
    subst hn
    cases body with
    | nil =>
      refine ⟨[], ?_⟩
      have hlater : first = false := by
        rw [← Bool.not_eq_true]
        exact fun hf => hfirst hf rfl
      rw [hlater]
      exact members_end rest
    | cons c body =>
      have hc : c ≠ ']' := fun heq => hend (heq ▸ List.mem_cons_self)
      have hescape : c ≠ '\\' := fun heq => h.escapes (heq ▸ List.mem_cons_self)
      have hclass := openedClass_eq_none h (fun hmem => hend (List.mem_cons_of_mem _ hmem)) rest
      have hread : ∀ {c : Char} {p : Chars}, c ≠ '\\' → readChar (c :: p) = some (c, p) := by
        intro c p hc
        unfold readChar
        split
        · next heq => cases heq
        · next heq =>
          cases heq
          exact absurd rfl hc
        · next heq =>
          cases heq
          exact absurd rfl hc
        · next heq =>
          cases heq
          rfl
      have hslash : ∀ {d : Char}, d ∈ c :: body → ¬ (pathname = true ∧ d = '/') := fun hd hboth => h.slashes hboth.1 (hboth.2 ▸ hd)
      have hstep : members pathname first (c :: (body ++ ']' :: rest)) = _ :=
        members_char (fun hboth => hc hboth.1) hclass (hread hescape) (hslash List.mem_cons_self)
      have hnext : ∀ p, p <:+ body → ∃ ms, members pathname false (p ++ ']' :: rest) = some (ms, rest) := fun p hp =>
        ih p.length (Nat.lt_succ_of_le hp.length_le) (h.suffix (hp.trans (List.suffix_cons ..)))
          (fun hmem => hend (List.mem_cons_of_mem _ (hp.subset hmem))) nofun rfl
      have hplain : openedRange (body ++ ']' :: rest) = none →
          ∃ ms, members pathname first (c :: body ++ ']' :: rest) = some (ms, rest) := by
        intro hnone
        obtain ⟨ms, hms⟩ := hnext body (List.suffix_refl _)
        rw [List.cons_append, hstep, hnone]
        exact ⟨_, congrArg (Option.map _) hms⟩
      cases body with
      | nil => exact hplain (if_neg fun hboth => by cases hboth.1)
      | cons d body =>
        by_cases hd : d = '-'
        · subst hd
          cases body with
          | nil => exact hplain (if_neg fun hboth => hboth.2 rfl)
          | cons e body =>
            have hmem : e ∈ c :: '-' :: e :: body := by simp
            have he : e ≠ ']' := fun heq => hend (heq ▸ hmem)
            have hrange : openedRange ('-' :: e :: body ++ ']' :: rest) = some (e, body ++ ']' :: rest) := by
              rw [openedRange, if_pos ⟨rfl, fun heq => he (Option.some.inj heq)⟩]
              exact hread fun heq => h.escapes (heq ▸ hmem)
            obtain ⟨ms, hms⟩ := hnext body ((List.suffix_cons ..).trans (List.suffix_cons ..))
            rw [List.cons_append, hstep, hrange]
            dsimp only
            rw [if_neg (hslash hmem)]
            exact ⟨_, congrArg (Option.map _) hms⟩
        · exact hplain (if_neg fun hboth => hd (Option.some.inj hboth.1))

theorem unmarked_append {body : Chars} (h : body ≠ []) (rest : Chars) :
    unmarked (body ++ rest) = ((unmarked body).1, (unmarked body).2 ++ rest) := by
  cases body with
  | nil => exact absurd rfl h
  | cons c body =>
    rw [List.cons_append, unmarked.eq_def, unmarked.eq_def]
    split <;> simp_all

theorem bracket_plain {pathname : Bool} {body : Chars} (h : Plain pathname (unmarked body).2) (hne : (unmarked body).2 ≠ [])
    (hend : ']' ∉ body) (rest : Chars) : ∃ t, t ≠ Token.star ∧ bracket pathname (body ++ ']' :: rest) = some (t, rest) := by
  have hbody : body ≠ [] := by
    rintro rfl
    exact hne rfl
  have hend' : ']' ∉ (unmarked body).2 := by
    unfold unmarked
    split
    · exact fun hmem => hend (List.mem_cons_of_mem _ hmem)
    · exact fun hmem => hend (List.mem_cons_of_mem _ hmem)
    · exact hend
  obtain ⟨ms, hms⟩ := members_plain h hend' (fun _ : true = true => hne) rest
  refine ⟨.bracket (unmarked body).1 ms, nofun, ?_⟩
  rw [bracket, unmarked_append hbody]
  dsimp only
  rw [hms]
  rfl

theorem tokens_bracket {pathname : Bool} {p rest : Chars} {t : Token} (h : bracket pathname p = some (t, rest)) :
    tokens pathname ('[' :: p) = t :: tokens pathname rest := by
  rw [tokens, if_neg (by decide), if_neg (by decide), if_neg (by decide), if_pos rfl]
  split
  · next h' =>
    rw [h] at h'
    cases h'
    rfl
  · next h' =>
    rw [h] at h'
    cases h'

theorem tokens_unclosed {pathname : Bool} {p : Chars} (h : bracket pathname p = none) :
    tokens pathname ('[' :: p) = .char '[' :: tokens pathname p := by
  rw [tokens, if_neg (by decide), if_neg (by decide), if_neg (by decide), if_pos rfl]
  split
  · next h' =>
    rw [h] at h'
    cases h'
  · rfl

theorem tokens_literal {pathname : Bool} {literal : Chars} (h : ∀ c ∈ literal, c ≠ '*' ∧ c ≠ '?' ∧ c ≠ '\\' ∧ c ≠ '[') (p : Chars) :
    tokens pathname (literal ++ p) = literal.map .char ++ tokens pathname p := by
  induction literal with
  | nil => rfl
  | cons c literal ih =>
    obtain ⟨hstar, hany, hescape, hbracket⟩ := h c List.mem_cons_self
    rw [List.cons_append, tokens, if_neg hstar, if_neg hany, if_neg hescape, if_neg hbracket,
      ih fun d hd => h d (List.mem_cons_of_mem _ hd)]
    rfl

theorem takes_literal (literal : Chars) {pathname : Bool} {ts : List Token} {n : Chars} (h : Takes pathname ts n) :
    Takes pathname (literal.map .char ++ ts) (literal ++ n) := by
  induction literal with
  | nil => exact h
  | cons c literal ih => exact .one (beq_self_eq_true c) ih

/-- A class as the first member. -/
theorem members_class {pathname first : Bool} {name p : Chars} {rest : Chars} (h : className p = some (name, rest)) :
    members pathname first ('[' :: ':' :: p) = (members pathname false rest).map fun r => (.named name :: r.1, r.2) := by
  have hclass : openedClass '[' (':' :: p) = some (name, rest) := (if_pos ⟨rfl, rfl⟩).trans h
  rw [members, if_neg fun hboth => by cases hboth.1]
  split
  · next h' =>
    rw [hclass] at h'
    cases h'
    rfl
  · next h' =>
    rw [hclass] at h'
    cases h'

end LinuxHardener.Fnmatch
