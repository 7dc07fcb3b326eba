import LinuxHardener.Lib.LineText

/-
  Texts cut at a separator, and the numbers written in them.

  Correspondence (Rust ↔ Lean):
    `str::contains`          ↔ `contains`
    `str::split_once`        ↔ `splitOnce`, `splitOnceAt`
    `str::replace`           ↔ `replaceChar`
    `str::rsplit_once`       ↔ `rsplitOnce`
    `str::strip_prefix`      ↔ `stripStart`
    `str::parse::<u8>` etc.  ↔ `parseUnsigned`
    `str::parse::<i64>`      ↔ `parseI64`
-/
namespace LinuxHardener.LineText

open Text hiding trim

instance : Coe String Chars := ⟨String.toList⟩

/-- `str::contains` -/
def contains (s needle : Chars) : Bool :=
  match s with
  | [] => needle.isEmpty
  | c :: cs => needle.isPrefixOf (c :: cs) || contains cs needle

theorem contains_iff {s needle : Chars} : contains s needle = true ↔ needle <:+: s := by
  induction s with
  | nil => simp [contains]
  | cons c cs ih => rw [contains, Bool.or_eq_true, ih, List.isPrefixOf_iff_prefix, List.infix_cons_iff]

/-- `str::replace`, of a character. -/
def replaceChar (old : Char) (new : Chars) (s : Chars) : Chars := s.flatMap fun c => if c = old then new else [c]

theorem replaceChar_cons (old : Char) (new : Chars) (c : Char) (s : Chars) :
    replaceChar old new (c :: s) = (if c = old then new else [c]) ++ replaceChar old new s := rfl

theorem replaceChar_append (old : Char) (new s t : Chars) :
    replaceChar old new (s ++ t) = replaceChar old new s ++ replaceChar old new t :=
  List.flatMap_append

theorem mem_replaceChar {old c : Char} {new s : Chars} (h : c ∈ replaceChar old new s) : c ∈ new ∨ c ∈ s := by
  obtain ⟨d, hd, hc⟩ := List.mem_flatMap.mp h
  split at hc
  · exact .inl hc
  · exact .inr (List.mem_singleton.mp hc ▸ hd)

/-- `split_once`, at a character. -/
def splitOnce (sep : Char) : Chars → Option (Chars × Chars)
  | [] => none
  | c :: cs =>
    if c = sep then some ([], cs)
    else (splitOnce sep cs).map fun (head, tail) => (c :: head, tail)

/-- `split_once`, at a text. -/
def splitOnceAt (sep : Chars) : Chars → Option (Chars × Chars)
  | [] => none
  | c :: cs =>
    if sep.isPrefixOf (c :: cs) then some ([], (c :: cs).drop sep.length)
    else (splitOnceAt sep cs).map fun (head, tail) => (c :: head, tail)

/-- `rsplit_once`, at a character. -/
def rsplitOnce (sep : Char) (s : Chars) : Option (Chars × Chars) :=
  (splitOnce sep s.reverse).map fun (tail, head) => (head.reverse, tail.reverse)

/-- `strip_prefix` -/
def stripStart (start s : Chars) : Option Chars :=
  if start.isPrefixOf s then some (s.drop start.length) else none

theorem splitOnce_none {sep : Char} {s : Chars} : splitOnce sep s = none ↔ sep ∉ s := by
  induction s with
  | nil => simp [splitOnce]
  | cons c cs ih =>
    rw [splitOnce]
    split
    · next h => simp [h]
    · next h => simp [ih, Ne.symm h]

theorem splitOnce_append {sep : Char} {head : Chars} (h : sep ∉ head) (tail : Chars) :
    splitOnce sep (head ++ sep :: tail) = some (head, tail) := by
  induction head with
  | nil => simp [splitOnce]
  | cons c cs ih =>
    have hc : c ≠ sep := fun he => h (by simp [he])
    rw [List.cons_append, splitOnce, if_neg hc, ih fun hm => h (by simp [hm])]
    rfl

/-- What a cut says of the text: the separator stands where it was cut, and not before. -/
theorem splitOnce_some {sep : Char} {s head tail : Chars} (h : splitOnce sep s = some (head, tail)) :
    s = head ++ sep :: tail ∧ sep ∉ head := by
  induction s generalizing head with
  | nil => simp [splitOnce] at h
  | cons c cs ih =>
    rw [splitOnce] at h
    split at h
    · next hc =>
      cases h
      simp [hc]
    · next hc =>
      obtain ⟨⟨head', tail'⟩, hcut, heq⟩ := Option.map_eq_some_iff.mp h
      cases heq
      obtain ⟨hs, hnot⟩ := ih hcut
      simp [hs, hnot, Ne.symm hc]

/-- The same from the end. -/
theorem rsplitOnce_some {sep : Char} {s head tail : Chars} (h : rsplitOnce sep s = some (head, tail)) :
    s = head ++ sep :: tail ∧ sep ∉ tail := by
  obtain ⟨⟨tail', head'⟩, hcut, heq⟩ := Option.map_eq_some_iff.mp h
  cases heq
  obtain ⟨hs, hnot⟩ := splitOnce_some hcut
  have := congrArg List.reverse hs
  simp only [List.reverse_reverse, List.reverse_append, List.reverse_cons, List.append_assoc, List.singleton_append] at this
  simp [this, hnot]

theorem rsplitOnce_append {sep : Char} {tail : Chars} (h : sep ∉ tail) (head : Chars) :
    rsplitOnce sep (head ++ sep :: tail) = some (head, tail) := by
  have hsep : sep ∉ tail.reverse := fun hm => h (List.mem_reverse.mp hm)
  rw [rsplitOnce, List.reverse_append, List.reverse_cons, List.append_assoc, List.singleton_append, splitOnce_append hsep]
  simp

/-! ## Numbers -/

/-- A run of decimal digits, as a number below a bound. -/
def parseDigits (bound : Nat) (ds : Chars) : Option Nat :=
  if ds ≠ [] ∧ ds.all Char.isDigit then
    (let n := Nat.ofDigitChars 10 ds 0
    if n < bound then some n else none)
  else none

/-- `str::parse` at an unsigned type with `bound` values: one leading `+` is taken. -/
def parseUnsigned (bound : Nat) (s : Chars) : Option Nat :=
  match s with
  | '+' :: ds => parseDigits bound ds
  | ds => parseDigits bound ds

/-- A number as `Display` writes it. -/
def decimal (n : Nat) : Chars := Nat.toDigits 10 n

theorem isDigit_decimal {n : Nat} {c : Char} (h : c ∈ decimal n) : c.isDigit = true :=
  Nat.isDigit_of_mem_toDigits (by decide) (by decide) h

theorem decimal_ne_nil (n : Nat) : decimal n ≠ [] := Nat.toDigits_ne_nil

theorem decimal_injective {n m : Nat} (h : decimal n = decimal m) : n = m := by
  have hback := congrArg (fun ds => Nat.ofDigitChars 10 ds 0) h
  simpa only [decimal, Nat.ofDigitChars_ten_toDigits] using hback

theorem parseDigits_decimal {bound n : Nat} (h : n < bound) : parseDigits bound (decimal n) = some n := by
  have hdigits : (decimal n).all Char.isDigit = true := List.all_eq_true.mpr fun c hc => isDigit_decimal hc
  unfold parseDigits
  rw [if_pos ⟨decimal_ne_nil n, hdigits⟩, decimal, Nat.ofDigitChars_ten_toDigits]
  exact if_pos h

theorem parseUnsigned_decimal {bound n : Nat} (h : n < bound) : parseUnsigned bound (decimal n) = some n := by
  unfold parseUnsigned
  split
  · next ds hds =>
    have := isDigit_decimal (hds ▸ List.mem_cons_self : '+' ∈ decimal n)
    cases this
  · exact parseDigits_decimal h

theorem parseDigits_eq_some {bound n : Nat} {ds : Chars} :
    parseDigits bound ds = some n ↔
      (ds ≠ [] ∧ ds.all Char.isDigit = true) ∧ Nat.ofDigitChars 10 ds 0 = n ∧ n < bound := by
  unfold parseDigits
  split
  · next h =>
    dsimp only
    split
    · next hlt =>
      constructor
      · intro heq
        cases heq
        exact ⟨h, rfl, hlt⟩
      · rintro ⟨_, rfl, _⟩
        rfl
    · next hge =>
      constructor
      · intro heq
        cases heq
      · rintro ⟨_, rfl, hlt⟩
        exact absurd hlt hge
  · next h =>
    constructor
    · intro heq
      cases heq
    · exact fun hd => absurd hd.1 h

/-- Digits alone are read as they are. -/
theorem parseUnsigned_of_digits {bound : Nat} {s : Chars} (h : s.all Char.isDigit = true) :
    parseUnsigned bound s = parseDigits bound s := by
  unfold parseUnsigned
  split
  · next ds =>
    rw [List.all_cons] at h
    cases h
  · rfl

theorem parseDigits_lt {bound n : Nat} {ds : Chars} (h : parseDigits bound ds = some n) : n < bound :=
  (parseDigits_eq_some.mp h).2.2

/-- A number is written with digits, and at most a `+`. -/
theorem isDigit_of_parseUnsigned {bound n : Nat} {s : Chars} (h : parseUnsigned bound s = some n) :
    ∀ c ∈ s, c.isDigit = true ∨ c = '+' := by
  unfold parseUnsigned at h
  split at h
  · next ds =>
    intro c hc
    rcases List.mem_cons.mp hc with rfl | hc
    · exact .inr rfl
    · exact .inl (List.all_eq_true.mp (parseDigits_eq_some.mp h).1.2 c hc)
  · exact fun c hc => .inl (List.all_eq_true.mp (parseDigits_eq_some.mp h).1.2 c hc)

/-- What was read as a number ends in a digit. -/
theorem getLast_of_parseUnsigned {bound n : Nat} {s : Chars} (h : parseUnsigned bound s = some n) :
    ∃ c, s.getLast? = some c ∧ c.isDigit = true := by
  have hdigits : ∀ {ds : Chars}, parseDigits bound ds = some n → ∃ c, ds.getLast? = some c ∧ c.isDigit = true := by
    intro ds hds
    obtain ⟨hne, hall⟩ := (parseDigits_eq_some.mp hds).1
    exact ⟨ds.getLast hne, List.getLast?_eq_getLast_of_ne_nil hne, List.all_eq_true.mp hall _ (List.getLast_mem hne)⟩
  unfold parseUnsigned at h
  split at h
  · next ds =>
    obtain ⟨c, hc, hd⟩ := hdigits h
    exact ⟨c, by simp [List.getLast?_cons, hc], hd⟩
  · exact hdigits h

theorem parseUnsigned_lt {bound n : Nat} {s : Chars} (h : parseUnsigned bound s = some n) : n < bound := by
  unfold parseUnsigned at h
  split at h <;> exact parseDigits_lt h

/-- A run of decimal digits, as a number of any size. -/
def readDecimal (ds : Chars) : Option Nat := if ds ≠ [] ∧ ds.all Char.isDigit then some (Nat.ofDigitChars 10 ds 0) else none

theorem isDigit_of_readDecimal {ds : Chars} {n : Nat} (h : readDecimal ds = some n) {c : Char} (hc : c ∈ ds) : c.isDigit = true := by
  unfold readDecimal at h
  split at h
  · next hds => exact List.all_eq_true.mp hds.2 c hc
  · cases h

theorem not_mem_of_readDecimal {ds : Chars} {n : Nat} (h : readDecimal ds = some n) {c : Char} (hc : c.isDigit = false) : c ∉ ds := by
  intro hmem
  rw [isDigit_of_readDecimal h hmem] at hc
  cases hc

theorem ne_nil_of_readDecimal {ds : Chars} {n : Nat} (h : readDecimal ds = some n) : ds ≠ [] := by
  rintro rfl
  cases h

theorem readDecimal_of_parseDigits {bound n : Nat} {ds : Chars} (h : parseDigits bound ds = some n) : readDecimal ds = some n := by
  obtain ⟨hds, hn, _⟩ := parseDigits_eq_some.mp h
  rw [readDecimal, if_pos hds, hn]

theorem parseDigits_of_readDecimal {bound n : Nat} {ds : Chars} (h : readDecimal ds = some n) (hn : n < bound) :
    parseDigits bound ds = some n := by
  unfold readDecimal at h
  split at h
  · next hds => exact parseDigits_eq_some.mpr ⟨hds, Option.some.inj h, hn⟩
  · cases h

theorem readDecimal_decimal (n : Nat) : readDecimal (decimal n) = some n :=
  readDecimal_of_parseDigits (parseDigits_decimal (Nat.lt_succ_self n))

/-! ## Signed numbers -/

def i64Min : Int := -9223372036854775808

def i64Max : Int := 9223372036854775807

/-- `str::parse` at `i64`. -/
def parseI64 (s : Chars) : Option Int :=
  match s with
  | '-' :: ds => (parseDigits 9223372036854775809 ds).map Int.negOfNat
  | ds => (parseUnsigned 9223372036854775808 ds).map Int.ofNat

/-- A number as `Display` writes it. -/
def signed (n : Int) : Chars := if n < 0 then '-' :: decimal n.natAbs else decimal n.natAbs

theorem parseI64_bounds {s : Chars} {n : Int} (h : parseI64 s = some n) : i64Min ≤ n ∧ n ≤ i64Max := by
  unfold parseI64 at h
  split at h
  · obtain ⟨k, hk, rfl⟩ := Option.map_eq_some_iff.mp h
    have := parseDigits_lt hk
    unfold i64Min i64Max
    rw [Int.negOfNat_eq, Int.ofNat_eq_natCast]
    omega
  · obtain ⟨k, hk, rfl⟩ := Option.map_eq_some_iff.mp h
    have := parseUnsigned_lt hk
    unfold i64Min i64Max
    simp only [Int.ofNat_eq_natCast]
    omega

theorem parseI64_signed {n : Int} (h : i64Min ≤ n ∧ n ≤ i64Max) : parseI64 (signed n) = some n := by
  unfold i64Min i64Max at h
  unfold signed
  split
  · next hneg =>
    have hlt : n.natAbs < 9223372036854775809 := by omega
    rw [parseI64, parseDigits_decimal hlt, Option.map_some, Int.negOfNat_eq, Int.ofNat_eq_natCast]
    congr 1
    omega
  · next hpos =>
    have hlt : n.natAbs < 9223372036854775808 := by omega
    unfold parseI64
    split
    · next ds hds =>
      have := isDigit_decimal (hds ▸ List.mem_cons_self : '-' ∈ decimal n.natAbs)
      cases this
    · rw [parseUnsigned_decimal hlt, Option.map_some]
      congr 1
      show ((n.natAbs : Nat) : Int) = n
      omega

theorem mem_signed {n : Int} {c : Char} (h : c ∈ signed n) : c = '-' ∨ c.isDigit = true := by
  unfold signed at h
  split at h
  · rcases List.mem_cons.mp h with h | h
    · exact .inl h
    · exact .inr (isDigit_decimal h)
  · exact .inr (isDigit_decimal h)

theorem signed_ne_nil (n : Int) : signed n ≠ [] := by
  unfold signed
  split
  · exact List.cons_ne_nil _ _
  · exact decimal_ne_nil _

/-! ## Readings that may fail -/

theorem bind_eq_ok {ε α β : Type} {x : Except ε α} {f : α → Except ε β} {r : β} : (x >>= f) = .ok r ↔ ∃ a, x = .ok a ∧ f a = .ok r := by
  cases x with
  | error e => exact ⟨fun h => (by cases h), fun ⟨_, h, _⟩ => (by cases h)⟩
  | ok a =>
    constructor
    · exact fun h => ⟨a, rfl, h⟩
    · intro h
      obtain ⟨b, hb, h⟩ := h
      cases hb
      exact h

/-! ## Cuts and ends -/

theorem not_whitespace_of_isAlphanum {c : Char} (h : c.isAlphanum = true) : isWhitespace c = false := by
  change ((decide (c.val ≥ 65 ∧ c.val ≤ 90) || (c.val ≥ 97 && c.val ≤ 122)) || (c.val ≥ 48 && c.val ≤ 57)) = true at h
  simp only [Bool.or_eq_true, Bool.and_eq_true, decide_eq_true_eq, UInt32.le_iff_toNat_le, ge_iff_le] at h
  change ((65 ≤ c.toNat ∧ c.toNat ≤ 90) ∨ (97 ≤ c.toNat ∧ c.toNat ≤ 122)) ∨ (48 ≤ c.toNat ∧ c.toNat ≤ 57) at h
  simp only [isWhitespace, Bool.or_eq_false_iff, Bool.and_eq_false_iff, decide_eq_false_iff_not, beq_eq_false_iff_ne]
  omega

/-- A cut is made at the text it is made at. -/
theorem splitOnceAt_some {sep s before behind : Chars} (h : splitOnceAt sep s = some (before, behind)) : s = before ++ sep ++ behind := by
  induction s generalizing before with
  | nil => cases h
  | cons c s ih =>
    rw [splitOnceAt] at h
    split at h
    · next hsep =>
      obtain ⟨rest, hrest⟩ := List.isPrefixOf_iff_prefix.mp hsep
      cases h
      rw [List.nil_append, ← hrest, List.drop_left]
    · obtain ⟨⟨head, tail⟩, hcut, heq⟩ := Option.map_eq_some_iff.mp h
      cases heq
      rw [ih hcut]
      rfl

/-- A text of one character is a character to cut at. -/
theorem splitOnceAt_singleton (c : Char) (s : Chars) : splitOnceAt [c] s = splitOnce c s := by
  induction s with
  | nil => rfl
  | cons d s ih =>
    rw [splitOnceAt, splitOnce, ih]
    by_cases h : d = c
    · rw [if_pos h, if_pos (by simp [h])]
      rfl
    · rw [if_neg h, if_neg (by simp [Ne.symm h])]

theorem stripStart_append {start s : Chars} : stripStart start (start ++ s) = some s := by
  rw [stripStart, if_pos (List.isPrefixOf_iff_prefix.mpr (List.prefix_append ..)), List.drop_left]

theorem stripStart_eq_some {start s rest : Chars} : stripStart start s = some rest ↔ s = start ++ rest := by
  constructor
  · intro h
    unfold stripStart at h
    split at h
    · next hstart =>
      obtain ⟨t, rfl⟩ := List.isPrefixOf_iff_prefix.mp hstart
      rw [List.drop_left] at h
      rw [Option.some.inj h]
    · cases h
  · rintro rfl
    exact stripStart_append

/-- Text that does not end in a blank keeps what stands before the blanks behind it. -/
theorem trimEnd_cons {c : Char} (hc : isWhitespace c = false) (s : Chars) : trimEnd (c :: s) = c :: trimEnd s := by
  unfold trimEnd
  rw [List.reverse_cons, List.dropWhile_append]
  split
  · next he =>
    rw [List.isEmpty_iff] at he
    rw [he, List.dropWhile_cons, if_neg (by simp [hc])]
    rfl
  · rw [List.reverse_append]
    rfl

theorem trimEnd_append_of_solid {start : Chars} (h : ∀ c ∈ start, isWhitespace c = false) (s : Chars) : trimEnd (start ++ s) = start ++ trimEnd s := by
  induction start with
  | nil => rfl
  | cons c start ih =>
    rw [List.cons_append, trimEnd_cons (h c List.mem_cons_self), ih fun d hd => h d (List.mem_cons_of_mem _ hd)]
    rfl

theorem trimEnd_append {a b : Chars} (hb : trimEnd b ≠ []) : trimEnd (a ++ b) = a ++ trimEnd b := by
  unfold trimEnd at hb ⊢
  have hne : (b.reverse.dropWhile isWhitespace).isEmpty = false := by
    rw [List.isEmpty_eq_false_iff]
    exact fun he => hb (by rw [he]; rfl)
  rw [List.reverse_append, List.dropWhile_append, hne, if_neg Bool.false_ne_true, List.reverse_append, List.reverse_reverse]

end LinuxHardener.LineText
