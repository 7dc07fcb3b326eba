import LinuxHardener.Lib.Calendar
import LinuxHardener.Lib.Cut

/-
  Points in time written into names, and the order of these names as texts.

  A name says when it was given in one of three shapes: the seconds since 1970 in decimal; the
  date and the time of day, `20240229_235959`; the same with the nanoseconds in eight hexadecimal
  digits behind a dot. Times are counted from the first day of the year 1.

  What is proved:
    1. `numeral_lt` — of as many digits, the text that comes first is the smaller number.
    2. `moment_lt` — of one shape, the text that comes first is the earlier time.
-/
namespace LinuxHardener.NameStamp

open LineText Calendar

/-- The value of a digit, hexadecimal ones in lower case. -/
def digit (c : Char) : Nat := if c.isDigit then c.toNat - '0'.toNat else c.toNat - 'a'.toNat + 10

def isHexDigit (c : Char) : Bool := c.isDigit || ('a' ≤ c && c ≤ 'f')

def numeral (base : Nat) (s : Chars) : Nat := s.foldl (fun n c => n * base + digit c) 0

inductive Shape where
  | seconds (digits : Nat)
  | civil
  | civilNanos
  deriving DecidableEq, Repr

/-- When, in nanoseconds, and how that is written. -/
structure Stamp where
  shape : Shape
  moment : Nat
  deriving DecidableEq, Repr

def civilDate (n : Nat) : Option Date :=
  let year := n / 10000
  let month := n / 100 % 100
  let day := n % 100
  if h : 1 ≤ year ∧ (1 ≤ month ∧ month ≤ 12) ∧ 1 ≤ day ∧ day ≤ daysInMonth year month then some ⟨year, month, day, h.2.1, h.2.2⟩
  else none

def secondOfDay (n : Nat) : Option Nat :=
  if n / 10000 < 24 ∧ n / 100 % 100 < 60 ∧ n % 100 < 60 then some (n / 10000 * 3600 + n / 100 % 100 * 60 + n % 100) else none

/-- `%Y%m%d_%H%M%S`, in seconds. -/
def readCivil (s : Chars) : Option Nat :=
  (splitOnce '_' s).bind fun (date, clock) =>
    if (date.length = 8 ∧ date.all Char.isDigit) ∧ clock.length = 6 ∧ clock.all Char.isDigit then
      (civilDate (numeral 10 date)).bind fun day => (secondOfDay (numeral 10 clock)).map fun second => day.ordinal * 86400 + second
    else none

/-- Eight hexadecimal digits, for less than a second. -/
def readNanos (s : Chars) : Option Nat :=
  if (s.length = 8 ∧ s.all isHexDigit) ∧ numeral 16 s < 10 ^ 9 then some (numeral 16 s) else none

/-- 1 January 1970, in seconds. -/
def epoch : Nat := 719163 * 86400

def readSeconds (s : Chars) : Option Nat :=
  if s ≠ [] ∧ s.all Char.isDigit ∧ (s.head? = some '0' → s = ['0']) then some (epoch + numeral 10 s) else none

def readStamp (s : Chars) : Option Stamp :=
  match splitOnce '.' s with
  | some (civil, nanos) => (readCivil civil).bind fun second => (readNanos nanos).map fun n => ⟨.civilNanos, second * 10 ^ 9 + n⟩
  | none =>
    match readCivil s with
    | some second => some ⟨.civil, second * 10 ^ 9⟩
    | none => (readSeconds s).map fun second => ⟨.seconds s.length, second * 10 ^ 9⟩

/-! ## Numerals -/

theorem foldl_digits (base : Nat) (s : Chars) (n : Nat) :
    s.foldl (fun n c => n * base + digit c) n = n * base ^ s.length + numeral base s := by
  induction s generalizing n with
  | nil => simp [numeral]
  | cons c s ih =>
    have hwhole : numeral base (c :: s) = s.foldl (fun n c => n * base + digit c) (0 * base + digit c) := rfl
    rw [List.foldl_cons, ih, hwhole, ih, List.length_cons, Nat.pow_succ', Nat.zero_mul, Nat.zero_add, Nat.add_mul, Nat.mul_assoc,
      Nat.add_assoc]

theorem numeral_cons (base : Nat) (c : Char) (s : Chars) : numeral base (c :: s) = digit c * base ^ s.length + numeral base s := by
  rw [numeral, List.foldl_cons, foldl_digits, Nat.zero_mul, Nat.zero_add]

theorem numeral_lt_pow {base : Nat} {s : Chars} (h : ∀ c ∈ s, digit c < base) : numeral base s < base ^ s.length := by
  induction s with
  | nil => exact Nat.one_pos
  | cons c s ih =>
    have hc := h c List.mem_cons_self
    have hs := ih fun d hd => h d (List.mem_cons_of_mem _ hd)
    rw [numeral_cons, List.length_cons, Nat.pow_succ']
    calc digit c * base ^ s.length + numeral base s < digit c * base ^ s.length + base ^ s.length := Nat.add_lt_add_left hs _
      _ = (digit c + 1) * base ^ s.length := (Nat.succ_mul ..).symm
      _ ≤ base * base ^ s.length := Nat.mul_le_mul_right _ hc

/-- Digits in the order of their characters are in the order of their values. -/
def InOrder (base : Nat) (p : Char → Bool) : Prop :=
  ∀ c d, p c = true → p d = true → digit c < base ∧ (c < d → digit c < digit d)

/-- Of as many digits, the text that comes first is the smaller number. -/
theorem numeral_lt {base : Nat} {p : Char → Bool} (hp : InOrder base p) {s t : Chars} (hlength : s.length = t.length)
    (hs : s.all p = true) (ht : t.all p = true) (h : s < t) : numeral base s < numeral base t := by
  induction s generalizing t with
  | nil =>
    cases t with
    | nil => cases h
    | cons d t => cases hlength
  | cons c s ih =>
    cases t with
    | nil => cases hlength
    | cons d t =>
      have hlength' : s.length = t.length := Nat.succ.inj hlength
      rw [List.all_cons, Bool.and_eq_true] at hs ht
      rw [numeral_cons, numeral_cons, hlength']
      rcases List.cons_lt_cons_iff.mp h with hcd | ⟨rfl, hst⟩
      · have hdigit := (hp c d hs.1 ht.1).2 hcd
        have hrest : numeral base s < base ^ t.length := by
          rw [← hlength']
          exact numeral_lt_pow fun e he => (hp e e (List.all_eq_true.mp hs.2 e he) (List.all_eq_true.mp hs.2 e he)).1
        calc digit c * base ^ t.length + numeral base s < digit c * base ^ t.length + base ^ t.length := Nat.add_lt_add_left hrest _
          _ = (digit c + 1) * base ^ t.length := (Nat.succ_mul ..).symm
          _ ≤ digit d * base ^ t.length := Nat.mul_le_mul_right _ hdigit
          _ ≤ digit d * base ^ t.length + numeral base t := Nat.le_add_right ..
      · exact Nat.add_lt_add_left (ih hlength' hs.2 ht.2 hst) _

theorem isDigit_range {c : Char} : c.isDigit = true ↔ 48 ≤ c.toNat ∧ c.toNat ≤ 57 := by
  change (decide (48 ≤ c.val) && decide (c.val ≤ 57)) = true ↔ _
  rw [Bool.and_eq_true, decide_eq_true_eq, decide_eq_true_eq, UInt32.le_iff_toNat_le, UInt32.le_iff_toNat_le]
  rfl

theorem isHexDigit_range {c : Char} : isHexDigit c = true ↔ c.isDigit = true ∨ 97 ≤ c.toNat ∧ c.toNat ≤ 102 := by
  rw [isHexDigit, Bool.or_eq_true, Bool.and_eq_true, decide_eq_true_eq, decide_eq_true_eq]
  rfl

theorem digit_of_isDigit {c : Char} (h : c.isDigit = true) : digit c = c.toNat - 48 := if_pos h

theorem digit_of_letter {c : Char} (h : 97 ≤ c.toNat) : digit c = c.toNat - 87 := by
  have hnot : ¬ c.isDigit = true := fun hdigit => by
    have hrange := isDigit_range.mp hdigit
    omega
  rw [digit, if_neg hnot]
  change c.toNat - 97 + 10 = c.toNat - 87
  omega

theorem decimal_inOrder : InOrder 10 Char.isDigit := by
  intro c d hc hd
  have hcr := isDigit_range.mp hc
  have hdr := isDigit_range.mp hd
  rw [digit_of_isDigit hc, digit_of_isDigit hd]
  refine ⟨by omega, fun h => ?_⟩
  have hlt : c.toNat < d.toNat := h
  omega

theorem hexadecimal_inOrder : InOrder 16 isHexDigit := by
  intro c d hc hd
  have hvalue {e : Char} (he : isHexDigit e = true) :
      digit e = e.toNat - 48 ∧ 48 ≤ e.toNat ∧ e.toNat ≤ 57 ∨ digit e = e.toNat - 87 ∧ 97 ≤ e.toNat ∧ e.toNat ≤ 102 := by
    obtain hdigit | hletter := isHexDigit_range.mp he
    · exact .inl ⟨digit_of_isDigit hdigit, isDigit_range.mp hdigit⟩
    · exact .inr ⟨digit_of_letter hletter.1, hletter⟩
  have hcv := hvalue hc
  have hdv := hvalue hd
  refine ⟨by omega, fun h => ?_⟩
  have hlt : c.toNat < d.toNat := h
  omega

/-! ## Names -/

/-- Of texts of one length before a separator, the one that comes first comes first there, or behind it. -/
theorem lt_append {a b s t : Chars} (hlength : a.length = b.length) (h : a ++ s < b ++ t) : a < b ∨ a = b ∧ s < t := by
  induction a generalizing b with
  | nil =>
    cases b with
    | nil => exact .inr ⟨rfl, h⟩
    | cons d b => cases hlength
  | cons c a ih =>
    cases b with
    | nil => cases hlength
    | cons d b =>
      rcases List.cons_lt_cons_iff.mp h with hcd | ⟨rfl, hrest⟩
      · exact .inl (List.cons_lt_cons_iff.mpr (.inl hcd))
      · rcases ih (Nat.succ.inj hlength) hrest with hab | ⟨rfl, hst⟩
        · exact .inl (List.cons_lt_cons_iff.mpr (.inr ⟨rfl, hab⟩))
        · exact .inr ⟨rfl, hst⟩

theorem lt_of_lt_separated {c : Char} {s t : Chars} (h : c :: s < c :: t) : s < t := by
  rcases List.cons_lt_cons_iff.mp h with hcc | ⟨-, hst⟩
  · exact absurd hcc (lt_irrefl c)
  · exact hst

theorem civilDate_lt {n m : Nat} {d e : Date} (hd : civilDate n = some d) (he : civilDate m = some e) (h : n < m) :
    d.ordinal < e.ordinal := by
  unfold civilDate at hd he
  dsimp only at hd he
  have hn : n / 100 / 100 = n / 10000 := Nat.div_div_eq_div_mul ..
  have hm : m / 100 / 100 = m / 10000 := Nat.div_div_eq_div_mul ..
  split at hd
  · next hvalid =>
    split at he
    · cases hd
      cases he
      refine Date.ordinal_lt hvalid.1 ?_
      dsimp only
      rcases Nat.lt_or_eq_of_le (Nat.div_le_div_right (c := 10000) h.le) with hyear | hyear
      · exact .inl hyear
      · refine .inr ⟨hyear, ?_⟩
        rw [← hn, ← hm] at hyear
        rcases Nat.lt_or_eq_of_le (Nat.div_le_div_right (c := 100) h.le) with hmonth | hmonth
        · left
          omega
        · right
          omega
    · cases he
  · cases hd

theorem secondOfDay_lt {n m s t : Nat} (hs : secondOfDay n = some s) (ht : secondOfDay m = some t) (h : n < m) : s < t := by
  unfold secondOfDay at hs ht
  have hn : n / 100 / 100 = n / 10000 := Nat.div_div_eq_div_mul ..
  have hm : m / 100 / 100 = m / 10000 := Nat.div_div_eq_div_mul ..
  split at hs
  · split at ht
    · cases hs
      cases ht
      omega
    · cases ht
  · cases hs

theorem secondOfDay_lt_day {n s : Nat} (h : secondOfDay n = some s) : s < 86400 := by
  unfold secondOfDay at h
  split at h
  · cases h
    omega
  · cases h

/-- What a civil time is read from. -/
theorem readCivil_eq_some {s : Chars} {second : Nat} (h : readCivil s = some second) :
    ∃ date clock day tod, s = date ++ '_' :: clock ∧ (date.length = 8 ∧ date.all Char.isDigit = true) ∧
      (clock.length = 6 ∧ clock.all Char.isDigit = true) ∧ civilDate (numeral 10 date) = some day ∧
      secondOfDay (numeral 10 clock) = some tod ∧ second = day.ordinal * 86400 + tod := by
  obtain ⟨⟨date, clock⟩, hcut, hread⟩ := Option.bind_eq_some_iff.mp h
  dsimp only at hread
  split at hread
  · next hshape =>
    obtain ⟨day, hday, hrest⟩ := Option.bind_eq_some_iff.mp hread
    obtain ⟨tod, htod, rfl⟩ := Option.map_eq_some_iff.mp hrest
    exact ⟨date, clock, day, tod, (splitOnce_some hcut).1, hshape.1, hshape.2, hday, htod, rfl⟩
  · cases hread

theorem length_of_readCivil {s : Chars} {second : Nat} (h : readCivil s = some second) : s.length = 15 := by
  obtain ⟨date, clock, -, -, rfl, hdate, hclock, -⟩ := readCivil_eq_some h
  rw [List.length_append, List.length_cons, hdate.1, hclock.1]

theorem readCivil_lt {s t : Chars} {a b : Nat} (hs : readCivil s = some a) (ht : readCivil t = some b) (h : s < t) : a < b := by
  obtain ⟨date, clock, day, tod, rfl, hdate, hclock, hday, htod, rfl⟩ := readCivil_eq_some hs
  obtain ⟨date', clock', day', tod', rfl, hdate', hclock', hday', htod', rfl⟩ := readCivil_eq_some ht
  have hsmall := secondOfDay_lt_day htod
  rcases lt_append (hdate.1.trans hdate'.1.symm) h with hdates | ⟨rfl, hrest⟩
  · have hearlier := civilDate_lt hday hday' (numeral_lt decimal_inOrder (hdate.1.trans hdate'.1.symm) hdate.2 hdate'.2 hdates)
    omega
  · obtain rfl := Option.some.inj (hday.symm.trans hday')
    have hearlier := secondOfDay_lt htod htod'
      (numeral_lt decimal_inOrder (hclock.1.trans hclock'.1.symm) hclock.2 hclock'.2 (lt_of_lt_separated hrest))
    omega

theorem readNanos_eq_some {s : Chars} {n : Nat} (h : readNanos s = some n) :
    (s.length = 8 ∧ s.all isHexDigit = true) ∧ numeral 16 s = n ∧ n < 10 ^ 9 := by
  unfold readNanos at h
  split at h
  · next hshape =>
    cases h
    exact ⟨hshape.1, rfl, hshape.2⟩
  · cases h

theorem readNanos_lt {s t : Chars} {a b : Nat} (hs : readNanos s = some a) (ht : readNanos t = some b) (h : s < t) : a < b := by
  obtain ⟨hs', rfl, -⟩ := readNanos_eq_some hs
  obtain ⟨ht', rfl, -⟩ := readNanos_eq_some ht
  exact numeral_lt hexadecimal_inOrder (hs'.1.trans ht'.1.symm) hs'.2 ht'.2 h

theorem readSeconds_lt {s t : Chars} {a b : Nat} (hlength : s.length = t.length) (hs : readSeconds s = some a)
    (ht : readSeconds t = some b) (h : s < t) : a < b := by
  unfold readSeconds at hs ht
  split at hs
  · next hshape =>
    split at ht
    · next hshape' =>
      cases hs
      cases ht
      exact Nat.add_lt_add_left (numeral_lt decimal_inOrder hlength hshape.2.1 hshape'.2.1 h) _
    · cases ht
  · cases hs

/-- What a stamp of each shape is read from. -/
theorem readStamp_eq_some {s : Chars} {stamp : Stamp} (h : readStamp s = some stamp) :
    match stamp.shape with
    | .seconds digits => s.length = digits ∧ ∃ second, readSeconds s = some second ∧ stamp.moment = second * 10 ^ 9
    | .civil => ∃ second, readCivil s = some second ∧ stamp.moment = second * 10 ^ 9
    | .civilNanos => ∃ civil nanos second n, s = civil ++ '.' :: nanos ∧ readCivil civil = some second ∧
        readNanos nanos = some n ∧ stamp.moment = second * 10 ^ 9 + n := by
  unfold readStamp at h
  split at h
  · next civil nanos hcut =>
    obtain ⟨second, hsecond, hrest⟩ := Option.bind_eq_some_iff.mp h
    obtain ⟨n, hn, rfl⟩ := Option.map_eq_some_iff.mp hrest
    exact ⟨civil, nanos, second, n, (splitOnce_some hcut).1, hsecond, hn, rfl⟩
  · split at h
    · next second hsecond =>
      cases h
      exact ⟨second, hsecond, rfl⟩
    · obtain ⟨second, hsecond, rfl⟩ := Option.map_eq_some_iff.mp h
      exact ⟨rfl, second, hsecond, rfl⟩

/-- Of one shape, the text that comes first is the earlier time. -/
theorem moment_lt {s t : Chars} {a b : Stamp} (ha : readStamp s = some a) (hb : readStamp t = some b) (hshape : a.shape = b.shape)
    (h : s < t) : a.moment < b.moment := by
  have hread := readStamp_eq_some ha
  have hread' := readStamp_eq_some hb
  rw [← hshape] at hread'
  cases hkind : a.shape with
  | seconds digits =>
    rw [hkind] at hread hread'
    obtain ⟨hlength, second, hsecond, hmoment⟩ := hread
    obtain ⟨hlength', second', hsecond', hmoment'⟩ := hread'
    have hlt := readSeconds_lt (hlength.trans hlength'.symm) hsecond hsecond' h
    omega
  | civil =>
    rw [hkind] at hread hread'
    obtain ⟨second, hsecond, hmoment⟩ := hread
    obtain ⟨second', hsecond', hmoment'⟩ := hread'
    have hlt := readCivil_lt hsecond hsecond' h
    omega
  | civilNanos =>
    rw [hkind] at hread hread'
    obtain ⟨civil, nanos, second, n, rfl, hsecond, hn, hmoment⟩ := hread
    obtain ⟨civil', nanos', second', n', rfl, hsecond', hn', hmoment'⟩ := hread'
    have hnanos := (readNanos_eq_some hn).2.2
    rcases lt_append ((length_of_readCivil hsecond).trans (length_of_readCivil hsecond').symm) h with hcivil | ⟨rfl, hrest⟩
    · have hlt := readCivil_lt hsecond hsecond' hcivil
      omega
    · obtain rfl := Option.some.inj (hsecond.symm.trans hsecond')
      have hlt := readNanos_lt hn hn' (lt_of_lt_separated hrest)
      omega

end LinuxHardener.NameStamp
