import LinuxHardener.Lib.Cut
import Mathlib.Data.Nat.Bitwise

/-
  Addresses as `std::net` reads them, and the networks a prefix length cuts out.

  Correspondence (Rust ↔ Lean):
    `Parser::read_number`    ↔ `readNumber`
    `Parser::read_ipv4_addr` ↔ `readIpv4`
    `read_groups`            ↔ `readGroups`
    `Parser::read_ipv6_addr` ↔ `readIpv6`
    `IpAddr::from_str`       ↔ `parseIpAddr`
-/
namespace LinuxHardener.LineText

instance neZero_v4 : NeZero (2 ^ 32) := ⟨by decide⟩

instance neZero_v6 : NeZero (2 ^ 128) := ⟨by decide⟩

inductive IpAddr where
  | v4 (n : Fin (2 ^ 32))
  | v6 (n : Fin (2 ^ 128))
  deriving DecidableEq, Repr

namespace IpAddr

def isIpv6 : IpAddr → Bool
  | v4 _ => false
  | v6 _ => true

/-- How many bits an address of the family has. -/
def familyBits (ipv6 : Bool) : Nat := if ipv6 then 128 else 32

def toNat : IpAddr → Nat
  | v4 n => n
  | v6 n => n

/-- The addresses that agree with one on its leading bits. -/
def InNetwork (network : IpAddr) (bits : Nat) (a : IpAddr) : Prop :=
  a.isIpv6 = network.isIpv6 ∧
    a.toNat / 2 ^ (familyBits network.isIpv6 - bits) = network.toNat / 2 ^ (familyBits network.isIpv6 - bits)

instance (network : IpAddr) (bits : Nat) (a : IpAddr) : Decidable (InNetwork network bits a) := instDecidableAnd

namespace InNetwork

variable {network a b : IpAddr} {bits bits' : Nat}

theorem refl (network : IpAddr) (bits : Nat) : InNetwork network bits network := ⟨rfl, rfl⟩

theorem symm (h : InNetwork network bits a) : InNetwork a bits network :=
  ⟨h.1.symm, by rw [h.1]; exact h.2.symm⟩

theorem trans (h : InNetwork network bits a) (h' : InNetwork a bits b) : InNetwork network bits b := by
  refine ⟨h'.1.trans h.1, ?_⟩
  have := h'.2
  rw [h.1] at this
  exact this.trans h.2

/-- Fewer bits, more addresses. -/
theorem mono (hle : bits' ≤ bits) (h : InNetwork network bits a) : InNetwork network bits' a := by
  obtain ⟨hfamily, hbits⟩ := h
  refine ⟨hfamily, ?_⟩
  generalize familyBits network.isIpv6 = w at *
  obtain ⟨k, hk⟩ : ∃ k, w - bits' = (w - bits) + k := ⟨(w - bits') - (w - bits), by omega⟩
  rw [hk, Nat.pow_add, ← Nat.div_div_eq_div_mul, ← Nat.div_div_eq_div_mul, hbits]

end InNetwork

/-- A number of the same leading bits as another, but not one bit further. -/
theorem exists_diverging {w few many n : Nat} (hlt : few < many) (hle : many ≤ w) (hn : n < 2 ^ w) :
    ∃ m, m < 2 ^ w ∧ m / 2 ^ (w - few) = n / 2 ^ (w - few) ∧ m / 2 ^ (w - many) ≠ n / 2 ^ (w - many) := by
  -- The first bit after the shared ones is turned over.
  obtain ⟨shift, hshift⟩ : ∃ shift, w - few = shift + 1 := ⟨w - few - 1, by omega⟩
  obtain ⟨further, hfurther⟩ : ∃ further, shift = (w - many) + further := ⟨shift - (w - many), by omega⟩
  have hw : w = few + (shift + 1) := by omega
  let q := n / 2 ^ shift
  let flipped := 2 * (q / 2) + (1 - q % 2)
  have hq : q / 2 = n / 2 ^ (w - few) := by rw [hshift, Nat.pow_succ, ← Nat.div_div_eq_div_mul]
  have hqlt : q / 2 < 2 ^ few := by
    rw [hq, hshift]
    apply Nat.div_lt_of_lt_mul
    rwa [← Nat.pow_add, Nat.add_comm, ← hw]
  have hpos : 0 < 2 ^ shift := Nat.two_pow_pos shift
  have hhigh : flipped * 2 ^ shift / 2 ^ shift = flipped := Nat.mul_div_cancel flipped hpos
  have hhalf : flipped / 2 = q / 2 := by omega
  refine ⟨flipped * 2 ^ shift, ?_, ?_, ?_⟩
  · have hflipped : flipped < 2 ^ (few + 1) := by rw [Nat.pow_succ]; omega
    have hsplit : w = (few + 1) + shift := by omega
    rw [hsplit, Nat.pow_add]
    exact Nat.mul_lt_mul_of_pos_right hflipped hpos
  · rw [← hq, hshift, Nat.pow_succ, ← Nat.div_div_eq_div_mul, hhigh, hhalf]
  · intro heq
    have hsame : flipped = q := by
      have := congrArg (· / 2 ^ further) heq
      simp only [Nat.div_div_eq_div_mul, ← Nat.pow_add, ← hfurther] at this
      rwa [hhigh] at this
    omega

/-- Some address leaves a network between two prefix lengths. -/
theorem exists_inNetwork_not_inNetwork (network : IpAddr) {few many : Nat} (hlt : few < many)
    (hle : many ≤ familyBits network.isIpv6) : ∃ a, InNetwork network few a ∧ ¬ InNetwork network many a := by
  cases network with
  | v4 n =>
    obtain ⟨m, hm, hfew, hmany⟩ := exists_diverging hlt hle n.isLt
    exact ⟨.v4 ⟨m, hm⟩, ⟨rfl, hfew⟩, fun h => hmany h.2⟩
  | v6 n =>
    obtain ⟨m, hm, hfew, hmany⟩ := exists_diverging hlt hle n.isLt
    exact ⟨.v6 ⟨m, hm⟩, ⟨rfl, hfew⟩, fun h => hmany h.2⟩

end IpAddr

/-! ## Reading -/

/-- A digit in a base up to sixteen. -/
def digitValue (base : Nat) (c : Char) : Option Nat :=
  let v :=
    if c.isDigit then some (c.toNat - '0'.toNat)
    else if 'a' ≤ c ∧ c ≤ 'f' then some (c.toNat - 'a'.toNat + 10)
    else if 'A' ≤ c ∧ c ≤ 'F' then some (c.toNat - 'A'.toNat + 10)
    else none
  v.filter (· < base)

/-- The leading digits, as many as there are. -/
def readDigits (base : Nat) : Chars → Nat × List Nat × Chars
  | [] => (0, [], [])
  | c :: cs =>
    match digitValue base c with
    | none => (0, [], c :: cs)
    | some d =>
      let (count, ds, rest) := readDigits base cs
      (count + 1, d :: ds, rest)

/-- A number of at most so many digits, below a bound. -/
def readNumber (base maxDigits bound : Nat) (allowZeroPrefix : Bool) (s : Chars) : Option (Nat × Chars) :=
  let (count, ds, rest) := readDigits base s
  if count = 0 ∨ maxDigits < count then none
  else if !allowZeroPrefix && ds.head? == some 0 && 1 < count then none
  else
    (let n := ds.foldl (fun acc d => acc * base + d) 0
    if n < bound then some (n, rest) else none)

/-- A separator in front of all but the first item. -/
def readSeparator (sep : Char) (index : Nat) (s : Chars) : Option Chars :=
  if index = 0 then some s
  else
    match s with
    | c :: cs => if c = sep then some cs else none
    | [] => none

/-- `n` octets, from the one with this index on. -/
def readOctets : Nat → Nat → Chars → Option (List Nat × Chars)
  | 0, _, s => some ([], s)
  | n + 1, index, s => do
    let s ← readSeparator '.' index s
    let (octet, s) ← readNumber 10 3 256 false s
    let (rest, s) ← readOctets n (index + 1) s
    some (octet :: rest, s)

def readIpv4 (s : Chars) : Option (Nat × Chars) :=
  match readOctets 4 0 s with
  | some (octets, rest) => some (octets.foldl (fun acc o => acc * 256 + o) 0, rest)
  | none => none

/-- Groups of an IPv6 address, at most `limit` more, with whether the last two were
written as an IPv4 address. -/
def readGroups : Nat → Nat → Chars → List Nat × Bool × Chars
  | 0, _, s => ([], false, s)
  | limit + 1, index, s =>
    let ipv4 := if limit = 0 then none else (readSeparator ':' index s).bind readIpv4
    match ipv4 with
    | some (a, rest) => ([a / 65536, a % 65536], true, rest)
    | none =>
      match (readSeparator ':' index s).bind (readNumber 16 4 65536 true) with
      | none => ([], false, s)
      | some (group, rest) =>
        let (groups, embedded, rest) := readGroups limit (index + 1) rest
        (group :: groups, embedded, rest)

def ipv6OfGroups (groups : List Nat) : Nat := groups.foldl (fun acc g => acc * 65536 + g) 0

def readIpv6 (s : Chars) : Option (Nat × Chars) :=
  let (head, embedded, rest) := readGroups 8 0 s
  if head.length = 8 then some (ipv6OfGroups head, rest)
  else if embedded then none
  else
    match rest with
    | ':' :: ':' :: rest =>
      let (tail, _, rest) := readGroups (7 - head.length) 0 rest
      some (ipv6OfGroups (head ++ List.replicate (8 - head.length - tail.length) 0 ++ tail), rest)
    | _ => none

/-- `IpAddr::from_str` -/
def parseIpAddr (s : Chars) : Option IpAddr :=
  match readIpv4 s with
  | some (a, []) => some (.v4 (Fin.ofNat _ a))
  | some _ => none
  | none =>
    match readIpv6 s with
    | some (a, []) => some (.v6 (Fin.ofNat _ a))
    | _ => none

example : parseIpAddr "10.0.0.1".toList = some (.v4 167772161) := by decide
example : parseIpAddr "010.0.0.1".toList = none := by decide
example : parseIpAddr "::ffff:1.2.3.4".toList = some (.v6 281470698652420) := by decide

/-! ## The characters of an address -/

/-- A text read up to its rest, all of one kind of characters. -/
def Reads (ok : Char → Prop) (s rest : Chars) : Prop := ∃ used, s = used ++ rest ∧ ∀ c ∈ used, ok c

namespace Reads

variable {ok ok' : Char → Prop} {s t u : Chars} {c : Char}

theorem refl (s : Chars) : Reads ok s s := ⟨[], rfl, by simp⟩

theorem cons (hc : ok c) (h : Reads ok s t) : Reads ok (c :: s) t := by
  obtain ⟨used, rfl, hall⟩ := h
  exact ⟨c :: used, rfl, List.forall_mem_cons.mpr ⟨hc, hall⟩⟩

theorem trans (h : Reads ok s t) (h' : Reads ok t u) : Reads ok s u := by
  obtain ⟨used, rfl, hall⟩ := h
  obtain ⟨more, rfl, hmore⟩ := h'
  exact ⟨used ++ more, (List.append_assoc _ _ _).symm, List.forall_mem_append.mpr ⟨hall, hmore⟩⟩

theorem mono (hle : ∀ c, ok c → ok' c) (h : Reads ok s t) : Reads ok' s t := by
  obtain ⟨used, rfl, hall⟩ := h
  exact ⟨used, rfl, fun c hc => hle c (hall c hc)⟩

theorem all (h : Reads ok s []) : ∀ c ∈ s, ok c := by
  obtain ⟨used, rfl, hall⟩ := h
  rwa [List.append_nil]

theorem mem (h : Reads ok s t) (hc : c ∈ t) : c ∈ s := by
  obtain ⟨used, rfl, -⟩ := h
  exact List.mem_append_right _ hc

end Reads

def isHexDigit (c : Char) : Bool := c.isDigit || ('a' ≤ c && c ≤ 'f') || ('A' ≤ c && c ≤ 'F')

theorem isHexDigit_of_digitValue {base : Nat} {c : Char} (h : (digitValue base c).isSome = true) : isHexDigit c = true := by
  unfold digitValue at h
  unfold isHexDigit
  dsimp only at h
  split at h
  · next hd => simp [hd]
  · split at h
    · next ha => simp [ha.1, ha.2]
    · split at h
      · next ha => simp [ha.1, ha.2]
      · cases h

theorem isDigit_of_digitValue {c : Char} (h : (digitValue 10 c).isSome = true) : c.isDigit = true := by
  unfold digitValue at h
  dsimp only at h
  split at h
  · assumption
  · split at h
    · simp at h <;> omega
    · split at h
      · simp at h <;> omega
      · cases h

theorem reads_readDigits (base : Nat) (s : Chars) :
    Reads (fun c => (digitValue base c).isSome = true) s (readDigits base s).2.2 := by
  induction s with
  | nil => exact .refl []
  | cons c cs ih =>
    unfold readDigits
    cases hd : digitValue base c with
    | none => exact .refl _
    | some d => exact .cons (by rw [hd]; rfl) ih

theorem reads_readNumber {base maxDigits bound n : Nat} {allowZeroPrefix : Bool} {s rest : Chars}
    (h : readNumber base maxDigits bound allowZeroPrefix s = some (n, rest)) :
    Reads (fun c => (digitValue base c).isSome = true) s rest := by
  have hreads := reads_readDigits base s
  unfold readNumber at h
  dsimp only at h
  split at h
  · cases h
  · split at h
    · cases h
    · split at h
      · cases h
        exact hreads
      · cases h

theorem reads_readSeparator {sep : Char} {index : Nat} {s rest : Chars} (h : readSeparator sep index s = some rest) :
    Reads (· = sep) s rest := by
  unfold readSeparator at h
  split at h
  · cases h
    exact .refl s
  · split at h
    · next c cs =>
      split at h
      · next hc =>
        cases h
        exact .cons hc (.refl _)
      · cases h
    · cases h

/-- What the dotted form is written with. -/
def IsOctetChar (c : Char) : Prop := c.isDigit = true ∨ c = '.'

/-- What an address is written with. -/
def IsAddressChar (c : Char) : Prop := isHexDigit c = true ∨ c = '.' ∨ c = ':'

theorem IsOctetChar.isAddressChar {c : Char} (h : IsOctetChar c) : IsAddressChar c := by
  obtain h | h := h
  · exact .inl (by simp [isHexDigit, h])
  · exact .inr (.inl h)

theorem reads_readOctets {n index : Nat} {s rest : Chars} {octets : List Nat}
    (h : readOctets n index s = some (octets, rest)) : Reads IsOctetChar s rest := by
  induction n generalizing index s octets with
  | zero =>
    cases h
    exact .refl _
  | succ n ih =>
    unfold readOctets at h
    obtain ⟨s₁, hsep, h⟩ := Option.bind_eq_some_iff.mp h
    obtain ⟨⟨octet, s₂⟩, hnumber, h⟩ := Option.bind_eq_some_iff.mp h
    obtain ⟨⟨others, s₃⟩, hrest, h⟩ := Option.bind_eq_some_iff.mp h
    cases h
    have hdot : Reads IsOctetChar s s₁ := (reads_readSeparator hsep).mono fun c hc => .inr hc
    have hdigits : Reads IsOctetChar s₁ s₂ := (reads_readNumber hnumber).mono fun c hc => .inl (isDigit_of_digitValue hc)
    exact hdot.trans (hdigits.trans (ih hrest))

theorem reads_readIpv4 {s rest : Chars} {a : Nat} (h : readIpv4 s = some (a, rest)) : Reads IsOctetChar s rest := by
  unfold readIpv4 at h
  split at h
  · next octets rest' hoctets =>
    cases h
    exact reads_readOctets hoctets
  · cases h

theorem reads_readGroups (limit index : Nat) (s : Chars) : Reads IsAddressChar s (readGroups limit index s).2.2 := by
  induction limit generalizing index s with
  | zero => exact .refl _
  | succ limit ih =>
    have hcolon : ∀ {s'}, readSeparator ':' index s = some s' → Reads IsAddressChar s s' := fun h =>
      (reads_readSeparator h).mono fun c hc => .inr (.inr hc)
    unfold readGroups
    dsimp only
    split
    · next a rest hipv4 =>
      split at hipv4
      · cases hipv4
      · obtain ⟨s₁, hsep, hread⟩ := Option.bind_eq_some_iff.mp hipv4
        exact (hcolon hsep).trans ((reads_readIpv4 hread).mono fun c => IsOctetChar.isAddressChar)
    · split
      · exact .refl s
      · next group rest hgroup =>
        obtain ⟨s₁, hsep, hread⟩ := Option.bind_eq_some_iff.mp hgroup
        have hdigits : Reads IsAddressChar s₁ rest := (reads_readNumber hread).mono fun c hc => .inl (isHexDigit_of_digitValue hc)
        exact (hcolon hsep).trans (hdigits.trans (ih (index + 1) rest))

theorem reads_readIpv6 {s rest : Chars} {a : Nat} (h : readIpv6 s = some (a, rest)) : Reads IsAddressChar s rest := by
  have hhead := reads_readGroups 8 0 s
  unfold readIpv6 at h
  dsimp only at h
  split at h
  · cases h
    exact hhead
  · split at h
    · cases h
    · split at h
      · next rest' heq =>
        cases h
        rw [heq] at hhead
        exact hhead.trans (.cons (.inr (.inr rfl)) (.cons (.inr (.inr rfl)) (reads_readGroups _ 0 rest')))
      · cases h

/-- An address is written with hexadecimal digits, dots and colons. -/
theorem isAddressChar_of_parseIpAddr {s : Chars} {a : IpAddr} (h : parseIpAddr s = some a) : ∀ c ∈ s, IsAddressChar c := by
  unfold parseIpAddr at h
  split at h
  · next n hipv4 => exact ((reads_readIpv4 hipv4).mono fun c => IsOctetChar.isAddressChar).all
  · cases h
  · split at h
    · next n hipv6 => exact (reads_readIpv6 hipv6).all
    · cases h

/-- A group that is not the first stands behind a colon. -/
theorem colon_of_readGroups {limit index : Nat} {s : Chars} (h : (readGroups limit (index + 1) s).1 ≠ []) : ':' ∈ s := by
  have hcolon : ∀ {s'}, readSeparator ':' (index + 1) s = some s' → ':' ∈ s := by
    intro s' hsep
    unfold readSeparator at hsep
    rw [if_neg (Nat.succ_ne_zero index)] at hsep
    split at hsep
    · next c cs =>
      split at hsep
      · next hc => exact hc ▸ List.mem_cons_self
      · cases hsep
    · cases hsep
  cases limit with
  | zero => exact absurd rfl h
  | succ limit =>
    unfold readGroups at h
    dsimp only at h
    split at h
    · next a rest hipv4 =>
      split at hipv4
      · cases hipv4
      · obtain ⟨s₁, hsep, -⟩ := Option.bind_eq_some_iff.mp hipv4
        exact hcolon hsep
    · split at h
      · exact absurd rfl h
      · next group rest hgroup =>
        obtain ⟨s₁, hsep, -⟩ := Option.bind_eq_some_iff.mp hgroup
        exact hcolon hsep

/-- Eight groups hold a colon. -/
theorem colon_of_eight_groups {s : Chars} (h : (readGroups 8 0 s).1.length = 8) : ':' ∈ s := by
  unfold readGroups at h
  dsimp only at h
  split at h
  · simp at h
  · split at h
    · simp at h
    · next group rest hgroup =>
      obtain ⟨s₁, hsep, hread⟩ := Option.bind_eq_some_iff.mp hgroup
      have hmore : (readGroups 7 1 rest).1 ≠ [] := by
        intro hnil
        have hseven : (readGroups 7 1 rest).1.length = 7 := by simpa using h
        rw [hnil] at hseven
        cases hseven
      exact (reads_readSeparator hsep).mem ((reads_readNumber hread).mem (colon_of_readGroups hmore))

theorem colon_of_readIpv6 {s rest : Chars} {a : Nat} (h : readIpv6 s = some (a, rest)) : ':' ∈ s := by
  unfold readIpv6 at h
  dsimp only at h
  split at h
  · next height => exact colon_of_eight_groups height
  · split at h
    · cases h
    · split at h
      · next rest' heq =>
        refine (reads_readGroups 8 0 s).mem ?_
        rw [heq]
        exact List.mem_cons_self
      · cases h

/-- The family of an address shows in its text. -/
theorem isIpv6_iff_colon {s : Chars} {a : IpAddr} (h : parseIpAddr s = some a) : a.isIpv6 = true ↔ ':' ∈ s := by
  unfold parseIpAddr at h
  split at h
  · next n hipv4 =>
    cases h
    refine ⟨fun hfamily => (by cases hfamily), fun hcolon => ?_⟩
    obtain hdigit | hdot := (reads_readIpv4 hipv4).all ':' hcolon
    · cases hdigit
    · cases hdot
  · cases h
  · split at h
    · next n hipv6 =>
      cases h
      exact ⟨fun _ => colon_of_readIpv6 hipv6, fun _ => rfl⟩
    · cases h

end LinuxHardener.LineText
