import LinuxHardener.Firewall.Statements
import Mathlib.Tactic.IntervalCases

/-
  What the directives can make of the baseline's accepting rules, and how each tool reads
  the numbers in them.

  What is proved:
    1. `ssh_port` and `ssh_protocol` — an accepting SSH rule is about one port of TCP or UDP.
    2. `nftNumber_octal` — a prefix length nft reads as another number is at least 8 to it.
    3. `parseSource_isOk` — what the renderer refuses is what cannot be read as a network.
-/
namespace LinuxHardener.Firewall

open LineText Plugins

/-! ## Fields -/

theorem overrideField_cases (config : PluginConfig) (id action : Chars) (field : Field) (current : Chars) :
    overrideField config id action field current = current ∨
      ∃ requested, fieldOverrideIsAllowed action field current requested = true ∧
        overrideField config id action field current = canonicalFieldValue field requested := by
  unfold overrideField
  cases config.directives (id ++ '.' :: field.name) with
  | none => exact .inl rfl
  | some requested =>
    dsimp only
    split
    · next h => exact .inr ⟨requested, h, rfl⟩
    · exact .inl rfl

/-- On an accepting rule no field comes to match more. -/
theorem allowed_on_accept {field : Field} {baseline requested : Chars} {breadth : FieldBreadth}
    (hb : fieldBreadth field baseline = some breadth)
    (h : fieldOverrideIsAllowed "accept" field baseline requested = true) :
    baseline = requested ∨ ∃ breadth' order, fieldBreadth field requested = some breadth' ∧
      breadthOrder breadth breadth' = some order ∧ order ≠ .gt := by
  unfold fieldOverrideIsAllowed at h
  split at h
  · next heq => exact .inl heq
  · rw [hb] at h
    cases hr : fieldBreadth field requested with
    | none =>
      rw [hr] at h
      cases h
    | some breadth' =>
      rw [hr] at h
      cases ho : breadthOrder breadth breadth' with
      | none =>
        dsimp only at h
        rw [ho] at h
        cases h
      | some order =>
        dsimp only at h
        rw [ho] at h
        have hblocking : isBlocking "accept" = false := by decide
        dsimp only at h
        rw [hblocking, if_neg Bool.false_ne_true, if_pos rfl] at h
        exact .inr ⟨breadth', order, rfl, ho, by simpa using h⟩

theorem splitOnce_decimal {sep : Char} (hsep : sep.isDigit = false) (n : Nat) : splitOnce sep (decimal n) = none := by
  rw [splitOnce_none]
  intro h
  rw [isDigit_decimal h] at hsep
  cases hsep

theorem splitOnce_range {sep : Char} (hsep : sep.isDigit = false) (m n : Nat) :
    splitOnce sep (decimal m ++ sep :: decimal n) = some (decimal m, decimal n) := by
  apply splitOnce_append
  intro h
  rw [isDigit_decimal h] at hsep
  cases hsep

/-- The ways a range of ports may be written. -/
def IsRange (low high : Nat) (port : Chars) : Prop :=
  (low < u16Bound ∧ high < u16Bound) ∧ (low = high ∧ port = decimal low ∨ port = decimal low ++ '-' :: decimal high)

/-- It begins with a digit. -/
theorem IsRange.head {low high : Nat} {port : Chars} (h : IsRange low high port) :
    ∃ c cs, port = c :: cs ∧ c.isDigit = true := by
  obtain ⟨c, cs, hcs⟩ := List.exists_cons_of_ne_nil (decimal_ne_nil low)
  have hdigit : c.isDigit = true := isDigit_decimal (hcs ▸ List.mem_cons_self : c ∈ decimal low)
  obtain ⟨-, he⟩ | he := h.2
  · exact ⟨c, cs, he.trans hcs, hdigit⟩
  · exact ⟨c, cs ++ '-' :: decimal high, by rw [he, hcs]; rfl, hdigit⟩

theorem IsRange.ne {low high : Nat} {port word : Chars} (h : IsRange low high port)
    (hword : (word.head?.any Char.isDigit) = false) : port ≠ word := by
  rintro rfl
  obtain ⟨c, cs, rfl, hdigit⟩ := h.head
  change c.isDigit = false at hword
  rw [hdigit] at hword
  cases hword

theorem IsRange.ne_any {low high : Nat} {port : Chars} (h : IsRange low high port) : port ≠ "any".toList := h.ne rfl

theorem parsePorts_range {low high : Nat} {port : Chars} (h : IsRange low high port) : parsePorts port = some (low, high) := by
  obtain ⟨⟨hlow, hhigh⟩, ⟨rfl, rfl⟩ | rfl⟩ := h
  · rw [parsePorts, splitOnce_decimal rfl]
    dsimp only
    rw [parseUnsigned_decimal hlow]
    rfl
  · rw [parsePorts, splitOnce_range rfl]
    dsimp only
    rw [parseUnsigned_decimal hlow, parseUnsigned_decimal hhigh]
    rfl

/-- A port string is rewritten to what it was read as, or left alone. -/
theorem canonical_cases (requested : Chars) :
    parsePorts requested = none ∧ canonicalFieldValue .port requested = requested ∨
      ∃ low high, parsePorts requested = some (low, high) ∧ IsRange low high (canonicalFieldValue .port requested) := by
  unfold parsePorts canonicalFieldValue
  dsimp only
  cases splitOnce '-' requested with
  | none =>
    dsimp only
    cases hn : parseUnsigned u16Bound requested with
    | none => exact .inl ⟨rfl, rfl⟩
    | some n => exact .inr ⟨n, n, rfl, ⟨parseUnsigned_lt hn, parseUnsigned_lt hn⟩, .inl ⟨rfl, rfl⟩⟩
  | some ends =>
    obtain ⟨lowText, highText⟩ := ends
    dsimp only
    cases hl : parseUnsigned u16Bound lowText with
    | none => exact .inl ⟨rfl, rfl⟩
    | some low =>
      cases hh : parseUnsigned u16Bound highText with
      | none => exact .inl ⟨rfl, rfl⟩
      | some high => exact .inr ⟨low, high, rfl, ⟨parseUnsigned_lt hl, parseUnsigned_lt hh⟩, .inr rfl⟩

/-- The ways one port may be written. -/
def IsOnePort (n : Nat) (port : Chars) : Prop :=
  n < u16Bound ∧ (port = decimal n ∨ port = decimal n ++ '-' :: decimal n)

theorem IsOnePort.isRange {n : Nat} {port : Chars} (h : IsOnePort n port) : IsRange n n port :=
  ⟨⟨h.1, h.1⟩, h.2.imp_left fun he => ⟨rfl, he⟩⟩

theorem IsRange.isOnePort {n : Nat} {port : Chars} (h : IsRange n n port) : IsOnePort n port :=
  ⟨h.1.1, h.2.imp_left And.right⟩

theorem parsePorts_eq {n : Nat} {port : Chars} (h : IsOnePort n port) : parsePorts port = some (n, n) :=
  parsePorts_range h.isRange

/-- A value of a breadth of one port is canonically written as one port. -/
theorem isOnePort_canonical {requested : Chars} {low : Nat} (h : parsePorts requested = some (low, low)) :
    IsOnePort low (canonicalFieldValue .port requested) := by
  obtain ⟨hnone, -⟩ | ⟨l, u, hread, hrange⟩ := canonical_cases requested
  · rw [hnone] at h
    cases h
  · rw [hread] at h
    cases h
    exact hrange.isOnePort

/-- An accepting SSH rule is about one port. -/
theorem ssh_port (config : PluginConfig) (id : Chars) :
    ∃ n, IsOnePort n (overrideField config id "accept" .port "22") := by
  rcases overrideField_cases config id "accept" .port "22" with h | ⟨requested, ha, h⟩
  · exact ⟨22, by decide, .inl (h.trans (by decide))⟩
  · rw [h]
    rcases allowed_on_accept (show fieldBreadth .port "22" = some (.ports 1) by decide) ha with rfl | ⟨breadth, order, hb, ho, hne⟩
    · exact ⟨22, isOnePort_canonical (by decide)⟩
    · unfold fieldBreadth portBreadth at hb
      dsimp only at hb
      split at hb
      · cases hb
        cases ho
        exact absurd rfl hne
      · cases hp : parsePorts requested with
        | none =>
          rw [hp] at hb
          cases hb
        | some ends =>
          obtain ⟨low, high⟩ := ends
          rw [hp] at hb
          change (if high < low then none else some (FieldBreadth.ports (high - low + 1))) = some breadth at hb
          split at hb
          · cases hb
          · cases hb
            cases ho
            have hone : high = low := by
              have : ¬ 1 < high - low + 1 := fun hgt => hne (Nat.compare_eq_gt.mpr hgt)
              omega
            exact ⟨low, isOnePort_canonical (hone ▸ hp)⟩

/-- An accepting SSH rule is about TCP or UDP. -/
theorem ssh_protocol (config : PluginConfig) (id : Chars) :
    overrideField config id "accept" .protocol "tcp" = "tcp".toList ∨
      overrideField config id "accept" .protocol "tcp" = "udp".toList := by
  rcases overrideField_cases config id "accept" .protocol "tcp" with h | ⟨requested, ha, h⟩
  · exact .inl h
  · rw [h]
    change requested = _ ∨ requested = _
    rcases allowed_on_accept (show fieldBreadth .protocol "tcp" = some .oneProtocol by decide) ha with rfl | ⟨breadth, order, hb, ho, hne⟩
    · exact .inl rfl
    · unfold fieldBreadth protocolBreadth at hb
      dsimp only at hb
      split at hb
      · cases hb
        cases ho
        exact absurd rfl hne
      · split at hb
        · assumption
        · cases hb

/-- An accepting loopback rule is about some addresses, not about all of them. -/
theorem loopback_source_ne_any (config : PluginConfig) (id : Chars) :
    overrideField config id "accept" .source "127.0.0.1/8" ≠ "any".toList := by
  rcases overrideField_cases config id "accept" .source "127.0.0.1/8" with h | ⟨requested, ha, h⟩
  · rw [h]
    decide
  · rw [h]
    change requested ≠ _
    rcases allowed_on_accept (show fieldBreadth .source "127.0.0.1/8" = some (.addresses false 8) by decide) ha with rfl | ⟨breadth, order, hb, ho, hne⟩
    · decide
    · rintro rfl
      cases hb
      cases ho
      exact hne rfl

/-! ## Numbers -/

theorem head_decimal {n : Nat} (hn : 0 < n) : (decimal n).head? ≠ some '0' := by
  induction n using Nat.strongRecOn with
  | _ n ih =>
    by_cases hlt : n < 10
    · rw [decimal, Nat.toDigits_of_lt_base hlt]
      interval_cases n <;> decide
    · rw [decimal, Nat.toDigits_of_base_le (by decide) (by omega), List.head?_append]
      have hhead := ih (n / 10) (by omega) (by omega)
      rw [decimal] at hhead
      cases h : (Nat.toDigits 10 (n / 10)).head? with
      | none => exact absurd (List.head?_eq_none_iff.mp h) Nat.toDigits_ne_nil
      | some c =>
        rw [h] at hhead
        exact hhead

theorem nftNumber_decimal (n : Nat) : nftNumber (decimal n) = some n := by
  have hplain : (decimal n ≠ [] ∧ (decimal n).all Char.isDigit) :=
    ⟨decimal_ne_nil n, List.all_eq_true.mpr fun c hc => isDigit_decimal hc⟩
  unfold nftNumber
  split
  · next d ds h =>
    have hn : 0 < n := by
      rcases Nat.eq_zero_or_pos n with rfl | hpos
      · cases h
      · exact hpos
    exact absurd (by rw [h]; rfl) (head_decimal hn)
  · rw [if_pos hplain, decimal, Nat.ofDigitChars_ten_toDigits]

/-- What a run of octal digits is in base eight and in base ten, from two accumulators on. -/
theorem ofDigitChars_octal {ds : Chars} (h : ds.all isOctal = true) {eight ten : Nat} (hle : eight ≤ ten)
    (hsmall : eight < 8 → ten = eight) :
    Nat.ofDigitChars 8 ds eight ≤ Nat.ofDigitChars 10 ds ten ∧
      (Nat.ofDigitChars 8 ds eight < 8 → Nat.ofDigitChars 10 ds ten = Nat.ofDigitChars 8 ds eight) := by
  induction ds generalizing eight ten with
  | nil => exact ⟨hle, hsmall⟩
  | cons d ds ih =>
    rw [Nat.ofDigitChars_cons, Nat.ofDigitChars_cons]
    rw [List.all_cons, Bool.and_eq_true] at h
    apply ih h.2
    · omega
    · intro hlt
      omega

theorem isDigit_of_isOctal {c : Char} (h : isOctal c = true) : c.isDigit = true := by
  rw [isOctal, Bool.and_eq_true, decide_eq_true_eq, decide_eq_true_eq] at h
  have hle : c ≤ '9' := le_trans h.2 (by decide)
  rw [Char.isDigit, Bool.and_eq_true]
  exact ⟨decide_eq_true h.1, decide_eq_true hle⟩

/-- Where nft reads a prefix length as another number, both numbers are at least 8. -/
theorem nftNumber_octal {s : Chars} {n m : Nat} (hn : nftNumber s = some n) (hm : parseUnsigned u8Bound s = some m)
    (hne : n ≠ m) : 8 ≤ n ∧ n < m := by
  unfold nftNumber at hn
  split at hn
  · next d ds =>
    split at hn
    · next hall =>
      have hdigits : ('0' :: d :: ds).all Char.isDigit = true := by
        rw [List.all_cons, Bool.and_eq_true]
        exact ⟨rfl, List.all_eq_true.mpr fun c hc => isDigit_of_isOctal (List.all_eq_true.mp hall c hc)⟩
      rw [parseUnsigned_of_digits hdigits, parseDigits_eq_some, Nat.ofDigitChars_cons] at hm
      have hten : Nat.ofDigitChars 10 (d :: ds) 0 = m := hm.2.1
      have height : Nat.ofDigitChars 8 (d :: ds) 0 = n := Option.some.inj hn
      obtain ⟨hle, hsmall⟩ := ofDigitChars_octal hall (Nat.le_refl 0) fun _ => rfl
      omega
    · cases hn
  · next ds _ =>
    split at hn
    · next hdigits =>
      rw [parseUnsigned_of_digits hdigits.2, parseDigits_eq_some] at hm
      exact absurd ((Option.some.inj hn).symm.trans hm.2.1) hne
    · cases hn

/-! ## Networks -/

theorem readNetwork_eq_some {readBits : Chars → Option Nat} {source : Chars} {n : Network} :
    readNetwork readBits source = some n ↔
      (splitOnce '/' source = none ∧ parseIpAddr source = some n.address ∧ n.bits = IpAddr.familyBits n.address.isIpv6) ∨
      ∃ address bits, splitOnce '/' source = some (address, bits) ∧ parseIpAddr address = some n.address ∧
        readBits bits = some n.bits ∧ n.bits ≤ IpAddr.familyBits n.address.isIpv6 := by
  obtain ⟨address, bits⟩ := n
  unfold readNetwork
  cases splitOnce '/' source with
  | none =>
    cases parseIpAddr source with
    | none => simp
    | some a =>
      simp only [Option.map_some, Option.some.injEq, Network.mk.injEq, true_and, reduceCtorEq, false_and, exists_false, or_false]
      constructor
      · rintro ⟨rfl, rfl⟩
        exact ⟨rfl, rfl⟩
      · rintro ⟨rfl, rfl⟩
        exact ⟨rfl, rfl⟩
  | some parts =>
    obtain ⟨addressText, bitsText⟩ := parts
    simp only [reduceCtorEq, false_and, false_or, Option.some.injEq, Prod.mk.injEq]
    constructor
    · intro h
      refine ⟨addressText, bitsText, ⟨rfl, rfl⟩, ?_⟩
      split at h
      · next ha hb =>
        split at h
        · cases h
        · next hle =>
          cases h
          exact ⟨ha, hb, Nat.le_of_not_lt hle⟩
      · cases h
    · rintro ⟨_, _, ⟨rfl, rfl⟩, ha, hb, hle⟩
      rw [ha, hb]
      exact if_neg (Nat.not_lt.mpr hle)

/-- What the renderer refuses is what cannot be read as a network. -/
theorem parseSource_isOk {source : Chars} : (∃ a, parseSource source = .ok a) ↔ ∃ n, sourceNetwork source = some n := by
  unfold parseSource sourceNetwork readNetwork
  cases splitOnce '/' source with
  | none =>
    dsimp only
    cases parseIpAddr source <;> simp
  | some parts =>
    obtain ⟨address, bits⟩ := parts
    dsimp only
    cases parseIpAddr address with
    | none => simp
    | some a =>
      cases parseUnsigned u8Bound bits with
      | none => simp
      | some n =>
        dsimp only
        split <;> simp

end LinuxHardener.Firewall
