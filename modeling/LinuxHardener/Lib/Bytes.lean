import Mathlib.Data.List.Lex
import Mathlib.Data.List.Sort
import Mathlib.Data.UInt
import Mathlib.Order.Nat
import Mathlib.Tactic.Common

/-
  Byte strings: the UTF-8 of a text, and fixed-width big-endian numbers.
-/
namespace LinuxHardener

abbrev Bytes := List UInt8

/-- The UTF-8 of a text. -/
def utf8 (s : String) : Bytes := s.toByteArray.data.toList

@[simp] theorem utf8_empty : utf8 "" = [] := rfl

@[simp] theorem utf8_append (s t : String) : utf8 (s ++ t) = utf8 s ++ utf8 t := by
  simp [utf8]

theorem utf8_injective {s t : String} (h : utf8 s = utf8 t) : s = t := by
  apply String.toByteArray_inj.mp
  apply ByteArray.ext
  exact Array.toList_inj.mp h

@[simp] theorem utf8_inj {s t : String} : utf8 s = utf8 t ↔ s = t :=
  ⟨utf8_injective, congrArg utf8⟩

@[simp] theorem utf8_eq_nil {s : String} : utf8 s = [] ↔ s = "" := by
  rw [← utf8_empty, utf8_inj]

/-- A text's bytes are those of its characters, one after another. -/
theorem utf8_ofList (cs : List Char) : utf8 (String.ofList cs) = cs.flatMap String.utf8EncodeChar := by
  simp [utf8, List.utf8Encode]

/-- A character's bytes lie no lower than a bound below 128 that the character keeps. -/
theorem le_of_mem_utf8EncodeChar {c : Char} {n : Nat} (hn : n ≤ 128) (hc : n ≤ c.toNat) :
    ∀ b ∈ String.utf8EncodeChar c, n ≤ b.toNat := by
  have hv : c.val.toNat = c.toNat := rfl
  intro b hb
  unfold String.utf8EncodeChar at hb
  simp only [hv] at hb
  split at hb
  · obtain rfl := List.mem_singleton.mp hb
    rw [UInt8.toNat_ofNat']
    omega
  · -- every byte of a longer sequence is at least 128
    have hge : ∀ x, x < 256 → 128 ≤ x → n ≤ (UInt8.ofNat x).toNat := by
      intro x hx h
      rw [UInt8.toNat_ofNat']
      omega
    (repeat' split at hb) <;> simp only [List.mem_cons, List.not_mem_nil, or_false] at hb <;>
      rcases hb with rfl | rfl | rfl | rfl <;> exact hge _ (by omega) (by omega)

/-- A text keeps such a bound if its characters do. -/
theorem le_of_mem_utf8 {s : String} {n : Nat} (hn : n ≤ 128) (hs : ∀ c ∈ s.toList, n ≤ c.toNat) :
    ∀ b ∈ utf8 s, n ≤ b.toNat := by
  intro b hb
  rw [← String.ofList_toList (s := s), utf8_ofList] at hb
  obtain ⟨c, hc, hbc⟩ := List.mem_flatMap.mp hb
  exact le_of_mem_utf8EncodeChar hn (hs c hc) b hbc

/-- Whether these bytes are the UTF-8 of some text. -/
def validUtf8 (b : Bytes) : Bool := decide (ByteArray.IsValidUTF8 ⟨b.toArray⟩)

@[simp] theorem validUtf8_utf8 (s : String) : validUtf8 (utf8 s) = true := by
  have h : (⟨(utf8 s).toArray⟩ : ByteArray) = s.toByteArray := by simp [utf8]
  rw [validUtf8, h]
  exact decide_eq_true s.isValidUTF8

/-- The text these bytes are the UTF-8 of. -/
def ofUtf8 (b : Bytes) : Option String :=
  if h : ByteArray.IsValidUTF8 ⟨b.toArray⟩ then some (String.fromUTF8 ⟨b.toArray⟩ h) else none

@[simp] theorem ofUtf8_utf8 (s : String) : ofUtf8 (utf8 s) = some s := by
  have h : (⟨(utf8 s).toArray⟩ : ByteArray) = s.toByteArray := by simp [utf8]
  have hv : ByteArray.IsValidUTF8 ⟨(utf8 s).toArray⟩ := h ▸ s.isValidUTF8
  rw [ofUtf8, dif_pos hv]
  congr 1

/-- How many bytes follow a lead byte, and between which bounds the first of them lies. -/
def leadByte (b : UInt8) : Nat × UInt8 × UInt8 :=
  if b < 0xC2 then (0, 0, 0)
  else if b < 0xE0 then (1, 0x80, 0xBF)
  else if b < 0xF0 then (2, if b = 0xE0 then 0xA0 else 0x80, if b = 0xED then 0x9F else 0xBF)
  else if b < 0xF5 then (3, if b = 0xF0 then 0x90 else 0x80, if b = 0xF4 then 0x8F else 0xBF)
  else (0, 0, 0)

/-- The bytes that continue a character, as far as they do. -/
def takeContinuation : Nat → UInt8 → UInt8 → Bytes → Bytes
  | n + 1, lo, hi, b :: bs => if lo ≤ b ∧ b ≤ hi then b :: takeContinuation n 0x80 0xBF bs else []
  | _, _, _, _ => []

/-- At most `n` steps: a character, or one replacement for what begins none. -/
def decodeLossy : Nat → Bytes → String
  | n + 1, b :: bs =>
    let follow := leadByte b
    let rest := takeContinuation follow.1 follow.2.1 follow.2.2 bs
    (ofUtf8 (b :: rest)).getD "\uFFFD" ++ decodeLossy n (bs.drop rest.length)
  | _, _ => ""

/-- `String::from_utf8_lossy` -/
def ofUtf8Lossy (b : Bytes) : String := (ofUtf8 b).getD (decodeLossy b.length b)

@[simp] theorem ofUtf8Lossy_utf8 (s : String) : ofUtf8Lossy (utf8 s) = s := by
  rw [ofUtf8Lossy, ofUtf8_utf8, Option.getD_some]

/-- Bytes that are the UTF-8 of a text come back from it. -/
theorem utf8_ofUtf8Lossy {b : Bytes} (h : validUtf8 b = true) : utf8 (ofUtf8Lossy b) = b := by
  rw [ofUtf8Lossy, ofUtf8, dif_pos (of_decide_eq_true h)]
  rfl

theorem validUtf8_append {a b : Bytes} (ha : validUtf8 a = true) (hb : validUtf8 b = true) :
    validUtf8 (a ++ b) = true := by
  have h : (⟨(a ++ b).toArray⟩ : ByteArray) = ⟨a.toArray⟩ ++ ⟨b.toArray⟩ := by
    apply ByteArray.ext
    simp
  rw [validUtf8, h]
  exact decide_eq_true ((of_decide_eq_true ha).append (of_decide_eq_true hb))

/-- `u32::to_be_bytes`. -/
def be32 (x : UInt32) : Bytes :=
  [(x >>> 24).toUInt8, (x >>> 16).toUInt8, (x >>> 8).toUInt8, x.toUInt8]

/-- The last `n` base-256 digits, most significant first. -/
def beNat : Nat → Nat → Bytes
  | 0, _ => []
  | n + 1, x => beNat n (x / 256) ++ [UInt8.ofNat x]

/-- `i64::to_be_bytes` and `u64::to_be_bytes`. -/
def be64 (x : BitVec 64) : Bytes := beNat 8 x.toNat

@[simp] theorem length_be32 (x : UInt32) : (be32 x).length = 4 := rfl

@[simp] theorem length_beNat (n x : Nat) : (beNat n x).length = n := by
  induction n generalizing x with
  | zero => rfl
  | succ n ih => simp [beNat, ih]

@[simp] theorem length_be64 (x : BitVec 64) : (be64 x).length = 8 := length_beNat 8 _

theorem be32_injective {x y : UInt32} (h : be32 x = be32 y) : x = y := by
  simp only [be32, List.cons.injEq, and_true] at h
  obtain ⟨h3, h2, h1, h0⟩ := h
  have e3 := congrArg UInt8.toNat h3
  have e2 := congrArg UInt8.toNat h2
  have e1 := congrArg UInt8.toNat h1
  have e0 := congrArg UInt8.toNat h0
  simp [UInt32.toNat_shiftRight, Nat.shiftRight_eq_div_pow] at e3 e2 e1 e0
  have := x.toNat_lt
  have := y.toNat_lt
  apply UInt32.toNat_inj.mp
  omega

end LinuxHardener
