import LinuxHardener.Lib.Bytes
import Mathlib.Tactic.IntervalCases

/-
  Compact JSON: a writer and a reader.

  The writer is that of a compact serialiser: no blanks, members in the order they
  are given, only `"`, `\` and control characters escaped. The reader reads back
  what the writer writes; it takes no blanks either.

  What is proved:
    1. `read_write` — reading what was written gives the value back, whatever
       follows (a digit after a number apart).
    2. `write_injective` — so distinct values are written differently.
    3. `printable_write` — a value is written on one line, with no control character.
-/
namespace LinuxHardener

inductive Json where
  | null
  | bool (b : Bool)
  | num (n : Int)
  | str (s : String)
  | arr (xs : List Json)
  | obj (kvs : List (String × Json))

namespace Json

/-! ## Writing -/

def hexDigit (n : Nat) : Char := if n < 10 then Char.ofNat (48 + n) else Char.ofNat (87 + n)

/-- A character inside a string. -/
def writeChar (c : Char) : List Char :=
  if c = '"' then ['\\', '"']
  else if c = '\\' then ['\\', '\\']
  else if c = '\n' then ['\\', 'n']
  else if c = '\r' then ['\\', 'r']
  else if c = '\t' then ['\\', 't']
  else if c = '\x08' then ['\\', 'b']
  else if c = '\x0c' then ['\\', 'f']
  else if c.toNat < 32 then ['\\', 'u', '0', '0', hexDigit (c.toNat / 16), hexDigit (c.toNat % 16)]
  else [c]

def writeString (s : String) : List Char := '"' :: (s.toList.flatMap writeChar ++ ['"'])

def writeNum : Int → List Char
  | .ofNat n => Nat.toDigits 10 n
  | .negSucc n => '-' :: Nat.toDigits 10 (n + 1)

mutual

def write : Json → List Char
  | .null => ['n', 'u', 'l', 'l']
  | .bool true => ['t', 'r', 'u', 'e']
  | .bool false => ['f', 'a', 'l', 's', 'e']
  | .num n => writeNum n
  | .str s => writeString s
  | .arr [] => ['[', ']']
  | .arr (x :: xs) => '[' :: (write x ++ writeItems xs)
  | .obj [] => ['{', '}']
  | .obj ((k, v) :: kvs) => '{' :: (writeString k ++ ':' :: (write v ++ writeMembers kvs))

/-- The items after the first one, and the bracket that closes. -/
def writeItems : List Json → List Char
  | [] => [']']
  | x :: xs => ',' :: (write x ++ writeItems xs)

/-- The members after the first one, and the brace that closes. -/
def writeMembers : List (String × Json) → List Char
  | [] => ['}']
  | (k, v) :: kvs => ',' :: (writeString k ++ ':' :: (write v ++ writeMembers kvs))

end

/-- The text of a value. -/
def text (x : Json) : String := String.ofList (write x)

/-! ## Reading -/

def hexValue (c : Char) : Nat := if c.toNat < 58 then c.toNat - 48 else c.toNat - 87

/-- One character of a string. -/
def readChar : List Char → Option (Char × List Char)
  | '\\' :: 'u' :: _ :: _ :: a :: b :: cs => some (Char.ofNat (16 * hexValue a + hexValue b), cs)
  | '\\' :: c :: cs =>
    if c = 'n' then some ('\n', cs)
    else if c = 'r' then some ('\r', cs)
    else if c = 't' then some ('\t', cs)
    else if c = 'b' then some ('\x08', cs)
    else if c = 'f' then some ('\x0c', cs)
    else some (c, cs)
  | c :: cs => some (c, cs)
  | [] => none

/-- The characters of a string up to the quote that closes it. -/
def readChars : Nat → List Char → Option (List Char × List Char)
  | 0, _ => none
  | f + 1, cs =>
    if cs.head? = some '"' then some ([], cs.tail)
    else do
      let (c, cs) ← readChar cs
      let (s, cs) ← readChars f cs
      some (c :: s, cs)

def readString (f : Nat) : List Char → Option (String × List Char)
  | '"' :: cs => (readChars f cs).map (fun r => (String.ofList r.1, r.2))
  | _ => none

def readNat (cs : List Char) : Option (Nat × List Char) :=
  if cs.takeWhile Char.isDigit = [] then none
  else some (Nat.ofDigitChars 10 (cs.takeWhile Char.isDigit) 0, cs.dropWhile Char.isDigit)

def readNum : List Char → Option (Int × List Char)
  | '-' :: cs => (readNat cs).map (fun r => (-(r.1 : Int), r.2))
  | cs => (readNat cs).map (fun r => ((r.1 : Int), r.2))

mutual

def read : Nat → List Char → Option (Json × List Char)
  | 0, _ => none
  | f + 1, '"' :: cs => (readString (f + 1) ('"' :: cs)).map (fun r => (.str r.1, r.2))
  | f + 1, '[' :: cs =>
    match read f cs with
    | some (x, cs) => (readItems f cs).map (fun r => (.arr (x :: r.1), r.2))
    | none => if cs.head? = some ']' then some (.arr [], cs.tail) else none
  | f + 1, '{' :: cs =>
    match readMember f cs with
    | some (kv, cs) => (readMembers f cs).map (fun r => (.obj (kv :: r.1), r.2))
    | none => if cs.head? = some '}' then some (.obj [], cs.tail) else none
  | _ + 1, 'n' :: 'u' :: 'l' :: 'l' :: cs => some (.null, cs)
  | _ + 1, 't' :: 'r' :: 'u' :: 'e' :: cs => some (.bool true, cs)
  | _ + 1, 'f' :: 'a' :: 'l' :: 's' :: 'e' :: cs => some (.bool false, cs)
  | _ + 1, cs => (readNum cs).map (fun r => (.num r.1, r.2))

def readItems : Nat → List Char → Option (List Json × List Char)
  | 0, _ => none
  | _ + 1, ']' :: cs => some ([], cs)
  | f + 1, ',' :: cs =>
    match read f cs with
    | some (x, cs) => (readItems f cs).map (fun r => (x :: r.1, r.2))
    | none => none
  | _ + 1, _ => none

def readMember : Nat → List Char → Option ((String × Json) × List Char)
  | 0, _ => none
  | f + 1, cs =>
    match readString f cs with
    | some (k, ':' :: cs) => (read f cs).map (fun r => ((k, r.1), r.2))
    | _ => none

def readMembers : Nat → List Char → Option (List (String × Json) × List Char)
  | 0, _ => none
  | _ + 1, '}' :: cs => some ([], cs)
  | f + 1, ',' :: cs =>
    match readMember f cs with
    | some (kv, cs) => (readMembers f cs).map (fun r => (kv :: r.1, r.2))
    | none => none
  | _ + 1, _ => none

end

/-- A whole text. -/
def ofText (s : String) : Option Json :=
  match read (s.toList.length + 1) s.toList with
  | some (x, []) => some x
  | _ => none

/-! ## Characters, strings, numbers -/

theorem readChar_control {n : Nat} (h : n < 32) (cs : List Char) :
    readChar (['\\', 'u', '0', '0', hexDigit (n / 16), hexDigit (n % 16)] ++ cs) = some (Char.ofNat n, cs) := by
  interval_cases n <;> rfl

theorem readChar_writeChar (c : Char) (cs : List Char) : readChar (writeChar c ++ cs) = some (c, cs) := by
  unfold writeChar
  split
  · next h => rw [h]; rfl
  · split
    · next h => rw [h]; rfl
    · split
      · next h => rw [h]; rfl
      · split
        · next h => rw [h]; rfl
        · split
          · next h => rw [h]; rfl
          · split
            · next h => rw [h]; rfl
            · split
              · next h => rw [h]; rfl
              · split
                · next h => rw [readChar_control h, Char.ofNat_toNat]
                · next hslash _ _ _ _ _ _ => simp [readChar, hslash]

theorem writeChar_head (c : Char) (cs : List Char) : (writeChar c ++ cs).head? ≠ some '"' := by
  unfold writeChar
  split
  · simp
  · next h => (repeat' split) <;> simp [h]

theorem length_writeChar_pos (c : Char) : 0 < (writeChar c).length := by
  unfold writeChar
  (repeat' split) <;> simp

/-- Nothing below the blank: no control character. -/
def Printable (cs : List Char) : Prop := ∀ c ∈ cs, 32 ≤ c.toNat

instance (cs : List Char) : Decidable (Printable cs) := List.decidableBAll (fun c : Char => 32 ≤ c.toNat) cs

theorem printable_append {cs ds : List Char} (hc : Printable cs) (hd : Printable ds) : Printable (cs ++ ds) :=
  fun c h => (List.mem_append.mp h).elim (hc c) (hd c)

theorem printable_cons {c : Char} {cs : List Char} (hc : 32 ≤ c.toNat) (hcs : Printable cs) :
    Printable (c :: cs) := by
  intro d hd
  rcases List.mem_cons.mp hd with rfl | hd
  · exact hc
  · exact hcs d hd

theorem printable_writeChar (c : Char) : Printable (writeChar c) := by
  have hhex : ∀ n, n < 32 → Printable ['\\', 'u', '0', '0', hexDigit (n / 16), hexDigit (n % 16)] := by
    intro n hn
    interval_cases n <;> decide
  have hescape : ∀ d : Char, 32 ≤ d.toNat → Printable ['\\', d] := by
    intro d hd
    exact printable_cons (by decide) (printable_cons hd (by intro c hc; cases hc))
  unfold writeChar
  split
  · exact hescape _ (by decide)
  · split
    · exact hescape _ (by decide)
    · split
      · exact hescape _ (by decide)
      · split
        · exact hescape _ (by decide)
        · split
          · exact hescape _ (by decide)
          · split
            · exact hescape _ (by decide)
            · split
              · exact hescape _ (by decide)
              · split
                · next h => exact hhex _ h
                · next h => exact printable_cons (by omega) (by intro c hc; cases hc)

theorem readChars_write : ∀ (s : List Char) (f : Nat) (cs : List Char),
    (s.flatMap writeChar ++ ['"']).length ≤ f → readChars f (s.flatMap writeChar ++ '"' :: cs) = some (s, cs)
  | [], f, cs, hf => by
    cases f with
    | zero => simp at hf
    | succ f => simp [readChars]
  | c :: s, f, cs, hf => by
    cases f with
    | zero => simp at hf
    | succ f =>
      have hpos := length_writeChar_pos c
      have hlen : (s.flatMap writeChar ++ ['"']).length ≤ f := by
        simp only [List.flatMap_cons, List.length_append] at hf ⊢
        omega
      rw [List.flatMap_cons, List.append_assoc, readChars, if_neg (writeChar_head c _), readChar_writeChar]
      simp [readChars_write s f cs hlen]

theorem readString_write (s : String) (f : Nat) (cs : List Char) (hf : (writeString s).length ≤ f + 1) :
    readString f (writeString s ++ cs) = some (s, cs) := by
  have hlen : (s.toList.flatMap writeChar ++ ['"']).length ≤ f := by
    simpa [writeString] using hf
  rw [writeString, List.cons_append, List.append_assoc, readString, List.singleton_append,
    readChars_write _ _ _ hlen]
  simp

/-- What follows does not begin with a digit. -/
def NoDigit (cs : List Char) : Prop := ∀ c, cs.head? = some c → c.isDigit = false

theorem noDigit_cons {c : Char} (h : c.isDigit = false) (cs : List Char) : NoDigit (c :: cs) := by
  intro d hd
  cases hd
  exact h

theorem readNat_write (n : Nat) {cs : List Char} (h : NoDigit cs) :
    readNat (Nat.toDigits 10 n ++ cs) = some (n, cs) := by
  have hdigits : ∀ c ∈ Nat.toDigits 10 n, c.isDigit = true := fun c hc =>
    Nat.isDigit_of_mem_toDigits (by decide) (by decide) hc
  have htake : cs.takeWhile Char.isDigit = [] := by
    cases cs with
    | nil => rfl
    | cons c cs => simp [h c rfl]
  have hdrop : cs.dropWhile Char.isDigit = cs := by
    cases cs with
    | nil => rfl
    | cons c cs => simp [h c rfl]
  unfold readNat
  rw [List.takeWhile_append_of_pos hdigits, List.dropWhile_append_of_pos hdigits, htake, hdrop, List.append_nil,
    if_neg Nat.toDigits_ne_nil, Nat.ofDigitChars_ten_toDigits]

theorem head_toDigits (n : Nat) : ∃ c cs, Nat.toDigits 10 n = c :: cs ∧ c.isDigit = true := by
  cases h : Nat.toDigits 10 n with
  | nil => exact absurd h Nat.toDigits_ne_nil
  | cons c cs =>
    exact ⟨c, cs, rfl, Nat.isDigit_of_mem_toDigits (b := 10) (n := n) (by decide) (by decide) (by simp [h])⟩

theorem isDigit_ne {c d : Char} (h : c.isDigit = true) (hd : d.isDigit = false) : c ≠ d := by
  intro he
  rw [he, hd] at h
  cases h

theorem readNum_write (n : Int) {cs : List Char} (h : NoDigit cs) :
    readNum (writeNum n ++ cs) = some (n, cs) := by
  cases n with
  | ofNat n =>
    obtain ⟨c, ds, hcs, hc⟩ := head_toDigits n
    have hminus : c ≠ '-' := isDigit_ne hc (by decide)
    have hread := readNat_write n h
    rw [hcs] at hread
    rw [writeNum, hcs, List.cons_append, readNum, ← List.cons_append, hread]
    · rfl
    · intro ds' he
      exact hminus (List.cons.inj he).1
  | negSucc n =>
    rw [writeNum, List.cons_append, readNum, readNat_write (n + 1) h]
    rfl

/-- What no number begins with. -/
def openers : List Char := ['"', '[', '{', 'n', 't', 'f']

theorem writeNum_head (n : Int) : ∃ c cs, writeNum n = c :: cs ∧ c ∉ openers := by
  cases n with
  | ofNat n =>
    obtain ⟨c, cs, hcs, hc⟩ := head_toDigits n
    refine ⟨c, cs, hcs, fun hmem => ?_⟩
    have hnone : ∀ d ∈ openers, d.isDigit = false := by simp [openers]
    rw [hnone c hmem] at hc
    cases hc
  | negSucc n => exact ⟨'-', _, rfl, by decide⟩

/-- A text that begins like no other value is read as a number. -/
theorem read_of_head {f : Nat} {c : Char} {cs : List Char} (hc : c ∉ openers) :
    read (f + 1) (c :: cs) = (readNum (c :: cs)).map (fun r => (.num r.1, r.2)) := by
  simp only [openers, List.mem_cons, List.not_mem_nil, or_false, not_or] at hc
  obtain ⟨hq, hb, ho, hn, ht, hf⟩ := hc
  rw [read]
  · exact fun _ he => hq (List.cons.inj he).1
  · exact fun _ he => hb (List.cons.inj he).1
  · exact fun _ he => ho (List.cons.inj he).1
  · exact fun _ he => hn (List.cons.inj he).1
  · exact fun _ he => ht (List.cons.inj he).1
  · exact fun _ he => hf (List.cons.inj he).1

theorem read_close (f : Nat) (cs : List Char) : read f (']' :: cs) = none := by
  cases f with
  | zero => rfl
  | succ f =>
    rw [read_of_head (by decide)]
    rfl

theorem readMember_close (f : Nat) (cs : List Char) : readMember f ('}' :: cs) = none := by
  cases f <;> rfl

theorem write_ne_nil (x : Json) : write x ≠ [] := by
  cases x with
  | null => simp [write]
  | bool b => cases b <;> simp [write]
  | num n =>
    cases n with
    | ofNat n => exact Nat.toDigits_ne_nil
    | negSucc n => simp [write, writeNum]
  | str s => simp [write, writeString]
  | arr xs => cases xs <;> simp [write]
  | obj kvs =>
    cases kvs with
    | nil => simp [write]
    | cons kv kvs => cases kv; simp [write]

/-! ## Reading back what was written -/

theorem noDigit_writeItems (xs : List Json) (cs : List Char) : NoDigit (writeItems xs ++ cs) := by
  cases xs with
  | nil => exact noDigit_cons (by decide) _
  | cons x xs => exact noDigit_cons (by decide) _

theorem noDigit_writeMembers (kvs : List (String × Json)) (cs : List Char) :
    NoDigit (writeMembers kvs ++ cs) := by
  cases kvs with
  | nil => exact noDigit_cons (by decide) _
  | cons kv kvs => exact noDigit_cons (by decide) _

mutual

theorem read_write : ∀ (x : Json) (f : Nat) (cs : List Char), (write x).length ≤ f → NoDigit cs →
    read f (write x ++ cs) = some (x, cs)
  | x, 0, _, hf, _ => by
    exact absurd (List.eq_nil_of_length_eq_zero (Nat.le_zero.mp hf)) (write_ne_nil x)
  | .null, f + 1, cs, _, _ => rfl
  | .bool true, f + 1, cs, _, _ => rfl
  | .bool false, f + 1, cs, _, _ => rfl
  | .num n, f + 1, cs, _, hcs => by
    obtain ⟨c, ds, hds, hc⟩ := writeNum_head n
    have hread := readNum_write n hcs
    rw [hds] at hread
    rw [write, hds, List.cons_append, read_of_head hc, ← List.cons_append, hread]
    rfl
  | .str s, f + 1, cs, hf, _ => by
    have hread := readString_write s (f + 1) cs (Nat.le_succ_of_le hf)
    rw [writeString, List.cons_append] at hread
    rw [write, writeString, List.cons_append, read, hread]
    rfl
  | .arr [], f + 1, cs, _, _ => by
    rw [write, List.cons_append, List.cons_append, read, read_close]
    rfl
  | .arr (x :: xs), f + 1, cs, hf, _ => by
    have hx : (write x).length ≤ f := by simp [write] at hf; omega
    have hxs : (writeItems xs).length ≤ f := by simp [write] at hf; omega
    rw [write, List.cons_append, List.append_assoc, read, read_write x f _ hx (noDigit_writeItems xs cs)]
    simp [readItems_write xs f cs hxs]
  | .obj [], f + 1, cs, _, _ => by
    rw [write, List.cons_append, List.cons_append, read, readMember_close]
    rfl
  | .obj ((k, v) :: kvs), f + 1, cs, hf, _ => by
    have hlen : (writeString k ++ ':' :: write v).length + (writeMembers kvs).length ≤ f := by
      simp [write] at hf ⊢; omega
    have hkvs : (writeMembers kvs).length ≤ f := by omega
    have hmember := readMember_write k v f (writeMembers kvs ++ cs) (by omega) (noDigit_writeMembers kvs cs)
    rw [write, List.cons_append, List.append_assoc, List.cons_append, List.append_assoc, read, hmember]
    simp [readMembers_write kvs f cs hkvs]

theorem readMember_write : ∀ (k : String) (v : Json) (f : Nat) (cs : List Char),
    (writeString k ++ ':' :: write v).length ≤ f → NoDigit cs →
    readMember f (writeString k ++ ':' :: (write v ++ cs)) = some ((k, v), cs)
  | k, v, 0, _, hf, _ => by simp [writeString] at hf
  | k, v, f + 1, cs, hf, hcs => by
    have hk : (writeString k).length ≤ f + 1 := by
      simp only [List.length_append, List.length_cons] at hf
      omega
    have hv : (write v).length ≤ f := by
      simp [writeString] at hf; omega
    rw [readMember, readString_write k f _ hk]
    simp [read_write v f cs hv hcs]

theorem readItems_write : ∀ (xs : List Json) (f : Nat) (cs : List Char), (writeItems xs).length ≤ f →
    readItems f (writeItems xs ++ cs) = some (xs, cs)
  | [], 0, _, hf => by simp [writeItems] at hf
  | _ :: _, 0, _, hf => by simp [writeItems] at hf
  | [], f + 1, cs, _ => rfl
  | x :: xs, f + 1, cs, hf => by
    have hx : (write x).length ≤ f := by simp [writeItems] at hf; omega
    have hxs : (writeItems xs).length ≤ f := by simp [writeItems] at hf; omega
    rw [writeItems, List.cons_append, List.append_assoc, readItems,
      read_write x f _ hx (noDigit_writeItems xs cs)]
    simp [readItems_write xs f cs hxs]

theorem readMembers_write : ∀ (kvs : List (String × Json)) (f : Nat) (cs : List Char),
    (writeMembers kvs).length ≤ f → readMembers f (writeMembers kvs ++ cs) = some (kvs, cs)
  | [], 0, _, hf => by simp [writeMembers] at hf
  | _ :: _, 0, _, hf => by simp [writeMembers] at hf
  | [], f + 1, cs, _ => rfl
  | (k, v) :: kvs, f + 1, cs, hf => by
    have hlen : (writeString k ++ ':' :: write v).length + (writeMembers kvs).length ≤ f := by
      simp [writeMembers] at hf ⊢; omega
    have hkvs : (writeMembers kvs).length ≤ f := by omega
    have hmember := readMember_write k v f (writeMembers kvs ++ cs) (by omega) (noDigit_writeMembers kvs cs)
    rw [writeMembers, List.cons_append, List.append_assoc, List.cons_append, List.append_assoc, readMembers,
      hmember]
    simp [readMembers_write kvs f cs hkvs]

end

/-! ## One line -/

theorem printable_writeString (s : String) : Printable (writeString s) := by
  have hchars : Printable (s.toList.flatMap writeChar) := by
    intro c hc
    obtain ⟨d, _, hd⟩ := List.mem_flatMap.mp hc
    exact printable_writeChar d c hd
  exact printable_cons (by decide) (printable_append hchars (printable_cons (by decide) (by intro c hc; cases hc)))

theorem printable_writeNum (n : Int) : Printable (writeNum n) := by
  have hdigits : ∀ m, Printable (Nat.toDigits 10 m) := by
    intro m c hc
    have h := Nat.isDigit_of_mem_toDigits (b := 10) (n := m) (by decide) (by decide) hc
    have h48 : (48 : UInt32) ≤ c.val := by simp [Char.isDigit] at h; exact h.1
    have : 48 ≤ c.toNat := h48
    omega
  cases n with
  | ofNat n => exact hdigits n
  | negSucc n => exact printable_cons (by decide) (hdigits _)

mutual

theorem printable_write : ∀ x : Json, Printable (write x)
  | .null => by decide
  | .bool true => by decide
  | .bool false => by decide
  | .num n => printable_writeNum n
  | .str s => printable_writeString s
  | .arr [] => by decide
  | .arr (x :: xs) => by
    rw [write]
    exact printable_cons (by decide) (printable_append (printable_write x) (printable_writeItems xs))
  | .obj [] => by decide
  | .obj ((k, v) :: kvs) => by
    rw [write]
    refine printable_cons (by decide) (printable_append (printable_writeString k) ?_)
    exact printable_cons (by decide) (printable_append (printable_write v) (printable_writeMembers kvs))

theorem printable_writeItems : ∀ xs : List Json, Printable (writeItems xs)
  | [] => by decide
  | x :: xs => by
    rw [writeItems]
    exact printable_cons (by decide) (printable_append (printable_write x) (printable_writeItems xs))

theorem printable_writeMembers : ∀ kvs : List (String × Json), Printable (writeMembers kvs)
  | [] => by decide
  | (k, v) :: kvs => by
    rw [writeMembers]
    refine printable_cons (by decide) (printable_append (printable_writeString k) ?_)
    exact printable_cons (by decide) (printable_append (printable_write v) (printable_writeMembers kvs))

end

/-! ## Whole texts -/

/-- A whole text reads back. -/
theorem ofText_text (x : Json) : ofText (text x) = some x := by
  have h := read_write x ((write x).length + 1) [] (Nat.le_succ _) (by intro c hc; cases hc)
  rw [List.append_nil] at h
  simp [ofText, text, h]

theorem write_injective {x y : Json} (h : text x = text y) : x = y := by
  have := congrArg ofText h
  rw [ofText_text, ofText_text] at this
  exact Option.some.inj this

example : write (.arr [.num (-12), .str "b\x01\""]) = "[-12,\"b\\u0001\\\"\"]".toList := by decide

end Json

end LinuxHardener
