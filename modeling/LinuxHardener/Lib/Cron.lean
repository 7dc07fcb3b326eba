import LinuxHardener.Lib.Calendar
import LinuxHardener.Lib.Cut

/-
  crontab(5): the minutes in which a five-field expression fires.

  A field is a list of ranges, each with a step; months and weekdays also have names. A
  value out of its field's range fires never. Where both day fields are restricted, a day
  needs to match one of them only.

  What is proved: `holds_star`, `holds_number` — what a field of one value matches.
-/
namespace LinuxHardener.Cron

open LineText Calendar

/-- What a field of an expression may hold. -/
structure Field where
  low : Nat
  high : Nat
  /-- The names of its values, the lowest first. -/
  names : List Chars
  letters : ∀ name ∈ names, ∀ c ∈ name, c.toLower.isAlpha = true

theorem letters_of_all {names : List Chars} (h : (names.all fun name => name.all fun c => c.toLower.isAlpha) = true) :
    ∀ name ∈ names, ∀ c ∈ name, c.toLower.isAlpha = true :=
  fun name hname => List.all_eq_true.mp (List.all_eq_true.mp h name hname)

def minuteField : Field := ⟨0, 59, [], by simp⟩

def hourField : Field := ⟨0, 23, [], by simp⟩

def dayField : Field := ⟨1, 31, [], by simp⟩

def monthField : Field where
  low := 1
  high := 12
  names := ["jan", "feb", "mar", "apr", "may", "jun", "jul", "aug", "sep", "oct", "nov", "dec"].map String.toList
  letters := letters_of_all (by decide)

/-- Both 0 and 7 are Sunday. -/
def weekdayField : Field where
  low := 0
  high := 7
  names := ["sun", "mon", "tue", "wed", "thu", "fri", "sat"].map String.toList
  letters := letters_of_all (by decide)

def Field.readName (f : Field) (s : Chars) : Option Nat :=
  (f.names.findIdx? fun name => eqIgnoreCase s name).map (f.low + ·)

def Field.readValue (f : Field) (s : Chars) : Option Nat := (readDecimal s).or (f.readName s)

structure Range where
  first : Nat
  last : Nat
  step : Nat
  deriving DecidableEq, Repr

def Range.holds (r : Range) (v : Nat) : Bool := r.first ≤ v && v ≤ r.last && (v - r.first) % r.step == 0

def Range.within (low high : Nat) (r : Range) : Bool := low ≤ r.first && r.first ≤ r.last && r.last ≤ high

/-- `*`, one value, or the values from one to another. -/
def Field.readSpan (f : Field) (s : Chars) : Option (Nat × Nat) :=
  if s = ['*'] then some (f.low, f.high)
  else match splitOnce '-' s with
    | some (a, b) => do some (← f.readValue a, ← f.readValue b)
    | none => (f.readValue s).map fun v => (v, v)

def Field.readRange (f : Field) (s : Chars) : Option Range :=
  match splitOnce '/' s with
  | none => (f.readSpan s).map fun span => ⟨span.1, span.2, 1⟩
  | some (span, step) => do
    let span ← f.readSpan span
    let step ← (readDecimal step).filter (0 < ·)
    some ⟨span.1, span.2, step⟩

def Field.read (f : Field) (s : Chars) : Option (List Range) := (s.splitOn ',').mapM f.readRange

/-- The field is written as the grammar has it. -/
def Field.written (f : Field) (s : Chars) : Bool := (f.read s).isSome

/-- Its values are in range. -/
def Field.inRange (f : Field) (s : Chars) : Bool := (f.read s).all fun ranges => ranges.all (·.within f.low f.high)

/-- The field matches the value. -/
def Field.holds (f : Field) (s : Chars) (v : Nat) : Bool := f.inRange s && (f.read s).any fun ranges => ranges.any (·.holds v)

/-- A field that begins with a star restricts nothing. -/
def restricted (s : Chars) : Bool := s.head? != some '*'

structure Expression where
  minute : Chars
  hour : Chars
  day : Chars
  month : Chars
  weekday : Chars
  written : minuteField.written minute && hourField.written hour && dayField.written day && monthField.written month &&
    weekdayField.written weekday

/-- Five words, each written as its field has it. -/
def readExpression (s : Chars) : Option Expression :=
  match words s with
  | [minute, hour, day, month, weekday] =>
    if h : minuteField.written minute && hourField.written hour && dayField.written day && monthField.written month &&
        weekdayField.written weekday then some ⟨minute, hour, day, month, weekday, h⟩
    else none
  | _ => none

/-- Every field has its values in range. -/
def Expression.inRange (e : Expression) : Bool :=
  minuteField.inRange e.minute && hourField.inRange e.hour && dayField.inRange e.day && monthField.inRange e.month &&
    weekdayField.inRange e.weekday

def Expression.onWeekday (e : Expression) (d : Date) : Bool :=
  weekdayField.holds e.weekday d.weekday || (d.weekday == 0 && weekdayField.holds e.weekday 7)

def Expression.firesOn (e : Expression) (d : Date) : Bool :=
  if restricted e.day && restricted e.weekday then dayField.holds e.day d.day || e.onWeekday d
  else dayField.holds e.day d.day && e.onWeekday d

def Expression.fires (e : Expression) (m : Minute) : Bool :=
  e.inRange && minuteField.holds e.minute m.minute && hourField.holds e.hour m.hour &&
    monthField.holds e.month m.date.month && e.firesOn m.date

/-! ## Fields of one value -/

theorem read_single {f : Field} {s : Chars} (hcomma : ',' ∉ s) : f.read s = (f.readRange s).map fun r => [r] := by
  rw [Field.read, List.splitOn_eq_singleton hcomma]
  cases h : f.readRange s <;> simp [h]

theorem read_star (f : Field) : f.read ['*'] = some [⟨f.low, f.high, 1⟩] := by
  rw [read_single (by decide)]
  rfl

/-- What has no separator of the grammar in it is one value. -/
theorem read_value {f : Field} {s : Chars} (hcomma : ',' ∉ s) (hslash : '/' ∉ s) (hdash : '-' ∉ s) (hstar : s ≠ ['*']) :
    f.read s = (f.readValue s).map fun v => [⟨v, v, 1⟩] := by
  rw [read_single hcomma, Field.readRange, splitOnce_none.mpr hslash]
  dsimp only
  rw [Field.readSpan, if_neg hstar, splitOnce_none.mpr hdash]
  cases f.readValue s <;> rfl

theorem read_number {f : Field} {s : Chars} {n : Nat} (hn : readDecimal s = some n) : f.read s = some [⟨n, n, 1⟩] := by
  have hno : ∀ c, c.isDigit = false → c ∉ s := fun c hc => not_mem_of_readDecimal hn hc
  have hstar : s ≠ ['*'] := fun he => hno '*' (by decide) (by simp [he])
  rw [read_value (hno ',' (by decide)) (hno '/' (by decide)) (hno '-' (by decide)) hstar, Field.readValue, hn]
  rfl

/-- A sign is not written before a number. -/
theorem not_written_plus {f : Field} {ds : Chars} (hds : ∀ c ∈ ds, c.isDigit = true) : f.written ('+' :: ds) = false := by
  have hno : ∀ c, c.isDigit = false → c ≠ '+' → c ∉ '+' :: ds := fun c hc hplus hmem => by
    cases List.mem_cons.mp hmem with
    | inl he => exact hplus he
    | inr hmem => rw [hds c hmem] at hc; cases hc
  have hname : f.readName ('+' :: ds) = none := by
    have hfind : f.names.findIdx? (fun name => eqIgnoreCase ('+' :: ds) name) = none := by
      rw [List.findIdx?_eq_none_iff]
      intro name hname
      cases name with
      | nil => rfl
      | cons c name =>
        have hc := f.letters _ hname c List.mem_cons_self
        unfold eqIgnoreCase
        rw [beq_eq_false_iff_ne]
        intro he
        have hlow : Char.toLower c = '+' := (List.cons.inj he).1.symm
        rw [hlow] at hc
        cases hc
    rw [Field.readName, hfind]
    rfl
  rw [Field.written, read_value (hno ',' (by decide) (by decide)) (hno '/' (by decide) (by decide))
    (hno '-' (by decide) (by decide)) (by simp), Field.readValue, hname]
  rfl

theorem holds_star (f : Field) (v : Nat) (h : f.low ≤ f.high) : f.holds ['*'] v = decide (f.low ≤ v ∧ v ≤ f.high) := by
  simp [Field.holds, Field.inRange, read_star, Range.holds, Range.within, Nat.mod_one, h]

theorem inRange_number {f : Field} {s : Chars} {n : Nat} (hn : readDecimal s = some n) :
    f.inRange s = decide (f.low ≤ n ∧ n ≤ f.high) := by
  simp [Field.inRange, read_number hn, Range.within]

theorem holds_number {f : Field} {s : Chars} {n : Nat} (hn : readDecimal s = some n) (hin : f.low ≤ n ∧ n ≤ f.high) (v : Nat) :
    f.holds s v = decide (v = n) := by
  have heq : (decide (n ≤ v) && decide (v ≤ n)) = decide (v = n) := by
    rw [← Bool.decide_and]
    exact decide_eq_decide.mpr ⟨fun h => Nat.le_antisymm h.2 h.1, fun h => h ▸ ⟨le_refl _, le_refl _⟩⟩
  simp [Field.holds, inRange_number hn, read_number hn, Range.holds, Nat.mod_one, heq, hin]

end LinuxHardener.Cron
