import LinuxHardener.Lib.Calendar
import LinuxHardener.Lib.Cut

/-
  systemd.time(7): the calendar expressions of `OnCalendar=`.

  An expression is a list of weekdays, a date and a time, each of which may be missing.
  The shorthands (`daily`), time zones, fractions of a second and the count from the end
  of a month (`~`) are not read here.

  What is proved: `parse_written` — what a weekday, a date and a time of one value each
  are read as, and that a value out of its range makes the expression invalid.
-/
namespace LinuxHardener.OnCalendar

open LineText Calendar

/-- One value, or the values from one to another, each time so many apart. -/
structure Component where
  start : Nat
  stop : Option Nat
  /-- 0 where the value is not repeated. -/
  every : Nat
  deriving DecidableEq, Repr

/-- The values of one place of an expression; `none` is `*`. -/
abbrev Chain : Type := Option (List Component)

def Component.holds (c : Component) (v : Nat) : Bool :=
  match c.stop, c.every with
  | none, 0 => v == c.start
  | none, n + 1 => c.start ≤ v && (v - c.start) % (n + 1) == 0
  | some stop, n => c.start ≤ v && v ≤ stop && (n == 0 || (v - c.start) % n == 0)

def Chain.holds (chain : Chain) (v : Nat) : Bool :=
  match chain with
  | none => true
  | some cs => cs.any (·.holds v)

/-- `chain_valid`: a repetition reaches the next value. -/
def Component.within (low high : Nat) (c : Component) : Bool :=
  low ≤ c.start && c.start + c.every ≤ c.stop.getD high && c.stop.getD high ≤ high

def Chain.within (low high : Nat) (chain : Chain) : Bool := chain.all fun cs => cs.all (·.within low high)

structure Spec where
  /-- The weekdays, counted from Sunday; `none` where none are named. -/
  weekdays : Option (List Nat)
  year : Chain
  month : Chain
  day : Chain
  hour : Chain
  minute : Chain
  second : Chain
  deriving DecidableEq, Repr

/-- `calendar_spec_valid` -/
def Spec.valid (s : Spec) : Bool :=
  s.year.within 1970 2199 && s.month.within 1 12 && s.day.within 1 31 && s.hour.within 0 23 && s.minute.within 0 59 &&
    s.second.within 0 59

/-- The expression elapses in some second of the minute. -/
def Spec.elapsesIn (s : Spec) (m : Minute) : Prop :=
  (s.weekdays.all fun ws => ws.contains m.date.weekday) = true ∧ s.year.holds m.date.year = true ∧ s.month.holds m.date.month = true ∧
    s.day.holds m.date.day = true ∧ s.hour.holds m.hour = true ∧ s.minute.holds m.minute = true ∧
    ∃ second < 60, s.second.holds second = true

/-! ## Reading -/

/-- The names of the weekdays, Sunday first. -/
def weekdayNames : List Chars :=
  ["sunday", "monday", "tuesday", "wednesday", "thursday", "friday", "saturday"].map String.toList

/-- A weekday, by its name or the first three letters of it. -/
def readWeekday (s : Chars) : Option Nat := weekdayNames.findIdx? fun name => eqIgnoreCase s name || eqIgnoreCase s (name.take 3)

/-- The weekdays from one to another, through the end of the week. -/
def weekdaysBetween (a b : Nat) : List Nat := (List.range ((b + 7 - a) % 7 + 1)).map fun i => (a + i) % 7

def readWeekdayRange (s : Chars) : Option (List Nat) :=
  match splitOnceAt ['.', '.'] s with
  | some (a, b) => do some (weekdaysBetween (← readWeekday a) (← readWeekday b))
  | none => (readWeekday s).map fun w => [w]

def readWeekdays (s : Chars) : Option (List Nat) := ((s.splitOn ',').mapM readWeekdayRange).map List.flatten

def readComponent (s : Chars) : Option Component := do
  let (values, every) ← match splitOnce '/' s with
    | some (values, n) => ((readDecimal n).filter (0 < ·)).map fun n => (values, n)
    | none => some (s, 0)
  match splitOnceAt ['.', '.'] values with
  | some (a, b) => do some ⟨← readDecimal a, some (← readDecimal b), every⟩
  | none => (readDecimal values).map fun n => ⟨n, none, every⟩

def readChain (s : Chars) : Option Chain := if s = ['*'] then some none else ((s.splitOn ',').mapM readComponent).map some

/-- A year, a month and a day, or the last two of them. -/
def readDate (s : Chars) : Option (Chain × Chain × Chain) :=
  match s.splitOn '-' with
  | [year, month, day] => do some (← readChain year, ← readChain month, ← readChain day)
  | [month, day] => do some (none, ← readChain month, ← readChain day)
  | _ => none

/-- The value zero. -/
def zero : Chain := some [⟨0, none, 0⟩]

/-- An hour, a minute and a second, or the first two of them. -/
def readTime (s : Chars) : Option (Chain × Chain × Chain) :=
  match s.splitOn ':' with
  | [hour, minute, second] => do some (← readChain hour, ← readChain minute, ← readChain second)
  | [hour, minute] => do some (← readChain hour, ← readChain minute, zero)
  | _ => none

/-- The date and the time behind the weekdays: a missing date is any, a missing time is midnight. -/
def readDateTime : List Chars → Option ((Chain × Chain × Chain) × (Chain × Chain × Chain))
  | [] => some ((none, none, none), (zero, zero, zero))
  | [s] =>
    match readTime s with
    | some time => some ((none, none, none), time)
    | none => (readDate s).map fun date => (date, (zero, zero, zero))
  | [date, time] => do some (← readDate date, ← readTime time)
  | _ => none

def assemble (weekdays : Option (List Nat)) (rest : List Chars) : Option Spec := do
  let ((year, month, day), (hour, minute, second)) ← readDateTime rest
  some ⟨weekdays, year, month, day, hour, minute, second⟩

/-- An expression, if it is one. -/
def parse (s : Chars) : Option Spec :=
  let spec := match (s.splitOn ' ').filter (· ≠ []) with
    | [] => none
    | word :: rest =>
      match readWeekdays word with
      | some weekdays => assemble (some weekdays) rest
      | none => assemble none (word :: rest)
  spec.filter Spec.valid

/-! ## Expressions of one value each -/

theorem splitOnceAt_none {sep : Chars} {c : Char} (hsep : sep.head? = some c) {s : Chars} (h : c ∉ s) : splitOnceAt sep s = none := by
  induction s with
  | nil => rfl
  | cons d s ih =>
    cases sep with
    | nil => cases hsep
    | cons e sep =>
      obtain rfl : e = c := Option.some.inj hsep
      have hne : e ≠ d := fun he => h (by simp [he])
      have hrest : e ∉ s := fun hm => h (List.mem_cons_of_mem d hm)
      have hstart : (e :: sep).isPrefixOf (d :: s) = false := by simp [List.isPrefixOf, hne]
      rw [splitOnceAt, hstart, ih hrest]
      rfl

/-- A place that holds a star or one number. -/
inductive Written : Chars → Chain → Prop where
  | star : Written ['*'] none
  | number {s : Chars} {n : Nat} (h : readDecimal s = some n) : Written s (some [⟨n, none, 0⟩])

namespace Written

variable {s : Chars} {chain : Chain}

theorem ne_nil (h : Written s chain) : s ≠ [] := by
  cases h with
  | star => decide
  | number h => exact ne_nil_of_readDecimal h

theorem not_mem (h : Written s chain) {c : Char} (hc : c.isDigit = false) (hstar : c ≠ '*') : c ∉ s := by
  cases h with
  | star => simpa using hstar
  | number h => exact not_mem_of_readDecimal h hc

theorem readChain_eq (h : Written s chain) : readChain s = some chain := by
  cases h with
  | star => rfl
  | @number _ n h =>
    have hno : ∀ c, c.isDigit = false → c ∉ s := fun c hc => not_mem_of_readDecimal h hc
    have hstar : s ≠ ['*'] := fun he => hno '*' (by decide) (by simp [he])
    have hcomponent : readComponent s = some ⟨n, none, 0⟩ := by
      rw [readComponent, splitOnce_none.mpr (hno '/' (by decide))]
      dsimp only [Option.bind_eq_bind, Option.bind]
      rw [splitOnceAt_none rfl (hno '.' (by decide)), h]
      rfl
    rw [readChain, if_neg hstar, List.splitOn_eq_singleton (hno ',' (by decide))]
    simp [hcomponent]

end Written

section

variable {month day hour minute second : Chars} {cmonth cday chour cminute csecond : Chain}

theorem readDate_written (hm : Written month cmonth) (hd : Written day cday) :
    readDate ('*' :: '-' :: (month ++ '-' :: day)) = some (none, cmonth, cday) := by
  have hsplit : ('*' :: '-' :: (month ++ '-' :: day)).splitOn '-' = [['*'], month, day] := by
    have hstar : '-' ∉ ['*'] := by decide
    have hhead := List.splitOn_append_cons_self_of_not_mem hstar (month ++ '-' :: day)
    rw [List.singleton_append] at hhead
    rw [hhead, List.splitOn_append_cons_self_of_not_mem (hm.not_mem (by decide) (by decide)),
      List.splitOn_eq_singleton (hd.not_mem (by decide) (by decide))]
  rw [readDate, hsplit]
  dsimp only
  rw [hm.readChain_eq, hd.readChain_eq]
  rfl

theorem readTime_written (hh : Written hour chour) (hm : Written minute cminute) (hs : Written second csecond) :
    readTime (hour ++ ':' :: (minute ++ ':' :: second)) = some (chour, cminute, csecond) := by
  have hsplit : (hour ++ ':' :: (minute ++ ':' :: second)).splitOn ':' = [hour, minute, second] := by
    rw [List.splitOn_append_cons_self_of_not_mem (hh.not_mem (by decide) (by decide)),
      List.splitOn_append_cons_self_of_not_mem (hm.not_mem (by decide) (by decide)),
      List.splitOn_eq_singleton (hs.not_mem (by decide) (by decide))]
  rw [readTime, hsplit]
  dsimp only
  rw [hh.readChain_eq, hm.readChain_eq, hs.readChain_eq]
  rfl

/-- What begins with a star and has one range in it is no weekday. -/
theorem readWeekdays_star {s : Chars} (hcomma : ',' ∉ '*' :: s) (hdot : '.' ∉ '*' :: s) : readWeekdays ('*' :: s) = none := by
  have hnone : readWeekday ('*' :: s) = none := by
    rw [readWeekday, List.findIdx?_eq_none_iff]
    intro name hname
    simp only [weekdayNames, List.map_cons, List.map_nil, List.mem_cons, List.not_mem_nil, or_false] at hname
    obtain rfl | rfl | rfl | rfl | rfl | rfl | rfl := hname <;> rfl
  have hrange : readWeekdayRange ('*' :: s) = none := by
    rw [readWeekdayRange, splitOnceAt_none rfl hdot, hnone]
    rfl
  rw [readWeekdays, List.splitOn_eq_singleton hcomma]
  simp [hrange]

/-- What may stand before the date: nothing, or weekdays and a blank. -/
inductive Before : Chars → Option (List Nat) → Prop where
  | nothing : Before [] none
  | weekdays {word : Chars} {ws : List Nat} (h : readWeekdays word = some ws) (hne : word ≠ []) (hblank : ' ' ∉ word) :
    Before (word ++ [' ']) (some ws)

/-- Weekdays, a date of any year and a time, each place a star or one number. -/
theorem parse_written {before : Chars} {weekdays : Option (List Nat)} (hb : Before before weekdays) (hmonth : Written month cmonth)
    (hday : Written day cday) (hh : Written hour chour) (hm : Written minute cminute) (hs : Written second csecond) :
    parse (before ++ ('*' :: '-' :: (month ++ '-' :: (day ++ ' ' :: (hour ++ ':' :: (minute ++ ':' :: second)))))) =
      (some (⟨weekdays, none, cmonth, cday, chour, cminute, csecond⟩ : Spec)).filter Spec.valid := by
  let date := '*' :: '-' :: (month ++ '-' :: day)
  let time := hour ++ ':' :: (minute ++ ':' :: second)
  have hdate : ∀ c, c.isDigit = false → c ≠ '*' → c ≠ '-' → c ∉ date := by
    intro c hc hstar hdash hmem
    simp only [date, List.mem_cons, List.mem_append] at hmem
    obtain h | h | h | h | h := hmem
    · exact hstar h
    · exact hdash h
    · exact hmonth.not_mem hc hstar h
    · exact hdash h
    · exact hday.not_mem hc hstar h
  have htime : ' ' ∉ time := by
    intro hmem
    simp only [time, List.mem_cons, List.mem_append] at hmem
    obtain h | h | h | h | h := hmem
    · exact hh.not_mem (by decide) (by decide) h
    · exact absurd h (by decide)
    · exact hm.not_mem (by decide) (by decide) h
    · exact absurd h (by decide)
    · exact hs.not_mem (by decide) (by decide) h
  have htext : '*' :: '-' :: (month ++ '-' :: (day ++ ' ' :: (hour ++ ':' :: (minute ++ ':' :: second)))) = date ++ ' ' :: time := by
    simp [date, time]
  have hdatetime : readDateTime [date, time] = some ((none, cmonth, cday), (chour, cminute, csecond)) := by
    simp [readDateTime, date, time, readDate_written hmonth hday, readTime_written hh hm hs]
  have hwords : ((date ++ ' ' :: time).splitOn ' ') = [date, time] := by
    rw [List.splitOn_append_cons_self_of_not_mem (hdate ' ' (by decide) (by decide) (by decide)), List.splitOn_eq_singleton htime]
  have htimene : time ≠ [] := by simp [time, hh.ne_nil]
  rw [htext, parse]
  cases hb with
  | nothing =>
    have hfilter : ((([] : Chars) ++ (date ++ ' ' :: time)).splitOn ' ').filter (· ≠ []) = [date, time] := by
      rw [List.nil_append, hwords]
      simp [date, htimene]
    rw [hfilter]
    have hno : readWeekdays date = none :=
      readWeekdays_star (hdate ',' (by decide) (by decide) (by decide)) (hdate '.' (by decide) (by decide) (by decide))
    simp only [hno, assemble, hdatetime]
    rfl
  | @weekdays word ws h hne hblank =>
    have hfilter : ((word ++ [' '] ++ (date ++ ' ' :: time)).splitOn ' ').filter (· ≠ []) = [word, date, time] := by
      rw [List.append_assoc, List.singleton_append, List.splitOn_append_cons_self_of_not_mem hblank, hwords]
      simp [date, htimene, hne]
    rw [hfilter]
    simp only [h, assemble, hdatetime]
    rfl

end

/-- A place of one value holds that value. -/
theorem holds_number {n v : Nat} : Chain.holds (some [⟨n, none, 0⟩]) v = (v == n) := by simp [Chain.holds, Component.holds]

theorem within_number {low high n : Nat} : Chain.within low high (some [⟨n, none, 0⟩]) = decide (low ≤ n ∧ n ≤ high) := by
  simp [Chain.within, Component.within]

end LinuxHardener.OnCalendar
