import LinuxHardener.Lib.Cron
import LinuxHardener.Lib.OnCalendar

/-
  A cron schedule as a systemd calendar expression (`hardener-scheduler`, `systemd.rs`).

  Correspondence (Rust ↔ Lean):
    `cron_to_calendar` ↔ `cronToCalendar`; its `match weekday` is the table `weekdayPrefixes`,
                         its four other `match`es are `fieldPart`
    `resolve_calendar` ↔ `resolveCalendar`

  What is proved:
    1. `elapsesIn_iff_fires` — with every value in range, and at most one day field
       restricted, the two schedules are the same minute for minute.
    2. `preservesSchedule_iff` — where the converter takes an expression, that condition is
       exact: a value out of range makes an expression systemd refuses, and two restricted
       day fields one that elapses on fewer days.
-/
namespace LinuxHardener.Scheduler

open LineText Calendar
open Cron (Expression Field readExpression restricted)

/-! ## The conversion -/

/-- What each weekday field becomes; complex weekday patterns are not supported. -/
def weekdayPrefixes : List (Chars × Chars) :=
  [("*", ""), ("0", "Sun "), ("7", "Sun "), ("1", "Mon "), ("2", "Tue "), ("3", "Wed "), ("4", "Thu "), ("5", "Fri "),
    ("6", "Sat ")].map fun (weekday, written) => (weekday.toList, written.toList)

/-- `{n:02}` -/
def twoDigits (n : Nat) : Chars := if n < 10 then '0' :: decimal n else decimal n

/-- A month, day, hour or minute: a star, or a number that fits in a `u8`. -/
def fieldPart (field : Chars) : Option Chars := if field = ['*'] then some ['*'] else (parseUnsigned 256 field).map twoDigits

/-- Converts a cron expression to systemd OnCalendar format. -/
def cronToCalendar (cron : Chars) : Option Chars :=
  match words cron with
  | [minute, hour, day, month, weekday] => do
    let weekdayPrefix ← weekdayPrefixes.lookup weekday
    let monthPart ← fieldPart month
    let dayPart ← fieldPart day
    let hourPart ← fieldPart hour
    let minutePart ← fieldPart minute
    some (weekdayPrefix ++ "*-".toList ++ monthPart ++ "-".toList ++ dayPart ++ " ".toList ++ hourPart ++ ":".toList ++
      minutePart ++ ":00".toList)
  | _ => none

/-- Converts schedule to systemd calendar if needed. -/
def resolveCalendar (schedule : Chars) : Chars :=
  if (words schedule).length = 5 then (cronToCalendar schedule).getD schedule else schedule

/-! ## What the converter takes -/

/-- A field written as a star or as a number that fits in a `u8`. -/
def PlainField (s : Chars) : Prop := s = ['*'] ∨ ∃ n < 256, readDecimal s = some n

/-- An expression of such fields, its weekday a star or one digit from 0 to 7. -/
structure Converted (e : Expression) : Prop where
  minute : PlainField e.minute
  hour : PlainField e.hour
  day : PlainField e.day
  month : PlainField e.month
  weekday : (weekdayPrefixes.lookup e.weekday).isSome = true

/-- A field that is a star or a number the field has. -/
theorem inRange_plain {f : Field} {s : Chars} (h : PlainField s) (hin : f.inRange s = true) :
    s = ['*'] ∨ ∃ n, readDecimal s = some n ∧ f.low ≤ n ∧ n ≤ f.high := by
  refine h.imp id fun ⟨n, _, hn⟩ => ⟨n, hn, ?_⟩
  rw [Cron.inRange_number hn] at hin
  exact of_decide_eq_true hin

theorem fieldPart_isSome {f : Field} {s : Chars} (hw : f.written s = true) : (fieldPart s).isSome = true ↔ PlainField s := by
  constructor
  · intro h
    unfold fieldPart at h
    split at h
    · next hstar => exact .inl hstar
    · rw [Option.isSome_map] at h
      obtain ⟨n, hn⟩ := Option.isSome_iff_exists.mp h
      have hlt := parseUnsigned_lt hn
      unfold parseUnsigned at hn
      split at hn
      · next ds =>
        have hdigits := List.all_eq_true.mp (parseDigits_eq_some.mp hn).1.2
        rw [Cron.not_written_plus hdigits] at hw
        cases hw
      · exact .inr ⟨n, hlt, readDecimal_of_parseDigits hn⟩
  · rintro (rfl | ⟨n, hlt, hn⟩)
    · rfl
    · unfold fieldPart
      split
      · rfl
      · rw [parseUnsigned_of_digits (List.all_eq_true.mpr fun c hc => isDigit_of_readDecimal hn hc),
          parseDigits_of_readDecimal hn hlt]
        rfl

/-- The place of the calendar expression that a field becomes. -/
def chainOf (s : Chars) : OnCalendar.Chain := if s = ['*'] then none else (readDecimal s).map fun n => [⟨n, none, 0⟩]

theorem readDecimal_twoDigits (n : Nat) : readDecimal (twoDigits n) = some n := by
  unfold twoDigits
  split
  · have hd := readDecimal_decimal n
    unfold readDecimal at hd ⊢
    split at hd
    · next h =>
      have hzero : Nat.ofDigitChars 10 ('0' :: decimal n) 0 = Nat.ofDigitChars 10 (decimal n) 0 := rfl
      rw [if_pos ⟨List.cons_ne_nil _ _, by simpa using h.2⟩, hzero, hd]
    · cases hd
  · exact readDecimal_decimal n

theorem written_fieldPart {s part : Chars} (h : fieldPart s = some part) (hp : PlainField s) : OnCalendar.Written part (chainOf s) := by
  unfold fieldPart at h
  unfold chainOf
  split at h
  · next hstar =>
    cases h
    rw [if_pos hstar]
    exact .star
  · next hstar =>
    obtain ⟨n, hlt, hn⟩ := hp.resolve_left hstar
    rw [parseUnsigned_of_digits (List.all_eq_true.mpr fun c hc => isDigit_of_readDecimal hn hc),
      parseDigits_of_readDecimal hn hlt] at h
    cases h
    rw [if_neg hstar, hn]
    exact .number (readDecimal_twoDigits n)

/-- The weekdays of the calendar expression: the one the field names. -/
def weekdaysOf (s : Chars) : Option (List Nat) := if s = ['*'] then none else (readDecimal s).map fun n => [n % 7]

theorem mem_of_lookup {weekday written : Chars} (h : weekdayPrefixes.lookup weekday = some written) :
    (weekday, written) ∈ weekdayPrefixes := by
  obtain ⟨before, after, htable, _⟩ := List.lookup_eq_some_iff.mp h
  simp [htable]

/-- What the table writes is read as the weekday the field names. -/
theorem before_weekday {weekday written : Chars} (h : weekdayPrefixes.lookup weekday = some written) :
    OnCalendar.Before written (weekdaysOf weekday) := by
  have hall : ∀ p ∈ weekdayPrefixes, (p.2 = [] ∧ weekdaysOf p.1 = none) ∨ (p.2.getLast? = some ' ' ∧ p.2.dropLast ≠ [] ∧
      ' ' ∉ p.2.dropLast ∧ (weekdaysOf p.1).isSome = true ∧ OnCalendar.readWeekdays p.2.dropLast = weekdaysOf p.1) := by decide
  have hmem := mem_of_lookup h
  obtain ⟨hnil, hnone⟩ | ⟨hlast, hne, hblank, hsome, hread⟩ := hall _ hmem
  · dsimp only at hnil hnone
    rw [hnil, hnone]
    exact .nothing
  · dsimp only at hlast hne hblank hsome hread
    obtain ⟨ws, hws⟩ := Option.isSome_iff_exists.mp hsome
    rw [hws] at hread ⊢
    have hsplit : written = written.dropLast ++ [' '] := (List.dropLast_append_getLast? ' ' hlast).symm
    rw [hsplit]
    exact .weekdays hread hne hblank

/-! ## The expression that is written -/

variable {cron text : Chars} {e : Expression}

/-- The calendar expression as systemd takes it apart. -/
def specOf (e : Expression) : OnCalendar.Spec :=
  ⟨weekdaysOf e.weekday, none, chainOf e.month, chainOf e.day, chainOf e.hour, chainOf e.minute, OnCalendar.zero⟩

theorem words_of_readExpression (h : readExpression cron = some e) :
    words cron = [e.minute, e.hour, e.day, e.month, e.weekday] := by
  unfold readExpression at h
  split at h
  · next hwords =>
    split at h
    · cases h
      exact hwords
    · cases h
  · cases h

theorem cronToCalendar_eq (h : readExpression cron = some e) : cronToCalendar cron = (do
    let weekdayPrefix ← weekdayPrefixes.lookup e.weekday
    let monthPart ← fieldPart e.month
    let dayPart ← fieldPart e.day
    let hourPart ← fieldPart e.hour
    let minutePart ← fieldPart e.minute
    some (weekdayPrefix ++ "*-".toList ++ monthPart ++ "-".toList ++ dayPart ++ " ".toList ++ hourPart ++ ":".toList ++
      minutePart ++ ":00".toList)) := by
  rw [cronToCalendar, words_of_readExpression h]

theorem written_fields (e : Expression) : Cron.minuteField.written e.minute = true ∧ Cron.hourField.written e.hour = true ∧
    Cron.dayField.written e.day = true ∧ Cron.monthField.written e.month = true ∧
    Cron.weekdayField.written e.weekday = true := by
  have h := e.written
  simp only [Bool.and_eq_true] at h
  exact ⟨h.1.1.1.1, h.1.1.1.2, h.1.1.2, h.1.2, h.2⟩

/-- The converter takes an expression exactly where each of its fields is a plain one. -/
theorem cronToCalendar_isSome (h : readExpression cron = some e) : (cronToCalendar cron).isSome = true ↔ Converted e := by
  obtain ⟨hminute, hhour, hday, hmonth, _⟩ := written_fields e
  rw [cronToCalendar_eq h]
  constructor
  · intro hsome
    obtain ⟨text, htext⟩ := Option.isSome_iff_exists.mp hsome
    obtain ⟨weekdayPrefix, hp, htext⟩ := Option.bind_eq_some_iff.mp htext
    obtain ⟨monthPart, hm, htext⟩ := Option.bind_eq_some_iff.mp htext
    obtain ⟨dayPart, hd, htext⟩ := Option.bind_eq_some_iff.mp htext
    obtain ⟨hourPart, hh, htext⟩ := Option.bind_eq_some_iff.mp htext
    obtain ⟨minutePart, hmi, _⟩ := Option.bind_eq_some_iff.mp htext
    exact ⟨(fieldPart_isSome hminute).mp (by rw [hmi]; rfl), (fieldPart_isSome hhour).mp (by rw [hh]; rfl),
      (fieldPart_isSome hday).mp (by rw [hd]; rfl), (fieldPart_isSome hmonth).mp (by rw [hm]; rfl), by rw [hp]; rfl⟩
  · intro hc
    obtain ⟨weekdayPrefix, hp⟩ := Option.isSome_iff_exists.mp hc.weekday
    obtain ⟨monthPart, hm⟩ := Option.isSome_iff_exists.mp ((fieldPart_isSome hmonth).mpr hc.month)
    obtain ⟨dayPart, hd⟩ := Option.isSome_iff_exists.mp ((fieldPart_isSome hday).mpr hc.day)
    obtain ⟨hourPart, hh⟩ := Option.isSome_iff_exists.mp ((fieldPart_isSome hhour).mpr hc.hour)
    obtain ⟨minutePart, hmi⟩ := Option.isSome_iff_exists.mp ((fieldPart_isSome hminute).mpr hc.minute)
    simp [hp, hm, hd, hh, hmi]

/-- What is written is read as `specOf`, where that is a valid expression. -/
theorem parse_cronToCalendar (h : readExpression cron = some e) (hc : Converted e) (ht : cronToCalendar cron = some text) :
    OnCalendar.parse text = (some (specOf e)).filter OnCalendar.Spec.valid := by
  rw [cronToCalendar_eq h] at ht
  obtain ⟨weekdayPrefix, hp, ht⟩ := Option.bind_eq_some_iff.mp ht
  obtain ⟨monthPart, hm, ht⟩ := Option.bind_eq_some_iff.mp ht
  obtain ⟨dayPart, hd, ht⟩ := Option.bind_eq_some_iff.mp ht
  obtain ⟨hourPart, hh, ht⟩ := Option.bind_eq_some_iff.mp ht
  obtain ⟨minutePart, hmi, ht⟩ := Option.bind_eq_some_iff.mp ht
  have hzero : OnCalendar.Written ['0', '0'] OnCalendar.zero := .number rfl
  have hparse := OnCalendar.parse_written (before_weekday hp) (written_fieldPart hm hc.month) (written_fieldPart hd hc.day)
    (written_fieldPart hh hc.hour) (written_fieldPart hmi hc.minute) hzero
  have htext : text = weekdayPrefix ++
      ('*' :: '-' :: (monthPart ++ '-' :: (dayPart ++ ' ' :: (hourPart ++ ':' :: (minutePart ++ ':' :: ['0', '0']))))) := by
    rw [← Option.some.inj ht]
    simp
  rw [htext]
  exact hparse

/-! ## The two readings of one field -/

section

variable {f : Field} {s : Chars}

theorem within_chainOf (h : PlainField s) (hle : f.low ≤ f.high) :
    OnCalendar.Chain.within f.low f.high (chainOf s) = f.inRange s := by
  unfold chainOf
  obtain rfl | ⟨n, _, hn⟩ := h
  · simp [OnCalendar.Chain.within, Field.inRange, Cron.read_star, Cron.Range.within, hle]
  · have hstar : s ≠ ['*'] := fun he => not_mem_of_readDecimal hn (by decide : '*'.isDigit = false) (by simp [he])
    rw [if_neg hstar, hn, Cron.inRange_number hn]
    exact OnCalendar.within_number

theorem holds_chainOf (h : PlainField s) (hin : f.inRange s = true) {v : Nat} (hv : f.low ≤ v ∧ v ≤ f.high) :
    OnCalendar.Chain.holds (chainOf s) v = f.holds s v := by
  unfold chainOf
  obtain rfl | ⟨n, hn, hrange⟩ := inRange_plain h hin
  · rw [if_pos rfl, Cron.holds_star f v (Nat.le_trans hv.1 hv.2), decide_eq_true hv]
    rfl
  · have hstar : s ≠ ['*'] := fun he => not_mem_of_readDecimal hn (by decide : '*'.isDigit = false) (by simp [he])
    rw [if_neg hstar, hn, Cron.holds_number hn hrange]
    exact OnCalendar.holds_number

/-- A field in range matches some value. -/
theorem exists_holds (h : PlainField s) (hin : f.inRange s = true) (hle : f.low ≤ f.high) :
    ∃ v, (f.low ≤ v ∧ v ≤ f.high) ∧ f.holds s v = true := by
  obtain rfl | ⟨n, hn, hrange⟩ := inRange_plain h hin
  · exact ⟨f.low, ⟨le_refl _, hle⟩, by rw [Cron.holds_star f f.low hle]; exact decide_eq_true ⟨le_refl _, hle⟩⟩
  · exact ⟨n, hrange, by rw [Cron.holds_number hn hrange]; exact decide_eq_true rfl⟩

end

/-- A weekday the converter takes is in range. -/
theorem inRange_weekday (h : (weekdayPrefixes.lookup e.weekday).isSome = true) : Cron.weekdayField.inRange e.weekday = true := by
  have hall : ∀ p ∈ weekdayPrefixes, Cron.weekdayField.inRange p.1 = true := by decide
  obtain ⟨written, hw⟩ := Option.isSome_iff_exists.mp h
  have hmem := mem_of_lookup hw
  exact hall _ hmem

theorem onWeekday_iff (h : (weekdayPrefixes.lookup e.weekday).isSome = true) (d : Date) :
    ((weekdaysOf e.weekday).all fun ws => ws.contains d.weekday) = e.onWeekday d := by
  have hall : ∀ p ∈ weekdayPrefixes, ∀ w < 7, ((weekdaysOf p.1).all fun ws => ws.contains w) =
      (Cron.weekdayField.holds p.1 w || (w == 0 && Cron.weekdayField.holds p.1 7)) := by decide
  obtain ⟨written, hw⟩ := Option.isSome_iff_exists.mp h
  have hmem := mem_of_lookup hw
  exact hall _ hmem d.weekday d.weekday_lt

/-- A weekday the converter takes is the weekday of some days. -/
theorem exists_weekday (h : (weekdayPrefixes.lookup e.weekday).isSome = true) :
    ∃ w < 7, ∀ d : Date, d.weekday = w → e.onWeekday d = true := by
  have hall : ∀ p ∈ weekdayPrefixes, ∃ w, w < 7 ∧
      (Cron.weekdayField.holds p.1 w || (w == 0 && Cron.weekdayField.holds p.1 7)) = true := by decide
  obtain ⟨written, hw⟩ := Option.isSome_iff_exists.mp h
  have hmem := mem_of_lookup hw
  obtain ⟨w, hlt, hholds⟩ := hall _ hmem
  refine ⟨w, hlt, fun d hd => ?_⟩
  rw [Expression.onWeekday, hd]
  exact hholds

/-- The written expression is valid exactly where every value is in range. -/
theorem valid_specOf (hc : Converted e) : (specOf e).valid = e.inRange := by
  have hminute : OnCalendar.Chain.within 0 59 (chainOf e.minute) = Cron.minuteField.inRange e.minute :=
    within_chainOf (f := Cron.minuteField) hc.minute (by decide)
  have hhour : OnCalendar.Chain.within 0 23 (chainOf e.hour) = Cron.hourField.inRange e.hour :=
    within_chainOf (f := Cron.hourField) hc.hour (by decide)
  have hday : OnCalendar.Chain.within 1 31 (chainOf e.day) = Cron.dayField.inRange e.day := within_chainOf (f := Cron.dayField) hc.day (by decide)
  have hmonth : OnCalendar.Chain.within 1 12 (chainOf e.month) = Cron.monthField.inRange e.month :=
    within_chainOf (f := Cron.monthField) hc.month (by decide)
  have hyear : OnCalendar.Chain.within 1970 2199 none = true := rfl
  have hzero : OnCalendar.Chain.within 0 59 OnCalendar.zero = true := by decide
  simp only [OnCalendar.Spec.valid, specOf, Expression.inRange, hminute, hhour, hday, hmonth, hyear, hzero,
    inRange_weekday hc.weekday, Bool.true_and, Bool.and_true]
  ac_rfl

/-! ## The two schedules -/

/-- With every value in range, and at most one day field restricted, they are the same. -/
theorem elapsesIn_iff_fires (hc : Converted e) (hin : e.inRange = true)
    (hone : ¬ (restricted e.day = true ∧ restricted e.weekday = true)) (m : Minute) :
    (specOf e).elapsesIn m ↔ e.fires m = true := by
  have hfields := hin
  simp only [Expression.inRange, Bool.and_eq_true] at hfields
  obtain ⟨⟨⟨⟨hminute, hhour⟩, hday⟩, hmonth⟩, _⟩ := hfields
  have hm := holds_chainOf hc.minute hminute (v := m.minute) ⟨Nat.zero_le _, by have := m.minute.isLt; simp [Cron.minuteField]; omega⟩
  have hh := holds_chainOf hc.hour hhour (v := m.hour) ⟨Nat.zero_le _, by have := m.hour.isLt; simp [Cron.hourField]; omega⟩
  have hd := holds_chainOf hc.day hday (v := m.date.day) ⟨m.date.day_valid.1, m.date.day_le⟩
  have hmo := holds_chainOf hc.month hmonth (v := m.date.month) m.date.month_valid
  have hsecond : ∃ second < 60, OnCalendar.Chain.holds OnCalendar.zero second = true := ⟨0, by decide, rfl⟩
  have hyear : OnCalendar.Chain.holds none m.date.year = true := rfl
  have hon : e.firesOn m.date = (Cron.dayField.holds e.day m.date.day && e.onWeekday m.date) := by
    unfold Expression.firesOn
    rw [if_neg (by simpa using hone)]
  simp only [OnCalendar.Spec.elapsesIn, specOf, onWeekday_iff hc.weekday, hm, hh, hd, hmo, hyear, Expression.fires, hin, hon,
    Bool.and_eq_true, and_iff_left hsecond, true_and]
  tauto

/-- Two restricted day fields: some minute of a day that has the weekday alone. -/
theorem exists_fires_not_elapsesIn (hc : Converted e) (hin : e.inRange = true) (hday : restricted e.day = true)
    (hweekday : restricted e.weekday = true) : ∃ m, e.fires m = true ∧ ¬ (specOf e).elapsesIn m := by
  have hfields := hin
  simp only [Expression.inRange, Bool.and_eq_true] at hfields
  obtain ⟨⟨⟨⟨hinMinute, hinHour⟩, hinDay⟩, hinMonth⟩, _⟩ := hfields
  obtain ⟨minute, hminuteRange, hminute⟩ := exists_holds hc.minute hinMinute (Nat.zero_le 59)
  obtain ⟨hour, hhourRange, hhour⟩ := exists_holds hc.hour hinHour (Nat.zero_le 23)
  obtain ⟨month, hmonthRange, hmonth⟩ := exists_holds hc.month hinMonth (by decide : 1 ≤ 12)
  have hstar : e.day ≠ ['*'] := fun he => by rw [he] at hday; cases hday
  obtain ⟨day, hdayNumber, _⟩ := (inRange_plain hc.day hinDay).resolve_left hstar
  obtain ⟨w, hw, hnamed⟩ := exists_weekday hc.weekday
  obtain ⟨d, hdmonth, hdweekday, hne⟩ := exists_date month hmonthRange w hw day
  have hminuteLt : minute < 60 := Nat.lt_succ_of_le hminuteRange.2
  have hhourLt : hour < 24 := Nat.lt_succ_of_le hhourRange.2
  refine ⟨⟨d, ⟨hour, hhourLt⟩, ⟨minute, hminuteLt⟩⟩, ?_, fun h => ?_⟩
  · have hon : e.firesOn d = true := by
      unfold Expression.firesOn
      rw [hday, hweekday, hnamed d hdweekday]
      exact Bool.or_true _
    simp [Expression.fires, hin, hminute, hhour, hdmonth, hmonth, hon]
  · have hheld : OnCalendar.Chain.holds (chainOf e.day) d.day = true := h.2.2.2.1
    rw [chainOf, if_neg hstar, hdayNumber, Option.map_some, OnCalendar.holds_number, beq_iff_eq] at hheld
    exact hne hheld

/-- Some field holds a number that the field does not have. -/
def OutOfRange (e : Expression) : Prop := e.inRange = false

/-- What is converted is accepted and is the same schedule; a value out of its field's range is not converted. -/
structure PreservesSchedule (cron : Chars) : Prop where
  same : ∀ e text, readExpression cron = some e → cronToCalendar cron = some text →
    ∃ spec, OnCalendar.parse text = some spec ∧ ∀ m, spec.elapsesIn m ↔ e.fires m = true
  outOfRange : ∀ e, readExpression cron = some e → OutOfRange e → cronToCalendar cron = none

/-- Of the plain expressions, those with every value in range and at most one day field restricted. -/
def Faithful (e : Expression) : Prop :=
  e.inRange = true ∧ ¬ (restricted e.day = true ∧ restricted e.weekday = true)

theorem PreservesSchedule.faithful (h : PreservesSchedule cron) (he : readExpression cron = some e) (hc : Converted e) :
    Faithful e := by
  obtain ⟨text, htext⟩ := Option.isSome_iff_exists.mp ((cronToCalendar_isSome he).mpr hc)
  have hin : e.inRange = true := by
    by_contra hout
    rw [h.outOfRange e he (eq_false_of_ne_true hout)] at htext
    cases htext
  refine ⟨hin, fun ⟨hday, hweekday⟩ => ?_⟩
  obtain ⟨spec, hparse, hsame⟩ := h.same e text he htext
  rw [parse_cronToCalendar he hc htext, Option.filter_some, if_pos (by rw [valid_specOf hc]; exact hin)] at hparse
  obtain ⟨m, hfires, helapses⟩ := exists_fires_not_elapsesIn hc hin hday hweekday
  exact helapses (Option.some.inj hparse ▸ (hsame m).mpr hfires)

theorem preservesSchedule_of_faithful (h : ∀ e, readExpression cron = some e → Converted e → Faithful e) :
    PreservesSchedule cron := by
  refine ⟨fun e text he htext => ?_, fun e he hout => ?_⟩
  · have hc := (cronToCalendar_isSome he).mp (by rw [htext]; rfl)
    obtain ⟨hin, hone⟩ := h e he hc
    refine ⟨specOf e, ?_, elapsesIn_iff_fires hc hin hone⟩
    rw [parse_cronToCalendar he hc htext, Option.filter_some, if_pos (by rw [valid_specOf hc]; exact hin)]
  · by_contra hsome
    have hc := (cronToCalendar_isSome he).mp (Option.isSome_iff_ne_none.mpr hsome)
    rw [OutOfRange, (h e he hc).1] at hout
    cases hout

/-- An expression the converter would take keeps its schedule exactly where it is faithful. -/
theorem preservesSchedule_iff (cron : Chars) :
    PreservesSchedule cron ↔ ∀ e, readExpression cron = some e → Converted e → Faithful e :=
  ⟨fun h _ he hc => h.faithful he hc, preservesSchedule_of_faithful⟩

/-- Midnight of the first, and of every Monday. -/
def firstAndMondays : Expression := ⟨['0'], ['0'], ['1'], ['*'], ['1'], by decide⟩

/-- Midnight of the first and of every Monday becomes midnight of a first that is a Monday. -/
theorem preservesSchedule_both_days : ¬ PreservesSchedule "0 0 1 * 1".toList := by
  intro h
  have hplain : ∀ c : Char, ∀ n < 256, readDecimal [c] = some n → PlainField [c] := fun c n hn h => .inr ⟨n, hn, h⟩
  have hconverted : Converted firstAndMondays :=
    ⟨hplain '0' 0 (by decide) rfl, hplain '0' 0 (by decide) rfl, hplain '1' 1 (by decide) rfl, .inl rfl, rfl⟩
  exact (h.faithful (e := firstAndMondays) rfl hconverted).2 ⟨rfl, rfl⟩

/-- What is not converted is passed on as it stands. -/
theorem resolveCalendar_eq (schedule : Chars) : resolveCalendar schedule = schedule ∨
    cronToCalendar schedule = some (resolveCalendar schedule) := by
  unfold resolveCalendar
  split
  · cases h : cronToCalendar schedule with
    | none => exact .inl rfl
    | some text => exact .inr rfl
  · exact .inl rfl

end LinuxHardener.Scheduler
