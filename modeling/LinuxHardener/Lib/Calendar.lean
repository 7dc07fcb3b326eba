import Mathlib.Algebra.GroupWithZero.Nat
import Mathlib.Tactic.Common

/-
  The Gregorian calendar: dates, their weekdays, and the minutes of a day.

  What is proved:
    1. `exists_date` — every month has each weekday on a day other than a given one.
    2. `Date.ordinal_lt` — days are counted in the order of years, months and days.
-/
namespace LinuxHardener.Calendar

def isLeap (year : Nat) : Bool := year % 4 == 0 && (year % 100 != 0 || year % 400 == 0)

/-- The days of each month, January first. -/
def monthLengths (year : Nat) : List Nat := [31, if isLeap year then 29 else 28, 31, 30, 31, 30, 31, 31, 30, 31, 30, 31]

def daysInMonth (year month : Nat) : Nat := (monthLengths year).getD (month - 1) 0

structure Date where
  year : Nat
  month : Nat
  day : Nat
  month_valid : 1 ≤ month ∧ month ≤ 12
  day_valid : 1 ≤ day ∧ day ≤ daysInMonth year month

/-- The days from 31 December of the year 0 to the date. -/
def Date.ordinal (d : Date) : Nat :=
  let before := d.year - 1
  365 * before + before / 4 - before / 100 + before / 400 + ((monthLengths d.year).take (d.month - 1)).sum + d.day

/-- The weekday, counted from Sunday: the first day of the year 1 is a Monday. -/
def Date.weekday (d : Date) : Nat := d.ordinal % 7

structure Minute where
  date : Date
  hour : Fin 24
  minute : Fin 60

theorem Date.day_le (d : Date) : d.day ≤ 31 := by
  have hlen : ∀ n ∈ monthLengths d.year, n ≤ 31 := by
    unfold monthLengths
    split <;> decide
  refine Nat.le_trans d.day_valid.2 ?_
  rw [daysInMonth, List.getD_eq_getElem?_getD]
  cases h : (monthLengths d.year)[d.month - 1]? with
  | none => exact Nat.zero_le _
  | some n => exact hlen n (List.mem_of_getElem? h)

theorem Date.weekday_lt (d : Date) : d.weekday < 7 := Nat.mod_lt _ (by decide)

/-- A day of a month of 2024 that is in all months. -/
def sampleDate (month day : Nat) (hm : 1 ≤ month ∧ month ≤ 12) (hd : 1 ≤ day ∧ day ≤ 28) : Date where
  year := 2024
  month := month
  day := day
  month_valid := hm
  day_valid := by
    have hlen : ∀ m, m < 12 → 28 ≤ daysInMonth 2024 (m + 1) := by decide
    have := hlen (month - 1) (by omega)
    rw [Nat.sub_add_cancel hm.1] at this
    exact ⟨hd.1, Nat.le_trans hd.2 this⟩

/-- One of the first seven days of a month has the weekday. -/
theorem exists_first (month : Nat) (hm : 1 ≤ month ∧ month ≤ 12) (w : Nat) (hw : w < 7) :
    ∃ day, ∃ h : 1 ≤ day ∧ day ≤ 7, (sampleDate month day hm ⟨h.1, by omega⟩).weekday = w := by
  have hall : ∀ m, m < 12 → ∀ w, w < 7 → ∃ k, k < 7 ∧
      (365 * 2023 + 2023 / 4 - 2023 / 100 + 2023 / 400 + ((monthLengths 2024).take m).sum + (k + 1)) % 7 = w := by decide
  obtain ⟨k, hk, hday⟩ := hall (month - 1) (by omega) w hw
  exact ⟨k + 1, ⟨by omega, by omega⟩, hday⟩

/-- Seven days on, the weekday is the same. -/
theorem weekday_next {month day : Nat} (hm : 1 ≤ month ∧ month ≤ 12) (hd : 1 ≤ day ∧ day ≤ 7) :
    (sampleDate month (day + 7) hm ⟨by omega, by omega⟩).weekday =
      (sampleDate month day hm ⟨hd.1, by omega⟩).weekday := by
  have hordinal : (sampleDate month (day + 7) hm ⟨by omega, by omega⟩).ordinal =
      (sampleDate month day hm ⟨hd.1, by omega⟩).ordinal + 7 := rfl
  rw [Date.weekday, hordinal, Nat.add_mod_right]
  rfl

/-- Every month has each weekday on a day other than a given one. -/
theorem exists_date (month : Nat) (hm : 1 ≤ month ∧ month ≤ 12) (w : Nat) (hw : w < 7) (day : Nat) :
    ∃ d : Date, d.month = month ∧ d.weekday = w ∧ d.day ≠ day := by
  obtain ⟨first, hfirst, hweekday⟩ := exists_first month hm w hw
  by_cases he : first = day
  · exact ⟨_, rfl, (weekday_next hm hfirst).trans hweekday, fun h => by
      have : first + 7 = day := h
      omega⟩
  · exact ⟨_, rfl, hweekday, he⟩

/-! ## Earlier and later days -/

def daysBeforeMonth (year month : Nat) : Nat := ((monthLengths year).take (month - 1)).sum

def daysBeforeYear (year : Nat) : Nat := 365 * (year - 1) + (year - 1) / 4 - (year - 1) / 100 + (year - 1) / 400

def yearLength (year : Nat) : Nat := if isLeap year then 366 else 365

theorem Date.ordinal_eq (d : Date) : d.ordinal = daysBeforeYear d.year + daysBeforeMonth d.year d.month + d.day := rfl

theorem daysBeforeMonth_lt {year month later : Nat} (hm : 1 ≤ month) (hl : later ≤ 12) (h : month < later) :
    daysBeforeMonth year month + daysInMonth year month ≤ daysBeforeMonth year later := by
  have hmonths : ∀ leap : Bool, ∀ m : Fin 12, ∀ l : Fin 12, m < l →
      (([31, if leap then 29 else 28, 31, 30, 31, 30, 31, 31, 30, 31, 30, 31] : List Nat).take m).sum +
        ([31, if leap then 29 else 28, 31, 30, 31, 30, 31, 31, 30, 31, 30, 31] : List Nat).getD m 0 ≤
        (([31, if leap then 29 else 28, 31, 30, 31, 30, 31, 31, 30, 31, 30, 31] : List Nat).take l).sum := by decide
  have hlater := hmonths (isLeap year) ⟨month - 1, by omega⟩ ⟨later - 1, by omega⟩ (by rw [Fin.mk_lt_mk]; omega)
  exact hlater

theorem daysBeforeMonth_le {year month : Nat} (hm : 1 ≤ month) (hl : month ≤ 12) :
    daysBeforeMonth year month + daysInMonth year month ≤ yearLength year := by
  have hmonths : ∀ leap : Bool, ∀ m : Fin 12,
      (([31, if leap then 29 else 28, 31, 30, 31, 30, 31, 31, 30, 31, 30, 31] : List Nat).take m).sum +
        ([31, if leap then 29 else 28, 31, 30, 31, 30, 31, 31, 30, 31, 30, 31] : List Nat).getD m 0 ≤ (if leap then 366 else 365) := by
    decide
  exact hmonths (isLeap year) ⟨month - 1, by omega⟩

theorem isLeap_iff {year : Nat} : isLeap year = true ↔ 4 ∣ year ∧ (¬ 100 ∣ year ∨ 400 ∣ year) := by
  simp [isLeap, Nat.dvd_iff_mod_eq_zero]

theorem daysBeforeYear_succ {year : Nat} (h : 1 ≤ year) : daysBeforeYear (year + 1) = daysBeforeYear year + yearLength year := by
  obtain ⟨n, rfl⟩ : ∃ n, year = n + 1 := ⟨year - 1, by omega⟩
  have hfours : (n + 1) / 4 = n / 4 + if 4 ∣ n + 1 then 1 else 0 := Nat.succ_div
  have hhundreds : (n + 1) / 100 = n / 100 + if 100 ∣ n + 1 then 1 else 0 := Nat.succ_div
  have hcenturies : (n + 1) / 400 = n / 400 + if 400 ∣ n + 1 then 1 else 0 := Nat.succ_div
  have hfewer : n / 100 ≤ n / 4 := Nat.div_le_div_left (by decide) (by decide)
  have hfour : 100 ∣ n + 1 → 4 ∣ n + 1 := Nat.dvd_trans (by decide)
  have hhundred : 400 ∣ n + 1 → 100 ∣ n + 1 := Nat.dvd_trans (by decide)
  rw [daysBeforeYear, daysBeforeYear, yearLength, Nat.add_sub_cancel, Nat.add_sub_cancel, hfours, hhundreds, hcenturies]
  generalize n / 4 = fours at *
  generalize n / 100 = hundreds at *
  generalize n / 400 = centuries at *
  by_cases hc : 400 ∣ n + 1
  · have hleap := isLeap_iff.mpr ⟨hfour (hhundred hc), .inr hc⟩
    rw [if_pos (hfour (hhundred hc)), if_pos (hhundred hc), if_pos hc, if_pos hleap]
    omega
  · by_cases hh : 100 ∣ n + 1
    · have hcommon : ¬ isLeap (n + 1) = true := fun hleap => (isLeap_iff.mp hleap).2.elim (· hh) hc
      rw [if_pos (hfour hh), if_pos hh, if_neg hc, if_neg hcommon]
      omega
    · by_cases hf : 4 ∣ n + 1
      · rw [if_pos hf, if_neg hh, if_neg hc, if_pos (isLeap_iff.mpr ⟨hf, .inl hh⟩)]
        omega
      · have hcommon : ¬ isLeap (n + 1) = true := fun hleap => hf (isLeap_iff.mp hleap).1
        rw [if_neg hf, if_neg hh, if_neg hc, if_neg hcommon]
        omega

theorem daysBeforeYear_lt {year later : Nat} (hy : 1 ≤ year) (h : year < later) :
    daysBeforeYear year + yearLength year ≤ daysBeforeYear later := by
  induction later with
  | zero => cases h
  | succ later ih =>
    rcases Nat.eq_or_lt_of_le (Nat.le_of_lt_succ h) with rfl | hlt
    · exact Nat.le_of_eq (daysBeforeYear_succ hy).symm
    · rw [daysBeforeYear_succ (Nat.le_trans hy (Nat.le_of_lt hlt))]
      exact Nat.le_trans (ih hlt) (Nat.le_add_right ..)

/-- Days are counted in the order of years, months and days. -/
theorem Date.ordinal_lt {d e : Date} (hy : 1 ≤ d.year)
    (h : d.year < e.year ∨ d.year = e.year ∧ (d.month < e.month ∨ d.month = e.month ∧ d.day < e.day)) : d.ordinal < e.ordinal := by
  rw [d.ordinal_eq, e.ordinal_eq]
  have hday := d.day_valid
  have hlater := e.day_valid
  obtain hyear | ⟨hyear, hmonth | ⟨hmonth, hdays⟩⟩ := h
  · have hend : daysBeforeMonth d.year d.month + daysInMonth d.year d.month ≤ yearLength d.year :=
      daysBeforeMonth_le d.month_valid.1 d.month_valid.2
    have hyears := daysBeforeYear_lt hy hyear
    omega
  · have hmonths : daysBeforeMonth d.year d.month + daysInMonth d.year d.month ≤ daysBeforeMonth d.year e.month :=
      daysBeforeMonth_lt d.month_valid.1 e.month_valid.2 hmonth
    rw [← hyear]
    omega
  · rw [hyear, hmonth]
    omega

end LinuxHardener.Calendar
