import Mathlib.Tactic

/-!
# The calendar

Dates of the Gregorian calendar are counted in days from 1970-01-01, and moments in seconds. Every
day from then on is the day of exactly one date. The number of a day is given by the lengths of the
years and months before it; closed forms of these sums follow.
-/

namespace Calendar

/-- A year of 366 days. -/
def IsLeap (year : ℕ) : Prop := year % 4 = 0 ∧ (year % 100 ≠ 0 ∨ year % 400 = 0)

instance instDecidableIsLeap (year : ℕ) : Decidable (IsLeap year) :=
  inferInstanceAs (Decidable (_ ∧ _))

def yearLength (year : ℕ) : ℕ := if IsLeap year then 366 else 365

def monthLength (year : ℕ) : ℕ → ℕ
  | 2 => if IsLeap year then 29 else 28
  | 4 | 6 | 9 | 11 => 30
  | _ => 31

/-- The days of the first years from 1970 on. -/
def daysOfYears : ℕ → ℕ
  | 0 => 0
  | n + 1 => daysOfYears n + yearLength (1970 + n)

/-- The days of the first months of a year. -/
def daysOfMonths (year : ℕ) : ℕ → ℕ
  | 0 => 0
  | n + 1 => daysOfMonths year n + monthLength year (n + 1)

/-- A date from 1970 on. -/
structure Date where
  year : ℕ
  month : ℕ
  day : ℕ
  deriving DecidableEq

structure Date.Valid (d : Date) : Prop where
  year : 1970 ≤ d.year
  month : 1 ≤ d.month ∧ d.month ≤ 12
  day : 1 ≤ d.day ∧ d.day ≤ monthLength d.year d.month

/-- The number of days from 1970-01-01 to a date. -/
def Date.number (d : Date) : ℕ :=
  daysOfYears (d.year - 1970) + daysOfMonths d.year (d.month - 1) + (d.day - 1)

/-- A date with a time of the day. -/
structure Moment extends Date where
  hour : ℕ
  minute : ℕ
  second : ℕ
  deriving DecidableEq

structure Moment.Valid (m : Moment) : Prop where
  date : m.toDate.Valid
  hour : m.hour < 24
  minute : m.minute < 60
  second : m.second < 60

/-- The number of seconds from the beginning of 1970 to a moment. -/
def Moment.posix (m : Moment) : ℕ :=
  m.toDate.number * 86400 + m.hour * 3600 + m.minute * 60 + m.second

/-! ### Closed forms -/

variable {year month n : ℕ}

/-- The leap years before a year are counted by the multiples of 4, 100 and 400. -/
theorem daysOfYears_eq (n : ℕ) :
  daysOfYears n + 477 + (1969 + n) / 100 = 365 * n + (1969 + n) / 4 + (1969 + n) / 400
  := by
  induction n with
  | zero => rfl
  | succ n ih =>
      -- the quotients grow when the next year is a multiple
      have hyear : 1969 + (n + 1) = 1969 + n + 1 := rfl
      have hleap : IsLeap (1970 + n) ↔ 4 ∣ 1969 + n + 1 ∧ (¬ 100 ∣ 1969 + n + 1 ∨ 400 ∣ 1969 + n + 1) := by
        rw [IsLeap, Nat.dvd_iff_mod_eq_zero, Nat.dvd_iff_mod_eq_zero, Nat.dvd_iff_mod_eq_zero,
          show 1970 + n = 1969 + n + 1 by omega]
      have hcentury : 400 ∣ 1969 + n + 1 → 100 ∣ 1969 + n + 1 := Nat.dvd_trans (by decide)
      have hfourth : 100 ∣ 1969 + n + 1 → 4 ∣ 1969 + n + 1 := Nat.dvd_trans (by decide)
      rw [daysOfYears, yearLength, hyear, Nat.succ_div, Nat.succ_div, Nat.succ_div]
      simp only [hleap]
      generalize 1969 + n = y at ih hcentury hfourth ⊢
      by_cases h400 : 400 ∣ y + 1
      · have h100 := hcentury h400
        have h4 := hfourth h100
        rw [if_pos ⟨h4, .inr h400⟩, if_pos h100, if_pos h4, if_pos h400]
        omega
      by_cases h100 : 100 ∣ y + 1
      · have h4 := hfourth h100
        rw [if_neg fun h => h.2.elim (fun hn => hn h100) h400, if_pos h100, if_pos h4, if_neg h400]
        omega
      by_cases h4 : 4 ∣ y + 1
      · rw [if_pos ⟨h4, .inl h100⟩, if_neg h100, if_pos h4, if_neg h400]
        omega
      · rw [if_neg fun h => h4 h.1, if_neg h100, if_neg h4, if_neg h400]
        omega

/-- The days of the first months of a year that is not a leap year. -/
def monthTable : ℕ → ℕ
  | 0 => 0
  | 1 => 31
  | 2 => 59
  | 3 => 90
  | 4 => 120
  | 5 => 151
  | 6 => 181
  | 7 => 212
  | 8 => 243
  | 9 => 273
  | 10 => 304
  | 11 => 334
  | _ => 365

theorem daysOfMonths_eq (year : ℕ) (h : n ≤ 12) :
  daysOfMonths year n = monthTable n + if 2 ≤ n ∧ IsLeap year then 1 else 0
  := by
  by_cases hleap : IsLeap year
  · interval_cases n
    all_goals simp [daysOfMonths, monthLength, monthTable, hleap]
  · interval_cases n
    all_goals simp [daysOfMonths, monthLength, monthTable, hleap]

theorem daysOfMonths_year (year : ℕ) : daysOfMonths year 12 = yearLength year := by
  rw [daysOfMonths_eq year le_rfl, yearLength]
  by_cases hleap : IsLeap year
  · simp [monthTable, hleap]
  · simp [monthTable, hleap]

theorem monthLength_pos (year month : ℕ) : 28 ≤ monthLength year month := by
  unfold monthLength
  split
  · split_ifs
    · decide
    · decide
  all_goals decide

theorem monthLength_le (year month : ℕ) : monthLength year month ≤ 31 := by
  unfold monthLength
  split
  · split_ifs
    · decide
    · decide
  all_goals decide

/-- The number of a date, from the table of the months. -/
theorem Date.Valid.number_eq {d : Date} (h : d.Valid) :
  d.number + 477 + (d.year - 1) / 100 = 365 * (d.year - 1970) + (d.year - 1) / 4 + (d.year - 1) / 400 +
    (monthTable (d.month - 1) + if 3 ≤ d.month ∧ IsLeap d.year then 1 else 0) + (d.day - 1)
  := by
  obtain ⟨hyear, hmonth, hday⟩ := h
  have hyears := daysOfYears_eq (d.year - 1970)
  have hprevious : 1969 + (d.year - 1970) = d.year - 1 := by omega
  have hiff : 2 ≤ d.month - 1 ↔ 3 ≤ d.month := by omega
  rw [hprevious] at hyears
  rw [Date.number, daysOfMonths_eq d.year (show d.month - 1 ≤ 12 by omega)]
  simp only [hiff]
  omega

/-! ### Every day has a date -/

/-- The date of the next day. -/
theorem exists_next {d : Date} (h : d.Valid) : ∃ d' : Date, d'.Valid ∧ d'.number = d.number + 1 := by
  obtain ⟨hyear, hmonth, hday⟩ := h
  by_cases hsame : d.day < monthLength d.year d.month
  · refine ⟨⟨d.year, d.month, d.day + 1⟩, ⟨hyear, hmonth, Nat.succ_pos _, hsame⟩, ?_⟩
    rw [Date.number, Date.number]
    dsimp only
    omega
  · have hlast : d.day = monthLength d.year d.month := by omega
    obtain ⟨m, hm⟩ : ∃ m, d.month = m + 1 := ⟨d.month - 1, by omega⟩
    by_cases hmonths : d.month < 12
    · have hlength := monthLength_pos d.year (d.month + 1)
      refine ⟨⟨d.year, d.month + 1, 1⟩, ⟨hyear, by dsimp only; omega, le_rfl, by dsimp only; omega⟩, ?_⟩
      have hsum : daysOfMonths d.year d.month
          = daysOfMonths d.year (d.month - 1) + monthLength d.year d.month := by
        rw [hm]
        rfl
      rw [Date.number, Date.number, hlast]
      dsimp only
      rw [Nat.add_sub_cancel, hsum]
      omega
    · have hlength := monthLength_pos (d.year + 1) 1
      refine ⟨⟨d.year + 1, 1, 1⟩,
        ⟨by dsimp only; omega, ⟨le_rfl, by dsimp only; omega⟩, le_rfl, by dsimp only; omega⟩, ?_⟩
      obtain ⟨n, hn⟩ : ∃ n, d.year = 1970 + n := ⟨d.year - 1970, by omega⟩
      have hm11 : d.month - 1 = 11 := by omega
      have hsum : daysOfMonths d.year 12 = daysOfMonths d.year 11 + monthLength d.year 12 := rfl
      have hm12 : d.month = 12 := by omega
      have hyears : daysOfYears (d.year + 1 - 1970)
          = daysOfYears (d.year - 1970) + yearLength d.year := by
        rw [hn, show 1970 + n + 1 - 1970 = n + 1 by omega, Nat.add_sub_cancel_left]
        rfl
      have hzero : daysOfMonths (d.year + 1) (1 - 1) = 0 := rfl
      rw [daysOfMonths_year] at hsum
      rw [Date.number, Date.number, hlast, hm11, hm12]
      dsimp only
      rw [hyears, hzero, hsum]
      have := monthLength_pos d.year 12
      omega

theorem exists_date (n : ℕ) : ∃ d : Date, d.Valid ∧ d.number = n := by
  induction n with
  | zero => exact ⟨⟨1970, 1, 1⟩, ⟨le_rfl, by decide, by decide⟩, rfl⟩
  | succ n ih =>
      obtain ⟨d, hd, hn⟩ := ih
      obtain ⟨d', hd', hn'⟩ := exists_next hd
      exact ⟨d', hd', by rw [hn', hn]⟩

/-- Every second from 1970 on is a moment. -/
theorem exists_moment (t : ℕ) : ∃ m : Moment, m.Valid ∧ m.posix = t := by
  obtain ⟨d, hd, hn⟩ := exists_date (t / 86400)
  refine ⟨⟨d, t / 3600 % 24, t / 60 % 60, t % 60⟩, ⟨hd, ?_, ?_, ?_⟩, ?_⟩
  · apply Nat.mod_lt _ (by decide)
  · apply Nat.mod_lt _ (by decide)
  · apply Nat.mod_lt _ (by decide)
  · rw [Moment.posix, hn]
    dsimp only
    omega

/-- A year has at least 365 days. -/
theorem Date.Valid.year_le {d : Date} (h : d.Valid) : 365 * d.year ≤ d.number + 365 * 1970 := by
  have hnumber := h.number_eq
  obtain ⟨hyear, -, -⟩ := h
  omega

end Calendar
