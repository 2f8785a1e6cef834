import Cofuos.Lib.Calendar
import Mathlib.Data.UInt

/-!
# The real time clock

Once a second the clock interrupts the kernel, which then counts a second, or computes the POSIX time
from the registers if it has lost track. The registers are in binary or in BCD, and the hour counts to
24 or to 12. The program `date` makes a date and a time of the POSIX time again. The definitions
follow `kernel/dev/rtc.cpp` and `app/date.cpp`.

The program is right for every second. The kernel is not: its test for a leap year has its branches
exchanged, which is felt from March on, and it takes 12 AM for noon and 12 PM for midnight.
-/

namespace UOS

open Calendar

/-! ### The kernel -/

/-- `RTC` -/
structure Rtc where
  time : ℕ
  mode : UInt8
  centuryIndex : UInt8
  reload : Bool

namespace Rtc

/-- The registers are in binary. -/
def binary (s : Rtc) : Bool := s.mode &&& 0x04 ≠ 0

/-- The hour counts to 24. -/
def fullDay (s : Rtc) : Bool := s.mode &&& 0x02 ≠ 0

/-- `RTC::convert` -/
def convert (binary : Bool) (val : UInt8) : UInt8 :=
  if binary = true then val else (val >>> 4) * 10 + (val &&& 0x0F)

/-- The hour, as `update` reads it. -/
def readHour (binary fullDay : Bool) (hour : UInt8) : UInt8 :=
  if fullDay = true then convert binary hour
  else
    let pm := hour &&& 0x80 ≠ 0
    let hour := convert binary (hour &&& 0x7F)
    let hour := if pm then hour + 12 else hour
    if hour = 24 then 0 else hour

/-- The century, which is taken to be the 21st if there is no register for it. -/
def readCentury (s : Rtc) (reg : UInt8 → UInt8) : UInt8 :=
  if s.centuryIndex ≠ 0 then convert s.binary (reg s.centuryIndex) else 20

/-- `month_table` -/
def monthTable : List ℕ := [0, 31, 59, 90, 120, 151, 181, 212, 243, 273, 304, 334]

/-- The leap years before a year, from 1970 on. -/
def leapCount (year : ℕ) : ℕ :=
  let leapCount := (year - 1969) / 4
  if year > 2100 then
    let centuryCount := (year - 1) / 100 - 20
    leapCount - (centuryCount - centuryCount / 4)
  else leapCount

/-- The test for a leap year. -/
def isLeap (year : ℕ) : Bool := if year % 100 ≠ 0 then 0 == year % 400 else 0 == year % 4

/-- The POSIX time of a date and a time of the day. -/
def posixTime (year month date hour minute second : ℕ) : ℕ :=
  let daysOfYear := monthTable.getD (month - 1) 0 + date - 1
  let leapCount := leapCount year + if month > 2 then (isLeap year).toNat else 0
  let totalDays := (year - 1970) * 365 + leapCount + daysOfYear
  totalDays * 86400 + hour * 3600 + minute * 60 + second

/-- The values that `update` rejects. -/
def rejects (century year month date hour minute second : UInt8) : Bool :=
  century < 20 ∨ year > 99 ∨ month = 0 ∨ month > 12 ∨ date = 0 ∨ date > 31 ∨ hour > 23 ∨
    minute > 59 ∨ second > 59

/-- `RTC::update`, with the registers that it reads. -/
def update (reg : UInt8 → UInt8) (s : Rtc) : Rtc :=
  if reg 0x0C &&& 0x10 ≠ 0 then
    let second := convert s.binary (reg 0)
    -- the time is not counted on a reload
    let s := if s.reload = true then s else { s with time := s.time + 1 }
    if s.reload = true ∨ s.time % 4 ≠ second.toNat % 4 then
      let minute := convert s.binary (reg 2)
      let hour := readHour s.binary s.fullDay (reg 4)
      let date := convert s.binary (reg 7)
      let month := convert s.binary (reg 8)
      let year := convert s.binary (reg 9)
      let century := s.readCentury reg
      if rejects century year month date hour minute second = true then s
      else
        { s with
          time := posixTime (century.toNat * 100 + year.toNat) month.toNat date.toNat hour.toNat
            minute.toNat second.toNat
          reload := false }
    else s
  else s

end Rtc

/-! ### The program -/

/-- `show_date`: the numbers that it prints. -/
def showDate (time : ℕ) : ℕ × ℕ × ℕ :=
  let days := time / 86400 + 719468
  let era := days / 146097 % 2 ^ 32
  let doe := days % 146097
  let yoe := (doe - doe / 1460 + doe / 36524 - if doe ≥ 146096 then 1 else 0) / 365
  let doy := doe - (yoe * 365 + yoe / 4 - yoe / 100)
  let mp := (doy * 5 + 2) / 153
  let year := (era * 400 + yoe) % 2 ^ 32
  let month := if mp < 10 then mp + 3 else mp - 9
  let date := 1 + doy - (153 * mp + 2) / 5
  let year := if month ≤ 2 then (year + 1) % 2 ^ 32 else year
  (year, month, date)

/-- `show_time`: the characters that it prints. -/
def showTime (time : ℕ) : List ℕ :=
  let sec := time % 60
  let time := time / 60
  let min := time % 60
  let time := time / 60
  let hour := time % 24
  [0x30 + hour / 10, 0x30 + hour % 10, 0x3A, 0x30 + min / 10, 0x30 + min % 10, 0x3A,
    0x30 + sec / 10, 0x30 + sec % 10]

/-- A time of the day as it is written. -/
def digits (m : Moment) : List ℕ :=
  [0x30 + m.hour / 10, 0x30 + m.hour % 10, 0x3A, 0x30 + m.minute / 10, 0x30 + m.minute % 10, 0x3A,
    0x30 + m.second / 10, 0x30 + m.second % 10]

/-! ### Dates and days -/

/-- The year of the era is found from the day of the era. -/
theorem yoe_of_doe {q s u doy doe : ℕ} (hq : q ≤ 3) (hs : s ≤ 24) (hu : u ≤ 3) (hdoy : doy ≤ 365)
    (hdoe : doe = 36524 * q + 1461 * s + 365 * u + doy)
    (hleap : doy = 365 → u = 3 ∧ (s < 24 ∨ q = 3)) :
  (doe - doe / 1460 + doe / 36524 - if doe ≥ 146096 then 1 else 0) / 365 = 100 * q + 4 * s + u
  := by
  -- the day that makes the era a multiple of 4 centuries long is its last one
  have hcentury : doe / 36524 = if doe = 146096 then 4 else q := by
    split_ifs <;> lia
  rw [hcentury]
  split_ifs <;> omega

/-- The days before a month, in a year that begins with March. -/
def marchTable (mp : ℕ) : ℕ := (153 * mp + 2) / 5

/-- The month is found from the day of the year. -/
theorem mp_of_doy {mp day doy : ℕ} (hmp : mp ≤ 11) (hday : 1 ≤ day)
    (hlast : day ≤ if mp = 11 then 29 else marchTable (mp + 1) - marchTable mp)
    (hdoy : doy = marchTable mp + (day - 1)) :
  (doy * 5 + 2) / 153 = mp ∧ 1 + doy - marchTable mp = day ∧ doy ≤ 365 ∧
    (doy = 365 → mp = 11 ∧ day = 29)
  := by
  rw [marchTable, marchTable] at hlast
  rw [marchTable] at hdoy ⊢
  interval_cases mp
  all_goals
    norm_num at hlast hdoy ⊢
    lia

/-- A date and the number of its day, seen in a year that begins with March. -/
structure FromMarch (number year month day y mp : ℕ) : Prop where
  le : mp ≤ 11
  year_eq : year = if month ≤ 2 then y + 1 else y
  month_eq : month = if mp < 10 then mp + 3 else mp - 9
  pos : 1 ≤ day
  last : day ≤ if mp = 11 then 29 else marchTable (mp + 1) - marchTable mp
  leap : mp = 11 → day = 29 → IsLeap (y + 1)
  number_eq : number + 719468 + y / 100 = 365 * y + y / 4 + y / 400 + marchTable mp + (day - 1)

/-- The months from March on. -/
theorem march_of_le {month : ℕ} (year : ℕ) (h : 3 ≤ month) (h' : month ≤ 12) :
  Calendar.monthTable (month - 1) = 59 + marchTable (month - 3) ∧
    monthLength year month = marchTable (month - 3 + 1) - marchTable (month - 3)
  := by
  interval_cases month
  all_goals exact ⟨rfl, rfl⟩

/-- January and February come after the months from March on. -/
theorem march_of_lt {month : ℕ} (year : ℕ) (h : 1 ≤ month) (h' : month ≤ 2) :
  Calendar.monthTable (month - 1) + 306 = marchTable (month + 9) ∧
    monthLength year month ≤
      if month + 9 = 11 then 29 else marchTable (month + 9 + 1) - marchTable (month + 9)
  := by
  interval_cases month
  · exact ⟨rfl, le_rfl⟩
  · refine ⟨rfl, ?_⟩
    rw [if_pos rfl, monthLength]
    split_ifs
    · decide
    · decide

/-- January and February belong to the year before. -/
theorem fromMarch {d : Date} (h : d.Valid) :
  ∃ y mp, FromMarch d.number d.year d.month d.day y mp
  := by
  have hnumber := h.number_eq
  obtain ⟨hyear, ⟨hmonth, hmonth'⟩, hday, hlast⟩ := h
  generalize d.number = number at hnumber ⊢
  generalize d.year = year at *
  generalize d.month = month at *
  generalize d.day = day at *
  by_cases hearly : month ≤ 2
  · obtain ⟨htable, hlength⟩ := march_of_lt year hmonth hearly
    rw [if_neg (by omega), Nat.add_zero] at hnumber
    use year - 1, month + 9
    constructor
    · omega
    · rw [if_pos hearly]
      lia
    · rw [if_neg (by omega)]
      omega
    · apply hday
    · apply hlast.trans hlength
    · intro h11 h29
      obtain rfl : month = 2 := by omega
      rw [Nat.sub_add_cancel (by omega)]
      by_contra hleap
      rw [monthLength, if_neg hleap] at hlast
      omega
    · rw [← htable]
      lia
  · obtain ⟨htable, hlength⟩ := march_of_le year (by omega) hmonth'
    rw [htable] at hnumber
    use year, month - 3
    constructor
    · omega
    · rw [if_neg hearly]
    · rw [if_pos (by omega)]
      omega
    · apply hday
    · rw [if_neg (by omega), ← hlength]
      apply hlast
    · intro h11
      omega
    · -- the day that a leap year has more lies before March
      by_cases hleap : IsLeap year
      · rw [if_pos ⟨by omega, hleap⟩] at hnumber
        rw [IsLeap] at hleap
        lia
      · rw [if_neg fun h => hleap h.2] at hnumber
        rw [IsLeap] at hleap
        omega

/-- A year within its era. -/
theorem exists_yoe (y : ℕ) :
  ∃ e q s u, q ≤ 3 ∧ s ≤ 24 ∧ u ≤ 3 ∧ y = 400 * e + (100 * q + 4 * s + u)
  := by
  refine ⟨y / 400, y % 400 / 100, y % 100 / 4, y % 4, ?_⟩
  omega

/-- The leap years up to a year within its era. -/
theorem era_div (e : ℕ) {q s u : ℕ} (hq : q ≤ 3) (hs : s ≤ 24) (hu : u ≤ 3) :
  (400 * e + (100 * q + 4 * s + u)) / 4 = 100 * e + 25 * q + s ∧
    (400 * e + (100 * q + 4 * s + u)) / 100 = 4 * e + q ∧
    (400 * e + (100 * q + 4 * s + u)) / 400 = e
  := by
  refine ⟨?_, ?_, ?_⟩
  · lia
  · lia
  · lia

/-- What the program computes of a day of an era. -/
theorem showDate_of_era {time e q s u doy mp day : ℕ} (hq : q ≤ 3) (hs : s ≤ 24) (hu : u ≤ 3)
    (hdoy : doy ≤ 365) (hleap : doy = 365 → u = 3 ∧ (s < 24 ∨ q = 3))
    (htime : time / 86400 + 719468 = 146097 * e + (36524 * q + 1461 * s + 365 * u + doy))
    (hfits : 400 * e + (100 * q + 4 * s + u) + 1 < 2 ^ 32) (hmp : (doy * 5 + 2) / 153 = mp)
    (hday : 1 + doy - (153 * mp + 2) / 5 = day) :
  showDate time =
    ((if (if mp < 10 then mp + 3 else mp - 9) ≤ 2 then 400 * e + (100 * q + 4 * s + u) + 1
      else 400 * e + (100 * q + 4 * s + u)), (if mp < 10 then mp + 3 else mp - 9), day)
  := by
  have h4 : (100 * q + 4 * s + u) / 4 = 25 * q + s := by lia
  have h100 : (100 * q + 4 * s + u) / 100 = q := by lia
  generalize hdoe : 36524 * q + 1461 * s + 365 * u + doy = doe at htime
  have hyoe := yoe_of_doe hq hs hu hdoy hdoe.symm hleap
  have hlt : doe < 146097 := by lia
  have hera : (146097 * e + doe) / 146097 % 2 ^ 32 = e := by omega
  have hrest : (146097 * e + doe) % 146097 = doe := by lia
  have hdoy' : doe - ((100 * q + 4 * s + u) * 365 + (25 * q + s) - q) = doy := by lia
  have hyears : (e * 400 + (100 * q + 4 * s + u)) % 2 ^ 32 = 400 * e + (100 * q + 4 * s + u) := by
    rw [Nat.mul_comm, Nat.mod_eq_of_lt (by lia)]
  simp only [showDate, htime, hera, hrest, hyoe, h4, h100, hdoy', hmp, hday, hyears, Nat.mod_eq_of_lt hfits]

/-- The program finds the date of a day, as long as the year fits into a `dword`. -/
theorem showDate_eq {d : Date} (h : d.Valid) (hyear : d.year + 1 < 2 ^ 32) {time : ℕ}
    (htime : time / 86400 = d.number) :
  showDate time = (d.year, d.month, d.day)
  := by
  obtain ⟨y, mp, hle, hyear', hmonth, hpos, hlast, hleap, hnumber⟩ := fromMarch h
  obtain ⟨e, q, s, u, hq, hs, hu, rfl⟩ := exists_yoe y
  obtain ⟨hmp, hday, hdoy, hend⟩ := mp_of_doy hle hpos hlast rfl
  obtain ⟨h4, h100, h400⟩ := era_div e hq hs hu
  rw [h4, h100, h400, ← htime] at hnumber
  have hleap' : marchTable mp + (d.day - 1) = 365 → u = 3 ∧ (s < 24 ∨ q = 3) := by
    intro h365
    obtain ⟨h11, h29⟩ := hend h365
    have hyoe := hleap h11 h29
    rw [IsLeap] at hyoe
    lia
  have hfits : 400 * e + (100 * q + 4 * s + u) + 1 < 2 ^ 32 := by
    split_ifs at hyear' <;> lia
  rw [showDate_of_era hq hs hu hdoy hleap' (by omega) hfits hmp hday, ← hmonth, ← hyear']

/-- The program finds the time of the day of a second. -/
theorem showTime_posix {m : Moment} (h : m.Valid) : showTime m.posix = digits m := by
  obtain ⟨-, hhour, hminute, hsecond⟩ := h
  have hsec : m.posix % 60 = m.second := by
    rw [Moment.posix]
    lia
  have hmin : m.posix / 60 % 60 = m.minute := by
    rw [Moment.posix]
    omega
  have hh : m.posix / 60 / 60 % 24 = m.hour := by
    rw [Moment.posix]
    omega
  rw [showTime, digits, hsec, hmin, hh]

/-- A time of the day is known from how it is written. -/
theorem digits_injective {m m' : Moment} (h : digits m = digits m') :
  m.hour = m'.hour ∧ m.minute = m'.minute ∧ m.second = m'.second
  := by
  simp only [digits, List.cons.injEq, and_true] at h
  lia

/-- The program shows a date and a time exactly for the second they belong to. -/
theorem shows_iff {m : Moment} (h : m.Valid) {time : ℕ} (hyear : m.year + 1 < 2 ^ 32)
    (htime : time < 2 ^ 50) :
  showDate time = (m.year, m.month, m.day) ∧ showTime time = digits m ↔ time = m.posix
  := by
  have hday : ∀ {m : Moment}, m.Valid → m.posix / 86400 = m.toDate.number := by
    intro m hm
    obtain ⟨-, hhour, hminute, hsecond⟩ := hm
    rw [Moment.posix]
    omega
  constructor
  · rintro ⟨hdate, hclock⟩
    obtain ⟨m', hm', rfl⟩ := exists_moment time
    have hbound := hm'.date.year_le
    have hnumber := hday hm'
    rw [showDate_eq hm'.date (by omega) hnumber, Prod.mk.injEq, Prod.mk.injEq] at hdate
    rw [showTime_posix hm'] at hclock
    obtain ⟨hhour, hminute, hsecond⟩ := digits_injective hclock
    have hsame : m'.toDate = m.toDate := by
      obtain ⟨hy, hmo, hd⟩ := hdate
      cases hdate' : m'.toDate with
      | mk year month day =>
          cases hdate'' : m.toDate with
          | mk year' month' day' =>
              rw [hdate', hdate''] at hy hmo hd
              dsimp only at hy hmo hd
              rw [hy, hmo, hd]
    rw [Moment.posix, Moment.posix, hsame, hhour, hminute, hsecond]
  · rintro rfl
    exact ⟨showDate_eq h.date hyear (hday h), showTime_posix h⟩

/-! ### Registers -/

namespace Rtc

/-- A number in a register. -/
def encode (binary : Bool) (v : ℕ) : UInt8 :=
  if binary = true then v.toUInt8 else (v / 10 * 16 + v % 10).toUInt8

/-- An hour in a register. With 12 hours, the highest bit tells the afternoon, and noon and midnight
are 12. -/
def encodeHour (binary fullDay : Bool) (hour : ℕ) : UInt8 :=
  if fullDay = true then encode binary hour
  else
    encode binary (if hour % 12 = 0 then 12 else hour % 12) ||| if hour ≥ 12 then 0x80 else 0

/-- The registers show a moment. -/
structure Shows (s : Rtc) (reg : UInt8 → UInt8) (m : Moment) : Prop where
  second : reg 0 = encode s.binary m.second
  minute : reg 2 = encode s.binary m.minute
  hour : reg 4 = encodeHour s.binary s.fullDay m.hour
  date : reg 7 = encode s.binary m.day
  month : reg 8 = encode s.binary m.month
  year : reg 9 = encode s.binary (m.year % 100)
  century : if s.centuryIndex = 0 then m.year / 100 = 20
    else reg s.centuryIndex = encode s.binary (m.year / 100) ∧
      m.year / 100 ≤ if s.binary = true then 255 else 99

/-- What is in a register is read back. -/
theorem convert_encode (binary : Bool) {v : ℕ} (h : v ≤ if binary = true then 255 else 99) :
  (convert binary (encode binary v)).toNat = v
  := by
  cases binary with
  | true =>
      rw [if_pos rfl] at h
      change v.toUInt8.toNat = v
      rw [Nat.toUInt8, UInt8.toNat_ofNat']
      omega
  | false =>
      have hall : ∀ v < 100, (convert false (encode false v)).toNat = v := by decide
      rw [if_neg (by decide)] at h
      apply hall v (by omega)

/-- The hour is read back, except that noon and midnight are exchanged if there are 12 hours. -/
theorem readHour_encodeHour (binary fullDay : Bool) {hour : ℕ} (h : hour < 24) :
  (readHour binary fullDay (encodeHour binary fullDay hour)).toNat
    = if fullDay = false ∧ hour % 12 = 0 then 12 - hour else hour
  := by
  have hall : ∀ binary fullDay : Bool, ∀ hour < 24,
      (readHour binary fullDay (encodeHour binary fullDay hour)).toNat
        = if fullDay = false ∧ hour % 12 = 0 then 12 - hour else hour := by
    decide
  apply hall binary fullDay hour h

/-! ### Seconds -/

/-- The leap years before a year are counted right. -/
theorem leapCount_eq {year : ℕ} (h : 2000 ≤ year) :
  leapCount year + 477 + (year - 1) / 100 = (year - 1) / 4 + (year - 1) / 400
  := by
  simp only [leapCount]
  split_ifs
  · lia
  · lia

/-- The test for a leap year is right for the years that are not multiples of 4 and for those that are
multiples of 400. -/
theorem isLeap_iff (year : ℕ) :
  (isLeap year).toNat = (if IsLeap year then 1 else 0) ↔ year % 4 ≠ 0 ∨ year % 400 = 0
  := by
  by_cases hcentury : year % 100 ≠ 0
  · have htest : isLeap year = (0 == year % 400) := if_pos hcentury
    rw [htest, beq_false_of_ne (by omega), Bool.toNat_false]
    by_cases hleap : IsLeap year
    · rw [if_pos hleap]
      rw [IsLeap] at hleap
      lia
    · have hnot := hleap
      rw [IsLeap] at hnot
      rw [if_neg hleap, eq_self, true_iff]
      lia
  · have htest : isLeap year = (0 == year % 4) := if_neg hcentury
    rw [htest, beq_iff_eq.mpr (by omega), Bool.toNat_true]
    by_cases hleap : IsLeap year
    · have hmultiple := hleap
      rw [IsLeap] at hmultiple
      rw [if_pos hleap, eq_self, true_iff]
      omega
    · rw [if_neg hleap]
      rw [IsLeap] at hleap
      lia

/-- The two tables of the days before a month agree. -/
theorem monthTable_eq {month : ℕ} (h : 1 ≤ month) (h' : month ≤ 12) :
  monthTable.getD (month - 1) 0 = Calendar.monthTable (month - 1)
  := by
  interval_cases month
  all_goals rfl

/-- The time is right exactly when the hour is and, from March on, the test for a leap year. -/
theorem posixTime_iff {m : Moment} (hm : m.Valid) (h2000 : 2000 ≤ m.year) {hour : ℕ}
    (hhour : hour < 24) :
  posixTime m.year m.month m.day hour m.minute m.second = m.posix ↔
    (m.month ≤ 2 ∨ m.year % 4 ≠ 0 ∨ m.year % 400 = 0) ∧ hour = m.hour
  := by
  have hnumber := hm.date.number_eq
  have hcount := leapCount_eq h2000
  obtain ⟨⟨-, ⟨hmonth, hmonth'⟩, hday, -⟩, hh, hmin, hsec⟩ := hm
  have htable := monthTable_eq hmonth hmonth'
  have hleap := isLeap_iff m.year
  simp only [posixTime, Moment.posix, htable]
  generalize m.toDate.number = number at hnumber ⊢
  generalize (isLeap m.year).toNat = leap at hleap ⊢
  generalize Calendar.monthTable (m.month - 1) = days at hnumber ⊢
  by_cases hearly : m.month ≤ 2
  · rw [if_neg (by omega), Nat.add_zero] at hnumber
    rw [if_neg (by omega)]
    lia
  · by_cases hyear : IsLeap m.year
    · rw [if_pos ⟨by omega, hyear⟩] at hnumber
      rw [if_pos hyear] at hleap
      rw [if_pos (by omega), ← hleap]
      lia
    · rw [if_neg fun h => hyear h.2] at hnumber
      rw [if_neg hyear] at hleap
      rw [if_pos (by omega), ← hleap]
      lia

/-! ### The clock -/

variable {s : Rtc} {reg : UInt8 → UInt8} {m : Moment}

/-- The century is read back. -/
theorem readCentury_toNat (hshows : Shows s reg m) : (s.readCentury reg).toNat = m.year / 100 := by
  have hcentury := hshows.century
  rw [readCentury]
  by_cases hindex : s.centuryIndex = 0
  · rw [if_pos hindex] at hcentury
    rw [if_neg (not_not.mpr hindex), hcentury]
    rfl
  · rw [if_neg hindex] at hcentury
    rw [if_pos hindex, hcentury.1, convert_encode _ hcentury.2]

/-- The time that is computed from registers that are accepted. -/
theorem update_of_accepted (hreason : reg 0x0C &&& 0x10 ≠ 0)
    (hreload : s.reload = true ∨ (s.time + 1) % 4 ≠ (convert s.binary (reg 0)).toNat % 4)
    (haccepts : rejects (s.readCentury reg) (convert s.binary (reg 9)) (convert s.binary (reg 8))
      (convert s.binary (reg 7)) (readHour s.binary s.fullDay (reg 4)) (convert s.binary (reg 2))
      (convert s.binary (reg 0)) = false) :
  (update reg s).time
    = posixTime ((s.readCentury reg).toNat * 100 + (convert s.binary (reg 9)).toNat)
        (convert s.binary (reg 8)).toNat (convert s.binary (reg 7)).toNat
        (readHour s.binary s.fullDay (reg 4)).toNat (convert s.binary (reg 2)).toNat
        (convert s.binary (reg 0)).toNat
  := by
  have hgo : ¬ rejects (s.readCentury reg) (convert s.binary (reg 9)) (convert s.binary (reg 8))
      (convert s.binary (reg 7)) (readHour s.binary s.fullDay (reg 4)) (convert s.binary (reg 2))
      (convert s.binary (reg 0)) = true := by
    rw [haccepts]
    apply Bool.false_ne_true
  simp only [update, if_pos hreason]
  by_cases hlost : s.reload = true
  · rw [if_pos hlost, if_pos (Or.inl hlost), if_neg hgo]
  · rw [if_neg hlost, if_pos (Or.inr (hreload.resolve_left hlost))]
    -- the fields that are read do not depend on the time
    exact congrArg Rtc.time (if_neg hgo)

/-- The registers of a valid moment are accepted, and the time is computed from it, except for the
hour. -/
theorem update_time (hm : m.Valid) (h2000 : 2000 ≤ m.year) (hshows : Shows s reg m)
    (hreason : reg 0x0C &&& 0x10 ≠ 0) (hreload : s.reload = true ∨ (s.time + 1) % 4 ≠ m.second % 4) :
  (update reg s).time
    = posixTime m.year m.month m.day
        (readHour s.binary s.fullDay (encodeHour s.binary s.fullDay m.hour)).toNat m.minute m.second
  := by
  have hread : ∀ {v : ℕ}, v ≤ 99 → (convert s.binary (encode s.binary v)).toNat = v := by
    intro v hv
    apply convert_encode
    split_ifs <;> omega
  have hlength := monthLength_le m.year m.month
  have hcentury := readCentury_toNat hshows
  obtain ⟨⟨-, ⟨hmonth, hmonth'⟩, ⟨hday, hday'⟩⟩, hh, hmin, hsec⟩ := hm
  have hsecond := hread (show m.second ≤ 99 by omega)
  have hminute := hread (show m.minute ≤ 99 by omega)
  have hdate := hread (show m.day ≤ 99 by omega)
  have hmon := hread (show m.month ≤ 99 by omega)
  have hyear := hread (show m.year % 100 ≤ 99 by omega)
  have hhour := readHour_encodeHour s.binary s.fullDay hh
  have hlast : (readHour s.binary s.fullDay (encodeHour s.binary s.fullDay m.hour)).toNat < 24 := by
    rw [hhour]
    split_ifs <;> lia
  have hyears : m.year / 100 * 100 + m.year % 100 = m.year := Nat.div_add_mod' _ _
  have haccepts : rejects (s.readCentury reg) (convert s.binary (reg 9)) (convert s.binary (reg 8))
      (convert s.binary (reg 7)) (readHour s.binary s.fullDay (reg 4)) (convert s.binary (reg 2))
      (convert s.binary (reg 0)) = false := by
    rw [hshows.year, hshows.month, hshows.date, hshows.hour, hshows.minute, hshows.second]
    apply decide_eq_false
    simp only [not_or, gt_iff_lt, UInt8.lt_iff_toNat_lt, ← UInt8.toNat_inj, hsecond, hminute, hdate,
      hmon, hyear, hcentury]
    simp only [UInt8.toNat_ofNat]
    lia
  rw [update_of_accepted hreason (by rwa [hshows.second, hsecond]) haccepts, hcentury, hshows.year,
    hshows.month, hshows.date, hshows.hour, hshows.minute, hshows.second, hyear, hmon, hdate, hminute,
    hsecond, hyears]

/-- A date and a time from 2000 on that the registers show. -/
structure Reload (s : Rtc) (reg : UInt8 → UInt8) (m : Moment) : Prop where
  valid : m.Valid
  year : 2000 ≤ m.year
  shows : Shows s reg m
  reason : reg 0x0C &&& 0x10 ≠ 0
  reload : s.reload = true ∨ (s.time + 1) % 4 ≠ m.second % 4

/-- The years that can be shown have at most five digits. -/
theorem Shows.year_lt (hshows : Shows s reg m) : m.year < 25600 := by
  have hcentury := hshows.century
  split_ifs at hcentury <;> lia

/-- The time that is computed fits. -/
theorem posixTime_lt {year month date hour minute second : ℕ} (hyear : year < 25600)
    (hmonth : 1 ≤ month) (hmonth' : month ≤ 12) (hdate : date ≤ 31) (hhour : hour < 24)
    (hminute : minute < 60) (hsecond : second < 60) :
  posixTime year month date hour minute second < 2 ^ 50
  := by
  have hdays : monthTable.getD (month - 1) 0 ≤ 334 := by
    interval_cases month
    all_goals decide
  have hleap := Bool.toNat_le (isLeap year)
  have hcount : leapCount year ≤ (year - 1969) / 4 := by
    simp only [leapCount]
    split_ifs <;> lia
  simp only [posixTime]
  split_ifs <;> lia

/-- On a reload, the time is the POSIX time of the moment that the registers show, and the program
shows this moment, exactly when the month is January or February or the year is not a multiple of 4 or
is one of 400, and the hour counts to 24 or is neither noon nor midnight. -/
theorem update_iff (h : Reload s reg m) :
  ((update reg s).time = m.posix ↔
      (m.month ≤ 2 ∨ m.year % 4 ≠ 0 ∨ m.year % 400 = 0) ∧ (s.fullDay = true ∨ m.hour % 12 ≠ 0)) ∧
    (showDate (update reg s).time = (m.year, m.month, m.day) ∧
        showTime (update reg s).time = digits m ↔
      (m.month ≤ 2 ∨ m.year % 4 ≠ 0 ∨ m.year % 400 = 0) ∧ (s.fullDay = true ∨ m.hour % 12 ≠ 0))
  := by
  obtain ⟨hm, h2000, hshows, hreason, hreload⟩ := h
  have hyear := hshows.year_lt
  have hlength := monthLength_le m.year m.month
  have hread := readHour_encodeHour s.binary s.fullDay hm.hour
  have hhour : (readHour s.binary s.fullDay (encodeHour s.binary s.fullDay m.hour)).toNat < 24 := by
    have hlt := hm.hour
    rw [hread]
    split_ifs <;> omega
  have hsame : (readHour s.binary s.fullDay (encodeHour s.binary s.fullDay m.hour)).toNat = m.hour ↔
      s.fullDay = true ∨ m.hour % 12 ≠ 0 := by
    have hlt := hm.hour
    rw [hread]
    cases s.fullDay with
    | true => simp only [Bool.true_eq_false, false_and, if_false, true_or]
    | false =>
        simp only [true_and, Bool.false_eq_true, false_or]
        split_ifs <;> omega
  have hfits := posixTime_lt hyear hm.date.month.1 hm.date.month.2 (hm.date.day.2.trans hlength) hhour
    hm.minute hm.second
  rw [update_time hm h2000 hshows hreason hreload]
  rw [shows_iff hm (by omega) hfits, and_self, ← hsame]
  apply posixTime_iff hm h2000 hhour

/-- Registers with the seven numbers, the century in register `0x32`, and the cause of the interrupt. -/
def registers (second minute hour date month year century : UInt8) (index : UInt8) : UInt8 :=
  if index = 0 then second else if index = 2 then minute else if index = 4 then hour
  else if index = 7 then date else if index = 8 then month else if index = 9 then year
  else if index = 0x32 then century else 0x10

/-- A clock in BCD that counts to 24 shows the last second of 2024-02-29. -/
theorem leap_day_read :
  (update (registers 0x59 0x59 0x23 0x29 0x02 0x24 0x20) ⟨0, 0x12, 0x32, true⟩).time
      = Moment.posix ⟨⟨2024, 2, 29⟩, 23, 59, 59⟩ ↔
    ((2 : ℕ) ≤ 2 ∨ 2024 % 4 ≠ 0 ∨ 2024 % 400 = 0) ∧
      (fullDay ⟨0, 0x12, 0x32, true⟩ = true ∨ 23 % 12 ≠ 0)
  := by
  have hvalid : (⟨⟨2024, 2, 29⟩, 23, 59, 59⟩ : Moment).Valid := by
    constructor
    · constructor
      all_goals decide
    all_goals decide
  have hshows : Shows ⟨0, 0x12, 0x32, true⟩ (registers 0x59 0x59 0x23 0x29 0x02 0x24 0x20)
      ⟨⟨2024, 2, 29⟩, 23, 59, 59⟩ := by
    constructor
    all_goals decide
  exact (update_iff ⟨hvalid, by decide, hshows, by decide, Or.inl rfl⟩).1

/-- One second later, the kernel is a day behind. -/
theorem march_not_read :
  ¬ ∀ (s : Rtc) (reg : UInt8 → UInt8) (m : Moment), Reload s reg m → (update reg s).time = m.posix
  := by
  intro h
  have hvalid : (⟨⟨2024, 3, 1⟩, 0, 0, 0⟩ : Moment).Valid := by
    constructor
    · constructor
      all_goals decide
    all_goals decide
  have hshows : Shows ⟨0, 0x12, 0x32, true⟩ (registers 0 0 0 0x01 0x03 0x24 0x20)
      ⟨⟨2024, 3, 1⟩, 0, 0, 0⟩ := by
    constructor
    all_goals decide
  have htime := h _ _ _ ⟨hvalid, by decide, hshows, by decide, Or.inl rfl⟩
  have hcomputed : (update (registers 0 0 0 0x01 0x03 0x24 0x20) ⟨0, 0x12, 0x32, true⟩).time
      = 1709164800 := by
    decide
  have hright : Moment.posix ⟨⟨2024, 3, 1⟩, 0, 0, 0⟩ = 1709251200 := by
    decide
  omega

end Rtc

end UOS
