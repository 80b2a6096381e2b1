import Mathlib.Algebra.Ring.Nat
import Mathlib.Algebra.Ring.Int.Defs

/-! Calendar time: the real-time clock of `kernel/rtc.c`, the system call `time`, and the two
ways back from seconds to a date, in `user/date.c` and `user/lua/lua_time.c`. -/
namespace SirpairOs.Calendar

/-- `is_leap` of `rtc.c` and of `date.c`. -/
def isLeap (y : Nat) : Nat :=
  if y % 400 = 0 then 1 else if y % 100 = 0 then 0 else if y % 4 = 0 then 1 else 0

def mdaysBefore : List Nat := [0, 31, 59, 90, 120, 151, 181, 212, 243, 273, 304, 334]

def daysBeforeMonth (y m : Nat) : Nat :=
  if m < 1 ∨ m > 12 then 0
  else mdaysBefore.getD (m - 1) 0 + (if m > 2 then isLeap y else 0)

def yearDays : Nat → Nat
  | 0 => 0
  | n + 1 => yearDays n + (365 + isLeap (1970 + n))

def utcMktime (year mon day hour min sec : Nat) : UInt32 :=
  if year < 1970 ∨ mon < 1 ∨ mon > 12 ∨ day < 1 ∨ day > 31 then 0
  else
    UInt32.ofNat ((yearDays (year - 1970) + daysBeforeMonth year mon + (day - 1)) * 86400 +
      hour * 3600 + min * 60 + sec)

structure Cmos where
  sec : UInt8
  minute : UInt8
  hour : UInt8
  mday : UInt8
  mon : UInt8
  year : UInt8
  regb : UInt8

def bcdToBin (v : UInt8) : UInt8 :=
  (v &&& (0x0f : UInt8)) + ((v >>> (4 : UInt8)) &&& (0x0f : UInt8)) * 10

/-- The value of a register, which holds a binary or a decimal number. -/
def clockField (bin : Bool) (v : UInt8) : Nat := if bin then v.toNat else (bcdToBin v).toNat

def clockHour (bin hour24 : Bool) (hour : UInt8) : Nat :=
  if hour24 then clockField bin hour
  else
    (if clockField bin (hour &&& 0x7f) = 12 then 0 else clockField bin (hour &&& 0x7f)) +
      (if (hour &&& 0x80) ≠ 0 then 12 else 0)

def rtcReadUnix (c : Cmos) : UInt32 :=
  let bin : Bool := (c.regb &&& 0x04) ≠ 0
  let hour24 : Bool := (c.regb &&& 0x02) ≠ 0
  utcMktime (2000 + clockField bin c.year) (clockField bin c.mon) (clockField bin c.mday)
    (clockHour bin hour24 c.hour) (clockField bin c.minute) (clockField bin c.sec)

def HZ : Nat := 100

/-- `boot_epoch_sec`, set at the first call from the clock and the ticks since the boot. -/
def bootEpoch (raw ticks : UInt32) : UInt32 :=
  let raw := if raw < 946684800 then 946684800 else raw
  let adj := UInt32.ofNat (ticks.toNat / HZ)
  if raw > adj then raw - adj else 0

def ktimeNow (epoch ticks : UInt32) : UInt32 := epoch + UInt32.ofNat (ticks.toNat / HZ)

def toInt (t : UInt32) : Int := if t.toNat < 2 ^ 31 then t.toNat else t.toNat - 2 ^ 32

def sysTime (epoch ticks : UInt32) : Int := toInt (ktimeNow epoch ticks)

structure Tm where
  sec : Int
  min : Int
  hour : Int
  mday : Int
  mon : Int
  year : Int
  wday : Int
deriving DecidableEq, Repr

def mdays : List Nat := [31, 28, 31, 30, 31, 30, 31, 31, 30, 31, 30, 31]

def dimy (y m : Nat) : Nat :=
  if m < 1 ∨ m > 12 then 31 else mdays.getD (m - 1) 0 + (if m = 2 then isLeap y else 0)

def yearLoop : Nat → Nat → Int → Nat × Int
  | 0, y, days => (y, days)
  | fuel + 1, y, days =>
    if days < 365 + isLeap y then (y, days) else yearLoop fuel (y + 1) (days - (365 + isLeap y))

def monthLoop (y : Nat) : Nat → Nat → Int → Nat × Int
  | 0, mon, days => (mon, days)
  | fuel + 1, mon, days =>
    if days < dimy y mon then (mon, days) else monthLoop y fuel (mon + 1) (days - dimy y mon)

/-- `unix_to_tm`. Each turn of a loop takes at least a day off. -/
def unixToTm (t : Int) : Tm :=
  let days := t.tdiv 86400
  let sod := t.tmod 86400
  let year := yearLoop (days.toNat + 1) 1970 days
  let month := monthLoop year.1 (year.2.toNat + 1) 1 year.2
  { sec := sod.tmod 60
    min := (sod.tdiv 60).tmod 60
    hour := sod.tdiv 3600
    mday := month.2 + 1
    mon := month.1 - 1
    year := year.1
    wday := (t.tdiv 86400 + 4).tmod 7 }

structure LuaTm extends Tm where
  yday : Int
  isdst : Int

/-- `isleap` of `lua_time.c`. -/
def isleap (y : Nat) : Bool := (y % 4 = 0 ∧ y % 100 ≠ 0) ∨ y % 400 = 0

def luaYearLoop : Nat → Nat → Int → Nat × Int
  | 0, y, days => (y, days)
  | fuel + 1, y, days =>
    if days < (if isleap y then 366 else 365) then (y, days)
    else luaYearLoop fuel (y + 1) (days - (if isleap y then 366 else 365))

/-- The loop over the months that are left, the next of which is `mon`. -/
def luaMonthLoop (leap : Bool) : Nat → Nat → Int → Option (Nat × Int)
  | 0, _, _ => none
  | left + 1, mon, days =>
    let dim : Nat := if mon = 1 ∧ leap then 29 else mdays.getD mon 0
    if days < dim then some (mon, days + 1) else luaMonthLoop leap left (mon + 1) (days - dim)

def ydayFromYmd (y : Nat) (mon mday : Int) : Int :=
  mdaysBefore.getD mon.toNat 0 + mday - 1 + (if mon > 1 ∧ isleap y then 1 else 0)

/-- `utc_from_epoch`; `old` is what the static `struct tm` held before. -/
def utcFromEpoch (old : LuaTm) (t : Int) : LuaTm :=
  let rem := if t.tmod 86400 < 0 then t.tmod 86400 + 86400 else t.tmod 86400
  let days := if t.tmod 86400 < 0 then t.tdiv 86400 - 1 else t.tdiv 86400
  let year := luaYearLoop (days.toNat + 1) 1970 days
  let found := luaMonthLoop (isleap year.1) 12 0 year.2
  let mon := found.elim old.mon (fun month => month.1)
  let mday := found.elim old.mday (fun month => month.2)
  { sec := rem.tmod 60
    min := (rem.tdiv 60).tmod 60
    hour := rem.tdiv 3600
    mday := mday
    mon := mon
    year := year.1 - 1900
    wday := if (days + 4).tmod 7 < 0 then (days + 4).tmod 7 + 7 else (days + 4).tmod 7
    yday := ydayFromYmd year.1 mon mday
    isdst := 0 }

def LeapYear (y : Nat) : Prop := 4 ∣ y ∧ (100 ∣ y → 400 ∣ y)

instance (y : Nat) : Decidable (LeapYear y) := by
  unfold LeapYear
  infer_instance

def monthDays (y m : Nat) : Nat :=
  if m = 2 then if LeapYear y then 29 else 28
  else if m = 4 ∨ m = 6 ∨ m = 9 ∨ m = 11 then 30
  else 31

/-- A date and time of the Gregorian calendar in the years of the clock. -/
structure DateTime where
  year : Nat
  mon : Nat
  day : Nat
  hour : Nat
  min : Nat
  sec : Nat
  years : 2000 ≤ year ∧ year ≤ 2099
  months : 1 ≤ mon ∧ mon ≤ 12
  days : 1 ≤ day ∧ day ≤ monthDays year mon
  hours : hour < 24
  mins : min < 60
  secs : sec < 60

namespace DateTime

variable (d : DateTime)

def mktime : UInt32 := utcMktime d.year d.mon d.day d.hour d.min d.sec

/-- What `time` returns when the clock shows the date and the boot epoch is set from it. -/
def time (ticks : UInt32) : Int := sysTime (bootEpoch d.mktime ticks) ticks

def epochDays : Nat := yearDays (d.year - 1970) + daysBeforeMonth d.year d.mon + (d.day - 1)

def secondOfDay : Nat := d.hour * 3600 + d.min * 60 + d.sec

/-- The fields of a `struct tm` for the date. -/
def Shown (tm : Tm) : Prop :=
  tm.year = d.year ∧ tm.mon + 1 = d.mon ∧ tm.mday = d.day ∧ tm.hour = d.hour ∧ tm.min = d.min ∧
    tm.sec = d.sec

end DateTime

/-- The two libraries agree, but for the year, which one of them counts from 1900. -/
def Agree (tm : Tm) (lua : LuaTm) : Prop :=
  lua.year + 1900 = tm.year ∧ lua.mon = tm.mon ∧ lua.mday = tm.mday ∧ lua.hour = tm.hour ∧
    lua.min = tm.min ∧ lua.sec = tm.sec ∧ lua.wday = tm.wday

variable (y : Nat)

theorem isLeap_le : isLeap y ≤ 1 := by
  unfold isLeap
  split
  · exact Nat.le_refl 1
  · split
    · exact Nat.zero_le 1
    · split
      · exact Nat.le_refl 1
      · exact Nat.zero_le 1

theorem leapYear_iff : LeapYear y ↔ y % 4 = 0 ∧ (y % 100 = 0 → y % 400 = 0) := by
  simp only [LeapYear, Nat.dvd_iff_mod_eq_zero]

theorem isLeap_eq : isLeap y = if LeapYear y then 1 else 0 := by
  unfold isLeap
  by_cases leap : LeapYear y
  · rw [if_pos leap]
    rw [leapYear_iff] at leap
    split
    · rfl
    · rw [if_neg (by omega), if_pos (by omega)]
  · rw [if_neg leap]
    rw [leapYear_iff] at leap
    rw [if_neg (by omega)]
    split
    · rfl
    · rw [if_neg (by omega)]

theorem dimy_eq (m : Nat) (from1 : 1 ≤ m) (to12 : m ≤ 12) : dimy y m = monthDays y m := by
  unfold dimy monthDays
  rw [isLeap_eq, if_neg (by omega)]
  by_cases leap : LeapYear y
  · rw [if_pos leap, if_pos leap]
    clear leap
    revert m
    decide
  · rw [if_neg leap, if_neg leap]
    clear leap
    revert m
    decide

theorem isleap_eq : (if isleap y then 366 else 365) = 365 + (isLeap y : Int) := by
  by_cases four : y % 400 = 0
  · simp [isleap, isLeap, four]
  · by_cases hundred : y % 100 = 0
    · simp [isleap, isLeap, four, hundred]
    · by_cases quarter : y % 4 = 0
      · simp [isleap, isLeap, four, hundred, quarter]
      · simp [isleap, isLeap, four, hundred, quarter]

theorem luaYearLoop_eq (fuel y : Nat) (days : Int) :
    luaYearLoop fuel y days = yearLoop fuel y days := by
  induction fuel generalizing y days with
  | zero => rfl
  | succ fuel ih => rw [luaYearLoop, yearLoop, isleap_eq, ih]

theorem yearDays_mono {m n : Nat} (le : m ≤ n) : yearDays m ≤ yearDays n := by
  induction le with
  | refl => exact Nat.le_refl _
  | step _ ih => exact Nat.le_trans ih (Nat.le_add_right _ _)

theorem le_yearDays (n : Nat) : n ≤ yearDays n := by
  induction n with
  | zero => exact Nat.le_refl 0
  | succ n ih =>
    rw [yearDays]
    omega

/-- From the first day of a year on, the loop takes off whole years. -/
theorem yearLoop_spec (n k : Nat) (rest fuel : Nat) (short : rest < 365 + isLeap (1970 + (k + n)))
    (enough : n < fuel) :
    yearLoop fuel (1970 + k) ((yearDays (k + n) : Int) - yearDays k + rest) =
      (1970 + (k + n), (rest : Int)) := by
  induction n generalizing k fuel with
  | zero =>
    cases fuel with
    | zero => omega
    | succ fuel =>
      simp only [Nat.add_zero] at short ⊢
      rw [yearLoop, if_pos (by omega)]
      simp
  | succ n ih =>
    cases fuel with
    | zero => omega
    | succ fuel =>
      have whole : yearDays (k + 1) ≤ yearDays (k + (n + 1)) := yearDays_mono (by omega)
      have first : yearDays (k + 1) = yearDays k + (365 + isLeap (1970 + k)) := rfl
      have next := ih (k + 1) fuel (by rwa [Nat.add_right_comm k 1 n, Nat.add_assoc k n 1])
        (by omega)
      rw [Nat.add_right_comm k 1 n, Nat.add_assoc k n 1] at next
      rw [yearLoop, if_neg (by omega), ← next]
      congr 1
      omega

theorem isLeap_cases : isLeap y = 0 ∨ isLeap y = 1 := by
  have := isLeap_le y
  omega

theorem daysBeforeMonth_succ (m : Nat) (from1 : 1 ≤ m) (to11 : m ≤ 11) :
    daysBeforeMonth y (m + 1) = daysBeforeMonth y m + dimy y m := by
  unfold daysBeforeMonth dimy
  rcases isLeap_cases y with leap | leap <;> rw [leap] <;> clear leap <;>
  · revert m
    decide

theorem daysBeforeMonth_mono (k n : Nat) (from1 : 1 ≤ k) (to12 : k + n ≤ 12) :
    daysBeforeMonth y k ≤ daysBeforeMonth y (k + n) := by
  induction n with
  | zero => exact Nat.le_refl _
  | succ n ih =>
    have step := daysBeforeMonth_succ y (k + n) (by omega) (by omega)
    rw [← Nat.add_assoc, step]
    exact Nat.le_trans (ih (by omega)) (Nat.le_add_right _ _)

/-- From the first day of a month on, the loop takes off whole months. -/
theorem monthLoop_spec (n k rest fuel : Nat) (from1 : 1 ≤ k) (to12 : k + n ≤ 12)
    (short : rest < dimy y (k + n)) (enough : n < fuel) :
    monthLoop y fuel k ((daysBeforeMonth y (k + n) : Int) - daysBeforeMonth y k + rest) =
      (k + n, (rest : Int)) := by
  induction n generalizing k fuel with
  | zero =>
    cases fuel with
    | zero => omega
    | succ fuel =>
      simp only [Nat.add_zero] at short ⊢
      rw [monthLoop, if_pos (by omega)]
      simp
  | succ n ih =>
    cases fuel with
    | zero => omega
    | succ fuel =>
      have first := daysBeforeMonth_succ y k from1 (by omega)
      have whole := daysBeforeMonth_mono y (k + 1) n (by omega) (by omega)
      have next := ih (k + 1) fuel (by omega) (by omega)
        (by rwa [Nat.add_right_comm k 1 n, Nat.add_assoc k n 1]) (by omega)
      rw [Nat.add_right_comm k 1 n, Nat.add_assoc k n 1] at next whole
      rw [monthLoop, if_neg (by omega), ← next]
      congr 1
      omega

theorem lua_month_days (k : Nat) (below : k < 12) :
    (if k = 1 ∧ isleap y = true then 29 else mdays.getD k 0) = dimy y (k + 1) := by
  have days := isleap_eq y
  unfold dimy
  cases leap : isleap y with
  | true =>
    have one : isLeap y = 1 := by
      rw [leap, if_pos rfl] at days
      omega
    rw [one]
    clear days leap one
    revert k
    decide
  | false =>
    have zero : isLeap y = 0 := by
      rw [leap, if_neg Bool.false_ne_true] at days
      omega
    rw [zero]
    clear days leap zero
    revert k
    decide

theorem luaMonthLoop_spec (n k rest left : Nat) (to12 : k + 1 + n ≤ 12)
    (short : rest < dimy y (k + 1 + n)) (enough : n < left) :
    luaMonthLoop (isleap y) left k
        ((daysBeforeMonth y (k + 1 + n) : Int) - daysBeforeMonth y (k + 1) + rest) =
      some (k + n, (rest : Int) + 1) := by
  induction n generalizing k left with
  | zero =>
    cases left with
    | zero => omega
    | succ left =>
      simp only [Nat.add_zero] at short ⊢
      rw [luaMonthLoop, lua_month_days y k (by omega), if_pos (by omega)]
      simp
  | succ n ih =>
    cases left with
    | zero => omega
    | succ left =>
      have first := daysBeforeMonth_succ y (k + 1) (by omega) (by omega)
      have whole := daysBeforeMonth_mono y (k + 1 + 1) n (by omega) (by omega)
      have next := ih (k + 1) left (by omega)
        (by rwa [Nat.add_right_comm (k + 1) 1 n, Nat.add_assoc (k + 1) n 1]) (by omega)
      rw [Nat.add_right_comm (k + 1) 1 n, Nat.add_assoc (k + 1) n 1] at next whole
      rw [luaMonthLoop, lua_month_days y k (by omega), if_neg (by omega)]
      have days : ((daysBeforeMonth y (k + 1 + (n + 1)) : Int) - daysBeforeMonth y (k + 1) + rest) -
          dimy y (k + 1) =
          (daysBeforeMonth y (k + 1 + (n + 1)) : Int) - daysBeforeMonth y (k + 1 + 1) + rest := by
        omega
      rw [days, next, Nat.add_right_comm k 1 n, Nat.add_assoc k n 1]

namespace DateTime

variable (d : DateTime)

theorem day_le_dimy : d.day ≤ dimy d.year d.mon := by
  rw [dimy_eq d.year d.mon d.months.1 d.months.2]
  exact d.days.2

theorem day_le : d.day ≤ 31 := by
  have table : ∀ leap ≤ 1, ∀ m ≤ 12, mdays.getD (m - 1) 0 + (if m = 2 then leap else 0) ≤ 31 := by
    decide
  have months := d.months
  have bound := table (isLeap d.year) (isLeap_le d.year) d.mon months.2
  have days := d.day_le_dimy
  rw [dimy, if_neg (by omega)] at days
  omega

theorem secondOfDay_lt : d.secondOfDay < 86400 := by
  have := d.hours
  have := d.mins
  have := d.secs
  unfold secondOfDay
  omega

def dayOfYear : Nat := daysBeforeMonth d.year d.mon + (d.day - 1)

theorem dayOfYear_lt : d.dayOfYear < 365 + isLeap d.year := by
  have table : ∀ leap ≤ 1, ∀ m ≤ 12, 1 ≤ m →
      mdaysBefore.getD (m - 1) 0 + (if m > 2 then leap else 0) +
        (mdays.getD (m - 1) 0 + (if m = 2 then leap else 0)) ≤ 365 + leap := by
    decide
  have months := d.months
  have bound := table (isLeap d.year) (isLeap_le d.year) d.mon months.2 months.1
  have first := d.days.1
  have days := d.day_le_dimy
  rw [dimy, if_neg (by omega)] at days
  rw [dayOfYear, daysBeforeMonth, if_neg (by omega)]
  omega

theorem epochDays_eq : d.epochDays = yearDays (d.year - 1970) + d.dayOfYear := by
  rw [epochDays, dayOfYear, Nat.add_assoc]

theorem epochDays_bounds : 10957 ≤ d.epochDays ∧ d.epochDays < 47482 := by
  have years := d.years
  have low := yearDays_mono (m := 30) (n := d.year - 1970) (by omega)
  have high := yearDays_mono (m := d.year - 1970 + 1) (n := 130) (by omega)
  have first : yearDays 30 = 10957 := by decide
  have last : yearDays 130 = 47482 := by decide
  have inside := d.dayOfYear_lt
  rw [yearDays, Nat.add_sub_cancel' (by omega : 1970 ≤ d.year)] at high
  rw [epochDays_eq]
  omega

theorem mktime_toNat : d.mktime.toNat = d.epochDays * 86400 + d.secondOfDay := by
  have years := d.years
  have months := d.months
  have days := d.days.1
  have day := d.day_le
  have bounds := d.epochDays_bounds
  have second := d.secondOfDay_lt
  have sum : (yearDays (d.year - 1970) + daysBeforeMonth d.year d.mon + (d.day - 1)) * 86400 +
      d.hour * 3600 + d.min * 60 + d.sec = d.epochDays * 86400 + d.secondOfDay := by
    unfold epochDays secondOfDay
    omega
  rw [mktime, utcMktime, if_neg (by omega), sum, UInt32.toNat_ofNat']
  apply Nat.mod_eq_of_lt
  omega

/-- The boot epoch is the clock less the time since the boot, and `time` adds that again. -/
theorem time_eq (ticks : UInt32) : d.time ticks = toInt d.mktime := by
  have value := d.mktime_toNat
  have bounds := d.epochDays_bounds
  have range := ticks.toNat_lt
  have small : (UInt32.ofNat (ticks.toNat / HZ)).toNat = ticks.toNat / HZ := by
    rw [UInt32.toNat_ofNat']
    apply Nat.mod_eq_of_lt
    unfold HZ
    omega
  have floor : ¬ d.mktime < 946684800 := by
    rw [UInt32.lt_iff_toNat_lt]
    change ¬ d.mktime.toNat < 946684800
    omega
  have after : d.mktime > UInt32.ofNat (ticks.toNat / HZ) := by
    rw [gt_iff_lt, UInt32.lt_iff_toNat_lt, small]
    unfold HZ
    omega
  rw [time, sysTime, ktimeNow, bootEpoch, if_neg floor, if_pos after, UInt32.sub_add_cancel]

theorem yearLoop_days :
    yearLoop (d.epochDays + 1) 1970 d.epochDays = (d.year, (d.dayOfYear : Int)) := by
  obtain ⟨n, year⟩ := Nat.exists_eq_add_of_le (Nat.le_trans (by decide : 1970 ≤ 2000) d.years.1)
  have total := d.epochDays_eq
  have short := d.dayOfYear_lt
  have many := le_yearDays n
  have none : yearDays 0 = 0 := rfl
  rw [year, Nat.add_sub_cancel_left] at total
  rw [year] at short
  have run := yearLoop_spec n 0 d.dayOfYear (d.epochDays + 1) (by rwa [Nat.zero_add]) (by omega)
  have days : (yearDays n : Int) - yearDays 0 + d.dayOfYear = d.epochDays := by
    rw [none]
    omega
  rw [Nat.zero_add, Nat.add_zero, days] at run
  rw [run, year]

theorem dayOfYear_eq : (d.dayOfYear : Int) =
      (daysBeforeMonth d.year (1 + (d.mon - 1)) : Int) - daysBeforeMonth d.year 1 +
        (d.day - 1 : Nat) := by
  have first : daysBeforeMonth d.year 1 = 0 := rfl
  have same : 1 + (d.mon - 1) = d.mon := Nat.add_sub_cancel' d.months.1
  rw [first, same, dayOfYear]
  omega

theorem day_short : d.day - 1 < dimy d.year (1 + (d.mon - 1)) := by
  have first := d.days.1
  have days := d.day_le_dimy
  rw [Nat.add_sub_cancel' d.months.1]
  omega

theorem monthLoop_days :
    monthLoop d.year (d.dayOfYear + 1) 1 d.dayOfYear = (d.mon, ((d.day - 1 : Nat) : Int)) := by
  have months := d.months
  have enough : d.mon - 1 < d.dayOfYear + 1 := by
    have table : ∀ m ≤ 12, m - 1 ≤ mdaysBefore.getD (m - 1) 0 := by decide
    have bound := table d.mon months.2
    rw [dayOfYear, daysBeforeMonth, if_neg (by omega)]
    omega
  have run := monthLoop_spec d.year (d.mon - 1) 1 (d.day - 1) (d.dayOfYear + 1) (Nat.le_refl 1)
    (by omega) d.day_short enough
  rwa [← d.dayOfYear_eq, Nat.add_sub_cancel' months.1] at run

theorem luaMonthLoop_days :
    luaMonthLoop (isleap d.year) 12 0 d.dayOfYear = some (d.mon - 1, ((d.day - 1 : Nat) : Int) + 1) := by
  have months := d.months
  have run := luaMonthLoop_spec d.year (d.mon - 1) 0 (d.day - 1) 12 (by omega) d.day_short
    (by omega)
  rwa [Nat.zero_add, ← d.dayOfYear_eq, Nat.zero_add] at run

section Early

variable (early : d.mktime.toNat < 2 ^ 31)

include early

theorem toInt_early : toInt d.mktime = ((d.epochDays * 86400 + d.secondOfDay : Nat) : Int) := by
  rw [toInt, if_pos early, mktime_toNat]

theorem tdiv_early : (toInt d.mktime).tdiv 86400 = d.epochDays := by
  have second := d.secondOfDay_lt
  rw [d.toInt_early early, Int.tdiv_eq_ediv_of_nonneg (by omega)]
  omega

theorem tmod_early : (toInt d.mktime).tmod 86400 = d.secondOfDay := by
  have second := d.secondOfDay_lt
  rw [d.toInt_early early, Int.tmod_eq_emod_of_nonneg (by omega)]
  omega

theorem shown_early : d.Shown (unixToTm (toInt d.mktime)) := by
  have hours := d.hours
  have mins := d.mins
  have secs := d.secs
  have months := d.months
  have days := d.days.1
  unfold Shown unixToTm
  rw [d.tdiv_early early, d.tmod_early early]
  dsimp only
  rw [Int.toNat_natCast, d.yearLoop_days]
  dsimp only
  rw [Int.toNat_natCast, d.monthLoop_days]
  unfold secondOfDay
  refine ⟨rfl, by omega, by omega, ?_, ?_, ?_⟩
  · rw [Int.tdiv_eq_ediv_of_nonneg (by omega)]
    omega
  · rw [Int.tdiv_eq_ediv_of_nonneg (by omega), Int.tmod_eq_emod_of_nonneg (by omega)]
    omega
  · rw [Int.tmod_eq_emod_of_nonneg (by omega)]
    omega

theorem agree_early (old : LuaTm) :
    Agree (unixToTm (toInt d.mktime)) (utcFromEpoch old (toInt d.mktime)) := by
  have months := d.months
  unfold Agree unixToTm utcFromEpoch
  rw [d.tdiv_early early, d.tmod_early early]
  dsimp only
  rw [if_neg (by omega), if_neg (by omega), luaYearLoop_eq, Int.toNat_natCast, d.yearLoop_days]
  dsimp only
  rw [Int.toNat_natCast, d.monthLoop_days, d.luaMonthLoop_days]
  have weekday : ¬ ((d.epochDays : Int) + 4).tmod 7 < 0 := by
    rw [Int.tmod_eq_emod_of_nonneg (by omega)]
    omega
  refine ⟨by omega, ?_, rfl, rfl, rfl, rfl, if_neg weekday⟩
  dsimp only [Option.elim]
  omega

end Early

/-- From 2^31 seconds on the number is negative, and `unix_to_tm` stays in 1970. -/
theorem not_shown_late (late : ¬ d.mktime.toNat < 2 ^ 31) :
    ¬ d.Shown (unixToTm (toInt d.mktime)) := by
  have range := d.mktime.toNat_lt
  have years := d.years
  have negative : (toInt d.mktime).tdiv 86400 ≤ 0 := by
    have opposite : 0 ≤ (-toInt d.mktime).tdiv 86400 := by
      apply Int.tdiv_nonneg
      · rw [toInt, if_neg late]
        omega
      · omega
    rw [Int.neg_tdiv] at opposite
    omega
  intro shown
  have year := shown.1
  unfold unixToTm at year
  dsimp only at year
  rw [yearLoop, if_pos (by omega)] at year
  dsimp only at year
  omega

/-- The seconds fit the positive numbers of `int` before 03:14:08 on 19 January 2038. -/
theorem mktime_lt_iff : d.mktime.toNat < 2 ^ 31 ↔ d.year < 2038 ∨ d.year = 2038 ∧ d.mon = 1 ∧
    (d.day < 19 ∨ d.day = 19 ∧ d.secondOfDay < 3 * 3600 + 14 * 60 + 8) := by
  have years := d.years
  have months := d.months
  have days := d.days
  have second := d.secondOfDay_lt
  have inside := d.dayOfYear_lt
  rw [mktime_toNat, epochDays_eq]
  rcases Nat.lt_trichotomy d.year 2038 with before | same | after
  · have whole := yearDays_mono (m := d.year - 1970 + 1) (n := 68) (by omega)
    have last : yearDays 68 = 24837 := by decide
    rw [yearDays, Nat.add_sub_cancel' (by omega : 1970 ≤ d.year)] at whole
    omega
  · have first : yearDays (d.year - 1970) = 24837 := by
      rw [same]
      decide
    rw [first, dayOfYear]
    rcases Nat.eq_or_lt_of_le months.1 with january | later
    · have none : daysBeforeMonth d.year d.mon = 0 := by
        rw [← january]
        rfl
      omega
    · have more := daysBeforeMonth_mono d.year 2 (d.mon - 2) (by decide) (by omega)
      have one : daysBeforeMonth d.year 2 = 31 := rfl
      rw [Nat.add_sub_cancel' later] at more
      omega
  · have whole := yearDays_mono (m := 69) (n := d.year - 1970) (by omega)
    have first : yearDays 69 = 25202 := by decide
    omega

/-- The date comes back, and the two libraries agree, exactly when the seconds fit the
positive numbers of `int`; `mktime_lt_iff` says which dates these are. -/
theorem round_trip_iff (ticks : UInt32) (old : LuaTm) : (d.Shown (unixToTm (d.time ticks)) ∧
      Agree (unixToTm (d.time ticks)) (utcFromEpoch old (d.time ticks))) ↔
    d.mktime.toNat < 2 ^ 31 := by
  rw [d.time_eq]
  constructor
  · intro both
    by_contra late
    exact d.not_shown_late late both.1
  · intro early
    exact ⟨d.shown_early early, d.agree_early early old⟩

/-- How a number below 100 stands in a register. -/
def register (bin : Bool) (v : Nat) : UInt8 :=
  if bin then UInt8.ofNat v else UInt8.ofNat (v / 10 * 16 + v % 10)

/-- How the hour stands in its register; in the 12-hour format the top bit says afternoon. -/
def hourRegister (bin hour24 : Bool) (h : Nat) : UInt8 :=
  if hour24 then register bin h
  else register bin ((h + 11) % 12 + 1) + (if h < 12 then 0 else 0x80)

/-- The registers show the date, in the format that register B says. -/
structure Reported (c : Cmos) : Prop where
  sec : c.sec = register ((c.regb &&& 0x04) ≠ 0) d.sec
  minute : c.minute = register ((c.regb &&& 0x04) ≠ 0) d.min
  hour : c.hour = hourRegister ((c.regb &&& 0x04) ≠ 0) ((c.regb &&& 0x02) ≠ 0) d.hour
  mday : c.mday = register ((c.regb &&& 0x04) ≠ 0) d.day
  mon : c.mon = register ((c.regb &&& 0x04) ≠ 0) d.mon
  year : c.year = register ((c.regb &&& 0x04) ≠ 0) (d.year - 2000)

theorem clockField_register : ∀ bin : Bool, ∀ v < 100, clockField bin (register bin v) = v := by
  decide +kernel

theorem clockHour_hourRegister :
    ∀ bin hour24 : Bool, ∀ h < 24, clockHour bin hour24 (hourRegister bin hour24 h) = h := by
  decide +kernel

/-- Every date is read as it stands in the registers, in each of the four formats. -/
theorem rtcReadUnix_of_reported (c : Cmos) (reported : d.Reported c) :
    rtcReadUnix c = d.mktime := by
  have years := d.years
  have months := d.months
  have day := d.day_le
  have hours := d.hours
  have mins := d.mins
  have secs := d.secs
  rw [rtcReadUnix, reported.sec, reported.minute, reported.hour, reported.mday, reported.mon,
    reported.year]
  simp only [clockHour_hourRegister _ _ d.hour hours]
  rw [clockField_register _ _ (by omega), clockField_register _ _ (by omega),
    clockField_register _ _ (by omega), clockField_register _ _ (by omega),
    clockField_register _ _ (by omega), Nat.add_sub_cancel' years.1]
  rfl

end DateTime

/-- 19 January 2038, 03:14:08. -/
def firstLate : DateTime where
  year := 2038
  mon := 1
  day := 19
  hour := 3
  min := 14
  sec := 8
  years := by decide
  months := by decide
  days := by decide
  hours := by decide
  mins := by decide
  secs := by decide

/-- In decimal digits and a 12-hour clock. -/
theorem rtcReadUnix_firstLate :
    rtcReadUnix ⟨0x08, 0x14, 0x03, 0x19, 0x01, 0x38, 0⟩ = firstLate.mktime :=
  firstLate.rtcReadUnix_of_reported _ (by constructor <;> rfl)

theorem firstLate_not_returned :
    (unixToTm (firstLate.time 0)).year = 1970 ∧ firstLate.year = 2038 := by
  decide +kernel

end SirpairOs.Calendar
