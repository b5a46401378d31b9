import Mathlib.Data.Nat.ModEq
import Mathlib.Tactic.Linarith
import Stm32Handler.Lib.Bytes

/-!
# The relative alarm

`rtc_alarm_register` of `drv_rtc.c` adds a time to the current one, place by
place in 8 bits, with one subtraction for the carry of each place. A place that
holds two carries is left out of range, or wraps and is 256 short; no choice of
such errors is a multiple of a week.
-/

namespace Stm32Handler.Rtc

/-- `rtc_info_`: the time the RTC was last read at. -/
structure RtcInfo where
  seconds : Byte
  minutes : Byte
  hours : Byte
  weekDay : Byte
  seconds_lt : seconds.toNat < 60
  minutes_lt : minutes.toNat < 60
  hours_lt : hours.toNat < 24
  weekDay_pos : 1 ≤ weekDay.toNat
  weekDay_le : weekDay.toNat ≤ 7

/-- `RTC_AlarmTypeDef`, with the fields of its time that `rtc_set_alarm` sets. -/
structure RtcAlarm where
  hours : Byte
  minutes : Byte
  seconds : Byte
  subSeconds : BitVec 32
  timeFormat : Byte
  alarmMask : BitVec 32
  alarmSubSecondMask : BitVec 32
  alarmDateWeekDaySel : BitVec 32
  alarmDateWeekDay : Byte
  alarm : BitVec 32

/-- `RTC_HOURFORMAT_24`. -/
def hourFormat24 : Byte := 0

/-- `RTC_ALARMMASK_NONE`: the alarm compares the weekday, hours, minutes and seconds. -/
def alarmMaskNone : BitVec 32 := 0

/-- `RTC_ALARMSUBSECONDMASK_NONE`. -/
def alarmSubSecondMaskNone : BitVec 32 := 0x0F000000

/-- `RTC_ALARMDATEWEEKDAYSEL_WEEKDAY`. -/
def alarmDateWeekDaySelWeekday : BitVec 32 := 0x40000000

/-- `RTC_ALARM_A`. -/
def alarmA : BitVec 32 := 0x100

/-- `rtc_set_alarm`: the alarm that `HAL_RTC_SetAlarm_IT` gets. -/
def rtcSetAlarm (week hour min sec : Byte) : RtcAlarm where
  hours := hour
  minutes := min
  seconds := sec
  subSeconds := 0
  timeFormat := hourFormat24
  alarmMask := alarmMaskNone
  alarmSubSecondMask := alarmSubSecondMaskNone
  alarmDateWeekDaySel := alarmDateWeekDaySelWeekday
  alarmDateWeekDay := week
  alarm := alarmA

/-- One place of the sum: what stays, and the carry. -/
def carryPlace (limit total : Byte) : Byte × Byte :=
  if total ≥ limit then (total - limit, 1) else (total, 0)

def weekDayPlace (total : Byte) : Byte := if total > 7 then total - 7 else total

/-- `rtc_alarm_register`, with the alarm it sets. -/
def rtcAlarmRegister (info : RtcInfo) (day hour min sec : Byte) : RtcAlarm :=
  let (alarmSec, alarmMin) := carryPlace 60 (info.seconds + sec)
  let (alarmMin, alarmHour) := carryPlace 60 (alarmMin + (info.minutes + min))
  let (alarmHour, alarmWeek) := carryPlace 24 (alarmHour + (info.hours + hour))
  let alarmWeek := alarmWeek + (info.weekDay + day)
  rtcSetAlarm (weekDayPlace alarmWeek) alarmHour alarmMin alarmSec

/-- A time of the week in seconds. -/
def weekSeconds (week hour min sec : Byte) : ℕ :=
  ((week.toNat * 24 + hour.toNat) * 60 + min.toNat) * 60 + sec.toNat

def secondsPerWeek : ℕ := 7 * 24 * 60 * 60

/-- A time of the day on a weekday, all of it compared, `day` to `sec` after the
current time. -/
structure RtcAlarm.Right (a : RtcAlarm) (info : RtcInfo) (day hour min sec : Byte) : Prop where
  hours_lt : a.hours.toNat < 24
  minutes_lt : a.minutes.toNat < 60
  seconds_lt : a.seconds.toNat < 60
  subSeconds_eq : a.subSeconds = 0
  weekDay_pos : 1 ≤ a.alarmDateWeekDay.toNat
  weekDay_le : a.alarmDateWeekDay.toNat ≤ 7
  weekDay_sel : a.alarmDateWeekDaySel = alarmDateWeekDaySelWeekday
  alarmMask_eq : a.alarmMask = alarmMaskNone
  distance : weekSeconds a.alarmDateWeekDay a.hours a.minutes a.seconds ≡
    weekSeconds info.weekDay info.hours info.minutes info.seconds + weekSeconds day hour min sec
      [MOD secondsPerWeek]

/-! ## The places -/

theorem carryPlace_toNat (limit total : Byte) :
    (limit.toNat ≤ total.toNat ∧ (carryPlace limit total).1.toNat = total.toNat - limit.toNat ∧
        (carryPlace limit total).2.toNat = 1) ∨
      total.toNat < limit.toNat ∧ (carryPlace limit total).1.toNat = total.toNat ∧
        (carryPlace limit total).2.toNat = 0 := by
  unfold carryPlace
  by_cases hle : total ≥ limit
  · rw [if_pos hle]
    exact .inl ⟨BitVec.le_def.1 hle, BitVec.toNat_sub_of_le hle, rfl⟩
  · rw [if_neg hle]
    exact .inr ⟨BitVec.lt_def.1 (BitVec.not_le.1 hle), rfl, rfl⟩

theorem carryPlace_snd_le (limit total : Byte) : (carryPlace limit total).2.toNat ≤ 1 := by
  rcases carryPlace_toNat limit total with ⟨-, -, hcarry⟩ | ⟨-, -, hcarry⟩ <;> omega

theorem toNat_add_add (carry value more : Byte) :
    (carry + (value + more)).toNat = (carry.toNat + value.toNat + more.toNat) % 256 := by
  rw [BitVec.toNat_add, BitVec.toNat_add]
  omega

/-- A place in range holds its total but for the carry, and from two carries on
for 256. -/
theorem carryPlace_spec (carry more : Byte) {limit value : Byte} {l : ℕ} (hlimit : limit.toNat = l)
    (hdouble : 2 * l ≤ 256) (hcarry : carry.toNat ≤ 1) (hvalue : value.toNat < l)
    (hrange : (carryPlace limit (carry + (value + more))).1.toNat < l) :
    ∃ e, (carryPlace limit (carry + (value + more))).1.toNat +
          l * (carryPlace limit (carry + (value + more))).2.toNat + e =
        carry.toNat + value.toNat + more.toNat ∧
      (e = 0 ∧ carry.toNat + value.toNat + more.toNat < 2 * l ∨ e = 256) := by
  have htotal := toNat_add_add carry value more
  have hmore := more.isLt
  rcases carryPlace_toNat limit (carry + (value + more)) with ⟨hle, hfst, hsnd⟩ | ⟨hlt, hfst, hsnd⟩
  · rw [hfst] at hrange ⊢
    rw [hsnd, Nat.mul_one]
    exact ⟨0, by omega, .inl ⟨rfl, by omega⟩⟩
  · rw [hfst, hsnd, Nat.mul_zero]
    rcases Nat.lt_or_ge (carry.toNat + value.toNat + more.toNat) 256 with hsmall | hlarge
    · exact ⟨0, by omega, .inl ⟨rfl, by omega⟩⟩
    · exact ⟨256, by omega, .inr rfl⟩

/-- With room for one carry a place is in range. -/
theorem carryPlace_lt {limit carry value more : Byte} {l : ℕ} (hlimit : limit.toNat = l)
    (hdouble : 2 * l ≤ 256) (ht : carry.toNat + value.toNat + more.toNat < 2 * l) :
    (carryPlace limit (carry + (value + more))).1.toNat < l := by
  have htotal := toNat_add_add carry value more
  rcases carryPlace_toNat limit (carry + (value + more)) with ⟨-, hfst, -⟩ | ⟨hlt, hfst, -⟩
  · omega
  · omega

/-- With room for one carry a place divides its total. -/
theorem carryPlace_exact (carry more : Byte) {limit value : Byte} {l : ℕ} (hlimit : limit.toNat = l)
    (hdouble : 2 * l ≤ 256) (hcarry : carry.toNat ≤ 1) (hvalue : value.toNat < l)
    (ht : carry.toNat + value.toNat + more.toNat < 2 * l) :
    (carry.toNat + value.toNat + more.toNat) / l =
        (carryPlace limit (carry + (value + more))).2.toNat ∧
      (carry.toNat + value.toNat + more.toNat) % l =
        (carryPlace limit (carry + (value + more))).1.toNat := by
  have hrange := carryPlace_lt hlimit hdouble ht
  obtain ⟨e, hsum, he⟩ := carryPlace_spec carry more hlimit hdouble hcarry hvalue hrange
  refine (Nat.div_mod_unique (by omega)).2 ⟨?_, hrange⟩
  omega

theorem weekDayPlace_toNat (total : Byte) :
    7 < total.toNat ∧ (weekDayPlace total).toNat = total.toNat - 7 ∨
      total.toNat ≤ 7 ∧ (weekDayPlace total).toNat = total.toNat := by
  unfold weekDayPlace
  by_cases hgt : total > 7
  · rw [if_pos hgt]
    exact .inl ⟨BitVec.lt_def.1 hgt, BitVec.toNat_sub_of_le (BitVec.le_of_lt hgt)⟩
  · rw [if_neg hgt]
    exact .inr ⟨BitVec.le_def.1 (BitVec.not_lt.1 hgt), rfl⟩

/-- A weekday in range is its total but for a week, and from the second week on
for 256 days. -/
theorem weekDayPlace_spec (carry more : Byte) {value : Byte} (hcarry : carry.toNat ≤ 1)
    (hvalue : value.toNat ≤ 7) (hpos : 1 ≤ (weekDayPlace (carry + (value + more))).toNat)
    (hle : (weekDayPlace (carry + (value + more))).toNat ≤ 7) :
    ∃ e q, (weekDayPlace (carry + (value + more))).toNat + 7 * q + e =
        carry.toNat + value.toNat + more.toNat ∧
      (e = 0 ∧ carry.toNat + value.toNat + more.toNat < 15 ∨ e = 256) := by
  have htotal := toNat_add_add carry value more
  have hmore := more.isLt
  rcases weekDayPlace_toNat (carry + (value + more)) with ⟨hgt, hday⟩ | ⟨hlow, hday⟩
  · exact ⟨0, 1, by omega, .inl ⟨rfl, by omega⟩⟩
  · rcases Nat.lt_or_ge (carry.toNat + value.toNat + more.toNat) 256 with hsmall | hlarge
    · exact ⟨0, 0, by omega, .inl ⟨rfl, by omega⟩⟩
    · exact ⟨256, 0, by omega, .inr rfl⟩

theorem weekDayPlace_range {carry value : Byte} (more : Byte) (hpos : 1 ≤ value.toNat)
    (ht : carry.toNat + value.toNat + more.toNat < 15) :
    1 ≤ (weekDayPlace (carry + (value + more))).toNat ∧
      (weekDayPlace (carry + (value + more))).toNat ≤ 7 := by
  have htotal := toNat_add_add carry value more
  rcases weekDayPlace_toNat (carry + (value + more)) with ⟨hgt, hday⟩ | ⟨hlow, hday⟩
  · omega
  · omega

/-! ## The alarm

The totals of the four places, as numbers: each is the sum of the two times and
of all the carries of the place before. -/

def secondsTotal (info : RtcInfo) (sec : Byte) : ℕ := info.seconds.toNat + sec.toNat

def minutesTotal (info : RtcInfo) (min sec : Byte) : ℕ :=
  secondsTotal info sec / 60 + info.minutes.toNat + min.toNat

def hoursTotal (info : RtcInfo) (hour min sec : Byte) : ℕ :=
  minutesTotal info min sec / 60 + info.hours.toNat + hour.toNat

def weekDayTotal (info : RtcInfo) (day hour min sec : Byte) : ℕ :=
  hoursTotal info hour min sec / 24 + info.weekDay.toNat + day.toNat

/-- No place of the sum carries twice. -/
structure OneCarry (info : RtcInfo) (day hour min sec : Byte) : Prop where
  seconds_lt : secondsTotal info sec < 120
  minutes_lt : minutesTotal info min sec < 120
  hours_lt : hoursTotal info hour min sec < 48
  weekDay_lt : weekDayTotal info day hour min sec < 15

/-- Of the errors of a right alarm, 256 in each place that wrapped, the sum is a
multiple of a week, and so there is none. -/
theorem no_error {e₁ e₂ e₃ e₄ : ℕ} (h₁ : e₁ = 0 ∨ e₁ = 256) (h₂ : e₂ = 0 ∨ e₂ = 256)
    (h₃ : e₃ = 0 ∨ e₃ = 256) (h₄ : e₄ = 0 ∨ e₄ = 256)
    (hsum : secondsPerWeek ∣ ((e₄ * 24 + e₃) * 60 + e₂) * 60 + e₁) :
    e₁ = 0 ∧ e₂ = 0 ∧ e₃ = 0 ∧ e₄ = 0 := by
  unfold secondsPerWeek at hsum
  omega

/-! The places of the sum, each with the carry of the one before. -/

def secondsPlace (info : RtcInfo) (sec : Byte) : Byte × Byte :=
  carryPlace 60 (0#8 + (info.seconds + sec))

def minutesPlace (info : RtcInfo) (min sec : Byte) : Byte × Byte :=
  carryPlace 60 ((secondsPlace info sec).2 + (info.minutes + min))

def hoursPlace (info : RtcInfo) (hour min sec : Byte) : Byte × Byte :=
  carryPlace 24 ((minutesPlace info min sec).2 + (info.hours + hour))

theorem rtcAlarmRegister_eq (info : RtcInfo) (day hour min sec : Byte) :
    rtcAlarmRegister info day hour min sec =
      rtcSetAlarm (weekDayPlace ((hoursPlace info hour min sec).2 + (info.weekDay + day)))
        (hoursPlace info hour min sec).1 (minutesPlace info min sec).1
        (secondsPlace info sec).1 := by
  unfold hoursPlace minutesPlace secondsPlace
  rw [BitVec.zero_add]
  rfl

theorem secondsTotal_eq (info : RtcInfo) (sec : Byte) :
    secondsTotal info sec = (0#8).toNat + info.seconds.toNat + sec.toNat :=
  congrArg (· + sec.toNat) (Nat.zero_add _).symm

theorem secondsPlace_exact {info : RtcInfo} {sec : Byte} (hsec : secondsTotal info sec < 120) :
    secondsTotal info sec / 60 = (secondsPlace info sec).2.toNat ∧
      secondsTotal info sec % 60 = (secondsPlace info sec).1.toNat := by
  rw [secondsTotal_eq] at hsec ⊢
  exact carryPlace_exact 0#8 sec rfl (by decide) (by decide) info.seconds_lt hsec

theorem minutesTotal_eq {info : RtcInfo} {sec : Byte} (min : Byte)
    (hsec : secondsTotal info sec < 120) :
    minutesTotal info min sec =
      (secondsPlace info sec).2.toNat + info.minutes.toNat + min.toNat := by
  rw [minutesTotal, (secondsPlace_exact hsec).1]

theorem minutesPlace_exact {info : RtcInfo} {min sec : Byte} (hsec : secondsTotal info sec < 120)
    (hmin : minutesTotal info min sec < 120) :
    minutesTotal info min sec / 60 = (minutesPlace info min sec).2.toNat ∧
      minutesTotal info min sec % 60 = (minutesPlace info min sec).1.toNat := by
  rw [minutesTotal_eq min hsec] at hmin ⊢
  refine carryPlace_exact _ min rfl (by decide) ?_ info.minutes_lt hmin
  apply carryPlace_snd_le

theorem hoursTotal_eq {info : RtcInfo} {min sec : Byte} (hour : Byte)
    (hsec : secondsTotal info sec < 120) (hmin : minutesTotal info min sec < 120) :
    hoursTotal info hour min sec =
      (minutesPlace info min sec).2.toNat + info.hours.toNat + hour.toNat := by
  rw [hoursTotal, (minutesPlace_exact hsec hmin).1]

theorem hoursPlace_exact {info : RtcInfo} {hour min sec : Byte}
    (hsec : secondsTotal info sec < 120) (hmin : minutesTotal info min sec < 120)
    (hhour : hoursTotal info hour min sec < 48) :
    hoursTotal info hour min sec / 24 = (hoursPlace info hour min sec).2.toNat ∧
      hoursTotal info hour min sec % 24 = (hoursPlace info hour min sec).1.toNat := by
  rw [hoursTotal_eq hour hsec hmin] at hhour ⊢
  refine carryPlace_exact _ hour rfl (by decide) ?_ info.hours_lt hhour
  apply carryPlace_snd_le

theorem weekDayTotal_eq {info : RtcInfo} {hour min sec : Byte} (day : Byte)
    (hsec : secondsTotal info sec < 120) (hmin : minutesTotal info min sec < 120)
    (hhour : hoursTotal info hour min sec < 48) :
    weekDayTotal info day hour min sec =
      (hoursPlace info hour min sec).2.toNat + info.weekDay.toNat + day.toNat := by
  rw [weekDayTotal, (hoursPlace_exact hsec hmin hhour).1]

/-- Places short of their totals by errors are at the distance if the errors are
weeks. -/
theorem distance_iff {info : RtcInfo} {day hour min sec week : Byte} {s m h : Byte × Byte}
    {e₁ e₂ e₃ e₄ q : ℕ}
    (hs : s.1.toNat + 60 * s.2.toNat + e₁ = (0#8).toNat + info.seconds.toNat + sec.toNat)
    (hm : m.1.toNat + 60 * m.2.toNat + e₂ = s.2.toNat + info.minutes.toNat + min.toNat)
    (hh : h.1.toNat + 24 * h.2.toNat + e₃ = m.2.toNat + info.hours.toNat + hour.toNat)
    (hw : week.toNat + 7 * q + e₄ = h.2.toNat + info.weekDay.toNat + day.toNat) :
    weekSeconds week h.1 m.1 s.1 ≡
        weekSeconds info.weekDay info.hours info.minutes info.seconds + weekSeconds day hour min sec
          [MOD secondsPerWeek] ↔
      secondsPerWeek ∣ ((e₄ * 24 + e₃) * 60 + e₂) * 60 + e₁ := by
  rw [show (0#8).toNat = 0 from rfl] at hs
  have hexact : weekSeconds info.weekDay info.hours info.minutes info.seconds +
        weekSeconds day hour min sec =
      weekSeconds week h.1 m.1 s.1 +
        ((((e₄ * 24 + e₃) * 60 + e₂) * 60 + e₁) + secondsPerWeek * q) := by
    unfold weekSeconds secondsPerWeek
    omega
  rw [hexact, Nat.left_modEq_add_iff, Nat.dvd_add_left (Nat.dvd_mul_right secondsPerWeek q)]

/-- An alarm in range is at the distance if and only if no place carries twice:
each place is short of its total by an error, and the errors of an alarm at the
distance are no errors at all. -/
theorem distance_iff_oneCarry {info : RtcInfo} {day hour min sec : Byte}
    (hseconds : (secondsPlace info sec).1.toNat < 60)
    (hminutes : (minutesPlace info min sec).1.toNat < 60)
    (hhours : (hoursPlace info hour min sec).1.toNat < 24)
    (hpos : 1 ≤ (weekDayPlace ((hoursPlace info hour min sec).2 + (info.weekDay + day))).toNat)
    (hle : (weekDayPlace ((hoursPlace info hour min sec).2 + (info.weekDay + day))).toNat ≤ 7) :
    weekSeconds (weekDayPlace ((hoursPlace info hour min sec).2 + (info.weekDay + day)))
          (hoursPlace info hour min sec).1 (minutesPlace info min sec).1 (secondsPlace info sec).1 ≡
        weekSeconds info.weekDay info.hours info.minutes info.seconds + weekSeconds day hour min sec
          [MOD secondsPerWeek] ↔
      OneCarry info day hour min sec := by
  obtain ⟨e₁, hsum₁, he₁⟩ :=
    carryPlace_spec (l := 60) 0#8 sec rfl (by decide) (by decide) info.seconds_lt hseconds
  obtain ⟨e₂, hsum₂, he₂⟩ := carryPlace_spec (l := 60) (secondsPlace info sec).2 min rfl
    (by decide) (carryPlace_snd_le _ _) info.minutes_lt hminutes
  obtain ⟨e₃, hsum₃, he₃⟩ := carryPlace_spec (l := 24) (minutesPlace info min sec).2 hour rfl
    (by decide) (carryPlace_snd_le _ _) info.hours_lt hhours
  obtain ⟨e₄, q, hsum₄, he₄⟩ := weekDayPlace_spec (hoursPlace info hour min sec).2 day
    (carryPlace_snd_le _ _) info.weekDay_le hpos hle
  change (secondsPlace info sec).1.toNat + 60 * (secondsPlace info sec).2.toNat + e₁ = _ at hsum₁
  change (minutesPlace info min sec).1.toNat + 60 * (minutesPlace info min sec).2.toNat + e₂ = _
    at hsum₂
  change (hoursPlace info hour min sec).1.toNat + 24 * (hoursPlace info hour min sec).2.toNat + e₃ =
    _ at hsum₃
  refine (distance_iff hsum₁ hsum₂ hsum₃ hsum₄).trans ⟨fun hdvd => ?_, fun honce => ?_⟩
  · obtain ⟨rfl, rfl, rfl, rfl⟩ := no_error (he₁.imp_left And.left) (he₂.imp_left And.left)
      (he₃.imp_left And.left) (he₄.imp_left And.left) hdvd
    have hsec : secondsTotal info sec < 120 := by
      rw [secondsTotal_eq]
      omega
    have hmin : minutesTotal info min sec < 120 := by
      rw [minutesTotal_eq min hsec]
      omega
    have hhour : hoursTotal info hour min sec < 48 := by
      rw [hoursTotal_eq hour hsec hmin]
      omega
    refine ⟨hsec, hmin, hhour, ?_⟩
    rw [weekDayTotal_eq day hsec hmin hhour]
    omega
  · obtain ⟨hsec, hmin, hhour, hday⟩ := honce
    rw [weekDayTotal_eq day hsec hmin hhour] at hday
    rw [hoursTotal_eq hour hsec hmin] at hhour
    rw [minutesTotal_eq min hsec] at hmin
    rw [secondsTotal_eq] at hsec
    have hnone : ((e₄ * 24 + e₃) * 60 + e₂) * 60 + e₁ = 0 := by omega
    rw [hnone]
    exact Nat.dvd_zero _

/-- The alarm is right if and only if the seconds, minutes, hours and days each
carry at most once. -/
theorem alarm_right_iff (info : RtcInfo) (day hour min sec : Byte) :
    (rtcAlarmRegister info day hour min sec).Right info day hour min sec ↔
      OneCarry info day hour min sec := by
  rw [rtcAlarmRegister_eq]
  constructor
  · intro hright
    exact (distance_iff_oneCarry hright.seconds_lt hright.minutes_lt hright.hours_lt
      hright.weekDay_pos hright.weekDay_le).1 hright.distance
  · intro honce
    have hseconds : (secondsPlace info sec).1.toNat < 60 := by
      rw [← (secondsPlace_exact honce.seconds_lt).2]
      exact Nat.mod_lt _ (by decide)
    have hminutes : (minutesPlace info min sec).1.toNat < 60 := by
      rw [← (minutesPlace_exact honce.seconds_lt honce.minutes_lt).2]
      exact Nat.mod_lt _ (by decide)
    have hhours : (hoursPlace info hour min sec).1.toNat < 24 := by
      rw [← (hoursPlace_exact honce.seconds_lt honce.minutes_lt honce.hours_lt).2]
      exact Nat.mod_lt _ (by decide)
    obtain ⟨hpos, hle⟩ := weekDayPlace_range day info.weekDay_pos
      (weekDayTotal_eq day honce.seconds_lt honce.minutes_lt honce.hours_lt ▸ honce.weekDay_lt)
    exact ⟨hhours, hminutes, hseconds, rfl, hpos, hle, rfl, rfl,
      (distance_iff_oneCarry hseconds hminutes hhours hpos hle).2 honce⟩

/-- Two minutes from midnight on Monday are 60 seconds past the first minute. -/
theorem two_minutes_in_seconds :
    ¬ ∀ (info : RtcInfo) (day hour min sec : Byte),
      (rtcAlarmRegister info day hour min sec).Right info day hour min sec := by
  intro hall
  have hright := hall ⟨0, 0, 0, 1, by decide, by decide, by decide, by decide, by decide⟩ 0 0 0 120
  exact absurd hright.seconds_lt (by decide)

end Stm32Handler.Rtc
