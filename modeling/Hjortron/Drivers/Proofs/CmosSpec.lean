import Hjortron.Drivers.Cmos

/-!
# The time that `cmos_time` reads

The clock counts in BCD or in binary, and to 12 or to 24 hours. A clock of 12 hours shows the hours
after midnight and after noon as 12, which `cmos_time` does not take into account.
-/

namespace Hjortron

/-! ## Clocks -/

/-- A date in a century with a time of day. -/
structure DateTime where
  second : Nat
  minute : Nat
  hour : Nat
  day : Nat
  month : Nat
  year : Nat
  second_lt : second < 60
  minute_lt : minute < 60
  hour_lt : hour < 24
  day_lt : day < 32
  month_lt : month < 13
  year_lt : year < 100

/-- A number in a register. -/
def clockByte (bcd : Bool) (n : Nat) : Byte :=
  BitVec.ofNat 8 (if bcd then 16 * (n / 10) + n % 10 else n)

/-- The hour in its register: without `hours24` from 1 to 12, with a bit for the afternoon. -/
def clockHour (bcd hours24 : Bool) (hour : Nat) : Byte :=
  if hours24 then clockByte bcd hour
  else clockByte bcd (if hour % 12 = 0 then 12 else hour % 12) ||| if 12 ≤ hour then 0x80 else 0

namespace Rtc

/-- The clock counts in BCD. -/
def bcd (d : Rtc) : Bool := d.registers 0x0B &&& 0x04 = 0

/-- The clock counts to 24 hours. -/
def hours24 (d : Rtc) : Bool := d.registers 0x0B &&& 0x02 ≠ 0

/-- The registers show the time. -/
structure Shows (d : Rtc) (t : DateTime) : Prop where
  second : d.registers 0x00 = clockByte d.bcd t.second
  minute : d.registers 0x02 = clockByte d.bcd t.minute
  hour : d.registers 0x04 = clockHour d.bcd d.hours24 t.hour
  day : d.registers 0x07 = clockByte d.bcd t.day
  month : d.registers 0x08 = clockByte d.bcd t.month
  year : d.registers 0x09 = clockByte d.bcd t.year

end Rtc

section

variable {d : Rtc} {t : DateTime} {fuel : Nat} {offset : Byte}

/-! ## Reading -/

theorem and_update (b : Byte) : b &&& 0x7F &&& 0x80 = 0 := by
  rw [BitVec.and_assoc]
  exact BitVec.and_zero

theorem or_update (b : Byte) : (b ||| 0x80) &&& 0x80 ≠ 0 := by
  intro h
  have hbit := congrArg (fun v : Byte => v.getLsbD 7) h
  simp at hbit

theorem cmosWait_idle (h : d.updating = 0) : cmosWait d = (false, d.idle 0x0A) := by
  unfold cmosWait Rtc.inb Rtc.outb Rtc.idle
  simp only [if_true, h, and_update, bne_self_eq_false]

theorem cmosWait_updating (h : d.updating ≠ 0) :
    cmosWait d = (true, { d with index := 0x0A, updating := d.updating - 1 }) := by
  unfold cmosWait Rtc.inb Rtc.outb
  simp only [if_true, if_neg h, bne_iff_ne.mpr (or_update _)]

/-- The loop ends with the update. -/
theorem cmosTimeWait_eq (h : d.updating < fuel) : cmosTimeWait fuel d = some (d.idle 0x0A) := by
  induction fuel generalizing d with
  | zero => exact absurd h (Nat.not_lt_zero _)
  | succ fuel ih =>
    rw [cmosTimeWait]
    by_cases hzero : d.updating = 0
    · rw [cmosWait_idle hzero]
      rfl
    · rw [cmosWait_updating hzero]
      exact ih (by change d.updating - 1 < fuel; omega)

theorem cmosRead_idle {index : Byte} (h : offset ≠ 0x0A) :
    cmosRead offset (d.idle index) = (d.registers offset, d.idle offset) := by
  unfold cmosRead Rtc.inb Rtc.outb Rtc.idle
  simp only [if_true, if_neg h]

/-- `cmos_time` converts what is in the registers after an update. -/
theorem cmosTime_eq (h : d.updating < fuel) :
    cmosTime fuel d = some (convertTime (d.registers 0xB) {
      second := d.registers 0x00
      minute := d.registers 0x02
      hour := d.registers 0x04
      day := d.registers 0x07
      month := d.registers 0x08
      year := d.registers 0x09 }, d.idle 0xB) := by
  unfold cmosTime
  simp (disch := decide) only [cmosTimeWait_eq h, Option.bind_eq_bind, Option.bind_some,
    cmosRead_idle, pure]

/-! ## Converting -/

theorem fromBcd_clockByte {n : Nat} (hn : n < 100) : (fromBcd (clockByte true n)).toNat = n := by
  have hall : ∀ n < 100, (fromBcd (clockByte true n)).toNat = n := by decide
  exact hall n hn

theorem clockByte_toNat {n : Nat} (hn : n < 100) : (clockByte false n).toNat = n := by
  change (BitVec.ofNat 8 n).toNat = n
  rw [BitVec.toNat_ofNat]
  omega

/-- The hour that `cmos_time` makes of its register. -/
def convertHour (bcd hours24 : Bool) (hour : Byte) : Byte :=
  let hour :=
    if bcd then ((hour &&& 0xF) + (hour &&& 0x70) / 16 * 10) + (hour &&& 0x80) else hour
  if !hours24 ∧ hour &&& 0x80 ≠ 0 then BitVec.ofNat 8 (((hour &&& 0x7F).toNat + 12) % 24)
  else hour

/-- The number that `cmos_time` makes of another register. -/
def convertByte (bcd : Bool) (value : Byte) : Byte := if bcd then fromBcd value else value

theorem convertTime_eq (d : Rtc) (time : Time) :
    convertTime (d.registers 0xB) time = {
      second := convertByte d.bcd time.second
      minute := convertByte d.bcd time.minute
      hour := convertHour d.bcd d.hours24 time.hour
      day := convertByte d.bcd time.day
      month := convertByte d.bcd time.month
      year := convertByte d.bcd time.year } := by
  unfold convertTime convertByte convertHour Rtc.bcd Rtc.hours24
  by_cases hbcd : d.registers 0xB &&& 0x4 = 0 <;> by_cases h24 : d.registers 0xB &&& 0x2 = 0 <;>
    simp only [hbcd, h24, decide_true, decide_false, if_true, if_false, true_and, false_and,
      Bool.not_true, Bool.not_false, ne_eq, not_true, not_false_eq_true, Bool.false_eq_true]
  · split_ifs <;> rfl
  · split_ifs <;> rfl

theorem convertByte_clockByte {bcd : Bool} {n : Nat} (hn : n < 100) :
    (convertByte bcd (clockByte bcd n)).toNat = n := by
  cases bcd with
  | false => exact clockByte_toNat hn
  | true => exact fromBcd_clockByte hn

/-- The hours after midnight and after noon are taken for those twelve hours later. -/
theorem convertHour_clockHour (bcd hours24 : Bool) {hour : Nat} (h : hour < 24) :
    (convertHour bcd hours24 (clockHour bcd hours24 hour)).toNat =
      if hours24 ∨ hour % 12 ≠ 0 then hour else (hour + 12) % 24 := by
  have hall : ∀ bcd hours24, ∀ hour < 24,
      (convertHour bcd hours24 (clockHour bcd hours24 hour)).toNat =
        if hours24 ∨ hour % 12 ≠ 0 then hour else (hour + 12) % 24 := by decide
  exact hall bcd hours24 hour h

/-- **The time of the clock.** `cmos_time` waits for the end of an update, leaves the registers as
they are, and returns the date and the time that they show, but for a clock of 12 hours between
midnight and one and between noon and one: there the hour is twelve off. -/
theorem cmosTime_shown_iff (h : d.Shows t) :
    ∃ fuel time d', cmosTime fuel d = some (time, d') ∧ d'.registers = d.registers ∧
      (time.second.toNat = t.second ∧ time.minute.toNat = t.minute ∧ time.day.toNat = t.day ∧
        time.month.toNat = t.month ∧ time.year.toNat = t.year) ∧
      (time.hour.toNat = t.hour ↔ d.hours24 = true ∨ t.hour % 12 ≠ 0) ∧
      (time.hour.toNat ≠ t.hour → time.hour.toNat = (t.hour + 12) % 24) := by
  have hsecond := t.second_lt
  have hminute := t.minute_lt
  have hhour := t.hour_lt
  have hday := t.day_lt
  have hmonth := t.month_lt
  have hrun : cmosTime (d.updating + 1) d = some (_, d.idle 0xB) :=
    cmosTime_eq (Nat.lt_succ_self _)
  rw [convertTime_eq, h.second, h.minute, h.hour, h.day, h.month, h.year] at hrun
  have hconverted := convertHour_clockHour d.bcd d.hours24 hhour
  refine ⟨_, _, _, hrun, rfl, ⟨convertByte_clockByte (by omega), convertByte_clockByte (by omega),
    convertByte_clockByte (by omega), convertByte_clockByte (by omega),
    convertByte_clockByte t.year_lt⟩, ?_, ?_⟩
  · change (convertHour d.bcd d.hours24 (clockHour d.bcd d.hours24 t.hour)).toNat = t.hour ↔ _
    rw [hconverted]
    split_ifs with hc
    · exact ⟨fun _ => hc, fun _ => rfl⟩
    · constructor
      · intro heq
        omega
      · intro hmode
        exact absurd hmode hc
  · change (convertHour d.bcd d.hours24 (clockHour d.bcd d.hours24 t.hour)).toNat ≠ t.hour →
      (convertHour d.bcd d.hours24 (clockHour d.bcd d.hours24 t.hour)).toNat = _
    rw [hconverted]
    split_ifs with hc
    · intro hne
      exact absurd rfl hne
    · intro _
      rfl

end

/-- Noon on the last day of a century. -/
def noon : DateTime where
  second := 0
  minute := 0
  hour := 12
  day := 31
  month := 12
  year := 99
  second_lt := by decide
  minute_lt := by decide
  hour_lt := by decide
  day_lt := by decide
  month_lt := by decide
  year_lt := by decide

/-- A clock of 12 hours in BCD at this time, before the end of an update. -/
def noonClock : Rtc where
  index := 0
  registers := fun i => if i = 4 then 0x92 else if i = 7 then 0x31 else if i = 8 then 0x12
    else if i = 9 then 0x99 else 0
  updating := 3

theorem cmosTime_shown_iff_noon :
    ∃ fuel time d, cmosTime fuel noonClock = some (time, d) ∧ time.day.toNat = 31 ∧
      time.hour.toNat = 0 := by
  have hshows : noonClock.Shows noon := ⟨rfl, rfl, rfl, rfl, rfl, rfl⟩
  rcases cmosTime_shown_iff hshows with ⟨fuel, time, d, hrun, -, ⟨-, -, hday, -⟩, hiff, hoff⟩
  have hne : time.hour.toNat ≠ 12 := by
    intro heq
    have hmode := hiff.mp heq
    exact absurd hmode (by decide)
  exact ⟨fuel, time, d, hrun, hday, hoff hne⟩

end Hjortron
